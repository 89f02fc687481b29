/-!
# Disjoint sets

A forest over the numbers below some bound: every number has a parent, roots are their own
parents, and the numbers with one root are one set. A rank bounds the height of the tree below a
root.

* `find` goes to the root of a number, and makes every other number on the way a child of its
  grandparent.
* `union` makes one set out of two; the root of lower rank becomes a child of the other one.

The way up has fewer steps than there are numbers, which is the bound it is walked with.
-/

namespace Articulated

/-- A forest of numbers. -/
structure DisjointSets where
  parent : Array Nat
  rank : Array Nat

namespace DisjointSets

/-- Every number below `n` in a set of its own. -/
def singletons (n : Nat) : DisjointSets := ⟨Array.range n, Array.replicate n 0⟩

/-- The number of numbers. -/
def size (d : DisjointSets) : Nat := d.parent.size

/-- The parent of a number. -/
def parentOf (d : DisjointSets) (i : Nat) : Nat := d.parent.getD i i

/-- The rank of a number. -/
def rankOf (d : DisjointSets) (i : Nat) : Nat := d.rank.getD i 0

/-- Gives a number a new parent. -/
def setParent (d : DisjointSets) (i p : Nat) : DisjointSets :=
  { d with parent := d.parent.setIfInBounds i p }

/-- Walks up from a number, halving the way; at most the given number of steps. -/
def walk : Nat → DisjointSets → Nat → Nat × DisjointSets
  | 0, d, i => (i, d)
  | steps + 1, d, i =>
    if d.parentOf i = i then (i, d)
    else
      let grandparent := d.parentOf (d.parentOf i)
      walk steps (d.setParent i grandparent) grandparent

/-- The root of a number, and the forest with the way to it halved. -/
def find (d : DisjointSets) (i : Nat) : Nat × DisjointSets := walk d.size d i

/-- Makes one set out of the sets of two roots. -/
def link (d : DisjointSets) (a b : Nat) : DisjointSets :=
  if d.rankOf a < d.rankOf b then d.setParent a b
  else if d.rankOf b < d.rankOf a then d.setParent b a
  else { d.setParent b a with rank := d.rank.setIfInBounds a (d.rankOf a + 1) }

/-- Makes one set out of the sets of two numbers. -/
def union (d : DisjointSets) (a b : Nat) : DisjointSets :=
  let (a, d) := d.find a
  let (b, d) := d.find b
  if a = b then d else d.link a b

/-- Makes one set out of the sets of all numbers of a list, neighbour by neighbour. -/
def unionAll (d : DisjointSets) : List Nat → DisjointSets
  | a :: b :: rest => (d.union a b).unionAll (b :: rest)
  | _ => d

end DisjointSets

end Articulated
