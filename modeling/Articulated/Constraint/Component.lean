import Articulated.Constraint.Basic
import Articulated.Constraint.DisjointSets

/-!
# Connected components

Two constraints belong together if they share a variable, directly or through other constraints.
`Constraints.components` splits a set of constraints into its components:

* components with variables come in ascending order of their smallest variable, and their
  constraints keep their order;
* a constraint without variables is a component of its own, and these come last.

The variables are numbered in ascending order. The sets of the forest over these numbers are the
variables of the components, and each set is named by its smallest variable.
-/

namespace Articulated

variable {α : Type} [Scalar α]

/-- Constraints together with the variables that they touch. -/
structure Component (α : Type) where
  constraints : Constraints α
  keys : KeySet

namespace Component

/-- A component of some constraints, with exactly their variables. -/
def ofConstraints (cs : Constraints α) : Component α := ⟨cs, cs.keys⟩

/-- Whether a variable belongs to the component. -/
def contains (c : Component α) (k : Key) : Bool := c.keys.contains k

end Component

namespace Constraints

/-- The numbers of some variables in an ascending list. -/
def numbers (keys ks : List Key) : List Nat := ks.filterMap (keys.idxOf? ·)

/-- The forest in which the variables of every constraint are in one set. -/
def forest (cs : Constraints α) : DisjointSets :=
  let keys := cs.keys.toList
  cs.items.foldl (fun d c => d.unionAll (numbers keys c.keys)) (.singletons keys.length)

/-- The root of every number in ascending order, found one after the other. -/
def roots (d : DisjointSets) : List Nat → List Nat × DisjointSets
  | [] => ([], d)
  | i :: rest =>
    let (root, d) := d.find i
    let (found, d) := roots d rest
    (root :: found, d)

/-- Every variable with the smallest variable of its set. -/
def representatives (cs : Constraints α) : List (Key × Key) :=
  let keys := cs.keys.toList
  let named := keys.zip (roots cs.forest (List.range keys.length)).1
  named.map fun e => (e.1, ((named.find? fun f => f.2 == e.2).map Prod.fst).getD e.1)

/-- The smallest variable of the component of a constraint, if it has variables. -/
def representative? (table : List (Key × Key)) (c : Constraint α) : Option Key :=
  c.keys.head?.bind fun k => table.lookup k

/-- The connected components. -/
def components (cs : Constraints α) : List (Component α) :=
  let table := cs.representatives
  let tagged := cs.items.map fun c => (representative? table c, c)
  let names := (table.filter fun e => e.1 == e.2).map Prod.fst
  let groups := names.map fun k => tagged.filterMap fun e => if e.1 = some k then some e.2 else none
  let keyless := tagged.filterMap fun e => if e.1 = none then some [e.2] else none
  (groups ++ keyless).map fun g => .ofConstraints ⟨g⟩

end Constraints

end Articulated
