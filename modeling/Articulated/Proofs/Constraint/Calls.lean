import Articulated.Proofs.Constraint.Connectivity

/-!
# Calls on disjoint sets

Disjoint sets start from keys, each in a set of its own, and are then called in any order: searched
by a number, joined at two numbers, searched by a key. What the forest promises is promised in
every state that such calls lead to (`KeyedSets.Faithful`).

A search is a loop that changes the forest while it walks through it. It is told here without a
bound on its steps (`DisjointSets.WalksTo`), so that its end is something to be proved; the ranks,
which grow along the way up and which no halving touches, are what it runs out of.

* `DisjointSets.walksTo_iff`: the loop ends, and with the answer of `find` alone.
* `DisjointSets.two_pow_rankOf_le`: ranks are logarithms of the number of numbers.
* `KeyedSets.call_keeps`, `KeyedSets.run_keeps`: a call keeps the invariant, and so do all.
* `Constraints.forest_faithful`: the forest of a set of constraints is reached by such calls.
* `KeyedSets.run_faithful`: every state that is reached keeps its promises.
-/

namespace Articulated

/-! ## 1. The loop of a search -/

namespace DisjointSets

/-- The walk up from a number to an answer and the forest that it leaves. It stops at a root; any
other number becomes a child of its grandparent, from where the walk goes on. -/
inductive WalksTo : DisjointSets → Nat → Nat → DisjointSets → Prop
  | stop {d : DisjointSets} {i : Nat} (hroot : d.parentOf i = i) : WalksTo d i i d
  | halve {d d' : DisjointSets} {i r : Nat} (hne : d.parentOf i ≠ i)
    (hrest : WalksTo (d.setParent i (d.parentOf (d.parentOf i))) (d.parentOf (d.parentOf i)) r d') :
    WalksTo d i r d'

section Loop

variable {d d' d'' : DisjointSets} {i r r' : Nat}

/-- The loop has one end at most. -/
theorem WalksTo.unique (h : WalksTo d i r d') : WalksTo d i r' d'' → r = r' ∧ d' = d'' := by
  induction h with
  | stop hroot =>
    intro h'
    cases h' with
    | stop => exact ⟨rfl, rfl⟩
    | halve hne => exact absurd hroot hne
  | halve hne _ ih =>
    intro h'
    cases h' with
    | stop hroot => exact absurd hroot hne
    | halve _ hrest => exact ih hrest

/-- A walk with a bound that ends at a root has not been cut off. -/
theorem walksTo_walk : ∀ (steps : Nat) {d : DisjointSets} {i : Nat},
    (walk steps d i).2.parentOf (walk steps d i).1 = (walk steps d i).1 →
      WalksTo d i (walk steps d i).1 (walk steps d i).2
  | 0, _, _, h => .stop h
  | steps + 1, d, i, h => by
    unfold walk at h ⊢
    split at h
    · rename_i hroot
      rw [if_pos hroot]
      exact .stop hroot
    · rename_i hne
      rw [if_neg hne]
      exact .halve hne (walksTo_walk steps h)

/-- **The loop ends, and with the answer of the search alone.** -/
theorem walksTo_iff (h : d.WellFormed) (hi : i < d.size) :
    WalksTo d i r d' ↔ d.find i = (r, d') := by
  obtain ⟨hanswer, hkeep⟩ := find_spec h hi
  have hroot : (d.find i).2.parentOf (d.find i).1 = (d.find i).1 := by
    rw [hanswer, ← hkeep.root hi]
    exact parentOf_root hkeep.wellFormed.toRising (hkeep.size.symm ▸ hi)
  have hends : WalksTo d i (d.find i).1 (d.find i).2 := walksTo_walk d.size hroot
  constructor
  · intro hwalk
    obtain ⟨hr, hd⟩ := hends.unique hwalk
    exact Prod.ext hr hd
  · intro hfind
    rwa [hfind] at hends

end Loop

/-! ## 2. The height of ranks -/

section Ranks

variable {d : DisjointSets} {i : Nat}

theorem rankOf_le_climb (h : d.Rising) : ∀ (n : Nat) {i : Nat}, i < d.size →
    d.rankOf i ≤ d.rankOf (d.climb n i)
  | 0, _, _ => le_rfl
  | n + 1, _, hi => (rankOf_le_parent h hi).trans (rankOf_le_climb h n (h.parent_lt hi))

/-- A rank is at most that of the root, below which there are enough numbers for it. -/
theorem two_pow_rankOf_le (h : d.WellFormed) (hi : i < d.size) : 2 ^ d.rankOf i ≤ d.size :=
  calc 2 ^ d.rankOf i
      ≤ 2 ^ d.rankOf (d.root i) :=
        Nat.pow_le_pow_right Nat.two_pos (rankOf_le_climb h.toRising d.size hi)
    _ ≤ (d.members (d.root i)).card :=
        h.weight (root_lt h.toRising hi) (parentOf_root h.toRising hi)
    _ ≤ d.size := (Finset.card_filter_le _ _).trans (Finset.card_range d.size).le

/-- A rank that is one higher still fits into a byte. -/
theorem rankOf_fits (h : d.WellFormed) (hsize : d.size < 2 ^ 255) (hi : i < d.size) :
    d.rankOf i + 1 < 2 ^ 8 := by
  have hrank : d.rankOf i < 255 :=
    (Nat.pow_lt_pow_iff_right Nat.one_lt_two).1 ((two_pow_rankOf_le h hi).trans_lt hsize)
  omega

end Ranks

end DisjointSets

/-! ## 3. Sets of keys -/

/-- Disjoint sets of keys: the keys in the order of their numbers, and the forest over the
numbers. -/
structure KeyedSets where
  keys : List Key
  forest : DisjointSets

/-- A call on disjoint sets. -/
inductive Call where
  /-- The root above a number. -/
  | find (i : Nat)
  /-- One set out of the sets of two numbers. -/
  | union (a b : Nat)
  /-- The root above a key. -/
  | root (k : Key)

/-- The numbers of the call are below a bound. A key may be any. -/
def Call.InRange (n : Nat) : Call → Prop
  | find i => i < n
  | union a b => a < n ∧ b < n
  | root _ => True

instance (n : Nat) (c : Call) : Decidable (c.InRange n) :=
  match c with
  | .find i => inferInstanceAs (Decidable (i < n))
  | .union a b => inferInstanceAs (Decidable (a < n ∧ b < n))
  | .root _ => inferInstanceAs (Decidable True)

namespace KeyedSets

/-- Every key in a set of its own; a key has its number from where it first occurs. -/
def ofKeys (ks : List Key) : KeyedSets := ⟨ks.eraseDups, .singletons ks.eraseDups.length⟩

/-- The number of a key. -/
def number? (s : KeyedSets) (k : Key) : Option Nat := s.keys.idxOf? k

/-- The root above a key, if it has a number, and the sets with the way to it halved. -/
def root? (s : KeyedSets) (k : Key) : Option Nat × KeyedSets :=
  match s.number? k with
  | some i => (some (s.forest.find i).1, ⟨s.keys, (s.forest.find i).2⟩)
  | none => (none, s)

/-- The sets after a call. -/
def call (s : KeyedSets) : Call → KeyedSets
  | .find i => ⟨s.keys, (s.forest.find i).2⟩
  | .union a b => ⟨s.keys, s.forest.union a b⟩
  | .root k => (s.root? k).2

/-- The sets after some calls. -/
def run (s : KeyedSets) (calls : List Call) : KeyedSets := calls.foldl call s

/-- The invariant of sets of keys. -/
structure WellFormed (s : KeyedSets) : Prop where
  forest : s.forest.WellFormed
  size : s.forest.size = s.keys.length

/-- What a state promises. -/
structure Faithful (s : KeyedSets) : Prop where
  /-- Keys have numbers of the forest. -/
  number_lt {k : Key} {i : Nat} : s.number? k = some i → i < s.forest.size
  /-- Parents are numbers of the forest. -/
  parent_lt {i : Nat} : i < s.forest.size → s.forest.parentOf i < s.forest.size
  /-- The way up from a number ends at a root. -/
  ends {i : Nat} : i < s.forest.size → ∃ n, s.forest.climb n i = s.forest.root i ∧
    s.forest.parentOf (s.forest.root i) = s.forest.root i
  /-- The loop of a search ends, and with the answer of the search alone. -/
  loop_ends {i r : Nat} {d : DisjointSets} : i < s.forest.size →
    (s.forest.WalksTo i r d ↔ s.forest.find i = (r, d))
  /-- A search answers the root of the number and keeps all roots. -/
  find {i : Nat} : i < s.forest.size → (s.forest.find i).1 = s.forest.root i ∧
    ∀ j < s.forest.size, (s.forest.find i).2.root j = s.forest.root j
  /-- A search by key answers the root of the number of the key and keeps all roots. -/
  root_known {k : Key} {i : Nat} : s.number? k = some i → (s.root? k).1 = some (s.forest.root i) ∧
    ∀ j < s.forest.size, (s.root? k).2.forest.root j = s.forest.root j
  root_unknown {k : Key} : s.number? k = none → s.root? k = (none, s)
  /-- Two numbers are in one set after a union exactly if they were before, or if each of them was
  in one of the two sets. -/
  union {a b i j : Nat} : a < s.forest.size → b < s.forest.size → i < s.forest.size →
    j < s.forest.size → ((s.forest.union a b).root i = (s.forest.union a b).root j ↔
      s.forest.root i = s.forest.root j ∨
        (s.forest.root i = s.forest.root a ∨ s.forest.root i = s.forest.root b) ∧
          (s.forest.root j = s.forest.root a ∨ s.forest.root j = s.forest.root b))
  /-- A root of rank `r` stands above at least `2 ^ r` numbers. -/
  weight {r : Nat} : r < s.forest.size → s.forest.parentOf r = r →
    2 ^ s.forest.rankOf r ≤
      ((Finset.range s.forest.size).filter fun i => s.forest.root i = r).card
  /-- Ranks fit into a byte, also those that the next union raises. -/
  rank_fits : s.forest.size < 2 ^ 255 → ∀ i < s.forest.size, s.forest.rankOf i + 1 < 2 ^ 8

variable {s : KeyedSets} {c : Call} {k : Key} {i : Nat}

/-! ## 4. Calls keep the invariant -/

theorem wellFormed_ofKeys (ks : List Key) : (ofKeys ks).WellFormed :=
  ⟨DisjointSets.wellFormed_singletons _, DisjointSets.size_singletons _⟩

theorem WellFormed.number_lt (h : s.WellFormed) (hk : s.number? k = some i) :
    i < s.forest.size := by
  rw [h.size]
  exact (List.idxOf?_eq_some_iff.1 hk).1

theorem WellFormed.of_keeps {d : DisjointSets} (h : s.WellFormed) (hd : s.forest.Keeps d) :
    WellFormed ⟨s.keys, d⟩ := ⟨hd.wellFormed, hd.size.trans h.size⟩

theorem root?_of_known (hk : s.number? k = some i) :
    s.root? k = (some (s.forest.find i).1, ⟨s.keys, (s.forest.find i).2⟩) := by
  unfold root?
  rw [hk]

theorem root?_of_unknown (hk : s.number? k = none) : s.root? k = (none, s) := by
  unfold root?
  rw [hk]

/-- **A call keeps the invariant and the numbers of the keys.** -/
theorem call_keeps (h : s.WellFormed) (hc : c.InRange s.keys.length) :
    (s.call c).WellFormed ∧ (s.call c).keys = s.keys := by
  cases c with
  | find i =>
    have hi : i < s.forest.size := h.size.symm ▸ hc
    exact ⟨h.of_keeps (DisjointSets.find_spec h.forest hi).2, rfl⟩
  | union a b =>
    have ha : a < s.forest.size := h.size.symm ▸ hc.1
    have hb : b < s.forest.size := h.size.symm ▸ hc.2
    have hjoins := DisjointSets.union_joins h.forest ha hb
    exact ⟨⟨hjoins.wellFormed, hjoins.size.trans h.size⟩, rfl⟩
  | root k =>
    show (s.root? k).2.WellFormed ∧ (s.root? k).2.keys = s.keys
    cases hk : s.number? k with
    | some i =>
      rw [root?_of_known hk]
      exact ⟨h.of_keeps (DisjointSets.find_spec h.forest (h.number_lt hk)).2, rfl⟩
    | none =>
      rw [root?_of_unknown hk]
      exact ⟨h, rfl⟩

/-- **All calls of a sequence do.** -/
theorem run_keeps : ∀ {calls : List Call} {s : KeyedSets}, s.WellFormed →
    (∀ c ∈ calls, c.InRange s.keys.length) → (s.run calls).WellFormed ∧ (s.run calls).keys = s.keys
  | [], _, h, _ => ⟨h, rfl⟩
  | c :: calls, s, h, hcalls => by
    obtain ⟨hnext, hkeys⟩ := call_keeps h (hcalls c List.mem_cons_self)
    have hrest : ∀ c' ∈ calls, c'.InRange (s.call c).keys.length := by
      intro c' hc'
      rw [hkeys]
      exact hcalls c' (List.mem_cons_of_mem c hc')
    obtain ⟨hend, hsame⟩ := run_keeps hnext hrest
    exact ⟨hend, hsame.trans hkeys⟩

/-- The promises follow from the invariant. -/
theorem WellFormed.faithful (h : s.WellFormed) : s.Faithful where
  number_lt := h.number_lt
  parent_lt := h.forest.parent_lt
  ends hi := ⟨s.forest.size, rfl, DisjointSets.parentOf_root h.forest.toRising hi⟩
  loop_ends := DisjointSets.walksTo_iff h.forest
  find hi := by
    obtain ⟨hanswer, hkeep⟩ := DisjointSets.find_spec h.forest hi
    exact ⟨hanswer, fun _ => hkeep.root⟩
  root_known hk := by
    obtain ⟨hanswer, hkeep⟩ := DisjointSets.find_spec h.forest (h.number_lt hk)
    rw [root?_of_known hk, hanswer]
    exact ⟨rfl, fun _ => hkeep.root⟩
  root_unknown := root?_of_unknown
  union ha hb := (DisjointSets.union_joins h.forest ha hb).root_eq_iff
  weight := h.forest.weight
  rank_fits hsize _ := DisjointSets.rankOf_fits h.forest hsize

end KeyedSets

/-! ## 5. The forest of a set of constraints -/

/-- The unions of neighbours in a list of numbers. -/
def neighbourCalls : List Nat → List Call
  | a :: b :: rest => .union a b :: neighbourCalls (b :: rest)
  | _ => []

theorem neighbourCalls_inRange {n : Nat} : ∀ {l : List Nat}, (∀ i ∈ l, i < n) →
    ∀ c ∈ neighbourCalls l, c.InRange n
  | [], _ => fun _ hc => absurd hc List.not_mem_nil
  | [_], _ => fun _ hc => absurd hc List.not_mem_nil
  | a :: b :: rest, hl => by
    obtain ⟨ha, htail⟩ := List.forall_mem_cons.1 hl
    exact List.forall_mem_cons.2
      ⟨⟨ha, htail b List.mem_cons_self⟩, neighbourCalls_inRange htail⟩

namespace KeyedSets

theorem run_append (s : KeyedSets) (l l' : List Call) : s.run (l ++ l') = (s.run l).run l' :=
  List.foldl_append

theorem run_neighbourCalls (keys : List Key) : ∀ (l : List Nat) (d : DisjointSets),
    run ⟨keys, d⟩ (neighbourCalls l) = ⟨keys, d.unionAll l⟩
  | [], _ => rfl
  | [_], _ => rfl
  | a :: b :: rest, d => run_neighbourCalls keys (b :: rest) (d.union a b)

theorem run_flatMap_neighbourCalls {β : Type} (keys : List Key) (f : β → List Nat) :
    ∀ (l : List β) (d : DisjointSets), run ⟨keys, d⟩ (l.flatMap fun b => neighbourCalls (f b)) =
      ⟨keys, l.foldl (fun d b => d.unionAll (f b)) d⟩
  | [], _ => rfl
  | b :: l, d => by
    rw [List.flatMap_cons, run_append, run_neighbourCalls]
    exact run_flatMap_neighbourCalls keys f l _

end KeyedSets

theorem eraseDups_of_nodup : ∀ {ks : List Key}, ks.Nodup → ks.eraseDups = ks
  | [], _ => List.eraseDups_nil
  | k :: ks, h => by
    obtain ⟨hk, hks⟩ := List.nodup_cons.1 h
    have hkeep : (ks.filter fun q => !q == k) = ks := by
      refine List.filter_eq_self.2 fun q hq => ?_
      simpa using fun heq : q = k => hk (heq ▸ hq)
    rw [List.eraseDups_cons, hkeep, eraseDups_of_nodup hks]

namespace Constraints

variable {α : Type}

/-- The unions that join the variables of every constraint. -/
def calls (cs : Constraints α) : List Call :=
  cs.items.flatMap fun c => neighbourCalls (numbers cs.keys.toList c.keys)

theorem calls_inRange (cs : Constraints α) :
    ∀ c ∈ cs.calls, c.InRange (KeyedSets.ofKeys cs.keys.toList).keys.length := by
  intro call hcall
  obtain ⟨c, hc, hcall⟩ := List.mem_flatMap.1 hcall
  refine neighbourCalls_inRange (fun i hi => ?_) call hcall
  obtain ⟨k, hk, rfl⟩ := (mem_numbers hc).1 hi
  show _ < cs.keys.toList.eraseDups.length
  rw [eraseDups_of_nodup cs.keys.nodup]
  exact List.idxOf_lt_length_of_mem (mem_keys_of_mem hc hk)

/-- The forest is what these unions make of the variables in ascending order. -/
theorem forest_eq_run (cs : Constraints α) :
    (KeyedSets.ofKeys cs.keys.toList).run cs.calls = ⟨cs.keys.toList, cs.forest⟩ := by
  unfold KeyedSets.ofKeys calls
  rw [eraseDups_of_nodup cs.keys.nodup]
  exact KeyedSets.run_flatMap_neighbourCalls _ _ _ _

/-- **The forest of a set of constraints keeps its promises.** -/
theorem forest_faithful (cs : Constraints α) :
    (⟨cs.keys.toList, cs.forest⟩ : KeyedSets).Faithful := by
  rw [← forest_eq_run]
  exact (KeyedSets.run_keeps (KeyedSets.wellFormed_ofKeys _) cs.calls_inRange).1.faithful

end Constraints

/-! ## 6. Every state -/

namespace KeyedSets

/-- **Every state that calls lead to keeps its promises**, and the keys that have numbers are those
that the sets were made from. -/
theorem run_faithful {ks : List Key} {calls : List Call}
    (hcalls : ∀ c ∈ calls, c.InRange (ofKeys ks).keys.length) :
    ((ofKeys ks).run calls).Faithful ∧
      ∀ k, (∃ i, ((ofKeys ks).run calls).number? k = some i) ↔ k ∈ ks := by
  obtain ⟨hwell, hkeys⟩ := run_keeps (wellFormed_ofKeys ks) hcalls
  refine ⟨hwell.faithful, fun k => ?_⟩
  unfold number?
  rw [hkeys, ← Option.isSome_iff_exists]
  show (ks.eraseDups.idxOf? k).isSome ↔ _
  rw [List.isSome_idxOf?, List.mem_eraseDups]

/-- Five keys, one of them twice; two pairs are joined, then the pairs. The search that follows
halves the way of the last number, and a key without a number changes nothing. -/
theorem run_faithful_pairs :
    let start := ofKeys [⟨5⟩, ⟨9⟩, ⟨5⟩, ⟨2⟩, ⟨7⟩]
    let calls : List Call := [.union 0 1, .union 2 3, .union 1 3, .find 3, .root ⟨2⟩, .root ⟨4⟩]
    (∀ c ∈ calls, c.InRange start.keys.length) ∧ (start.run calls).Faithful ∧
      (start.run (calls.take 3)).forest.parent = #[0, 0, 0, 2] ∧
      (start.run calls).forest.parent = #[0, 0, 0, 0] ∧
      (start.run calls).forest.rank = #[2, 0, 1, 0] := by
  intro start calls
  have hcalls : ∀ c ∈ calls, c.InRange start.keys.length := by decide +kernel
  exact ⟨hcalls, (run_faithful hcalls).1, by decide +kernel, by decide +kernel, by decide +kernel⟩

end KeyedSets

end Articulated
