import Articulated.Constraint.DisjointSets
import Mathlib.Algebra.Order.Group.Nat
import Mathlib.Data.Finset.Card
import Mathlib.Data.Finset.Range
import Mathlib.Data.Setoid.Basic

/-!
# The forest of disjoint sets

A forest is well formed (`DisjointSets.WellFormed`) if parents are numbers of the forest, ranks
grow along the way up, and a root of rank `r` stands above at least `2 ^ r` numbers. The sets are
seen through `DisjointSets.root`, the end of the way up; the shape of the trees is not.

* `root_eq_of_invariant`: a function that does not change along the way up, and is the identity
  on roots, is the root. Every change of the forest is read off with it.
* `find_spec`: a search answers the root and keeps all roots.
* `link_joins`, `union_joins`: a union joins the two sets and leaves all others apart.
* `unionAll_merges`, `foldl_unionAll_merges`: the sets of every list become one, and no more is
  joined than an equivalence that contains the lists allows.
-/

namespace Articulated.DisjointSets

/-! ## 1. Parents and ranks -/

section Parents

variable (d : DisjointSets)

theorem parentOf_setParent (i p j : Nat) :
    (d.setParent i p).parentOf j = if j = i ∧ i < d.size then p else d.parentOf j := by
  unfold parentOf setParent size
  rw [Array.getD_eq_getD_getElem?, Array.getD_eq_getD_getElem?, Array.getElem?_setIfInBounds]
  by_cases hij : i = j
  · subst hij
    by_cases hi : i < d.parent.size <;> simp [hi]
  · have hji : ¬ (j = i ∧ i < d.parent.size) := fun h => hij h.1.symm
    rw [if_neg hij, if_neg hji]

theorem size_setParent (i p : Nat) : (d.setParent i p).size = d.size :=
  Array.size_setIfInBounds

theorem rankOf_setParent (i p j : Nat) : (d.setParent i p).rankOf j = d.rankOf j := rfl

/-- The number that is reached by going up so many times. -/
def climb : Nat → Nat → Nat
  | 0, i => i
  | n + 1, i => climb n (d.parentOf i)

/-- The end of the way up. -/
def root (i : Nat) : Nat := d.climb d.size i

/-- The numbers below a root. -/
def members (r : Nat) : Finset Nat := (Finset.range d.size).filter fun i => d.root i = r

/-- The numbers of greater rank. -/
def above (i : Nat) : Finset Nat := (Finset.range d.size).filter fun j => d.rankOf i < d.rankOf j

/-- Parents and ranks are as on the way up to a root; nothing is said of the sizes of trees. -/
structure Rising : Prop where
  parent_lt {i : Nat} : i < d.size → d.parentOf i < d.size
  rank_lt {i : Nat} : i < d.size → d.parentOf i ≠ i → d.rankOf i < d.rankOf (d.parentOf i)

/-- The invariant of a forest. -/
structure WellFormed : Prop extends Rising d where
  ranks : d.rank.size = d.size
  /-- A root of rank `r` stands above at least `2 ^ r` numbers. -/
  weight {r : Nat} : r < d.size → d.parentOf r = r → 2 ^ d.rankOf r ≤ (d.members r).card

end Parents

/-! ## 2. The way up -/

section Climb

variable {d : DisjointSets} {i r : Nat}

theorem climb_of_isRoot (hr : d.parentOf r = r) : ∀ n, d.climb n r = r
  | 0 => rfl
  | n + 1 => by rw [climb, hr, climb_of_isRoot hr n]

theorem climb_lt (h : d.Rising) : ∀ (n : Nat) {i : Nat}, i < d.size → d.climb n i < d.size
  | 0, _, hi => hi
  | n + 1, _, hi => climb_lt h n (h.parent_lt hi)

theorem rankOf_le_parent (h : d.Rising) (hi : i < d.size) :
    d.rankOf i ≤ d.rankOf (d.parentOf i) := by
  by_cases hroot : d.parentOf i = i
  · rw [hroot]
  · exact Nat.le_of_lt (h.rank_lt hi hroot)

theorem card_above_lt {j : Nat} (hj : j < d.size) (hlt : d.rankOf i < d.rankOf j) :
    (d.above j).card < (d.above i).card := by
  refine Finset.card_lt_card (Finset.ssubset_iff_subset_ne.2 ⟨fun k hk => ?_, fun heq => ?_⟩)
  · obtain ⟨hk, hjk⟩ := Finset.mem_filter.1 hk
    exact Finset.mem_filter.2 ⟨hk, Nat.lt_trans hlt hjk⟩
  · have hmem : j ∈ d.above i := Finset.mem_filter.2 ⟨Finset.mem_range.2 hj, hlt⟩
    rw [← heq] at hmem
    exact Nat.lt_irrefl _ (Finset.mem_filter.1 hmem).2

theorem card_above_le (i : Nat) : (d.above i).card ≤ d.size :=
  (Finset.card_filter_le _ _).trans (Finset.card_range d.size).le

theorem card_above_mono {j : Nat} (h : d.rankOf i ≤ d.rankOf j) :
    (d.above j).card ≤ (d.above i).card := by
  refine Finset.card_le_card fun k hk => ?_
  obtain ⟨hk, hjk⟩ := Finset.mem_filter.1 hk
  exact Finset.mem_filter.2 ⟨hk, Nat.lt_of_le_of_lt h hjk⟩

/-- There are no more steps on the way up than numbers of greater rank. -/
theorem parentOf_climb (h : d.Rising) :
    ∀ (n : Nat) {i : Nat}, i < d.size → (d.above i).card ≤ n →
      d.parentOf (d.climb n i) = d.climb n i
  | 0, i, hi, hn => by
    by_cases hroot : d.parentOf i = i
    · exact hroot
    · have := card_above_lt (h.parent_lt hi) (h.rank_lt hi hroot)
      omega
  | n + 1, i, hi, hn => by
    by_cases hroot : d.parentOf i = i
    · rw [climb_of_isRoot hroot, hroot]
    · have := card_above_lt (h.parent_lt hi) (h.rank_lt hi hroot)
      exact parentOf_climb h n (h.parent_lt hi) (by omega)

theorem climb_parent : ∀ (n i : Nat), d.climb n (d.parentOf i) = d.parentOf (d.climb n i)
  | 0, _ => rfl
  | n + 1, i => climb_parent n (d.parentOf i)

theorem parentOf_root (h : d.Rising) (hi : i < d.size) : d.parentOf (d.root i) = d.root i :=
  parentOf_climb h d.size hi (card_above_le i)

theorem root_lt (h : d.Rising) (hi : i < d.size) : d.root i < d.size := climb_lt h d.size hi

theorem root_of_isRoot (hr : d.parentOf r = r) : d.root r = r := climb_of_isRoot hr d.size

theorem root_parentOf (h : d.Rising) (hi : i < d.size) : d.root (d.parentOf i) = d.root i := by
  unfold root
  rw [climb_parent]
  exact parentOf_root h hi

/-- **A function that does not change along the way up, and is the identity on roots, is the
root.** -/
theorem root_eq_of_invariant (h : d.Rising) {f : Nat → Nat}
    (hparent : ∀ i < d.size, f (d.parentOf i) = f i)
    (hroot : ∀ r < d.size, d.parentOf r = r → f r = r) (hi : i < d.size) : d.root i = f i := by
  have hclimb : ∀ (n : Nat) {j : Nat}, j < d.size → f (d.climb n j) = f j := by
    intro n
    induction n with
    | zero => intro j _; rfl
    | succ n ih => intro j hj; rw [climb, ih (h.parent_lt hj), hparent j hj]
  have hr := hroot (d.root i) (root_lt h hi) (parentOf_root h hi)
  exact hr.symm.trans (hclimb d.size hi)

end Climb

/-! ## 3. Searching -/

/-- The second forest is well formed and has the sets of the first one, with the same roots. -/
structure Keeps (d d' : DisjointSets) : Prop where
  wellFormed : d'.WellFormed
  size : d'.size = d.size
  root : ∀ {i : Nat}, i < d.size → d'.root i = d.root i

section Search

variable {d d' d'' : DisjointSets} {i : Nat}

theorem Keeps.refl (h : d.WellFormed) : Keeps d d := ⟨h, rfl, fun _ => rfl⟩

theorem Keeps.trans (h : Keeps d d') (h' : Keeps d' d'') : Keeps d d'' :=
  ⟨h'.wellFormed, h'.size.trans h.size,
    fun hi => (h'.root (h.size.symm ▸ hi)).trans (h.root hi)⟩

/-- A number that is no root may become a child of its grandparent. -/
theorem halve_keeps (h : d.WellFormed) (hi : i < d.size) (hne : d.parentOf i ≠ i) :
    Keeps d (d.setParent i (d.parentOf (d.parentOf i))) := by
  have hp := h.parent_lt hi
  have hrank : d.rankOf i < d.rankOf (d.parentOf (d.parentOf i)) :=
    Nat.lt_of_lt_of_le (h.rank_lt hi hne) (rankOf_le_parent h.toRising hp)
  generalize hg : d.parentOf (d.parentOf i) = g at *
  have hgi : g ≠ i := fun e => Nat.lt_irrefl _ (e ▸ hrank)
  have hparent : ∀ j, (d.setParent i g).parentOf j = if j = i then g else d.parentOf j := by
    intro j
    rw [parentOf_setParent]
    simp only [hi, and_true]
  have hsize : (d.setParent i g).size = d.size := size_setParent d i g
  have hrising : (d.setParent i g).Rising := by
    constructor
    · intro j hj
      rw [hparent, hsize]
      split
      · exact hg ▸ h.parent_lt hp
      · exact h.parent_lt (hsize ▸ hj)
    · intro j hj
      rw [hparent, rankOf_setParent, rankOf_setParent]
      split
      · rename_i hji
        exact fun _ => hji ▸ hrank
      · exact h.rank_lt (hsize ▸ hj)
  have hroot_of : ∀ {r}, (d.setParent i g).parentOf r = r → d.parentOf r = r := by
    intro r hr
    rw [hparent] at hr
    split at hr
    · rename_i hri
      exact absurd (hr.trans hri) hgi
    · exact hr
  have hroot : ∀ {j}, j < d.size → (d.setParent i g).root j = d.root j := by
    intro j hj
    refine root_eq_of_invariant hrising (fun k hk => ?_) (fun r _ hr => ?_) (hsize.symm ▸ hj)
    · rw [hparent]
      split
      · rename_i hki
        rw [hki, ← hg, root_parentOf h.toRising hp, root_parentOf h.toRising hi]
      · exact root_parentOf h.toRising (hsize ▸ hk)
    · exact root_of_isRoot (hroot_of hr)
  refine ⟨⟨hrising, h.ranks.trans hsize.symm, fun {r} hr hrr => ?_⟩, hsize, hroot⟩
  have hmembers : (d.setParent i g).members r = d.members r := by
    unfold members
    rw [hsize]
    exact Finset.filter_congr fun j hj => by rw [hroot (Finset.mem_range.1 hj)]
  rw [hmembers, rankOf_setParent]
  exact h.weight (hsize ▸ hr) (hroot_of hrr)

theorem walk_spec : ∀ (steps : Nat) {d : DisjointSets} {i : Nat}, d.WellFormed → i < d.size →
    (d.above i).card ≤ steps → (walk steps d i).1 = d.root i ∧ Keeps d (walk steps d i).2
  | 0, d, i, h, hi, hs => by
    have hroot : d.parentOf i = i := parentOf_climb h.toRising 0 hi hs
    exact ⟨(root_of_isRoot hroot).symm, .refl h⟩
  | steps + 1, d, i, h, hi, hs => by
    unfold walk
    split
    · rename_i hroot
      exact ⟨(root_of_isRoot hroot).symm, .refl h⟩
    · rename_i hne
      have hp := h.parent_lt hi
      have hg := h.parent_lt hp
      have hkeep := halve_keeps h hi hne
      generalize hd' : d.setParent i (d.parentOf (d.parentOf i)) = d' at *
      have habove : (d'.above (d.parentOf (d.parentOf i))).card ≤ steps := by
        have hsame : d'.above (d.parentOf (d.parentOf i)) =
            d.above (d.parentOf (d.parentOf i)) := by
          unfold above
          rw [hkeep.size]
          simp only [← hd', rankOf_setParent]
        have hlt := card_above_lt hp (h.rank_lt hi hne)
        have hle := card_above_mono (rankOf_le_parent h.toRising hp)
        rw [hsame]
        omega
      obtain ⟨hroot, hwalk⟩ := walk_spec steps hkeep.wellFormed (hkeep.size.symm ▸ hg) habove
      subst hd'
      refine ⟨hroot.trans ?_, hkeep.trans hwalk⟩
      rw [hkeep.root hg, root_parentOf h.toRising hp, root_parentOf h.toRising hi]

/-- **A search answers the root, and keeps all roots.** -/
theorem find_spec (h : d.WellFormed) (hi : i < d.size) :
    (d.find i).1 = d.root i ∧ Keeps d (d.find i).2 :=
  walk_spec d.size h hi (card_above_le i)

end Search

/-! ## 4. Joining two sets -/

/-- The second forest is well formed; it has the sets of the first one, except that those of the
roots `a` and `b` are one. -/
structure Joins (d : DisjointSets) (a b : Nat) (d' : DisjointSets) : Prop where
  wellFormed : d'.WellFormed
  size : d'.size = d.size
  root_eq_iff : ∀ {i j : Nat}, i < d.size → j < d.size → (d'.root i = d'.root j ↔
    d.root i = d.root j ∨ (d.root i = a ∨ d.root i = b) ∧ (d.root j = a ∨ d.root j = b))

section Joining

variable {d d' : DisjointSets} {a b : Nat}

theorem Joins.symm (h : Joins d a b d') : Joins d b a d' := by
  refine ⟨h.wellFormed, h.size, fun hi hj => ?_⟩
  rw [h.root_eq_iff hi hj, or_comm (a := d.root _ = a), or_comm (a := d.root _ = a)]

/-- The second forest is the first one with the root `a` as a child of the root `b`, whose rank
may have grown. -/
structure Attached (d : DisjointSets) (a b : Nat) (d' : DisjointSets) : Prop where
  lt : b < d.size
  child : d.parentOf a = a
  target : d.parentOf b = b
  ne : a ≠ b
  size : d'.size = d.size
  parent : ∀ j, d'.parentOf j = if j = a then b else d.parentOf j
  rank_eq : ∀ j, j ≠ b → d'.rankOf j = d.rankOf j
  rank_le : d.rankOf b ≤ d'.rankOf b
  rank_lt : d.rankOf a < d'.rankOf b

theorem Attached.rising (h : Attached d a b d') (hd : d.WellFormed) : d'.Rising := by
  have hrank_le : ∀ j, d.rankOf j ≤ d'.rankOf j := by
    intro j
    by_cases hj : j = b
    · rw [hj]
      exact h.rank_le
    · rw [h.rank_eq j hj]
  constructor
  · intro j hj
    rw [h.size] at hj ⊢
    rw [h.parent]
    split
    · exact h.lt
    · exact hd.parent_lt hj
  · intro j hj
    rw [h.size] at hj
    rw [h.parent]
    split
    · rename_i hja
      intro _
      rw [hja, h.rank_eq a h.ne]
      exact h.rank_lt
    · intro hne
      have hjb : j ≠ b := by
        intro e
        rw [e] at hne
        exact hne h.target
      rw [h.rank_eq j hjb]
      exact Nat.lt_of_lt_of_le (hd.rank_lt hj hne) (hrank_le _)

/-- The numbers below the child now have the other root. -/
theorem Attached.root_eq (h : Attached d a b d') (hd : d.WellFormed) {j : Nat} (hj : j < d.size) :
    d'.root j = if d.root j = a then b else d.root j := by
  refine root_eq_of_invariant (f := fun j => if d.root j = a then b else d.root j) (h.rising hd)
    (fun k hk => ?_) (fun r _ hr => ?_) (h.size.symm ▸ hj)
  · rw [h.size] at hk
    rw [h.parent]
    split
    · rename_i hka
      rw [hka, root_of_isRoot h.child, root_of_isRoot h.target, if_pos rfl, if_neg h.ne.symm]
    · rw [root_parentOf hd.toRising hk]
  · rw [h.parent] at hr
    split at hr
    · rename_i hra
      exact absurd (hr.trans hra).symm h.ne
    · rename_i hra
      rw [root_of_isRoot hr, if_neg hra]

theorem Attached.members_target (h : Attached d a b d') (hd : d.WellFormed) :
    (d'.members b).card = (d.members a).card + (d.members b).card := by
  have hmembers : d'.members b = d.members a ∪ d.members b := by
    unfold members
    rw [h.size, ← Finset.filter_or]
    refine Finset.filter_congr fun j hj => ?_
    rw [h.root_eq hd (Finset.mem_range.1 hj)]
    split <;> simp [*]
  have hdisjoint : Disjoint (d.members a) (d.members b) :=
    Finset.disjoint_filter.2 fun j _ h₁ h₂ => h.ne (h₁.symm.trans h₂)
  rw [hmembers, Finset.card_union_of_disjoint hdisjoint]

theorem Attached.members_eq (h : Attached d a b d') (hd : d.WellFormed) {r : Nat} (hra : r ≠ a)
    (hrb : r ≠ b) : d'.members r = d.members r := by
  unfold members
  rw [h.size]
  refine Finset.filter_congr fun j hj => ?_
  rw [h.root_eq hd (Finset.mem_range.1 hj)]
  split
  · rename_i hja
    rw [hja]
    exact ⟨fun e => absurd e.symm hrb, fun e => absurd e.symm hra⟩
  · exact Iff.rfl

/-- An attached root joins its set to that of the other one, if the grown rank is covered by the
members of both. -/
theorem Attached.joins (h : Attached d a b d') (hd : d.WellFormed)
    (hranks : d'.rank.size = d'.size)
    (hweight : 2 ^ d'.rankOf b ≤ (d.members a).card + (d.members b).card) : Joins d a b d' := by
  refine ⟨⟨h.rising hd, hranks, fun {r} hr hrr => ?_⟩, h.size, fun {i j} hi hj => ?_⟩
  · rw [h.size] at hr
    rw [h.parent] at hrr
    split at hrr
    · rename_i hra
      exact absurd (hrr.trans hra).symm h.ne
    · rename_i hra
      by_cases hrb : r = b
      · rw [hrb, h.members_target hd]
        exact hweight
      · rw [h.members_eq hd hra hrb, h.rank_eq r hrb]
        exact hd.weight hr hrr
  · rw [h.root_eq hd hi, h.root_eq hd hj]
    have hne := h.ne
    split <;> split <;> omega

theorem rankOf_raised (h : d.WellFormed) (ha : a < d.size) (j : Nat) :
    rankOf { d.setParent b a with rank := d.rank.setIfInBounds a (d.rankOf a + 1) } j =
      if j = a then d.rankOf a + 1 else d.rankOf j := by
  unfold rankOf
  rw [Array.getD_eq_getD_getElem?, Array.getElem?_setIfInBounds, h.ranks]
  by_cases hja : a = j
  · subst hja
    simp [ha]
  · rw [if_neg hja, if_neg (Ne.symm hja), Array.getD_eq_getD_getElem?]

/-- **Linking two roots joins their sets.** -/
theorem link_joins (h : d.WellFormed) (ha : a < d.size) (hb : b < d.size)
    (hra : d.parentOf a = a) (hrb : d.parentOf b = b) (hab : a ≠ b) :
    Joins d a b (d.link a b) := by
  have hwa := h.weight ha hra
  have hwb := h.weight hb hrb
  have hparent_a : ∀ j, (d.setParent a b).parentOf j = if j = a then b else d.parentOf j := by
    intro j
    rw [parentOf_setParent]
    simp only [ha, and_true]
  have hparent_b : ∀ j, (d.setParent b a).parentOf j = if j = b then a else d.parentOf j := by
    intro j
    rw [parentOf_setParent]
    simp only [hb, and_true]
  unfold link
  split
  · rename_i hlt
    have hattached : Attached d a b (d.setParent a b) :=
      ⟨hb, hra, hrb, hab, size_setParent d a b, hparent_a, fun _ _ => rfl, le_rfl, hlt⟩
    exact hattached.joins h (h.ranks.trans (size_setParent d a b).symm)
      (Nat.le_trans hwb (Nat.le_add_left _ _))
  · rename_i hge
    split
    · rename_i hlt
      have hattached : Attached d b a (d.setParent b a) :=
        ⟨ha, hrb, hra, hab.symm, size_setParent d b a, hparent_b, fun _ _ => rfl, le_rfl, hlt⟩
      exact (hattached.joins h (h.ranks.trans (size_setParent d b a).symm)
        (Nat.le_trans hwa (Nat.le_add_left _ _))).symm
    · rename_i hge'
      have heq : d.rankOf a = d.rankOf b := Nat.le_antisymm (Nat.not_lt.1 hge') (Nat.not_lt.1 hge)
      have hattached : Attached d b a
          { d.setParent b a with rank := d.rank.setIfInBounds a (d.rankOf a + 1) } := by
        refine ⟨ha, hrb, hra, hab.symm, size_setParent d b a, hparent_b, fun j hj => ?_, ?_, ?_⟩
        · rw [rankOf_raised h ha, if_neg hj]
        · rw [rankOf_raised h ha, if_pos rfl]
          exact Nat.le_succ _
        · rw [rankOf_raised h ha, if_pos rfl, ← heq]
          exact Nat.lt_succ_self _
      refine (hattached.joins h ?_ ?_).symm
      · exact Array.size_setIfInBounds.trans (h.ranks.trans (size_setParent d b a).symm)
      · rw [rankOf_raised h ha, if_pos rfl, Nat.pow_succ]
        rw [← heq] at hwb
        omega

/-- **A union joins the sets of two numbers.** -/
theorem union_joins {i j : Nat} (h : d.WellFormed) (hi : i < d.size) (hj : j < d.size) :
    Joins d (d.root i) (d.root j) (d.union i j) := by
  obtain ⟨hri, hki⟩ := find_spec h hi
  obtain ⟨hrj, hkj⟩ := find_spec hki.wellFormed (hki.size.symm ▸ hj)
  rw [hki.root hj] at hrj
  have hk := hki.trans hkj
  have hlti := root_lt h.toRising hi
  have hltj := root_lt h.toRising hj
  unfold union
  simp only [hri, hrj]
  split
  · rename_i heq
    refine ⟨hk.wellFormed, hk.size, fun hi' hj' => ?_⟩
    rw [hk.root hi', hk.root hj']
    omega
  · rename_i hne
    have hroot : ∀ {k}, k < d.size → d.parentOf k = k → (find (d.find i).2 j).2.parentOf k = k := by
      intro k hlt hroot
      have hself : (find (d.find i).2 j).2.root k = k := (hk.root hlt).trans (root_of_isRoot hroot)
      rw [← hself]
      exact parentOf_root hk.wellFormed.toRising (hk.size.symm ▸ hlt)
    have hjoins := link_joins hk.wellFormed (hk.size.symm ▸ hlti) (hk.size.symm ▸ hltj)
      (hroot hlti (parentOf_root h.toRising hi)) (hroot hltj (parentOf_root h.toRising hj)) hne
    refine ⟨hjoins.wellFormed, hjoins.size.trans hk.size, fun hi' hj' => ?_⟩
    rw [hjoins.root_eq_iff (hk.size.symm ▸ hi') (hk.size.symm ▸ hj'), hk.root hi', hk.root hj']

end Joining

/-! ## 5. Joining many -/

/-- The second forest is well formed; its sets are those of the first one, joined as far as `P`
asks for and no further: any equivalence that contains both contains its sets. -/
structure Merges (d : DisjointSets) (P : Nat → Nat → Prop) (d' : DisjointSets) : Prop where
  wellFormed : d'.WellFormed
  size : d'.size = d.size
  coarser {i j : Nat} : i < d.size → j < d.size → d.root i = d.root j → d'.root i = d'.root j
  joined {i j : Nat} : P i j → d'.root i = d'.root j
  finer {R : Nat → Nat → Prop} : Equivalence R →
    (∀ {i j}, i < d.size → j < d.size → d.root i = d.root j → R i j) → (∀ {i j}, P i j → R i j) →
    ∀ {i j}, i < d.size → j < d.size → d'.root i = d'.root j → R i j

section Merging

variable {d d' d'' : DisjointSets} {P Q : Nat → Nat → Prop}

theorem Merges.refl (h : d.WellFormed) (hP : ∀ {i j}, P i j → i = j) : Merges d P d where
  wellFormed := h
  size := rfl
  coarser _ _ e := e
  joined := by
    intro i j hij
    rw [hP hij]
  finer _ hd _ _ _ hi hj := hd hi hj

theorem Merges.trans (h : Merges d P d') (h' : Merges d' Q d'')
    (hlt : ∀ {i j}, P i j → i < d.size ∧ j < d.size) :
    Merges d (fun i j => P i j ∨ Q i j) d'' where
  wellFormed := h'.wellFormed
  size := h'.size.trans h.size
  coarser := by
    intro i j hi hj e
    have hmid := h.coarser hi hj e
    rw [← h.size] at hi hj
    exact h'.coarser hi hj hmid
  joined := by
    intro i j hij
    rcases hij with hij | hij
    · obtain ⟨hi, hj⟩ := hlt hij
      rw [← h.size] at hi hj
      exact h'.coarser hi hj (h.joined hij)
    · exact h'.joined hij
  finer := by
    intro R hR hd hPQ i j hi hj
    have hfirst : ∀ {i j}, i < d'.size → j < d'.size → d'.root i = d'.root j → R i j := by
      intro i j hi hj
      rw [h.size] at hi hj
      exact h.finer hR hd (fun hij => hPQ (.inl hij)) hi hj
    rw [← h.size] at hi hj
    exact h'.finer hR hfirst (fun hij => hPQ (.inr hij)) hi hj

/-- What is asked for may be replaced by what generates the same equivalences. -/
theorem Merges.congr (h : Merges d P d')
    (hPQ : ∀ {R : Nat → Nat → Prop}, Equivalence R →
      ((∀ {i j}, P i j → R i j) ↔ ∀ {i j}, Q i j → R i j)) : Merges d Q d' where
  wellFormed := h.wellFormed
  size := h.size
  coarser := h.coarser
  joined := (hPQ (R := fun i j => d'.root i = d'.root j)
    ⟨fun _ => rfl, Eq.symm, Eq.trans⟩).1 h.joined
  finer hR hd hQ := h.finer hR hd ((hPQ hR).2 hQ)

theorem union_merges {a b : Nat} (h : d.WellFormed) (ha : a < d.size) (hb : b < d.size) :
    Merges d (fun i j => i = a ∧ j = b) (d.union a b) := by
  have hjoins := union_joins h ha hb
  refine ⟨hjoins.wellFormed, hjoins.size, fun hi hj e => (hjoins.root_eq_iff hi hj).2 (.inl e),
    ?_, ?_⟩
  · intro i j hij
    obtain ⟨rfl, rfl⟩ := hij
    exact (hjoins.root_eq_iff ha hb).2 (.inr ⟨.inl rfl, .inr rfl⟩)
  · intro R hR hd hab i j hi hj e
    have hRab : R a b := hab ⟨rfl, rfl⟩
    have hto : ∀ {k}, k < d.size → d.root k = d.root a ∨ d.root k = d.root b → R k a := by
      intro k hk hroot
      rcases hroot with hka | hkb
      · exact hd hk ha hka
      · exact hR.trans (hd hk hb hkb) (hR.symm hRab)
    rcases (hjoins.root_eq_iff hi hj).1 e with hij | ⟨hi', hj'⟩
    · exact hd hi hj hij
    · exact hR.trans (hto hi hi') (hR.symm (hto hj hj'))

/-- **The sets of all numbers of a list become one.** -/
theorem unionAll_merges : ∀ {l : List Nat} {d : DisjointSets}, d.WellFormed →
    (∀ i ∈ l, i < d.size) → Merges d (fun i j => i ∈ l ∧ j ∈ l) (d.unionAll l)
  | [], _, h, _ => .refl h fun hij => absurd hij.1 List.not_mem_nil
  | [a], _, h, _ => .refl h fun hij =>
    (List.mem_singleton.1 hij.1).trans (List.mem_singleton.1 hij.2).symm
  | a :: b :: rest, d, h, hl => by
    have ha := hl a List.mem_cons_self
    have hb := hl b (List.mem_cons_of_mem a List.mem_cons_self)
    have hab := union_merges h ha hb
    have hrest : ∀ i ∈ b :: rest, i < (d.union a b).size := by
      intro i hi
      rw [hab.size]
      exact hl i (List.mem_cons_of_mem a hi)
    have hends : ∀ {i j}, i = a ∧ j = b → i < d.size ∧ j < d.size := by
      intro i j hij
      rw [hij.1, hij.2]
      exact ⟨ha, hb⟩
    have hall := hab.trans (unionAll_merges hab.wellFormed hrest) hends
    refine hall.congr fun {R} hR => ⟨fun hPR => ?_, fun hQR => ?_⟩
    · have hto : ∀ i ∈ a :: b :: rest, R i b := by
        intro i hi
        rcases List.mem_cons.1 hi with rfl | hi
        · exact hPR (.inl ⟨rfl, rfl⟩)
        · exact hPR (.inr ⟨hi, List.mem_cons_self⟩)
      intro i j hij
      obtain ⟨hi, hj⟩ := hij
      exact hR.trans (hto i hi) (hR.symm (hto j hj))
    · intro i j hij
      rcases hij with ⟨rfl, rfl⟩ | ⟨hi, hj⟩
      · exact hQR ⟨List.mem_cons_self, List.mem_cons_of_mem _ List.mem_cons_self⟩
      · exact hQR ⟨List.mem_cons_of_mem _ hi, List.mem_cons_of_mem _ hj⟩

/-- The lists are worked off one after the other. -/
theorem foldl_unionAll_merges {β : Type} (f : β → List Nat) : ∀ {l : List β} {d : DisjointSets},
    d.WellFormed → (∀ b ∈ l, ∀ i ∈ f b, i < d.size) →
      Merges d (fun i j => ∃ b ∈ l, i ∈ f b ∧ j ∈ f b) (l.foldl (fun d b => d.unionAll (f b)) d)
  | [], _, h, _ => .refl h fun ⟨_, hb, _⟩ => absurd hb List.not_mem_nil
  | b :: l, d, h, hl => by
    have hfirst := unionAll_merges h (hl b List.mem_cons_self)
    have hlt : ∀ c ∈ l, ∀ i ∈ f c, i < (d.unionAll (f b)).size := by
      intro c hc i hi
      rw [hfirst.size]
      exact hl c (List.mem_cons_of_mem b hc) i hi
    have hrest := foldl_unionAll_merges f hfirst.wellFormed hlt
    have hends : ∀ {i j}, i ∈ f b ∧ j ∈ f b → i < d.size ∧ j < d.size :=
      fun hij => ⟨hl b List.mem_cons_self _ hij.1, hl b List.mem_cons_self _ hij.2⟩
    have hall := hfirst.trans hrest hends
    refine hall.congr fun {R} _ => ⟨fun hPR => ?_, fun hQR => ?_⟩
    · intro i j hij
      obtain ⟨c, hc, hi, hj⟩ := hij
      rcases List.mem_cons.1 hc with rfl | hc
      · exact hPR (.inl ⟨hi, hj⟩)
      · exact hPR (.inr ⟨c, hc, hi, hj⟩)
    · intro i j hij
      rcases hij with ⟨hi, hj⟩ | ⟨c, hc, hi, hj⟩
      · exact hQR ⟨b, List.mem_cons_self, hi, hj⟩
      · exact hQR ⟨c, List.mem_cons_of_mem b hc, hi, hj⟩

/-! ## 6. The start -/

theorem size_singletons (n : Nat) : (singletons n).size = n := Array.size_range

theorem parentOf_singletons (n i : Nat) : (singletons n).parentOf i = i := by
  unfold parentOf singletons
  rw [Array.getD_eq_getD_getElem?]
  by_cases hi : i < n <;> simp [hi]

theorem rankOf_singletons (n i : Nat) : (singletons n).rankOf i = 0 := by
  unfold rankOf singletons
  rw [Array.getD_eq_getD_getElem?]
  by_cases hi : i < n <;> simp [hi]

theorem root_singletons (n i : Nat) : (singletons n).root i = i :=
  root_of_isRoot (parentOf_singletons n i)

theorem wellFormed_singletons (n : Nat) : (singletons n).WellFormed where
  parent_lt := by
    intro i hi
    rwa [parentOf_singletons]
  rank_lt := fun _ hne => absurd (parentOf_singletons n _) hne
  ranks := by
    rw [size_singletons]
    exact Array.size_replicate
  weight := by
    intro r hr _
    rw [rankOf_singletons]
    refine Finset.card_pos.2 ⟨r, Finset.mem_filter.2 ⟨Finset.mem_range.2 hr, root_singletons n r⟩⟩

end Merging

end Articulated.DisjointSets
