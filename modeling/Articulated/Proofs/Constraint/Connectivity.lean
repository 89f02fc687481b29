import Articulated.Constraint.Component
import Articulated.Proofs.Constraint.Forest
import Articulated.Proofs.Key.Lookup

/-!
# Connected variables

Two variables are connected if a chain of constraints leads from one to the other
(`Constraints.Connected`). This is a property of the set of constraints: neither their order nor
the numbering of the variables has a part in it.

* `forest_root_eq_iff`: the forest puts two variables into one set exactly if they are connected.
* `lookup_representatives`: the table gives every variable the smallest one that it is connected
  to.
* `representative?_eq_some_iff`, `representative?_eq_none_iff`: a constraint is tagged with the
  smallest variable connected to any of its own, and has no tag exactly if it has no variable.
-/

namespace Articulated

/-! ## 1. Positions in a list -/

theorem idxOf?_eq_some_idxOf {k : Key} : ∀ {ks : List Key}, k ∈ ks → ks.idxOf? k = some (ks.idxOf k)
  | [], h => absurd h List.not_mem_nil
  | q :: ks, h => by
    rw [List.idxOf?_cons, List.idxOf_cons]
    by_cases hq : q = k
    · simp [hq]
    · have hk : k ∈ ks := (List.mem_cons.1 h).resolve_left (Ne.symm hq)
      simp [beq_false_of_ne hq, idxOf?_eq_some_idxOf hk]

theorem getD_idxOf {ks : List Key} {k q : Key} (hk : k ∈ ks) : ks.getD (ks.idxOf k) q = k := by
  have hlt := List.idxOf_lt_length_of_mem hk
  rw [List.getD_eq_getElem?_getD, List.getElem?_eq_getElem hlt, List.getElem_idxOf hlt,
    Option.getD_some]

/-- A list zipped with the answers for its positions. -/
theorem zip_positions {β : Type} {ks : List Key} (g : Nat → β) (h : ks.Nodup) :
    ks.zip ((List.range ks.length).map g) = ks.map fun k => (k, g (ks.idxOf k)) := by
  refine List.ext_getElem (by simp) fun i hi hi' => ?_
  have hlt : i < ks.length := by simpa using hi'
  simp [h.idxOf_getElem i hlt]

namespace Constraints

variable {α : Type} {cs cs' : Constraints α} {k k' m : Key}

/-! ## 2. Connected variables -/

/-- A constraint has both variables. -/
def Linked (cs : Constraints α) (k k' : Key) : Prop := ∃ c ∈ cs.items, k ∈ c.keys ∧ k' ∈ c.keys

/-- A chain of constraints leads from one variable to the other. -/
def Connected (cs : Constraints α) : Key → Key → Prop := Relation.EqvGen cs.Linked

/-- The smallest variable that a variable is connected to. -/
def SmallestOf (cs : Constraints α) (k m : Key) : Prop :=
  m ∈ cs.keys.toList ∧ cs.Connected k m ∧ ∀ q ∈ cs.keys.toList, cs.Connected k q → m ≤ q

theorem mem_keys : k ∈ cs.keys.toList ↔ ∃ c ∈ cs.items, k ∈ c.keys := by
  unfold keys
  rw [KeySet.mem_ofLists]
  simp only [List.mem_map, exists_exists_and_eq_and]

theorem mem_keys_of_mem {c : Constraint α} (hc : c ∈ cs.items) (hk : k ∈ c.keys) :
    k ∈ cs.keys.toList := mem_keys.2 ⟨c, hc, hk⟩

theorem connected_equivalence (cs : Constraints α) : Equivalence cs.Connected :=
  Relation.EqvGen.is_equivalence _

theorem connected_of_mem {c : Constraint α} (hc : c ∈ cs.items) (hk : k ∈ c.keys)
    (hk' : k' ∈ c.keys) : cs.Connected k k' := .rel _ _ ⟨c, hc, hk, hk'⟩

theorem SmallestOf.unique (h : cs.SmallestOf k m) (h' : cs.SmallestOf k k') : m = k' :=
  Key.le_antisymm (h.2.2 k' h'.1 h'.2.1) (h'.2.2 m h.1 h.2.1)

theorem SmallestOf.congr (h : cs.SmallestOf k m) (hk : cs.Connected k k') : cs.SmallestOf k' m :=
  ⟨h.1, (connected_equivalence cs).trans ((connected_equivalence cs).symm hk) h.2.1,
    fun q hq hkq => h.2.2 q hq ((connected_equivalence cs).trans hk hkq)⟩

theorem SmallestOf.self (h : cs.SmallestOf k m) : cs.SmallestOf m m := h.congr h.2.1

/-! ## 3. The order of the constraints -/

theorem keys_eq_of_perm (h : cs.items.Perm cs'.items) : cs.keys = cs'.keys :=
  KeySet.ext_mem fun k => by
    rw [mem_keys, mem_keys]
    exact exists_congr fun c => and_congr_left fun _ => h.mem_iff

theorem connected_eq_of_perm (h : cs.items.Perm cs'.items) : cs.Connected = cs'.Connected := by
  have hlinked : cs.Linked = cs'.Linked := by
    funext k k'
    exact propext (exists_congr fun c => and_congr_left fun _ => h.mem_iff)
  unfold Connected
  rw [hlinked]

theorem smallestOf_iff_of_perm (h : cs.items.Perm cs'.items) :
    cs.SmallestOf k m ↔ cs'.SmallestOf k m := by
  unfold SmallestOf
  rw [keys_eq_of_perm h, connected_eq_of_perm h]

/-! ## 4. The forest -/

theorem numbers_eq_map {keys : List Key} : ∀ {ks : List Key}, (∀ k ∈ ks, k ∈ keys) →
    numbers keys ks = ks.map keys.idxOf
  | [], _ => rfl
  | k :: ks, h => by
    have hk := idxOf?_eq_some_idxOf (h k List.mem_cons_self)
    have hks := numbers_eq_map fun q hq => h q (List.mem_cons_of_mem k hq)
    show (k :: ks).filterMap (keys.idxOf? ·) = _
    rw [List.filterMap_cons, hk, List.map_cons, ← hks]
    rfl

theorem mem_numbers {c : Constraint α} (hc : c ∈ cs.items) {i : Nat} :
    i ∈ numbers cs.keys.toList c.keys ↔ ∃ k ∈ c.keys, cs.keys.toList.idxOf k = i := by
  rw [numbers_eq_map fun k hk => mem_keys_of_mem hc hk, List.mem_map]

theorem forest_merges (cs : Constraints α) :
    (DisjointSets.singletons cs.keys.toList.length).Merges
      (fun i j => ∃ c ∈ cs.items, i ∈ numbers cs.keys.toList c.keys ∧
        j ∈ numbers cs.keys.toList c.keys) cs.forest := by
  refine DisjointSets.foldl_unionAll_merges _ (DisjointSets.wellFormed_singletons _) ?_
  intro c hc i hi
  obtain ⟨k, hk, rfl⟩ := (mem_numbers hc).1 hi
  rw [DisjointSets.size_singletons]
  exact List.idxOf_lt_length_of_mem (mem_keys_of_mem hc hk)

theorem size_forest (cs : Constraints α) : cs.forest.size = cs.keys.toList.length :=
  (forest_merges cs).size.trans (DisjointSets.size_singletons _)

/-- The root above a variable in the forest. -/
def rootOf (cs : Constraints α) (k : Key) : Nat := cs.forest.root (cs.keys.toList.idxOf k)

/-- **The forest puts two variables into one set exactly if they are connected.** -/
theorem forest_root_eq_iff (hk : k ∈ cs.keys.toList) (hk' : k' ∈ cs.keys.toList) :
    cs.rootOf k = cs.rootOf k' ↔ cs.Connected k k' := by
  have hmerges := forest_merges cs
  constructor
  · -- Numbers are read as variables, so that connectedness is an equivalence of numbers.
    intro h
    have hR : Equivalence fun i j =>
        cs.Connected (cs.keys.toList.getD i k) (cs.keys.toList.getD j k) :=
      ⟨fun _ => (connected_equivalence cs).refl _, (connected_equivalence cs).symm,
        (connected_equivalence cs).trans⟩
    have hfiner := hmerges.finer hR (fun {i j} _ _ e => ?_) (fun {i j} hij => ?_)
      (i := cs.keys.toList.idxOf k) (j := cs.keys.toList.idxOf k') ?_ ?_ h
    · rwa [getD_idxOf hk, getD_idxOf hk'] at hfiner
    · rw [DisjointSets.root_singletons, DisjointSets.root_singletons] at e
      exact e ▸ hR.refl i
    · obtain ⟨c, hc, hi, hj⟩ := hij
      obtain ⟨q, hq, rfl⟩ := (mem_numbers hc).1 hi
      obtain ⟨q', hq', rfl⟩ := (mem_numbers hc).1 hj
      show cs.Connected _ _
      rw [getD_idxOf (mem_keys_of_mem hc hq), getD_idxOf (mem_keys_of_mem hc hq')]
      exact connected_of_mem hc hq hq'
    · rw [DisjointSets.size_singletons]
      exact List.idxOf_lt_length_of_mem hk
    · rw [DisjointSets.size_singletons]
      exact List.idxOf_lt_length_of_mem hk'
  · have hequiv : Equivalence fun q q' => cs.rootOf q = cs.rootOf q' :=
      ⟨fun _ => rfl, Eq.symm, Eq.trans⟩
    intro h
    refine hequiv.eqvGen_iff.1 (Relation.EqvGen.mono ?_ k k' h)
    intro q q' hlinked
    obtain ⟨c, hc, hq, hq'⟩ := hlinked
    exact hmerges.joined ⟨c, hc, (mem_numbers hc).2 ⟨q, hq, rfl⟩, (mem_numbers hc).2 ⟨q', hq', rfl⟩⟩

/-- The roots are found one after the other, each with the forest that the search before left. -/
theorem roots_eq_map : ∀ {l : List Nat} {d : DisjointSets}, d.WellFormed → (∀ i ∈ l, i < d.size) →
    (roots d l).1 = l.map d.root
  | [], _, _, _ => rfl
  | i :: l, d, h, hl => by
    obtain ⟨hroot, hkeep⟩ := DisjointSets.find_spec h (hl i List.mem_cons_self)
    have hsize : ∀ j ∈ l, j < (d.find i).2.size :=
      fun j hj => hkeep.size.symm ▸ hl j (List.mem_cons_of_mem i hj)
    show (d.find i).1 :: (roots (d.find i).2 l).1 = _
    rw [roots_eq_map hkeep.wellFormed hsize, hroot, List.map_cons]
    congr 1
    exact List.map_congr_left fun j hj => hkeep.root (hl j (List.mem_cons_of_mem i hj))

/-! ## 5. The table of smallest variables -/

/-- The first variable with the same root. -/
def smallest (cs : Constraints α) (k : Key) : Key :=
  (cs.keys.toList.find? fun q => cs.rootOf q == cs.rootOf k).getD k

theorem smallest_spec (hk : k ∈ cs.keys.toList) : cs.SmallestOf k (cs.smallest k) := by
  obtain ⟨m, hfind⟩ : ∃ m, cs.keys.toList.find? (fun q => cs.rootOf q == cs.rootOf k) = some m := by
    refine Option.isSome_iff_exists.1 (List.find?_isSome.2 ⟨k, hk, ?_⟩)
    exact beq_self_eq_true _
  have hm : cs.smallest k = m := by
    unfold smallest
    rw [hfind, Option.getD_some]
  obtain ⟨hroot, before, after, hsplit, hnot⟩ := List.find?_eq_some_iff_append.1 hfind
  have hmem : m ∈ cs.keys.toList := hsplit ▸ List.mem_append_right _ List.mem_cons_self
  have hsorted := cs.keys.sorted
  rw [hsplit, List.pairwise_append] at hsorted
  rw [hm]
  refine ⟨hmem, (forest_root_eq_iff hk hmem).1 (beq_iff_eq.1 hroot).symm, fun q hq hkq => ?_⟩
  have hqk : cs.rootOf q = cs.rootOf k := ((forest_root_eq_iff hk hq).2 hkq).symm
  rw [hsplit] at hq
  rcases List.mem_append.1 hq with hq | hq
  · have := hnot q hq
    rw [hqk, beq_self_eq_true] at this
    cases this
  · rcases List.mem_cons.1 hq with rfl | hq
    · exact Key.le_refl q
    · exact Key.le_of_lt ((List.pairwise_cons.1 hsorted.2.1).1 q hq)

theorem smallest_eq_iff (hk : k ∈ cs.keys.toList) : cs.smallest k = m ↔ cs.SmallestOf k m :=
  ⟨fun h => h ▸ smallest_spec hk, fun h => (smallest_spec hk).unique h⟩

theorem representatives_eq_map (cs : Constraints α) :
    cs.representatives = cs.keys.toList.map fun k => (k, cs.smallest k) := by
  have hroots : (roots cs.forest (List.range cs.keys.toList.length)).1 =
      (List.range cs.keys.toList.length).map cs.forest.root :=
    roots_eq_map (forest_merges cs).wellFormed
      fun i hi => (size_forest cs).symm ▸ List.mem_range.1 hi
  have hnamed : cs.keys.toList.zip (roots cs.forest (List.range cs.keys.toList.length)).1 =
      cs.keys.toList.map fun k => (k, cs.rootOf k) := by
    rw [hroots, zip_positions _ cs.keys.nodup]
    rfl
  unfold representatives
  simp only [hnamed, List.map_map, List.find?_map, Option.map_map]
  refine List.map_congr_left fun k _ => ?_
  show (k, (Option.map id (cs.keys.toList.find? fun q => cs.rootOf q == cs.rootOf k)).getD k) = _
  rw [Option.map_id, id]
  rfl

theorem lookup_map {β : Type} (f : Key → β) (k : Key) : ∀ ks : List Key,
    (ks.map fun q => (q, f q)).lookup k = if k ∈ ks then some (f k) else none
  | [] => rfl
  | q :: ks => by
    rw [List.map_cons, Key.lookup_cons_eq, lookup_map f k ks]
    by_cases h : k = q
    · subst h
      simp
    · simp [h]

/-- **The table gives every variable the smallest one that it is connected to.** -/
theorem lookup_representatives :
    cs.representatives.lookup k = some m ↔ k ∈ cs.keys.toList ∧ cs.SmallestOf k m := by
  rw [representatives_eq_map, lookup_map]
  by_cases hk : k ∈ cs.keys.toList
  · rw [if_pos hk, Option.some.injEq, smallest_eq_iff hk, and_iff_right hk]
  · rw [if_neg hk]
    exact ⟨nofun, fun h => absurd h.1 hk⟩

section Tags

variable {c : Constraint α}

theorem representative?_eq_some_iff (hc : c ∈ cs.items) :
    representative? cs.representatives c = some m ↔ ∃ k ∈ c.keys, cs.SmallestOf k m := by
  unfold representative?
  cases hkeys : c.keys with
  | nil => exact ⟨nofun, fun ⟨_, hk, _⟩ => absurd hk List.not_mem_nil⟩
  | cons k rest =>
    have hk : k ∈ c.keys := hkeys ▸ List.mem_cons_self
    rw [List.head?_cons, Option.bind_some, lookup_representatives]
    constructor
    · exact fun h => ⟨k, List.mem_cons_self, h.2⟩
    · intro h
      obtain ⟨q, hq, hm⟩ := h
      exact ⟨mem_keys_of_mem hc hk, hm.congr (connected_of_mem hc (hkeys ▸ hq) hk)⟩

theorem representative?_eq_none_iff (hc : c ∈ cs.items) :
    representative? cs.representatives c = none ↔ c.keys = [] := by
  constructor
  · intro h
    by_contra hne
    obtain ⟨k, hk⟩ := List.exists_mem_of_ne_nil _ hne
    have := (representative?_eq_some_iff hc).2 ⟨k, hk, smallest_spec (mem_keys_of_mem hc hk)⟩
    rw [h] at this
    cases this
  · intro h
    unfold representative?
    rw [h]
    rfl

end Tags

/-- The variables that name components are those that are the smallest connected to themselves. -/
def names (cs : Constraints α) : List Key :=
  (cs.representatives.filter fun e => e.1 == e.2).map Prod.fst

theorem names_eq_filter (cs : Constraints α) :
    cs.names = cs.keys.toList.filter fun k => k == cs.smallest k := by
  unfold names
  rw [representatives_eq_map, List.filter_map, List.map_map]
  exact List.map_id _

theorem mem_names : k ∈ cs.names ↔ cs.SmallestOf k k := by
  rw [names_eq_filter, List.mem_filter, beq_iff_eq]
  constructor
  · intro hname
    obtain ⟨hk, heq⟩ := hname
    exact (smallest_eq_iff hk).1 heq.symm
  · intro h
    exact ⟨h.1, ((smallest_eq_iff h.1).2 h).symm⟩

theorem names_ascending (cs : Constraints α) : cs.names.Pairwise (· < ·) := by
  rw [names_eq_filter]
  exact cs.keys.sorted.filter _

theorem names_eq_of_perm (h : cs.items.Perm cs'.items) : cs.names = cs'.names :=
  Key.eq_of_ascending cs.names_ascending cs'.names_ascending fun k => by
    rw [mem_names, mem_names, smallestOf_iff_of_perm h]

end Constraints

end Articulated
