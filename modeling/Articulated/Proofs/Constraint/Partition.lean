import Articulated.Proofs.Constraint.Connectivity
import Mathlib.Data.List.FinRange

/-!
# The components are a partition

Constraints are told apart by their positions in the list, so that a constraint that occurs twice
counts twice. The components are blocks of positions: those of the constraints with variables, and
after them one position for every constraint without variables.

* `Constraints.Partition`: what is asked of the blocks.
* `Constraints.components_eq_blocks`: the components are the blocks of the positions with one tag.
* `Constraints.chained_iff_connected`: a chain of constraints leads from one position to another
  exactly if their variables are connected.
* `Constraints.components_partition`: the blocks are a partition, and another order of the same
  constraints changes the order within the components alone.
-/

namespace Articulated

/-- The smallest member of a set of keys. -/
def KeySet.Smallest (s : KeySet) (k : Key) : Prop := k ∈ s.toList ∧ ∀ q ∈ s.toList, k ≤ q

namespace Constraints

section Positions

variable {α : Type} (cs : Constraints α)

/-! ## 1. Positions and blocks -/

/-- The constraint at a position. -/
def item (i : Fin cs.items.length) : Constraint α := cs.items.get i

/-- The constraints at two positions share a variable. -/
def Meet (i j : Fin cs.items.length) : Prop := ∃ k ∈ (cs.item i).keys, k ∈ (cs.item j).keys

/-- A chain of constraints leads from one position to the other, and neighbours share a
variable. -/
def Chained : Fin cs.items.length → Fin cs.items.length → Prop := Relation.ReflTransGen cs.Meet

/-- The component of the constraints at some positions. -/
def block (ps : List (Fin cs.items.length)) : Component α := .ofConstraints ⟨ps.map cs.item⟩

/-- Blocks of positions that split the constraints by the chains among them. -/
structure Partition (keyed : List (List (Fin cs.items.length)))
    (keyless : List (Fin cs.items.length)) : Prop where
  /-- Every position stands in one block, once. -/
  once : (keyed.flatten ++ keyless).Perm (List.finRange cs.items.length)
  /-- The constraints of a block keep their order. -/
  ascending : ∀ b ∈ keyed, b.Pairwise (· < ·)
  /-- The constraints without variables keep their order. -/
  keyless_ascending : keyless.Pairwise (· < ·)
  keyless_iff : ∀ i, i ∈ keyless ↔ (cs.item i).keys = []
  /-- Constraints with variables are in one block exactly if a chain joins them. -/
  same_block_iff : ∀ i j, (cs.item i).keys ≠ [] → (cs.item j).keys ≠ [] →
    ((∃ b ∈ keyed, i ∈ b ∧ j ∈ b) ↔ cs.Chained i j)
  /-- A component has exactly the variables of its constraints. -/
  mem_keys : ∀ b ∈ keyed ++ keyless.map ([·]),
    ∀ k, k ∈ (cs.block b).keys.toList ↔ ∃ i ∈ b, k ∈ (cs.item i).keys
  /-- Different components have no variable in common. -/
  disjoint : (keyed ++ keyless.map ([·])).Pairwise fun b b' =>
    ∀ k ∈ (cs.block b).keys.toList, k ∉ (cs.block b').keys.toList
  smallest : ∀ b ∈ keyed, ∃ k, (cs.block b).keys.Smallest k
  /-- The smallest variables of the components with variables ascend. -/
  smallest_ascending : keyed.Pairwise fun b b' => ∀ k k',
    (cs.block b).keys.Smallest k → (cs.block b').keys.Smallest k' → k < k'

theorem item_mem (i : Fin cs.items.length) : cs.item i ∈ cs.items := List.get_mem cs.items i

theorem map_item : (List.finRange cs.items.length).map cs.item = cs.items :=
  List.map_get_finRange cs.items

theorem exists_item {cs : Constraints α} {c : Constraint α} (hc : c ∈ cs.items) :
    ∃ i, cs.item i = c := List.mem_iff_get.1 hc

/-- The constraints with a property, by position. -/
theorem filter_items (p : Constraint α → Bool) : cs.items.filter p =
    ((List.finRange cs.items.length).filter fun i => p (cs.item i)).map cs.item := by
  conv_lhs => rw [← map_item cs]
  exact List.filter_map

theorem mem_keys_block (b : List (Fin cs.items.length)) (k : Key) :
    k ∈ (cs.block b).keys.toList ↔ ∃ i ∈ b, k ∈ (cs.item i).keys := by
  show k ∈ (⟨b.map cs.item⟩ : Constraints α).keys.toList ↔ _
  rw [Constraints.mem_keys]
  simp only [List.mem_map, exists_exists_and_eq_and]

/-! ## 2. Chains -/

variable {cs} {i j : Fin cs.items.length} {k k' : Key}

theorem Meet.symm (h : cs.Meet i j) : cs.Meet j i := by
  obtain ⟨k, hi, hj⟩ := h
  exact ⟨k, hj, hi⟩

theorem Chained.symm (h : cs.Chained i j) : cs.Chained j i := by
  induction h with
  | refl => exact .refl
  | tail _ hmeet ih => exact .head hmeet.symm ih

theorem meet_of_mem (hi : k ∈ (cs.item i).keys) (hj : k ∈ (cs.item j).keys) : cs.Meet i j :=
  ⟨k, hi, hj⟩

/-- **A chain of constraints joins two positions exactly if their variables are connected.** -/
theorem chained_iff_connected (hi : k ∈ (cs.item i).keys) (hj : k' ∈ (cs.item j).keys) :
    cs.Chained i j ↔ cs.Connected k k' := by
  have hequiv := connected_equivalence cs
  constructor
  · intro h
    induction h generalizing k' with
    | refl => exact connected_of_mem (cs.item_mem i) hi hj
    | tail _ hmeet ih =>
      obtain ⟨q, hq, hq'⟩ := hmeet
      exact hequiv.trans (ih hq) (connected_of_mem (cs.item_mem _) hq' hj)
  · -- The positions that are chained to a variable are the same along a link.
    intro h
    let reached : Key → Set (Fin cs.items.length) :=
      fun q => {p | ∃ p', q ∈ (cs.item p').keys ∧ cs.Chained p' p}
    have hsame : Equivalence fun q q' => reached q = reached q' :=
      ⟨fun _ => rfl, Eq.symm, Eq.trans⟩
    have hlink : ∀ {q q'}, cs.Linked q q' → reached q ⊆ reached q' := by
      intro q q' hlinked p hp
      obtain ⟨c, hc, hq, hq'⟩ := hlinked
      obtain ⟨p', hp', hchain⟩ := hp
      obtain ⟨pc, rfl⟩ := exists_item hc
      exact ⟨pc, hq', .head (meet_of_mem hq hp') hchain⟩
    have hreached : reached k = reached k' := by
      refine hsame.eqvGen_iff.1 (Relation.EqvGen.mono (fun q q' hqq => ?_) k k' h)
      obtain ⟨c, hc, hq, hq'⟩ := hqq
      exact Set.Subset.antisymm (hlink ⟨c, hc, hq, hq'⟩) (hlink ⟨c, hc, hq', hq⟩)
    have hmem : i ∈ reached k := ⟨i, hi, .refl⟩
    rw [hreached] at hmem
    obtain ⟨j', hj', hchain⟩ := hmem
    exact Chained.symm (.head (meet_of_mem hj hj') hchain)

end Positions

section Blocks

variable {α : Type} (cs : Constraints α)

/-! ## 3. The blocks of one tag -/

/-- The smallest variable connected to the constraint at a position. -/
def tag (i : Fin cs.items.length) : Option Key := representative? cs.representatives (cs.item i)

/-- The positions with a tag. -/
def tagged (t : Option Key) : List (Fin cs.items.length) :=
  (List.finRange cs.items.length).filter fun i => cs.tag i = t

/-- The blocks of the constraints with variables. -/
def keyedBlocks : List (List (Fin cs.items.length)) := cs.names.map fun k => cs.tagged (some k)

/-- The positions of the constraints without variables. -/
def keylessPositions : List (Fin cs.items.length) := cs.tagged none

/-- The constraints with a tag, by position. -/
theorem filter_tagged (t : Option Key) :
    cs.items.filter (fun c => representative? cs.representatives c = t) =
      (cs.tagged t).map cs.item :=
  filter_items cs _

/-- The components collect the constraints with one tag, and those without one by one. -/
theorem components_eq_filter : cs.components =
    (cs.names.map fun k => Component.ofConstraints
      ⟨cs.items.filter fun c => representative? cs.representatives c = some k⟩) ++
    (cs.items.filter fun c => representative? cs.representatives c = none).map
      fun c => .ofConstraints ⟨[c]⟩ := by
  have hgroup : ∀ k, (cs.items.map fun c => (representative? cs.representatives c, c)).filterMap
      (fun e => if e.1 = some k then some e.2 else none) =
        cs.items.filter fun c => representative? cs.representatives c = some k := by
    intro k
    rw [← List.filterMap_eq_filter, List.filterMap_map]
    refine List.filterMap_congr fun c _ => ?_
    simp [Option.guard]
  have hkeyless : (cs.items.map fun c => (representative? cs.representatives c, c)).filterMap
      (fun e => if e.1 = none then some [e.2] else none) =
        (cs.items.filter fun c => representative? cs.representatives c = none).map ([·]) := by
    rw [← List.filterMap_eq_filter, List.map_filterMap, List.filterMap_map]
    refine List.filterMap_congr fun c _ => ?_
    by_cases hc : representative? cs.representatives c = none <;> simp [Option.guard, hc]
  unfold components
  simp only [hkeyless]
  simp only [List.map_append, List.map_map, names]
  congr 1
  exact List.map_congr_left fun e _ => congrArg (fun g => Component.ofConstraints ⟨g⟩) (hgroup e.1)

/-- The components are the blocks of the positions with one tag. -/
theorem components_eq_blocks :
    cs.components = (cs.keyedBlocks ++ cs.keylessPositions.map ([·])).map cs.block := by
  rw [components_eq_filter, List.map_append, keyedBlocks, List.map_map, List.map_map,
    filter_tagged, List.map_map]
  congr 1
  refine List.map_congr_left fun k _ => ?_
  rw [filter_tagged]
  rfl

variable {cs} {i j : Fin cs.items.length} {k m : Key}

theorem mem_tagged {t : Option Key} : i ∈ cs.tagged t ↔ cs.tag i = t := by
  simp [tagged]

theorem tagged_ascending (t : Option Key) : (cs.tagged t).Pairwise (· < ·) :=
  (List.pairwise_lt_finRange _).filter _

theorem tag_eq_some_iff : cs.tag i = some m ↔ ∃ k ∈ (cs.item i).keys, cs.SmallestOf k m :=
  representative?_eq_some_iff (cs.item_mem i)

theorem tag_eq_none_iff : cs.tag i = none ↔ (cs.item i).keys = [] :=
  representative?_eq_none_iff (cs.item_mem i)

theorem smallestOf_of_tag (h : cs.tag i = some m) (hk : k ∈ (cs.item i).keys) :
    cs.SmallestOf k m := by
  obtain ⟨q, hq, hm⟩ := tag_eq_some_iff.1 h
  exact hm.congr (connected_of_mem (cs.item_mem i) hq hk)

theorem mem_names_of_tag (h : cs.tag i = some m) : m ∈ cs.names := by
  obtain ⟨q, -, hm⟩ := tag_eq_some_iff.1 h
  exact mem_names.2 hm.self

theorem exists_tagged (hm : m ∈ cs.names) : ∃ i, cs.tag i = some m ∧ m ∈ (cs.item i).keys := by
  have hself := mem_names.1 hm
  obtain ⟨c, hc, hmc⟩ := Constraints.mem_keys.1 hself.1
  obtain ⟨i, rfl⟩ := exists_item hc
  exact ⟨i, tag_eq_some_iff.2 ⟨m, hmc, hself⟩, hmc⟩

/-- The name of a block is its smallest variable. -/
theorem smallest_tagged (hm : m ∈ cs.names) : (cs.block (cs.tagged (some m))).keys.Smallest m := by
  obtain ⟨i, hi, hmi⟩ := exists_tagged hm
  refine ⟨(mem_keys_block cs _ m).2 ⟨i, mem_tagged.2 hi, hmi⟩, fun q hq => ?_⟩
  obtain ⟨j, hj, hqj⟩ := (mem_keys_block cs _ q).1 hq
  have hsmallest := smallestOf_of_tag (mem_tagged.1 hj) hqj
  exact hsmallest.2.2 q (mem_keys_of_mem (cs.item_mem j) hqj) ((connected_equivalence cs).refl q)

theorem smallest_unique {s : KeySet} (h : s.Smallest k) (h' : s.Smallest m) : k = m :=
  Key.le_antisymm (h.2 m h'.1) (h'.2 k h.1)

/-- Constraints with variables have one tag exactly if a chain joins them. -/
theorem chained_iff_tag (hi : (cs.item i).keys ≠ []) (hj : (cs.item j).keys ≠ []) :
    cs.Chained i j ↔ ∃ m, cs.tag i = some m ∧ cs.tag j = some m := by
  obtain ⟨k, hk⟩ := List.exists_mem_of_ne_nil _ hi
  obtain ⟨k', hk'⟩ := List.exists_mem_of_ne_nil _ hj
  have hequiv := connected_equivalence cs
  rw [chained_iff_connected hk hk']
  constructor
  · intro h
    have hm := smallest_spec (mem_keys_of_mem (cs.item_mem i) hk)
    exact ⟨cs.smallest k, tag_eq_some_iff.2 ⟨k, hk, hm⟩, tag_eq_some_iff.2 ⟨k', hk', hm.congr h⟩⟩
  · intro htag
    obtain ⟨m, him, hjm⟩ := htag
    exact hequiv.trans (smallestOf_of_tag him hk).2.1 (hequiv.symm (smallestOf_of_tag hjm hk').2.1)

theorem keys_disjoint_of_tag {t t' : Option Key} (hne : t ≠ t') :
    ∀ k ∈ (cs.block (cs.tagged t)).keys.toList, k ∉ (cs.block (cs.tagged t')).keys.toList := by
  intro k hk hk'
  obtain ⟨i, hi, hki⟩ := (mem_keys_block cs _ k).1 hk
  obtain ⟨j, hj, hkj⟩ := (mem_keys_block cs _ k).1 hk'
  have hchain : cs.Chained i j := .single (meet_of_mem hki hkj)
  obtain ⟨m, him, hjm⟩ :=
    (chained_iff_tag (List.ne_nil_of_mem hki) (List.ne_nil_of_mem hkj)).1 hchain
  exact hne ((mem_tagged.1 hi).symm.trans (him.trans (hjm.symm.trans (mem_tagged.1 hj))))

theorem keys_nil_of_keyless (hi : i ∈ cs.keylessPositions) : (cs.block [i]).keys.toList = [] := by
  refine List.eq_nil_iff_forall_not_mem.2 fun k hk => ?_
  obtain ⟨j, hj, hkj⟩ := (mem_keys_block cs _ k).1 hk
  rw [List.mem_singleton.1 hj, tag_eq_none_iff.1 (mem_tagged.1 hi)] at hkj
  exact absurd hkj List.not_mem_nil

theorem mem_keyedBlocks {b : List (Fin cs.items.length)} :
    b ∈ cs.keyedBlocks ↔ ∃ m ∈ cs.names, cs.tagged (some m) = b := List.mem_map

/-! ## 4. The partition -/

theorem blocks_once (cs : Constraints α) :
    (cs.keyedBlocks.flatten ++ cs.keylessPositions).Perm (List.finRange cs.items.length) := by
  have hnodup : ∀ t, (cs.tagged t).Nodup :=
    fun t => (tagged_ascending t).imp fun h => Fin.ne_of_lt h
  have hdisjoint : ∀ {t t'}, t ≠ t' → (cs.tagged t).Disjoint (cs.tagged t') :=
    fun hne _ h h' => hne ((mem_tagged.1 h).symm.trans (mem_tagged.1 h'))
  have hkeyed : cs.keyedBlocks.flatten.Nodup := by
    refine List.nodup_flatten.2 ⟨fun b hb => ?_, ?_⟩
    · obtain ⟨m, -, rfl⟩ := mem_keyedBlocks.1 hb
      exact hnodup _
    · refine List.pairwise_map.2 (cs.names_ascending.imp fun hlt => hdisjoint fun e => ?_)
      exact Key.ne_of_lt hlt (Option.some.inj e)
  have hmem : ∀ {i}, i ∈ cs.keyedBlocks.flatten ↔ ∃ m, cs.tag i = some m := by
    intro i
    rw [List.mem_flatten]
    constructor
    · intro hblock
      obtain ⟨b, hb, hi⟩ := hblock
      obtain ⟨m, -, rfl⟩ := mem_keyedBlocks.1 hb
      exact ⟨m, mem_tagged.1 hi⟩
    · intro htag
      obtain ⟨m, hm⟩ := htag
      exact ⟨_, mem_keyedBlocks.2 ⟨m, mem_names_of_tag hm, rfl⟩, mem_tagged.2 hm⟩
  refine (List.perm_ext_iff_of_nodup ?_ (List.nodup_finRange _)).2 fun i => ?_
  · refine List.nodup_append'.2 ⟨hkeyed, hnodup none, fun i hi hi' => ?_⟩
    obtain ⟨m, hm⟩ := hmem.1 hi
    exact absurd ((mem_tagged.1 hi').symm.trans hm) (nofun)
  · rw [List.mem_append, hmem]
    refine iff_of_true ?_ (List.mem_finRange i)
    cases hi : cs.tag i with
    | none => exact .inr (mem_tagged.2 hi)
    | some m => exact .inl ⟨m, rfl⟩

/-- **The blocks of the positions with one tag are a partition.** -/
theorem partition_blocks (cs : Constraints α) :
    cs.Partition cs.keyedBlocks cs.keylessPositions where
  once := blocks_once cs
  ascending := by
    intro b hb
    obtain ⟨m, -, rfl⟩ := mem_keyedBlocks.1 hb
    exact tagged_ascending _
  keyless_ascending := tagged_ascending _
  keyless_iff := fun _ => mem_tagged.trans tag_eq_none_iff
  same_block_iff := by
    intro i j hi hj
    rw [chained_iff_tag hi hj]
    constructor
    · intro hblock
      obtain ⟨b, hb, hib, hjb⟩ := hblock
      obtain ⟨m, -, rfl⟩ := mem_keyedBlocks.1 hb
      exact ⟨m, mem_tagged.1 hib, mem_tagged.1 hjb⟩
    · intro htag
      obtain ⟨m, hi', hj'⟩ := htag
      have hb := mem_keyedBlocks.2 ⟨m, mem_names_of_tag hi', rfl⟩
      exact ⟨_, hb, mem_tagged.2 hi', mem_tagged.2 hj'⟩
  mem_keys := fun b _ => mem_keys_block cs b
  disjoint := by
    refine List.pairwise_append.2 ⟨?_, ?_, ?_⟩
    · refine List.pairwise_map.2 (cs.names_ascending.imp fun hlt => ?_)
      refine keys_disjoint_of_tag fun e => ?_
      exact Key.ne_of_lt hlt (Option.some.inj e)
    · refine List.pairwise_map.2 (List.pairwise_of_forall_mem_list fun i hi _ _ k hk => ?_)
      rw [keys_nil_of_keyless hi] at hk
      exact absurd hk List.not_mem_nil
    · intro b _ b' hb' k _
      obtain ⟨i, hi, rfl⟩ := List.mem_map.1 hb'
      rw [keys_nil_of_keyless hi]
      exact List.not_mem_nil
  smallest := by
    intro b hb
    obtain ⟨m, hm, rfl⟩ := mem_keyedBlocks.1 hb
    exact ⟨m, smallest_tagged hm⟩
  smallest_ascending := by
    refine List.pairwise_map.2 (List.Pairwise.imp_of_mem (fun hm hm' hlt => ?_) cs.names_ascending)
    intro k k' hk hk'
    rw [smallest_unique hk (smallest_tagged hm), smallest_unique hk' (smallest_tagged hm')]
    exact hlt

/-! ## 5. The components themselves -/

/-- A component has exactly the variables of its constraints. -/
theorem keys_component {c : Component α} (hc : c ∈ cs.components) :
    c.keys = c.constraints.keys := by
  rw [components_eq_blocks] at hc
  obtain ⟨b, -, rfl⟩ := List.mem_map.1 hc
  rfl

/-- Different components have no variable in common. -/
theorem components_disjoint (cs : Constraints α) :
    cs.components.Pairwise fun c c' => ∀ k ∈ c.keys.toList, k ∉ c'.keys.toList := by
  rw [components_eq_blocks]
  exact List.pairwise_map.2 (partition_blocks cs).disjoint

/-- The constraints of the components are those of the set. -/
theorem mem_items_iff {q : Constraint α} :
    q ∈ cs.items ↔ ∃ c ∈ cs.components, q ∈ c.constraints.items := by
  have hblocks : ∀ i, ∃ b ∈ cs.keyedBlocks ++ cs.keylessPositions.map ([·]), i ∈ b := by
    intro i
    rcases List.mem_append.1 ((blocks_once cs).mem_iff.2 (List.mem_finRange i)) with hi | hi
    · obtain ⟨b, hb, hib⟩ := List.mem_flatten.1 hi
      exact ⟨b, List.mem_append_left _ hb, hib⟩
    · exact ⟨[i], List.mem_append_right _ (List.mem_map_of_mem hi), List.mem_singleton.2 rfl⟩
  rw [components_eq_blocks]
  constructor
  · intro hq
    obtain ⟨i, rfl⟩ := exists_item hq
    obtain ⟨b, hb, hib⟩ := hblocks i
    exact ⟨cs.block b, List.mem_map_of_mem hb, List.mem_map_of_mem hib⟩
  · intro hblock
    obtain ⟨c, hc, hq⟩ := hblock
    obtain ⟨b, -, rfl⟩ := List.mem_map.1 hc
    obtain ⟨i, -, rfl⟩ := List.mem_map.1 hq
    exact cs.item_mem i

end Blocks

/-! ## 6. Another order of the constraints -/

/-- The same components, up to the order of the constraints of one component, and of the
components without variables at the end. -/
def SameUpToOrder {α : Type} (l l' : List (Component α)) : Prop :=
  ∃ keyed keyless keyed' keyless', l = keyed ++ keyless ∧ l' = keyed' ++ keyless' ∧
    List.Forall₂ (fun c c' => c.keys = c'.keys ∧ c.keys.toList ≠ [] ∧
      c.constraints.items.Perm c'.constraints.items) keyed keyed' ∧
    (∀ c ∈ keyless, c.keys.toList = []) ∧ keyless.Perm keyless'

section Order

variable {α : Type} {cs cs' : Constraints α}

theorem representatives_eq_of_perm (h : cs.items.Perm cs'.items) :
    cs.representatives = cs'.representatives := by
  rw [representatives_eq_map, representatives_eq_map, ← keys_eq_of_perm h]
  refine List.map_congr_left fun k hk => ?_
  have hk' : k ∈ cs'.keys.toList := keys_eq_of_perm h ▸ hk
  rw [(smallest_eq_iff hk).2 ((smallestOf_iff_of_perm h).2 (smallest_spec hk'))]

/-- Another order of the constraints gives the same components up to order. -/
theorem components_perm (h : cs.items.Perm cs'.items) :
    SameUpToOrder cs.components cs'.components := by
  have htable := representatives_eq_of_perm h
  refine ⟨_, _, _, _, components_eq_filter cs, components_eq_filter cs', ?_, ?_, ?_⟩
  · rw [← names_eq_of_perm h, ← htable, List.forall₂_map_left_iff, List.forall₂_map_right_iff]
    refine List.forall₂_same.2 fun k hk => ?_
    have hperm := h.filter fun c => representative? cs.representatives c = some k
    refine ⟨keys_eq_of_perm hperm, ?_, hperm⟩
    rw [filter_tagged]
    exact List.ne_nil_of_mem (smallest_tagged hk).1
  · intro c hc
    rw [filter_tagged, List.map_map] at hc
    obtain ⟨i, hi, rfl⟩ := List.mem_map.1 hc
    exact keys_nil_of_keyless hi
  · rw [← htable]
    exact (h.filter _).map _

/-- **The components are the partition of the constraints by the chains among them**, and another
order of the constraints gives the same components up to order. -/
theorem components_partition (cs : Constraints α) :
    (∃ keyed keyless, cs.Partition keyed keyless ∧
      cs.components = (keyed ++ keyless.map ([·])).map cs.block) ∧
    ∀ cs' : Constraints α, cs.items.Perm cs'.items → SameUpToOrder cs.components cs'.components :=
  ⟨⟨cs.keyedBlocks, cs.keylessPositions, partition_blocks cs, components_eq_blocks cs⟩,
    fun _ => components_perm⟩

theorem components_partition_swapped :
    SameUpToOrder
      (⟨[⟨.scalarPrior ⟨2⟩ 0 1, 1⟩, ⟨.scalarPrior ⟨1⟩ 0 1, 1⟩]⟩ : Constraints Float).components
      (⟨[⟨.scalarPrior ⟨1⟩ 0 1, 1⟩, ⟨.scalarPrior ⟨2⟩ 0 1, 1⟩]⟩ : Constraints Float).components :=
  (components_partition _).2 _ (.swap _ _ _)

/-- Two chained constraints, one without variables, and one by itself. -/
example :
    ((⟨[⟨.isotropic (.torque ⟨5⟩ ⟨2⟩ 0) 1 1, 1⟩,
        ⟨.isotropic (.custom ⟨"free", [], fun _ => pure [], none⟩) 0 1, 1⟩,
        ⟨.isotropic (.torque ⟨7⟩ ⟨5⟩ 0) 1 1, 1⟩,
        ⟨.scalarPrior ⟨1⟩ 0 1, 1⟩]⟩ : Constraints Float).components.map (·.keys.toList)) =
      [[⟨1⟩], [⟨2⟩, ⟨5⟩, ⟨7⟩], []] := by decide

end Order

end Constraints

end Articulated
