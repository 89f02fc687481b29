import Articulated.Proofs.Assembly.Slots
import Articulated.Proofs.Constraint.Partition
import Articulated.Proofs.Robot.Forest

/-!
# Components of the poses of a robot

The constraints on the poses of a robot at some times fall into components. They are those that one
sees in the robot: an island is a set of links that joints connect, and every island is a component
of its own at every time, if anything is asked of it. Neither keys nor closed loops join islands or
times.

* `Constraints.components_of_labels`: components of constraints whose variables are labelled, so
  that connected variables are those with the same label.
* `Robot.place`: the time and the island of a quantity, as such a label.
* `Robot.labelledBy_place`: variables of the poses are connected exactly if they are at one place.
* `Builder.components_islands`: the components are the islands at the times.
-/

namespace Articulated

open SimpleGraph

/-! ## 1. Labelled constraints -/

namespace Constraints

variable {α L : Type} {cs : Constraints α} {label : Key → L}

open Classical in
/-- The constraints with a variable of some label. -/
noncomputable def labelled (cs : Constraints α) (label : Key → L) (x : L) : Constraints α :=
  ⟨cs.items.filter fun c => decide (∃ k ∈ c.keys, label k = x)⟩

/-- Variables with one label are those that are connected. -/
def LabelledBy (cs : Constraints α) (label : Key → L) : Prop :=
  ∀ k ∈ cs.keys.toList, ∀ k' ∈ cs.keys.toList, cs.Connected k k' ↔ label k = label k'

theorem filter_representative (h : cs.LabelledBy label) {m : Key} (hm : cs.SmallestOf m m) :
    (⟨cs.items.filter fun c => representative? cs.representatives c = some m⟩ : Constraints α) =
      cs.labelled label (label m) := by
  unfold labelled
  congr 1
  refine List.filter_congr fun c hc => decide_eq_decide.2 ?_
  rw [representative?_eq_some_iff hc]
  refine exists_congr fun k => and_congr_right fun hk => ?_
  have hkey := mem_keys_of_mem hc hk
  rw [← h k hkey m hm.1]
  exact ⟨fun hsmallest => hsmallest.2.1, fun hconnected =>
    hm.congr ((connected_equivalence cs).symm hconnected)⟩

/-- **Components of labelled constraints.** If every constraint has a variable, then the components
are the constraints with the same label, one component for each label. -/
theorem components_of_labels (h : cs.LabelledBy label) (hkeyed : ∀ c ∈ cs.items, c.keys ≠ []) :
    ∃ labels : List L, labels.Nodup ∧ (∀ x, x ∈ labels ↔ ∃ k ∈ cs.keys.toList, label k = x) ∧
      cs.components = labels.map fun x => .ofConstraints (cs.labelled label x) := by
  refine ⟨cs.names.map label, ?_, fun x => ?_, ?_⟩
  · refine List.Nodup.map_on (fun m hm m' hm' heq => ?_) (cs.names_ascending.imp Key.ne_of_lt)
    have hself := mem_names.1 hm
    have hself' := mem_names.1 hm'
    exact (hself.congr ((h m hself.1 m' hself'.1).2 heq)).unique hself'
  · rw [List.mem_map]
    constructor
    · rintro ⟨m, hm, rfl⟩
      exact ⟨m, (mem_names.1 hm).1, rfl⟩
    · rintro ⟨k, hk, rfl⟩
      have hsmallest := smallest_spec hk
      exact ⟨cs.smallest k, mem_names.2 hsmallest.self,
        (h _ hsmallest.1 k hk).1 ((connected_equivalence cs).symm hsmallest.2.1)⟩
  · have hkeyless : (cs.items.filter fun c => representative? cs.representatives c = none) = [] :=
      List.filter_eq_nil_iff.2 fun c hc => by
        rw [decide_eq_true_iff, representative?_eq_none_iff hc]
        exact hkeyed c hc
    rw [components_eq_filter, hkeyless, List.map_nil, List.append_nil, List.map_map]
    exact List.map_congr_left fun m hm =>
      congrArg Component.ofConstraints (filter_representative h (mem_names.1 hm))

/-! ## 2. Constraints that fill slots -/

section Slots

variable {slots : List Slot} {s : Slot} {v w : Variable} {k k' : Key}
  (h : List.Forall₂ (fun s c => c.factor.Fills s) slots cs.items)

include h

theorem mem_keys_of_fill :
    k ∈ cs.keys.toList ↔ ∃ s ∈ slots, ∃ v ∈ s.quantities, v.key? = some k := by
  rw [mem_keys]
  constructor
  · rintro ⟨c, hc, hk⟩
    obtain ⟨s, hs, hfill⟩ := exists_answer h.flip hc
    exact ⟨s, hs, hfill.exists_of_mem hk⟩
  · rintro ⟨s, hs, v, hv, hk⟩
    obtain ⟨c, hc, hfill⟩ := exists_answer h hs
    exact ⟨c, hc, (hfill.mem_iff hk).2 hv⟩

theorem connected_of_slot (hs : s ∈ slots) (hv : v ∈ s.quantities) (hw : w ∈ s.quantities)
    (hk : v.key? = some k) (hk' : w.key? = some k') : cs.Connected k k' := by
  obtain ⟨c, hc, hfill⟩ := exists_answer h hs
  exact connected_of_mem hc ((hfill.mem_iff hk).2 hv) ((hfill.mem_iff hk').2 hw)

theorem exists_key_of_slot (hs : s ∈ slots) (hv : v ∈ s.quantities) :
    ∃ k ∈ cs.keys.toList, v.key? = some k := by
  obtain ⟨c, hc, hfill⟩ := exists_answer h hs
  obtain ⟨k, hmem, hk⟩ := exists_answer hfill.keys hv
  exact ⟨k, mem_keys_of_mem hc hmem, hk⟩

end Slots

end Constraints

/-! ## 3. Islands -/

namespace Robot

variable {α : Type}

/-- A set of links that joints connect. -/
abbrev Island (r : Robot α) : Type := r.linkGraph.ConnectedComponent

/-- The island of a link. -/
def island (r : Robot α) (link : Nat) : r.Island := r.linkGraph.connectedComponentMk link

/-- Something is asked of the poses on the island: it has a joint or a fixed link. -/
def Constrained (r : Robot α) (island : r.Island) : Prop :=
  (∃ j ∈ r.joints, r.island j.parent = island) ∨ ∃ l ∈ r.fixedLinks, r.island l.id = island

open Classical in
/-- The joints on an island, in the order of the robot. -/
noncomputable def jointsOn (r : Robot α) (island : r.Island) : List (Joint α) :=
  r.joints.filter fun j => decide (r.island j.parent = island)

open Classical in
/-- The fixed links on an island, in the order of the robot. -/
noncomputable def fixedLinksOn (r : Robot α) (island : r.Island) : List (Link α) :=
  r.fixedLinks.filter fun l => decide (r.island l.id = island)

/-- The slots of the poses on an island: one for every joint and one for every fixed link. -/
noncomputable def slotsOn (r : Robot α) (t : Nat) (island : r.Island) : List Slot :=
  (r.jointsOn island).map (Builder.poseSlot t) ++ (r.fixedLinksOn island).map (Builder.restSlot t)

section Islands

variable {r : Robot α} {j : Joint α} {l : Link α} {t i : Nat}

theorem Valid.island_child (hr : r.Valid) (hj : j ∈ r.joints) :
    r.island j.child = r.island j.parent :=
  ConnectedComponent.sound (hr.adj_of_mem hj).symm.reachable

/-- A link that is not alone on its island is at an end of a joint. -/
theorem exists_joint_of_ne (h : r.island l.id = r.island i) (hne : l.id ≠ i) :
    ∃ j ∈ r.joints, j.parent = l.id ∨ j.child = l.id := by
  obtain ⟨path⟩ := ConnectedComponent.exact h
  cases path with
  | nil => exact absurd rfl hne
  | cons hadj _ =>
    obtain ⟨-, ⟨j, hj, hparent, -⟩ | ⟨j, hj, -, hchild⟩⟩ := linkGraph_adj.1 hadj
    · exact ⟨j, hj, .inl hparent⟩
    · exact ⟨j, hj, .inr hchild⟩

/-- Every link of an island with a joint or a fixed link is fixed or at an end of a joint. -/
theorem Valid.fixed_or_end (hr : r.Valid) (hl : l ∈ r.links) (h : r.Constrained (r.island l.id)) :
    l ∈ r.fixedLinks ∨ ∃ j ∈ r.joints, j.parent = l.id ∨ j.child = l.id := by
  rcases h with ⟨j, hj, heq⟩ | ⟨f, hf, heq⟩
  · by_cases hne : l.id = j.parent
    · exact .inr ⟨j, hj, .inl hne.symm⟩
    · exact .inr (exists_joint_of_ne heq.symm hne)
  · by_cases hne : l.id = f.id
    · exact .inl (List.inj_on_of_nodup_map hr.links_nodup hl (List.mem_filter.1 hf).1 hne ▸ hf)
    · exact .inr (exists_joint_of_ne heq.symm hne)

open Classical in
theorem mem_jointsOn {island : r.Island} :
    j ∈ r.jointsOn island ↔ j ∈ r.joints ∧ r.island j.parent = island :=
  List.mem_filter.trans (and_congr_right fun _ => decide_eq_true_iff)

open Classical in
theorem mem_fixedLinksOn {island : r.Island} :
    l ∈ r.fixedLinksOn island ↔ l ∈ r.fixedLinks ∧ r.island l.id = island :=
  List.mem_filter.trans (and_congr_right fun _ => decide_eq_true_iff)

/-- The quantities on an island are the poses of its links and the angles of its joints. -/
theorem Valid.mem_quantitiesOn (hr : r.Valid) {island : r.Island} (h : r.Constrained island)
    {v : Variable} : (∃ s ∈ r.slotsOn t island, v ∈ s.quantities) ↔
      (∃ l ∈ r.links, r.island l.id = island ∧ .pose l.id t = v) ∨
        ∃ j ∈ r.joints, r.island j.parent = island ∧ .jointAngle j.id t = v := by
  have hend : ∀ {i}, i ∈ r.links.map (·.id) → r.island i = island →
      ∃ l ∈ r.links, r.island l.id = island ∧ Variable.pose l.id t = .pose i t := by
    rintro i hi hisland
    obtain ⟨l, hl, rfl⟩ := List.mem_map.1 hi
    exact ⟨l, hl, hisland, rfl⟩
  constructor
  · rintro ⟨s, hs, hv⟩
    rcases List.mem_append.1 hs with hs | hs
    · obtain ⟨j, hj, rfl⟩ := List.mem_map.1 hs
      obtain ⟨hj, hisland⟩ := mem_jointsOn.1 hj
      simp only [Builder.poseSlot, List.mem_cons, List.not_mem_nil, or_false] at hv
      rcases hv with rfl | rfl | rfl
      · exact .inl (hend (hr.parent_mem j hj) hisland)
      · exact .inl (hend (hr.child_mem j hj) ((hr.island_child hj).trans hisland))
      · exact .inr ⟨j, hj, hisland, rfl⟩
    · obtain ⟨l, hl, rfl⟩ := List.mem_map.1 hs
      obtain ⟨hl, hisland⟩ := mem_fixedLinksOn.1 hl
      obtain rfl := List.mem_singleton.1 hv
      exact .inl ⟨l, (List.mem_filter.1 hl).1, hisland, rfl⟩
  · have hjoint : ∀ {j}, j ∈ r.joints → r.island j.parent = island →
        Builder.poseSlot t j ∈ r.slotsOn t island := fun hj hisland =>
      List.mem_append_left _ (List.mem_map_of_mem (mem_jointsOn.2 ⟨hj, hisland⟩))
    rintro (⟨l, hl, rfl, rfl⟩ | ⟨j, hj, hisland, rfl⟩)
    · rcases hr.fixed_or_end hl h with hfixed | ⟨j, hj, heq | heq⟩
      · exact ⟨_, List.mem_append_right _ (List.mem_map_of_mem (mem_fixedLinksOn.2 ⟨hfixed, rfl⟩)),
          List.mem_cons_self⟩
      · exact ⟨_, hjoint hj (heq ▸ rfl), heq ▸ List.mem_cons_self⟩
      · exact ⟨_, hjoint hj (heq ▸ (hr.island_child hj).symm),
          heq ▸ List.mem_cons_of_mem _ List.mem_cons_self⟩
    · exact ⟨_, hjoint hj hisland,
        List.mem_cons_of_mem _ (List.mem_cons_of_mem _ List.mem_cons_self)⟩

/-- The time and the island of a pose or a joint angle. -/
def place (r : Robot α) : Variable → Nat × r.Island
  | .pose link t => (t, r.island link)
  | .jointAngle joint t => (t, r.island (((r.joint? joint).map (·.parent)).getD 0))
  | v => (v.index, r.island 0)

/-- The place of the quantity that a key stands for. -/
def placeOf (r : Robot α) (k : Key) : Nat × r.Island :=
  r.place <| k.variable?.getD (.phaseDuration 0)

theorem placeOf_key {v : Variable} {k : Key} (hk : v.key? = some k) : r.placeOf k = r.place v := by
  unfold placeOf
  rw [Variable.decode_of_key hk, Option.getD_some]

theorem Valid.place_angle (hr : r.Valid) (hj : j ∈ r.joints) :
    r.place (.jointAngle j.id t) = (t, r.island j.parent) := by
  have hfind : r.joint? j.id = some j := find?_id hr.joints_nodup j hj
  show (t, r.island (((r.joint? j.id).map (·.parent)).getD 0)) = _
  rw [hfind, Option.map_some, Option.getD_some]

/-- All quantities of a joint are at the place of its parent. -/
theorem Valid.place_poseSlot (hr : r.Valid) (hj : j ∈ r.joints) {v : Variable}
    (hv : v ∈ (Builder.poseSlot t j).quantities) : r.place v = (t, r.island j.parent) := by
  simp only [Builder.poseSlot, List.mem_cons, List.not_mem_nil, or_false] at hv
  rcases hv with rfl | rfl | rfl
  · rfl
  · exact congrArg (t, ·) (hr.island_child hj)
  · exact hr.place_angle hj

theorem place_restSlot {v : Variable} (hv : v ∈ (Builder.restSlot t l).quantities) :
    r.place v = (t, r.island l.id) := by
  obtain rfl := List.mem_singleton.1 hv
  rfl

end Islands

/-! ## 4. Poses at some times -/

section Poses

variable {r : Robot α} {ts : List Nat} {cs : Constraints α} {t : Nat} {k k' : Key}

theorem mem_slots {s : Slot} : s ∈ ts.flatMap (Builder.poseSlots r) ↔ ∃ t ∈ ts,
    (∃ j ∈ r.joints, Builder.poseSlot t j = s) ∨ ∃ l ∈ r.fixedLinks, Builder.restSlot t l = s := by
  simp only [List.mem_flatMap, Builder.poseSlots, List.mem_append, List.mem_map]

/-- Every slot of the poses has the pose of a link. -/
theorem exists_pose_of_slot {s : Slot} (hs : s ∈ ts.flatMap (Builder.poseSlots r)) :
    ∃ t ∈ ts, ∃ link, Variable.pose link t ∈ s.quantities := by
  obtain ⟨t, ht, ⟨j, -, rfl⟩ | ⟨l, -, rfl⟩⟩ := mem_slots.1 hs
  · exact ⟨t, ht, j.parent, List.mem_cons_self⟩
  · exact ⟨t, ht, l.id, List.mem_cons_self⟩

variable (hr : r.Valid)
  (h : List.Forall₂ (fun s c => c.factor.Fills s) (ts.flatMap (Builder.poseSlots r)) cs.items)

include hr h

omit h in
/-- The quantities of one slot are at one place. -/
theorem place_uniform {s : Slot} (hs : s ∈ ts.flatMap (Builder.poseSlots r)) {v w : Variable}
    (hv : v ∈ s.quantities) (hw : w ∈ s.quantities) : r.place v = r.place w := by
  obtain ⟨t, -, ⟨j, hj, rfl⟩ | ⟨l, -, rfl⟩⟩ := mem_slots.1 hs
  · exact (hr.place_poseSlot hj hv).trans (hr.place_poseSlot hj hw).symm
  · exact (place_restSlot hv).trans (place_restSlot hw).symm

omit hr in
/-- Along a walk through joints the poses at one time are connected. -/
theorem connected_of_walk (ht : t ∈ ts) : ∀ {u w : Nat}, r.linkGraph.Walk u w → ∀ {k k' : Key},
    (Variable.pose u t).key? = some k → (Variable.pose w t).key? = some k' → cs.Connected k k'
  | _, _, .nil, k, k', hk, hk' => by
    obtain rfl := Option.some.inj (hk.symm.trans hk')
    exact (Constraints.connected_equivalence cs).refl k
  | u, w, .cons (v := m) hadj path, k, k', hk, hk' => by
    have hslot : ∃ s ∈ ts.flatMap (Builder.poseSlots r),
        .pose u t ∈ s.quantities ∧ .pose m t ∈ s.quantities := by
      obtain ⟨-, ⟨j, hj, rfl, rfl⟩ | ⟨j, hj, rfl, rfl⟩⟩ := linkGraph_adj.1 hadj
      · exact ⟨_, mem_slots.2 ⟨t, ht, .inl ⟨j, hj, rfl⟩⟩, List.mem_cons_self,
          List.mem_cons_of_mem _ List.mem_cons_self⟩
      · exact ⟨_, mem_slots.2 ⟨t, ht, .inl ⟨j, hj, rfl⟩⟩,
          List.mem_cons_of_mem _ List.mem_cons_self, List.mem_cons_self⟩
    obtain ⟨s, hs, hu, hm⟩ := hslot
    obtain ⟨q, -, hq⟩ := Constraints.exists_key_of_slot h hs hm
    exact (Constraints.connected_equivalence cs).trans
      (Constraints.connected_of_slot h hs hu hm hk hq) (connected_of_walk ht path hq hk')

/-- Every variable is connected to the pose of a link, and at the same place. -/
theorem exists_connected_pose (hk : k ∈ cs.keys.toList) : ∃ t ∈ ts, ∃ link q,
    (Variable.pose link t).key? = some q ∧ cs.Connected k q ∧
      r.placeOf k = (t, r.island link) := by
  obtain ⟨s, hs, v, hv, hkey⟩ := (Constraints.mem_keys_of_fill h).1 hk
  obtain ⟨t, ht, link, hlink⟩ := exists_pose_of_slot hs
  obtain ⟨q, -, hq⟩ := Constraints.exists_key_of_slot h hs hlink
  exact ⟨t, ht, link, q, hq, Constraints.connected_of_slot h hs hv hlink hkey hq,
    (placeOf_key hkey).trans (place_uniform hr hs hv hlink)⟩

/-- **The variables of the poses are connected exactly if they are at one place.** -/
theorem labelledBy_place : cs.LabelledBy r.placeOf := by
  intro k hk k' hk'
  have hequiv := Constraints.connected_equivalence cs
  constructor
  · intro hconnected
    have hsame : Equivalence fun q q' => r.placeOf q = r.placeOf q' :=
      ⟨fun _ => rfl, Eq.symm, Eq.trans⟩
    refine hsame.eqvGen_iff.1 (Relation.EqvGen.mono (fun q q' hlinked => ?_) k k' hconnected)
    obtain ⟨c, hc, hq, hq'⟩ := hlinked
    obtain ⟨s, hs, hfill⟩ := exists_answer h.flip hc
    obtain ⟨v, hv, hkv⟩ := hfill.exists_of_mem hq
    obtain ⟨w, hw, hkw⟩ := hfill.exists_of_mem hq'
    show r.placeOf q = r.placeOf q'
    rw [placeOf_key hkv, placeOf_key hkw, place_uniform hr hs hv hw]
  · intro hplace
    obtain ⟨t, ht, link, q, hq, hkq, hpk⟩ := exists_connected_pose hr h hk
    obtain ⟨t', -, link', q', hq', hkq', hpk'⟩ := exists_connected_pose hr h hk'
    obtain ⟨rfl, hisland⟩ := Prod.mk.inj (hpk.symm.trans (hplace.trans hpk'))
    obtain ⟨path⟩ := ConnectedComponent.exact hisland
    exact hequiv.trans hkq (hequiv.trans (connected_of_walk h ht path hq hq') (hequiv.symm hkq'))

/-! ## 5. The constraints at a place -/

omit hr h in
/-- Whether a slot with quantities at one place is at a given place. -/
theorem exists_place_iff {s : Slot} {p q : Nat × r.Island} (hne : s.quantities ≠ [])
    (hall : ∀ v ∈ s.quantities, r.place v = p) : (∃ v ∈ s.quantities, r.place v = q) ↔ p = q := by
  obtain ⟨v, hv⟩ := List.exists_mem_of_ne_nil _ hne
  exact ⟨fun ⟨w, hw, heq⟩ => (hall w hw).symm.trans heq, fun heq => ⟨v, hv, (hall v hv).trans heq⟩⟩

omit h in
open Classical in
/-- The slots at a place: the joints and the fixed links of the island. -/
theorem filter_poseSlots (hts : ts.Nodup) (ht : t ∈ ts) (island : r.Island) :
    ((ts.flatMap (Builder.poseSlots r)).filter fun s =>
        decide (∃ v ∈ s.quantities, r.place v = (t, island))) = r.slotsOn t island := by
  have hjoint : ∀ t', ∀ j ∈ r.joints,
      (∃ v ∈ (Builder.poseSlot t' j).quantities, r.place v = (t, island)) ↔
        (t', r.island j.parent) = (t, island) :=
    fun t' j hj => exists_place_iff (List.cons_ne_nil _ _) fun v hv => hr.place_poseSlot hj hv
  have hlink : ∀ t' (l : Link α),
      (∃ v ∈ (Builder.restSlot t' l).quantities, r.place v = (t, island)) ↔
        (t', r.island l.id) = (t, island) :=
    fun t' l => exists_place_iff (List.cons_ne_nil _ _) fun v hv => place_restSlot hv
  rw [filter_flatMap_of_one (f := id) (by rwa [List.map_id]) ht fun t' _ hne => ?_]
  · unfold Builder.poseSlots slotsOn
    rw [List.filter_append, List.filter_map, List.filter_map]
    congr 2
    · refine List.filter_congr fun j hj => decide_eq_decide.2 ?_
      rw [hjoint t j hj, Prod.mk.injEq, and_iff_right rfl]
    · refine List.filter_congr fun l _ => decide_eq_decide.2 ?_
      rw [hlink t l, Prod.mk.injEq, and_iff_right rfl]
  · refine List.filter_eq_nil_iff.2 fun s hs => ?_
    rw [decide_eq_true_iff]
    rcases List.mem_append.1 hs with hs | hs
    · obtain ⟨j, hj, rfl⟩ := List.mem_map.1 hs
      rw [hjoint t' j hj]
      exact fun heq => hne (congrArg Prod.fst heq)
    · obtain ⟨l, -, rfl⟩ := List.mem_map.1 hs
      rw [hlink t' l]
      exact fun heq => hne (congrArg Prod.fst heq)

/-- The constraints at a place fill the slots of the joints and fixed links of the island. -/
theorem labelled_fill (hts : ts.Nodup) (ht : t ∈ ts) (island : r.Island) :
    List.Forall₂ (fun s c => c.factor.Fills s) (r.slotsOn t island)
      (cs.labelled r.placeOf (t, island)).items := by
  rw [← filter_poseSlots hr hts ht]
  refine List.rel_filter (fun s c hfill => ?_) h
  simp only [decide_eq_true_iff]
  constructor
  · rintro ⟨v, hv, hplace⟩
    obtain ⟨k, hk, hkey⟩ := exists_answer hfill.keys hv
    exact ⟨k, hk, (placeOf_key hkey).trans hplace⟩
  · rintro ⟨k, hk, hplace⟩
    obtain ⟨v, hv, hkey⟩ := hfill.exists_of_mem hk
    exact ⟨v, hv, (placeOf_key hkey).symm.trans hplace⟩

/-- The places of the variables are the constrained islands at the times. -/
theorem exists_placeOf_iff {p : Nat × r.Island} :
    (∃ k ∈ cs.keys.toList, r.placeOf k = p) ↔ p.1 ∈ ts ∧ r.Constrained p.2 := by
  constructor
  · rintro ⟨k, hk, rfl⟩
    obtain ⟨s, hs, v, hv, hkey⟩ := (Constraints.mem_keys_of_fill h).1 hk
    rw [placeOf_key hkey]
    obtain ⟨t, ht, ⟨j, hj, rfl⟩ | ⟨l, hl, rfl⟩⟩ := mem_slots.1 hs
    · rw [hr.place_poseSlot hj hv]
      exact ⟨ht, .inl ⟨j, hj, rfl⟩⟩
    · rw [place_restSlot hv]
      exact ⟨ht, .inr ⟨l, hl, rfl⟩⟩
  · obtain ⟨t, island⟩ := p
    rintro ⟨ht, ⟨j, hj, rfl⟩ | ⟨l, hl, rfl⟩⟩
    · obtain ⟨k, hmem, hk⟩ := Constraints.exists_key_of_slot h
        (mem_slots.2 ⟨t, ht, .inl ⟨j, hj, rfl⟩⟩) List.mem_cons_self
      exact ⟨k, hmem, placeOf_key hk⟩
    · obtain ⟨k, hmem, hk⟩ := Constraints.exists_key_of_slot h
        (mem_slots.2 ⟨t, ht, .inr ⟨l, hl, rfl⟩⟩) List.mem_cons_self
      exact ⟨k, hmem, placeOf_key hk⟩

end Poses

/-! ## 6. Components are islands -/

/-- The component of an island at a time: its constraints are those of the joints and of the fixed
links on the island, its variables the poses of the links and the angles of the joints. -/
structure IslandAt (r : Robot α) (t : Nat) (island : r.Island) (component : Component α) :
    Prop where
  constraints : List.Forall₂ (fun s c => c.factor.Fills s) (r.slotsOn t island)
    component.constraints.items
  exists_pose : ∀ l ∈ r.links, r.island l.id = island → ∃ k, (Variable.pose l.id t).key? = some k
  exists_angle : ∀ j ∈ r.joints, r.island j.parent = island →
    ∃ k, (Variable.jointAngle j.id t).key? = some k
  mem_keys : ∀ k, k ∈ component.keys.toList ↔
    (∃ l ∈ r.links, r.island l.id = island ∧ (Variable.pose l.id t).key? = some k) ∨
      ∃ j ∈ r.joints, r.island j.parent = island ∧ (Variable.jointAngle j.id t).key? = some k

theorem Valid.islandAt {r : Robot α} (hr : r.Valid) {t : Nat} {island : r.Island}
    (h : r.Constrained island) {cs : Constraints α}
    (hfill : List.Forall₂ (fun s c => c.factor.Fills s) (r.slotsOn t island) cs.items) :
    r.IslandAt t island (.ofConstraints cs) := by
  have hkey : ∀ {v : Variable}, (∃ s ∈ r.slotsOn t island, v ∈ s.quantities) →
      ∃ k, v.key? = some k := by
    rintro v ⟨s, hs, hv⟩
    obtain ⟨k, -, hk⟩ := Constraints.exists_key_of_slot hfill hs hv
    exact ⟨k, hk⟩
  refine ⟨hfill, fun l hl hisland => ?_, fun j hj hisland => ?_, fun k => ?_⟩
  · exact hkey ((hr.mem_quantitiesOn h).2 (.inl ⟨l, hl, hisland, rfl⟩))
  · exact hkey ((hr.mem_quantitiesOn h).2 (.inr ⟨j, hj, hisland, rfl⟩))
  · refine (Constraints.mem_keys_of_fill hfill).trans ?_
    constructor
    · rintro ⟨s, hs, v, hv, hk⟩
      obtain ⟨l, hl, hisland, rfl⟩ | ⟨j, hj, hisland, rfl⟩ :=
        (hr.mem_quantitiesOn h).1 ⟨s, hs, hv⟩
      · exact .inl ⟨l, hl, hisland, hk⟩
      · exact .inr ⟨j, hj, hisland, hk⟩
    · rintro (⟨l, hl, hisland, hk⟩ | ⟨j, hj, hisland, hk⟩)
      · obtain ⟨s, hs, hv⟩ := (hr.mem_quantitiesOn h).2 (.inl ⟨l, hl, hisland, rfl⟩)
        exact ⟨s, hs, _, hv, hk⟩
      · obtain ⟨s, hs, hv⟩ := (hr.mem_quantitiesOn h).2 (.inr ⟨j, hj, hisland, rfl⟩)
        exact ⟨s, hs, _, hv, hk⟩

end Robot

namespace Builder

variable {α : Type} [Scalar α]

/-- The constraints on the poses at some times fill the slots of these times. -/
theorem ofGraph_fill [Runtime α] {b : Builder α} {r : Robot α} {ts : List Nat}
    {gs : List (FactorGraph α)} (h : ts.mapM (b.poseFactors r) = .ok gs) (tolerance : α) :
    List.Forall₂ (fun s c => c.factor.Fills s) (ts.flatMap (poseSlots r))
      (Constraints.ofGraph (.join gs) tolerance).items := by
  refine List.forall₂_map_right_iff.2 ?_
  show List.Forall₂ _ _ (gs.flatMap (·.factors))
  rw [List.flatMap_def, List.flatMap_def]
  refine List.rel_flatten (List.forall₂_map_left_iff.2 (List.forall₂_map_right_iff.2 ?_))
  exact (mapM_eq_ok.1 h).imp fun t g hg => poseFactors_fill hg

/-- **Components of poses are islands.** The poses of a valid robot at different times are
assembled if the times fit the keys. The components of these constraints then are one for every
time and every island that has a joint or a fixed link. Each holds the constraints of the joints
and the fixed links of its island, and has the poses of its links and the angles of its joints as
variables. -/
theorem components_islands [Runtime α] {b : Builder α} {r : Robot α} (hcheck : r.check = .ok ())
    {ts : List Nat} (hts : ts.Nodup) (tolerance : α) :
    ((∀ t ∈ ts, t ≤ maxIndex) → ∃ gs, ts.mapM (b.poseFactors r) = .ok gs) ∧
    ∀ gs, ts.mapM (b.poseFactors r) = .ok gs →
      ∃ places : List (Nat × r.Island), places.Nodup ∧
        (∀ p, p ∈ places ↔ p.1 ∈ ts ∧ r.Constrained p.2) ∧
        List.Forall₂ (fun p component => r.IslandAt p.1 p.2 component ∧
            component.constraints.items.Sublist (Constraints.ofGraph (.join gs) tolerance).items)
          places (Constraints.ofGraph (.join gs) tolerance).components := by
  have hr : r.Valid := Robot.check_eq_ok_iff.1 hcheck
  refine ⟨fun hle => ?_, fun gs hgs => ?_⟩
  · refine (NeedsKeys.mapM (p := ∀ t ∈ ts, t ≤ maxIndex) fun t ht => ?_).succeeds hle
    exact (poseFactors_needsKeys hr).mono fun hle => hle t ht
  · have hfill := ofGraph_fill hgs tolerance
    have hkeyed : ∀ c ∈ (Constraints.ofGraph (.join gs) tolerance).items, c.keys ≠ [] := by
      intro c hc
      obtain ⟨s, hs, hslot⟩ := exists_answer hfill.flip hc
      obtain ⟨t, -, link, hlink⟩ := Robot.exists_pose_of_slot hs
      obtain ⟨k, hk, -⟩ := exists_answer hslot.keys hlink
      exact List.ne_nil_of_mem hk
    obtain ⟨places, hnodup, hplaces, hcomponents⟩ :=
      Constraints.components_of_labels (Robot.labelledBy_place hr hfill) hkeyed
    have hmem : ∀ p, p ∈ places ↔ p.1 ∈ ts ∧ r.Constrained p.2 := fun p =>
      (hplaces p).trans (Robot.exists_placeOf_iff hr hfill)
    refine ⟨places, hnodup, hmem, ?_⟩
    rw [hcomponents]
    refine List.forall₂_map_right_iff.2 (List.forall₂_same.2 fun p hp => ?_)
    obtain ⟨ht, hconstrained⟩ := (hmem p).1 hp
    exact ⟨hr.islandAt hconstrained (Robot.labelled_fill hr hfill hts ht p.2),
      List.filter_sublist⟩

/-- The arm at two times: one component is its island at the later time. -/
theorem components_islands_twoLinkArm :
    let r : Robot Float := .twoLinkArm
    let b : Builder Float := ofSettings .default
    r.check = .ok () ∧ [0, 2].Nodup ∧ (∀ t ∈ [0, 2], t ≤ maxIndex) ∧
      ∃ gs, [0, 2].mapM (b.poseFactors r) = .ok gs ∧
        ∃ component ∈ (Constraints.ofGraph (.join gs) 1e-6).components,
          r.IslandAt 2 (r.island 0) component := by
  intro r b
  have hr : r.check = .ok () := rfl
  have hts : [0, 2].Nodup := by decide
  have hle : ∀ t ∈ [0, 2], t ≤ maxIndex := by decide
  obtain ⟨hsucceeds, hislands⟩ := components_islands (b := b) hr hts 1e-6
  obtain ⟨gs, hgs⟩ := hsucceeds hle
  obtain ⟨places, -, hplaces, hcomponents⟩ := hislands gs hgs
  have hmem : (2, r.island 0) ∈ places :=
    (hplaces _).2 ⟨by decide, .inl ⟨_, List.mem_cons_self, rfl⟩⟩
  obtain ⟨component, hcomponent, hisland, -⟩ := exists_answer hcomponents hmem
  exact ⟨hr, hts, hle, gs, hgs, component, hcomponent, hisland⟩

end Builder

end Articulated
