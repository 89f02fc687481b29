import Articulated.Proofs.Assembly.Slots
import Articulated.Robot.Model
import Mathlib.Data.List.Count
import Mathlib.Data.List.Nodup

/-!
# The wrenches of a slice

The wrench of a joint on a link enters the dynamics from two sides: with the balance of the link,
for every joint at it, and with the relations of the joint, for each of its two ends. A wrench that
one side names and the other does not would be free, and one named twice would count twice. Neither
happens, whatever the robot looks like.

* `FactorGraph.users`: the factors of a kind that have a key.
* `Slot.UsedOnce.of_slots`: what is counted in the slots of a graph is counted in its factors.
* `Builder.wrenches_balanced`: which wrenches there are, and how often each kind of factor uses
  them.
-/

namespace Articulated

/-! ## 1. Users of a key -/

namespace FactorGraph

variable {α : Type}

/-- The factors of a kind that have a key, in the order of the graph. -/
def users (g : FactorGraph α) (kind : String) (k : Key) : List (Factor α) :=
  g.factors.filter fun f => f.name == kind && decide (k ∈ f.keys)

/-- Exactly one factor of the kind has the key, and has it exactly once. -/
def UsedOnce (g : FactorGraph α) (kind : String) (k : Key) : Prop :=
  ∃ f, g.users kind k = [f] ∧ f.keys.count k = 1

end FactorGraph

namespace Slot

/-- The slots of a kind that have a quantity. -/
def users (slots : List Slot) (kind : String) (v : Variable) : List Slot :=
  slots.filter fun s => s.kind == kind && decide (v ∈ s.quantities)

/-- Exactly one slot of the kind has the quantity, and has it exactly once. -/
def UsedOnce (slots : List Slot) (kind : String) (v : Variable) : Prop :=
  ∃ s, users slots kind v = [s] ∧ s.quantities.count v = 1

section Graph

variable {α : Type} {g : FactorGraph α} {slots : List Slot} {kind : String} {v : Variable}
  {k : Key} (h : List.Forall₂ (fun s f => f.Fills s) slots g.factors) (hk : v.key? = some k)

include h hk

/-- The factors with a key fill the slots with its quantity. -/
theorem users_fill : List.Forall₂ (fun s f => f.Fills s) (users slots kind v) (g.users kind k) := by
  refine List.rel_filter (fun s f hs => ?_) h
  simp only [hs.name_eq, hs.mem_iff hk]

theorem UsedOnce.of_slots (hv : UsedOnce slots kind v) : g.UsedOnce kind k := by
  obtain ⟨s, hs, hcount⟩ := hv
  have hfill : List.Forall₂ _ (users slots kind v) (g.users kind k) := users_fill h hk
  rw [hs, List.forall₂_cons_left_iff] at hfill
  obtain ⟨f, fs, hf, hfs, heq⟩ := hfill
  obtain rfl := List.forall₂_nil_left_iff.1 hfs
  exact ⟨f, heq, (hf.count_eq hk).trans hcount⟩

theorem users_eq_nil (hv : users slots kind v = []) : g.users kind k = [] := by
  have hfill : List.Forall₂ _ (users slots kind v) (g.users kind k) := users_fill h hk
  rw [hv] at hfill
  exact List.forall₂_nil_left_iff.1 hfill

end Graph

/-! ## 2. Users among the parts of a robot -/

section Parts

variable {β : Type} {kind : String} {v : Variable}

theorem users_append (slots rest : List Slot) :
    users (slots ++ rest) kind v = users slots kind v ++ users rest kind v :=
  List.filter_append ..

theorem users_flatMap_eq_nil {slots : β → List Slot} {l : List β}
    (h : ∀ b ∈ l, users (slots b) kind v = []) : users (l.flatMap slots) kind v = [] :=
  filter_flatMap_eq_nil h

end Parts

end Slot

/-! ## 3. Wrenches among the slots of the dynamics -/

namespace Builder

open Slot

section Slots

variable {α : Type} {r : Robot α} {t i : Nat} {planar : Option (Vec3 α)} {j : Joint α}
  {l : Link α} {kind : String}

/-- The relations of a joint use no wrench of another joint. -/
theorem wrenchSlots_other {c : Joint α} (h : c.id ≠ j.id) :
    users (wrenchSlots t planar c) kind (.wrench i j.id t) = [] := by
  refine List.filter_eq_nil_iff.2 fun s hs => ?_
  simp only [wrenchSlots, List.mem_cons, List.mem_map] at hs
  rcases hs with rfl | rfl | ⟨axis, -, rfl⟩ <;> simp [h.symm]

/-- The relation between the two wrenches of a joint uses each of them. -/
theorem equivalence_usedOnce (hne : j.parent ≠ j.child) (hi : j.touches i = true) :
    UsedOnce (wrenchSlots t planar j) "wrench_equivalence" (.wrench i j.id t) := by
  rw [Joint.touches, Bool.or_eq_true, beq_iff_eq, beq_iff_eq] at hi
  refine ⟨⟨"wrench_equivalence", [.wrench j.parent j.id t, .wrench j.child j.id t,
    .jointAngle j.id t]⟩, ?_, ?_⟩
  · rcases hi with rfl | rfl <;> cases planar <;> simp [users, wrenchSlots]
  · rcases hi with rfl | rfl <;> simp [hne, hne.symm]

/-- The actuation of a joint uses the wrench on its child. -/
theorem torque_usedOnce :
    UsedOnce (wrenchSlots t planar j) "torque" (.wrench j.child j.id t) := by
  refine ⟨⟨"torque", [.wrench j.child j.id t, .torque j.id t]⟩, ?_, ?_⟩
  · cases planar <;> simp [users, wrenchSlots]
  · simp

/-- A plane uses the wrench on the child of a joint. -/
theorem planar_usedOnce {axis : Vec3 α} :
    UsedOnce (wrenchSlots t (some axis) j) "wrench_planar" (.wrench j.child j.id t) :=
  ⟨⟨"wrench_planar", [.wrench j.child j.id t]⟩, by simp [users, wrenchSlots], by simp⟩

theorem planar_unused {v : Variable} :
    users (wrenchSlots t (none : Option (Vec3 α)) j) "wrench_planar" v = [] := by
  simp [users, wrenchSlots]

/-- Nothing but its relation to the other one uses the wrench on the parent of a joint. -/
theorem parent_unused (hne : j.parent ≠ j.child) (hkind : kind ≠ "wrench_equivalence") :
    users (wrenchSlots t planar j) kind (.wrench j.parent j.id t) = [] := by
  cases planar <;> simp [users, wrenchSlots, hne, hkind.symm]

/-- The relations of joints are no balances. -/
theorem wrenchSlots_wrench {v : Variable} : users (wrenchSlots t planar j) "wrench" v = [] := by
  cases planar <;> simp [users, wrenchSlots]

/-- Balances are the only slots of the moving links. -/
theorem balanceSlot_kind {v : Variable} (hkind : kind ≠ "wrench") :
    users [balanceSlot r t l] kind v = [] := by
  simp [users, balanceSlot, hkind.symm]

/-- The balance of a link uses no wrench on another link. -/
theorem balanceSlot_other {c : Link α} {joint : Nat} (h : c.id ≠ l.id) :
    users [balanceSlot r t c] kind (.wrench l.id joint t) = [] := by
  simp [users, balanceSlot, h]

/-- The balance of a link uses the wrench of every joint at the link. -/
theorem balanceSlot_usedOnce (hr : r.Valid) (hj : j ∈ r.joints) (hl : j.touches l.id = true) :
    UsedOnce [balanceSlot r t l] "wrench" (.wrench l.id j.id t) := by
  have hcount : ((r.jointsAt l.id).map fun c => Variable.wrench l.id c.id t).count
      (.wrench l.id j.id t) = 1 := by
    have hids : ((r.jointsAt l.id).map (·.id)).Nodup :=
      hr.joints_nodup.sublist (List.filter_sublist.map _)
    have hmem : j.id ∈ (r.jointsAt l.id).map (·.id) :=
      List.mem_map_of_mem (List.mem_filter.2 ⟨hj, hl⟩)
    have hinj : Function.Injective fun i => Variable.wrench l.id i t := fun a b h => by
      cases h
      rfl
    have hmap := List.count_map_of_injective ((r.jointsAt l.id).map (·.id)) _ hinj j.id
    rw [List.map_map, List.count_eq_one_of_mem hids hmem] at hmap
    exact hmap
  have hpos := List.count_pos_iff.1 (Nat.lt_of_lt_of_eq Nat.one_pos hcount.symm)
  refine ⟨balanceSlot r t l, ?_, ?_⟩
  · refine List.filter_eq_self.2 fun s hs => ?_
    obtain rfl := List.mem_singleton.1 hs
    simp [balanceSlot, hpos]
  · simpa [balanceSlot] using hcount

/-- Of all relations of joints, those of the joint itself use its wrenches. -/
theorem dynamicsSlots_joint (hr : r.Valid) (hj : j ∈ r.joints) (hkind : kind ≠ "wrench") :
    users (dynamicsSlots r t planar) kind (.wrench i j.id t) =
      users (wrenchSlots t planar j) kind (.wrench i j.id t) := by
  unfold dynamicsSlots
  rw [users_append, List.map_eq_flatMap, users_flatMap_eq_nil fun l _ => balanceSlot_kind hkind,
    List.nil_append]
  exact filter_flatMap_of_one hr.joints_nodup hj fun c _ hc => wrenchSlots_other hc

/-- Of all balances, that of the link itself uses the wrenches on it. A fixed link has none. -/
theorem dynamicsSlots_link (hr : r.Valid) (hl : l ∈ r.links) {joint : Nat} :
    users (dynamicsSlots r t planar) "wrench" (.wrench l.id joint t) =
      if l.fixed then [] else users [balanceSlot r t l] "wrench" (.wrench l.id joint t) := by
  unfold dynamicsSlots
  have hids : (r.movingLinks.map (·.id)).Nodup :=
    hr.links_nodup.sublist (List.filter_sublist.map _)
  rw [users_append, List.map_eq_flatMap, users_flatMap_eq_nil fun j _ => wrenchSlots_wrench,
    List.append_nil]
  split
  · rename_i hfixed
    refine users_flatMap_eq_nil fun c hc => balanceSlot_other fun heq => ?_
    obtain ⟨hc, hmoving⟩ := List.mem_filter.1 hc
    obtain rfl := List.inj_on_of_nodup_map hr.links_nodup hc hl heq
    simp [hfixed] at hmoving
  · rename_i hfixed
    exact filter_flatMap_of_one hids (List.mem_filter.2 ⟨hl, by simpa using hfixed⟩) fun c _ hc =>
      balanceSlot_other hc

end Slots

/-! ## 4. Wrenches among the factors of the dynamics -/

/-- The wrench of a joint on a link at one of its ends, with the given key, is used as often as it
should by every kind of factor. -/
structure WrenchBalanced {α : Type} (g : FactorGraph α) (planar : Option (Vec3 α)) (j : Joint α)
    (l : Link α) (k : Key) : Prop where
  equivalence : g.UsedOnce "wrench_equivalence" k
  balance : if l.fixed then g.users "wrench" k = [] else g.UsedOnce "wrench" k
  child : l.id = j.child → g.UsedOnce "torque" k ∧
    if planar.isSome then g.UsedOnce "wrench_planar" k else g.users "wrench_planar" k = []
  parent : l.id = j.parent → g.users "torque" k = [] ∧ g.users "wrench_planar" k = []

section Factors

variable {α : Type} [Scalar α] [Runtime α] {b : Builder α} {r : Robot α} {t : Nat}
  {gravity : Vec3 α} {planar : Option (Vec3 α)} {g : FactorGraph α} {j : Joint α} {l : Link α}
  {k : Key}

theorem wrenchBalanced_of_dynamics (hr : r.Valid) (h : b.dynamicsFactors r t gravity planar = .ok g)
    (hj : j ∈ r.joints) (hl : l ∈ r.links) (htouches : j.touches l.id = true)
    (hk : (Variable.wrench l.id j.id t).key? = some k) : WrenchBalanced g planar j l k := by
  have hfill := dynamicsFactors_fill h
  have hne := hr.ends_ne j hj
  have hjoint : ∀ {kind : String}, kind ≠ "wrench" →
      users (dynamicsSlots r t planar) kind (.wrench l.id j.id t) =
        users (wrenchSlots t planar j) kind (.wrench l.id j.id t) := dynamicsSlots_joint hr hj
  have honce : ∀ {kind : String}, kind ≠ "wrench" →
      UsedOnce (wrenchSlots t planar j) kind (.wrench l.id j.id t) → g.UsedOnce kind k :=
    fun hkind hused => UsedOnce.of_slots hfill hk (by rwa [UsedOnce, hjoint hkind])
  have hnone : ∀ {kind : String}, kind ≠ "wrench" →
      users (wrenchSlots t planar j) kind (.wrench l.id j.id t) = [] → g.users kind k = [] :=
    fun hkind hunused => users_eq_nil hfill hk ((hjoint hkind).trans hunused)
  refine ⟨honce (by decide) (equivalence_usedOnce hne htouches), ?_, fun hchild => ⟨?_, ?_⟩,
    fun hparent => ⟨?_, ?_⟩⟩
  · have hlink : users (dynamicsSlots r t planar) "wrench" (.wrench l.id j.id t) =
        if l.fixed then [] else users [balanceSlot r t l] "wrench" (.wrench l.id j.id t) :=
      dynamicsSlots_link hr hl
    split
    · rename_i hfixed
      exact users_eq_nil hfill hk (hlink.trans (if_pos hfixed))
    · rename_i hmoving
      refine UsedOnce.of_slots hfill hk ?_
      rw [UsedOnce, hlink, if_neg hmoving]
      exact balanceSlot_usedOnce hr hj htouches
  · exact honce (by decide) (hchild ▸ torque_usedOnce)
  · cases planar with
    | none => exact hnone (by decide) planar_unused
    | some axis => exact honce (by decide) (hchild ▸ planar_usedOnce)
  · exact hnone (by decide) (hparent ▸ parent_unused hne (by decide))
  · exact hnone (by decide) (hparent ▸ parent_unused hne (by decide))

/-- A key of the dynamics that is that of a wrench is that of a joint at one of its ends. -/
theorem wrench_of_mem (hr : r.Valid) (h : b.dynamicsFactors r t gravity planar = .ok g)
    {f : Factor α} (hf : f ∈ g.factors) (hmem : k ∈ f.keys) {link joint time : Nat}
    (hk : k.variable? = some (.wrench link joint time)) :
    ∃ j ∈ r.joints, ∃ l ∈ r.links, j.touches l.id = true ∧
      (Variable.wrench l.id j.id t).key? = some k := by
  have hwithin := dynamicsFactors_within h f hf
  rw [Factor.keys, ← Relation.map_fst_reads hwithin.regular.isBuiltIn] at hmem
  obtain ⟨e, he, rfl⟩ := List.mem_map.1 hmem
  obtain ⟨v, hv, hkey, -⟩ := hwithin.reads e he
  obtain rfl := Option.some.inj ((Variable.decode_of_key hkey).symm.trans hk)
  obtain ⟨⟨j, hj, hends, rfl⟩, rfl⟩ := hv
  have hlink : link ∈ r.links.map (·.id) := by
    rcases hends with rfl | rfl
    · exact hr.parent_mem j hj
    · exact hr.child_mem j hj
  obtain ⟨l, hl, rfl⟩ := List.mem_map.1 hlink
  refine ⟨j, hj, l, hl, ?_, hkey⟩
  rw [Joint.touches, Bool.or_eq_true, beq_iff_eq, beq_iff_eq]
  exact hends

/-- If the dynamics are assembled, then the wrenches of all joints have keys. -/
theorem exists_wrench_key (h : b.dynamicsFactors r t gravity planar = .ok g)
    (hj : j ∈ r.joints) (htouches : j.touches l.id = true) :
    ∃ k, (Variable.wrench l.id j.id t).key? = some k := by
  obtain ⟨hparent, hchild, -, -⟩ := dynamicsFactors_mentions_joint h hj
  have hmentions : g.Mentions (.wrench l.id j.id t) := by
    rw [Joint.touches, Bool.or_eq_true, beq_iff_eq, beq_iff_eq] at htouches
    rcases htouches with heq | heq
    · exact heq ▸ hparent
    · exact heq ▸ hchild
  obtain ⟨f, -, k, -, hk⟩ := hmentions
  exact ⟨k, hk⟩

end Factors

/-- **Every wrench is balanced once.** The dynamics of a valid robot are assembled at every time
that fits the keys. The wrenches among their variables then are those of the joints on the links at
their ends. Each is used once by the relation of action and reaction, and once by the balance of
its link unless that is fixed; the one on the child is used once by the actuation and, if there is
a plane, once by planarity, the one on the parent by neither. -/
theorem wrenches_balanced {α : Type} [Scalar α] [Runtime α] {b : Builder α} {r : Robot α}
    (hr : r.check = .ok ()) (t : Nat) (gravity : Vec3 α) (planar : Option (Vec3 α)) :
    (t ≤ maxIndex → ∃ g, b.dynamicsFactors r t gravity planar = .ok g) ∧
    ∀ g, b.dynamicsFactors r t gravity planar = .ok g →
      (∀ k link joint time, k.variable? = some (.wrench link joint time) →
        ((∃ f ∈ g.factors, k ∈ f.keys) ↔ ∃ j ∈ r.joints, ∃ l ∈ r.links,
          j.touches l.id = true ∧ (Variable.wrench l.id j.id t).key? = some k)) ∧
      ∀ j ∈ r.joints, ∀ l ∈ r.links, j.touches l.id = true →
        ∃ k, (Variable.wrench l.id j.id t).key? = some k ∧ WrenchBalanced g planar j l k := by
  have hvalid : r.Valid := Robot.check_eq_ok_iff.1 hr
  refine ⟨(dynamicsFactors_needsKeys hvalid gravity planar).succeeds, fun g h => ⟨?_, ?_⟩⟩
  · intro k link joint time hk
    constructor
    · rintro ⟨f, hf, hmem⟩
      exact wrench_of_mem hvalid h hf hmem hk
    · rintro ⟨j, hj, l, hl, htouches, hkey⟩
      obtain ⟨f, hf, hcount⟩ :=
        (wrenchBalanced_of_dynamics hvalid h hj hl htouches hkey).equivalence
      refine ⟨f, (List.mem_filter.1 (hf ▸ List.mem_singleton_self f)).1, ?_⟩
      exact List.count_pos_iff.1 (Nat.lt_of_lt_of_eq Nat.one_pos hcount.symm)
  · intro j hj l hl htouches
    obtain ⟨k, hk⟩ := exists_wrench_key h hj htouches
    exact ⟨k, hk, wrenchBalanced_of_dynamics hvalid h hj hl htouches hk⟩

/-- A closed loop, with a plane: the wrenches of all its joints. -/
theorem wrenches_balanced_fourBarLinkage :
    let r : Robot Float := .fourBarLinkage
    let b : Builder Float := ofSettings .default
    r.check = .ok () ∧ 3 ≤ maxIndex ∧ ∃ g, b.dynamicsFactors r 3 0 (some Vec3.unitX) = .ok g ∧
      ∀ j ∈ r.joints, ∀ l ∈ r.links, j.touches l.id = true →
        ∃ k, (Variable.wrench l.id j.id 3).key? = some k ∧
          WrenchBalanced g (some Vec3.unitX) j l k := by
  intro r b
  have hr : r.check = .ok () := rfl
  obtain ⟨hsucceeds, hbalanced⟩ := wrenches_balanced (b := b) hr 3 0 (some Vec3.unitX)
  obtain ⟨g, hg⟩ := hsucceeds (by decide)
  exact ⟨hr, by decide, g, hg, (hbalanced g hg).2⟩

end Builder

end Articulated
