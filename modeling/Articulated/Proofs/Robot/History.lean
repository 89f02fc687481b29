import Articulated.Proofs.Assembly.Quantities
import Articulated.Robot.Model

/-!
# Robots with a history

A robot starts without parts, or with parts that were checked, and is changed step by step after
that. Changes are not checked as a whole: each of them keeps the robot connected on its own, and
gives a new part the id after the largest one in use. Nothing compares that id with the largest
one that fits the keys, and so the check of a robot with a history can fail for this one reason.

* `Robot.Change`, `Robot.change`, `Robot.run`: changes, one of them, and a history of them.
* `Robot.Connected`: the part of `Robot.Valid` that does not mention the size of ids.
* `Robot.change_keeps`, `Robot.run_keeps`: what a change and a history keep, and which ids they add.
* `Robot.run_check_iff`: a robot with a history is well-formed exactly if all ids that were given
  out on the way fit.
-/

namespace Articulated

/-! ## 1. Changes -/

/-- A change of a robot. Parts that it has are referred to by name. -/
inductive Robot.Change (α : Type) where
  | addLink (name : String) (mass : α) (inertia : Mat3 α) (rest : Pose α)
  | addJoint (name : String) (type : JointType) (parent child : String) (rest : Pose α)
      (axis : Vec3 α)
  | setLimits (name : String) (limits : JointLimits α)
  | fixLink (name : String)
  | freeLink (name : String)

namespace Robot

section Changes

variable {α : Type} [Scalar α]

/-- The robot after a change, with the id that the change gives out. -/
def change (r : Robot α) : Change α → Except (Fault α) (Robot α × Option Nat)
  | .addLink name mass inertia rest =>
    let (r', id) := r.addLink name mass inertia rest
    return (r', some id)
  | .addJoint name type parent child rest axis => do
    let (r', id) ← r.addJoint name type parent child rest axis
    return (r', some id)
  | .setLimits name limits => do return (← r.setLimits name limits, none)
  | .fixLink name => do return (← r.setFixed name true, none)
  | .freeLink name => do return (← r.setFixed name false, none)

/-- The robot after a history of changes, with the ids given out on the way. A change that fails
leaves the robot as it was. -/
def run (r : Robot α) : List (Change α) → Robot α × List Nat
  | [] => (r, [])
  | c :: cs =>
    match r.change c with
    | .ok (r', id) => ((r'.run cs).1, id.toList ++ (r'.run cs).2)
    | .error _ => r.run cs

end Changes

/-! ## 2. What changes keep -/

section Parts

variable {α : Type}

/-- Ids are unique, and joints connect two different links. -/
structure Connected (r : Robot α) : Prop where
  links_nodup : (r.links.map (·.id)).Nodup
  joints_nodup : (r.joints.map (·.id)).Nodup
  ends_ne : ∀ j ∈ r.joints, j.parent ≠ j.child
  parent_mem : ∀ j ∈ r.joints, j.parent ∈ r.links.map (·.id)
  child_mem : ∀ j ∈ r.joints, j.child ∈ r.links.map (·.id)

/-- All ids of links and joints have a property. -/
def AllIds (r : Robot α) (p : Nat → Prop) : Prop :=
  (∀ l ∈ r.links, p l.id) ∧ ∀ j ∈ r.joints, p j.id

theorem valid_iff {r : Robot α} : r.Valid ↔ r.Connected ∧ r.AllIds (· ≤ maxId) :=
  ⟨fun h => ⟨⟨h.links_nodup, h.joints_nodup, h.ends_ne, h.parent_mem, h.child_mem⟩,
      h.link_le, h.joint_le⟩,
    fun ⟨h, hl, hj⟩ => ⟨hl, h.links_nodup, hj, h.joints_nodup, h.ends_ne, h.parent_mem,
      h.child_mem⟩⟩

/-- The robot stays connected, and has the given ids in addition to those that it had. -/
structure Keeps (r r' : Robot α) (given : List Nat) : Prop where
  connected : r.Connected → r'.Connected
  allIds_iff : ∀ p : Nat → Prop, r'.AllIds p ↔ r.AllIds p ∧ ∀ id ∈ given, p id

theorem Keeps.refl (r : Robot α) : Keeps r r [] :=
  ⟨id, fun _ => ⟨fun h => ⟨h, nofun⟩, And.left⟩⟩

theorem Keeps.trans {r r' r'' : Robot α} {given given' : List Nat} (h : Keeps r r' given)
    (h' : Keeps r' r'' given') : Keeps r r'' (given ++ given') := by
  refine ⟨h'.connected ∘ h.connected, fun p => ?_⟩
  rw [h'.allIds_iff, h.allIds_iff, and_assoc, List.forall_mem_append]

/-- A new id is larger than all ids in use. -/
theorem lt_nextId {ids : List Nat} {i : Nat} (hi : i ∈ ids) : i < nextId ids := by
  have hfold : ∀ (ids : List Nat) (m : Nat), m ≤ ids.foldl (fun m id => max m (id + 1)) m ∧
      ∀ i ∈ ids, i < ids.foldl (fun m id => max m (id + 1)) m := by
    intro ids
    induction ids with
    | nil => exact fun m => ⟨Nat.le_refl m, nofun⟩
    | cons a ids ih =>
      intro m
      obtain ⟨hle, hlt⟩ := ih (max m (a + 1))
      rw [List.foldl_cons]
      refine ⟨by omega, List.forall_mem_cons.2 ⟨by omega, hlt⟩⟩
  exact (hfold ids 0).2 i hi

theorem nextId_notMem (ids : List Nat) : nextId ids ∉ ids := fun h => Nat.lt_irrefl _ (lt_nextId h)

/-- What a change of the first part found does not touch is what it was for all parts. -/
theorem map_modifyFirst {β γ : Type} {test : β → Bool} {change : β → β} {f : β → γ}
    (h : ∀ x, f (change x) = f x) : ∀ l : List β, (modifyFirst test change l).map f = l.map f
  | [] => rfl
  | x :: l => by
    unfold modifyFirst
    split
    · rw [List.map_cons, List.map_cons, h]
    · rw [List.map_cons, List.map_cons, map_modifyFirst h l]

/-- The id and the ends of a joint. -/
def ends (j : Joint α) : Nat × Nat × Nat := (j.id, j.parent, j.child)

/-- A change that leaves the ids of links, and the ids and ends of joints, keeps everything. -/
theorem Keeps.of_eq {r r' : Robot α} (hlinks : r'.links.map (·.id) = r.links.map (·.id))
    (hjoints : r'.joints.map ends = r.joints.map ends) : Keeps r r' [] := by
  have hids : r'.joints.map (·.id) = r.joints.map (·.id) := by
    have := congrArg (List.map Prod.fst) hjoints
    rwa [List.map_map, List.map_map] at this
  have hmem : ∀ j ∈ r'.joints, ∃ i ∈ r.joints, i.parent = j.parent ∧ i.child = j.child := by
    intro j hj
    obtain ⟨i, hi, heq⟩ := List.mem_map.1 (hjoints ▸ List.mem_map_of_mem hj)
    obtain ⟨-, heq⟩ := Prod.mk.inj heq
    exact ⟨i, hi, Prod.mk.inj heq⟩
  refine ⟨fun h => ⟨hlinks ▸ h.links_nodup, hids ▸ h.joints_nodup, fun j hj => ?_, fun j hj => ?_,
    fun j hj => ?_⟩, fun p => ?_⟩
  · obtain ⟨i, hi, hparent, hchild⟩ := hmem j hj
    exact hparent ▸ hchild ▸ h.ends_ne i hi
  · obtain ⟨i, hi, hparent, -⟩ := hmem j hj
    exact hlinks ▸ hparent ▸ h.parent_mem i hi
  · obtain ⟨i, hi, -, hchild⟩ := hmem j hj
    exact hlinks ▸ hchild ▸ h.child_mem i hi
  · have hall : ∀ s : Robot α, s.AllIds p ↔
        (∀ i ∈ s.links.map (·.id), p i) ∧ ∀ i ∈ s.joints.map (·.id), p i := fun s => by
      rw [List.forall_mem_map, List.forall_mem_map, AllIds]
    rw [hall, hall, hlinks, hids]
    exact ⟨fun h => ⟨h, nofun⟩, And.left⟩

/-- A link with a new id. -/
theorem keeps_newLink {r : Robot α} {l : Link α} (hid : l.id ∉ r.links.map (·.id)) :
    Keeps r { r with links := r.links ++ [l] } [l.id] := by
  have hmap : (r.links ++ [l]).map (·.id) = r.links.map (·.id) ++ [l.id] := List.map_append
  refine ⟨fun h => ⟨?_, h.joints_nodup, h.ends_ne, fun j hj => ?_, fun j hj => ?_⟩, fun p => ?_⟩
  · show ((r.links ++ [l]).map (·.id)).Nodup
    rw [hmap, (List.perm_append_singleton _ _).nodup_iff]
    exact List.nodup_cons.2 ⟨hid, h.links_nodup⟩
  · exact hmap ▸ List.mem_append_left _ (h.parent_mem j hj)
  · exact hmap ▸ List.mem_append_left _ (h.child_mem j hj)
  · unfold AllIds
    rw [List.forall_mem_append, List.forall_mem_singleton, List.forall_mem_singleton]
    exact and_right_comm

/-- A joint with a new id between two different links of the robot. -/
theorem keeps_newJoint {r : Robot α} {j : Joint α} (hid : j.id ∉ r.joints.map (·.id))
    (hne : j.parent ≠ j.child) (hparent : j.parent ∈ r.links.map (·.id))
    (hchild : j.child ∈ r.links.map (·.id)) :
    Keeps r { r with joints := r.joints ++ [j] } [j.id] := by
  have hadd : ∀ {q : Joint α → Prop}, (∀ i ∈ r.joints, q i) → q j → ∀ i ∈ r.joints ++ [j], q i :=
    fun hr hj => List.forall_mem_append.2 ⟨hr, List.forall_mem_singleton.2 hj⟩
  refine ⟨fun h => ⟨h.links_nodup, ?_, hadd h.ends_ne hne, hadd h.parent_mem hparent,
    hadd h.child_mem hchild⟩, fun p => ?_⟩
  · show ((r.joints ++ [j]).map (·.id)).Nodup
    rw [List.map_append, List.map_singleton, (List.perm_append_singleton _ _).nodup_iff]
    exact List.nodup_cons.2 ⟨hid, h.joints_nodup⟩
  · unfold AllIds
    rw [List.forall_mem_append, List.forall_mem_singleton, List.forall_mem_singleton]
    exact and_assoc.symm

end Parts

/-! ## 3. Steps and histories -/

section Runs

variable {α : Type}

theorem linkNamed_mem {r : Robot α} {name : String} {l : Link α} (h : r.linkNamed name = .ok l) :
    l.id ∈ r.links.map (·.id) := by
  unfold linkNamed at h
  split at h
  · rename_i l' hfind
    exact Except.ok.inj h ▸ List.mem_map_of_mem (List.mem_of_find?_eq_some hfind)
  · cases h

theorem setFixed_keeps {r r' : Robot α} {name : String} {fixed : Bool}
    (h : r.setFixed name fixed = .ok r') : Keeps r r' [] := by
  obtain ⟨-, h⟩ := seq_eq_ok.1 h
  obtain rfl := pure_eq_ok.1 h
  exact .of_eq (map_modifyFirst (by intro l; rfl) r.links) rfl

theorem setLimits_keeps {r r' : Robot α} {name : String} {limits : JointLimits α}
    (h : r.setLimits name limits = .ok r') : Keeps r r' [] := by
  obtain ⟨-, h⟩ := seq_eq_ok.1 h
  obtain rfl := pure_eq_ok.1 h
  exact .of_eq rfl (map_modifyFirst (by intro j; rfl) r.joints)

variable [Scalar α]

theorem addJoint_keeps {r r' : Robot α} {name parent child : String} {type : JointType}
    {rest : Pose α} {axis : Vec3 α} {id : Nat}
    (h : r.addJoint name type parent child rest axis = .ok (r', id)) : Keeps r r' [id] := by
  obtain ⟨p, hp, h⟩ := bind_eq_ok.1 h
  obtain ⟨c, hc, h⟩ := bind_eq_ok.1 h
  by_cases hne : p.id = c.id
  · rw [if_pos hne] at h
    cases h
  · rw [if_neg hne] at h
    obtain ⟨rfl, rfl⟩ := Prod.mk.inj (Except.ok.inj h)
    exact keeps_newJoint (nextId_notMem _) hne (linkNamed_mem hp) (linkNamed_mem hc)

/-- **Every change keeps the robot connected, and adds the id that it gives out.** -/
theorem change_keeps {r r' : Robot α} {c : Change α} {id : Option Nat}
    (h : r.change c = .ok (r', id)) : Keeps r r' id.toList := by
  cases c with
  | addLink name mass inertia rest =>
    obtain ⟨rfl, rfl⟩ := Prod.mk.inj (Except.ok.inj h)
    exact keeps_newLink (nextId_notMem _)
  | addJoint name type parent child rest axis =>
    obtain ⟨⟨s, i⟩, hs, heq⟩ := map_eq_ok.1 h
    obtain ⟨rfl, rfl⟩ := Prod.mk.inj heq
    exact addJoint_keeps hs
  | setLimits name limits =>
    obtain ⟨s, hs, heq⟩ := map_eq_ok.1 h
    obtain ⟨rfl, rfl⟩ := Prod.mk.inj heq
    exact setLimits_keeps hs
  | fixLink name | freeLink name =>
    obtain ⟨s, hs, heq⟩ := map_eq_ok.1 h
    obtain ⟨rfl, rfl⟩ := Prod.mk.inj heq
    exact setFixed_keeps hs

/-- So does every history. -/
theorem run_keeps : ∀ (history : List (Change α)) (r : Robot α),
    Keeps r (r.run history).1 (r.run history).2
  | [], r => .refl r
  | c :: cs, r => by
    unfold run
    split
    · rename_i r' id h
      exact (change_keeps h).trans (run_keeps cs r')
    · exact run_keeps cs r

/-- The quantities of a connected robot have keys at every time that fits, exactly if its ids
fit. -/
theorem keys_exist_iff {r : Robot α} (h : r.Connected) :
    (∀ t ≤ maxIndex, ∀ e ∈ r.restEntries t, ∃ k, e.1.key? = some k) ↔ r.AllIds (· ≤ maxId) := by
  constructor
  · intro hkeys
    have hkey := hkeys 0 (Nat.zero_le _)
    constructor
    · intro l hl
      have hmem : (Variable.pose l.id 0, Value.pose l.rest) ∈ r.restEntries 0 :=
        List.mem_append_left _ (List.mem_flatMap.2 ⟨l, hl, List.mem_cons_self⟩)
      exact (Variable.exists_key_iff.1 (hkey _ hmem)).1
    · intro j hj
      have hmem : (Variable.torque j.id 0, Value.scalar 0) ∈ r.restEntries 0 := by
        refine List.mem_append_right _ (List.mem_flatMap.2 ⟨j, hj, ?_⟩)
        simp [jointEntries]
      exact (Variable.exists_key_iff.1 (hkey _ hmem)).2.1
  · intro hids t ht e he
    have hr : r.Valid := valid_iff.2 ⟨h, hids⟩
    have hhas : r.Has t e.1 :=
      ((hr.restEntries_enumerates t).mem_iff e.1).1 (List.mem_map_of_mem he)
    exact Variable.exists_key_iff.2 (hr.fits ht hhas)

/-- **A robot with a history.** It starts without parts or with parts that were accepted, and is
connected after any changes. It is then well-formed exactly if the ids given out by the changes fit,
and exactly if its quantities have keys at all times that fit. -/
theorem run_check_iff {start : Robot α}
    (hstart : start = .empty ∨ ∃ links joints, ofParts links joints = .ok start)
    (history : List (Change α)) :
    (start.run history).1.Connected ∧
      ((start.run history).1.check = .ok () ↔ ∀ id ∈ (start.run history).2, id ≤ maxId) ∧
      ((start.run history).1.check = .ok () ↔ ∀ t ≤ maxIndex,
        ∀ e ∈ (start.run history).1.restEntries t, ∃ k, e.1.key? = some k) := by
  have hvalid : start.Valid := by
    rcases hstart with rfl | ⟨links, joints, h⟩
    · exact check_eq_ok_iff.1 rfl
    · obtain ⟨hcheck, h⟩ := seq_eq_ok.1 h
      obtain rfl := pure_eq_ok.1 h
      exact check_eq_ok_iff.1 hcheck
  obtain ⟨hconnected, hids⟩ := valid_iff.1 hvalid
  have hkeeps := run_keeps history start
  have hafter := hkeeps.connected hconnected
  have hcheck : (start.run history).1.check = .ok () ↔
      (start.run history).1.AllIds (· ≤ maxId) := by
    rw [check_eq_ok_iff, valid_iff]
    exact and_iff_right hafter
  refine ⟨hafter, ?_, ?_⟩
  · rw [hcheck, hkeeps.allIds_iff]
    exact and_iff_right hids
  · rw [hcheck, keys_exist_iff hafter]

end Runs

/-- An arm that gets a third link on a slide. The other two changes fail. -/
def extendedArm : List (Change Float) :=
  [.addLink "l3" 1 .identity (placed 0 0 3), .addJoint "loop" .revolute "l3" "l3" .identity .unitX,
    .addJoint "slide" .prismatic "l2" "l3" (placed 0 0 3) .unitX, .fixLink "l4"]

theorem run_check_iff_extendedArm :
    ofParts (twoLinkArm (α := Float)).links twoLinkArm.joints = .ok twoLinkArm ∧
      (twoLinkArm.run extendedArm).2 = [2, 1] ∧ (twoLinkArm.run extendedArm).1.check = .ok () := by
  have hstart : ofParts (twoLinkArm (α := Float)).links twoLinkArm.joints = .ok twoLinkArm := rfl
  have hids : (twoLinkArm.run extendedArm).2 = [2, 1] := rfl
  refine ⟨hstart, hids, (run_check_iff (.inr ⟨_, _, hstart⟩) extendedArm).2.1.2 ?_⟩
  rw [hids]
  decide

/-- **After the largest id that fits comes one that does not.** A robot with one accepted link gets
a second one. The robot is then not well-formed, and the pose of the new link has no key. -/
theorem addLink_after_largest :
    ∃ r : Robot Float, ofParts [unitLink maxId "last" .identity false] [] = .ok r ∧
      (r.run [.addLink "next" 1 .identity .identity]).1.check =
        .error (.robot (.linkIdTooLarge 65536)) ∧
      (Variable.pose 65536 0).key? = none :=
  ⟨⟨[unitLink maxId "last" .identity false], []⟩, rfl, rfl, rfl⟩

end Robot

end Articulated
