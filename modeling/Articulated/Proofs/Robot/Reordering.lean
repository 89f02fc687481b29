import Articulated.Proofs.Assembly.Quantities
import Articulated.Proofs.Reordering
import Mathlib.Data.List.Nodup

/-!
# Robots whose parts stand in another order

The parts of a valid robot have distinct ids. So what is found by an id, or in ascending order of
the ids, does not depend on the order of the lists of parts. What is collected by going through
these lists is reordered.

* `Robot.Reordered`: the same links and joints in some order.
* `Robot.Reordered.valid`: the check does not depend on the order.
* `Robot.Reordered.link?_eq`, `sortedJoints_eq`, `frames_eq`, `restValue_eq`, `has_iff`: what is
  the same.
* `Robot.Reordered.jointsAt_perm`, `fixedLinks_perm`, `movingLinks_perm`: what is reordered.
-/

namespace Articulated.Robot

variable {α : Type} {r r' : Robot α}

/-- The robots have the same links and the same joints, in some order. -/
structure Reordered (r r' : Robot α) : Prop where
  links : r.links.Perm r'.links
  joints : r.joints.Perm r'.joints

namespace Reordered

theorem valid (h : Reordered r r') (hr : r.Valid) : r'.Valid where
  link_le l hl := hr.link_le l (h.links.mem_iff.2 hl)
  links_nodup := (h.links.map _).nodup_iff.1 hr.links_nodup
  joint_le j hj := hr.joint_le j (h.joints.mem_iff.2 hj)
  joints_nodup := (h.joints.map _).nodup_iff.1 hr.joints_nodup
  ends_ne j hj := hr.ends_ne j (h.joints.mem_iff.2 hj)
  parent_mem j hj := (h.links.map _).mem_iff.1 (hr.parent_mem j (h.joints.mem_iff.2 hj))
  child_mem j hj := (h.links.map _).mem_iff.1 (hr.child_mem j (h.joints.mem_iff.2 hj))

theorem jointsAt_perm (h : Reordered r r') (link : Nat) :
    (r.jointsAt link).Perm (r'.jointsAt link) := h.joints.filter _

theorem fixedLinks_perm (h : Reordered r r') : r.fixedLinks.Perm r'.fixedLinks := h.links.filter _

theorem movingLinks_perm (h : Reordered r r') : r.movingLinks.Perm r'.movingLinks :=
  h.links.filter _

/-- The robots have the same quantities. -/
theorem has_iff (h : Reordered r r') (t : Nat) (v : Variable) : r.Has t v ↔ r'.Has t v := by
  have hlink : ∀ i, i ∈ r.links.map (·.id) ↔ i ∈ r'.links.map (·.id) := fun i =>
    (h.links.map _).mem_iff
  have hjoint : ∀ i, i ∈ r.joints.map (·.id) ↔ i ∈ r'.joints.map (·.id) := fun i =>
    (h.joints.map _).mem_iff
  cases v with
  | pose link s | twist link s | twistAccel link s => exact and_congr_left' (hlink link)
  | wrench link joint s =>
    exact and_congr_left' (exists_congr fun j => and_congr_left' h.joints.mem_iff)
  | torque joint s | jointAngle joint s | jointVel joint s | jointAccel joint s =>
    exact and_congr_left' (hjoint joint)
  | phaseDuration p => exact Iff.rfl

section Valid

variable (h : Reordered r r') (hr : r.Valid)

include h hr

/-- The link with an id is the same. -/
theorem link?_eq (i : Nat) : r.link? i = r'.link? i := by
  unfold link?
  cases hfind : r.links.find? (·.id == i) with
  | some l =>
    have hid : l.id = i := by simpa using List.find?_some hfind
    have hl : l ∈ r'.links := h.links.mem_iff.1 (List.mem_of_find?_eq_some hfind)
    subst hid
    exact (find?_id (h.valid hr).links_nodup l hl).symm
  | none =>
    have hnone : ∀ l ∈ r'.links, ¬ (l.id == i) = true := fun l hl =>
      List.find?_eq_none.1 hfind l (h.links.mem_iff.2 hl)
    exact (List.find?_eq_none.2 hnone).symm

theorem frames_eq [Scalar α] (j : Joint α) : r.frames j = r'.frames j := by
  unfold frames
  rw [h.link?_eq hr, h.link?_eq hr]

theorem restValue_eq [Scalar α] (v : Variable) : r.restValue v = r'.restValue v := by
  cases v with
  | pose link s => rw [restValue, restValue, h.link?_eq hr]
  | _ => rfl

/-- The joints in ascending order of their ids are the same. -/
theorem sortedJoints_eq : r.sortedJoints = r'.sortedJoints := by
  refine mergeSort_eq_of_perm (fun i j k hij hjk => ?_) (fun i j => ?_)
    (fun i j hi hj hij hji => ?_) h.joints
  · exact decide_eq_true (Nat.le_trans (of_decide_eq_true hij) (of_decide_eq_true hjk))
  · rw [Bool.or_eq_true, decide_eq_true_iff, decide_eq_true_iff]
    exact Nat.le_total i.id j.id
  · have hid : i.id = j.id := Nat.le_antisymm (of_decide_eq_true hij) (of_decide_eq_true hji)
    exact List.inj_on_of_nodup_map hr.joints_nodup hi hj hid

end Valid

end Reordered

end Articulated.Robot
