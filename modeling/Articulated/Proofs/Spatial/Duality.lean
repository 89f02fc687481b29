import Articulated.Proofs.Number.Exact
import Articulated.Spatial.Screw
import Mathlib.Tactic.LinearCombination

/-!
# Power of twists and wrenches

The inner product of a twist and a wrench is power. In exact arithmetic it is linear, a matrix
passes to the other side as its transpose, and the bracket of a twist with itself vanishes, so
that the velocity term in the balance of a body does no work.

* `SpatialVector.dot_transpose_apply`: the transpose is the dual map.
* `SpatialVector.dot_bracket_transpose`: the velocity term does no work.
* `reaction_power`: action and reaction do no work on twists that are carried over.
* `joint_power`: through a joint, the powers of action and reaction add up to the power of the
  actuation.
-/

namespace Articulated

/-! ## 1. Operations by coordinates -/

section Coordinates

variable {α : Type} [Scalar α]

theorem Vec3.zero_def : (0 : Vec3 α) = ⟨0, 0, 0⟩ := rfl

theorem Vec3.add_def (a b : Vec3 α) : a + b = ⟨a.x + b.x, a.y + b.y, a.z + b.z⟩ := rfl

theorem Vec3.sub_def (a b : Vec3 α) : a - b = ⟨a.x - b.x, a.y - b.y, a.z - b.z⟩ := rfl

theorem Vec3.neg_def (a : Vec3 α) : -a = ⟨-a.x, -a.y, -a.z⟩ := rfl

theorem Vec3.smul_def (c : α) (a : Vec3 α) : c • a = ⟨c * a.x, c * a.y, c * a.z⟩ := rfl

theorem Mat3.smul_def (c : α) (m : Mat3 α) : c • m = ⟨c • m.row1, c • m.row2, c • m.row3⟩ := rfl

theorem Mat3.zero_def : (0 : Mat3 α) = ⟨0, 0, 0⟩ := rfl

theorem SpatialVector.zero_def : (0 : SpatialVector α) = ⟨0, 0⟩ := rfl

theorem SpatialVector.add_def (a b : SpatialVector α) :
    a + b = ⟨a.angular + b.angular, a.linear + b.linear⟩ := rfl

theorem SpatialVector.sub_def (a b : SpatialVector α) :
    a - b = ⟨a.angular - b.angular, a.linear - b.linear⟩ := rfl

theorem SpatialVector.smul_def (c : α) (a : SpatialVector α) :
    c • a = ⟨c • a.angular, c • a.linear⟩ := rfl

end Coordinates

namespace SpatialVector

/-! ## 2. The inner product -/

section Dot

variable (a b v w : SpatialVector ℝ) (m : SpatialMatrix ℝ) (c : ℝ)

theorem dot_comm : a.dot b = b.dot a := by
  simp only [SpatialVector.dot, Vec3.dot]
  ring

theorem dot_zero : v.dot 0 = 0 := by
  simp only [SpatialVector.dot, Vec3.dot, SpatialVector.zero_def, Vec3.zero_def]
  ring

theorem dot_add : v.dot (a + b) = v.dot a + v.dot b := by
  simp only [SpatialVector.dot, Vec3.dot, SpatialVector.add_def, Vec3.add_def]
  ring

theorem dot_sub : v.dot (a - b) = v.dot a - v.dot b := by
  simp only [SpatialVector.dot, Vec3.dot, SpatialVector.sub_def, Vec3.sub_def]
  ring

theorem dot_smul : v.dot (c • a) = c * v.dot a := by
  simp only [SpatialVector.dot, Vec3.dot, SpatialVector.smul_def, Vec3.smul_def]
  ring

/-- The power of a vector with a sum. -/
theorem dot_sum : ∀ l : List (SpatialVector ℝ), v.dot l.sum = (l.map v.dot).sum
  | [] => dot_zero v
  | w :: l => by
    rw [List.sum_cons, dot_add, dot_sum l, List.map_cons, List.sum_cons]

/-- Vectors that have the same power with everything are equal. -/
theorem eq_of_dot_eq {a b : SpatialVector ℝ} (h : ∀ v : SpatialVector ℝ, v.dot a = v.dot b) :
    a = b := by
  simp only [SpatialVector.dot, Vec3.dot] at h
  refine SpatialVector.ext (Vec3.ext ?_ ?_ ?_) (Vec3.ext ?_ ?_ ?_)
  · simpa [Vec3.unitX, Vec3.zero_def] using h ⟨Vec3.unitX, 0⟩
  · simpa [Vec3.unitY, Vec3.zero_def] using h ⟨Vec3.unitY, 0⟩
  · simpa [Vec3.unitZ, Vec3.zero_def] using h ⟨Vec3.unitZ, 0⟩
  · simpa [Vec3.unitX, Vec3.zero_def] using h ⟨0, Vec3.unitX⟩
  · simpa [Vec3.unitY, Vec3.zero_def] using h ⟨0, Vec3.unitY⟩
  · simpa [Vec3.unitZ, Vec3.zero_def] using h ⟨0, Vec3.unitZ⟩

/-- **The transpose is the dual map.** -/
theorem dot_transpose_apply : v.dot (m.transpose.apply w) = (m.apply v).dot w := by
  simp only [SpatialMatrix.transpose, SpatialMatrix.apply, Mat3.transpose, Mat3.apply,
    SpatialVector.dot, Vec3.dot, Vec3.add_def]
  ring

theorem bracket_apply_self : v.bracket.apply v = 0 := by
  simp only [SpatialVector.bracket, SpatialMatrix.apply, Mat3.skew, Mat3.apply, Vec3.dot,
    Vec3.add_def, Vec3.zero_def, Mat3.zero_def, SpatialVector.zero_def, SpatialVector.mk.injEq,
    Vec3.mk.injEq]
  refine ⟨⟨?_, ?_, ?_⟩, ?_, ?_, ?_⟩ <;> ring

/-- The velocity term in the balance of a body does no work. -/
theorem dot_bracket_transpose : v.dot (v.bracket.transpose.apply w) = 0 := by
  rw [dot_transpose_apply, bracket_apply_self, dot_comm, dot_zero]

end Dot

/-! ## 3. Residuals that vanish -/

section Vanishing

theorem eq_of_sub_eq_zero {a b : SpatialVector ℝ} (h : a - b = 0) : a = b := by
  simp only [SpatialVector.sub_def, SpatialVector.zero_def, Vec3.sub_def, Vec3.zero_def,
    SpatialVector.mk.injEq, Vec3.mk.injEq] at h
  obtain ⟨⟨h₁, h₂, h₃⟩, h₄, h₅, h₆⟩ := h
  refine SpatialVector.ext (Vec3.ext ?_ ?_ ?_) (Vec3.ext ?_ ?_ ?_)
  · exact sub_eq_zero.1 h₁
  · exact sub_eq_zero.1 h₂
  · exact sub_eq_zero.1 h₃
  · exact sub_eq_zero.1 h₄
  · exact sub_eq_zero.1 h₅
  · exact sub_eq_zero.1 h₆

/-- A spatial vector is zero if its rows are. -/
theorem toList_eq_zero_iff {a : SpatialVector ℝ} : (∀ x ∈ a.toList, x = 0) ↔ a = 0 := by
  constructor
  · intro h
    refine SpatialVector.ext (Vec3.ext ?_ ?_ ?_) (Vec3.ext ?_ ?_ ?_) <;>
      exact h _ (by simp [SpatialVector.toList])
  · intro ha x hx
    rw [ha] at hx
    simpa [SpatialVector.toList, SpatialVector.zero_def, Vec3.zero_def] using hx

theorem sub_self (a : SpatialVector ℝ) : a - a = 0 := by
  refine toList_eq_zero_iff.1 ?_
  simp [SpatialVector.toList, SpatialVector.sub_def, Vec3.sub_def]

theorem sub_eq_zero_iff {a b : SpatialVector ℝ} : a - b = 0 ↔ a = b :=
  ⟨eq_of_sub_eq_zero, fun h => h ▸ sub_self a⟩

theorem add_assoc (a b c : SpatialVector ℝ) : a + b + c = a + (b + c) := by
  refine eq_of_dot_eq fun v => ?_
  simp only [dot_add]
  ring

theorem add_right_cancel {a b c : SpatialVector ℝ} (h : a + c = b + c) : a = b := by
  refine eq_of_dot_eq fun v => ?_
  have hdot := congrArg v.dot h
  rw [dot_add, dot_add] at hdot
  linarith

theorem sub_add_cancel (a b : SpatialVector ℝ) : a - b + b = a := by
  refine eq_of_dot_eq fun v => ?_
  rw [dot_add, dot_sub]
  ring

theorem add_zero_sub (a : SpatialVector ℝ) : a + (0 - a) = 0 := by
  refine toList_eq_zero_iff.1 ?_
  simp [SpatialVector.toList, SpatialVector.add_def, SpatialVector.sub_def,
    SpatialVector.zero_def, Vec3.add_def, Vec3.sub_def, Vec3.zero_def]

theorem zero_sub_add (a : SpatialVector ℝ) : 0 - a + a = 0 := by
  refine toList_eq_zero_iff.1 ?_
  simp [SpatialVector.toList, SpatialVector.add_def, SpatialVector.sub_def,
    SpatialVector.zero_def, Vec3.add_def, Vec3.sub_def, Vec3.zero_def]

end Vanishing

/-! ## 4. Zero -/

section Zero

variable (a : SpatialVector ℝ)

theorem add_zero : a + 0 = a := by
  refine eq_of_dot_eq fun v => ?_
  rw [dot_add, dot_zero]
  ring

theorem sub_zero : a - 0 = a := by
  refine eq_of_dot_eq fun v => ?_
  rw [dot_sub, dot_zero]
  ring

theorem zero_smul : (0 : ℝ) • a = 0 := by
  refine eq_of_dot_eq fun v => ?_
  rw [dot_smul, dot_zero]
  ring

end Zero

end SpatialVector

theorem SpatialMatrix.apply_zero (m : SpatialMatrix ℝ) : m.apply 0 = 0 := by
  refine SpatialVector.eq_of_dot_eq fun v => ?_
  -- A matrix is the transpose of its transpose.
  have hdual := SpatialVector.dot_transpose_apply v 0 m.transpose
  exact hdual.trans (by rw [SpatialVector.dot_zero, SpatialVector.dot_zero])

open SpatialVector

/-! ## 5. Joints -/

/-- **Virtual power.** Action and reaction do no work on twists that are carried over from one link
to the other. -/
theorem reaction_power {adjoint : SpatialMatrix ℝ} {parentWrench childWrench : SpatialVector ℝ}
    (hwrench : parentWrench + adjoint.transpose.apply childWrench = 0) (v : SpatialVector ℝ) :
    v.dot parentWrench + (adjoint.apply v).dot childWrench = 0 := by
  rw [← dot_transpose_apply, ← dot_add, hwrench, dot_zero]

/-- **Power through a joint.** If the child twist is the parent twist carried over plus the
motion of the joint, and the wrenches on both links are action and reaction, the powers on both
links add up to that of the actuation. -/
theorem joint_power {adjoint : SpatialMatrix ℝ} {parentTwist childTwist screw parentWrench
    childWrench : SpatialVector ℝ} {rate torque : ℝ}
    (htwist : adjoint.apply parentTwist + rate • screw = childTwist)
    (hwrench : parentWrench + adjoint.transpose.apply childWrench = 0)
    (htorque : screw.dot childWrench = torque) :
    parentTwist.dot parentWrench + childTwist.dot childWrench = torque * rate := by
  have hreaction := reaction_power hwrench parentTwist
  have hchild : childTwist.dot childWrench =
      (adjoint.apply parentTwist).dot childWrench + rate * torque := by
    rw [← htwist, dot_comm, dot_add, dot_smul, dot_comm childWrench, dot_comm childWrench, htorque]
  linear_combination hreaction + hchild

end Articulated
