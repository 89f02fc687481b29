import Articulated.Proofs.Spatial.Motion

/-!
# Motions of points

A rigid motion is seen through the points that it moves (`Pose.move`). Two poses are the same
motion if they move every point to the same place (`Pose.SameMotion`); their quaternions may then
still have opposite signs. In exact arithmetic the tangent coordinates between two rigid poses
vanish exactly if they are the same motion.

* `Pose.move_mul`, `Pose.move_inverse_move`: products move one after the other, and the motion
  back moves back.
* `Rotation.toVector_eq_zero_iff`, `Rotation.vector_eq_zero_of_apply`: a rotation without a
  rotation vector, and one that turns nothing.
* `Pose.localTo_eq_zero_iff`: poses without a difference.
* `Pose.sameMotion_mul_right_iff`: what stands right of a motion cancels.
-/

namespace Articulated

/-! ## 1. Rotations -/

namespace Rotation

variable {p q r : Rotation ℝ}

theorem apply_mul (hp : p.IsUnit) (hq : q.IsUnit) (x : Vec3 ℝ) :
    (p * q).apply x = p.apply (q.apply x) := by
  rw [apply_eq_matrix (hp.mul hq), apply_eq_matrix hp, apply_eq_matrix hq, matrix_mul,
    Mat3.apply_mul]

theorem apply_add (hr : r.IsUnit) (x y : Vec3 ℝ) : r.apply (x + y) = r.apply x + r.apply y := by
  rw [apply_eq_matrix hr, apply_eq_matrix hr, apply_eq_matrix hr, Mat3.apply_add]

theorem apply_zero (r : Rotation ℝ) : r.apply 0 = 0 := by
  simp only [apply, Vec3.cross, Vec3.add_def, Vec3.smul_def, Vec3.zero_def, Vec3.mk.injEq]
  refine ⟨?_, ?_, ?_⟩ <;> ring

theorem apply_of_vector_eq_zero (hr : r.IsUnit) (hzero : r.vector = 0) (x : Vec3 ℝ) :
    r.apply x = x := by
  rw [apply_eq_matrix hr, matrix_of_vector_eq_zero hr hzero, Mat3.identity_apply]

/-- A unit quaternion that turns nothing has no vector part: the trace of its matrix is three, so
its scalar part is one or minus one. -/
theorem vector_eq_zero_of_apply (hr : r.IsUnit) (h : ∀ x, r.apply x = x) : r.vector = 0 := by
  have hentry : ∀ x, r.matrix.apply x = x := fun x => (apply_eq_matrix hr x).symm.trans (h x)
  have hx := congrArg Vec3.x (hentry Vec3.unitX)
  have hy := congrArg Vec3.y (hentry Vec3.unitY)
  have hz := congrArg Vec3.z (hentry Vec3.unitZ)
  simp only [IsUnit, matrix, Mat3.apply, Vec3.normSq, Vec3.dot, Vec3.unitX, Vec3.unitY,
    Vec3.unitZ] at hr hx hy hz
  refine eq_zero_of_normSq (not_lt.2 ?_)
  simp only [Vec3.normSq, Vec3.dot]
  linarith

/-- **A rotation has no rotation vector exactly if it has no vector part.** -/
theorem toVector_eq_zero_iff : r.toVector = 0 ↔ r.vector = 0 := by
  constructor
  · exact vector_eq_zero_of_toVector
  · intro hzero
    simp only [toVector, hzero, Vec3.normSq, Vec3.dot, Vec3.neg_def]
    simp [Vec3.zero_def]

end Rotation

/-! ## 2. Poses -/

namespace Pose

/-- The point that the motion moves a point to. -/
noncomputable def move (a : Pose ℝ) (x : Vec3 ℝ) : Vec3 ℝ := a.translation + a.rotation.apply x

/-- The poses move every point to the same place. -/
def SameMotion (a b : Pose ℝ) : Prop := ∀ x, a.move x = b.move x

variable {a b c m : Pose ℝ}

theorem SameMotion.refl (a : Pose ℝ) : a.SameMotion a := fun _ => rfl

theorem SameMotion.symm (h : a.SameMotion b) : b.SameMotion a := fun x => (h x).symm

theorem SameMotion.trans (h : a.SameMotion b) (h' : b.SameMotion c) : a.SameMotion c :=
  fun x => (h x).trans (h' x)

/-- **First the right motion, then the left one.** -/
theorem move_mul (ha : a.IsRigid) (hb : b.IsRigid) (x : Vec3 ℝ) :
    (a * b).move x = a.move (b.move x) := by
  show a.translation + a.rotation.apply b.translation + (a.rotation * b.rotation).apply x =
    a.translation + a.rotation.apply (b.translation + b.rotation.apply x)
  rw [Rotation.apply_mul ha hb, Rotation.apply_add ha]
  exact Vec3.ext (add_assoc _ _ _) (add_assoc _ _ _) (add_assoc _ _ _)

/-- A motion that neither turns nor shifts moves nothing. -/
theorem move_of_still (ha : a.IsRigid) (hturn : a.rotation.vector = 0)
    (hshift : a.translation = 0) (x : Vec3 ℝ) : a.move x = x := by
  rw [move, Rotation.apply_of_vector_eq_zero ha hturn, hshift]
  exact Vec3.ext (zero_add _) (zero_add _) (zero_add _)

theorem still_of_move (ha : a.IsRigid) (h : ∀ x, a.move x = x) :
    a.rotation.vector = 0 ∧ a.translation = 0 := by
  have hshift : a.translation = 0 := by
    have hzero : a.translation + a.rotation.apply 0 = 0 := h 0
    rw [Rotation.apply_zero] at hzero
    exact (Vec3.ext (add_zero _) (add_zero _) (add_zero _)).symm.trans hzero
  refine ⟨Rotation.vector_eq_zero_of_apply ha fun x => ?_, hshift⟩
  have hmove : a.translation + a.rotation.apply x = x := h x
  rw [hshift] at hmove
  exact (Vec3.ext (zero_add _) (zero_add _) (zero_add _)).symm.trans hmove

theorem move_inverse_move (ha : a.IsRigid) (x : Vec3 ℝ) : a.inverse.move (a.move x) = x := by
  rw [← move_mul ha.inverse ha, inverse_mul ha]
  exact move_of_still isRigid_identity rfl rfl x

theorem move_move_inverse (ha : a.IsRigid) (x : Vec3 ℝ) : a.move (a.inverse.move x) = x := by
  rw [← move_mul ha ha.inverse, mul_inverse ha]
  exact move_of_still isRigid_identity rfl rfl x

/-- **The tangent coordinates between two rigid poses vanish exactly if they are the same
motion.** -/
theorem localTo_eq_zero_iff (ha : a.IsRigid) (hb : b.IsRigid) :
    a.localTo b = 0 ↔ a.SameMotion b := by
  have hrelative : ∀ x, (a.inverse * b).move x = a.inverse.move (b.move x) :=
    move_mul ha.inverse hb
  constructor
  · intro h x
    have hstill : (a.inverse * b).move x = x :=
      move_of_still (ha.inverse.mul hb)
        (Rotation.toVector_eq_zero_iff.1 (congrArg SpatialVector.angular h))
        (congrArg SpatialVector.linear h) x
    rw [← hstill, hrelative, move_move_inverse ha, ← hrelative, hstill]
  · intro h
    have hstill : ∀ x, (a.inverse * b).move x = x := by
      intro x
      rw [hrelative, ← h x, move_inverse_move ha]
    obtain ⟨hturn, hshift⟩ := still_of_move (ha.inverse.mul hb) hstill
    exact SpatialVector.ext (Rotation.toVector_eq_zero_iff.2 hturn) hshift

/-- What stands right of a motion cancels, since it moves points from everywhere. -/
theorem sameMotion_mul_right_iff (ha : a.IsRigid) (hb : b.IsRigid) (hm : m.IsRigid) :
    (a * m).SameMotion (b * m) ↔ a.SameMotion b := by
  constructor
  · intro h x
    have hback := h (m.inverse.move x)
    rwa [move_mul ha hm, move_mul hb hm, move_move_inverse hm] at hback
  · intro h x
    rw [move_mul ha hm, move_mul hb hm, h]

/-- A motion with a second one behind it, and that one back. -/
theorem sameMotion_mul_inverse_mul (ha : a.IsRigid) (hm : m.IsRigid) :
    a.SameMotion (a * m.inverse * m) := by
  intro x
  rw [move_mul (ha.mul hm.inverse) hm, move_mul ha hm.inverse, move_inverse_move hm]

end Pose

end Articulated
