import Articulated.Proofs.Spatial.Duality
import Articulated.Spatial.Screw

/-!
# Rigid motions

A pose with a unit quaternion is a rigid motion. In exact arithmetic the adjoint map of a product
of rigid motions is the product of the adjoint maps, so that twists can be carried from frame to
frame along any path.

* `Rotation.apply_eq_matrix`, `Rotation.matrix_mul`, `Rotation.matrix_cross`: the matrix of a unit
  quaternion turns vectors in the same way, products become products, and it keeps the vector
  product.
* `Pose.adjoint_mul_apply`, `Pose.adjoint_apply_inverse`, `Pose.adjoint_inverse_apply`: the adjoint
  map of a product and of the motion back.
* `Pose.adjoint_apply_of_localTo`: poses without a difference carry twists in the same way, also if
  their quaternions have opposite signs.
* `JointFrames.isRigid_childInParent`: the frames of a joint with a unit axis move rigidly.
-/

namespace Articulated

/-! ## 1. Matrices -/

section Matrices

variable (a b : Vec3 ℝ) (m n : Mat3 ℝ)

theorem Mat3.apply_mul : (m * n).apply a = m.apply (n.apply a) := by
  show (Mat3.mul m n).apply a = _
  simp only [Mat3.mul, Mat3.transpose, Mat3.apply, Vec3.dot, Vec3.mk.injEq]
  refine ⟨?_, ?_, ?_⟩ <;> ring

theorem Mat3.apply_add : m.apply (a + b) = m.apply a + m.apply b := by
  simp only [Mat3.apply, Vec3.dot, Vec3.add_def, Vec3.mk.injEq]
  refine ⟨?_, ?_, ?_⟩ <;> ring

theorem Mat3.zero_apply : (0 : Mat3 ℝ).apply a = 0 := by
  simp only [Mat3.zero_def, Mat3.apply, Vec3.dot, Vec3.zero_def, Vec3.mk.injEq]
  refine ⟨?_, ?_, ?_⟩ <;> ring

theorem Mat3.add_zero_apply : a + (0 : Mat3 ℝ).apply b = a := by
  rw [Mat3.zero_apply]
  exact Vec3.ext (add_zero _) (add_zero _) (add_zero _)

theorem Mat3.identity_apply : Mat3.identity.apply a = a := by
  simp only [Mat3.identity, Mat3.apply, Vec3.dot, Vec3.unitX, Vec3.unitY, Vec3.unitZ]
  refine Vec3.ext ?_ ?_ ?_ <;> ring

/-- The skew matrix multiplies by the vector product. -/
theorem Mat3.skew_apply : (Mat3.skew a).apply b = a.cross b := by
  simp only [Mat3.skew, Mat3.apply, Vec3.dot, Vec3.cross, Vec3.mk.injEq]
  refine ⟨?_, ?_, ?_⟩ <;> ring

end Matrices

/-! ## 2. Rotations -/

namespace Rotation

/-- The quaternion has length one. -/
def IsUnit (r : Rotation ℝ) : Prop := r.scalar * r.scalar + r.vector.normSq = 1

variable {p q r : Rotation ℝ}

theorem isUnit_identity : (identity : Rotation ℝ).IsUnit := by
  simp only [IsUnit, identity, Vec3.normSq, Vec3.dot, Vec3.zero_def]
  ring

theorem IsUnit.mul (hp : p.IsUnit) (hq : q.IsUnit) : (p * q).IsUnit := by
  show (Rotation.mul p q).IsUnit
  simp only [IsUnit, Rotation.mul, Vec3.normSq, Vec3.dot, Vec3.cross, Vec3.add_def,
    Vec3.smul_def] at *
  linear_combination (q.scalar * q.scalar +
    (q.vector.x * q.vector.x + q.vector.y * q.vector.y + q.vector.z * q.vector.z)) * hp + hq

theorem IsUnit.inverse (hr : r.IsUnit) : r.inverse.IsUnit := by
  simp only [IsUnit, Rotation.inverse, Vec3.normSq, Vec3.dot, Vec3.neg_def] at *
  linear_combination hr

theorem isUnit_aboutAxis {axis : Vec3 ℝ} (haxis : axis.normSq = 1) (angle : ℝ) :
    (aboutAxis axis angle).IsUnit := by
  have htrig := Real.cos_sq_add_sin_sq (angle * Scalar.half)
  simp only [IsUnit, aboutAxis, Vec3.normSq, Vec3.dot, Vec3.smul_def] at *
  show Real.cos _ * Real.cos _ + (Real.sin _ * _ * (Real.sin _ * _) +
    Real.sin _ * _ * (Real.sin _ * _) + Real.sin _ * _ * (Real.sin _ * _)) = 1
  linear_combination htrig + Real.sin (angle * Scalar.half) ^ 2 * haxis

/-- The matrix of a unit quaternion turns vectors as the quaternion does. -/
theorem apply_eq_matrix (hr : r.IsUnit) (x : Vec3 ℝ) : r.apply x = r.matrix.apply x := by
  simp only [IsUnit, apply, matrix, Mat3.apply, Vec3.normSq, Vec3.dot, Vec3.cross, Vec3.add_def,
    Vec3.smul_def, Vec3.mk.injEq] at *
  refine ⟨?_, ?_, ?_⟩
  · linear_combination -x.x * hr
  · linear_combination -x.y * hr
  · linear_combination -x.z * hr

/-- The matrix of a product is the product of the matrices. -/
theorem matrix_mul (p q : Rotation ℝ) : (p * q).matrix = p.matrix * q.matrix := by
  show (Rotation.mul p q).matrix = Mat3.mul p.matrix q.matrix
  simp only [Rotation.mul, matrix, Mat3.mul, Mat3.transpose, Mat3.apply, Vec3.dot, Vec3.cross,
    Vec3.add_def, Vec3.smul_def, Mat3.mk.injEq, Vec3.mk.injEq]
  refine ⟨⟨?_, ?_, ?_⟩, ⟨?_, ?_, ?_⟩, ?_, ?_, ?_⟩ <;> ring

/-- The matrix of the rotation back is the transpose. -/
theorem matrix_inverse (r : Rotation ℝ) : r.inverse.matrix = r.matrix.transpose := by
  simp only [inverse, matrix, Mat3.transpose, Vec3.neg_def, Mat3.mk.injEq, Vec3.mk.injEq]
  refine ⟨⟨?_, ?_, ?_⟩, ⟨?_, ?_, ?_⟩, ?_, ?_, ?_⟩ <;> ring

/-- Rotations keep lengths. -/
theorem normSq_apply (hr : r.IsUnit) (x : Vec3 ℝ) : (r.apply x).normSq = x.normSq := by
  have hscale : (r.matrix.apply x).normSq =
      (r.scalar * r.scalar + r.vector.normSq) ^ 2 * x.normSq := by
    simp only [matrix, Mat3.apply, Vec3.normSq, Vec3.dot]
    ring
  rw [apply_eq_matrix hr, hscale, hr, one_pow, one_mul]

/-- The matrix of a unit quaternion keeps the vector product. -/
theorem matrix_cross (hr : r.IsUnit) (a b : Vec3 ℝ) :
    r.matrix.apply (a.cross b) = (r.matrix.apply a).cross (r.matrix.apply b) := by
  have hunit := hr
  simp only [IsUnit, Vec3.normSq, Vec3.dot] at hunit
  refine Vec3.ext ?_ ?_ ?_
  · have hscale := congrArg (· * (r.matrix.apply (a.cross b)).x) hunit
    simp only [matrix, Mat3.apply, Vec3.dot, Vec3.cross] at *
    linear_combination -hscale
  · have hscale := congrArg (· * (r.matrix.apply (a.cross b)).y) hunit
    simp only [matrix, Mat3.apply, Vec3.dot, Vec3.cross] at *
    linear_combination -hscale
  · have hscale := congrArg (· * (r.matrix.apply (a.cross b)).z) hunit
    simp only [matrix, Mat3.apply, Vec3.dot, Vec3.cross] at *
    linear_combination -hscale

theorem mul_inverse (hr : r.IsUnit) : r * r.inverse = identity := by
  show Rotation.mul r r.inverse = identity
  simp only [IsUnit, Rotation.mul, Rotation.inverse, identity, Vec3.normSq, Vec3.dot, Vec3.cross,
    Vec3.add_def, Vec3.smul_def, Vec3.neg_def, Vec3.zero_def, Rotation.mk.injEq,
    Vec3.mk.injEq] at *
  refine ⟨?_, ?_, ?_, ?_⟩
  · linear_combination hr
  all_goals ring

/-- A quaternion without a vector part turns nothing, whatever its sign. -/
theorem matrix_of_vector_eq_zero (hr : r.IsUnit) (hzero : r.vector = 0) :
    r.matrix = Mat3.identity := by
  obtain ⟨s, v⟩ := r
  obtain rfl : v = 0 := hzero
  simp only [IsUnit, matrix, Mat3.identity, Vec3.normSq, Vec3.dot, Vec3.zero_def, Vec3.unitX,
    Vec3.unitY, Vec3.unitZ] at *
  have hscalar : s * s = 1 := by linear_combination hr
  refine Mat3.ext (Vec3.ext ?_ ?_ ?_) (Vec3.ext ?_ ?_ ?_) (Vec3.ext ?_ ?_ ?_) <;> simp [hscalar]

/-- A point above the axis has an angle. -/
theorem atan2_ne_zero {y : ℝ} (hy : 0 < y) (x : ℝ) : Scalar.atan2 y x ≠ 0 := fun h =>
  (ne_of_gt hy) (Complex.arg_eq_zero_iff.1 h).2

theorem eq_zero_of_normSq {v : Vec3 ℝ} (hv : ¬ 0 < v.normSq) : v = 0 := by
  simp only [Vec3.normSq, Vec3.dot] at hv
  have hx := mul_self_nonneg v.x
  have hy := mul_self_nonneg v.y
  have hz := mul_self_nonneg v.z
  exact Vec3.ext (mul_self_eq_zero.1 (by linarith)) (mul_self_eq_zero.1 (by linarith))
    (mul_self_eq_zero.1 (by linarith))

/-- A quaternion without a rotation vector has no vector part: the angle of a vector part of
positive length is positive. -/
theorem vector_eq_zero_of_toVector (h : r.toVector = 0) : r.vector = 0 := by
  have hside : (if 0 ≤ r.scalar then r.vector else -r.vector) = 0 := by
    unfold toVector at h
    generalize (if 0 ≤ r.scalar then r.vector else -r.vector) = v at h
    dsimp only at h
    by_cases hpos : 0 < v.normSq
    · rw [if_pos hpos] at h
      have hlength : 0 < Scalar.sqrt v.normSq := Real.sqrt_pos.2 hpos
      have hangle := atan2_ne_zero hlength (Scalar.abs r.scalar)
      generalize Scalar.atan2 (Scalar.sqrt v.normSq) (Scalar.abs r.scalar) = angle at h hangle
      have hdouble : angle + angle ≠ 0 := fun hsum => hangle (self_eq_neg.1 (by linarith))
      have hcoordinate : ∀ {x : ℝ}, (angle + angle) * (x / Scalar.sqrt v.normSq) = 0 → x = 0 :=
        fun hx => (div_eq_zero_iff.1 ((mul_eq_zero.1 hx).resolve_left hdouble)).resolve_right
          hlength.ne'
      exact Vec3.ext (hcoordinate (congrArg Vec3.x h)) (hcoordinate (congrArg Vec3.y h))
        (hcoordinate (congrArg Vec3.z h))
    · exact eq_zero_of_normSq hpos
  split at hside
  · exact hside
  · exact Vec3.ext (neg_eq_zero.1 (congrArg Vec3.x hside)) (neg_eq_zero.1 (congrArg Vec3.y hside))
      (neg_eq_zero.1 (congrArg Vec3.z hside))

end Rotation

/-! ## 3. Poses -/

namespace Pose

/-- The rotation of the pose is a unit quaternion. -/
def IsRigid (a : Pose ℝ) : Prop := a.rotation.IsUnit

variable {a b c : Pose ℝ}

theorem isRigid_identity : (identity : Pose ℝ).IsRigid := Rotation.isUnit_identity

theorem isRigid_shift (t : Vec3 ℝ) : (shift t).IsRigid := Rotation.isUnit_identity

theorem IsRigid.mul (ha : a.IsRigid) (hb : b.IsRigid) : (a * b).IsRigid := Rotation.IsUnit.mul ha hb

theorem IsRigid.inverse (ha : a.IsRigid) : a.inverse.IsRigid := Rotation.IsUnit.inverse ha

/-- The adjoint map turns both parts, and adds the velocity that comes from the shift. -/
theorem adjoint_apply (a : Pose ℝ) (v : SpatialVector ℝ) :
    a.adjoint.apply v = ⟨a.rotation.matrix.apply v.angular,
      a.translation.cross (a.rotation.matrix.apply v.angular) +
        a.rotation.matrix.apply v.linear⟩ := by
  simp only [adjoint, SpatialMatrix.apply, Mat3.add_zero_apply, Mat3.apply_mul, Mat3.skew_apply]

/-- **The adjoint map of a product of motions is the product of the adjoint maps.** -/
theorem adjoint_mul_apply (ha : a.IsRigid) (v : SpatialVector ℝ) :
    (a * b).adjoint.apply v = a.adjoint.apply (b.adjoint.apply v) := by
  have hrotation : (a * b).rotation.matrix = a.rotation.matrix * b.rotation.matrix :=
    Rotation.matrix_mul _ _
  have htranslation : (a * b).translation =
      a.translation + a.rotation.matrix.apply b.translation :=
    congrArg (a.translation + ·) (Rotation.apply_eq_matrix ha _)
  simp only [adjoint_apply, hrotation, htranslation, Mat3.apply_mul, Mat3.apply_add,
    Rotation.matrix_cross ha]
  refine congrArg (SpatialVector.mk _) ?_
  simp only [Vec3.cross, Vec3.add_def, Vec3.mk.injEq]
  refine ⟨?_, ?_, ?_⟩ <;> ring

/-- A motion that neither turns nor shifts carries twists to themselves. -/
theorem adjoint_apply_of_still (ha : a.IsRigid) (hturn : a.rotation.vector = 0)
    (hshift : a.translation = 0) (v : SpatialVector ℝ) : a.adjoint.apply v = v := by
  rw [adjoint_apply, Rotation.matrix_of_vector_eq_zero ha hturn, hshift, Mat3.identity_apply,
    Mat3.identity_apply]
  refine SpatialVector.ext rfl ?_
  simp only [Vec3.cross, Vec3.zero_def, Vec3.add_def]
  refine Vec3.ext ?_ ?_ ?_ <;> ring

theorem mul_inverse (ha : a.IsRigid) : a * a.inverse = identity := by
  have hback : a.rotation.apply (a.rotation.inverse.apply (-a.translation)) = -a.translation := by
    rw [Rotation.apply_eq_matrix ha, Rotation.apply_eq_matrix (Rotation.IsUnit.inverse ha),
      ← Mat3.apply_mul, ← Rotation.matrix_mul, Rotation.mul_inverse ha,
      Rotation.matrix_of_vector_eq_zero Rotation.isUnit_identity rfl, Mat3.identity_apply]
  refine Pose.ext (Rotation.mul_inverse ha) ?_
  show a.translation + a.rotation.apply (a.rotation.inverse.apply (-a.translation)) = 0
  rw [hback]
  exact Vec3.ext (add_neg_cancel _) (add_neg_cancel _) (add_neg_cancel _)

/-- The adjoint map of the motion back is the way back. -/
theorem adjoint_apply_inverse (ha : a.IsRigid) (v : SpatialVector ℝ) :
    a.adjoint.apply (a.inverse.adjoint.apply v) = v := by
  rw [← adjoint_mul_apply ha, mul_inverse ha]
  exact adjoint_apply_of_still isRigid_identity rfl rfl v

theorem inverse_mul (ha : a.IsRigid) : a.inverse * a = identity := by
  have hback : a.rotation.inverse.inverse = a.rotation :=
    Rotation.ext rfl (Vec3.ext (neg_neg _) (neg_neg _) (neg_neg _))
  have hturn := Rotation.mul_inverse (Rotation.IsUnit.inverse ha)
  rw [hback] at hturn
  refine Pose.ext hturn ?_
  show a.rotation.inverse.apply (-a.translation) + a.rotation.inverse.apply a.translation = 0
  simp only [Rotation.apply, Vec3.cross, Vec3.add_def, Vec3.neg_def, Vec3.smul_def,
    Vec3.zero_def, Vec3.mk.injEq]
  refine ⟨?_, ?_, ?_⟩ <;> ring

/-- The motion back carries twists back. -/
theorem adjoint_inverse_apply (ha : a.IsRigid) (v : SpatialVector ℝ) :
    a.inverse.adjoint.apply (a.adjoint.apply v) = v := by
  rw [← adjoint_mul_apply ha.inverse, inverse_mul ha]
  exact adjoint_apply_of_still isRigid_identity rfl rfl v

/-- A pose is not different from itself. -/
theorem localTo_self (ha : a.IsRigid) : a.localTo a = 0 := by
  simp only [localTo, inverse_mul ha, identity]
  refine SpatialVector.ext ?_ rfl
  simp only [Rotation.toVector, Rotation.identity, Vec3.normSq, Vec3.dot, Vec3.neg_def]
  simp [Vec3.zero_def, SpatialVector.zero_def]

/-- Where the second pose is not different from the first one, what it carries is carried back by
the first one. -/
theorem adjoint_apply_of_localTo (ha : a.IsRigid) (hb : b.IsRigid) (h : a.localTo b = 0)
    (v : SpatialVector ℝ) : a.inverse.adjoint.apply (b.adjoint.apply v) = v := by
  rw [← adjoint_mul_apply ha.inverse]
  exact adjoint_apply_of_still (ha.inverse.mul hb)
    (Rotation.vector_eq_zero_of_toVector (congrArg SpatialVector.angular h))
    (congrArg SpatialVector.linear h) v

end Pose

/-! ## 4. Joints -/

/-- A joint with a unit axis moves rigidly. -/
theorem JointType.isRigid_motion {axis : Vec3 ℝ} (haxis : axis.normSq = 1) (q : ℝ)
    (type : JointType) : (type.motion axis q).IsRigid := by
  cases type with
  | revolute =>
    show (rotationAbout axis q).IsRigid
    unfold rotationAbout
    split
    · exact Pose.isRigid_identity
    · exact Rotation.isUnit_aboutAxis haxis q
  | prismatic => exact Pose.isRigid_shift _

namespace JointFrames

/-- The frame of the child moves rigidly in the frame of the parent. -/
theorem isRigid_childInParent {type : JointType} {parent joint child : Pose ℝ} {axis : Vec3 ℝ}
    (hparent : parent.IsRigid) (hjoint : joint.IsRigid) (hchild : child.IsRigid)
    (haxis : axis.normSq = 1) (q : ℝ) :
    ((ofRest type parent joint child axis).childInParent q).IsRigid :=
  ((hparent.inverse.mul hjoint).mul (type.isRigid_motion haxis q)).mul (hjoint.inverse.mul hchild)

end JointFrames

end Articulated
