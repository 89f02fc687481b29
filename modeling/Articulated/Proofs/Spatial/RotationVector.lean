import Articulated.Proofs.Spatial.Action
import Articulated.Proofs.Spatial.Plane

/-!
# Rotation vectors

A rotation is given by a vector: its direction is the axis, its length the angle. In exact
arithmetic the vector of a rotation is found again if it is not longer than a half turn, and every
unit quaternion is the rotation of its vector, up to its sign. Tangent coordinates of poses inherit
this.

* `Rotation.ofVector_smul`, `Rotation.toVector_aboutAxis`: the two directions for a turn about a
  unit axis.
* `Rotation.toVector_ofVector`: rotation vectors of at most a half turn are found again.
* `Rotation.ofVector_toVector`: a rotation is found again, as the one of its two quaternions whose
  scalar part is not negative.
* `Pose.localTo_mul_ofVector`, `Pose.sameMotion_mul_localTo`: the same for a move from a pose.
-/

namespace Articulated

/-! ## 1. Turns about an axis -/

namespace Vec3

variable {axis : Vec3 ℝ} {c : ℝ}

theorem norm_smul (haxis : axis.normSq = 1) (hc : 0 ≤ c) : (c • axis).norm = c := by
  have hsq : (c • axis).normSq = c * c := by rw [normSq_smul, haxis, mul_one]
  show Real.sqrt (c • axis).normSq = c
  rw [hsq, Real.sqrt_mul_self hc]

theorem divBy_smul (hc : c ≠ 0) : (c • axis).divBy c = axis := by
  simp only [divBy, smul_def, mul_div_cancel_left₀ _ hc]

end Vec3

namespace Rotation

variable {r : Rotation ℝ} {axis v : Vec3 ℝ} {angle : ℝ}

/-- The angle of a point on the upper half of the unit circle. -/
theorem atan2_sin_cos (hlow : 0 < angle) (hhigh : angle ≤ Real.pi) :
    Scalar.atan2 (Real.sin angle) (Real.cos angle) = angle := by
  have hpoint : (⟨Real.cos angle, Real.sin angle⟩ : ℂ) =
      Complex.cos angle + Complex.sin angle * Complex.I := by
    rw [← Complex.ofReal_cos, ← Complex.ofReal_sin]
    exact Complex.mk_eq_add_mul_I _ _
  show Complex.arg ⟨Real.cos angle, Real.sin angle⟩ = angle
  rw [hpoint]
  exact Complex.arg_cos_add_sin_mul_I ⟨by linarith, hhigh⟩

/-- Every point of the unit circle above the axis has an angle. -/
theorem exists_angle {x y : ℝ} (hy : 0 < y) (hunit : x * x + y * y = 1) :
    ∃ angle, 0 < angle ∧ angle ≤ Real.pi ∧ Real.cos angle = x ∧ Real.sin angle = y := by
  have hnorm : ‖(⟨x, y⟩ : ℂ)‖ = 1 := by
    rw [Complex.norm_def, Complex.normSq_mk, hunit, Real.sqrt_one]
  have hne : (⟨x, y⟩ : ℂ) ≠ 0 := fun hzero => hy.ne' (congrArg Complex.im hzero)
  have hsin := Complex.sin_arg ⟨x, y⟩
  have hcos := Complex.cos_arg hne
  rw [hnorm, div_one] at hsin hcos
  have hlow : 0 ≤ Complex.arg ⟨x, y⟩ := Complex.arg_nonneg_iff.2 hy.le
  exact ⟨Complex.arg ⟨x, y⟩, hlow.lt_of_ne' (atan2_ne_zero hy x), Complex.arg_le_pi _, hcos, hsin⟩

/-- A vector turns about its direction by its length. -/
theorem ofVector_smul (haxis : axis.normSq = 1) (hangle : 0 < angle) :
    ofVector (angle • axis) = aboutAxis axis angle := by
  have hhalf : 0 < angle * Scalar.half := mul_pos hangle (by norm_num [Scalar.half])
  have hvector : (Scalar.half : ℝ) • (angle • axis) = (angle * Scalar.half) • axis := by
    simp only [Vec3.smul_def]
    refine Vec3.ext ?_ ?_ ?_ <;> ring
  have hnorm := Vec3.norm_smul haxis hhalf.le
  have hlong : ¬ ((angle * Scalar.half) • axis).normSq ≤ Scalar.epsilon * Scalar.epsilon := by
    rw [Vec3.normSq_smul, haxis, mul_one, not_le]
    exact (mul_zero (0 : ℝ)).trans_lt (mul_pos hhalf hhalf)
  unfold ofVector
  dsimp only
  rw [hvector, if_neg hlong, hnorm]
  refine Rotation.ext rfl ?_
  simp only [aboutAxis, Vec3.smul_def, ← mul_assoc, div_mul_cancel₀ _ hhalf.ne']

theorem ofVector_zero : ofVector (0 : Vec3 ℝ) = identity := by
  have hnone : ((Scalar.half : ℝ) • (0 : Vec3 ℝ)).normSq = 0 := by
    rw [Vec3.normSq_smul]
    simp [Vec3.normSq, Vec3.dot, Vec3.zero_def]
  exact if_pos (hnone.trans_le (mul_self_nonneg _))

/-- **The vector of a turn by at most a half is found again.** -/
theorem toVector_aboutAxis (haxis : axis.normSq = 1) (hlow : 0 < angle) (hhigh : angle ≤ Real.pi) :
    (aboutAxis axis angle).toVector = angle • axis := by
  have hdouble : angle * Scalar.half + angle * Scalar.half = angle := by
    simp only [Scalar.half]
    ring
  have hhalfLow : 0 < angle * Scalar.half := by linarith
  have hcos : 0 ≤ Real.cos (angle * Scalar.half) :=
    Real.cos_nonneg_of_mem_Icc ⟨by linarith, by linarith⟩
  have hsin : 0 < Real.sin (angle * Scalar.half) :=
    Real.sin_pos_of_pos_of_lt_pi hhalfLow (by linarith [Real.pi_pos])
  have hsq : (Real.sin (angle * Scalar.half) • axis).normSq =
      Real.sin (angle * Scalar.half) * Real.sin (angle * Scalar.half) := by
    rw [Vec3.normSq_smul, haxis, mul_one]
  have hatan := atan2_sin_cos hhalfLow (by linarith [Real.pi_pos])
  show toVector ⟨Real.cos (angle * Scalar.half), Real.sin (angle * Scalar.half) • axis⟩ = _
  unfold toVector
  dsimp only
  rw [if_pos hcos, hsq, if_pos (mul_pos hsin hsin)]
  show (Scalar.atan2 (Real.sqrt _) |Real.cos _| + Scalar.atan2 (Real.sqrt _) |Real.cos _|) •
    Vec3.divBy _ (Real.sqrt _) = _
  rw [Real.sqrt_mul_self hsin.le, abs_of_nonneg hcos, hatan, hdouble, Vec3.divBy_smul hsin.ne']

/-! ## 2. Both ways -/

/-- **Rotation vectors of at most a half turn are found again.** -/
theorem toVector_ofVector (hv : v.norm ≤ Real.pi) : (ofVector v).toVector = v := by
  by_cases hzero : v = 0
  · subst hzero
    rw [ofVector_zero]
    exact toVector_eq_zero_iff.2 rfl
  · have hunit := Vec3.normSq_normalize hzero
    rw [← Vec3.norm_smul_normalize hzero, ofVector_smul hunit (Vec3.norm_pos hzero),
      toVector_aboutAxis hunit (Vec3.norm_pos hzero) hv]

theorem isUnit_ofVector (v : Vec3 ℝ) : (ofVector v).IsUnit := by
  by_cases hzero : v = 0
  · rw [hzero, ofVector_zero]
    exact isUnit_identity
  · have hunit := Vec3.normSq_normalize hzero
    rw [← Vec3.norm_smul_normalize hzero, ofVector_smul hunit (Vec3.norm_pos hzero)]
    exact isUnit_aboutAxis hunit _

/-- The quaternion of the same turn whose scalar part is not negative. -/
noncomputable def upper (r : Rotation ℝ) : Rotation ℝ := if 0 ≤ r.scalar then r else -r

theorem scalar_upper (r : Rotation ℝ) : 0 ≤ r.upper.scalar := by
  unfold upper
  split
  · assumption
  · exact neg_nonneg.2 (not_le.1 ‹_›).le

theorem IsUnit.neg (hr : r.IsUnit) : (-r).IsUnit := by
  show -r.scalar * -r.scalar + (-r.vector).normSq = 1
  simp only [IsUnit, Vec3.normSq, Vec3.dot, Vec3.neg_def, neg_mul_neg] at *
  exact hr

theorem IsUnit.upper (hr : r.IsUnit) : r.upper.IsUnit := by
  unfold Rotation.upper
  split
  · exact hr
  · exact hr.neg

theorem apply_neg (r : Rotation ℝ) (x : Vec3 ℝ) : (-r).apply x = r.apply x := by
  show apply ⟨-r.scalar, -r.vector⟩ x = r.apply x
  simp only [apply, Vec3.cross, Vec3.neg_def, Vec3.add_def, Vec3.smul_def]
  refine Vec3.ext ?_ ?_ ?_ <;> ring

theorem apply_upper (r : Rotation ℝ) (x : Vec3 ℝ) : r.upper.apply x = r.apply x := by
  unfold upper
  split
  · rfl
  · exact apply_neg r x

/-- The rotation vector is read off the quaternion whose scalar part is not negative. -/
theorem toVector_upper (r : Rotation ℝ) : r.upper.toVector = r.toVector := by
  unfold upper
  split
  · rfl
  · have hneg : 0 ≤ (-r).scalar := neg_nonneg.2 (not_le.1 ‹_›).le
    have habs : Scalar.abs (-r).scalar = Scalar.abs r.scalar := abs_neg r.scalar
    unfold toVector
    dsimp only
    rw [if_pos hneg, if_neg ‹¬0 ≤ r.scalar›, habs]
    rfl

/-- A unit quaternion of a proper turn has an axis and an angle of at most a half turn. -/
theorem exists_aboutAxis (hr : r.IsUnit) (hside : 0 ≤ r.scalar) (hvector : r.vector ≠ 0) :
    ∃ axis angle, axis.normSq = 1 ∧ 0 < angle ∧ angle ≤ Real.pi ∧ r = aboutAxis axis angle := by
  have hcircle : r.scalar * r.scalar + r.vector.norm * r.vector.norm = 1 := by
    rw [Vec3.norm_mul_norm hvector]
    exact hr
  obtain ⟨h, hlow, hpi, hcos, hsin⟩ := exists_angle (Vec3.norm_pos hvector) hcircle
  have hhigh : h ≤ Real.pi / 2 := by
    by_contra hlarge
    have hneg := Real.cos_neg_of_pi_div_two_lt_of_lt (not_le.1 hlarge) (by linarith)
    linarith
  have hhalf : (h + h) * Scalar.half = h := by
    simp only [Scalar.half]
    ring
  refine ⟨r.vector.normalize, h + h, Vec3.normSq_normalize hvector, by linarith, by linarith, ?_⟩
  show r = ⟨Real.cos ((h + h) * Scalar.half), Real.sin ((h + h) * Scalar.half) • _⟩
  rw [hhalf, hcos, hsin, Vec3.norm_smul_normalize hvector]

/-- **A rotation is found again from its vector, as the one of its two quaternions whose scalar
part is not negative.** -/
theorem ofVector_toVector (hr : r.IsUnit) : ofVector r.toVector = r.upper := by
  rw [← toVector_upper]
  have hunit := hr.upper
  have hside := scalar_upper r
  generalize r.upper = p at hunit hside
  by_cases hvector : p.vector = 0
  · rw [toVector_eq_zero_iff.2 hvector, ofVector_zero]
    have hsq : p.scalar * p.scalar = 1 := by
      simpa [IsUnit, hvector, Vec3.normSq, Vec3.dot, Vec3.zero_def] using hunit
    have hone : p.scalar = 1 := (mul_self_eq_one_iff.1 hsq).resolve_right fun hneg => by linarith
    exact Rotation.ext hone.symm hvector.symm
  · obtain ⟨axis, angle, haxis, hlow, hhigh, rfl⟩ := exists_aboutAxis hunit hside hvector
    rw [toVector_aboutAxis haxis hlow hhigh, ofVector_smul haxis hlow]

theorem mul_assoc (p q r : Rotation ℝ) : p * q * r = p * (q * r) := by
  show Rotation.mul (Rotation.mul p q) r = Rotation.mul p (Rotation.mul q r)
  simp only [Rotation.mul, Vec3.dot, Vec3.cross, Vec3.add_def, Vec3.smul_def]
  refine Rotation.ext ?_ (Vec3.ext ?_ ?_ ?_) <;> ring

theorem identity_mul (r : Rotation ℝ) : identity * r = r := by
  show Rotation.mul identity r = r
  simp only [Rotation.mul, identity, Vec3.dot, Vec3.cross, Vec3.add_def, Vec3.smul_def,
    Vec3.zero_def]
  refine Rotation.ext ?_ (Vec3.ext ?_ ?_ ?_) <;> ring

end Rotation

/-! ## 3. Moves from a pose -/

namespace Pose

variable {a b m : Pose ℝ} {v : SpatialVector ℝ}

theorem isRigid_ofVector (v : SpatialVector ℝ) : (ofVector v).IsRigid :=
  Rotation.isUnit_ofVector v.angular

/-- A move is what is left of the way back after it. -/
theorem inverse_mul_mul (ha : a.IsRigid) : a.inverse * (a * m) = m := by
  have hback : a.inverse.rotation * a.rotation = Rotation.identity :=
    congrArg Pose.rotation (inverse_mul ha)
  refine Pose.ext ?_ (move_inverse_move ha m.translation)
  show a.inverse.rotation * (a.rotation * m.rotation) = m.rotation
  rw [← Rotation.mul_assoc, hback, Rotation.identity_mul]

/-- **A move from a pose by at most a half turn is found again.** -/
theorem localTo_mul_ofVector (ha : a.IsRigid) (hv : v.angular.norm ≤ Real.pi) :
    a.localTo (a * ofVector v) = v := by
  simp only [localTo, inverse_mul_mul ha]
  exact SpatialVector.ext (Rotation.toVector_ofVector hv) rfl

/-- **The move along the tangent coordinates to a pose leads there.** -/
theorem sameMotion_mul_localTo (ha : a.IsRigid) (hb : b.IsRigid) :
    (a * ofVector (a.localTo b)).SameMotion b := by
  intro x
  have hrotation : (ofVector (a.localTo b)).rotation = (a.inverse * b).rotation.upper :=
    Rotation.ofVector_toVector (ha.inverse.mul hb)
  have hmove : (ofVector (a.localTo b)).move x = (a.inverse * b).move x := by
    unfold move
    rw [hrotation, Rotation.apply_upper]
    rfl
  rw [move_mul ha (isRigid_ofVector _), hmove, move_mul ha.inverse hb, move_move_inverse ha]

end Pose

end Articulated
