import Articulated.Proofs.Spatial.RotationMatrix

/-!
# The algebra of screws

The adjoint maps of rigid motions multiply like the motions, and they keep the Lie bracket, which
is antisymmetric and satisfies the identity of Jacobi. Numbers are exact, so that this is all there
is to the consistency of the block matrices: a twist may be carried along any path of frames, and
bracketed before or after.

The linear part of a bracket is a sum of two vector products. The laws come down to those of the
vector product: a rotation keeps it, and `t ×` acts on it as a derivative.

* `SpatialMatrix.ext_apply`, `SpatialMatrix.apply_mul`: matrices through what they do to vectors.
* `Vec3.cross_derive`: the shift as a derivative of the vector product.
* `SpatialVector.bracket_apply`: the bracket by its parts.
* `Pose.adjoint_mul`, `Pose.adjoint_inverse_mul`, `Pose.adjoint_bracket`: the adjoint map of a
  product, of the motion back, and of a bracket.
* `Pose.screw_algebra`: all of it, for all rigid motions.
-/

namespace Articulated

/-! ## 1. Matrices of six rows -/

section Matrices

variable (m n : Mat3 ℝ) (v : Vec3 ℝ)

theorem Mat3.add_apply : (m + n).apply v = m.apply v + n.apply v := by
  show Mat3.apply ⟨m.row1 + n.row1, m.row2 + n.row2, m.row3 + n.row3⟩ v = _
  simp only [Mat3.apply, Vec3.dot, Vec3.add_def, Vec3.mk.injEq]
  refine ⟨?_, ?_, ?_⟩ <;> ring

end Matrices

namespace SpatialMatrix

/-- A spatial matrix is known by what it does to angular and to linear vectors. -/
theorem ext_apply {m n : SpatialMatrix ℝ} (h : ∀ v, m.apply v = n.apply v) : m = n := by
  have hzero : ∀ (k : Mat3 ℝ) (x : Vec3 ℝ), x + k.apply 0 = x ∧ k.apply 0 + x = x := by
    intro k x
    simp only [Mat3.apply, Vec3.dot, Vec3.zero_def, Vec3.add_def]
    exact ⟨Vec3.ext (by ring) (by ring) (by ring), Vec3.ext (by ring) (by ring) (by ring)⟩
  have hangular := fun x => h ⟨x, 0⟩
  have hlinear := fun x => h ⟨0, x⟩
  simp only [apply, (hzero _ _).1, (hzero _ _).2, SpatialVector.mk.injEq] at hangular hlinear
  exact SpatialMatrix.ext (Mat3.ext_apply fun x => (hangular x).1)
    (Mat3.ext_apply fun x => (hlinear x).1) (Mat3.ext_apply fun x => (hangular x).2)
    (Mat3.ext_apply fun x => (hlinear x).2)

/-- A product applies the right matrix first. -/
theorem apply_mul (m n : SpatialMatrix ℝ) (v : SpatialVector ℝ) :
    (m * n).apply v = m.apply (n.apply v) := by
  have hswap : ∀ a b c d : Vec3 ℝ, a + b + (c + d) = a + c + (b + d) := by
    intro a b c d
    simp only [Vec3.add_def]
    exact Vec3.ext (by ring) (by ring) (by ring)
  show (SpatialMatrix.mul m n).apply v = _
  simp only [mul, apply, Mat3.add_apply, Mat3.apply_add, Mat3.apply_mul]
  exact SpatialVector.ext (hswap _ _ _ _) (hswap _ _ _ _)

theorem identity_apply (v : SpatialVector ℝ) : identity.apply v = v := by
  simp only [identity, apply, Mat3.identity_apply, Mat3.zero_apply]
  exact SpatialVector.ext (Vec3.ext (add_zero _) (add_zero _) (add_zero _))
    (Vec3.ext (zero_add _) (zero_add _) (zero_add _))

end SpatialMatrix

/-! ## 2. Vector products -/

namespace Vec3

theorem cross_antisymm (u v : Vec3 ℝ) : u.cross v = -(v.cross u) := by
  simp only [cross, neg_def, Vec3.mk.injEq]
  refine ⟨?_, ?_, ?_⟩ <;> ring

/-- `t ×` acts on a product as a derivative, also where the factors have parts of their own. -/
theorem cross_derive (t u v u' v' : Vec3 ℝ) :
    t.cross (u.cross v) + (u'.cross v + u.cross v') =
      (t.cross u + u').cross v + u.cross (t.cross v + v') := by
  simp only [cross, add_def, Vec3.mk.injEq]
  refine ⟨?_, ?_, ?_⟩ <;> ring

end Vec3

/-! ## 3. The bracket -/

namespace SpatialVector

/-- The bracket turns both parts, and the linear part of the first vector meets the angular part
of the second one. -/
theorem bracket_apply (v w : SpatialVector ℝ) : v.bracket.apply w =
    ⟨v.angular.cross w.angular, v.linear.cross w.angular + v.angular.cross w.linear⟩ := by
  simp only [bracket, SpatialMatrix.apply, Mat3.skew_apply, Mat3.add_zero_apply]

/-- **The bracket is antisymmetric.** -/
theorem bracket_antisymm (v w : SpatialVector ℝ) : v.bracket.apply w = -(w.bracket.apply v) := by
  rw [bracket_apply, bracket_apply]
  refine SpatialVector.ext (Vec3.cross_antisymm _ _) ?_
  show _ + _ = -(_ + _)
  rw [Vec3.cross_antisymm v.linear, Vec3.cross_antisymm v.angular]
  simp only [Vec3.neg_def, Vec3.add_def, Vec3.mk.injEq]
  refine ⟨?_, ?_, ?_⟩ <;> ring

/-- **The identity of Jacobi.** -/
theorem bracket_jacobi (u v w : SpatialVector ℝ) : u.bracket.apply (v.bracket.apply w) +
    v.bracket.apply (w.bracket.apply u) + w.bracket.apply (u.bracket.apply v) = 0 := by
  simp only [bracket_apply, add_def, zero_def, Vec3.cross, Vec3.add_def, Vec3.zero_def,
    SpatialVector.mk.injEq, Vec3.mk.injEq]
  refine ⟨⟨?_, ?_, ?_⟩, ?_, ?_, ?_⟩ <;> ring

end SpatialVector

/-! ## 4. The adjoint map -/

namespace Pose

variable {a b : Pose ℝ}

/-- **The adjoint map of a product is the product of the adjoint maps.** -/
theorem adjoint_mul (ha : a.IsRigid) (b : Pose ℝ) : (a * b).adjoint = a.adjoint * b.adjoint :=
  SpatialMatrix.ext_apply fun v => by rw [SpatialMatrix.apply_mul, adjoint_mul_apply ha]

theorem adjoint_inverse_mul (ha : a.IsRigid) :
    a.inverse.adjoint * a.adjoint = SpatialMatrix.identity :=
  SpatialMatrix.ext_apply fun v => by
    rw [SpatialMatrix.apply_mul, adjoint_inverse_apply ha, SpatialMatrix.identity_apply]

/-- **The adjoint map keeps the bracket.** -/
theorem adjoint_bracket (ha : a.IsRigid) (v w : SpatialVector ℝ) :
    a.adjoint.apply (v.bracket.apply w) =
      (a.adjoint.apply v).bracket.apply (a.adjoint.apply w) := by
  simp only [adjoint_apply, SpatialVector.bracket_apply, Mat3.apply_add, Rotation.matrix_cross ha,
    Vec3.cross_derive]

/-- A motion is rigid exactly if its matrix is a rotation matrix. -/
theorem isRigid_iff : a.IsRigid ↔ a.rotation.matrix.IsRotation := Rotation.isUnit_iff_isRotation

/-- **The algebra of screws.** Every rotation matrix with every shift is a rigid motion. The
adjoint map of a product of a rigid motion with another motion is the product of the adjoint maps,
that of the motion back is the inverse, and adjoint maps keep the bracket, which is antisymmetric
and satisfies the identity of Jacobi. -/
theorem screw_algebra :
    (∀ (m : Mat3 ℝ) (t : Vec3 ℝ), m.IsRotation →
      ∃ a : Pose ℝ, a.rotation.matrix = m ∧ a.translation = t) ∧
    (∀ a b : Pose ℝ, a.rotation.matrix.IsRotation → (a * b).adjoint = a.adjoint * b.adjoint) ∧
    (∀ a : Pose ℝ, a.rotation.matrix.IsRotation →
      a.inverse.adjoint * a.adjoint = SpatialMatrix.identity) ∧
    (∀ (a : Pose ℝ) (v w : SpatialVector ℝ), a.rotation.matrix.IsRotation →
      a.adjoint.apply (v.bracket.apply w) =
        (a.adjoint.apply v).bracket.apply (a.adjoint.apply w)) ∧
    (∀ v w : SpatialVector ℝ, v.bracket.apply w = -(w.bracket.apply v)) ∧
    ∀ u v w : SpatialVector ℝ, u.bracket.apply (v.bracket.apply w) +
      v.bracket.apply (w.bracket.apply u) + w.bracket.apply (u.bracket.apply v) = 0 := by
  refine ⟨fun m t hm => ?_, fun a b ha => adjoint_mul (isRigid_iff.2 ha) b,
    fun a ha => adjoint_inverse_mul (isRigid_iff.2 ha),
    fun a v w ha => adjoint_bracket (isRigid_iff.2 ha) v w,
    SpatialVector.bracket_antisymm, SpatialVector.bracket_jacobi⟩
  obtain ⟨r, -, hr⟩ := Mat3.isRotation_iff.1 hm
  exact ⟨⟨r, t⟩, hr, rfl⟩

/-- A turn that exchanges all axes, one by an angle with sine `24/25`, and a half turn, whose trace
is minus one. -/
theorem screw_algebra_halfTurn :
    let a : Pose ℝ := ⟨⟨1 / 2, ⟨1 / 2, 1 / 2, 1 / 2⟩⟩, ⟨1, 2, 3⟩⟩
    let b : Pose ℝ := ⟨⟨3 / 5, ⟨4 / 5, 0, 0⟩⟩, ⟨0, -1, 2⟩⟩
    let v : SpatialVector ℝ := ⟨⟨1, 2, 3⟩, ⟨-4, 5, 6⟩⟩
    let w : SpatialVector ℝ := ⟨⟨-1, 3, 2⟩, ⟨7, -2, 1⟩⟩
    let m : Mat3 ℝ := ⟨⟨0, 1, 0⟩, ⟨1, 0, 0⟩, ⟨0, 0, -1⟩⟩
    a.rotation.matrix.IsRotation ∧ m.IsRotation ∧ m.trace = -1 ∧
      (∃ c : Pose ℝ, c.rotation.matrix = m ∧ c.translation = ⟨1, 0, 0⟩) ∧
      (a * b).adjoint = a.adjoint * b.adjoint ∧
      a.inverse.adjoint * a.adjoint = SpatialMatrix.identity ∧
      a.adjoint.apply (v.bracket.apply w) =
        (a.adjoint.apply v).bracket.apply (a.adjoint.apply w) := by
  intro a b v w m
  have ha : a.rotation.matrix.IsRotation := by
    refine isRigid_iff.1 ?_
    show _ * _ + (_ * _ + _ * _ + _ * _) = (1 : ℝ)
    norm_num [a]
  have hm : m.IsRotation := by
    constructor
    · show Mat3.mul m m.transpose = Mat3.identity
      simp [m, Mat3.mul, Mat3.transpose, Mat3.apply, Mat3.identity, Vec3.dot, Vec3.unitX,
        Vec3.unitY, Vec3.unitZ]
    · simp [m, Mat3.det, Vec3.dot, Vec3.cross]
  have htrace : m.trace = -1 := by norm_num [m, Mat3.trace]
  obtain ⟨hexists, hmul, hinverse, hbracket, -⟩ := screw_algebra
  exact ⟨ha, hm, htrace, hexists m _ hm, hmul a b ha, hinverse a ha, hbracket a v w ha⟩

end Pose

end Articulated
