import Articulated.Proofs.Spatial.Plane

/-!
# Rotation matrices

A rotation matrix is orthogonal and has determinant one (`Mat3.IsRotation`). In exact arithmetic
these are the matrices of the unit quaternions, so that poses with a unit quaternion are all the
rigid motions there are.

The quaternion of a matrix is read off its entries: four times the products of two of its parts are
sums of entries. The scalar part of a half turn is zero, and then it does not determine the other
parts; but the matrix, or the matrix behind a half turn about one of the coordinate axes, has a
scalar part that is not zero.

* `Mat3.IsRotation.mul`, `Mat3.IsRotation.cofactors`, `Mat3.IsRotation.columns`: products of
  rotation matrices, and what is orthogonal in them beside the rows.
* `Rotation.isUnit_iff_isRotation`: unit quaternions are told by their matrices.
* `Mat3.isRotation_iff`: the rotation matrices are the matrices of the unit quaternions.
-/

namespace Articulated

/-! ## 1. Products of matrices -/

namespace Mat3

/-- The determinant, by the first row. -/
def det {α : Type} [Scalar α] (m : Mat3 α) : α := m.row1.dot (m.row2.cross m.row3)

/-- The sum of the diagonal entries. -/
def trace {α : Type} [Scalar α] (m : Mat3 α) : α := m.row1.x + m.row2.y + m.row3.z

variable (k m n : Mat3 ℝ)

/-- A matrix is known by what it does to the basis vectors. -/
theorem ext_apply {m n : Mat3 ℝ} (h : ∀ v, m.apply v = n.apply v) : m = n := by
  have hx := h Vec3.unitX
  have hy := h Vec3.unitY
  have hz := h Vec3.unitZ
  simp only [apply, Vec3.dot, Vec3.unitX, Vec3.unitY, Vec3.unitZ, Vec3.mk.injEq, mul_one, mul_zero,
    add_zero, zero_add] at hx hy hz
  exact Mat3.ext (Vec3.ext hx.1 hy.1 hz.1) (Vec3.ext hx.2.1 hy.2.1 hz.2.1)
    (Vec3.ext hx.2.2 hy.2.2 hz.2.2)

theorem mul_assoc : k * m * n = k * (m * n) := by
  refine ext_apply fun v => ?_
  rw [apply_mul, apply_mul, apply_mul, apply_mul]

theorem mul_identity : m * identity = m := by
  refine ext_apply fun v => ?_
  rw [apply_mul, identity_apply]

theorem transpose_mul : (m * n).transpose = n.transpose * m.transpose := by
  show (Mat3.mul m n).transpose = Mat3.mul n.transpose m.transpose
  simp only [mul, transpose, apply, Vec3.dot, Mat3.mk.injEq, Vec3.mk.injEq]
  refine ⟨⟨?_, ?_, ?_⟩, ⟨?_, ?_, ?_⟩, ?_, ?_, ?_⟩ <;> ring

theorem det_mul : (m * n).det = m.det * n.det := by
  show (Mat3.mul m n).det = m.det * n.det
  simp only [det, mul, transpose, apply, Vec3.dot, Vec3.cross]
  ring

/-! ## 2. Orthogonal matrices -/

/-- The matrix is orthogonal and keeps the orientation of space. -/
structure IsRotation (m : Mat3 ℝ) : Prop where
  orthogonal : m * m.transpose = identity
  det_eq_one : m.det = 1

variable {m n : Mat3 ℝ}

theorem IsRotation.mul (hm : m.IsRotation) (hn : n.IsRotation) : (m * n).IsRotation where
  orthogonal := by
    rw [transpose_mul, mul_assoc, ← mul_assoc n, hn.orthogonal, ← mul_assoc, mul_identity,
      hm.orthogonal]
  det_eq_one := by rw [det_mul, hm.det_eq_one, hn.det_eq_one, one_mul]

/-- The rows have length one and are at right angles. -/
theorem IsRotation.rows (h : m.IsRotation) :
    (m.row1.normSq = 1 ∧ m.row2.normSq = 1 ∧ m.row3.normSq = 1) ∧
      m.row1.dot m.row2 = 0 ∧ m.row1.dot m.row3 = 0 ∧ m.row2.dot m.row3 = 0 := by
  have hentry : ∀ {x y : ℝ} (f : Mat3 ℝ → ℝ), f (m * m.transpose) = x → f identity = y → x = y :=
    fun f hx hy => hx.symm.trans ((congrArg f h.orthogonal).trans hy)
  refine ⟨⟨?_, ?_, ?_⟩, ?_, ?_, ?_⟩
  · exact hentry (fun p => p.row1.x) rfl rfl
  · exact hentry (fun p => p.row2.y) rfl rfl
  · exact hentry (fun p => p.row3.z) rfl rfl
  · exact hentry (fun p => p.row2.x) rfl rfl
  · exact hentry (fun p => p.row3.x) rfl rfl
  · exact hentry (fun p => p.row3.y) rfl rfl

end Mat3

/-- The vector product of two directions at right angles is the third direction that is oriented
like them: the square of its distance from that one is `1 - 2 + 1`. -/
theorem Vec3.cross_eq_of_oriented {u v w : Vec3 ℝ} (hu : u.normSq = 1) (hv : v.normSq = 1)
    (hw : w.normSq = 1) (hvw : v.dot w = 0) (horiented : u.dot (v.cross w) = 1) :
    v.cross w = u := by
  have harea : (v.cross w).normSq = 1 := by
    rw [normSq_cross, hv, hw, hvw]
    ring
  have hdistance : (v.cross w - u).normSq = 0 := by
    have hexpand : (v.cross w - u).normSq =
        (v.cross w).normSq - 2 * u.dot (v.cross w) + u.normSq := by
      generalize v.cross w = c
      simp only [normSq, dot, sub_def]
      ring
    rw [hexpand, harea, horiented, hu]
    ring
  have hzero := Rotation.eq_zero_of_normSq hdistance.not_gt
  exact Vec3.ext (sub_eq_zero.1 (congrArg Vec3.x hzero)) (sub_eq_zero.1 (congrArg Vec3.y hzero))
    (sub_eq_zero.1 (congrArg Vec3.z hzero))

namespace Mat3

variable {m : Mat3 ℝ}

/-- Every row is the vector product of the other two. -/
theorem IsRotation.cofactors (h : m.IsRotation) : m.row2.cross m.row3 = m.row1 ∧
    m.row3.cross m.row1 = m.row2 ∧ m.row1.cross m.row2 = m.row3 := by
  obtain ⟨⟨h₁, h₂, h₃⟩, h₁₂, h₁₃, h₂₃⟩ := h.rows
  have hdet := h.det_eq_one
  have hcycle₂ : m.row2.dot (m.row3.cross m.row1) = m.det := by
    simp only [det, Vec3.dot, Vec3.cross]
    ring
  have hcycle₃ : m.row3.dot (m.row1.cross m.row2) = m.det := by
    simp only [det, Vec3.dot, Vec3.cross]
    ring
  exact ⟨Vec3.cross_eq_of_oriented h₁ h₂ h₃ h₂₃ hdet,
    Vec3.cross_eq_of_oriented h₂ h₃ h₁ ((Vec3.dot_comm _ _).trans h₁₃) (hcycle₂.trans hdet),
    Vec3.cross_eq_of_oriented h₃ h₁ h₂ h₁₂ (hcycle₃.trans hdet)⟩

/-- The columns have length one and are at right angles as well. -/
theorem IsRotation.columns (h : m.IsRotation) :
    m.transpose.row1.normSq = 1 ∧ m.transpose.row2.normSq = 1 ∧ m.transpose.row3.normSq = 1 ∧
      m.transpose.row1.dot m.transpose.row2 = 0 ∧ m.transpose.row1.dot m.transpose.row3 = 0 ∧
      m.transpose.row2.dot m.transpose.row3 = 0 := by
  obtain ⟨h₁, h₂, h₃⟩ := h.cofactors
  have hdet := h.det_eq_one
  simp only [det, transpose, Vec3.normSq, Vec3.dot, Vec3.cross, Vec3.ext_iff] at *
  obtain ⟨h₁₁, h₁₂, h₁₃⟩ := h₁
  obtain ⟨h₂₁, h₂₂, h₂₃⟩ := h₂
  obtain ⟨h₃₁, h₃₂, h₃₃⟩ := h₃
  -- a column times cofactors of a column is the determinant or zero
  refine ⟨?_, ?_, ?_, ?_, ?_, ?_⟩
  · linear_combination hdet - m.row1.x * h₁₁ - m.row2.x * h₂₁ - m.row3.x * h₃₁
  · linear_combination hdet - m.row1.y * h₁₂ - m.row2.y * h₂₂ - m.row3.y * h₃₂
  · linear_combination hdet - m.row1.z * h₁₃ - m.row2.z * h₂₃ - m.row3.z * h₃₃
  · linear_combination -m.row1.x * h₁₂ - m.row2.x * h₂₂ - m.row3.x * h₃₂
  · linear_combination -m.row1.x * h₁₃ - m.row2.x * h₂₃ - m.row3.x * h₃₃
  · linear_combination -m.row1.y * h₁₃ - m.row2.y * h₂₃ - m.row3.y * h₃₃

end Mat3

/-! ## 3. Matrices of unit quaternions -/

namespace Rotation

variable {r : Rotation ℝ}

theorem isRotation_matrix (hr : r.IsUnit) : r.matrix.IsRotation where
  orthogonal := by
    rw [← matrix_inverse, ← matrix_mul, mul_inverse hr,
      matrix_of_vector_eq_zero isUnit_identity rfl]
  det_eq_one := by
    have hscale : r.matrix.det = (r.scalar * r.scalar + r.vector.normSq) ^ 3 := by
      simp only [matrix, Mat3.det, Vec3.normSq, Vec3.dot, Vec3.cross]
      ring
    rw [hscale, hr, one_pow]

/-- **A quaternion is a unit exactly if its matrix is a rotation matrix**: the first row has the
length of the quaternion, squared. -/
theorem isUnit_iff_isRotation : r.IsUnit ↔ r.matrix.IsRotation := by
  refine ⟨isRotation_matrix, fun h => ?_⟩
  have hrow := h.rows.1.1
  have hscale : r.matrix.row1.normSq = (r.scalar * r.scalar + r.vector.normSq) ^ 2 := by
    simp only [matrix, Vec3.normSq, Vec3.dot]
    ring
  have hnonneg : 0 ≤ r.scalar * r.scalar + r.vector.normSq :=
    add_nonneg (mul_self_nonneg _)
      (add_nonneg (add_nonneg (mul_self_nonneg _) (mul_self_nonneg _)) (mul_self_nonneg _))
  exact (pow_eq_one_iff_of_nonneg hnonneg two_ne_zero).1 (hscale.symm.trans hrow)

/-- The four-fold products of two parts of the quaternion are these sums of entries. -/
structure Fits (r : Rotation ℝ) (m : Mat3 ℝ) : Prop where
  ww : 4 * (r.scalar * r.scalar) = 1 + m.trace
  xx : 4 * (r.vector.x * r.vector.x) = 1 + m.row1.x - m.row2.y - m.row3.z
  yy : 4 * (r.vector.y * r.vector.y) = 1 - m.row1.x + m.row2.y - m.row3.z
  zz : 4 * (r.vector.z * r.vector.z) = 1 - m.row1.x - m.row2.y + m.row3.z
  wx : 4 * (r.scalar * r.vector.x) = m.row3.y - m.row2.z
  wy : 4 * (r.scalar * r.vector.y) = m.row1.z - m.row3.x
  wz : 4 * (r.scalar * r.vector.z) = m.row2.x - m.row1.y
  xy : 4 * (r.vector.x * r.vector.y) = m.row1.y + m.row2.x
  xz : 4 * (r.vector.x * r.vector.z) = m.row1.z + m.row3.x
  yz : 4 * (r.vector.y * r.vector.z) = m.row2.z + m.row3.y

theorem Fits.isUnit {m : Mat3 ℝ} (h : r.Fits m) : r.IsUnit := by
  obtain ⟨ww, xx, yy, zz, -⟩ := h
  simp only [IsUnit, Mat3.trace, Vec3.normSq, Vec3.dot] at *
  linear_combination (ww + xx + yy + zz) / 4

theorem Fits.matrix_eq {m : Mat3 ℝ} (h : r.Fits m) : r.matrix = m := by
  obtain ⟨ww, xx, yy, zz, wx, wy, wz, xy, xz, yz⟩ := h
  simp only [Mat3.trace] at ww
  refine Mat3.ext (Vec3.ext ?_ ?_ ?_) (Vec3.ext ?_ ?_ ?_) (Vec3.ext ?_ ?_ ?_)
  · show _ + _ - _ - _ = _
    linear_combination (ww + xx - yy - zz) / 4
  · show _ + _ - (_ + _) = _
    linear_combination (xy - wz) / 2
  · show _ + _ + (_ + _) = _
    linear_combination (wy + xz) / 2
  · show _ + _ + (_ + _) = _
    linear_combination (wz + xy) / 2
  · show _ - _ + _ - _ = _
    linear_combination (ww - xx + yy - zz) / 4
  · show _ + _ - (_ + _) = _
    linear_combination (yz - wx) / 2
  · show _ + _ - (_ + _) = _
    linear_combination (xz - wy) / 2
  · show _ + _ + (_ + _) = _
    linear_combination (wx + yz) / 2
  · show _ - _ - _ + _ = _
    linear_combination (ww - xx - yy + zz) / 4

end Rotation

namespace Mat3

variable {m : Mat3 ℝ}

/-- The differences of entries across the diagonal, two at a time. -/
theorem IsRotation.products (h : m.IsRotation) :
    ((m.row3.y - m.row2.z) ^ 2 = (1 + m.trace) * (1 + m.row1.x - m.row2.y - m.row3.z) ∧
      (m.row1.z - m.row3.x) ^ 2 = (1 + m.trace) * (1 - m.row1.x + m.row2.y - m.row3.z) ∧
      (m.row2.x - m.row1.y) ^ 2 = (1 + m.trace) * (1 - m.row1.x - m.row2.y + m.row3.z)) ∧
    (m.row3.y - m.row2.z) * (m.row1.z - m.row3.x) = (1 + m.trace) * (m.row1.y + m.row2.x) ∧
    (m.row3.y - m.row2.z) * (m.row2.x - m.row1.y) = (1 + m.trace) * (m.row1.z + m.row3.x) ∧
    (m.row1.z - m.row3.x) * (m.row2.x - m.row1.y) = (1 + m.trace) * (m.row2.z + m.row3.y) := by
  obtain ⟨⟨r₁, r₂, r₃⟩, r₁₂, r₁₃, r₂₃⟩ := h.rows
  obtain ⟨c₁, c₂, c₃, c₁₂, c₁₃, c₂₃⟩ := h.columns
  obtain ⟨h₁, h₂, h₃⟩ := h.cofactors
  simp only [trace, transpose, Vec3.normSq, Vec3.dot, Vec3.cross, Vec3.ext_iff] at *
  obtain ⟨h₁₁, h₁₂, h₁₃⟩ := h₁
  obtain ⟨h₂₁, h₂₂, h₂₃⟩ := h₂
  obtain ⟨h₃₁, h₃₂, h₃₃⟩ := h₃
  refine ⟨⟨?_, ?_, ?_⟩, ?_, ?_, ?_⟩
  · linear_combination r₂ + r₃ - c₁ + 2 * h₁₁
  · linear_combination r₁ + r₃ - c₂ + 2 * h₂₂
  · linear_combination r₁ + r₂ - c₃ + 2 * h₃₃
  · linear_combination h₁₂ + h₂₁ - r₁₂ - c₁₂
  · linear_combination h₁₃ + h₃₁ - r₁₃ - c₁₃
  · linear_combination h₂₃ + h₃₂ - r₂₃ - c₂₃

/-- Where the scalar part is not zero, the other parts are quotients by it. -/
theorem IsRotation.exists_of_trace (h : m.IsRotation) (htrace : 0 < 1 + m.trace) :
    ∃ r : Rotation ℝ, r.Fits m := by
  obtain ⟨⟨hxx, hyy, hzz⟩, hxy, hxz, hyz⟩ := h.products
  obtain ⟨s, hs, hss⟩ : ∃ s : ℝ, s ≠ 0 ∧ s * s = 1 + m.trace :=
    ⟨Real.sqrt (1 + m.trace), (Real.sqrt_pos.2 htrace).ne', Real.mul_self_sqrt htrace.le⟩
  rw [← hss] at hxx hyy hzz hxy hxz hyz
  -- both factors are divided by `2 s`
  have hproduct : ∀ {p q c : ℝ}, p * q = s * s * c → 4 * (p / (2 * s) * (q / (2 * s))) = c := by
    intro p q c hpq
    field_simp
    linear_combination 4 * hpq
  have hscalar : ∀ p : ℝ, 4 * (s / 2 * (p / (2 * s))) = p := by
    intro p
    field_simp
    ring
  refine ⟨⟨s / 2, ⟨(m.row3.y - m.row2.z) / (2 * s), (m.row1.z - m.row3.x) / (2 * s),
    (m.row2.x - m.row1.y) / (2 * s)⟩⟩, ?_, ?_, ?_, ?_, hscalar _, hscalar _, hscalar _,
    hproduct hxy, hproduct hxz, hproduct hyz⟩
  · linear_combination hss
  · exact hproduct ((sq _).symm.trans hxx)
  · exact hproduct ((sq _).symm.trans hyy)
  · exact hproduct ((sq _).symm.trans hzz)

/-- The traces of a matrix and of the matrix behind the half turns about the coordinate axes. -/
theorem sum_trace_halfTurns (m : Mat3 ℝ) :
    (m * (Rotation.identity : Rotation ℝ).matrix).trace +
        (m * (⟨0, Vec3.unitX⟩ : Rotation ℝ).matrix).trace +
        (m * (⟨0, Vec3.unitY⟩ : Rotation ℝ).matrix).trace +
        (m * (⟨0, Vec3.unitZ⟩ : Rotation ℝ).matrix).trace = 0 := by
  have htrace : ∀ n : Mat3 ℝ, (m * n).trace = m.row1.dot n.transpose.row1 +
      m.row2.dot n.transpose.row2 + m.row3.dot n.transpose.row3 := by
    intro n
    show (Mat3.mul m n).trace = _
    simp only [trace, mul, transpose, apply, Vec3.dot]
    ring
  simp only [htrace, transpose, Rotation.matrix, Rotation.identity, Vec3.dot, Vec3.unitX,
    Vec3.unitY, Vec3.unitZ, Vec3.zero_def]
  ring

/-- Behind no turn, or behind one of the half turns, the trace is above minus one. -/
theorem exists_trace_pos (m : Mat3 ℝ) :
    ∃ q : Rotation ℝ, q.IsUnit ∧ 0 < 1 + (m * q.matrix).trace := by
  have haxis : ∀ {v : Vec3 ℝ}, v.normSq = 1 → (⟨0, v⟩ : Rotation ℝ).IsUnit := by
    intro v hv
    rw [Rotation.IsUnit, hv]
    ring
  have hsum := sum_trace_halfTurns m
  by_contra hnone
  have hnot : ∀ {q : Rotation ℝ}, q.IsUnit → 1 + (m * q.matrix).trace ≤ 0 :=
    fun hq => not_lt.1 fun htrace => hnone ⟨_, hq, htrace⟩
  have h₀ := hnot Rotation.isUnit_identity
  have h₁ := hnot (haxis (v := Vec3.unitX) (by simp [Vec3.normSq, Vec3.dot, Vec3.unitX]))
  have h₂ := hnot (haxis (v := Vec3.unitY) (by simp [Vec3.normSq, Vec3.dot, Vec3.unitY]))
  have h₃ := hnot (haxis (v := Vec3.unitZ) (by simp [Vec3.normSq, Vec3.dot, Vec3.unitZ]))
  linarith

/-- A matrix is that of a unit quaternion if it is so behind another one. -/
theorem exists_of_turned {q r : Rotation ℝ} (hq : q.IsUnit) (hr : r.Fits (m * q.matrix)) :
    ∃ p : Rotation ℝ, p.IsUnit ∧ p.matrix = m := by
  refine ⟨r * q.inverse, hr.isUnit.mul hq.inverse, ?_⟩
  rw [Rotation.matrix_mul, hr.matrix_eq, mul_assoc, ← Rotation.matrix_mul,
    Rotation.mul_inverse hq, Rotation.matrix_of_vector_eq_zero Rotation.isUnit_identity rfl,
    mul_identity]

/-- **The rotation matrices are the matrices of the unit quaternions.** -/
theorem isRotation_iff : m.IsRotation ↔ ∃ r : Rotation ℝ, r.IsUnit ∧ r.matrix = m := by
  constructor
  · intro h
    obtain ⟨q, hq, htrace⟩ := exists_trace_pos m
    obtain ⟨r, hr⟩ := (h.mul (Rotation.isRotation_matrix hq)).exists_of_trace htrace
    exact exists_of_turned hq hr
  · intro h
    obtain ⟨r, hr, rfl⟩ := h
    exact Rotation.isRotation_matrix hr

end Mat3

end Articulated
