import Articulated.Proofs.Spatial.Motion

/-!
# Wrenches of motion in a plane

Three rows are made from an axis: two directions in the plane orthogonal to it, for the moments,
and its own direction, for the force. A wrench on which they vanish is one of motion in that plane:
its moment is along the axis and its force lies in the plane. Numbers are exact here.

The first direction in the plane is the vector product of the normal with a coordinate axis. The
coordinate axis is chosen by comparing coordinates, ties included, so that it is never parallel to
the normal.

* `Vec3.cross_cross`, `Vec3.normSq_cross`: products of vector products.
* `Vec3.eq_smul_of_orthogonal`: what is orthogonal to two directions at right angles is along their
  vector product.
* `normSq_cross_leastAligned_pos`: the chosen coordinate axis is not parallel to the normal.
* `planarRows_vanish_iff`: where the rows vanish.
* `planarRows_exact`: the rows are orthonormal and select exactly the wrenches of planar motion,
  whatever the length and the sign of the axis.
-/

namespace Articulated

/-! ## 1. Products of vectors -/

namespace Vec3

variable (a b c : Vec3 ℝ) (s : ℝ)

theorem dot_comm : a.dot b = b.dot a := by
  simp only [dot]
  ring

theorem dot_zero : a.dot 0 = 0 := by
  simp only [dot, zero_def]
  ring

theorem dot_smul : a.dot (s • b) = s * a.dot b := by
  simp only [dot, smul_def]
  ring

theorem normSq_smul : (s • a).normSq = s * s * a.normSq := by
  simp only [normSq, dot, smul_def]
  ring

theorem dot_cross_left : a.dot (a.cross b) = 0 := by
  simp only [dot, cross]
  ring

theorem dot_cross_right : b.dot (a.cross b) = 0 := by
  simp only [dot, cross]
  ring

/-- The expansion of a repeated vector product. -/
theorem cross_cross : a.cross (b.cross c) = a.dot c • b - a.dot b • c := by
  simp only [cross, dot, smul_def, sub_def, mk.injEq]
  refine ⟨?_, ?_, ?_⟩ <;> ring

/-- The squared area of a parallelogram. -/
theorem normSq_cross : (a.cross b).normSq = a.normSq * b.normSq - a.dot b * a.dot b := by
  simp only [normSq, dot, cross]
  ring

variable {a b c s}

/-- **What is orthogonal to a direction and to its vector product with a normal is along the
normal.** -/
theorem eq_smul_of_orthogonal {n u m : Vec3 ℝ} (hn : n.normSq = 1) (hu : u.normSq = 1)
    (hnu : n.dot u = 0) (hmu : m.dot u = 0) (hmw : m.dot (n.cross u) = 0) : m = m.dot n • n := by
  have hww : (n.cross u).normSq = 1 := by
    rw [normSq_cross, hn, hu, hnu]
    ring
  have hwn : (n.cross u).dot n = 0 := (dot_comm _ _).trans (dot_cross_left n u)
  -- `m` is found again from its vector products with the third direction
  have hmcross : m.cross (n.cross u) = -(m.dot n) • u := by
    rw [cross_cross, hmu]
    simp only [smul_def, sub_def]
    refine Vec3.ext ?_ ?_ ?_ <;> ring
  have hucross : (n.cross u).cross u = -n := by
    have hflip : (n.cross u).cross u = -(u.cross (n.cross u)) := by
      simp only [cross, neg_def]
      refine Vec3.ext ?_ ?_ ?_ <;> ring
    have huu : u.dot u = 1 := hu
    rw [hflip, cross_cross, huu, dot_comm u n, hnu]
    simp only [smul_def, sub_def, neg_def]
    refine Vec3.ext ?_ ?_ ?_ <;> ring
  have hback : (n.cross u).cross (m.cross (n.cross u)) = m := by
    have hself : (n.cross u).dot (n.cross u) = 1 := hww
    rw [cross_cross, hself, dot_comm _ m, hmw]
    simp only [smul_def, sub_def]
    refine Vec3.ext ?_ ?_ ?_ <;> ring
  calc m = (n.cross u).cross (-(m.dot n) • u) := by rw [← hmcross, hback]
    _ = -(m.dot n) • (n.cross u).cross u := by
      simp only [cross, smul_def]
      refine Vec3.ext ?_ ?_ ?_ <;> ring
    _ = m.dot n • n := by
      rw [hucross]
      simp only [smul_def, neg_def]
      refine Vec3.ext ?_ ?_ ?_ <;> ring

/-! ## 2. Lengths -/

theorem normSq_pos (ha : a ≠ 0) : 0 < a.normSq := by
  by_contra hpos
  exact ha (Rotation.eq_zero_of_normSq hpos)

theorem norm_pos (ha : a ≠ 0) : 0 < a.norm := Real.sqrt_pos.2 (normSq_pos ha)

theorem norm_mul_norm (ha : a ≠ 0) : a.norm * a.norm = a.normSq :=
  Real.mul_self_sqrt (normSq_pos ha).le

/-- A vector is its length times its direction. -/
theorem norm_smul_normalize (ha : a ≠ 0) : a.norm • a.normalize = a := by
  have hne := (norm_pos ha).ne'
  simp only [normalize, divBy, smul_def]
  exact Vec3.ext (mul_div_cancel₀ _ hne) (mul_div_cancel₀ _ hne) (mul_div_cancel₀ _ hne)

theorem smul_normalize (ha : a ≠ 0) (s : ℝ) : (s * a.norm) • a.normalize = s • a := by
  conv_rhs => rw [← norm_smul_normalize ha]
  simp only [smul_def, mul_assoc]

theorem dot_eq_norm_mul (ha : a ≠ 0) (b : Vec3 ℝ) : a.dot b = a.norm * a.normalize.dot b := by
  conv_lhs => rw [← norm_smul_normalize ha]
  rw [dot_comm, dot_smul, dot_comm]

/-- A direction has length one. -/
theorem normSq_normalize (ha : a ≠ 0) : a.normalize.normSq = 1 := by
  have hscale := normSq_smul a.normalize a.norm
  rw [norm_smul_normalize ha, norm_mul_norm ha] at hscale
  exact (mul_eq_left₀ (normSq_pos ha).ne').1 hscale.symm

theorem dot_normalize (ha : a ≠ 0) (hab : b.dot a = 0) : b.dot a.normalize = 0 := by
  rw [← norm_smul_normalize ha, dot_smul] at hab
  exact (mul_eq_zero.1 hab).resolve_left (norm_pos ha).ne'

end Vec3

/-! ## 3. The directions in the plane -/

section Plane

open Vec3

variable {n axis : Vec3 ℝ}

/-- **The coordinate axis that is chosen is not parallel to the normal.** The coordinate of the
normal along it is one of the smaller ones, so the other two cannot both vanish. -/
theorem normSq_cross_leastAligned_pos (hn : n ≠ 0) : 0 < (n.cross (leastAligned n)).normSq := by
  have hcoordinates : ∀ {x y z : ℝ}, |x| ≤ |y| → x * x + y * y + z * z ≠ 0 →
      0 < y * y + z * z := by
    intro x y z hxy hne
    have hsq := mul_self_le_mul_self (abs_nonneg x) hxy
    rw [abs_mul_abs_self, abs_mul_abs_self] at hsq
    refine lt_of_le_of_ne (add_nonneg (mul_self_nonneg y) (mul_self_nonneg z)) fun hzero => hne ?_
    nlinarith [mul_self_nonneg x, mul_self_nonneg y, mul_self_nonneg z]
  have hpos := (normSq_pos hn).ne'
  simp only [normSq, dot] at hpos
  unfold leastAligned
  split
  · rename_i hx
    have hcross := hcoordinates hx.1 hpos
    simp only [normSq, dot, cross, unitX]
    linarith
  · split
    · rename_i hy
      have hcross := hcoordinates (x := n.y) (y := n.z) (z := n.x) hy fun hzero =>
        hpos (by linarith)
      simp only [normSq, dot, cross, unitY]
      linarith
    · rename_i hz
      have hcross := hcoordinates (x := n.z) (y := n.y) (z := n.x) (not_le.1 hz).le fun hzero =>
        hpos (by linarith)
      simp only [normSq, dot, cross, unitZ]
      linarith

/-- The rows of an axis: a direction in the plane and the one at right angles to it, for the
moments, and the direction of the axis, for the force. -/
theorem planarRows_eq (haxis : axis ≠ 0) : ∃ u : Vec3 ℝ, u.normSq = 1 ∧ axis.normalize.dot u = 0 ∧
    planarRows axis = [⟨u, 0⟩, ⟨axis.normalize.cross u, 0⟩, ⟨0, axis.normalize⟩] := by
  have hunit := normSq_normalize haxis
  have hnormal : axis.normalize ≠ 0 := fun hzero => by
    rw [hzero] at hunit
    simp [normSq, dot, zero_def] at hunit
  have hcross : axis.normalize.cross (leastAligned axis.normalize) ≠ 0 := fun hzero => by
    have hpos := normSq_cross_leastAligned_pos hnormal
    rw [hzero] at hpos
    simp [normSq, dot, zero_def] at hpos
  exact ⟨(axis.normalize.cross (leastAligned axis.normalize)).normalize, normSq_normalize hcross,
    dot_normalize hcross (dot_cross_left _ _), rfl⟩

end Plane

/-! ## 4. What the rows select -/

/-- The rows of the axis vanish on the wrench. -/
def SpatialVector.IsPlanar (axis : Vec3 ℝ) (w : SpatialVector ℝ) : Prop :=
  ∀ row ∈ planarRows axis, row.dot w = 0

section Selection

open Vec3

variable {n u axis : Vec3 ℝ}

theorem dot_moment (a : Vec3 ℝ) (w : SpatialVector ℝ) :
    (⟨a, 0⟩ : SpatialVector ℝ).dot w = w.angular.dot a := by
  simp only [SpatialVector.dot, dot, zero_def]
  ring

theorem dot_force (a : Vec3 ℝ) (w : SpatialVector ℝ) :
    (⟨0, a⟩ : SpatialVector ℝ).dot w = a.dot w.linear := by
  simp only [SpatialVector.dot, dot, zero_def]
  ring

/-- Moments about two directions at right angles and the force along their common normal are
orthonormal. -/
theorem rows_orthonormal (hn : n.normSq = 1) (hu : u.normSq = 1) (hnu : n.dot u = 0) :
    (∀ a ∈ [⟨u, 0⟩, ⟨n.cross u, 0⟩, (⟨0, n⟩ : SpatialVector ℝ)], a.dot a = 1) ∧
      [⟨u, 0⟩, ⟨n.cross u, 0⟩, (⟨0, n⟩ : SpatialVector ℝ)].Pairwise fun a b => a.dot b = 0 := by
  have hw : (n.cross u).normSq = 1 := by
    rw [normSq_cross, hn, hu, hnu]
    ring
  have hwu : (n.cross u).dot u = 0 := (dot_comm _ _).trans (dot_cross_right n u)
  have hzero : ∀ a : Vec3 ℝ, (0 : Vec3 ℝ).dot a = 0 := fun a => (dot_comm _ _).trans (dot_zero a)
  simp only [List.forall_mem_cons, List.pairwise_cons, dot_moment, dot_force]
  exact ⟨⟨hu, hw, hn, nofun⟩, ⟨hwu, hzero u, nofun⟩, ⟨hzero _, nofun⟩, nofun, .nil⟩

/-- **The rows vanish exactly on the wrenches of motion in the plane.** -/
theorem isPlanar_iff (haxis : axis ≠ 0) (w : SpatialVector ℝ) :
    w.IsPlanar axis ↔ (∃ s : ℝ, w.angular = s • axis.normalize) ∧
      axis.normalize.dot w.linear = 0 := by
  obtain ⟨u, hu, hnu, hrows⟩ := planarRows_eq haxis
  have hn := normSq_normalize haxis
  simp only [SpatialVector.IsPlanar, hrows, List.forall_mem_cons, dot_moment, dot_force]
  constructor
  · intro h
    obtain ⟨hmu, hmw, hforce, -⟩ := h
    exact ⟨⟨_, eq_smul_of_orthogonal hn hu hnu hmu hmw⟩, hforce⟩
  · intro h
    obtain ⟨⟨s, hmoment⟩, hforce⟩ := h
    refine ⟨?_, ?_, hforce, nofun⟩
    · rw [hmoment, dot_comm, dot_smul, dot_comm, hnu, mul_zero]
    · rw [hmoment, dot_comm, dot_smul, dot_comm, dot_cross_left, mul_zero]

/-- The same in terms of the axis itself, of any length. -/
theorem isPlanar_iff_axis (haxis : axis ≠ 0) (w : SpatialVector ℝ) :
    w.IsPlanar axis ↔ (∃ s : ℝ, w.angular = s • axis) ∧ axis.dot w.linear = 0 := by
  have hnorm := (norm_pos haxis).ne'
  rw [isPlanar_iff haxis, dot_eq_norm_mul haxis, mul_eq_zero, or_iff_right hnorm]
  refine and_congr_left' ⟨fun h => ?_, fun h => ?_⟩
  · obtain ⟨s, hs⟩ := h
    exact ⟨s / axis.norm, by rw [hs, ← smul_normalize haxis, div_mul_cancel₀ _ hnorm]⟩
  · obtain ⟨s, hs⟩ := h
    exact ⟨s * axis.norm, by rw [hs, smul_normalize haxis]⟩

/-- Only the line of the axis counts. -/
theorem isPlanar_smul_iff (haxis : axis ≠ 0) {c : ℝ} (hc : c ≠ 0) (w : SpatialVector ℝ) :
    w.IsPlanar (c • axis) ↔ w.IsPlanar axis := by
  have hscaled : c • axis ≠ 0 := fun hzero => by
    have hnorm := normSq_smul axis c
    have hnone : (0 : Vec3 ℝ).normSq = 0 := dot_zero 0
    rw [hzero, hnone] at hnorm
    exact mul_ne_zero (mul_self_ne_zero.2 hc) (normSq_pos haxis).ne' hnorm.symm
  have hdot : (c • axis).dot w.linear = c * axis.dot w.linear := by
    rw [dot_comm, dot_smul, dot_comm]
  rw [isPlanar_iff_axis hscaled, isPlanar_iff_axis haxis, hdot, mul_eq_zero, or_iff_right hc]
  refine and_congr_left' ⟨fun h => ?_, fun h => ?_⟩
  · obtain ⟨s, hs⟩ := h
    refine ⟨s * c, ?_⟩
    rw [hs]
    simp only [smul_def, mul_assoc]
  · obtain ⟨s, hs⟩ := h
    refine ⟨s / c, ?_⟩
    rw [hs]
    simp only [smul_def, ← mul_assoc, div_mul_cancel₀ _ hc]

/-- **The rows of an axis are exact.** For every axis that is not zero there are three of them, and
they are orthonormal. A wrench on which they vanish has its moment along the unit normal and its
force orthogonal to it, and every such wrench is one. The length and the sign of the axis do not
count. -/
theorem planarRows_exact (haxis : axis ≠ 0) :
    (axis.normalize.normSq = 1 ∧ 0 < axis.norm ∧ axis.norm • axis.normalize = axis) ∧
    ((planarRows axis).length = 3 ∧ (∀ a ∈ planarRows axis, a.dot a = 1) ∧
      (planarRows axis).Pairwise fun a b => a.dot b = 0) ∧
    (∀ w : SpatialVector ℝ, w.IsPlanar axis ↔
      (∃ s : ℝ, w.angular = s • axis.normalize) ∧ axis.normalize.dot w.linear = 0) ∧
    ∀ c : ℝ, c ≠ 0 → ∀ w : SpatialVector ℝ, w.IsPlanar (c • axis) ↔ w.IsPlanar axis := by
  have hunit := normSq_normalize haxis
  obtain ⟨u, hu, hnu, hrows⟩ := planarRows_eq haxis
  refine ⟨⟨hunit, norm_pos haxis, norm_smul_normalize haxis⟩, ⟨rfl, ?_⟩, isPlanar_iff haxis,
    fun c hc => isPlanar_smul_iff haxis hc⟩
  rw [hrows]
  exact rows_orthonormal hunit hu hnu

/-- An axis with coordinates of one size, where every comparison is a tie. -/
theorem planarRows_exact_diagonal :
    let axis : Vec3 ℝ := ⟨1, -1, 1⟩
    let wrench : SpatialVector ℝ := ⟨⟨2, -2, 2⟩, ⟨1, 3, 2⟩⟩
    axis ≠ 0 ∧ wrench.IsPlanar axis ∧ wrench.IsPlanar ((-3 : ℝ) • axis) ∧
      ¬ (⟨0, axis⟩ : SpatialVector ℝ).IsPlanar axis ∧
      (planarRows axis).Pairwise fun a b => a.dot b = 0 := by
  intro axis wrench
  have haxis : axis ≠ 0 := fun hzero => one_ne_zero (congrArg Vec3.x hzero)
  obtain ⟨⟨-, hnorm, -⟩, ⟨-, -, hpairwise⟩, hplanar, hmultiple⟩ := planarRows_exact haxis
  have hwrench : wrench.IsPlanar axis := by
    refine (hplanar wrench).2 ⟨⟨2 * axis.norm, ?_⟩, ?_⟩
    · rw [smul_normalize haxis]
      refine Vec3.ext ?_ ?_ ?_ <;> norm_num [wrench, axis, smul_def]
    · refine (mul_eq_zero.1 ((dot_eq_norm_mul haxis _).symm.trans ?_)).resolve_left hnorm.ne'
      norm_num [wrench, axis, dot]
  refine ⟨haxis, hwrench, (hmultiple (-3) (by norm_num) wrench).2 hwrench, fun hforce => ?_,
    hpairwise⟩
  have hself := dot_eq_norm_mul haxis axis
  rw [((hplanar _).1 hforce).2, mul_zero] at hself
  norm_num [axis, dot] at hself

end Selection

end Articulated
