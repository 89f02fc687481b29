import Mathlib.Data.List.GetD
import Mathlib.LinearAlgebra.Matrix.NonsingularInverse
import Articulated.Dense.SingularValues
import Articulated.Proofs.Dense.Combination

/-!
# Least squares by singular values

A singular value decomposition writes a matrix by two orthonormal families: the coordinates of a
vector with respect to the right family are stretched by the singular values and become coordinates
with respect to the left family. Where the threshold separates the zero singular values from all
others, the solution that is read off the decomposition is a least-squares solution, and the
shortest one. Numbers are exact here.

* `IsOrthonormal`: vectors of length one at right angles to each other.
* `SingularTriples.Decomposes`: what is asked of an exact decomposition of a matrix.
* `Dense.IsLeastSquares`: the normal equations hold, and nothing is spent on directions that the
  matrix takes to zero. `Dense.IsLeastSquares.least`: this is the least-squares solution of
  smallest norm.
* `SingularTriples.Decomposes.isLeastSquares`: what is read off a decomposition is of this kind.
* `SingularTriples.Decomposes.solve_again`: solving for what is left over changes nothing.
* `SingularTriples.Decomposes.injective`: a matrix of full column rank takes only zeros to zero.
-/

namespace Articulated

/-! ## 1. Inner products -/

namespace Scalar

theorem dot_cons (a b : ℝ) (u v : List ℝ) : dot (a :: u) (b :: v) = a * b + dot u v := by
  rw [dot_eq_sum, dot_eq_sum, List.zipWith_cons_cons, List.sum_cons]

theorem dot_comm : ∀ u v : List ℝ, dot u v = dot v u
  | [], [] | [], _ :: _ | _ :: _, [] => rfl
  | a :: u, b :: v => by rw [dot_cons, dot_cons, dot_comm u v, mul_comm a b]

theorem dot_plus : ∀ (u : List ℝ) {v w : List ℝ}, v.length = w.length →
    dot u (plus v w) = dot u v + dot u w
  | [], _, _, _ => (add_zero 0).symm
  | _ :: _, [], [], _ => (add_zero 0).symm
  | a :: u, b :: v, c :: w, h => by
    rw [plus_cons, dot_cons, dot_cons, dot_cons, dot_plus u (Nat.succ.inj h)]
    ring

theorem dot_map_mul (x : ℝ) : ∀ u v : List ℝ, dot u (v.map (x * ·)) = x * dot u v
  | [], _ | _ :: _, [] => (mul_zero x).symm
  | a :: u, b :: v => by
    rw [List.map_cons, dot_cons, dot_cons, dot_map_mul x u v]
    ring

theorem dot_map_neg : ∀ u v : List ℝ, dot u (v.map (- ·)) = - dot u v
  | [], _ | _ :: _, [] => neg_zero.symm
  | a :: u, b :: v => by
    rw [List.map_cons, dot_cons, dot_cons, dot_map_neg u v]
    ring

theorem dot_zeros (u : List ℝ) (n : Nat) : dot u (List.replicate n 0) = 0 := by
  have hzero := dot_map_mul 0 u (List.replicate n 0)
  rwa [List.map_replicate, zero_mul, zero_mul] at hzero

theorem normSq_cons (a : ℝ) (u : List ℝ) : normSq (a :: u) = a * a + normSq u := dot_cons a a u u

theorem normSq_nonneg : ∀ u : List ℝ, 0 ≤ normSq u
  | [] => le_refl 0
  | a :: u => by
    rw [normSq_cons]
    exact add_nonneg (mul_self_nonneg a) (normSq_nonneg u)

theorem normSq_zeros (n : Nat) : normSq (List.replicate n (0 : ℝ)) = 0 := dot_zeros _ n

theorem normSq_map_div (σ : ℝ) : ∀ u : List ℝ,
    normSq (u.map (· / σ)) = (u.map (· ^ 2)).sum / σ ^ 2
  | [] => (zero_div _).symm
  | a :: u => by
    rw [List.map_cons, normSq_cons, normSq_map_div σ u, List.map_cons, List.sum_cons, add_div,
      div_mul_div_comm, ← pow_two, ← pow_two]

/-- A vector of length zero has no other entries than zeros. -/
theorem eq_zeros_of_normSq : ∀ {u : List ℝ}, normSq u = 0 → u = List.replicate u.length 0
  | [], _ => rfl
  | a :: u, h => by
    rw [normSq_cons] at h
    obtain ⟨ha, hu⟩ := (add_eq_zero_iff_of_nonneg (mul_self_nonneg a) (normSq_nonneg u)).1 h
    rw [mul_self_eq_zero.1 ha, List.length_cons, List.replicate_succ, ← eq_zeros_of_normSq hu]

theorem normSq_plus {u v : List ℝ} (h : u.length = v.length) :
    normSq (plus u v) = normSq u + 2 * dot u v + normSq v := by
  unfold normSq
  rw [dot_plus _ h, dot_comm _ u, dot_comm _ v, dot_plus u h, dot_plus v h, dot_comm v u]
  ring

theorem plus_neg : ∀ u : List ℝ, plus u (u.map (- ·)) = List.replicate u.length 0
  | [] => rfl
  | a :: u => congrArg₂ List.cons (add_neg_cancel a) (plus_neg u)

/-- A vector is another one and the difference of both. -/
theorem plus_difference {u v : List ℝ} (h : u.length = v.length) :
    plus v (plus u (v.map (- ·))) = u := by
  rw [← plus_assoc, plus_comm v u, plus_assoc, plus_neg, ← h, plus_zeros]

/-- The inner product as a sum over places. -/
theorem dot_eq_finsum : ∀ {n : Nat} {u v : List ℝ}, u.length = n → v.length = n →
    dot u v = ∑ i : Fin n, u.getD i 0 * v.getD i 0
  | 0, [], [], _, _ => rfl
  | n + 1, a :: u, b :: v, hu, hv => by
    rw [dot_cons, Fin.sum_univ_succ, dot_eq_finsum (Nat.succ.inj hu) (Nat.succ.inj hv)]
    rfl

end Scalar

open Scalar

/-! ## 2. Orthonormal families -/

/-- Vectors of length one at right angles to each other. -/
structure IsOrthonormal {β : Type} (f : β → List ℝ) (l : List β) : Prop where
  unit : ∀ b ∈ l, dot (f b) (f b) = 1
  apart : l.Pairwise fun b c => dot (f b) (f c) = 0

section Families

variable {β : Type} {f : β → List ℝ} {l : List β} {n : Nat}

/-- The inner product with a combination. -/
theorem dot_combine_map (u : List ℝ) (x : β → ℝ) : ∀ {l : List β}, (∀ b ∈ l, (f b).length = n) →
    dot u (combine n (l.map f) (l.map x)) = (l.map fun b => x b * dot u (f b)).sum
  | [], _ => dot_zeros u n
  | b :: l, h => by
    obtain ⟨hb, hl⟩ := List.forall_mem_cons.1 h
    have hlength : ((f b).map (x b * ·)).length = (combine n (l.map f) (l.map x)).length := by
      rw [List.length_map, hb, length_combine (List.forall_mem_map.2 hl)]
    rw [List.map_cons, List.map_cons, combine, dot_plus u hlength, dot_map_mul,
      dot_combine_map u x hl, List.map_cons, List.sum_cons]

theorem map_neg_combine (x : β → ℝ) : ∀ l : List β,
    (combine n (l.map f) (l.map x)).map (- ·) = combine n (l.map f) (l.map fun b => - x b)
  | [] => by rw [List.map_nil, combine_nil_left, combine_nil_left, List.map_replicate, neg_zero]
  | b :: l => by
    have hplus : ∀ u v : List ℝ, (plus u v).map (- ·) = plus (u.map (- ·)) (v.map (- ·)) := by
      intro u v
      simpa only [neg_one_mul] using map_mul_plus (-1) u v
    have hscaled : ((f b).map (x b * ·)).map (- ·) = (f b).map (- x b * ·) := by
      rw [List.map_map]
      exact List.map_congr_left fun y _ => (neg_mul (x b) y).symm
    rw [List.map_cons, List.map_cons, List.map_cons, combine, combine, hplus, hscaled,
      map_neg_combine x l]

/-- In a sum over an orthonormal family only the term of the vector itself counts. -/
theorem IsOrthonormal.sum_eq (h : IsOrthonormal f l) (x : β → ℝ) {b : β} (hb : b ∈ l) :
    (l.map fun c => x c * dot (f b) (f c)).sum = x b := by
  obtain ⟨hunit, hapart⟩ := h
  induction l with
  | nil => exact absurd hb List.not_mem_nil
  | cons a l ih =>
    obtain ⟨hhead, hrest⟩ := List.pairwise_cons.1 hapart
    obtain ⟨ha, hl⟩ := List.forall_mem_cons.1 hunit
    rw [List.map_cons, List.sum_cons]
    rcases List.mem_cons.1 hb with rfl | hb
    · have hzero : (l.map fun c => x c * dot (f b) (f c)).sum = 0 := by
        refine List.sum_eq_zero (List.forall_mem_map.2 fun c hc => ?_)
        rw [hhead c hc, mul_zero]
      rw [ha, mul_one, hzero, add_zero]
    · rw [dot_comm (f b) (f a), hhead b hb, mul_zero, zero_add, ih hb hl hrest]

/-- The coordinates of a combination are its coefficients. -/
theorem IsOrthonormal.dot_combine (h : IsOrthonormal f l) (hlength : ∀ b ∈ l, (f b).length = n)
    (x : β → ℝ) {b : β} (hb : b ∈ l) : dot (f b) (combine n (l.map f) (l.map x)) = x b := by
  rw [dot_combine_map _ x hlength, h.sum_eq x hb]

/-- **As many orthonormal vectors as there are dimensions leave nothing out.** The family is a
square matrix with its transpose as a right inverse, which then is a left inverse too. -/
theorem IsOrthonormal.eq_zeros (h : IsOrthonormal f l) (hlength : ∀ b ∈ l, (f b).length = l.length)
    {u : List ℝ} (hu : u.length = l.length) (hzero : ∀ b ∈ l, dot (f b) u = 0) :
    u = List.replicate l.length 0 := by
  let a : Matrix (Fin l.length) (Fin l.length) ℝ := fun i j => (f l[i]).getD j 0
  let x : Fin l.length → ℝ := fun j => u.getD j 0
  have hmem : ∀ i : Fin l.length, l[i] ∈ l := fun i => List.getElem_mem i.isLt
  have hright : a * a.transpose = 1 := by
    ext i k
    have hentry : (a * a.transpose) i k = dot (f l[i]) (f l[k]) :=
      (dot_eq_finsum (hlength _ (hmem i)) (hlength _ (hmem k))).symm
    rw [hentry, Matrix.one_apply]
    by_cases hik : i = k
    · rw [if_pos hik, hik, h.unit _ (hmem k)]
    · rw [if_neg hik]
      rcases lt_or_gt_of_ne hik with hlt | hgt
      · exact List.pairwise_iff_getElem.1 h.apart i k i.isLt k.isLt hlt
      · rw [dot_comm]
        exact List.pairwise_iff_getElem.1 h.apart k i k.isLt i.isLt hgt
  have hkernel : a.mulVec x = 0 := by
    ext i
    exact (dot_eq_finsum (hlength _ (hmem i)) hu).symm.trans (hzero _ (hmem i))
  have hx : x = 0 := by
    rw [← Matrix.one_mulVec x, ← mul_eq_one_comm.1 hright, ← Matrix.mulVec_mulVec, hkernel,
      Matrix.mulVec_zero]
  refine List.ext_getElem (hu.trans List.length_replicate.symm) fun i hi _ => ?_
  have hentry := congrFun hx ⟨i, hu ▸ hi⟩
  rw [List.getElem_replicate]
  exact (List.getD_eq_getElem _ _ hi).symm.trans hentry

end Families

/-! ## 3. Decompositions -/

/-- An exact singular value decomposition: as many triples as the smaller side of the matrix,
orthonormal left vectors, orthonormal right vectors, and singular values that are not negative. The
matrix takes a vector to the left vectors, each with the coordinate of the right vector, stretched
by the singular value. -/
structure SingularTriples.Decomposes (s : SingularTriples ℝ) (m : Dense ℝ) : Prop where
  length_eq : s.length = min m.rows m.cols
  length_left : ∀ t ∈ s, t.left.length = m.rows
  length_right : ∀ t ∈ s, t.right.length = m.cols
  left : IsOrthonormal SingularTriple.left s
  right : IsOrthonormal SingularTriple.right s
  value_nonneg : ∀ t ∈ s, 0 ≤ t.value
  apply_eq : ∀ x, x.length = m.cols →
    m.apply x = combine m.rows (s.map (·.left)) (s.map fun t => t.value * dot t.right x)

/-- The singular values that are not zero lie above the threshold. -/
def SingularTriples.Separated (s : SingularTriples ℝ) (threshold : ℝ) : Prop :=
  0 ≤ threshold ∧ ∀ t ∈ s, t.value = 0 ∨ threshold < t.value

/-- The factorizations of which one decomposition is known and no definite system is solved. -/
@[reducible] def Factorization.knowing (s : SingularTriples ℝ) : Factorization ℝ where
  singular _ := s
  definite? _ _ := none

namespace SingularTriples

variable {s : SingularTriples ℝ} {m : Dense ℝ} {τ : ℝ} {n : Nat} {b : List ℝ}

/-- The part that a triple has in a solution: none if its value is not above the threshold. -/
noncomputable def coefficient (τ : ℝ) (b : List ℝ) (t : SingularTriple ℝ) : ℝ :=
  if τ < t.value then dot t.left b / t.value else 0

/-- A solution is summed up triple by triple. -/
theorem foldl_solve (τ : ℝ) (b : List ℝ) : ∀ {s : SingularTriples ℝ} {acc : List ℝ},
    (∀ t ∈ s, t.right.length = n) → acc.length = n →
      s.foldl (fun x t => if τ < t.value then axpy (dot t.left b / t.value) t.right x else x) acc =
        plus acc (combine n (s.map (·.right)) (s.map (coefficient τ b)))
  | [], _, _, hacc => (plus_zeros_of_length hacc).symm
  | t :: s, acc, hright, hacc => by
    obtain ⟨ht, hs⟩ := List.forall_mem_cons.1 hright
    have hstep : (if τ < t.value then axpy (dot t.left b / t.value) t.right acc else acc) =
        plus acc (t.right.map (coefficient τ b t * ·)) := by
      unfold coefficient
      split
      · rw [axpy, plus, List.zipWith_comm, List.zipWith_map_right]
      · rw [List.map_congr_left fun x _ => zero_mul x, List.map_const', ht,
          plus_zeros_of_length hacc]
    have hlength : acc.length = (t.right.map (coefficient τ b t * ·)).length := by
      rw [hacc, List.length_map, ht]
    rw [List.foldl_cons, hstep, foldl_solve τ b hs ((length_plus hlength).trans hacc),
      List.map_cons, List.map_cons, combine, plus_assoc]

/-- The solution as a combination of the right vectors. -/
theorem solve_eq (hright : ∀ t ∈ s, t.right.length = n) :
    s.solve τ b n = combine n (s.map (·.right)) (s.map (coefficient τ b)) := by
  rw [solve, foldl_solve τ b hright List.length_replicate, zeros_plus_of_length]
  exact length_combine (List.forall_mem_map.2 hright) _

theorem length_solve (hright : ∀ t ∈ s, t.right.length = n) : (s.solve τ b n).length = n := by
  rw [solve_eq hright, length_combine (List.forall_mem_map.2 hright)]

/-- The solution changes its sign with what it is solved for. -/
theorem map_neg_solve (hright : ∀ t ∈ s, t.right.length = n) :
    (s.solve τ b n).map (- ·) = s.solve τ (b.map (- ·)) n := by
  rw [solve_eq hright, solve_eq hright, map_neg_combine]
  refine congrArg (combine n _) (List.map_congr_left fun t _ => ?_)
  unfold coefficient
  rw [dot_map_neg]
  split
  · exact (neg_div _ _).symm
  · exact neg_zero

/-- There is nothing to solve for at right angles to the left vectors that count. -/
theorem solve_eq_zeros (hright : ∀ t ∈ s, t.right.length = n)
    (hb : ∀ t ∈ s, τ < t.value → dot t.left b = 0) : s.solve τ b n = List.replicate n 0 := by
  have hcoefficients : s.map (coefficient τ b) = List.replicate s.length 0 := by
    rw [← List.map_const']
    refine List.map_congr_left fun t ht => ?_
    unfold coefficient
    split
    · rename_i hvalue
      rw [hb t ht hvalue, zero_div]
    · rfl
  rw [solve_eq hright, hcoefficients, combine_replicate_zero (List.forall_mem_map.2 hright)]

namespace Decomposes

variable (h : s.Decomposes m)

include h

theorem dot_left_apply {t : SingularTriple ℝ} (ht : t ∈ s) {x : List ℝ} (hx : x.length = m.cols) :
    dot t.left (m.apply x) = t.value * dot t.right x := by
  rw [h.apply_eq x hx]
  exact h.left.dot_combine h.length_left (fun t => t.value * dot t.right x) ht

/-- The inner product of a vector with what the matrix makes of another one. -/
theorem dot_apply (u : List ℝ) {x : List ℝ} (hx : x.length = m.cols) :
    dot u (m.apply x) = (s.map fun t => t.value * dot t.right x * dot u t.left).sum := by
  rw [h.apply_eq x hx]
  exact dot_combine_map u (fun t => t.value * dot t.right x) h.length_left

end Decomposes

end SingularTriples

/-! ## 4. Least squares -/

/-- What is left over of `r` is at right angles to everything that the matrix reaches, and `d` is at
right angles to everything that the matrix takes to zero. -/
structure Dense.IsLeastSquares (m : Dense ℝ) (r d : List ℝ) : Prop where
  length_eq : d.length = m.cols
  normal : ∀ x, x.length = m.cols → dot (plus r (m.apply d)) (m.apply x) = 0
  shortest : ∀ x, x.length = m.cols → m.apply x = List.replicate m.rows 0 → dot d x = 0

/-- A matrix is additive. -/
theorem Dense.HasCols.apply_plus {m : Dense ℝ} (hm : m.HasCols m.cols) {x y : List ℝ}
    (hx : x.length = m.cols) (hy : y.length = m.cols) :
    m.apply (plus x y) = plus (m.apply x) (m.apply y) := by
  rw [apply_eq_combine hm.haveHeight, apply_eq_combine hm.haveHeight,
    apply_eq_combine hm.haveHeight]
  exact combine_plus hx hy

/-- **The least-squares solution of smallest norm.** No other vector leaves less over. One that
leaves as little over differs by something that the matrix takes to zero and is not shorter, and if
it is as short it is the same. -/
theorem Dense.IsLeastSquares.least {m : Dense ℝ} {r d : List ℝ} (h : m.IsLeastSquares r d)
    (hm : m.HasCols m.cols) (hr : r.length = m.rows) {d' : List ℝ} (hd' : d'.length = m.cols) :
    normSq (plus r (m.apply d)) ≤ normSq (plus r (m.apply d')) ∧
      (normSq (plus r (m.apply d')) = normSq (plus r (m.apply d)) →
        m.apply (plus d' (d.map (- ·))) = List.replicate m.rows 0 ∧ normSq d ≤ normSq d' ∧
          (normSq d' = normSq d → d' = d)) := by
  have hd := h.length_eq
  let x := plus d' (d.map (- ·))
  have hx : x.length = m.cols := by
    rw [length_plus, hd']
    rw [hd', List.length_map, hd]
  have hsum : d' = plus d x := (plus_difference (hd'.trans hd.symm)).symm
  have hrest : (plus r (m.apply d)).length = m.rows := by
    rw [length_plus, hr]
    rw [hr, hm.length_apply]
  have hsplit : normSq (plus r (m.apply d')) =
      normSq (plus r (m.apply d)) + normSq (m.apply x) := by
    rw [hsum, hm.apply_plus hd hx, ← plus_assoc, normSq_plus, h.normal x hx, mul_zero, add_zero]
    rw [hrest, hm.length_apply]
  refine ⟨hsplit ▸ le_add_of_nonneg_right (normSq_nonneg _), fun heq => ?_⟩
  have hzero : m.apply x = List.replicate m.rows 0 := by
    have hx := eq_zeros_of_normSq (left_eq_add.1 (heq.symm.trans hsplit))
    rwa [hm.length_apply] at hx
  have hlength : normSq d' = normSq d + normSq x := by
    rw [hsum, normSq_plus (hd.trans hx.symm), h.shortest x hx hzero, mul_zero, add_zero]
  refine ⟨hzero, hlength ▸ le_add_of_nonneg_right (normSq_nonneg _), fun heq => ?_⟩
  have hx0 := eq_zeros_of_normSq (left_eq_add.1 (heq.symm.trans hlength))
  rw [hsum, hx0, plus_zeros_of_length (hd.trans hx.symm)]

namespace SingularTriples.Decomposes

variable {s : SingularTriples ℝ} {m : Dense ℝ} {τ : ℝ} {r d : List ℝ} (h : s.Decomposes m)

include h

/-- The coordinates of a solution with respect to the right vectors. -/
theorem dot_right_solve (τ : ℝ) (b : List ℝ) {t : SingularTriple ℝ} (ht : t ∈ s) :
    dot t.right (s.solve τ b m.cols) = coefficient τ b t := by
  rw [solve_eq h.length_right]
  exact h.right.dot_combine h.length_right (coefficient τ b) ht

/-- **What is read off a decomposition is the least-squares solution of smallest norm**, if the
threshold lies below all singular values but zero. -/
theorem isLeastSquares (hτ : s.Separated τ) (hm : m.HasCols m.cols) (hr : r.length = m.rows) :
    m.IsLeastSquares r (s.solve τ (r.map (- ·)) m.cols) := by
  obtain ⟨hnonneg, hgap⟩ := hτ
  have hd := length_solve (τ := τ) (b := r.map (- ·)) h.length_right
  refine ⟨hd, fun x hx => ?_, fun x hx hzero => ?_⟩
  · -- term by term: the singular value is zero, or the left vector is not left over
    rw [h.dot_apply _ hx]
    refine List.sum_eq_zero (List.forall_mem_map.2 fun t ht => ?_)
    rcases hgap t ht with hvalue | hvalue
    · rw [hvalue, zero_mul, zero_mul]
    · have hne : t.value ≠ 0 := ne_of_gt (lt_of_le_of_lt hnonneg hvalue)
      have hleft : dot t.left (plus r (m.apply (s.solve τ (r.map (- ·)) m.cols))) = 0 := by
        rw [dot_plus _ (hr.trans (hm.length_apply _).symm), h.dot_left_apply ht hd,
          h.dot_right_solve τ _ ht, coefficient, if_pos hvalue, dot_map_neg,
          mul_div_cancel₀ _ hne, add_neg_cancel]
      rw [dot_comm _ t.left, hleft, mul_zero]
  · rw [solve_eq h.length_right, dot_comm]
    refine (dot_combine_map x _ h.length_right).trans
      (List.sum_eq_zero (List.forall_mem_map.2 fun t ht => ?_))
    unfold coefficient
    split
    · rename_i hvalue
      have hne : t.value ≠ 0 := ne_of_gt (lt_of_le_of_lt hnonneg hvalue)
      have hright := h.dot_left_apply ht hx
      rw [hzero, dot_zeros, dot_comm] at hright
      rw [(mul_eq_zero.1 hright.symm).resolve_left hne, mul_zero]
    · exact zero_mul _

/-- **Solving for what is left over changes nothing.** -/
theorem solve_again (hls : m.IsLeastSquares r d) (hτ : 0 ≤ τ) :
    s.solve τ ((plus r (m.apply d)).map (- ·)) m.cols = List.replicate m.cols 0 := by
  refine solve_eq_zeros h.length_right fun t ht hvalue => ?_
  have hne : t.value ≠ 0 := ne_of_gt (lt_of_le_of_lt hτ hvalue)
  have hnormal := hls.normal t.right (h.length_right t ht)
  have hterms : (s.map fun u =>
      u.value * dot u.right t.right * dot (plus r (m.apply d)) u.left) =
        s.map fun u => u.value * dot (plus r (m.apply d)) u.left * dot t.right u.right := by
    refine List.map_congr_left fun u _ => ?_
    rw [dot_comm u.right t.right]
    ring
  rw [h.dot_apply _ (h.length_right t ht), hterms, h.right.sum_eq
    (fun u => u.value * dot (plus r (m.apply d)) u.left) ht] at hnormal
  rw [dot_map_neg, dot_comm, (mul_eq_zero.1 hnormal).resolve_left hne, neg_zero]

/-- With as many singular values above the threshold as columns, all of them lie above it. -/
theorem separated_of_rank (hτ : 0 ≤ τ) (hrank : s.rank τ = m.cols) : s.Separated τ := by
  have hle : s.length ≤ m.cols := h.length_eq ▸ Nat.min_le_right _ _
  have hall := List.countP_eq_length.1 (Nat.le_antisymm List.countP_le_length (hrank ▸ hle))
  exact ⟨hτ, fun t ht => .inr (of_decide_eq_true (hall t ht))⟩

/-- **A matrix of full column rank takes only zeros to zero.** -/
theorem injective (hτ : 0 ≤ τ) (hrank : s.rank τ = m.cols) {x : List ℝ} (hx : x.length = m.cols)
    (hzero : m.apply x = List.replicate m.rows 0) : x = List.replicate m.cols 0 := by
  have hle : s.length ≤ m.cols := h.length_eq ▸ Nat.min_le_right _ _
  have hlength : s.length = m.cols :=
    Nat.le_antisymm hle (hrank ▸ List.countP_le_length)
  have hall := List.countP_eq_length.1 (hrank.trans hlength.symm)
  rw [← hlength] at hx ⊢
  refine h.right.eq_zeros (fun t ht => (h.length_right t ht).trans hlength.symm) hx fun t ht => ?_
  have hright := h.dot_left_apply ht (hx.trans hlength)
  rw [hzero, dot_zeros] at hright
  have hne : t.value ≠ 0 := ne_of_gt (lt_of_le_of_lt hτ (of_decide_eq_true (hall t ht)))
  exact (mul_eq_zero.1 hright.symm).resolve_left hne

end SingularTriples.Decomposes

end Articulated
