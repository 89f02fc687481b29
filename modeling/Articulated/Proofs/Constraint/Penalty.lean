import Articulated.Proofs.Number.Exact
import Articulated.Proofs.Constraint.Projection
import Articulated.Proofs.Factor.Kinds
import Articulated.Proofs.Solver.FullStep
import Articulated.Proofs.Solver.Report

/-!
# Constraints as costs

Taken as costs, constraints are weighed by one standard deviation, and the noise of their factors
has no part in it. So the error of the costs is the sum of the squares of all rows up to a factor,
and it bounds every single row: where an optimization ends with an error that is small against the
tolerances, the constraints hold. Numbers are exact here.

* `Constraints.error_asCosts`: the error of the costs, and `Constraints.evaluate_of_error`: where
  they have one.
* `Constraints.compliant_of_squares`: a sum of squares within the tolerances.
* `asCosts_bounds_violation`: what a retraction by optimization may conclude from its last error.
-/

namespace Articulated

open Scalar

/-! ## 1. The error of the costs -/

namespace Constraint

variable {q : Constraint ℝ} {vs : Values ℝ} {r : List ℝ} {σ : ℝ}

/-- The cost of a constraint weighs every row alike. -/
theorem whitened_penalty (hr : q.factor.residual vs = .ok r) (hlength : r.length = q.dim) :
    (q.penalty σ).whitened vs = .ok (r.map (· / σ)) :=
  bind_eq_ok.2 ⟨r, hr, Factor.whiten_isotropic hlength σ⟩

end Constraint

namespace Constraints

variable {cs : Constraints ℝ} {vs : Values ℝ} {rows : List ℝ} {σ e : ℝ}

/-- All residuals evaluate, each with the number of rows that its factor has. -/
def Evaluate (cs : Constraints ℝ) (vs : Values ℝ) : Prop :=
  ∀ q ∈ cs.items, ∃ r, q.factor.residual vs = .ok r ∧ r.length = q.dim

/-- **The error of the costs is the sum of the squares of all rows, up to a factor.** -/
theorem error_asCosts [Runtime ℝ] (h : cs.Evaluate vs) (σ : ℝ) : ∃ rows, cs.rows vs = .ok rows ∧
    (cs.asCosts σ).error vs = .ok ((rows.map (· ^ 2)).sum / (2 * σ ^ 2)) := by
  obtain ⟨rs, hrs⟩ := exists_forall₂ h
  have hrows : cs.items.mapM (·.factor.residual vs) = .ok rs :=
    mapM_eq_ok.2 (hrs.imp fun _ _ hr => hr.1)
  have hwhitened : (cs.asCosts σ).factors.mapM (·.whitened vs) =
      .ok (rs.map fun r => r.map (· / σ)) := by
    refine mapM_eq_ok.2 (List.forall₂_map_left_iff.2 (List.forall₂_map_right_iff.2 ?_))
    exact hrs.imp fun q r hr => Constraint.whitened_penalty hr.1 hr.2
  refine ⟨rs.flatten, map_eq_ok.2 ⟨rs, hrows, rfl⟩, FactorGraph.error_eq_ok.2 ⟨_, hwhitened, ?_⟩⟩
  rw [← List.map_flatten, normSq_map_div, half]
  ring

/-- Where the costs have an error, all constraints evaluate. -/
theorem evaluate_of_error [Runtime ℝ] (h : (cs.asCosts σ).error vs = .ok e) : cs.Evaluate vs := by
  obtain ⟨rows, hrows, -⟩ := FactorGraph.error_eq_ok.1 h
  intro q hq
  obtain ⟨ys, -, hys⟩ := exists_answer (mapM_eq_ok.1 hrows) (List.mem_map_of_mem hq)
  obtain ⟨r, hr, hwhiten⟩ := bind_eq_ok.1 hys
  unfold Noise.whiten at hwhiten
  split at hwhiten
  · rename_i hlength
    exact ⟨r, hr, hlength.trans List.length_replicate⟩
  · cases hwhiten

/-! ## 2. Tolerances -/

theorem sq_le_sum_squares {x : ℝ} (hx : x ∈ rows) : x ^ 2 ≤ (rows.map (· ^ 2)).sum :=
  List.single_le_sum (List.forall_mem_map.2 fun y _ => sq_nonneg y) _ (List.mem_map_of_mem hx)

/-- If the sum of the squares of all rows is within every tolerance, so is every row. -/
theorem compliant_of_squares (hrows : cs.rows vs = .ok rows)
    (htolerance : ∀ q ∈ cs.items,
      0 ≤ q.tolerance ∧ (rows.map (· ^ 2)).sum ≤ q.tolerance ^ 2) :
    cs.compliant vs = .ok true := by
  obtain ⟨-, converged, -, hconverged, hiff⟩ := exists_compliant hrows
  rw [hconverged, hiff.2 fun q hq => ?_]
  obtain ⟨r, hr, hmem⟩ := exists_residual hrows hq
  obtain ⟨hnonneg, hsum⟩ := htolerance q hq
  refine Constraint.compliant_eq_true_iff.2 ⟨r, hr, hnonneg, fun x hx _ => ?_⟩
  exact abs_le_of_sq_le_sq ((sq_le_sum_squares (hmem x hx)).trans hsum) hnonneg

/-- The largest violation is one of the rows. -/
theorem largestViolation_sq_le (hrows : cs.rows vs = .ok rows) {m : ℝ}
    (hm : cs.largestViolation vs = .ok m) : m ^ 2 ≤ (rows.map (· ^ 2)).sum := by
  have hnonneg : 0 ≤ m := ((largestViolation_le_iff hm).1 (le_refl m)).1
  have hsum : 0 ≤ (rows.map (· ^ 2)).sum :=
    List.sum_nonneg (List.forall_mem_map.2 fun x _ => sq_nonneg x)
  refine (Real.le_sqrt hnonneg hsum).1
    ((largestViolation_le_iff hm).2 ⟨Real.sqrt_nonneg _, ?_⟩)
  intro q hq y hy
  obtain ⟨r, hr, rfl⟩ := Constraint.violation_eq_ok.1 hy
  obtain ⟨r', hr', hmem⟩ := exists_residual hrows hq
  obtain rfl := answer_unique hr hr'
  refine (maxAbs_le_iff r).2 ⟨Real.sqrt_nonneg _, fun x hx _ => ?_⟩
  exact Real.abs_le_sqrt (sq_le_sum_squares (hmem x hx))

end Constraints

/-! ## 3. Optimizing -/

/-- **Costs bound violations.** The error of the costs is the sum of the squares of all rows over
twice the squared standard deviation. So if an optimization ends with an error that is, times this
number, within the square of every tolerance, the retraction converges, and the square of its
largest violation is within the same bound. -/
theorem asCosts_bounds_violation [Factorization ℝ] [Runtime ℝ] {c : Component ℝ}
    {p : RetractParams ℝ} (hsigma : 0 < p.penaltySigma) :
    (∀ vs, c.constraints.Evaluate vs → ∃ rows, c.constraints.rows vs = .ok rows ∧
      (c.constraints.asCosts p.penaltySigma).error vs =
        .ok ((rows.map (· ^ 2)).sum / (2 * p.penaltySigma ^ 2))) ∧
    ∀ attempts vs s,
      optimize attempts (c.constraints.asCosts p.penaltySigma) vs p.optimizer = .ok s →
      (∀ q ∈ c.constraints.items,
        0 ≤ q.tolerance ∧ 2 * s.finalError * p.penaltySigma ^ 2 ≤ q.tolerance ^ 2) →
      ∃ out, retract attempts c .optimizing p vs = .ok out ∧ out.values = s.values ∧
        out.converged = true ∧
        out.largestViolation ^ 2 ≤ 2 * s.finalError * p.penaltySigma ^ 2 := by
  refine ⟨fun vs h => Constraints.error_asCosts h p.penaltySigma,
    fun attempts vs s hrun htolerance => ?_⟩
  have herror := (optimize_inStep hrun).2
  obtain ⟨rows, hrows, hsquares⟩ :=
    Constraints.error_asCosts (Constraints.evaluate_of_error herror) p.penaltySigma
  have hbound : 2 * s.finalError * p.penaltySigma ^ 2 = (rows.map (· ^ 2)).sum := by
    rw [answer_unique herror hsquares]
    field_simp
  rw [hbound] at htolerance ⊢
  have hcompliant := Constraints.compliant_of_squares hrows htolerance
  obtain ⟨m, -, hm, -⟩ := Constraints.exists_compliant hrows
  refine ⟨⟨s.values, true, s.iterations, m⟩, bind_eq_ok.2 ⟨s, hrun, ?_⟩, rfl, rfl,
    Constraints.largestViolation_sq_le hrows hm⟩
  exact bind_eq_ok.2 ⟨m, hm, map_eq_ok.2 ⟨true, hcompliant, rfl⟩⟩

/-- A scalar variable that is asked to have two values, with one tolerance. -/
noncomputable def tornPins (x y σ ρ tolerance : ℝ) : Constraints ℝ :=
  ⟨[⟨.scalarPrior ⟨0⟩ x σ, tolerance⟩, ⟨.scalarPrior ⟨0⟩ y ρ, tolerance⟩]⟩

/-- One full step on costs with the standard deviation one. -/
noncomputable def oneStep : RetractParams ℝ :=
  { RetractParams.default with
    penaltySigma := 1
    optimizer := { OptimizerParams.default with
      maxIterations := 1, absoluteTolerance := 0, rankTolerance := 0 } }

/-- The decomposition of the model of two equal rows of length one, with the root of two. -/
noncomputable def tornTriples (root : ℝ) : SingularTriples ℝ :=
  [⟨[1 / root, 1 / root], root, [1]⟩]

theorem fullStep_tornPins (ordering : List Key) (τ : ℝ) :
    @fullStep ℝ _ (.knowing (tornTriples √2))
      ⟨⟨2, [[1 / 1, 1 / 1]]⟩, [(0 - 1) / 1, (0 - 3) / 1], ordering, τ⟩ 0 = .ok [2] := by
  have hsquare : √2 * √2 = (2 : ℝ) := Real.mul_self_sqrt (by norm_num)
  have hstep : ((√2)⁻¹ + (√2)⁻¹ * 3) / √2 = 2 := by
    field_simp
    linear_combination -2 * hsquare
  have hrank : (tornTriples √2).rank 0 = 1 := by simp [SingularTriples.rank, tornTriples]
  rw [@fullStep_eq (.knowing (tornTriples √2)) _ _ rfl (le_refl 0) (by rw [mul_zero]; exact hrank),
    mul_zero]
  show Except.ok ((tornTriples √2).solve 0 _ 1) = _
  simp [SingularTriples.solve, tornTriples, axpy, dot, dot.go, hstep]

/-- From zero the step leads halfway, where the error is one. -/
theorem gaussNewton_tornPins {vs : Values ℝ} (h : vs.get? ⟨0⟩ = some (.scalar 0))
    (σ ρ tolerance e : ℝ) :
    ∃ last, @gaussNewton ℝ _ (.knowing (tornTriples √2)) _
      ((tornPins 1 3 σ ρ tolerance).asCosts 1) [⟨0⟩] oneStep.optimizer 1 ⟨vs, e, 0, false⟩ =
        .ok last ∧ last.error = 1 := by
  have hmove : vs.retract [⟨0⟩] [2] = .ok (vs.insert ⟨0⟩ (.scalar (0 + 2))) := by
    refine bind_eq_ok.2 ⟨_, Values.lookup_eq_ok.2 h, rfl⟩
  have hnext : (vs.insert ⟨0⟩ (.scalar (0 + 2))).get? ⟨0⟩ = some (.scalar (0 + 2)) :=
    (Values.get?_insert ..).trans (if_pos rfl)
  refine ⟨_, bind_eq_ok.2 ⟨_, jacobian_twoPriors h 0, bind_eq_ok.2 ⟨_, fullStep_tornPins _ _,
    bind_eq_ok.2 ⟨_, hmove, bind_eq_ok.2 ⟨_, error_twoPriors hnext, rfl⟩⟩⟩⟩, ?_⟩
  norm_num [normSq, dot, dot.go, half]

/-- A variable that should be one and three: halfway both constraints are within two. -/
theorem asCosts_bounds_violation_tornPins :
    let cs := tornPins 1 3 5 7 2
    let vs : Values ℝ := Values.empty.insert ⟨0⟩ (.scalar 0)
    (0 < oneStep.penaltySigma ∧ cs.Evaluate vs) ∧
      ∃ s out, @optimize ℝ _ (.knowing (tornTriples √2)) _ 0 (cs.asCosts oneStep.penaltySigma) vs
          oneStep.optimizer = .ok s ∧ s.finalError = 1 ∧
        @retract ℝ _ (.knowing (tornTriples √2)) _ 0 (.ofConstraints cs) .optimizing oneStep vs =
          .ok out ∧ out.values = s.values ∧ out.converged = true ∧
        out.largestViolation ^ 2 ≤ 2 := by
  intro cs vs
  have hvs : vs.get? ⟨0⟩ = some (.scalar 0) := (Values.get?_insert ..).trans (if_pos rfl)
  obtain ⟨e, he, hfar⟩ : ∃ e, (cs.asCosts 1).error vs = .ok e ∧ decide (e ≤ 0) = false :=
    ⟨_, error_twoPriors hvs, decide_eq_false (by norm_num [normSq, dot, dot.go, half])⟩
  obtain ⟨last, hrun, hlast⟩ := gaussNewton_tornPins hvs 5 7 2 e
  have hsolution : @optimize ℝ _ (.knowing (tornTriples √2)) _ 0 (cs.asCosts oneStep.penaltySigma)
      vs oneStep.optimizer =
        .ok ⟨last.values, last.iterations, e, last.error, last.converged⟩ := by
    rw [← hfar] at hrun
    exact bind_eq_ok.2 ⟨(), rfl, bind_eq_ok.2 ⟨e, he, map_eq_ok.2 ⟨last, hrun, rfl⟩⟩⟩
  have hsigma : 0 < oneStep.penaltySigma := zero_lt_one
  obtain ⟨-, hretract⟩ :=
    @asCosts_bounds_violation (.knowing (tornTriples √2)) _ (.ofConstraints cs) oneStep hsigma
  have hbound : 2 * last.error * oneStep.penaltySigma ^ 2 = 2 := by
    rw [hlast]
    norm_num [oneStep]
  have htolerance : ∀ q ∈ cs.items, 0 ≤ q.tolerance ∧
      2 * last.error * oneStep.penaltySigma ^ 2 ≤ q.tolerance ^ 2 := by
    rw [hbound]
    simp only [cs, tornPins, List.forall_mem_cons, List.not_mem_nil, false_implies, implies_true]
    norm_num
  obtain ⟨out, hout, hvalues, hconverged, hviolation⟩ := hretract 0 vs _ hsolution htolerance
  exact ⟨⟨hsigma, Constraints.evaluate_of_error he⟩, _, out, hsolution, hlast, hout, hvalues,
    hconverged, hviolation.trans hbound.le⟩

end Articulated
