import Articulated.Proofs.Graph.LeastStep
import Articulated.Proofs.Number.Comparison
import Articulated.Solver.Optimize

/-!
# Full steps on affine graphs

A graph of affine factors whose linear model determines the step is solved by the first full step.
It leads to the only minimizer of the error; a second step is zero, its decrease is zero, and this
is small enough to stop for any tolerances. Numbers and the singular value decomposition are exact
here.

* `gaussNewton_step`, `fullStep_eq`, `OptimizerParams.stops_self`: one iteration.
* `FactorGraph.HasForms.minimizes`: after the step the error is the least, and it is reached nowhere
  else.
* `optimize_affine`: what the optimizer does.
-/

namespace Articulated

open Scalar Values

/-! ## 1. One iteration -/

section Iterations

variable {α : Type} [Scalar α] [Factorization α] [Runtime α] {g : FactorGraph α}
  {ordering : List Key} {p : OptimizerParams α}

theorem gaussNewton_converged {s : Progress α} (h : s.converged = true) :
    ∀ budget, gaussNewton g ordering p budget s = .ok s
  | 0 => rfl
  | budget + 1 => by
    rw [gaussNewton, if_pos h]
    rfl

theorem gaussNewton_step {vs next : Values α} {before after : α} {j : Jacobian α} {d : List α}
    (hj : g.jacobian vs ordering p.rankTolerance = .ok j)
    (hd : fullStep j p.rankTolerance = .ok d) (hnext : vs.retract ordering d = .ok next)
    (hafter : g.error next = .ok after) (budget n : Nat) :
    gaussNewton g ordering p (budget + 1) ⟨vs, before, n, false⟩ =
      gaussNewton g ordering p budget ⟨next, after, n + 1, p.stops before after⟩ := by
  rw [gaussNewton, if_neg Bool.false_ne_true, hj]
  show (fullStep j p.rankTolerance >>= _) = _
  rw [hd]
  show (vs.retract ordering d >>= _) = _
  rw [hnext]
  show (g.error next >>= _) = _
  rw [hafter]
  rfl

end Iterations

/-- The largest singular value is a number, it is not negative, and it is zero or one of the
values. -/
theorem SingularTriples.largest_spec {α : Type} [Scalar α] [LawfulScalar α]
    (s : SingularTriples α) : IsNumber s.largest ∧ 0 ≤ s.largest ∧
      (s.largest = 0 ∨ ∃ t ∈ s, s.largest = t.value) := by
  have hfold : ∀ {s : SingularTriples α} {m : α}, IsNumber m → 0 ≤ m →
      IsNumber (s.foldl (fun m t => maxNum m t.value) m) ∧
        0 ≤ s.foldl (fun m t => maxNum m t.value) m ∧
        (s.foldl (fun m t => maxNum m t.value) m = m ∨
          ∃ t ∈ s, s.foldl (fun m t => maxNum m t.value) m = t.value) := by
    intro s
    induction s with
    | nil => exact fun hm hm' => ⟨hm, hm', .inl rfl⟩
    | cons t s ih =>
      intro m hm hm'
      have hnumber := isNumber_maxNum hm t.value
      have hle := ((maxNum_le_iff hm).1 (le_refl_of_isNumber hnumber)).1
      obtain ⟨hlargest, hnonneg, hone⟩ := ih hnumber (LawfulScalar.le_trans hm' hle)
      refine ⟨hlargest, hnonneg, ?_⟩
      rcases hone with heq | ⟨t', ht', heq⟩
      · rw [List.foldl_cons, heq]
        exact (maxNum_eq_or hm t.value).imp_right fun h => ⟨t, List.mem_cons_self, h⟩
      · exact .inr ⟨t', List.mem_cons_of_mem t ht', heq⟩
  exact hfold LawfulScalar.isNumber_zero (le_refl_of_isNumber LawfulScalar.isNumber_zero)

theorem SingularTriples.largest_nonneg {α : Type} [Scalar α] [LawfulScalar α]
    (s : SingularTriples α) : 0 ≤ s.largest := s.largest_spec.2.1

/-- **A linear model that determines the step is solved.** -/
theorem fullStep_eq [Factorization ℝ] {m : Dense ℝ} {tolerance : ℝ} (hm : m.isEmpty = false)
    (htolerance : 0 ≤ tolerance)
    (hrank : (Factorization.singular m).rank ((Factorization.singular m).largest * tolerance) =
      m.cols) (residual : List ℝ) (ordering : List Key) (τ : ℝ) :
    fullStep ⟨m, residual, ordering, τ⟩ tolerance =
      .ok ((Factorization.singular m).solve ((Factorization.singular m).largest * tolerance)
        (residual.map (- ·)) m.cols) := by
  have hthreshold := mul_nonneg (Factorization.singular m).largest_nonneg htolerance
  unfold fullStep
  rw [if_neg (by rw [hm]; exact Bool.false_ne_true)]
  simp only [Jacobian.checkThreshold, if_pos hthreshold, hrank, lt_irrefl, if_false]
  rfl

/-- An error that does not change is close enough, for any tolerances that are not negative. -/
theorem OptimizerParams.stops_self {p : OptimizerParams ℝ} (h : 0 ≤ p.absoluteTolerance) (e : ℝ) :
    p.stops e e = true := by
  have hdecrease : Scalar.abs (e - e) ≤ p.absoluteTolerance := by
    rw [sub_self, LawfulScalar.abs_zero]
    exact h
  unfold stops
  split
  · rfl
  · exact Bool.or_eq_true_iff.2 (.inl (decide_eq_true hdecrease))

/-! ## 2. The minimizer -/

namespace FactorGraph

variable {g : FactorGraph ℝ} {vs point : Values ℝ} {parts : List (AffineForm × List ℝ)}
  {places : List (Key × Nat)} {d : List ℝ} {e : ℝ}

namespace HasForms

theorem jacobian_eq [Runtime ℝ] (h : g.HasForms vs parts) (hnodup : (places.map Prod.fst).Nodup)
    (hplaced : vs.Placed places) (τ : ℝ) : g.jacobian vs (places.map Prod.fst) τ =
      .ok ⟨systemMatrix parts places, (parts.map Prod.snd).flatten, places.map Prod.fst, τ⟩ :=
  bind_eq_ok.2 ⟨_, h.linearize_eq, h.systemAt.stack_eq hnodup hplaced τ⟩

/-- After a step the graph is given by the same forms. -/
theorem step (h : g.HasForms vs parts) (hsystem : SystemAt point (stepped parts places d)) :
    g.HasForms point (stepped parts places d) :=
  ⟨List.forall₂_map_right_iff.2 h.forms, hsystem.nodup, hsystem.evaluates⟩

theorem error_at [Runtime ℝ] (h : g.HasForms vs parts) :
    g.error vs = .ok (half * normSq (parts.map Prod.snd).flatten) :=
  h.error_eq h.evaluates

/-- The variables of the graph are those of the forms. -/
theorem occur (h : g.HasForms vs parts) : Occur parts g.keys.toList := by
  intro k hk
  obtain ⟨f, hf, hkf⟩ := mem_keys_iff.1 hk
  obtain ⟨p, hp, hform⟩ := exists_answer h.forms hf
  exact ⟨p, hp, hform.keys_eq ▸ hkf⟩

end HasForms

/-- Where a graph evaluates, so do its residuals. -/
theorem exists_residual {α : Type} [Scalar α] [Runtime α] {g : FactorGraph α} {vs : Values α}
    {e : α} (h : g.error vs = .ok e) {f : Factor α} (hf : f ∈ g.factors) :
    ∃ rows, f.residual vs = .ok rows := by
  obtain ⟨costs, hcosts, -⟩ := map_eq_ok.1 h
  obtain ⟨cost, -, hcost⟩ := exists_answer (mapM_eq_ok.1 (inParallel_eq_ok.1 hcosts)) hf
  obtain ⟨whitened, hwhitened, -⟩ := map_eq_ok.1 hcost
  obtain ⟨rows, hrows, -⟩ := bind_eq_ok.1 hwhitened
  exact ⟨rows, hrows⟩

/-- Any assignment at which the graph evaluates is a step away, as far as the graph can tell. -/
theorem HasForms.exists_step_to [Runtime ℝ] (h : g.HasForms vs parts)
    (haffine : ∀ f ∈ g.factors, f.relation.IsAffine) {y : Values ℝ} (hy : g.error y = .ok e) :
    ∃ δ out, vs.totalDim g.keys.toList = .ok δ.length ∧ vs.retract g.keys.toList δ = .ok out ∧
      AgreeOn g.keys.toList y out ∧ g.error out = .ok e := by
  have hkinds : ∀ k ∈ g.keys.toList, (y.get? k).map Value.kind = (vs.get? k).map Value.kind := by
    intro k hk
    obtain ⟨f, hf, hkf⟩ := mem_keys_iff.1 hk
    obtain ⟨r, hr⟩ := exists_residual h.error_at hf
    obtain ⟨r', hr'⟩ := exists_residual hy hf
    exact Relation.kinds_agree (haffine f hf).isBuiltIn hr hr' hkf
  obtain ⟨δ, out, -, hlength, hout, hget⟩ :=
    exists_step_towards (h.systemAt.flat h.occur) hkinds
  have hagree : AgreeOn g.keys.toList y out := by
    intro k hk
    rw [hget, if_pos hk]
  have herror := error_congr (fun f hf => (haffine f hf).isBuiltIn) hagree
  exact ⟨δ, out, hlength, hout, hagree, herror.symm.trans hy⟩

/-- **The step leads to the only minimizer.** Any assignment at which the graph evaluates is a step
away over its variables, and the matrix takes no other step to where the least is left over. -/
theorem HasForms.minimizes [Runtime ℝ] (h : g.HasForms vs parts)
    (haffine : ∀ f ∈ g.factors, f.relation.IsAffine) (hplaced : vs.Placed places)
    (hkeys : places.map Prod.fst = g.keys.toList)
    (hls : (systemMatrix parts places).IsLeastSquares (parts.map Prod.snd).flatten d)
    (hinjective : ∀ x, x.length = breadth places → (systemMatrix parts places).apply x =
      List.replicate (systemMatrix parts places).rows 0 → x = List.replicate (breadth places) 0)
    (hd : d.length = breadth places) (hpoint : vs.retract (places.map Prod.fst) d = .ok point)
    (hsystem : SystemAt point (stepped parts places d)) {y : Values ℝ} (hy : g.error y = .ok e) :
    half * normSq ((stepped parts places d).map Prod.snd).flatten ≤ e ∧
      (e = half * normSq ((stepped parts places d).map Prod.snd).flatten →
        AgreeOn g.keys.toList y point) := by
  have hnodup : (places.map Prod.fst).Nodup := hkeys ▸ g.keys.nodup
  obtain ⟨δ, out, hlength, hout, hagree, herror⟩ := h.exists_step_to haffine hy
  rw [← hkeys] at hlength hout
  have hδ : δ.length = breadth places := answer_unique hlength hplaced.totalDim_eq_ok
  obtain ⟨out', hout', hsystem'⟩ := h.systemAt.exists_step hnodup hplaced hδ
  obtain rfl : out = out' := answer_unique hout hout'
  rw [(h.step hsystem').error_at] at herror
  obtain rfl := Except.ok.inj herror
  obtain ⟨hle, htie⟩ := h.systemAt.least_stepped hplaced hls hδ
  have hhalf : (0 : ℝ) < half := by norm_num [half]
  refine ⟨mul_le_mul_of_nonneg_left hle hhalf.le, fun heq => ?_⟩
  obtain ⟨hzero, -, -⟩ := htie (mul_left_cancel₀ hhalf.ne' heq)
  have hx : (plus δ (d.map (- ·))).length = breadth places := by
    rw [length_plus, hδ]
    rw [hδ, List.length_map, hd]
  have hsame : δ = d := by
    rw [← plus_difference (hδ.trans hd.symm), hinjective _ hx hzero, plus_zeros_of_length hd]
  subst hsame
  obtain rfl : out = point := answer_unique hout hpoint
  exact hagree

end FactorGraph

/-! ## 3. Optimizations -/

theorem Relation.IsAffine.keys_ne_nil : ∀ {r : Relation ℝ}, r.IsAffine → r.keys ≠ []
  | .prior .., _ | .torque .., _ | .wrenchPlanar .., _ | .collocation .., _ => List.cons_ne_nil _ _

theorem Values.Placed.breadth_pos {vs : Values ℝ} : ∀ {places : List (Key × Nat)},
    vs.Placed places → places ≠ [] → 0 < breadth places
  | [], _, h => absurd rfl h
  | e :: places, hplaced, _ => by
    obtain ⟨v, -, hdim⟩ := hplaced e List.mem_cons_self
    exact Nat.add_pos_left (hdim ▸ v.dim_pos) _

/-- Where something is left over of an affine graph, its linear model has entries. -/
theorem FactorGraph.HasForms.isEmpty_eq {g : FactorGraph ℝ} {vs : Values ℝ}
    {parts : List (AffineForm × List ℝ)} {places : List (Key × Nat)} (h : g.HasForms vs parts)
    (haffine : ∀ f ∈ g.factors, f.relation.IsAffine) (hplaced : vs.Placed places)
    (hkeys : places.map Prod.fst = g.keys.toList)
    (hleft : 0 < half * normSq (parts.map Prod.snd).flatten) :
    g.isEmpty = false ∧ (systemMatrix parts places).isEmpty = false := by
  have hrows : (systemMatrix parts places).rows ≠ 0 := by
    intro hzero
    rw [← h.systemAt.length_rows] at hzero
    rw [List.eq_nil_of_length_eq_zero hzero] at hleft
    exact absurd hleft (by norm_num [normSq, dot])
  obtain ⟨f, fs, hfactors⟩ : ∃ f fs, g.factors = f :: fs := by
    refine List.exists_cons_of_ne_nil fun hnone => hrows ?_
    have hparts : parts = [] := List.forall₂_nil_left_iff.1 (hnone ▸ h.forms)
    rw [SystemAt.rows_systemMatrix, hparts]
    rfl
  have hf : f ∈ g.factors := hfactors ▸ List.mem_cons_self
  obtain ⟨k, hk⟩ := List.exists_mem_of_ne_nil f.keys (haffine f hf).keys_ne_nil
  have hplaces : places ≠ [] := by
    rintro rfl
    have hmem := mem_keys hf hk
    rw [← hkeys] at hmem
    exact absurd hmem List.not_mem_nil
  have hcols := (h.systemAt.hasCols hplaced).cols_eq
  have hpos := hplaced.breadth_pos hplaces
  constructor
  · rw [isEmpty, hfactors]
    rfl
  · rw [Dense.isEmpty, hcols, Bool.or_eq_false_iff]
    exact ⟨beq_eq_false_iff_ne.2 hrows, beq_eq_false_iff_ne.2 hpos.ne'⟩

section Optimization

variable [Factorization ℝ] [Runtime ℝ] {g : FactorGraph ℝ} {vs : Values ℝ} {p : OptimizerParams ℝ}
  {e : ℝ}

/-- **The second step finds nothing to do.** The first one leads to the least-squares solution, and
if the iteration does not stop there, it stops after a step along zeros. -/
theorem gaussNewton_affine {parts : List (AffineForm × List ℝ)} {places : List (Key × Nat)}
    {d : List ℝ} {point : Values ℝ} {s : SingularTriples ℝ} {τ : ℝ} (h : g.HasForms vs parts)
    (hnodup : (places.map Prod.fst).Nodup) (hplaced : vs.Placed places)
    (hoccur : Occur parts (places.map Prod.fst)) (habsolute : 0 ≤ p.absoluteTolerance)
    (hs : s.Decomposes (systemMatrix parts places)) (hτ : 0 ≤ τ)
    (hfull : ∀ residual ordering threshold,
      fullStep ⟨systemMatrix parts places, residual, ordering, threshold⟩ p.rankTolerance =
        .ok (s.solve τ (residual.map (- ·)) (systemMatrix parts places).cols))
    (hd : s.solve τ ((parts.map Prod.snd).flatten.map (- ·)) (systemMatrix parts places).cols = d)
    (hls : (systemMatrix parts places).IsLeastSquares (parts.map Prod.snd).flatten d)
    (hpoint : vs.retract (places.map Prod.fst) d = .ok point)
    (hsystem : SystemAt point (stepped parts places d)) (budget n : Nat) :
    ∃ m, m ≤ n + 2 ∧ gaussNewton g (places.map Prod.fst) p (budget + 2) ⟨vs, e, n, false⟩ =
      .ok ⟨point, half * normSq ((stepped parts places d).map Prod.snd).flatten, m, true⟩ := by
  have hpartsPoint := h.step hsystem
  have hplacedPoint := hplaced.of_moved (moved_of_retract hpoint)
  have hafter := hpartsPoint.error_at
  rw [gaussNewton_step (h.jacobian_eq hnodup hplaced _) (hfull _ _ _) (hd ▸ hpoint) hafter]
  cases hstop : p.stops e (half * normSq ((stepped parts places d).map Prod.snd).flatten) with
  | true => exact ⟨n + 1, Nat.le_succ _, gaussNewton_converged rfl _⟩
  | false =>
    have hjPoint := hpartsPoint.jacobian_eq hnodup hplacedPoint p.rankTolerance
    rw [systemMatrix_stepped] at hjPoint
    have hstay := h.systemAt.retract_again hplaced hs hτ hls hsystem hplacedPoint hoccur
    rw [gaussNewton_step hjPoint (hfull _ _ _) hstay hafter,
      OptimizerParams.stops_self habsolute]
    exact ⟨n + 2, le_refl _, gaussNewton_converged rfl _⟩

/-- **A full step solves an affine graph.** Let the factors of a graph be affine, each over distinct
variables, and let the error at an assignment be above the absolute tolerance. If the decomposition
of the linear model is exact and finds as many singular values above the threshold as there are
columns, then the optimizer with full steps converges after at most two iterations. What it answers
has the least error of all assignments at which the graph evaluates, and whatever has the same error
agrees with it on the variables of the graph. -/
theorem optimize_affine (attempts : Nat)
    (haffine : ∀ f ∈ g.factors, f.relation.IsAffine ∧ f.keys.Nodup) (he : g.error vs = .ok e)
    (hlarge : p.absoluteTolerance < e) (hmethod : p.method = .gaussNewton)
    (hbudget : 2 ≤ p.maxIterations) (habsolute : 0 ≤ p.absoluteTolerance)
    (hrankTolerance : 0 ≤ p.rankTolerance)
    (hsvd : ∀ j, g.jacobian vs g.keys.toList p.rankTolerance = .ok j →
      (Factorization.singular j.matrix).Decomposes j.matrix ∧
        (Factorization.singular j.matrix).rank
          ((Factorization.singular j.matrix).largest * p.rankTolerance) = j.matrix.cols) :
    ∃ s, optimize attempts g vs p = .ok s ∧ s.converged = true ∧ s.iterations ≤ 2 ∧
      g.error s.values = .ok s.finalError ∧
      ∀ y e', g.error y = .ok e' → s.finalError ≤ e' ∧
        (e' = s.finalError → AgreeOn g.keys.toList y s.values) := by
  obtain ⟨rows, hrows, rfl⟩ := FactorGraph.error_eq_ok.1 he
  obtain ⟨parts, hparts, rfl⟩ := FactorGraph.exists_forms haffine hrows
  have hflat : vs.Flat g.keys.toList := hparts.systemAt.flat hparts.occur
  obtain ⟨places, hplaced, hkeys⟩ := exists_places fun k hk => by
    obtain ⟨v, -, hv, -⟩ := hflat.exists_value hk
    exact ⟨v, hv⟩
  have hnodup : (places.map Prod.fst).Nodup := hkeys ▸ g.keys.nodup
  rw [← hkeys] at hsvd
  obtain ⟨hdecomposes, hrank⟩ :
    (Factorization.singular (systemMatrix parts places)).Decomposes (systemMatrix parts places) ∧
      (Factorization.singular (systemMatrix parts places)).rank
        ((Factorization.singular (systemMatrix parts places)).largest * p.rankTolerance) =
          (systemMatrix parts places).cols := hsvd _ (hparts.jacobian_eq hnodup hplaced _)
  have hisAffine : ∀ f ∈ g.factors, f.relation.IsAffine := fun f hf => (haffine f hf).1
  obtain ⟨hgraph, hmatrix⟩ :=
    hparts.isEmpty_eq hisAffine hplaced hkeys (lt_of_le_of_lt habsolute hlarge)
  have hthreshold := mul_nonneg
    (Factorization.singular (systemMatrix parts places)).largest_nonneg hrankTolerance
  obtain ⟨d, point, hd, hls, hlength, hpoint, hsystem, -⟩ :=
    hparts.systemAt.exists_leastStep hnodup hplaced hdecomposes
      (hdecomposes.separated_of_rank hthreshold hrank)
  obtain ⟨budget, hbudget⟩ := Nat.exists_eq_add_of_le' hbudget
  obtain ⟨m, hm, hrun⟩ := gaussNewton_affine (e := half * normSq (parts.map Prod.snd).flatten)
    hparts hnodup hplaced (hkeys ▸ hparts.occur) habsolute hdecomposes hthreshold
    (fullStep_eq hmatrix hrankTolerance hrank) hd hls hpoint hsystem budget 0
  have hstart : decide (half * normSq (parts.map Prod.snd).flatten ≤ p.absoluteTolerance) = false :=
    decide_eq_false (not_le.2 hlarge)
  have hcols := (hparts.systemAt.hasCols hplaced).cols_eq
  refine ⟨⟨point, m, half * normSq (parts.map Prod.snd).flatten, _, true⟩, ?_, rfl, hm,
    (hparts.step hsystem).error_at, fun y e' hy => ?_⟩
  · refine bind_eq_ok.2 ⟨(), ?_, bind_eq_ok.2 ⟨_, he, ?_⟩⟩
    · rw [← hkeys, hplaced.totalDim_eq_ok]
      rfl
    · rw [if_neg (hgraph ▸ Bool.false_ne_true), hmethod, hstart, hbudget, ← hkeys]
      exact map_eq_ok.2 ⟨_, hrun, rfl⟩
  · refine hparts.minimizes hisAffine hplaced hkeys hls (fun x hx hzero => ?_) hlength hpoint
      hsystem hy
    rw [← hcols] at hx ⊢
    exact hdecomposes.injective hthreshold hrank hx hzero

end Optimization

theorem linearize_scalarPrior [Runtime ℝ] {vs : Values ℝ} {k : Key} {x y σ : ℝ}
    (h : vs.get? k = some (.scalar y)) :
    (Factor.scalarPrior k x σ).linearize vs true = .ok ⟨[k], [[[1 / σ]]], [(y - x) / σ]⟩ :=
  bind_eq_ok.2 ⟨_, Relation.residual_prior_scalar.2 ⟨y, scalar_eq_ok h, rfl⟩,
    bind_eq_ok.2 ⟨[[[1]]], rfl, rfl⟩⟩

/-- A scalar variable that is given twice. -/
noncomputable def twoPriors (x y σ ρ : ℝ) : FactorGraph ℝ :=
  ⟨[.scalarPrior ⟨0⟩ x σ, .scalarPrior ⟨0⟩ y ρ]⟩

section TwoPriors

variable {vs : Values ℝ} {z x y σ ρ : ℝ} (h : vs.get? ⟨0⟩ = some (.scalar z))

include h

theorem error_twoPriors :
    (twoPriors x y σ ρ).error vs = .ok (half * normSq [(z - x) / σ, (z - y) / ρ]) :=
  FactorGraph.error_eq_ok.2 ⟨[[(z - x) / σ], [(z - y) / ρ]],
    mapM_eq_ok.2 (.cons (Factor.whitened_scalarPrior h)
      (.cons (Factor.whitened_scalarPrior h) .nil)), rfl⟩

theorem jacobian_twoPriors (τ : ℝ) : (twoPriors x y σ ρ).jacobian vs [⟨0⟩] τ =
    .ok ⟨⟨2, [[1 / σ, 1 / ρ]]⟩, [(z - x) / σ, (z - y) / ρ], [⟨0⟩], τ⟩ := by
  have hmodels : (twoPriors x y σ ρ).linearize vs true = .ok [⟨[⟨0⟩], [[[1 / σ]]], [(z - x) / σ]⟩,
      ⟨[⟨0⟩], [[[1 / ρ]]], [(z - y) / ρ]⟩] :=
    inParallel_eq_ok.2 (mapM_eq_ok.2
      (.cons (linearize_scalarPrior h) (.cons (linearize_scalarPrior h) .nil)))
  have hplaced : vs.Placed [(⟨0⟩, 1)] := List.forall_mem_singleton.2 ⟨_, h, rfl⟩
  exact bind_eq_ok.2 ⟨_, hmodels, bind_eq_ok.2 ⟨_, hplaced.mapM_dim, rfl⟩⟩

end TwoPriors

/-- The decomposition of the model of two priors with standard deviations of a third and a
quarter. -/
theorem decomposes_twoPriors :
    SingularTriples.Decomposes [⟨[3 / 5, 4 / 5], 5, [1]⟩] ⟨2, [[1 / (1 / 3), 1 / (1 / 4)]]⟩ where
  length_eq := rfl
  length_left := List.forall_mem_singleton.2 rfl
  length_right := List.forall_mem_singleton.2 rfl
  left := ⟨List.forall_mem_singleton.2 (by norm_num [dot, dot.go]), List.pairwise_singleton _ _⟩
  right := ⟨List.forall_mem_singleton.2 (by norm_num [dot, dot.go]), List.pairwise_singleton _ _⟩
  value_nonneg := List.forall_mem_singleton.2 (by norm_num)
  apply_eq x hx := by
    obtain ⟨a, rfl⟩ := List.length_eq_one_iff.1 hx
    norm_num [Dense.apply, combine, plus, dot, dot.go, axpy, List.replicate_succ]
    constructor <;> ring

/-- From zero a full step leads to where both priors are balanced, with an error of 1800. -/
theorem optimize_affine_twoPriors :
    let g := twoPriors 25 0 (1 / 3) (1 / 4)
    let p : OptimizerParams ℝ := { OptimizerParams.default with
      maxIterations := 2, relativeTolerance := 0, absoluteTolerance := 0, rankTolerance := 1 / 2 }
    let s : SingularTriples ℝ := [⟨[3 / 5, 4 / 5], 5, [1]⟩]
    let vs : Values ℝ := Values.empty.insert ⟨0⟩ (.scalar 0)
    (∀ f ∈ g.factors, f.relation.IsAffine ∧ f.keys.Nodup) ∧ g.error vs = .ok (5625 / 2) ∧
      p.absoluteTolerance < 5625 / 2 ∧ p.method = .gaussNewton ∧ g.keys.toList = [⟨0⟩] ∧
      (∀ j, g.jacobian vs [⟨0⟩] p.rankTolerance = .ok j →
        s.Decomposes j.matrix ∧ s.rank (s.largest * p.rankTolerance) = j.matrix.cols) ∧
      ∃ out, @optimize ℝ _ (.knowing s) _ 0 g vs p = .ok out ∧ out.converged = true ∧
        out.iterations ≤ 2 ∧ g.error out.values = .ok out.finalError ∧ out.finalError ≤ 1800 := by
  intro g p s vs
  have hvs : vs.get? ⟨0⟩ = some (.scalar 0) := (get?_insert ..).trans (if_pos rfl)
  have haffine : ∀ f ∈ g.factors, f.relation.IsAffine ∧ f.keys.Nodup :=
    List.forall_mem_cons.2 ⟨⟨trivial, List.nodup_singleton _⟩,
      List.forall_mem_singleton.2 ⟨trivial, List.nodup_singleton _⟩⟩
  have herror : g.error vs = .ok (5625 / 2) := by
    rw [error_twoPriors hvs]
    norm_num [normSq, dot, dot.go, half]
  have hsvd : ∀ j, g.jacobian vs [⟨0⟩] p.rankTolerance = .ok j →
      s.Decomposes j.matrix ∧ s.rank (s.largest * p.rankTolerance) = j.matrix.cols := by
    intro j hj
    obtain rfl := answer_unique (jacobian_twoPriors hvs p.rankTolerance) hj
    refine ⟨decomposes_twoPriors, ?_⟩
    norm_num [SingularTriples.rank, SingularTriples.largest, maxNum, s, p, Dense.cols]
  have hlarge : p.absoluteTolerance < 5625 / 2 := by norm_num [p]
  refine ⟨haffine, herror, hlarge, rfl, rfl, hsvd, ?_⟩
  obtain ⟨out, hout, hconverged, hiterations, hfinal, hleast⟩ :=
    @optimize_affine (.knowing s) _ g vs p _ 0 haffine herror hlarge rfl (le_refl 2) (le_refl 0)
      (by norm_num [p]) hsvd
  have hbalanced : g.error (Values.empty.insert ⟨0⟩ (.scalar 9)) = .ok 1800 := by
    rw [error_twoPriors ((get?_insert ..).trans (if_pos rfl))]
    norm_num [normSq, dot, dot.go, half]
  exact ⟨out, hout, hconverged, hiterations, hfinal, (hleast _ _ hbalanced).1⟩

end Articulated
