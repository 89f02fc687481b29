import Articulated.Proofs.Graph.LeastStep
import Articulated.Proofs.Constraint.Connectivity
import Articulated.Proofs.Constraint.Frame
import Articulated.Proofs.Constraint.Merging

/-!
# Projection onto affine constraints

On affine constraints the first correction is the last one that moves anything: it is the step to
the nearest assignment at which the least is left over of the constraints. If they can be satisfied
by the free variables, the retraction ends there after one iteration; otherwise it stays there until
its budget is used up. Numbers and the singular value decomposition are exact here.

* `correct_step`, `correct_settled`: one correction, and corrections that change nothing, by
  induction on the budget.
* `Constraints.LeastStep`: the least-squares step of smallest norm over some variables.
* `Constraints.LeastStep.nearest`: it leads to the nearest assignment that satisfies the
  constraints, if there is one.
* `retract_affine`: what both retractions by corrections do.
-/

namespace Articulated

open Scalar Values
open FactorGraph (steppedValues steppedValues_get?)

/-! ## 1. Rows of constraints -/

section Rows

variable {α : Type} [Scalar α]

namespace Constraints

/-- The residual rows of all constraints, one after the other. -/
def rows (cs : Constraints α) (vs : Values α) : Except (Fault α) (List α) := do
  return (← cs.items.mapM (·.factor.residual vs)).flatten

/-- The stacked linear model of all constraints. -/
def jacobian [Runtime α] (cs : Constraints α) (vs : Values α) (ordering : List Key)
    (threshold : α) : Except (Fault α) (Jacobian α) := do
  Jacobian.stack (← cs.linearize vs) ordering vs threshold

/-- All rows evaluate and vanish. -/
def Holds (cs : Constraints α) (vs : Values α) : Prop :=
  ∃ rows, cs.rows vs = .ok rows ∧ ∀ x ∈ rows, x = 0

variable {cs : Constraints α} {vs vs' : Values α} {xs : List α}

theorem exists_residual (h : cs.rows vs = .ok xs) {q : Constraint α} (hq : q ∈ cs.items) :
    ∃ r, q.factor.residual vs = .ok r ∧ ∀ x ∈ r, x ∈ xs := by
  obtain ⟨rs, hrs, rfl⟩ := map_eq_ok.1 h
  obtain ⟨r, hr, hqr⟩ := exists_answer (mapM_eq_ok.1 hrs) hq
  exact ⟨r, hqr, fun x hx => List.mem_flatten_of_mem hr hx⟩

theorem rows_congr (h : ∀ q ∈ cs.items, q.factor.relation.IsBuiltIn)
    (hagree : AgreeOn cs.keys.toList vs vs') : cs.rows vs = cs.rows vs' := by
  unfold rows
  rw [mapM_congr fun q hq => Factor.residual_congr (h q hq) (hagree.mono fun k hk =>
    mem_keys_of_mem hq hk)]

/-- Whether the constraints hold can be told where their rows evaluate. -/
theorem exists_compliant (h : cs.rows vs = .ok xs) : ∃ violation converged,
    cs.largestViolation vs = .ok violation ∧ cs.compliant vs = .ok converged ∧
      (converged = true ↔ ∀ q ∈ cs.items, q.compliant vs = .ok true) := by
  obtain ⟨violation, hviolation⟩ := exists_largestViolation fun q hq => by
    obtain ⟨r, hr, -⟩ := exists_residual h hq
    exact ⟨_, Constraint.violation_eq_ok.2 ⟨r, hr, rfl⟩⟩
  obtain ⟨converged, hconverged, hiff⟩ := compliant_of_evaluates hviolation
  exact ⟨violation, converged, hviolation, hconverged, hiff⟩

/-- Constraints that are satisfied are within any tolerances. -/
theorem Holds.compliant_eq [LawfulScalar α] (h : cs.Holds vs)
    (htolerance : ∀ q ∈ cs.items, 0 ≤ q.tolerance) : cs.compliant vs = .ok true := by
  obtain ⟨xs, hxs, hzero⟩ := h
  obtain ⟨-, converged, -, hconverged, hiff⟩ := exists_compliant hxs
  rw [hconverged, hiff.2 fun q hq => ?_]
  obtain ⟨r, hr, hmem⟩ := exists_residual hxs hq
  refine Constraint.compliant_eq_true_iff.2 ⟨r, hr, htolerance q hq, fun x hx _ => ?_⟩
  rw [hzero x (hmem x hx), LawfulScalar.abs_zero]
  exact htolerance q hq

end Constraints

end Rows

/-! ## 2. Corrections -/

section Corrections

variable {α : Type} [Scalar α] [Factorization α] [Runtime α] {c : Component α} {free : List Key}
  {ε : α} {vs next : Values α} {j : Jacobian α} {d : List α}

/-- One correction. -/
theorem correct_step (hfree : free ≠ []) (hfails : c.constraints.compliant vs = .ok false)
    (hj : c.constraints.jacobian vs free ε = .ok j) (hd : j.correction = .ok d)
    (hnext : vs.retract free d = .ok next) (budget n : Nat) :
    correct c free ε (budget + 1) vs n = correct c free ε budget next (n + 1) := by
  obtain ⟨models, hmodels, hstack⟩ := bind_eq_ok.1 hj
  have hempty : ¬ free.isEmpty = true := fun h => hfree (List.isEmpty_iff.1 h)
  rw [correct, if_neg hempty, hfails, hmodels]
  show (Jacobian.stack models free vs ε >>= _) = _
  rw [hstack]
  show (j.correction >>= _) = _
  rw [hd]
  show (vs.retract free d >>= _) = _
  rw [hnext]
  rfl

/-- **Corrections that move nothing go on until the budget is used up**, or are not made at all if
the constraints hold. -/
theorem correct_settled (hfree : free ≠ []) {converged : Bool}
    (hconverged : c.constraints.compliant vs = .ok converged)
    (hj : c.constraints.jacobian vs free ε = .ok j) (hd : j.correction = .ok d)
    (hstay : vs.retract free d = .ok vs) : ∀ budget n,
      correct c free ε budget vs n = .ok (vs, if converged then n else n + budget)
  | 0, n => by rw [correct, Nat.add_zero, ite_self]; rfl
  | budget + 1, n => by
    cases converged with
    | true =>
      have hempty : ¬ free.isEmpty = true := fun h => hfree (List.isEmpty_iff.1 h)
      rw [correct, if_neg hempty, hconverged]
      rfl
    | false =>
      rw [correct_step hfree hconverged hj hd hstay,
        correct_settled hfree hconverged hj hd hstay budget (n + 1), Nat.add_right_comm n 1 budget]
      rfl

end Corrections

/-- A correction is read off the decomposition; a matrix without entries has an empty one. -/
theorem Jacobian.correction_eq [Factorization ℝ] {m : Dense ℝ} {τ : ℝ}
    (hm : (Factorization.singular m).Decomposes m) (hτ : 0 ≤ τ) (residual : List ℝ)
    (ordering : List Key) : Jacobian.correction ⟨m, residual, ordering, τ⟩ =
      .ok ((Factorization.singular m).solve τ (residual.map (- ·)) m.cols) := by
  unfold correction
  split
  · rename_i hempty
    have hnone : (Factorization.singular m).length = 0 := by
      rw [hm.length_eq]
      simpa [Dense.isEmpty, Nat.min_eq_zero_iff] using hempty
    rw [List.eq_nil_of_length_eq_zero hnone]
    rfl
  · rw [checkThreshold, if_pos hτ, ← SingularTriples.map_neg_solve hm.length_right]
    rfl

/-! ## 3. Forms of constraints -/

namespace Constraints

/-- Affine constraints over distinct variables, with tolerances that are not negative. -/
structure AreAffine (cs : Constraints ℝ) : Prop where
  isAffine : ∀ q ∈ cs.items, q.factor.relation.IsAffine
  nodup : ∀ q ∈ cs.items, q.keys.Nodup
  tolerance_nonneg : ∀ q ∈ cs.items, 0 ≤ q.tolerance

/-- The constraints are given by forms, which stand with their values at an assignment. -/
structure HasForms (cs : Constraints ℝ) (vs : Values ℝ) (parts : List (AffineForm × List ℝ)) :
    Prop where
  forms : List.Forall₂ (fun q p => q.factor.relation.HasForm p.1) cs.items parts
  systemAt : SystemAt vs parts

variable {cs : Constraints ℝ} {vs point : Values ℝ} {parts : List (AffineForm × List ℝ)}
  {places : List (Key × Nat)} {xs d : List ℝ} {free : List Key}

theorem AreAffine.exists_forms (h : cs.AreAffine) (hrows : cs.rows vs = .ok xs) :
    ∃ parts, cs.HasForms vs parts := by
  have hform : ∀ q ∈ cs.items, ∃ p : AffineForm × List ℝ, q.factor.relation.HasForm p.1 ∧
      (p.1.terms.map Prod.fst).Nodup ∧ p.1.Evaluates vs p.2 := by
    intro q hq
    obtain ⟨a, ha⟩ := (h.isAffine q hq).exists_form
    obtain ⟨r, hr, -⟩ := exists_residual hrows hq
    have hnodup : q.factor.relation.keys.Nodup := h.nodup q hq
    exact ⟨(a, r), ha, ha.keys_eq ▸ hnodup, ha.residual_eq_ok.1 hr⟩
  obtain ⟨parts, hparts⟩ := exists_forall₂ hform
  have heach : ∀ p ∈ parts, (p.1.terms.map Prod.fst).Nodup ∧ p.1.Evaluates vs p.2 := by
    intro p hp
    obtain ⟨q, -, hq⟩ := exists_answer hparts.flip hp
    exact hq.2
  exact ⟨parts, hparts.imp fun _ _ => And.left, fun p hp => (heach p hp).1,
    fun p hp => (heach p hp).2⟩

namespace HasForms

theorem rows_eq (h : cs.HasForms vs parts) : cs.rows vs = .ok (parts.map Prod.snd).flatten :=
  map_eq_ok.2 ⟨_, mapM_of_forall₂ h.forms fun p hp _ hq =>
    hq.residual_eq_ok.2 (h.systemAt.evaluates p hp), rfl⟩

theorem linearize_eq [Runtime ℝ] (h : cs.HasForms vs parts) :
    cs.linearize vs = .ok (parts.map fun p => p.1.model p.2) := by
  refine mapM_of_forall₂ h.forms fun p hp q hq => ?_
  have hrows := hq.residual_eq_ok.2 (h.systemAt.evaluates p hp)
  refine bind_eq_ok.2 ⟨p.2, hrows,
    bind_eq_ok.2 ⟨_, Factor.blocks_of_exact (hq.blocks_eq hrows), ?_⟩⟩
  rw [if_neg Bool.false_ne_true, Factor.keys, hq.keys_eq]
  rfl

theorem jacobian_eq [Runtime ℝ] (h : cs.HasForms vs parts)
    (hnodup : (places.map Prod.fst).Nodup) (hplaced : vs.Placed places) (ε : ℝ) :
    cs.jacobian vs (places.map Prod.fst) ε =
      .ok ⟨systemMatrix parts places, (parts.map Prod.snd).flatten, places.map Prod.fst, ε⟩ :=
  bind_eq_ok.2 ⟨_, h.linearize_eq, h.systemAt.stack_eq hnodup hplaced ε⟩

/-- After a step the constraints are given by the same forms. -/
theorem step (h : cs.HasForms vs parts) (hsystem : SystemAt point (stepped parts places d)) :
    cs.HasForms point (stepped parts places d) :=
  ⟨List.forall₂_map_right_iff.2 h.forms, hsystem⟩

/-- The variables of the constraints are those of the forms. -/
theorem occur (h : cs.HasForms vs parts) : Occur parts cs.keys.toList := by
  intro k hk
  obtain ⟨q, hq, hkq⟩ := mem_keys.1 hk
  obtain ⟨p, hp, hform⟩ := exists_answer h.forms hq
  have hkq : k ∈ q.factor.relation.keys := hkq
  exact ⟨p, hp, hform.keys_eq ▸ hkq⟩

end HasForms

/-! ## 4. The nearest assignment -/

/-- An assignment moved along `d` over some variables, where the least is left over of the
constraints: no other step leaves less over, of those that leave as little over `d` is the shortest,
and it is the only one of its length. -/
structure LeastStep (cs : Constraints ℝ) (vs : Values ℝ) (free : List Key) (d : List ℝ)
    (point : Values ℝ) : Prop where
  totalDim_eq : vs.totalDim free = .ok d.length
  retract_eq : vs.retract free d = .ok point
  offset_eq : vs.offset? point free = some d
  least : ∃ xs, cs.rows point = .ok xs ∧ ∀ d', vs.totalDim free = .ok d'.length →
    ∃ point' xs', vs.retract free d' = .ok point' ∧ cs.rows point' = .ok xs' ∧
      normSq xs ≤ normSq xs' ∧
      (normSq xs' = normSq xs → normSq d ≤ normSq d' ∧ (normSq d' = normSq d → d' = d))

theorem HasForms.leastStep (h : cs.HasForms vs parts) (hnodup : (places.map Prod.fst).Nodup)
    (hplaced : vs.Placed places) (hflat : vs.Flat (places.map Prod.fst))
    (hls : (systemMatrix parts places).IsLeastSquares (parts.map Prod.snd).flatten d)
    (hd : d.length = breadth places) (hpoint : vs.retract (places.map Prod.fst) d = .ok point)
    (hsystem : SystemAt point (stepped parts places d)) :
    cs.LeastStep vs (places.map Prod.fst) d point where
  totalDim_eq := hd ▸ hplaced.totalDim_eq_ok
  retract_eq := hpoint
  offset_eq := offset_of_retractInto hnodup hplaced hflat hd hpoint
  least := by
    refine ⟨_, (h.step hsystem).rows_eq, fun d' hd' => ?_⟩
    have hd' : d'.length = breadth places := answer_unique hd' hplaced.totalDim_eq_ok
    obtain ⟨point', hpoint', hsystem'⟩ := h.systemAt.exists_step hnodup hplaced hd'
    obtain ⟨hle, htie⟩ := h.systemAt.least_stepped hplaced hls hd'
    exact ⟨point', _, hpoint', (h.step hsystem').rows_eq, hle, fun heq => (htie heq).2⟩

/-- An assignment at which the constraints evaluate and that differs from another one within some of
their variables is a step away from it, as far as the rows can tell. -/
theorem AreAffine.exists_step_to (haffine : cs.AreAffine) (hrows : cs.rows vs = .ok xs)
    (hfree : ∀ k ∈ free, k ∈ cs.keys.toList) {y : Values ℝ} {zs : List ℝ}
    (hfixed : ∀ k ∈ cs.keys.toList, k ∉ free → y.get? k = vs.get? k) (hy : cs.rows y = .ok zs) :
    ∃ δ out, vs.offset? y free = some δ ∧ vs.totalDim free = .ok δ.length ∧
      vs.retract free δ = .ok out ∧ cs.rows out = .ok zs := by
  obtain ⟨parts, hparts⟩ := haffine.exists_forms hrows
  have hbuiltIn : ∀ q ∈ cs.items, q.factor.relation.IsBuiltIn := fun q hq =>
    (haffine.isAffine q hq).isBuiltIn
  have hflat : vs.Flat free := fun k hk => hparts.systemAt.flat hparts.occur k (hfree k hk)
  have hkinds : ∀ k ∈ free, (y.get? k).map Value.kind = (vs.get? k).map Value.kind := by
    intro k hk
    obtain ⟨q, hq, hkq⟩ := mem_keys.1 (hfree k hk)
    obtain ⟨r, hr, -⟩ := exists_residual hrows hq
    obtain ⟨r', hr', -⟩ := exists_residual hy hq
    exact Relation.kinds_agree (hbuiltIn q hq) hr hr' hkq
  obtain ⟨δ, out, hδ, hlength, hout, hget⟩ := exists_step_towards hflat hkinds
  have hagree : AgreeOn cs.keys.toList out y := by
    intro k hk
    rw [hget]
    split
    · rfl
    · rename_i hkfree
      exact (hfixed k hk hkfree).symm
  exact ⟨δ, out, hδ, hlength, hout, (rows_congr hbuiltIn hagree).trans hy⟩

/-- **The step leads to the nearest assignment that satisfies the constraints**, if there is one
with the same values outside the variables that are moved. -/
theorem LeastStep.nearest (h : cs.LeastStep vs free d point) (haffine : cs.AreAffine)
    (hrows : cs.rows vs = .ok xs) (hfree : ∀ k ∈ free, k ∈ cs.keys.toList) {y : Values ℝ}
    (hfixed : ∀ k ∈ cs.keys.toList, k ∉ free → y.get? k = vs.get? k) (hy : cs.Holds y) :
    cs.Holds point ∧ ∃ δ, vs.offset? y free = some δ ∧ normSq d ≤ normSq δ ∧
      (normSq δ = normSq d → δ = d) := by
  obtain ⟨zs, hzs, hzero⟩ := hy
  obtain ⟨δ, out, hδ, hlength, hout, hrowsOut⟩ := haffine.exists_step_to hrows hfree hfixed hzs
  obtain ⟨xs, hxs, hleast⟩ := h.least
  obtain ⟨point', xs', hpoint', hxs', hle, htie⟩ := hleast δ hlength
  obtain rfl : out = point' := answer_unique hout hpoint'
  obtain rfl : xs' = zs := answer_unique hxs' hrowsOut
  -- nothing is left over at `y`, so nothing is left over at the point
  have hleft : normSq xs' = 0 := by
    rw [List.eq_replicate_of_mem hzero, normSq_zeros]
  have hnone : normSq xs = 0 := le_antisymm (hleft ▸ hle) (normSq_nonneg xs)
  refine ⟨⟨xs, hxs, fun x hx => ?_⟩, δ, hδ, htie (hleft.trans hnone.symm)⟩
  rw [eq_zeros_of_normSq hnone] at hx
  exact List.eq_of_mem_replicate hx

end Constraints

/-! ## 5. Retractions -/

/-- The variables that the corrections of a retraction move. The optimizer makes no corrections. -/
def Retractor.free {α : Type} (r : Retractor) (c : Component α) : List Key :=
  match r with
  | .optimizing => []
  | .projecting => c.keys.toList
  | .overBasis basis => c.keys.toList.filter fun k => !basis.contains k

section Basis

variable {α : Type} {vs : Values α}

theorem lookup_basis : ∀ {basis : List Key}, (∀ k ∈ basis, ∃ v, vs.get? k = some v) →
    (basis.forM fun k => discard <| vs.lookup k : Except (Fault α) Unit) = .ok ()
  | [], _ => rfl
  | k :: basis, h => by
    obtain ⟨⟨v, hv⟩, hbasis⟩ := List.forall_mem_cons.1 h
    show (discard (vs.lookup k) >>= fun _ => basis.forM _) = _
    rw [lookup_eq_ok.2 hv]
    exact lookup_basis hbasis

/-- The first variable of a basis without a value is named. -/
theorem lookup_basis_missing : ∀ {basis : List Key}, (∃ k ∈ basis, vs.get? k = none) →
    ∃ k ∈ basis, vs.get? k = none ∧
      (basis.forM fun k => discard <| vs.lookup k : Except (Fault α) Unit) = .error (.missing k)
  | [], h => by
    obtain ⟨k, hk, -⟩ := h
    exact absurd hk List.not_mem_nil
  | q :: basis, h => by
    cases hq : vs.get? q with
    | none =>
      refine ⟨q, List.mem_cons_self, hq, ?_⟩
      show (discard (vs.lookup q) >>= fun _ => basis.forM _) = _
      rw [lookup_eq_error hq]
      rfl
    | some v =>
      have hrest : ∃ k ∈ basis, vs.get? k = none := by
        obtain ⟨k, hk, hmissing⟩ := h
        refine ⟨k, (List.mem_cons.1 hk).resolve_left ?_, hmissing⟩
        rintro rfl
        cases hq.symm.trans hmissing
      obtain ⟨k, hk, hmissing, hbasis⟩ := lookup_basis_missing hrest
      refine ⟨k, List.mem_cons_of_mem q hk, hmissing, ?_⟩
      show (discard (vs.lookup q) >>= fun _ => basis.forM _) = _
      rw [lookup_eq_ok.2 hq]
      exact hbasis

end Basis

theorem Retractor.mem_of_mem_free {α : Type} {r : Retractor} {c : Component α} {k : Key}
    (h : k ∈ r.free c) : k ∈ c.keys.toList := by
  cases r with
  | optimizing => exact absurd h List.not_mem_nil
  | projecting => exact h
  | overBasis basis => exact List.mem_of_mem_filter h

theorem Retractor.nodup_free {α : Type} (r : Retractor) (c : Component α) : (r.free c).Nodup := by
  cases r with
  | optimizing => exact List.nodup_nil
  | projecting => exact c.keys.nodup
  | overBasis basis => exact c.keys.nodup.filter _

section Retractions

variable [Factorization ℝ] [Runtime ℝ] {cs : Constraints ℝ} {vs : Values ℝ} {xs : List ℝ}
  {free : List Key} {ε : ℝ}

/-- **The first correction is the least-squares step of smallest norm, and no later one moves
anything.** -/
theorem correct_affine (haffine : cs.AreAffine) (hrows : cs.rows vs = .ok xs)
    (hfails : cs.compliant vs = .ok false) (hnodup : free.Nodup)
    (hkeys : ∀ k ∈ free, k ∈ cs.keys.toList) (hfree : free ≠ [])
    (hsvd : ∀ j, cs.jacobian vs free ε = .ok j →
      (Factorization.singular j.matrix).Decomposes j.matrix ∧
        (Factorization.singular j.matrix).Separated ε) :
    ∃ d point violation converged, cs.LeastStep vs free d point ∧
      cs.largestViolation point = .ok violation ∧ cs.compliant point = .ok converged ∧
      ∀ budget n, correct (.ofConstraints cs) free ε (budget + 1) vs n =
        .ok (point, if converged then n + 1 else n + (budget + 1)) := by
  obtain ⟨parts, hparts⟩ := haffine.exists_forms hrows
  have hflat : vs.Flat free := fun k hk => hparts.systemAt.flat hparts.occur k (hkeys k hk)
  obtain ⟨places, hplaced, rfl⟩ := exists_places fun k hk => by
    obtain ⟨v, -, hv, -⟩ := hflat.exists_value hk
    exact ⟨v, hv⟩
  have hj := hparts.jacobian_eq hnodup hplaced ε
  obtain ⟨hdecomposes, hseparated⟩ :
    (Factorization.singular (systemMatrix parts places)).Decomposes (systemMatrix parts places) ∧
      (Factorization.singular (systemMatrix parts places)).Separated ε := hsvd _ hj
  obtain ⟨d, point, hd, hls, hlength, hpoint, hsystem, hplacedPoint⟩ :=
    hparts.systemAt.exists_leastStep hnodup hplaced hdecomposes hseparated
  have hoccur : Occur parts (places.map Prod.fst) := fun k hk => hparts.occur k (hkeys k hk)
  have hpartsPoint := hparts.step hsystem
  obtain ⟨violation, converged, hviolation, hconverged, -⟩ :=
    Constraints.exists_compliant hpartsPoint.rows_eq
  refine ⟨d, point, violation, converged,
    hparts.leastStep hnodup hplaced hflat hls hlength hpoint hsystem, hviolation, hconverged,
    fun budget n => ?_⟩
  have hjPoint := hpartsPoint.jacobian_eq hnodup hplacedPoint ε
  rw [systemMatrix_stepped] at hjPoint
  have hcorrection := Jacobian.correction_eq hdecomposes hseparated.1
  have hstay := hparts.systemAt.retract_again hplaced hdecomposes hseparated.1 hls hsystem
    hplacedPoint hoccur
  rw [correct_step hfree hfails hj (hcorrection _ _) (hd ▸ hpoint),
    correct_settled hfree hconverged hjPoint (hcorrection _ _) hstay, Nat.add_right_comm n 1 budget,
    Nat.add_assoc n budget 1]

/-- **Projection is exact on affine constraints.** Let affine constraints evaluate at an assignment
without all of them being within their tolerances, and let there be free variables and a budget. If
the decomposition of the linear model is exact and its threshold lies below all singular values but
zero, then after the first correction and after every later one the assignment is the one moved by
the least-squares step of smallest norm over the free variables. The retraction ends there after one
iteration if this is within the tolerances, and else when its budget is used up. It is if some
assignment satisfies the constraints with the same values outside the free variables; then the
point satisfies them too, and no such assignment is nearer. A basis must have values, or the
first of its variables without one is named. -/
theorem retract_affine {r : Retractor} {p : RetractParams ℝ} (attempts : Nat)
    (haffine : cs.AreAffine) (hrows : cs.rows vs = .ok xs) (hfails : cs.compliant vs = .ok false)
    (hbudget : 1 ≤ p.maxIterations) (hfree : r.free (.ofConstraints cs) ≠ [])
    (hsvd : ∀ j, cs.jacobian vs (r.free (.ofConstraints cs)) p.epsilon = .ok j →
      (Factorization.singular j.matrix).Decomposes j.matrix ∧
        (Factorization.singular j.matrix).Separated p.epsilon) :
    ∃ d point violation converged,
      cs.LeastStep vs (r.free (.ofConstraints cs)) d point ∧
      cs.largestViolation point = .ok violation ∧ cs.compliant point = .ok converged ∧
      (∀ budget, 1 ≤ budget →
        correct (.ofConstraints cs) (r.free (.ofConstraints cs)) p.epsilon budget vs 0 =
          .ok (point, if converged then 1 else budget)) ∧
      ((∀ k, r.Holds k → ∃ v, vs.get? k = some v) →
        retract attempts (.ofConstraints cs) r p vs =
          .ok ⟨point, converged, if converged then 1 else p.maxIterations, violation⟩) ∧
      ((∃ k, r.Holds k ∧ vs.get? k = none) → ∃ k, r.Holds k ∧ vs.get? k = none ∧
        retract attempts (.ofConstraints cs) r p vs = .error (.missing k)) ∧
      ∀ y : Values ℝ, cs.Holds y →
        (∀ k ∈ cs.keys.toList, k ∉ r.free (.ofConstraints cs) → y.get? k = vs.get? k) →
          converged = true ∧ cs.Holds point ∧
            ∃ δ, vs.offset? y (r.free (.ofConstraints cs)) = some δ ∧ normSq d ≤ normSq δ ∧
              (normSq δ = normSq d → δ = d) := by
  have hkeys : ∀ k ∈ r.free (.ofConstraints cs), k ∈ cs.keys.toList := fun _ =>
    Retractor.mem_of_mem_free
  obtain ⟨d, point, violation, converged, hstep, hviolation, hconverged, hcorrect⟩ :=
    correct_affine haffine hrows hfails (r.nodup_free _) hkeys hfree hsvd
  have hrun : ∀ budget, 1 ≤ budget →
      correct (.ofConstraints cs) (r.free (.ofConstraints cs)) p.epsilon budget vs 0 =
        .ok (point, if converged then 1 else budget) := by
    intro budget hpos
    obtain ⟨budget, rfl⟩ := Nat.exists_eq_add_of_le' hpos
    rw [hcorrect, Nat.zero_add, Nat.zero_add]
  have hproject : project (.ofConstraints cs) (r.free (.ofConstraints cs)) p vs =
      .ok ⟨point, converged, if converged then 1 else p.maxIterations, violation⟩ := by
    refine bind_eq_ok.2 ⟨_, hrun p.maxIterations hbudget, bind_eq_ok.2 ⟨violation, hviolation, ?_⟩⟩
    exact map_eq_ok.2 ⟨converged, hconverged, rfl⟩
  refine ⟨d, point, violation, converged, hstep, hviolation, hconverged, hrun, fun hheld => ?_,
    fun hmissing => ?_, fun y hy hfixed => ?_⟩
  · cases r with
    | optimizing => exact absurd rfl hfree
    | projecting => exact hproject
    | overBasis basis => exact bind_eq_ok.2 ⟨(), lookup_basis hheld, hproject⟩
  · cases r with
    | optimizing | projecting =>
      obtain ⟨k, hk, -⟩ := hmissing
      exact hk.elim
    | overBasis basis =>
      obtain ⟨k, hk, hnone, hbasis⟩ := lookup_basis_missing hmissing
      refine ⟨k, hk, hnone, ?_⟩
      show (basis.forM _ >>= fun _ => project _ _ p vs) = _
      rw [hbasis]
      rfl
  · obtain ⟨hholds, hnearest⟩ := hstep.nearest haffine hrows hkeys hfixed hy
    have htrue := hholds.compliant_eq haffine.tolerance_nonneg
    exact ⟨answer_unique hconverged htrue, hholds, hnearest⟩

end Retractions

/-- A step of the given length, without any tolerance. -/
noncomputable def exactStep (dt : ℝ) : Constraints ℝ :=
  ⟨[⟨.isotropic (.collocation ⟨0⟩ ⟨1⟩ ⟨2⟩ ⟨3⟩ (.fixed dt) .euler) 1 1, 0⟩]⟩

section ExactStep

variable {vs : Values ℝ} {dt a b c : ℝ}

theorem exactStep_areAffine (dt : ℝ) : (exactStep dt).AreAffine :=
  ⟨List.forall_mem_singleton.2 trivial,
    List.forall_mem_singleton.2 (show List.Nodup [(⟨0⟩ : Key), ⟨1⟩, ⟨2⟩] by decide),
    List.forall_mem_singleton.2 (le_refl 0)⟩

variable (ha : vs.get? ⟨0⟩ = some (.scalar a)) (hb : vs.get? ⟨1⟩ = some (.scalar b))
  (hc : vs.get? ⟨2⟩ = some (.scalar c))

include ha hb hc

theorem residual_exactStep :
    (Relation.collocation ⟨0⟩ ⟨1⟩ ⟨2⟩ ⟨3⟩ (.fixed dt) .euler).residual vs =
      .ok [b - (a + dt * c)] :=
  Relation.residual_collocation_fixed.2 ⟨a, b, c, 0, scalar_eq_ok ha, scalar_eq_ok hb,
    scalar_eq_ok hc, rfl, rfl⟩

theorem rows_exactStep : (exactStep dt).rows vs = .ok [b - (a + dt * c)] :=
  map_eq_ok.2 ⟨_, mapM_eq_ok.2 (.cons (residual_exactStep ha hb hc) .nil), rfl⟩

/-- The linear model over the end and the rate of the step. -/
theorem jacobian_exactStep [Runtime ℝ] (ε : ℝ) : (exactStep dt).jacobian vs [⟨1⟩, ⟨2⟩] ε =
    .ok ⟨⟨1, [[1], [-dt]]⟩, [b - (a + dt * c)], [⟨1⟩, ⟨2⟩], ε⟩ := by
  have hrow : (Relation.collocation ⟨0⟩ ⟨1⟩ ⟨2⟩ ⟨3⟩ (.fixed dt) .euler).residual vs =
      .ok [b - (a + dt * c)] := residual_exactStep ha hb hc
  have hblocks := Relation.blocks_collocation_fixed hrow
  have hmodels : (exactStep dt).linearize vs =
      .ok [⟨[⟨0⟩, ⟨1⟩, ⟨2⟩], [[[-1]], [[1]], [[-dt]]], [b - (a + dt * c)]⟩] :=
    mapM_eq_ok.2 (.cons (bind_eq_ok.2 ⟨_, hrow,
      bind_eq_ok.2 ⟨_, Factor.blocks_of_exact hblocks, rfl⟩⟩) .nil)
  have hplaced : vs.Placed [(⟨1⟩, 1), (⟨2⟩, 1)] :=
    List.forall_mem_cons.2 ⟨⟨_, hb, rfl⟩, List.forall_mem_singleton.2 ⟨_, hc, rfl⟩⟩
  exact bind_eq_ok.2 ⟨_, hmodels, bind_eq_ok.2 ⟨_, hplaced.mapM_dim, rfl⟩⟩

end ExactStep

/-- The decomposition of the model of a step of length three quarters. -/
theorem decomposes_exactStep :
    SingularTriples.Decomposes [⟨[1], 5 / 4, [4 / 5, -(3 / 5)]⟩] ⟨1, [[1], [-(3 / 4)]]⟩ where
  length_eq := rfl
  length_left := List.forall_mem_singleton.2 rfl
  length_right := List.forall_mem_singleton.2 rfl
  left := ⟨List.forall_mem_singleton.2 (by norm_num [dot, dot.go]), List.pairwise_singleton _ _⟩
  right := ⟨List.forall_mem_singleton.2 (by norm_num [dot, dot.go]), List.pairwise_singleton _ _⟩
  value_nonneg := List.forall_mem_singleton.2 (by norm_num)
  apply_eq x hx := by
    obtain ⟨a, b, rfl⟩ := List.length_eq_two.1 hx
    norm_num [Dense.apply, combine, plus, dot, dot.go, axpy]
    ring

/-- With the start held, the end and the rate are corrected, once. -/
theorem retract_affine_exactStep :
    let p : RetractParams ℝ := { RetractParams.default with maxIterations := 5, epsilon := 1 }
    let s : SingularTriples ℝ := [⟨[1], 5 / 4, [4 / 5, -(3 / 5)]⟩]
    (exactStep (3 / 4)).AreAffine ∧ (exactStep (3 / 4)).rows steppedValues = .ok [5 / 2] ∧
      (exactStep (3 / 4)).compliant steppedValues = .ok false ∧
      Retractor.free (.overBasis [⟨0⟩]) (.ofConstraints (exactStep (3 / 4))) = [⟨1⟩, ⟨2⟩] ∧
      (∀ j, (exactStep (3 / 4)).jacobian steppedValues [⟨1⟩, ⟨2⟩] 1 = .ok j →
        s.Decomposes j.matrix ∧ s.Separated 1) ∧
      ∃ out, @retract ℝ _ (.knowing s) _ 0 (.ofConstraints (exactStep (3 / 4))) (.overBasis [⟨0⟩]) p
          steppedValues = .ok out ∧
        out.converged = true ∧ out.iterations = 1 ∧ (exactStep (3 / 4)).Holds out.values := by
  intro p s
  obtain ⟨h₀, h₁, h₂⟩ := steppedValues_get?
  have hrows : (exactStep (3 / 4)).rows steppedValues = .ok [5 / 2] := by
    rw [rows_exactStep h₀ h₁ h₂]
    norm_num
  have hfails : (exactStep (3 / 4)).compliant steppedValues = .ok false := by
    obtain ⟨-, converged, -, hconverged, hiff⟩ := Constraints.exists_compliant hrows
    cases converged with
    | false => exact hconverged
    | true =>
      obtain ⟨r, hr, -, hle⟩ :=
        Constraint.compliant_eq_true_iff.1 (hiff.1 rfl _ List.mem_cons_self)
      obtain rfl : [5 - (1 + 3 / 4 * 2)] = r := answer_unique (residual_exactStep h₀ h₁ h₂) hr
      have hrow := hle _ List.mem_cons_self (isNumber_exact _)
      exact absurd (show |(5 : ℝ) - (1 + 3 / 4 * 2)| ≤ 0 from hrow) (by norm_num)
  have hsvd : ∀ j, (exactStep (3 / 4)).jacobian steppedValues [⟨1⟩, ⟨2⟩] 1 = .ok j →
      s.Decomposes j.matrix ∧ s.Separated 1 := by
    intro j hj
    obtain rfl := answer_unique (jacobian_exactStep h₀ h₁ h₂ 1) hj
    exact ⟨decomposes_exactStep, zero_le_one, List.forall_mem_singleton.2 (.inr (by norm_num))⟩
  have hfree : Retractor.free (.overBasis [⟨0⟩]) (.ofConstraints (exactStep (3 / 4))) =
      [⟨1⟩, ⟨2⟩] := rfl
  have haffine := exactStep_areAffine (3 / 4)
  refine ⟨haffine, hrows, hfails, hfree, hsvd, ?_⟩
  obtain ⟨d, point, violation, converged, -, -, -, -, hretract, -, hnearest⟩ :=
    @retract_affine (.knowing s) _ (exactStep (3 / 4)) steppedValues [5 / 2] (.overBasis [⟨0⟩]) p 0
      haffine hrows hfails (by decide) (by rw [hfree]; exact List.cons_ne_nil _ _) hsvd
  -- the end where the rate leads to
  let y := steppedValues.insert ⟨1⟩ (.scalar (5 / 2))
  have hother : ∀ {k : Key}, k ≠ ⟨1⟩ → y.get? k = steppedValues.get? k := fun hk => by
    rw [get?_insert, if_neg hk]
  have hy : (exactStep (3 / 4)).Holds y :=
    ⟨_, rows_exactStep ((hother (by decide)).trans h₀) ((get?_insert ..).trans (if_pos rfl))
      ((hother (by decide)).trans h₂), List.forall_mem_singleton.2 (by norm_num)⟩
  obtain ⟨rfl, hholds, -⟩ := hnearest y hy fun k _ hfixed =>
    hother fun hk => hfixed (hk ▸ List.mem_cons_self)
  refine ⟨_, hretract fun k hk => ?_, rfl, rfl, hholds⟩
  exact List.mem_singleton.1 hk ▸ ⟨_, h₀⟩

end Articulated
