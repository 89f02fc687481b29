import Articulated.Constraint.Retraction
import Articulated.Dense.Jacobi
import Articulated.Proofs.Fault.Outcome
import Articulated.Proofs.Number.Machine

/-!
# What convergence means

A constraint is met if every row of its residual is within the tolerance in absolute value
(`Constraint.Met`). The test that a retraction ends with looks at a maximum that passes over rows
that are no numbers, and so decides a weaker property (`Constraint.MetByNumbers`).

* `Constraint.compliant_eq_true_iff`: the test of one constraint, exactly.
* `Constraints.compliant_of_evaluates`: the test of a set, once all its residuals evaluate.
* `conclude_spec`: what every outcome says about the assignment that it carries, and
  `retract_conclude`: every outcome of each of the three ways to retract is of this kind.
* `retract_converged_iff`: a retraction converges exactly if the numbers among the rows are within
  the tolerances; then all constraints are met exactly if no row is a NaN.
-/

namespace Articulated

open Scalar

/-! ## 1. One constraint -/

section Meaning

variable {α : Type} [Scalar α]

namespace Constraint

/-- The residual evaluates and every row is within the tolerance in absolute value. -/
def Met (c : Constraint α) (vs : Values α) : Prop :=
  ∃ rows, c.factor.residual vs = .ok rows ∧ ∀ x ∈ rows, Scalar.abs x ≤ c.tolerance

/-- The residual evaluates, the tolerance is not negative, and every row that is a number is
within it in absolute value. -/
def MetByNumbers (c : Constraint α) (vs : Values α) : Prop :=
  ∃ rows, c.factor.residual vs = .ok rows ∧ 0 ≤ c.tolerance ∧
    ∀ x ∈ rows, IsNumber x → Scalar.abs x ≤ c.tolerance

/-- Every row of the residual is a number, if it evaluates. -/
def RowsAreNumbers (c : Constraint α) (vs : Values α) : Prop :=
  ∀ rows, c.factor.residual vs = .ok rows → ∀ x ∈ rows, IsNumber x

theorem violation_eq_ok {c : Constraint α} {vs : Values α} {y : α} :
    c.violation vs = .ok y ↔ ∃ rows, c.factor.residual vs = .ok rows ∧ maxAbs rows = y :=
  map_eq_ok

theorem compliant_eq_ok {c : Constraint α} {vs : Values α} {b : Bool} :
    c.compliant vs = .ok b ↔ ∃ y, c.violation vs = .ok y ∧ decide (y ≤ c.tolerance) = b :=
  map_eq_ok

/-- **The test of a constraint passes over rows that are no numbers.** -/
theorem compliant_eq_true_iff [LawfulScalar α] {c : Constraint α} {vs : Values α} :
    c.compliant vs = .ok true ↔ c.MetByNumbers vs := by
  rw [compliant_eq_ok]
  constructor
  · intro hle
    obtain ⟨y, hy, hle⟩ := hle
    obtain ⟨rows, hrows, rfl⟩ := violation_eq_ok.1 hy
    exact ⟨rows, hrows, (maxAbs_le_iff rows).1 (of_decide_eq_true hle)⟩
  · intro hmet
    obtain ⟨rows, hrows, h⟩ := hmet
    exact ⟨maxAbs rows, violation_eq_ok.2 ⟨rows, hrows, rfl⟩,
      decide_eq_true ((maxAbs_le_iff rows).2 h)⟩

theorem met_iff_of_metByNumbers [LawfulScalar α] {c : Constraint α} {vs : Values α}
    (h : c.MetByNumbers vs) : c.Met vs ↔ c.RowsAreNumbers vs := by
  obtain ⟨rows, hrows, -, hnum⟩ := h
  constructor
  · intro hmet rows'' hrows'' x hx
    obtain ⟨rows', hrows', hmet⟩ := hmet
    obtain rfl : rows' = rows'' := answer_unique hrows' hrows''
    exact LawfulScalar.isNumber_abs.1 (LawfulScalar.isNumber_of_le (hmet x hx)).1
  · intro hn
    exact ⟨rows, hrows, fun x hx => hnum x hx (hn rows hrows x hx)⟩

end Constraint

/-! ## 2. Sets of constraints -/

namespace Constraints

variable {cs : Constraints α} {vs : Values α}

theorem largestViolation_eq_ok {m : α} :
    cs.largestViolation vs = .ok m ↔
      ∃ ys, List.Forall₂ (fun c y => c.violation vs = .ok y) cs.items ys ∧
        ys.foldl maxNum 0 = m :=
  foldlM_answers_eq_ok

theorem allCompliant_of_evaluates :
    ∀ {l : List (Constraint α)}, (∀ c ∈ l, ∃ b, c.compliant vs = .ok b) →
      ∃ b, allCompliant vs l = .ok b ∧ (b = true ↔ ∀ c ∈ l, c.compliant vs = .ok true)
  | [], _ => ⟨true, rfl, by simp⟩
  | c :: l, h => by
    obtain ⟨b, hb⟩ := h c List.mem_cons_self
    obtain ⟨b', hb', hiff⟩ := allCompliant_of_evaluates fun d hd => h d (List.mem_cons_of_mem c hd)
    cases b with
    | true =>
      refine ⟨b', bind_eq_ok.2 ⟨true, hb, hb'⟩, ?_⟩
      rw [hiff, List.forall_mem_cons, and_iff_right hb]
    | false =>
      refine ⟨false, bind_eq_ok.2 ⟨false, hb, rfl⟩, nofun, fun hall => ?_⟩
      have htrue := hall c List.mem_cons_self
      rw [hb] at htrue
      exact Except.ok.inj htrue

/-- Once the residuals evaluate, the test of a set is that of its constraints. -/
theorem compliant_of_evaluates {m : α} (h : cs.largestViolation vs = .ok m) :
    ∃ b, cs.compliant vs = .ok b ∧ (b = true ↔ ∀ c ∈ cs.items, c.compliant vs = .ok true) := by
  obtain ⟨ys, hys, -⟩ := largestViolation_eq_ok.1 h
  refine allCompliant_of_evaluates fun c hc => ?_
  obtain ⟨y, -, hy⟩ := exists_answer hys hc
  exact ⟨_, Constraint.compliant_eq_ok.2 ⟨y, hy, rfl⟩⟩

variable {x t : α}

theorem exists_largestViolation (h : ∀ q ∈ cs.items, ∃ y, q.violation vs = .ok y) :
    ∃ x, cs.largestViolation vs = .ok x := by
  obtain ⟨ys, hys⟩ := exists_forall₂ h
  exact ⟨_, largestViolation_eq_ok.2 ⟨ys, hys, rfl⟩⟩

theorem exists_violation {q : Constraint α} (h : cs.largestViolation vs = .ok x)
    (hq : q ∈ cs.items) : ∃ y, q.violation vs = .ok y := by
  obtain ⟨ys, hys, -⟩ := largestViolation_eq_ok.1 h
  obtain ⟨y, -, hy⟩ := exists_answer hys hq
  exact ⟨y, hy⟩

variable [LawfulScalar α]

theorem isMagnitude_violation {q : Constraint α} {y : α} (h : q.violation vs = .ok y) :
    IsMagnitude y := by
  obtain ⟨rows, -, rfl⟩ := Constraint.violation_eq_ok.1 h
  exact isMagnitude_maxAbs rows

theorem forall_violation_iff : ∀ {l : List (Constraint α)} {ys : List α},
    List.Forall₂ (fun q y => q.violation vs = .ok y) l ys →
      ((∀ y ∈ ys, IsNumber y → y ≤ t) ↔ ∀ q ∈ l, ∀ y, q.violation vs = .ok y → y ≤ t)
  | _, _, .nil => by simp
  | _, _, .cons (a := q) (b := y) hq hl => by
    have hhead : (IsNumber y → y ≤ t) ↔ ∀ y', q.violation vs = .ok y' → y' ≤ t :=
      ⟨fun h y' hy' => answer_unique hq hy' ▸ h (isMagnitude_violation hq).1,
        fun h _ => h y hq⟩
    rw [List.forall_mem_cons, List.forall_mem_cons, hhead, forall_violation_iff hl]

/-- A bound of the largest violation bounds every violation. -/
theorem largestViolation_le_iff (h : cs.largestViolation vs = .ok x) :
    x ≤ t ↔ 0 ≤ t ∧ ∀ q ∈ cs.items, ∀ y, q.violation vs = .ok y → y ≤ t := by
  obtain ⟨ys, hys, rfl⟩ := largestViolation_eq_ok.1 h
  rw [foldl_maxNum_le_iff ys LawfulScalar.isNumber_zero, forall_violation_iff hys]

theorem isMagnitude_largestViolation (h : cs.largestViolation vs = .ok x) : IsMagnitude x := by
  obtain ⟨ys, hys, rfl⟩ := largestViolation_eq_ok.1 h
  refine isMagnitude_foldl_maxNum ys isMagnitude_zero fun y hy => ?_
  obtain ⟨q, -, hq⟩ := exists_answer hys.flip hy
  exact (isMagnitude_violation hq).2

end Constraints

/-! ## 3. Outcomes -/

/-- An outcome says of its own assignment how far off the constraints are and whether they hold. -/
theorem conclude_spec {c : Component α} {vs : Values α} {n : Nat} {out : Retraction α}
    (h : conclude c vs n = .ok out) :
    out.values = vs ∧ c.constraints.largestViolation out.values = .ok out.largestViolation ∧
      c.constraints.compliant out.values = .ok out.converged := by
  obtain ⟨m, hm, h⟩ := bind_eq_ok.1 h
  obtain ⟨b, hb, rfl⟩ := map_eq_ok.1 h
  exact ⟨rfl, hm, hb⟩

variable [Factorization α] [Runtime α]

/-- **Every outcome of a retraction is concluded at the assignment that it carries.** -/
theorem retract_conclude {attempts : Nat} {c : Component α} {r : Retractor} {p : RetractParams α}
    {vs : Values α} {out : Retraction α} (h : retract attempts c r p vs = .ok out) :
    ∃ n, conclude c out.values n = .ok out := by
  have hconclude : ∀ {last n}, conclude c last n = .ok out →
      ∃ n, conclude c out.values n = .ok out :=
    fun {_ n} h => ⟨n, (conclude_spec h).1 ▸ h⟩
  have hproject : ∀ {free}, project c free p vs = .ok out →
      ∃ n, conclude c out.values n = .ok out := by
    intro free h
    obtain ⟨⟨last, n⟩, -, h⟩ := bind_eq_ok.1 h
    exact hconclude h
  cases r with
  | optimizing =>
    obtain ⟨report, -, h⟩ := bind_eq_ok.1 h
    exact hconclude h
  | projecting => exact hproject h
  | overBasis basis =>
    obtain ⟨-, -, h⟩ := bind_eq_ok.1 h
    exact hproject h

end Meaning

/-! ## 4. Machine numbers -/

/-- **A retraction converges exactly if every row that is a number is within its tolerance; then
the constraints are met exactly if no row is a NaN.** -/
theorem retract_converged_iff [Factorization Float] [Runtime Float] {attempts : Nat}
    {c : Component Float} {r : Retractor} {p : RetractParams Float} {vs : Values Float}
    {out : Retraction Float} (h : retract attempts c r p vs = .ok out) :
    (out.converged = true ↔ ∀ q ∈ c.constraints.items, q.MetByNumbers out.values) ∧
      (out.converged = true →
        ((∀ q ∈ c.constraints.items, q.Met out.values) ↔
          ∀ q ∈ c.constraints.items, q.RowsAreNumbers out.values)) := by
  obtain ⟨n, hn⟩ := retract_conclude h
  obtain ⟨-, hviolation, hcompliant⟩ := conclude_spec hn
  obtain ⟨b, hb, hiff⟩ := Constraints.compliant_of_evaluates hviolation
  obtain rfl : b = out.converged := answer_unique hb hcompliant
  have hmet : out.converged = true ↔ ∀ q ∈ c.constraints.items, q.MetByNumbers out.values :=
    hiff.trans (forall₂_congr fun q _ => Constraint.compliant_eq_true_iff)
  refine ⟨hmet, fun hconverged => forall₂_congr fun q hq => ?_⟩
  exact Constraint.met_iff_of_metByNumbers (hmet.1 hconverged q hq)

/-- A scalar variable is one. -/
def pin : Constraint Float := ⟨.scalarPrior ⟨1⟩ 1 1, 1e-6⟩

/-- The component of one such constraint. -/
def pinned : Component Float := .ofConstraints ⟨[pin]⟩

/-- No correction is made. -/
def uncorrected : RetractParams Float := { RetractParams.default with maxIterations := 0 }

set_option maxRecDepth 2000 in
theorem retract_converged_iff_at_one :
    (retract 0 pinned .projecting uncorrected (Values.empty.insert ⟨1⟩ (.scalar 1)) =
        .ok ⟨Values.empty.insert ⟨1⟩ (.scalar 1), true, 0, 0⟩) ∧
      ∀ q ∈ pinned.constraints.items, q.MetByNumbers (Values.empty.insert ⟨1⟩ (.scalar 1)) :=
  have h : retract 0 pinned .projecting uncorrected (Values.empty.insert ⟨1⟩ (.scalar 1)) =
      .ok ⟨Values.empty.insert ⟨1⟩ (.scalar 1), true, 0, 0⟩ := rfl
  ⟨h, (retract_converged_iff h).1.1 rfl⟩

theorem pin_residual_nan :
    pin.factor.residual (Values.empty.insert ⟨1⟩ (.scalar (0 / 0))) = .ok [0 / 0 - 1] := rfl

theorem pin_not_met_nan : ¬ pin.Met (Values.empty.insert ⟨1⟩ (.scalar (0 / 0))) := by
  intro hmet
  obtain ⟨rows, hrows, hmet⟩ := hmet
  have heq : rows = [0 / 0 - 1] := answer_unique hrows pin_residual_nan
  have hrow : Scalar.abs ((0 : Float) / 0 - 1) ≤ 1e-6 := hmet _ (heq ▸ List.mem_singleton.2 rfl)
  exact absurd hrow (by decide)

/-- **A variable that is no number counts as converged.** Its constraint has the one row NaN,
which is within no tolerance. -/
theorem retract_converged_at_nan :
    ∃ out, retract 0 pinned .projecting uncorrected (Values.empty.insert ⟨1⟩ (.scalar (0 / 0))) =
        .ok out ∧ out.converged = true ∧ ¬ ∀ q ∈ pinned.constraints.items, q.Met out.values :=
  ⟨⟨Values.empty.insert ⟨1⟩ (.scalar (0 / 0)), true, 0, 0⟩, rfl, rfl,
    fun h => pin_not_met_nan (h pin (List.mem_singleton.2 rfl))⟩

end Articulated
