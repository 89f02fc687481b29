import Articulated.Dense.Jacobi
import Articulated.Proofs.Number.Machine
import Articulated.Proofs.Solver.Frame

/-!
# What an optimization reports

The solution of an optimization carries the error before and after, a count and a verdict. They
are what they say they are: every iterate is kept together with the error of the graph there, and
an iteration ends without a verdict only if it takes one from the budget. Damped steps are taken
downhill, so that their last error is below the first one unless no step was taken.

* `gaussNewton_inStep`, `levenbergMarquardt_inStep`: the two methods, by induction on what is left
  of their budgets; `optimize_inStep`: both as the optimizer runs them.
* `levenbergMarquardt_descends`: the errors of a damped run.
* `Solution.Truthful`: what is asked of a solution.
* `optimize_truthful`: every solution is of this kind.
* `optimize_damped_isNaN`: where an error is no number, so is the last one, and a damped run calls
  this converged; `optimize_damped_converged_at_nan` is such a run.
-/

namespace Articulated

open Scalar

/-! ## 1. Runs -/

section Runs

variable {α : Type} [Scalar α]

/-- Where an optimization starts. -/
def Progress.initial (p : OptimizerParams α) (vs : Values α) (error : α) : Progress α :=
  ⟨vs, error, 0, error ≤ p.absoluteTolerance⟩

/-- The error of the state is that of the graph at its values. -/
def Progress.InStep [Runtime α] (g : FactorGraph α) (s : Progress α) : Prop :=
  g.error s.values = .ok s.error

/-- The second state has a smaller error, or the first one was not left. -/
def Progress.Descends (s last : Progress α) : Prop :=
  last.error < s.error ∨ last.values = s.values ∧ last.error = s.error

variable [Factorization α] [Runtime α] {g : FactorGraph α} {ordering : List Key}
  {p : OptimizerParams α}

/-- The full steps carry the error along, and end without a verdict only at the end of their
budget. -/
theorem gaussNewton_inStep : ∀ {budget : Nat} {s last : Progress α},
    gaussNewton g ordering p budget s = .ok last → s.InStep g →
      last.InStep g ∧ (last.converged = false → last.iterations = s.iterations + budget)
  | 0, s, last, h, hs => by
    obtain rfl := pure_eq_ok.1 h
    exact ⟨hs, fun _ => rfl⟩
  | budget + 1, s, last, h, hs => by
    unfold gaussNewton at h
    split at h
    · rename_i hconverged
      obtain rfl := pure_eq_ok.1 h
      exact ⟨hs, fun hfalse => Bool.noConfusion (hconverged.symm.trans hfalse)⟩
    · obtain ⟨j, -, h⟩ := bind_eq_ok.1 h
      obtain ⟨δ, -, h⟩ := bind_eq_ok.1 h
      obtain ⟨next, -, h⟩ := bind_eq_ok.1 h
      obtain ⟨error, herror, h⟩ := bind_eq_ok.1 h
      obtain ⟨hlast, hspent⟩ := gaussNewton_inStep h herror
      exact ⟨hlast, fun hfalse => (hspent hfalse).trans (Nat.succ_add_eq_add_succ _ _)⟩

/-- What a damped step answers comes with its error, which is smaller. -/
theorem tryStep_lower {vs next : Values α} {error nextError lambda : α} {gram : List (List α)}
    {descent : List α}
    (h : tryStep g ordering vs error gram descent lambda = .ok (some (next, nextError))) :
    g.error next = .ok nextError ∧ nextError < error := by
  unfold tryStep at h
  split at h
  · cases pure_eq_ok.1 h
  · obtain ⟨moved, -, h⟩ := bind_eq_ok.1 h
    obtain ⟨error', herror, h⟩ := map_eq_ok.1 h
    split at h
    · rename_i hlt
      obtain ⟨rfl, rfl⟩ := Prod.mk.inj (Option.some.inj h)
      exact ⟨herror, hlt⟩
    · cases h

/-- Whatever damping is accepted, the step comes with its error, which is smaller. -/
theorem damp_lower {vs : Values α} {error : α} {gram : List (List α)} {descent : List α} :
    ∀ {attempts : Nat} {lambda : α} {next : Values α} {nextError nextLambda : α},
      damp g ordering p vs error gram descent attempts lambda =
        .ok (.accepted next nextError nextLambda) →
      g.error next = .ok nextError ∧ nextError < error
  | 0, _, _, _, _, h => by cases h
  | attempts + 1, lambda, next, nextError, nextLambda, h => by
    unfold damp at h
    obtain ⟨answer, hanswer, h⟩ := bind_eq_ok.1 h
    cases answer with
    | some step =>
      obtain ⟨rfl, rfl, -⟩ := Attempt.accepted.inj (pure_eq_ok.1 h)
      exact tryStep_lower hanswer
    | none =>
      simp only at h
      split at h
      · cases pure_eq_ok.1 h
      · exact damp_lower h

/-- The damped steps carry the error along, and end without a verdict only at the end of their
budget. -/
theorem levenbergMarquardt_inStep {attempts : Nat} : ∀ {budget : Nat} {lambda : α}
    {s last : Progress α}, levenbergMarquardt attempts g ordering p budget lambda s = .ok last →
      s.InStep g →
      last.InStep g ∧ (last.converged = false → last.iterations = s.iterations + budget)
  | 0, _, s, last, h, hs => by
    obtain rfl := pure_eq_ok.1 h
    exact ⟨hs, fun _ => rfl⟩
  | budget + 1, lambda, s, last, h, hs => by
    unfold levenbergMarquardt at h
    split at h
    · rename_i hconverged
      obtain rfl := pure_eq_ok.1 h
      exact ⟨hs, fun hfalse => Bool.noConfusion (hconverged.symm.trans hfalse)⟩
    · obtain ⟨j, -, h⟩ := bind_eq_ok.1 h
      obtain ⟨attempt, hattempt, h⟩ := bind_eq_ok.1 h
      cases attempt with
      | exhausted =>
        obtain rfl := pure_eq_ok.1 h
        exact ⟨hs, fun hfalse => Bool.noConfusion hfalse⟩
      | accepted next error lambda' =>
        obtain ⟨hlast, hspent⟩ := levenbergMarquardt_inStep h (damp_lower hattempt).1
        exact ⟨hlast, fun hfalse => (hspent hfalse).trans (Nat.succ_add_eq_add_succ _ _)⟩

/-- The errors of a solution are those of the graph before and after. -/
theorem optimize_inStep {attempts : Nat} {initial : Values α} {out : Solution α}
    (h : optimize attempts g initial p = .ok out) :
    g.error initial = .ok out.initialError ∧ g.error out.values = .ok out.finalError := by
  unfold optimize at h
  obtain ⟨-, -, h⟩ := bind_eq_ok.1 h
  obtain ⟨error, herror, h⟩ := bind_eq_ok.1 h
  split at h
  · obtain rfl := pure_eq_ok.1 h
    exact ⟨herror, herror⟩
  · have hstart : Progress.InStep g ⟨initial, error, 0, error ≤ p.absoluteTolerance⟩ := herror
    split at h
    · obtain ⟨last, hrun, rfl⟩ := map_eq_ok.1 h
      exact ⟨herror, (gaussNewton_inStep hrun hstart).1⟩
    · obtain ⟨last, hrun, rfl⟩ := map_eq_ok.1 h
      exact ⟨herror, (levenbergMarquardt_inStep hrun hstart).1⟩

/-- **Damped steps lead downhill.** -/
theorem levenbergMarquardt_descends [LawfulScalar α] {attempts : Nat} : ∀ {budget : Nat}
    {lambda : α} {s last : Progress α},
      levenbergMarquardt attempts g ordering p budget lambda s = .ok last → s.Descends last
  | 0, _, s, last, h => by
    obtain rfl := pure_eq_ok.1 h
    exact .inr ⟨rfl, rfl⟩
  | budget + 1, lambda, s, last, h => by
    unfold levenbergMarquardt at h
    split at h
    · obtain rfl := pure_eq_ok.1 h
      exact .inr ⟨rfl, rfl⟩
    · obtain ⟨j, -, h⟩ := bind_eq_ok.1 h
      obtain ⟨attempt, hattempt, h⟩ := bind_eq_ok.1 h
      cases attempt with
      | exhausted =>
        obtain rfl := pure_eq_ok.1 h
        exact .inr ⟨rfl, rfl⟩
      | accepted next error lambda' =>
        have hlt := (damp_lower hattempt).2
        rcases levenbergMarquardt_descends h with hlower | ⟨-, heq⟩
        · exact .inl (LawfulScalar.lt_trans hlower hlt)
        · exact .inl (heq ▸ hlt)

/-- No step lowers an error that is no number, so the attempts end, if at all, with the damping. -/
theorem damp_of_not_isNumber [LawfulScalar α] {vs : Values α} {error : α} {gram : List (List α)}
    {descent : List α} {attempts : Nat} {lambda : α} {out : Attempt α} (herror : ¬ IsNumber error)
    (h : damp g ordering p vs error gram descent attempts lambda = .ok out) : out = .exhausted := by
  cases out with
  | exhausted => rfl
  | accepted next nextError nextLambda =>
    have hle := (LawfulScalar.lt_iff.1 (damp_lower h).2).1
    exact absurd (LawfulScalar.isNumber_of_le hle).2 herror

/-- Damped steps from an error that is no number stay where they are. The first iteration is the
last one, and it ends with a verdict. -/
theorem levenbergMarquardt_of_not_isNumber [LawfulScalar α] {attempts budget : Nat} {lambda : α}
    {s last : Progress α} (hopen : s.converged = false) (hs : ¬ IsNumber s.error)
    (h : levenbergMarquardt attempts g ordering p budget lambda s = .ok last) :
    last = { s with iterations := s.iterations + min 1 budget, converged := budget != 0 } := by
  cases budget with
  | zero =>
    obtain rfl := pure_eq_ok.1 h
    show s = { s with converged := false }
    rw [← hopen]
  | succ budget =>
    unfold levenbergMarquardt at h
    rw [hopen, if_neg Bool.false_ne_true] at h
    obtain ⟨j, -, h⟩ := bind_eq_ok.1 h
    obtain ⟨attempt, hattempt, h⟩ := bind_eq_ok.1 h
    obtain rfl := damp_of_not_isNumber hs hattempt
    obtain rfl := pure_eq_ok.1 h
    rw [Nat.min_eq_left (Nat.succ_pos budget)]
    rfl

end Runs

/-! ## 2. Solutions -/

/-- What the solution of an optimization reports is the case. -/
structure Solution.Truthful {α : Type} [Scalar α] [Runtime α] (out : Solution α)
    (g : FactorGraph α) (initial : Values α) (p : OptimizerParams α) : Prop where
  /-- The errors are those of the graph before and after. -/
  initialError_eq : g.error initial = .ok out.initialError
  finalError_eq : g.error out.values = .ok out.finalError
  /-- The same variables have values of the same kinds. -/
  keys_eq : out.values.keys = initial.keys
  kind_eq : ∀ k, (out.values.get? k).map Value.kind = (initial.get? k).map Value.kind
  /-- Variables outside the graph have their values. -/
  unchanged : ∀ k ∉ g.keys.toList, out.values.get? k = initial.get? k
  iterations_le : out.iterations ≤ p.maxIterations
  /-- There is no verdict only if the budget is used up. -/
  spent : out.converged = false → out.iterations = p.maxIterations
  /-- A damped run does not raise the error, and an error as before means that nothing moved. -/
  descent : p.method = .levenbergMarquardt → IsNumber out.initialError →
    out.finalError ≤ out.initialError ∧
      ((out.finalError == out.initialError) = true → out.values = initial)

/-- A run that descends ends no higher than it began, and as high only where it began. -/
theorem Progress.Descends.error_le {s last : Progress Float} (h : s.Descends last)
    (hs : IsNumber s.error) :
    last.error ≤ s.error ∧ ((last.error == s.error) = true → last.values = s.values) := by
  rcases h with hlt | ⟨hvalues, herror⟩
  · refine ⟨(LawfulScalar.lt_iff.1 hlt).1, fun heq => ?_⟩
    exact Bool.noConfusion ((Machine.beq_eq_false hlt).symm.trans heq)
  · exact ⟨herror.symm ▸ le_refl_of_isNumber hs, fun _ => hvalues⟩

/-- **The solution of an optimization is truthful.** -/
theorem optimize_truthful [Factorization Float] [Runtime Float] {attempts : Nat}
    {g : FactorGraph Float} {initial : Values Float} {p : OptimizerParams Float}
    {out : Solution Float} (h : optimize attempts g initial p = .ok out) :
    out.Truthful g initial p := by
  obtain ⟨hmoved, hle⟩ := optimize_frame h
  unfold optimize at h
  obtain ⟨-, -, h⟩ := bind_eq_ok.1 h
  obtain ⟨error, herror, h⟩ := bind_eq_ok.1 h
  split at h
  · obtain rfl := pure_eq_ok.1 h
    exact ⟨herror, herror, rfl, hmoved.kind_eq, hmoved.unchanged, hle, nofun,
      fun _ hnumber => ⟨le_refl_of_isNumber hnumber, fun _ => rfl⟩⟩
  · have hstart : Progress.InStep g ⟨initial, error, 0, error ≤ p.absoluteTolerance⟩ := herror
    cases hmethod : p.method with
    | gaussNewton =>
      rw [hmethod] at h
      obtain ⟨last, hrun, rfl⟩ := map_eq_ok.1 h
      obtain ⟨hlast, hspent⟩ := gaussNewton_inStep hrun hstart
      exact ⟨herror, hlast, hmoved.keys_eq, hmoved.kind_eq, hmoved.unchanged, hle,
        fun hfalse => (hspent hfalse).trans (Nat.zero_add _),
        fun hdamped => Method.noConfusion (hmethod.symm.trans hdamped)⟩
    | levenbergMarquardt =>
      rw [hmethod] at h
      obtain ⟨last, hrun, rfl⟩ := map_eq_ok.1 h
      obtain ⟨hlast, hspent⟩ := levenbergMarquardt_inStep hrun hstart
      exact ⟨herror, hlast, hmoved.keys_eq, hmoved.kind_eq, hmoved.unchanged, hle,
        fun hfalse => (hspent hfalse).trans (Nat.zero_add _),
        fun _ hnumber => (levenbergMarquardt_descends hrun).error_le hnumber⟩

/-- A variable is asked to be one and to be three. -/
def tornGraph : FactorGraph Float := ⟨[.scalarPrior ⟨1⟩ 1 1, .scalarPrior ⟨1⟩ 3 1]⟩

/-- The variable at zero, and one that the graph does not have. -/
def tornStart : Values Float :=
  (Values.empty.insert ⟨1⟩ (.scalar 0)).insert ⟨9⟩ (.scalar 7)

/-- A damped run goes halfway, where the error is one, and stays there. -/
theorem optimize_truthful_torn :
    ∃ out, optimize 100 tornGraph tornStart .damped = .ok out ∧ out.converged = true ∧
      out.initialError == 5 ∧ out.finalError == 1 ∧ out.Truthful tornGraph tornStart .damped := by
  have hrun : (optimize 100 tornGraph tornStart .damped).toOption.map
      (fun out => (out.converged, out.initialError == 5, out.finalError == 1)) =
        some (true, true, true) := by
    decide +kernel
  obtain ⟨out, hout, hends⟩ := Option.map_eq_some_iff.1 hrun
  have h := toOption_eq_some_iff.1 hout
  obtain ⟨hconverged, hinitial, hfinal⟩ := by simpa using hends
  exact ⟨out, h, hconverged, hinitial, hfinal, optimize_truthful h⟩

/-! ## 3. Errors that are no numbers -/

/-- The error of a graph without factors is a number. -/
theorem FactorGraph.isNumber_error_of_isEmpty [Runtime Float] {g : FactorGraph Float}
    {vs : Values Float} {error : Float} (hg : g.isEmpty = true) (h : g.error vs = .ok error) :
    IsNumber error := by
  obtain ⟨costs, hcosts, rfl⟩ := map_eq_ok.1 h
  rw [List.isEmpty_iff.1 hg] at hcosts
  obtain rfl := pure_eq_ok.1 hcosts
  exact LawfulScalar.isNumber_zero

/-- **A damped run keeps an error that is no number, and calls this converged.** The last error is a
number exactly if the first one is. If it is not, the run stays at its start, and it converges there
in its first iteration, if it has one. -/
theorem optimize_damped_isNaN [Factorization Float] [Runtime Float] {attempts : Nat}
    {g : FactorGraph Float} {initial : Values Float} {p : OptimizerParams Float}
    {out : Solution Float} (hmethod : p.method = .levenbergMarquardt)
    (h : optimize attempts g initial p = .ok out) :
    out.finalError.isNaN = out.initialError.isNaN ∧
      (out.initialError.isNaN = true → out.values = initial ∧
        out.iterations = min 1 p.maxIterations ∧
        (out.converged = true ↔ p.maxIterations ≠ 0)) := by
  have hnan : ∀ x : Float, x.isNaN = true ↔ ¬ IsNumber x := fun x => by
    rw [Machine.isNumber_iff_isNaN, Bool.not_eq_false]
  unfold optimize at h
  obtain ⟨-, -, h⟩ := bind_eq_ok.1 h
  obtain ⟨error, herror, h⟩ := bind_eq_ok.1 h
  split at h
  · rename_i hg
    obtain rfl := pure_eq_ok.1 h
    refine ⟨rfl, fun hundefined => ?_⟩
    exact absurd (FactorGraph.isNumber_error_of_isEmpty hg herror) ((hnan error).1 hundefined)
  · rw [hmethod] at h
    obtain ⟨last, hrun, rfl⟩ := map_eq_ok.1 h
    by_cases hnumber : IsNumber error
    · have hlast : IsNumber last.error := by
        rcases levenbergMarquardt_descends hrun with hlt | ⟨-, heq⟩
        · exact (LawfulScalar.isNumber_of_le (LawfulScalar.lt_iff.1 hlt).1).1
        · exact heq ▸ hnumber
      refine ⟨?_, fun hundefined => absurd hnumber ((hnan error).1 hundefined)⟩
      exact (Machine.isNumber_iff_isNaN.1 hlast).trans (Machine.isNumber_iff_isNaN.1 hnumber).symm
    · have hopen : decide (error ≤ p.absoluteTolerance) = false :=
        decide_eq_false fun hle => hnumber (LawfulScalar.isNumber_of_le hle).1
      obtain rfl := levenbergMarquardt_of_not_isNumber hopen hnumber hrun
      exact ⟨rfl, fun _ => ⟨rfl, Nat.zero_add _, bne_iff_ne⟩⟩

/-- A variable is asked to be one. -/
def singlePrior : FactorGraph Float := ⟨[.scalarPrior ⟨1⟩ 1 1]⟩

/-- The variable has a value that is no number. -/
def undefinedStart : Values Float := Values.empty.insert ⟨1⟩ (.scalar (0 / 0))

/-- **A damped run converges to an error that is no number.** -/
theorem optimize_damped_converged_at_nan :
    ∃ out, optimize 100 singlePrior undefinedStart .damped = .ok out ∧ out.converged = true ∧
      out.finalError.isNaN = true := by
  have hrun : (optimize 100 singlePrior undefinedStart .damped).toOption.map
      (fun out => (out.converged, out.finalError.isNaN)) = some (true, true) := by
    decide +kernel
  obtain ⟨out, hout, hends⟩ := Option.map_eq_some_iff.1 hrun
  obtain ⟨hconverged, hundefined⟩ := Prod.mk.inj hends
  exact ⟨out, toOption_eq_some_iff.1 hout, hconverged, hundefined⟩

/-- This run does not leave its start. -/
theorem optimize_damped_isNaN_singlePrior :
    ∃ out, (OptimizerParams.damped (α := Float)).method = .levenbergMarquardt ∧
      optimize 100 singlePrior undefinedStart .damped = .ok out ∧
      out.values = undefinedStart ∧ out.iterations = 1 ∧ out.finalError.isNaN = true := by
  have hrun : (optimize 100 singlePrior undefinedStart .damped).toOption.map
      (fun out => out.initialError.isNaN) = some true := by
    decide +kernel
  obtain ⟨out, hout, hundefined⟩ := Option.map_eq_some_iff.1 hrun
  have h := toOption_eq_some_iff.1 hout
  obtain ⟨hsame, hstays⟩ := optimize_damped_isNaN rfl h
  obtain ⟨hvalues, hiterations, -⟩ := hstays hundefined
  exact ⟨out, rfl, h, hvalues, hiterations, hsame.trans hundefined⟩

end Articulated
