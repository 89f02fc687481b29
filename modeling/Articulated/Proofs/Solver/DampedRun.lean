import Mathlib.Data.Rat.Cast.Order
import Mathlib.Order.Bounds.Defs
import Articulated.Proofs.Number.Exact
import Articulated.Proofs.Solver.Attempts
import Articulated.Proofs.Solver.FullStep
import Articulated.Proofs.Solver.Report

/-!
# Damped runs, attempt by attempt

A damped run goes from attempt to attempt. An accepted attempt ends an iteration and divides the
damping by its factor, a rejected one multiplies it, and the run ends when the damping passes its
bound. So the damping with which an iteration begins depends on everything before. Whatever the
factorization answers at each attempt, with exact numbers the damping stays positive, the errors
fall, and the attempts of an iteration are bounded by the damping with which it begins.

* `DampedState`, `DampedState.Step`: where the attempts stand, and what one attempt does.
* `DampedState.Reached`: the states of a run. `DampedState.Step.rest_eq`: an attempt is what is
  computed next; `levenbergMarquardt_reached`: a run that succeeds ends in one of its states.
* `DampedState.Step.bounded`, `DampedState.Reached.bounded`: what an attempt, and so a run, keeps.
* `optimize_damped_terminates`: damped runs end.
-/

namespace Articulated

open Scalar

/-! ## 1. States and attempts -/

/-- Where the attempts of a damped run stand. -/
structure DampedState (α : Type) where
  /-- What was accepted last, and the iterations that are complete. -/
  progress : Progress α
  /-- The errors that were accepted, the latest first, down to the error at the start. -/
  errors : List α
  /-- The damping with which the iteration began. -/
  first : α
  /-- The attempts of the iteration that were rejected. -/
  rejected : Nat
  /-- The damping of the next attempt. -/
  lambda : α

namespace DampedState

variable {α : Type} [Scalar α]

/-- Before the first attempt. -/
def start (s : Progress α) (lambda : α) : DampedState α := ⟨s, [s.error], lambda, 0, lambda⟩

section Moves

variable (p : OptimizerParams α) (s : DampedState α)

/-- There will be another attempt. -/
def Open : Prop := s.progress.converged = false ∧ s.progress.iterations < p.maxIterations

/-- The attempt led to values with a lower error. -/
def accept (next : Values α) (error : α) : DampedState α :=
  let lambda := maxNum (s.lambda / p.lambdaFactor) leastLambda
  ⟨⟨next, error, s.progress.iterations + 1, p.stops s.progress.error error⟩, error :: s.errors,
    lambda, 0, lambda⟩

/-- The attempt did not lower the error. -/
def reject : DampedState α :=
  { s with rejected := s.rejected + 1, lambda := s.lambda * p.lambdaFactor }

/-- The attempt did not lower the error, and the damping has passed its bound. -/
def exhaust : DampedState α :=
  { s.reject p with
    progress := { s.progress with iterations := s.progress.iterations + 1, converged := true } }

end Moves

variable [Factorization α] [Runtime α] (g : FactorGraph α) (ordering : List Key)
  (p : OptimizerParams α)

/-- What the attempt answers: the values and the error it leads to, if the error is lower. -/
def attempt (s : DampedState α) : Except (Fault α) (Option (Values α × α)) := do
  let j ← g.jacobian s.progress.values ordering p.rankTolerance
  tryStep g ordering s.progress.values s.progress.error j.matrix.gram
    ((j.matrix.applyTransposed j.residual).map (- ·)) s.lambda

/-- One attempt. -/
inductive Step : DampedState α → DampedState α → Prop
  | accept {s : DampedState α} {next : Values α} {error : α} (hopen : s.Open p)
      (h : s.attempt g ordering p = .ok (some (next, error))) : Step s (s.accept p next error)
  | reject {s : DampedState α} (hopen : s.Open p) (h : s.attempt g ordering p = .ok none)
      (hbelow : ¬ p.maxLambda < s.lambda * p.lambdaFactor) : Step s (s.reject p)
  | exhaust {s : DampedState α} (hopen : s.Open p) (h : s.attempt g ordering p = .ok none)
      (hbeyond : p.maxLambda < s.lambda * p.lambdaFactor) : Step s (s.exhaust p)

/-- The states of the run that starts from some progress. -/
inductive Reached (s₀ : Progress α) : DampedState α → Prop
  | start : Reached s₀ (start s₀ p.initialLambda)
  | step {s s' : DampedState α} (h : Reached s₀ s) (hstep : s.Step g ordering p s') :
      Reached s₀ s'

end DampedState

/-! ## 2. The computation and its states -/

section Computation

variable {α : Type} [Scalar α] [Factorization α] [Runtime α] {g : FactorGraph α}
  {ordering : List Key} {p : OptimizerParams α} {s₀ : Progress α}

open DampedState

/-- The attempts of an iteration lead to the state after it. -/
theorem damp_reached {j : Jacobian α} : ∀ {attempts : Nat} {s : DampedState α} {out : Attempt α},
    Reached g ordering p s₀ s → s.Open p →
      g.jacobian s.progress.values ordering p.rankTolerance = .ok j →
      damp g ordering p s.progress.values s.progress.error j.matrix.gram
        ((j.matrix.applyTransposed j.residual).map (- ·)) attempts s.lambda = .ok out →
      ∃ s', Reached g ordering p s₀ s' ∧
        match out with
        | .accepted next error lambda => s'.lambda = lambda ∧ s'.progress =
          ⟨next, error, s.progress.iterations + 1, p.stops s.progress.error error⟩
        | .exhausted => s'.progress =
          { s.progress with iterations := s.progress.iterations + 1, converged := true }
  | 0, _, _, _, _, _, h => nomatch h
  | attempts + 1, s, out, hs, hopen, hj, h => by
    obtain ⟨answer, hanswer, h⟩ := bind_eq_ok.1 h
    have hattempt : s.attempt g ordering p = .ok answer := bind_eq_ok.2 ⟨j, hj, hanswer⟩
    cases answer with
    | some step =>
      obtain rfl := pure_eq_ok.1 h
      exact ⟨_, hs.step (.accept hopen hattempt), rfl, rfl⟩
    | none =>
      dsimp only at h
      split at h
      · rename_i hbeyond
        obtain rfl := pure_eq_ok.1 h
        exact ⟨_, hs.step (.exhaust hopen hattempt hbeyond), rfl⟩
      · rename_i hbelow
        exact damp_reached (s := s.reject p) (hs.step (.reject hopen hattempt hbelow)) hopen hj h

/-- **A run that succeeds ends in one of its states**, after which there is no attempt. -/
theorem levenbergMarquardt_reached {attempts : Nat} : ∀ {budget : Nat} {s : DampedState α}
    {last : Progress α}, Reached g ordering p s₀ s →
      s.progress.iterations + budget = p.maxIterations →
      levenbergMarquardt attempts g ordering p budget s.lambda s.progress = .ok last →
        ∃ s', Reached g ordering p s₀ s' ∧ s'.progress = last ∧ ¬ s'.Open p
  | 0, s, last, hs, hbudget, h =>
    ⟨s, hs, pure_eq_ok.1 h, fun hopen => (hbudget ▸ hopen.2).ne rfl⟩
  | budget + 1, s, last, hs, hbudget, h => by
    unfold levenbergMarquardt at h
    split at h
    · rename_i hconverged
      exact ⟨s, hs, pure_eq_ok.1 h, fun hopen =>
        Bool.noConfusion (hopen.1.symm.trans hconverged)⟩
    · rename_i hconverged
      have hopen : s.Open p := ⟨Bool.eq_false_iff.2 hconverged, by omega⟩
      obtain ⟨j, hj, h⟩ := bind_eq_ok.1 h
      obtain ⟨out, hout, h⟩ := bind_eq_ok.1 h
      obtain ⟨s', hs', hafter⟩ := damp_reached hs hopen hj hout
      cases out with
      | exhausted =>
        obtain rfl := pure_eq_ok.1 h
        refine ⟨s', hs', hafter, fun hopen' => ?_⟩
        rw [Open, hafter] at hopen'
        exact Bool.noConfusion hopen'.1
      | accepted next error lambda =>
        obtain ⟨rfl, hprogress⟩ := hafter
        dsimp only at h
        rw [← hprogress] at h
        refine levenbergMarquardt_reached hs' ?_ h
        rw [hprogress]
        show s.progress.iterations + 1 + budget = p.maxIterations
        omega

namespace DampedState

variable (g ordering p) in
/-- What is computed after the attempts of an iteration. -/
def after (attempts : Nat) (s : DampedState α) : Attempt α → Except (Fault α) (Progress α)
  | .exhausted =>
    pure { s.progress with iterations := s.progress.iterations + 1, converged := true }
  | .accepted next error lambda =>
    levenbergMarquardt attempts g ordering p (p.maxIterations - (s.progress.iterations + 1)) lambda
      ⟨next, error, s.progress.iterations + 1, p.stops s.progress.error error⟩

variable (g ordering p) in
/-- What is left of a run from a state on. -/
def rest (attempts : Nat) (s : DampedState α) : Except (Fault α) (Progress α) :=
  if s.progress.converged = true ∨ p.maxIterations ≤ s.progress.iterations then pure s.progress
  else do
    let j ← g.jacobian s.progress.values ordering p.rankTolerance
    let descent := (j.matrix.applyTransposed j.residual).map (- ·)
    s.after g ordering p attempts (← damp g ordering p s.progress.values s.progress.error
      j.matrix.gram descent (attempts - s.rejected) s.lambda)

variable {attempts : Nat} {s s' : DampedState α}

omit [Scalar α] [Factorization α] [Runtime α] in
theorem not_open_iff :
    ¬ s.Open p ↔ s.progress.converged = true ∨ p.maxIterations ≤ s.progress.iterations := by
  rw [Open, not_and_or, Bool.not_eq_false, Nat.not_lt]

theorem rest_of_not_open (h : ¬ s.Open p) : s.rest g ordering p attempts = .ok s.progress :=
  if_pos (not_open_iff.1 h)

theorem rest_of_open (h : s.Open p) : s.rest g ordering p attempts = (do
    let j ← g.jacobian s.progress.values ordering p.rankTolerance
    s.after g ordering p attempts (← damp g ordering p s.progress.values s.progress.error
      j.matrix.gram ((j.matrix.applyTransposed j.residual).map (- ·)) (attempts - s.rejected)
      s.lambda)) :=
  if_neg fun hor => not_open_iff.2 hor h

/-- When an iteration begins, what is left is a run with the budget that is left. -/
theorem rest_eq_levenbergMarquardt (h : s.rejected = 0) : s.rest g ordering p attempts =
    levenbergMarquardt attempts g ordering p (p.maxIterations - s.progress.iterations) s.lambda
      s.progress := by
  by_cases hopen : s.Open p
  · obtain ⟨budget, hbudget⟩ := Nat.exists_eq_succ_of_ne_zero (Nat.sub_ne_zero_of_lt hopen.2)
    have hafter : p.maxIterations - (s.progress.iterations + 1) = budget := by omega
    rw [rest_of_open hopen, hbudget, h]
    unfold levenbergMarquardt
    rw [hopen.1, if_neg Bool.false_ne_true]
    refine congrArg _ (funext fun j => congrArg _ (funext fun out => ?_))
    cases out with
    | exhausted => rfl
    | accepted next error lambda =>
      rw [after, hafter]
  · rw [rest_of_not_open hopen]
    rcases not_open_iff.1 hopen with hconverged | hspent
    · cases p.maxIterations - s.progress.iterations with
      | zero => rfl
      | succ budget =>
        unfold levenbergMarquardt
        rw [if_pos hconverged]
        rfl
    · rw [Nat.sub_eq_zero_of_le hspent]
      rfl

/-- **An attempt is what is computed next**, unless the search is stopped. -/
theorem Step.rest_eq (h : s.Step g ordering p s') (hattempts : s.rejected < attempts) :
    s.rest g ordering p attempts = s'.rest g ordering p attempts := by
  have hleft : attempts - s.rejected = attempts - (s.rejected + 1) + 1 := by omega
  cases h with
  | accept hopen h =>
    obtain ⟨j, hj, htry⟩ := bind_eq_ok.1 h
    rw [rest_of_open hopen, hj, hleft, rest_eq_levenbergMarquardt rfl]
    show (damp .. >>= _) = _
    rw [damp_of_some _ htry]
    rfl
  | reject hopen h hbelow =>
    obtain ⟨j, hj, htry⟩ := bind_eq_ok.1 h
    have hopen' : (s.reject p).Open p := hopen
    have hj' : g.jacobian (s.reject p).progress.values ordering p.rankTolerance = .ok j := hj
    rw [rest_of_open hopen, rest_of_open hopen', hj, hj', hleft]
    show (damp .. >>= _) = _
    rw [damp_of_below _ htry hbelow]
    rfl
  | exhaust hopen h hbeyond =>
    obtain ⟨j, hj, htry⟩ := bind_eq_ok.1 h
    have hover : ¬ (s.exhaust p).Open p := fun hopen => Bool.noConfusion hopen.1
    rw [rest_of_open hopen, rest_of_not_open hover, hj, hleft]
    show (damp .. >>= _) = _
    rw [damp_of_beyond _ htry hbeyond]
    rfl

/-- **A run passes through all of its states**, if it is given enough attempts. -/
theorem Reached.rest_eq (hs₀ : s₀.iterations = 0) (h : Reached g ordering p s₀ s) :
    ∃ enough, ∀ attempts ≥ enough,
      levenbergMarquardt attempts g ordering p p.maxIterations p.initialLambda s₀ =
        s.rest g ordering p attempts := by
  induction h with
  | start =>
    refine ⟨0, fun attempts _ => ?_⟩
    rw [rest_eq_levenbergMarquardt rfl]
    show _ = levenbergMarquardt attempts g ordering p (p.maxIterations - s₀.iterations) _ s₀
    rw [hs₀, Nat.sub_zero]
    rfl
  | @step s s' _ hstep ih =>
    obtain ⟨enough, henough⟩ := ih
    refine ⟨max enough (s.rejected + 1), fun attempts hle => ?_⟩
    obtain ⟨hle, hmore⟩ := max_le_iff.1 hle
    exact (henough attempts hle).trans (hstep.rest_eq hmore)

end DampedState

end Computation

/-! ## 3. What the attempts keep -/

section Exact

variable {p : OptimizerParams ℝ} {s s' : DampedState ℝ}

/-- The damping is the one with which the iteration began, times its factor for every rejection;
both are positive. Only the last attempt of a run is rejected with the next damping beyond the
bound. The accepted errors fall. -/
structure DampedState.Bounded (p : OptimizerParams ℝ) (s : DampedState ℝ) : Prop where
  first_pos : 0 < s.first
  lambda_eq : s.lambda = s.first * p.lambdaFactor ^ s.rejected
  beyond_last : ∀ i < s.rejected, p.maxLambda < s.first * p.lambdaFactor ^ (i + 1) →
    s.progress.converged = true ∧ i + 1 = s.rejected
  errors_eq : ∃ earlier, s.errors = s.progress.error :: earlier
  descending : s.errors.Pairwise (· < ·)
  iterations_le : s.progress.iterations ≤ p.maxIterations

theorem leastLambda_pos : 0 < (leastLambda : ℝ) :=
  NNRat.cast_pos.2 (show (0 : ℚ) < 2.2250738585072014e-308 by decide +kernel)

namespace DampedState

/-- Before the first attempt. -/
theorem bounded_start {s₀ : Progress ℝ} (hinitial : 0 < p.initialLambda)
    (hs₀ : s₀.iterations = 0) : (start s₀ p.initialLambda).Bounded p where
  first_pos := hinitial
  lambda_eq := (mul_one _).symm
  beyond_last := nofun
  errors_eq := ⟨[], rfl⟩
  descending := List.pairwise_singleton _ _
  iterations_le := hs₀ ▸ Nat.zero_le _

variable [Factorization ℝ] [Runtime ℝ] {g : FactorGraph ℝ} {ordering : List Key} {s₀ : Progress ℝ}

/-- **Every attempt keeps the bounds**, whatever it answers. -/
theorem Step.bounded (h : s.Step g ordering p s') (hs : s.Bounded p) : s'.Bounded p := by
  cases h with
  | accept hopen h =>
    rename_i next error
    obtain ⟨j, -, htry⟩ := bind_eq_ok.1 h
    have hlower : error < s.progress.error := (tryStep_lower htry).2
    obtain ⟨earlier, hearlier⟩ := hs.errors_eq
    have hdescending := hs.descending
    rw [hearlier] at hdescending
    refine ⟨?_, (mul_one _).symm, nofun, ⟨s.errors, rfl⟩, ?_, hopen.2⟩
    · exact leastLambda_pos.trans_le (le_maxNum (isNumber_exact _) _)
    · refine List.pairwise_cons.2 ⟨fun e he => ?_, hs.descending⟩
      rw [hearlier] at he
      rcases List.mem_cons.1 he with rfl | he
      · exact hlower
      · exact hlower.trans ((List.pairwise_cons.1 hdescending).1 e he)
  | reject hopen h hbelow =>
    refine ⟨hs.first_pos, ?_, fun i hi hbeyond => ?_, hs.errors_eq, hs.descending,
      hs.iterations_le⟩
    · show s.lambda * p.lambdaFactor = s.first * p.lambdaFactor ^ (s.rejected + 1)
      rw [hs.lambda_eq, pow_succ, mul_assoc]
    · rcases Nat.lt_succ_iff_lt_or_eq.1 hi with hi | rfl
      · exact Bool.noConfusion (hopen.1.symm.trans (hs.beyond_last i hi hbeyond).1)
      · rw [hs.lambda_eq, mul_assoc, ← pow_succ] at hbelow
        exact absurd hbeyond hbelow
  | exhaust hopen h hbeyond =>
    refine ⟨hs.first_pos, ?_, fun i hi hbeyond => ?_, hs.errors_eq, hs.descending, hopen.2⟩
    · show s.lambda * p.lambdaFactor = s.first * p.lambdaFactor ^ (s.rejected + 1)
      rw [hs.lambda_eq, pow_succ, mul_assoc]
    · rcases Nat.lt_succ_iff_lt_or_eq.1 hi with hi | rfl
      · exact Bool.noConfusion (hopen.1.symm.trans (hs.beyond_last i hi hbeyond).1)
      · exact ⟨rfl, rfl⟩

/-- **So does every run.** -/
theorem Reached.bounded (hinitial : 0 < p.initialLambda) (hs₀ : s₀.iterations = 0)
    (h : Reached g ordering p s₀ s) : s.Bounded p := by
  induction h with
  | start => exact bounded_start hinitial hs₀
  | step _ hstep ih => exact hstep.bounded ih

end DampedState

/-- Multiples of a positive damping pass every bound, so there is a first one that does. -/
theorem exists_least_beyond {first factor : ℝ} (hfirst : 0 < first) (hfactor : 1 < factor)
    (bound : ℝ) : ∃ k, IsLeast {k : ℕ | bound < first * factor ^ k} k := by
  classical
  have hsome : ∃ k : ℕ, bound < first * factor ^ k := by
    obtain ⟨k, hk⟩ := pow_unbounded_of_one_lt (bound / first) hfactor
    exact ⟨k, (div_lt_iff₀' hfirst).1 hk⟩
  exact ⟨Nat.find hsome, Nat.find_spec hsome, fun k hk => Nat.find_min' hsome hk⟩

/-- An iteration rejects at most one attempt more than it takes the damping to pass its bound. -/
theorem DampedState.Bounded.rejected_le (h : s.Bounded p) (hfactor : 1 < p.lambdaFactor) {k : ℕ}
    (hk : IsLeast {k : ℕ | p.maxLambda < s.first * p.lambdaFactor ^ k} k) :
    s.rejected ≤ k + 1 := by
  by_contra hmore
  have hlt : k + 1 < s.rejected := not_le.1 hmore
  have hbeyond : p.maxLambda < s.first * p.lambdaFactor ^ (k + 1) := by
    refine lt_trans hk.1 ?_
    exact (mul_lt_mul_iff_right₀ h.first_pos).2 (pow_lt_pow_right₀ hfactor k.lt_succ_self)
  exact hlt.ne (h.beyond_last k (Nat.lt_of_succ_lt hlt) hbeyond).2

/-! ## 4. Termination -/

/-- Dampings of at least the first one and the smallest number are what iterations start with. -/
theorem OptimizerParams.startsIn_least (p : OptimizerParams ℝ) :
    p.StartsIn (min p.initialLambda leastLambda ≤ ·) where
  initial := min_le_left _ _
  accepted _ _ := (min_le_right _ _).trans (le_maxNum (isNumber_exact _) _)

/-- All of them pass the bound within one number of attempts. -/
theorem OptimizerParams.exists_escape (hinitial : 0 < p.initialLambda)
    (hfactor : 1 < p.lambdaFactor) :
    ∃ attempts, ∀ lambda, min p.initialLambda leastLambda ≤ lambda →
      ∃ k < attempts, p.maxLambda < (· * p.lambdaFactor)^[k + 1] lambda := by
  have hleast : 0 < min p.initialLambda leastLambda := lt_min hinitial leastLambda_pos
  obtain ⟨k, hk, -⟩ := exists_least_beyond hleast hfactor p.maxLambda
  refine ⟨k + 1, fun lambda hle => ⟨k, k.lt_succ_self, ?_⟩⟩
  have hlambda : 0 < lambda := hleast.trans_le hle
  have hpow : 0 < p.lambdaFactor ^ k := pow_pos (zero_lt_one.trans hfactor) k
  rw [mul_right_iterate]
  calc p.maxLambda < min p.initialLambda leastLambda * p.lambdaFactor ^ k := hk
    _ ≤ lambda * p.lambdaFactor ^ k := mul_le_mul_of_nonneg_right hle hpow.le
    _ ≤ lambda * p.lambdaFactor ^ (k + 1) :=
      mul_le_mul_of_nonneg_left (pow_le_pow_right₀ hfactor.le k.le_succ) hlambda.le

/-- **Damped runs end.** Let the first damping be positive and the damping factor above one. In all
states of a run the damping is positive, the attempts that the iteration has rejected are at most
one more than it takes the damping with which it began to pass its bound, the accepted errors have
fallen, and the budget of iterations is kept. A run that succeeds ends in one of its states. If the
relations of the graph come to an end, then so do all runs, once they are given enough attempts. -/
theorem optimize_damped_terminates [Factorization ℝ] [Runtime ℝ] {g : FactorGraph ℝ} {vs : Values ℝ}
    (hmethod : p.method = .levenbergMarquardt) (hinitial : 0 < p.initialLambda)
    (hfactor : 1 < p.lambdaFactor) :
    (∀ error s, DampedState.Reached g g.keys.toList p (.initial p vs error) s →
      0 < s.lambda ∧
      (∃ k, IsLeast {k : ℕ | p.maxLambda < s.first * p.lambdaFactor ^ k} k ∧
        s.rejected ≤ k + 1) ∧
      s.errors.Pairwise (· < ·) ∧ s.progress.iterations ≤ p.maxIterations) ∧
    (∀ attempts out, optimize attempts g vs p = .ok out →
      ∃ s, DampedState.Reached g g.keys.toList p (.initial p vs out.initialError) s ∧
        s.progress.values = out.values ∧ s.progress.error = out.finalError ∧
        s.progress.iterations = out.iterations ∧ (g.isEmpty = false → ¬ s.Open p)) ∧
    (g.Ends → ∃ out, Finishes out ∧
      ∃ enough, ∀ attempts ≥ enough, optimize attempts g vs p = out) := by
  refine ⟨fun error s hs => ?_, fun attempts out hout => ?_, fun hg => ?_⟩
  · have hbounded := hs.bounded hinitial rfl
    obtain ⟨k, hk⟩ := exists_least_beyond hbounded.first_pos hfactor p.maxLambda
    refine ⟨?_, ⟨k, hk, hbounded.rejected_le hfactor hk⟩, hbounded.descending,
      hbounded.iterations_le⟩
    rw [hbounded.lambda_eq]
    exact mul_pos hbounded.first_pos (pow_pos (zero_lt_one.trans hfactor) _)
  · unfold optimize at hout
    obtain ⟨-, -, hout⟩ := bind_eq_ok.1 hout
    obtain ⟨error, -, hout⟩ := bind_eq_ok.1 hout
    split at hout
    · rename_i hempty
      obtain rfl := pure_eq_ok.1 hout
      exact ⟨_, .start, rfl, rfl, rfl, fun hfull => Bool.noConfusion (hempty.symm.trans hfull)⟩
    · rw [hmethod] at hout
      obtain ⟨last, hlast, rfl⟩ := map_eq_ok.1 hout
      obtain ⟨s, hs, rfl, hover⟩ := levenbergMarquardt_reached (s := .start _ _) .start
        (Nat.zero_add p.maxIterations) hlast
      exact ⟨s, hs, rfl, rfl, rfl, fun _ => hover⟩
  · obtain ⟨attempts, hescapes⟩ := OptimizerParams.exists_escape hinitial hfactor
    have hfinishes : Finishes (optimize attempts g vs p) :=
      optimize_finishes_of_startsIn hg hmethod p.startsIn_least (.inr hescapes)
    exact ⟨_, hfinishes, attempts, fun more hle => optimize_stable hle hfinishes⟩

/-- Runs end even if no damped system is ever solved. -/
theorem optimize_damped_terminates_twoPriors :
    let g := twoPriors 1 (-1) 1 1
    let p : OptimizerParams ℝ := { OptimizerParams.damped with
      initialLambda := 1, lambdaFactor := 2, maxLambda := 8 }
    let vs : Values ℝ := Values.empty.insert ⟨0⟩ (.scalar 0)
    p.method = .levenbergMarquardt ∧ 0 < p.initialLambda ∧ 1 < p.lambdaFactor ∧ g.Ends ∧
      ∃ out, Finishes out ∧
        ∃ enough, ∀ attempts ≥ enough, @optimize ℝ _ (.knowing []) _ attempts g vs p = out := by
  intro g p vs
  have hinitial : 0 < p.initialLambda := zero_lt_one
  have hfactor : 1 < p.lambdaFactor := one_lt_two
  have hends : g.Ends := List.forall_mem_cons.2 ⟨trivial, List.forall_mem_singleton.2 trivial⟩
  have hterminates := @optimize_damped_terminates p (.knowing []) _ g vs rfl hinitial hfactor
  exact ⟨rfl, hinitial, hfactor, hends, hterminates.2.2 hends⟩

end Exact

end Articulated
