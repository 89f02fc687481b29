import Mathlib.Logic.Function.Iterate
import Articulated.Proofs.Solver.Finishing

/-!
# Damped attempts

A damped run is a search: an iteration makes attempts, each with the damping of the last one times
a factor, until one of them lowers the error or the damping passes its bound. The search is given a
bound of its own, and what is said here holds of numbers of any kind: where the damping passes its
bound in time the search ends, and a search that has ended is not changed by a larger bound.

* `damp_finishes`, `damp_accepted`: the attempts of an iteration, and the damping that they leave.
* `OptimizerParams.StartsIn`: a property of all dampings with which an iteration may start.
* `optimize_finishes_of_startsIn`: a run ends if they all pass the bound in time.
* `optimize_stable`: more attempts than a run needs make no difference.
-/

namespace Articulated

open Scalar

variable {α : Type} [Scalar α] [Factorization α] [Runtime α] {g : FactorGraph α}
  {ordering : List Key} {p : OptimizerParams α}

/-! ## 1. The attempts of an iteration -/

section Attempts

variable {vs : Values α} {error : α} {gram : List (List α)} {descent : List α}

section Equations

variable {lambda : α} (attempts : Nat)

/-- A step that lowers the error is accepted. -/
theorem damp_of_some {next : Values α} {nextError : α}
    (h : tryStep g ordering vs error gram descent lambda = .ok (some (next, nextError))) :
    damp g ordering p vs error gram descent (attempts + 1) lambda =
      .ok (.accepted next nextError (maxNum (lambda / p.lambdaFactor) leastLambda)) :=
  bind_eq_ok.2 ⟨_, h, rfl⟩

variable (h : tryStep g ordering vs error gram descent lambda = .ok none)

include h

/-- Without such a step the attempts end if the next damping is beyond the bound. -/
theorem damp_of_beyond (hbeyond : p.maxLambda < lambda * p.lambdaFactor) :
    damp g ordering p vs error gram descent (attempts + 1) lambda = .ok .exhausted :=
  bind_eq_ok.2 ⟨_, h, if_pos hbeyond⟩

/-- Otherwise they go on with the next damping. -/
theorem damp_of_below (hbelow : ¬ p.maxLambda < lambda * p.lambdaFactor) :
    damp g ordering p vs error gram descent (attempts + 1) lambda =
      damp g ordering p vs error gram descent attempts (lambda * p.lambdaFactor) := by
  rw [damp, h]
  exact if_neg hbelow

end Equations

/-- The attempts end once the damping would pass its bound. -/
theorem damp_finishes (hg : g.Ends) : ∀ {attempts k : Nat} {lambda : α}, k < attempts →
    p.maxLambda < (· * p.lambdaFactor)^[k + 1] lambda →
      Finishes (damp g ordering p vs error gram descent attempts lambda)
  | 0, k, _, hk, _ => absurd hk k.not_lt_zero
  | attempts + 1, k, lambda, hk, hescape => by
    refine (tryStep_finishes hg vs error gram descent lambda).bind fun out => ?_
    cases out with
    | some next => exact .pure _
    | none =>
      dsimp only
      split
      · exact .pure _
      · rename_i hbelow
        cases k with
        | zero => exact absurd hescape hbelow
        | succ k => exact damp_finishes hg (Nat.lt_of_succ_lt_succ hk) hescape

/-- What an accepted step leaves of the damping. -/
theorem damp_accepted : ∀ {attempts : Nat} {lambda : α} {next : Values α}
    {nextError nextLambda : α},
    damp g ordering p vs error gram descent attempts lambda =
      .ok (.accepted next nextError nextLambda) →
    ∃ k, (∀ i < k, ¬ p.maxLambda < (· * p.lambdaFactor)^[i + 1] lambda) ∧
      nextLambda = maxNum ((· * p.lambdaFactor)^[k] lambda / p.lambdaFactor) leastLambda
  | 0, _, _, _, _, h => nomatch h
  | attempts + 1, lambda, next, nextError, nextLambda, h => by
    obtain ⟨out, -, h⟩ := bind_eq_ok.1 h
    cases out with
    | some step =>
      obtain ⟨-, -, rfl⟩ := Attempt.accepted.inj (pure_eq_ok.1 h)
      exact ⟨0, nofun, rfl⟩
    | none =>
      dsimp only at h
      split at h
      · cases pure_eq_ok.1 h
      · rename_i hbelow
        obtain ⟨k, hrejected, hnext⟩ := damp_accepted h
        refine ⟨k + 1, fun i hi => ?_, hnext⟩
        cases i with
        | zero => exact hbelow
        | succ i => exact hrejected i (Nat.lt_of_succ_lt_succ hi)

/-- More attempts than were needed make no difference. -/
theorem damp_stable : ∀ {a b : Nat} {lambda : α}, a ≤ b →
    Finishes (damp g ordering p vs error gram descent a lambda) →
      damp g ordering p vs error gram descent b lambda =
        damp g ordering p vs error gram descent a lambda
  | 0, _, _, _, h => absurd rfl h
  | a + 1, 0, _, hab, _ => absurd hab (Nat.not_succ_le_zero a)
  | a + 1, b + 1, lambda, hab, h => h.bind_congr fun out h => by
    cases out with
    | some step => rfl
    | none =>
      dsimp only at h ⊢
      split at h
      · rename_i hbeyond
        rw [if_pos hbeyond, if_pos hbeyond]
      · rename_i hbelow
        rw [if_neg hbelow, if_neg hbelow, damp_stable (Nat.le_of_succ_le_succ hab) h]

end Attempts

/-! ## 2. Runs -/

/-- The property holds of every damping with which the attempts of an iteration may start: of the
first one, and of what an accepted step leaves. -/
structure OptimizerParams.StartsIn (p : OptimizerParams α) (starts : α → Prop) : Prop where
  initial : starts p.initialLambda
  accepted : ∀ {lambda k}, starts lambda →
    (∀ i < k, ¬ p.maxLambda < (· * p.lambdaFactor)^[i + 1] lambda) →
      starts (maxNum ((· * p.lambdaFactor)^[k] lambda / p.lambdaFactor) leastLambda)

/-- More attempts than a run needed make no difference. -/
theorem levenbergMarquardt_stable {a b : Nat} (hab : a ≤ b) :
    ∀ {budget : Nat} {lambda : α} {s : Progress α},
      Finishes (levenbergMarquardt a g ordering p budget lambda s) →
        levenbergMarquardt b g ordering p budget lambda s =
          levenbergMarquardt a g ordering p budget lambda s
  | 0, _, _, _ => rfl
  | budget + 1, lambda, s, h => by
    unfold levenbergMarquardt at h ⊢
    split
    · rfl
    · rename_i hopen
      rw [if_neg hopen] at h
      refine h.bind_congr fun j h => ?_
      dsimp only at h ⊢
      rw [damp_stable hab h.of_bind]
      refine h.bind_congr fun out h => ?_
      cases out with
      | exhausted => rfl
      | accepted next error lambda => exact levenbergMarquardt_stable hab h

/-- A run ends if the damping escapes wherever the attempts of an iteration start. -/
theorem levenbergMarquardt_finishes (hg : g.Ends) {starts : α → Prop} (hstarts : p.StartsIn starts)
    {attempts : Nat} (hescapes : ∀ lambda, starts lambda → ∃ k < attempts,
      p.maxLambda < (· * p.lambdaFactor)^[k + 1] lambda) :
    ∀ {budget : Nat} {lambda : α} {s : Progress α}, starts lambda →
      Finishes (levenbergMarquardt attempts g ordering p budget lambda s)
  | 0, _, _, _ => .pure _
  | budget + 1, lambda, s, hstart => by
    unfold levenbergMarquardt
    split
    · exact .pure _
    · refine (FactorGraph.jacobian_finishes hg ordering p.rankTolerance).bind fun j => ?_
      obtain ⟨k, hk, hescape⟩ := hescapes lambda hstart
      refine (damp_finishes hg hk hescape).bind_of fun out hout => ?_
      cases out with
      | exhausted => exact .pure _
      | accepted next error nextLambda =>
        obtain ⟨k, hrejected, rfl⟩ := damp_accepted hout
        exact levenbergMarquardt_finishes hg hstarts hescapes (hstarts.accepted hstart hrejected)

variable {vs : Values α}

/-- An outcome that was not forced by the bound on attempts is the outcome with more attempts. -/
theorem optimize_stable {a b : Nat} (hab : a ≤ b) (h : Finishes (optimize a g vs p)) :
    optimize b g vs p = optimize a g vs p := by
  refine h.bind_congr fun _ h => h.bind_congr fun error h => ?_
  split
  · rfl
  · rename_i hfactors
    rw [if_neg hfactors] at h
    cases hmethod : p.method with
    | gaussNewton => rfl
    | levenbergMarquardt =>
      rw [hmethod] at h
      dsimp only at h ⊢
      rw [levenbergMarquardt_stable hab h.of_bind]

/-- **A run ends without iterations, or if the damping escapes wherever it may start.** -/
theorem optimize_finishes_of_startsIn (hg : g.Ends) {attempts : Nat}
    (hmethod : p.method = .levenbergMarquardt) {starts : α → Prop} (hstarts : p.StartsIn starts)
    (hescapes : p.maxIterations = 0 ∨ ∀ lambda, starts lambda → ∃ k < attempts,
      p.maxLambda < (· * p.lambdaFactor)^[k + 1] lambda) :
    Finishes (optimize attempts g vs p) := by
  refine (vs.totalDim_finishes _).discard.bind fun _ =>
    (FactorGraph.error_finishes hg).bind fun error => ?_
  split
  · exact .pure _
  · rw [hmethod]
    refine Finishes.bind ?_ fun last => .pure _
    rcases hescapes with hzero | hescapes
    · rw [hzero]
      exact .pure _
    · exact levenbergMarquardt_finishes hg hstarts hescapes hstarts.initial

end Articulated
