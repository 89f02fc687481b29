import Articulated.Proofs.Values.Moving
import Articulated.Solver.Optimize

/-!
# What an optimization leaves alone

Every iterate of an optimization comes from the last one by a move along a tangent vector over the
variables of the graph, or is the last one. So the variables outside the graph keep their values,
and no value changes its kind. Each iteration takes one from the budget.

* `gaussNewton_frame`, `damp_frame`, `levenbergMarquardt_frame`: the two methods, by induction on
  what is left of their budgets.
* `optimize_frame`: an optimization as a whole.
-/

namespace Articulated

open Values

variable {α : Type} [Scalar α] [Factorization α] [Runtime α] {g : FactorGraph α}
  {ordering : List Key} {p : OptimizerParams α}

/-- The full steps stay within the ordering and their budget. -/
theorem gaussNewton_frame : ∀ {budget : Nat} {s last : Progress α},
    gaussNewton g ordering p budget s = .ok last →
      Moved ordering s.values last.values ∧ last.iterations ≤ s.iterations + budget
  | 0, s, last, h => by
    obtain rfl := pure_eq_ok.1 h
    exact ⟨.refl ordering s.values, Nat.le_refl _⟩
  | budget + 1, s, last, h => by
    unfold gaussNewton at h
    split at h
    · obtain rfl := pure_eq_ok.1 h
      exact ⟨.refl ordering s.values, Nat.le_add_right _ _⟩
    · obtain ⟨j, -, h⟩ := bind_eq_ok.1 h
      obtain ⟨δ, -, h⟩ := bind_eq_ok.1 h
      obtain ⟨next, hnext, h⟩ := bind_eq_ok.1 h
      obtain ⟨error, -, h⟩ := bind_eq_ok.1 h
      obtain ⟨hmoved, hcount⟩ := gaussNewton_frame h
      exact ⟨(moved_of_retract hnext).trans hmoved, by simp only at hcount; omega⟩

/-- What a damped step answers comes from a move along a tangent vector. -/
theorem tryStep_frame {vs next : Values α} {error nextError lambda : α} {gram : List (List α)}
    {descent : List α}
    (h : tryStep g ordering vs error gram descent lambda = .ok (some (next, nextError))) :
    Moved ordering vs next := by
  unfold tryStep at h
  split at h
  · cases pure_eq_ok.1 h
  · obtain ⟨moved, hmoved, h⟩ := bind_eq_ok.1 h
    obtain ⟨error', -, h⟩ := map_eq_ok.1 h
    split at h
    · obtain ⟨rfl, -⟩ := Prod.mk.inj (Option.some.inj h)
      exact moved_of_retract hmoved
    · cases h

/-- Whatever damping is accepted, the step stays within the ordering. -/
theorem damp_frame {vs : Values α} {error : α} {gram : List (List α)} {descent : List α} :
    ∀ {attempts : Nat} {lambda : α} {next : Values α} {nextError nextLambda : α},
      damp g ordering p vs error gram descent attempts lambda =
        .ok (.accepted next nextError nextLambda) → Moved ordering vs next
  | 0, _, _, _, _, h => by cases h
  | attempts + 1, lambda, next, nextError, nextLambda, h => by
    unfold damp at h
    obtain ⟨answer, hanswer, h⟩ := bind_eq_ok.1 h
    cases answer with
    | some step =>
      obtain ⟨rfl, rfl, -⟩ := Attempt.accepted.inj (pure_eq_ok.1 h)
      exact tryStep_frame hanswer
    | none =>
      simp only at h
      split at h
      · cases pure_eq_ok.1 h
      · exact damp_frame h

/-- The damped steps stay within the ordering and their budget. -/
theorem levenbergMarquardt_frame {attempts : Nat} : ∀ {budget : Nat} {lambda : α}
    {s last : Progress α}, levenbergMarquardt attempts g ordering p budget lambda s = .ok last →
      Moved ordering s.values last.values ∧ last.iterations ≤ s.iterations + budget
  | 0, _, s, last, h => by
    obtain rfl := pure_eq_ok.1 h
    exact ⟨.refl ordering s.values, Nat.le_refl _⟩
  | budget + 1, lambda, s, last, h => by
    unfold levenbergMarquardt at h
    split at h
    · obtain rfl := pure_eq_ok.1 h
      exact ⟨.refl ordering s.values, Nat.le_add_right _ _⟩
    · obtain ⟨j, -, h⟩ := bind_eq_ok.1 h
      obtain ⟨attempt, hattempt, h⟩ := bind_eq_ok.1 h
      cases attempt with
      | exhausted =>
        obtain rfl := pure_eq_ok.1 h
        exact ⟨.refl ordering s.values, by simp only; omega⟩
      | accepted next error lambda' =>
        obtain ⟨hmoved, hcount⟩ := levenbergMarquardt_frame h
        exact ⟨(damp_frame hattempt).trans hmoved, by simp only at hcount; omega⟩

/-- **An optimization moves the variables of its graph alone, within its budget.** -/
theorem optimize_frame {attempts : Nat} {vs : Values α} {solution : Solution α}
    (h : optimize attempts g vs p = .ok solution) :
    Moved g.keys.toList vs solution.values ∧ solution.iterations ≤ p.maxIterations := by
  unfold optimize at h
  obtain ⟨-, -, h⟩ := bind_eq_ok.1 h
  obtain ⟨error, -, h⟩ := bind_eq_ok.1 h
  split at h
  · obtain rfl := pure_eq_ok.1 h
    exact ⟨.refl _ vs, Nat.zero_le _⟩
  · cases hmethod : p.method with
    | gaussNewton =>
      rw [hmethod] at h
      obtain ⟨last, hlast, rfl⟩ := map_eq_ok.1 h
      obtain ⟨hmoved, hcount⟩ := gaussNewton_frame hlast
      exact ⟨hmoved, by simpa only [Nat.zero_add] using hcount⟩
    | levenbergMarquardt =>
      rw [hmethod] at h
      obtain ⟨last, hlast, rfl⟩ := map_eq_ok.1 h
      obtain ⟨hmoved, hcount⟩ := levenbergMarquardt_frame hlast
      exact ⟨hmoved, by simpa only [Nat.zero_add] using hcount⟩

end Articulated
