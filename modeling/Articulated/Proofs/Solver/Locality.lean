import Articulated.Proofs.Factor.Locality
import Articulated.Proofs.Values.Moving
import Articulated.Solver.Optimize

/-!
# An optimization reads its own variables

Two optimizations of one graph that start from assignments with the same values for the variables
of the graph go the same way: the same tests, linear models, damping and errors, and the same
failure if there is one. Their iterates differ only in variables outside the graph. The factors of
the graph are those of the library here.

* `Progress.Alike`, `Attempt.Alike`, `Solution.Alike`: states of the two runs that correspond.
* `gaussNewton_alike`, `levenbergMarquardt_alike`: one iteration carries this on, hence a run does.
* `optimize_alike`: two optimizations as a whole.
-/

namespace Articulated

open Values

/-! ## 1. Two runs -/

section Runs

variable {α : Type}

/-- The same progress at assignments that agree on the variables `ks`. -/
inductive Progress.Alike (ks : List Key) : Progress α → Progress α → Prop
  | mk {vs vs' : Values α} (h : AgreeOn ks vs vs') (error : α) (iterations : Nat)
      (converged : Bool) :
      Alike ks ⟨vs, error, iterations, converged⟩ ⟨vs', error, iterations, converged⟩

/-- The same outcome of the damped attempts, with agreement on the variables `ks`. -/
inductive Attempt.Alike (ks : List Key) : Attempt α → Attempt α → Prop
  | accepted {vs vs' : Values α} (h : AgreeOn ks vs vs') (error lambda : α) :
      Alike ks (.accepted vs error lambda) (.accepted vs' error lambda)
  | exhausted : Alike ks .exhausted .exhausted

/-- The same solution up to variables other than `ks`. -/
inductive Solution.Alike (ks : List Key) : Solution α → Solution α → Prop
  | mk {vs vs' : Values α} (h : AgreeOn ks vs vs') (iterations : Nat)
      (initialError finalError : α) (converged : Bool) :
      Alike ks ⟨vs, iterations, initialError, finalError, converged⟩
        ⟨vs', iterations, initialError, finalError, converged⟩

/-- The same answer of a damped step, if there is one. -/
inductive StepAlike (ks : List Key) : Option (Values α × α) → Option (Values α × α) → Prop
  | lower {vs vs' : Values α} (h : AgreeOn ks vs vs') (error : α) :
      StepAlike ks (some (vs, error)) (some (vs', error))
  | none : StepAlike ks .none .none

end Runs

/-! ## 2. Linear models -/

section Models

variable {α : Type} [Scalar α] {vs vs' : Values α}

/-- A stacked model looks at an assignment for the dimensions of its ordering alone. -/
theorem Jacobian.stack_congr {ls : List (Linearization α)} {ordering : List Key} {threshold : α}
    (h : AgreeOn ordering vs vs') :
    stack ls ordering vs threshold = stack ls ordering vs' threshold := by
  unfold stack
  rw [mapM_congr fun k hk => by rw [h.dim_eq hk]]

variable [Runtime α] {g : FactorGraph α} (hg : ∀ f ∈ g.factors, f.relation.IsBuiltIn)
  (h : AgreeOn g.keys.toList vs vs')

include hg h

theorem FactorGraph.jacobian_congr (threshold : α) :
    g.jacobian vs g.keys.toList threshold = g.jacobian vs' g.keys.toList threshold := by
  unfold jacobian
  rw [linearize_congr hg h]
  exact congrArg _ (funext fun _ => Jacobian.stack_congr h)

/-- A move over the variables of a graph, and its error there. -/
theorem FactorGraph.moved_alike (δ : List α) {β γ : Type} {R : β → γ → Prop}
    {k : Values α → α → Except (Fault α) β} {k' : Values α → α → Except (Fault α) γ}
    (hk : ∀ {next next' : Values α} (error : α), AgreeOn g.keys.toList next next' →
      Alike R (k next error) (k' next' error)) :
    Alike R (do let next ← vs.retract g.keys.toList δ; k next (← g.error next))
      (do let next ← vs'.retract g.keys.toList δ; k' next (← g.error next)) := by
  refine (retract_alike h (fun _ hk => hk) δ).bind fun next next' hnext => ?_
  rw [error_congr hg hnext]
  exact .bind_same fun error => hk error hnext

end Models

/-! ## 3. Both methods -/

variable {α : Type} [Scalar α] [Factorization α] [Runtime α] {g : FactorGraph α}
  {p : OptimizerParams α}

section Methods

variable (hg : ∀ f ∈ g.factors, f.relation.IsBuiltIn)

include hg

theorem gaussNewton_alike : ∀ {budget : Nat} {s s' : Progress α},
    s.Alike g.keys.toList s' →
      Alike (Progress.Alike g.keys.toList) (gaussNewton g g.keys.toList p budget s)
        (gaussNewton g g.keys.toList p budget s')
  | 0, _, _, h => .pure h
  | budget + 1, _, _, .mk h error iterations converged => by
    unfold gaussNewton
    split
    · exact .pure (.mk h error iterations converged)
    · rw [FactorGraph.jacobian_congr hg h]
      refine .bind_same fun j => .bind_same fun δ => ?_
      exact FactorGraph.moved_alike hg h δ fun error' hnext => gaussNewton_alike (.mk hnext ..)

theorem tryStep_alike {vs vs' : Values α} (h : AgreeOn g.keys.toList vs vs') (error : α)
    (gram : List (List α)) (descent : List α) (lambda : α) :
    Alike (StepAlike g.keys.toList) (tryStep g g.keys.toList vs error gram descent lambda)
      (tryStep g g.keys.toList vs' error gram descent lambda) := by
  unfold tryStep
  split
  · exact .pure .none
  · refine FactorGraph.moved_alike hg h _ fun error' hnext => .pure ?_
    split
    · exact .lower hnext error'
    · exact .none

theorem damp_alike {vs vs' : Values α} (h : AgreeOn g.keys.toList vs vs') (error : α)
    (gram : List (List α)) (descent : List α) : ∀ {attempts : Nat} {lambda : α},
      Alike (Attempt.Alike g.keys.toList)
        (damp g g.keys.toList p vs error gram descent attempts lambda)
        (damp g g.keys.toList p vs' error gram descent attempts lambda)
  | 0, _ => .error _
  | attempts + 1, lambda => by
    unfold damp
    refine (tryStep_alike hg h error gram descent lambda).bind fun answer answer' hstep => ?_
    cases hstep with
    | lower hnext error' => exact .pure (.accepted hnext ..)
    | none =>
      simp only
      split
      · exact .pure .exhausted
      · exact damp_alike h error gram descent

theorem levenbergMarquardt_alike {attempts : Nat} : ∀ {budget : Nat} {lambda : α}
    {s s' : Progress α}, s.Alike g.keys.toList s' →
      Alike (Progress.Alike g.keys.toList)
        (levenbergMarquardt attempts g g.keys.toList p budget lambda s)
        (levenbergMarquardt attempts g g.keys.toList p budget lambda s')
  | 0, _, _, _, h => .pure h
  | budget + 1, lambda, _, _, .mk h error iterations converged => by
    unfold levenbergMarquardt
    split
    · exact .pure (.mk h error iterations converged)
    · rw [FactorGraph.jacobian_congr hg h]
      refine .bind_same fun j => (damp_alike hg h _ _ _).bind fun attempt attempt' hattempt => ?_
      cases hattempt with
      | exhausted => exact .pure (.mk h ..)
      | accepted hnext error' lambda' => exact levenbergMarquardt_alike (.mk hnext ..)

/-- **Optimizations from assignments that agree on the variables of the graph go the same way.** -/
theorem optimize_alike {attempts : Nat} {vs vs' : Values α} (h : AgreeOn g.keys.toList vs vs') :
    Alike (Solution.Alike g.keys.toList) (optimize attempts g vs p)
      (optimize attempts g vs' p) := by
  unfold optimize
  dsimp only
  rw [h.totalDim_eq, FactorGraph.error_congr hg h]
  refine .bind_same fun _ => .bind_same fun error => ?_
  split
  · exact .pure (.mk h ..)
  · cases p.method with
    | gaussNewton =>
      refine (gaussNewton_alike hg (.mk h ..)).bind fun last last' hlast => ?_
      obtain ⟨hlast, error', iterations, converged⟩ := hlast
      exact .pure (.mk hlast ..)
    | levenbergMarquardt =>
      refine (levenbergMarquardt_alike hg (.mk h ..)).bind fun last last' hlast => ?_
      obtain ⟨hlast, error', iterations, converged⟩ := hlast
      exact .pure (.mk hlast ..)

end Methods

end Articulated
