import Articulated.Constraint.Retraction
import Articulated.Proofs.Fault.Outcome

/-!
# Whatever runs the jobs

Costs, linear models, blocks of central differences and the retractions of components are jobs in
parallel. If several of them fail, any of their faults may be the one that is reported, and this is
all that depends on what runs them: answers are put together in the order of the jobs, and no fault
is recovered from. So a computation has the same answer with every runtime or fails with every
runtime. This passes from the jobs to a step of a solver, and by induction on the budget to its
runs.

* `Factor.linearize_determinate`, `FactorGraph.error_determinate`: factors and graphs.
* `gaussNewton_determinate`, `levenbergMarquardt_determinate`, `optimize_determinate`: solvers.
* `retract_determinate`, `retractAll_determinate`: retractions, up to the merged outcome.
-/

namespace Articulated

variable {α : Type} [Scalar α]

/-! ## 1. Factors, graphs and constraints -/

namespace Factor

variable (f : Factor α) (vs : Values α)

theorem differences_determinate (ε : α) : Determinate fun _ : Runtime α => f.differences vs ε :=
  .bind (.same _) fun _ => .inParallel fun _ => .same _

theorem blocks_determinate : Determinate fun _ : Runtime α => f.blocks vs := by
  unfold blocks
  cases f.relation.exactBlocks? with
  | some exact => exact .same _
  | none => exact f.differences_determinate vs disturbance

theorem linearize_determinate (whiten : Bool) :
    Determinate fun _ : Runtime α => f.linearize vs whiten :=
  .bind (.same _) fun _ => .bind (f.blocks_determinate vs) fun _ => .same _

end Factor

namespace FactorGraph

variable (g : FactorGraph α) (vs : Values α)

theorem error_determinate : Determinate fun _ : Runtime α => g.error vs :=
  .bind (.inParallel fun _ => .same _) fun _ => .same _

theorem linearize_determinate (whiten : Bool) :
    Determinate fun _ : Runtime α => g.linearize vs whiten :=
  .inParallel fun f => f.linearize_determinate vs whiten

theorem jacobian_determinate (ordering : List Key) (threshold : α) :
    Determinate fun _ : Runtime α => g.jacobian vs ordering threshold :=
  .bind (g.linearize_determinate vs true) fun _ => .same _

end FactorGraph

theorem Constraints.linearize_determinate (cs : Constraints α) (vs : Values α) :
    Determinate fun _ : Runtime α => cs.linearize vs :=
  .mapM fun q => q.factor.linearize_determinate vs false

/-! ## 2. Solvers -/

variable [Factorization α]

section Solvers

variable (g : FactorGraph α) (ordering : List Key) (p : OptimizerParams α)

theorem gaussNewton_determinate : ∀ (budget : Nat) (s : Progress α),
    Determinate fun _ : Runtime α => gaussNewton g ordering p budget s
  | 0, _ => .same _
  | budget + 1, s => by
    simp only [gaussNewton]
    refine .ite (.same _) (.bind (g.jacobian_determinate _ _ _) fun j => ?_)
    refine .bind (.same _) fun δ => .bind (.same _) fun next => ?_
    exact .bind (g.error_determinate next) fun _ => gaussNewton_determinate budget _

theorem tryStep_determinate (vs : Values α) (error : α) (gram : List (List α)) (descent : List α)
    (lambda : α) :
    Determinate fun _ : Runtime α => tryStep g ordering vs error gram descent lambda := by
  unfold tryStep
  cases Factorization.definite? (dampedColumns gram lambda) descent with
  | none => exact .same _
  | some δ =>
    exact .bind (.same _) fun next => .bind (g.error_determinate next) fun _ => .same _

theorem damp_determinate (vs : Values α) (error : α) (gram : List (List α)) (descent : List α) :
    ∀ (attempts : Nat) (lambda : α),
      Determinate fun _ : Runtime α => damp g ordering p vs error gram descent attempts lambda
  | 0, _ => .same _
  | attempts + 1, lambda => by
    simp only [damp]
    refine .bind (tryStep_determinate g ordering vs error gram descent lambda) fun step => ?_
    cases step with
    | some step => exact .same _
    | none => exact .ite (.same _) (damp_determinate vs error gram descent attempts _)

theorem levenbergMarquardt_determinate (attempts : Nat) :
    ∀ (budget : Nat) (lambda : α) (s : Progress α), Determinate fun _ : Runtime α =>
      levenbergMarquardt attempts g ordering p budget lambda s
  | 0, _, _ => .same _
  | budget + 1, lambda, s => by
    simp only [levenbergMarquardt]
    refine .ite (.same _) (.bind (g.jacobian_determinate _ _ _) fun j => ?_)
    refine .bind (damp_determinate g ordering p _ _ _ _ attempts lambda) fun attempt => ?_
    cases attempt with
    | exhausted => exact .same _
    | accepted next error lambda => exact levenbergMarquardt_determinate attempts budget lambda _

/-- **An optimization ends in the same way, whatever runs its jobs.** -/
theorem optimize_determinate (attempts : Nat) (initial : Values α) :
    Determinate fun _ : Runtime α => optimize attempts g initial p := by
  unfold optimize
  refine .bind (.same _) fun _ => .bind (g.error_determinate initial) fun error => ?_
  refine .ite (.same _) ?_
  cases p.method with
  | gaussNewton => exact .bind (gaussNewton_determinate g _ p _ _) fun _ => .same _
  | levenbergMarquardt =>
    exact .bind (levenbergMarquardt_determinate g _ p attempts _ _ _) fun _ => .same _

end Solvers

/-! ## 3. Retractions -/

section Retractions

variable (c : Component α) (p : RetractParams α)

theorem correct_determinate (free : List Key) (ε : α) : ∀ (budget : Nat) (vs : Values α) (n : Nat),
    Determinate fun _ : Runtime α => correct c free ε budget vs n
  | 0, _, _ => .same _
  | budget + 1, vs, n => by
    simp only [correct]
    refine .ite (.same _) (.bind (.same _) fun converged => .ite (.same _) ?_)
    refine .bind (c.constraints.linearize_determinate vs) fun models => .bind (.same _) fun j => ?_
    refine .bind (.same _) fun d => .bind (.same _) fun next => ?_
    exact correct_determinate free ε budget next (n + 1)

theorem project_determinate (free : List Key) (vs : Values α) :
    Determinate fun _ : Runtime α => project c free p vs :=
  .bind (correct_determinate c free p.epsilon p.maxIterations vs 0) fun _ => .same _

theorem retract_determinate (attempts : Nat) (r : Retractor) (vs : Values α) :
    Determinate fun _ : Runtime α => retract attempts c r p vs := by
  cases r with
  | optimizing =>
    exact .bind (optimize_determinate _ p.optimizer attempts vs) fun _ => .same _
  | projecting => exact project_determinate c p _ vs
  | overBasis basis => exact .bind (.same _) fun _ => project_determinate c p _ vs

/-- **Retractions of components come to the same outcome, whatever runs them**, or fail. -/
theorem retractAll_determinate (attempts : Nat) (cs : List (Component α)) (r : Retractor)
    (vs : Values α) : Determinate fun _ : Runtime α => retractAll attempts cs r p vs :=
  .bind (.inParallel fun c => retract_determinate c p attempts r vs) fun _ => .same _

end Retractions

end Articulated
