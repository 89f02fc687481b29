import Articulated.Constraint.Component
import Articulated.Solver.Optimize

/-!
# Retraction

A retraction moves an assignment that almost satisfies the constraints of a component back onto
them. Only the variables of the component change. The outcome says whether every constraint holds
within its tolerance; if not, it is a best effort.

* `Retractor.optimizing` takes the constraints as tight costs and minimizes them. It finds some
  feasible point.
* `Retractor.projecting` repeats the shortest correction of the linear model over all variables,
  and so stays close to where it came from.
* `Retractor.overBasis` does the same over the variables outside a basis, which keeps its values.

`retractAll` retracts components independently of each other and puts the outcomes together.
-/

namespace Articulated

variable {α : Type} [Scalar α] [Factorization α] [Runtime α]

/-! ## 1. Parameters and outcome -/

/-- Parameters of a retraction. -/
structure RetractParams (α : Type) where
  /-- The number of corrections that may be made. -/
  maxIterations : Nat
  /-- Singular values of the Jacobian not above this count as zero. -/
  epsilon : α
  /-- The standard deviation of the constraints as costs. -/
  penaltySigma : α
  optimizer : OptimizerParams α

/-- The parameters used unless others are given. -/
def RetractParams.default : RetractParams α := ⟨100, 1e-6, 1e-3, .damped⟩

/-- The ways to retract. -/
inductive Retractor where
  | optimizing
  | projecting
  | overBasis (basis : List Key)

/-- The way to retract unless another one is asked for. -/
def Retractor.default : Retractor := .projecting

/-- The outcome of a retraction. -/
structure Retraction (α : Type) where
  values : Values α
  /-- All constraints hold within their tolerances. -/
  converged : Bool
  iterations : Nat
  /-- The largest residual row of the constraints. -/
  largestViolation : α

/-- The retracted values, if the constraints hold. -/
def Retraction.result (r : Retraction α) : Except (Fault α) (Values α) :=
  if r.converged then pure r.values else throw (.notRetracted r.iterations r.largestViolation)

/-! ## 2. One component -/

/-- The outcome at an assignment. -/
def conclude (c : Component α) (vs : Values α) (iterations : Nat) :
    Except (Fault α) (Retraction α) := do
  let violation ← c.constraints.largestViolation vs
  let converged ← c.constraints.compliant vs
  return ⟨vs, converged, iterations, violation⟩

/-- Corrections over the free variables until the constraints hold, at most `budget` of them. The
answer tells how many were made. -/
def correct (c : Component α) (free : List Key) (epsilon : α) :
    Nat → Values α → Nat → Except (Fault α) (Values α × Nat)
  | 0, vs, n => pure (vs, n)
  | budget + 1, vs, n => do
    if free.isEmpty then return (vs, n)
    if ← c.constraints.compliant vs then return (vs, n)
    let j ← Jacobian.stack (← c.constraints.linearize vs) free vs epsilon
    let next ← vs.retract free (← j.correction)
    correct c free epsilon budget next (n + 1)

/-- Retracts by corrections over the free variables. -/
def project (c : Component α) (free : List Key) (p : RetractParams α) (vs : Values α) :
    Except (Fault α) (Retraction α) := do
  let (last, n) ← correct c free p.epsilon p.maxIterations vs 0
  conclude c last n

/-- Retracts one component. The argument `attempts` bounds the damped attempts of the optimizer. -/
def retract (attempts : Nat) (c : Component α) (r : Retractor) (p : RetractParams α)
    (vs : Values α) : Except (Fault α) (Retraction α) := do
  match r with
  | .optimizing =>
    let report ← optimize attempts (c.constraints.asCosts p.penaltySigma) vs p.optimizer
    conclude c report.values report.iterations
  | .projecting => project c c.keys.toList p vs
  | .overBasis basis =>
    basis.forM fun k => discard <| vs.lookup k
    project c (c.keys.toList.filter fun k => !basis.contains k) p vs

/-! ## 3. All components -/

/-- Takes over the variables of a component from its outcome. -/
def Retraction.merge (m : Retraction α) (c : Component α) (r : Retraction α) :
    Except (Fault α) (Retraction α) := do
  let own ← r.values.subset c.keys.toList
  return { values := m.values.update own
           converged := m.converged && r.converged
           iterations := max m.iterations r.iterations
           largestViolation := Scalar.maxNum m.largestViolation r.largestViolation }

/-- Retracts components independently, each from the given assignment, and puts the outcomes
together: converged if all did, with the largest iteration count and violation. -/
def retractAll (attempts : Nat) (cs : List (Component α)) (r : Retractor) (p : RetractParams α)
    (vs : Values α) : Except (Fault α) (Retraction α) := do
  let outcomes ← inParallel cs fun c => retract attempts c r p vs
  (cs.zip outcomes).foldlM (fun m e => m.merge e.1 e.2) ⟨vs, true, 0, 0⟩

end Articulated
