import Articulated.Graph.Basic
import Articulated.Graph.Jacobian
import Articulated.Solver.Params

/-!
# Least squares

`optimize` moves an assignment towards a minimum of the error of a graph.

* Gauss-Newton solves the linear model for a full step. A model that leaves some direction open is
  refused: the answer would be arbitrary.
* Levenberg-Marquardt adds damping to the normal equations and takes a step only if it lowers the
  error. It also moves where the model leaves directions open.

Both stop when the error or its decrease is small, or when their budget of iterations is used up.
The number of damped attempts within one iteration has no bound of its own, since it depends on
the damping parameters; it is bounded by the argument `attempts`, and `Fault.unfinished` says
that this bound was met.
-/

namespace Articulated

variable {α : Type} [Scalar α] [Factorization α] [Runtime α]

/-! ## 1. States -/

/-- How far an optimization has come. -/
structure Progress (α : Type) where
  values : Values α
  error : α
  iterations : Nat
  converged : Bool

/-- The outcome of an optimization. -/
structure Solution (α : Type) where
  values : Values α
  iterations : Nat
  initialError : α
  finalError : α
  converged : Bool

/-- Whether a change of the error from `before` to `after` is small enough to stop. -/
def OptimizerParams.stops (p : OptimizerParams α) (before after : α) : Bool :=
  if after ≤ p.absoluteTolerance then true
  else
    let decrease := before - after
    let relative := if 0 < before then decrease / before else 0
    Scalar.abs decrease ≤ p.absoluteTolerance || Scalar.abs relative ≤ p.relativeTolerance

/-- The stacked whitened linear model of a graph. -/
def FactorGraph.jacobian (g : FactorGraph α) (vs : Values α) (ordering : List Key) (threshold : α) :
    Except (Fault α) (Jacobian α) := do
  Jacobian.stack (← g.linearize vs true) ordering vs threshold

/-! ## 2. Gauss-Newton -/

/-- The full step of a linear model. The threshold of its singular values is a fraction of the
largest one, and all must lie above it. -/
def fullStep (j : Jacobian α) (tolerance : α) : Except (Fault α) (List α) := do
  if j.matrix.isEmpty then throw (.breach .emptySystem)
  let triples := Factorization.singular j.matrix
  let threshold := triples.largest * tolerance
  Jacobian.checkThreshold threshold
  let rank := triples.rank threshold
  if rank < j.matrix.cols then throw (.infeasible rank j.matrix.cols)
  return triples.solve threshold (j.residual.map (- ·)) j.matrix.cols

/-- Gauss-Newton steps, at most `budget` of them. -/
def gaussNewton (g : FactorGraph α) (ordering : List Key) (p : OptimizerParams α) :
    Nat → Progress α → Except (Fault α) (Progress α)
  | 0, s => pure s
  | budget + 1, s => do
    if s.converged then return s
    let j ← g.jacobian s.values ordering p.rankTolerance
    let δ ← fullStep j p.rankTolerance
    let next ← s.values.retract ordering δ
    let error ← g.error next
    gaussNewton g ordering p budget
      ⟨next, error, s.iterations + 1, p.stops s.error error⟩

/-! ## 3. Levenberg-Marquardt -/

/-- The smallest normal double, below which damping does not shrink. -/
def leastLambda : α := 2.2250738585072014e-308

/-- The outcome of the damped attempts at one linear model. -/
inductive Attempt (α : Type) where
  /-- A step lowered the error; with the damping for the next model. -/
  | accepted (values : Values α) (error lambda : α)
  /-- The damping passed its bound. -/
  | exhausted

/-- The damped normal equations: the damping on the diagonal. -/
def dampedColumns (gram : List (List α)) (lambda : α) : List (List α) :=
  gram.zipIdx.map fun e => e.1.zipIdx.map fun f => f.1 + (if f.2 = e.2 then 1 else 0) * lambda

/-- The assignment after the damped step and its error, if the damped equations can be solved and
the step lowers the error. -/
def tryStep (g : FactorGraph α) (ordering : List Key) (vs : Values α) (error : α)
    (gram : List (List α)) (descent : List α) (lambda : α) :
    Except (Fault α) (Option (Values α × α)) := do
  match Factorization.definite? (dampedColumns gram lambda) descent with
  | none => return none
  | some δ =>
    let next ← vs.retract ordering δ
    let nextError ← g.error next
    return if nextError < error then some (next, nextError) else none

/-- Attempts with growing damping until a step lowers the error or the damping passes its bound;
at most `attempts` of them. -/
def damp (g : FactorGraph α) (ordering : List Key) (p : OptimizerParams α) (vs : Values α)
    (error : α) (gram : List (List α)) (descent : List α) :
    Nat → α → Except (Fault α) (Attempt α)
  | 0, _ => throw .unfinished
  | attempts + 1, lambda => do
    match ← tryStep g ordering vs error gram descent lambda with
    | some (next, nextError) =>
      return .accepted next nextError (Scalar.maxNum (lambda / p.lambdaFactor) leastLambda)
    | none =>
      let lambda := lambda * p.lambdaFactor
      if p.maxLambda < lambda then return .exhausted
      damp g ordering p vs error gram descent attempts lambda

/-- Levenberg-Marquardt steps, at most `budget` of them. When the damping passes its bound, no
step leads downhill any more, and the state counts as converged. -/
def levenbergMarquardt (attempts : Nat) (g : FactorGraph α) (ordering : List Key)
    (p : OptimizerParams α) : Nat → α → Progress α → Except (Fault α) (Progress α)
  | 0, _, s => pure s
  | budget + 1, lambda, s => do
    if s.converged then return s
    let j ← g.jacobian s.values ordering p.rankTolerance
    let descent := (j.matrix.applyTransposed j.residual).map (- ·)
    match ← damp g ordering p s.values s.error j.matrix.gram descent attempts lambda with
    | .exhausted => return { s with iterations := s.iterations + 1, converged := true }
    | .accepted next error lambda =>
      levenbergMarquardt attempts g ordering p budget lambda
        ⟨next, error, s.iterations + 1, p.stops s.error error⟩

/-! ## 4. Both -/

/-- Minimizes the error of a graph from an assignment, in which every variable of the graph must
have a value. Variables outside the graph keep their values. -/
def optimize (attempts : Nat) (g : FactorGraph α) (initial : Values α) (p : OptimizerParams α) :
    Except (Fault α) (Solution α) := do
  let ordering := g.keys.toList
  discard <| initial.totalDim ordering
  let error ← g.error initial
  if g.isEmpty then return ⟨initial, 0, error, error, true⟩
  let start : Progress α := ⟨initial, error, 0, error ≤ p.absoluteTolerance⟩
  let last ←
    match p.method with
    | .gaussNewton => gaussNewton g ordering p p.maxIterations start
    | .levenbergMarquardt =>
      levenbergMarquardt attempts g ordering p p.maxIterations p.initialLambda start
  return ⟨last.values, last.iterations, error, last.error, last.converged⟩

end Articulated
