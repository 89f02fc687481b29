import Articulated.Scalar

/-!
# Parameters of the optimizers
-/

namespace Articulated

variable {α : Type} [Scalar α]

/-- The two optimizers. -/
inductive Method where
  /-- Full steps that solve the linear model, which must determine them. -/
  | gaussNewton
  /-- Damped steps, which are taken only downhill. -/
  | levenbergMarquardt
deriving DecidableEq

namespace Method

/-- The name in a settings document. -/
def text : Method → String
  | gaussNewton => "gauss_newton"
  | levenbergMarquardt => "levenberg_marquardt"

end Method

/-- Parameters of an optimization. -/
structure OptimizerParams (α : Type) where
  method : Method
  maxIterations : Nat
  /-- Stop when the error decreases by no more than this fraction. -/
  relativeTolerance : α
  /-- Stop when the error, or its decrease, is no more than this. -/
  absoluteTolerance : α
  /-- The damping of the first step. -/
  initialLambda : α
  /-- The factor by which damping grows and shrinks. -/
  lambdaFactor : α
  /-- Damping beyond this means that no step leads downhill. -/
  maxLambda : α
  /-- Singular values below this fraction of the largest one count as zero. -/
  rankTolerance : α

namespace OptimizerParams

/-- The parameters used unless others are given. -/
def default : OptimizerParams α where
  method := .gaussNewton
  maxIterations := 100
  relativeTolerance := 1e-8
  absoluteTolerance := 1e-12
  initialLambda := 1e-5
  lambdaFactor := 10.0
  maxLambda := 1e10
  rankTolerance := 1e-6

/-- The default parameters with damping. -/
def damped : OptimizerParams α := { default with method := .levenbergMarquardt }

end OptimizerParams

end Articulated
