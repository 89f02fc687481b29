import Articulated.Fault
import Articulated.Scalar
import Articulated.Text.Lowercase

/-!
# Collocation schemes

A scheme says which value a quantity has at the end of a time step, given its value at the start
and its rates. The step has a known length, or lasts as long as a phase, whose duration is a
variable.
-/

namespace Articulated

variable {α : Type} [Scalar α]

/-- How a quantity is integrated over a step. -/
inductive CollocationScheme where
  /-- By the rate at the start: `x₁ = x₀ + dt · r₀`. -/
  | euler
  /-- By the mean of the rates at both ends: `x₁ = x₀ + dt / 2 · (r₀ + r₁)`. -/
  | trapezoidal
deriving DecidableEq

namespace CollocationScheme

/-- The value at the end of the step. -/
def integrate (x₀ r₀ r₁ dt : α) : CollocationScheme → α
  | euler => x₀ + dt * r₀
  | trapezoidal => x₀ + Scalar.half * dt * (r₀ + r₁)

/-- By how much a value at the end differs from the integrated one. -/
def residual (x₀ x₁ r₀ r₁ dt : α) (s : CollocationScheme) : α := x₁ - s.integrate x₀ r₀ r₁ dt

/-- Whether the rate at the end of the step is read. -/
def readsEndRate : CollocationScheme → Bool
  | euler => false
  | trapezoidal => true

/-- The name of the scheme. -/
def text : CollocationScheme → String
  | euler => "euler"
  | trapezoidal => "trapezoidal"

/-- The scheme used unless another one is given. -/
def default : CollocationScheme := euler

/-- The scheme with a name, in any case and with blanks around it. -/
def ofText (s : String) : Except (Fault α) CollocationScheme :=
  let name := String.ofList (Text.lowercase (Text.trim s.toList))
  if name = euler.text then pure euler
  else if name = trapezoidal.text then pure trapezoidal
  else throw (.settings (.unknownScheme name))

end CollocationScheme

/-- The length of an integration step. -/
inductive TimeStep (α : Type) where
  /-- A known length. -/
  | fixed (dt : α)
  /-- The value of a variable, the duration of the steps of a phase. -/
  | phase (key : Key)

end Articulated
