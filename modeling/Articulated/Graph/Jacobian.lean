import Articulated.Dense.SingularValues
import Articulated.Factor.Basic

/-!
# Stacked linear models

The linear models of some factors side by side: the rows are their residual rows, the columns the
tangent coordinates of the variables of an ordering. Variables outside the ordering are held fixed
and have no columns.

* `Jacobian.stack` puts the models together. Of two blocks of one factor for one variable the last
  one counts, and a variable that the ordering repeats has its entries in its last place.
* `Jacobian.correction` is the shortest tangent step that makes the linear residual vanish as far
  as the singular values above the threshold reach.
-/

namespace Articulated

variable {α : Type} [Scalar α]

/-- A stacked linear model. -/
structure Jacobian (α : Type) where
  matrix : Dense α
  residual : List α
  ordering : List Key
  /-- Singular values not above this count as zero. -/
  threshold : α

namespace Jacobian

/-! ## 1. Stacking -/

/-- The last block that a linear model has for a variable. -/
def lastBlock? (l : Linearization α) (k : Key) : Option (Block α) :=
  (l.keys.zip l.blocks).foldl (fun found e => if e.1 = k then some e.2 else found) none

/-- The columns of a linear model for a variable of the given tangent dimension. -/
def columnsOf (l : Linearization α) (k : Key) (width : Nat) : Except (Fault α) (Block α) :=
  match lastBlock? l k with
  | none => pure (List.replicate width (List.replicate l.residual.length 0))
  | some b =>
    if b.length = width ∧ b.all (fun c => c.length = l.residual.length) then pure b
    else throw (.breach .blockShape)

/-- The columns of a linear model for an ordering, whose variables stand with their tangent
dimensions. -/
def strip (l : Linearization α) : List (Key × Nat) → Except (Fault α) (Block α)
  | [] => pure []
  | (k, width) :: rest => do
    let here ←
      if rest.any (fun e => e.1 = k) then
        pure (List.replicate width (List.replicate l.residual.length 0))
      else columnsOf l k width
    return here ++ (← strip l rest)

/-- The linear models over an ordering; the assignment tells the tangent dimensions. -/
def stack (ls : List (Linearization α)) (ordering : List Key) (vs : Values α) (threshold : α) :
    Except (Fault α) (Jacobian α) := do
  let places ← ordering.mapM fun k => do return (k, ← vs.dim k)
  let strips ← ls.mapM fun l => do return Dense.mk l.residual.length (← strip l places)
  let cols := (places.map Prod.snd).foldr (· + ·) 0
  return { matrix := strips.foldr Dense.above (Dense.noRows cols)
           residual := (ls.map (·.residual)).flatten
           ordering, threshold }

/-! ## 2. Solving -/

variable [Factorization α]

/-- A threshold must not be negative, nor NaN. -/
def checkThreshold (threshold : α) : Except (Fault α) Unit :=
  if 0 ≤ threshold then pure () else throw (.breach .badThreshold)

/-- The number of singular values above the threshold. -/
def rank (j : Jacobian α) : Except (Fault α) Nat := do
  if j.matrix.isEmpty then return 0
  checkThreshold j.threshold
  return (Factorization.singular j.matrix).rank j.threshold

/-- The tangent step of smallest norm that takes the linear residual away. -/
def correction (j : Jacobian α) : Except (Fault α) (List α) := do
  if j.matrix.isEmpty then return List.replicate j.matrix.cols 0
  checkThreshold j.threshold
  let triples := Factorization.singular j.matrix
  return (triples.solve j.threshold j.residual j.matrix.cols).map (- ·)

end Jacobian

end Articulated
