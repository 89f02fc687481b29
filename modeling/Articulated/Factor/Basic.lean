import Articulated.Factor.Relation

/-!
# Factors

A factor is a relation weighed by noise: whitening divides each row of the residual by its own
standard deviation. The cost of a factor is half the squared whitened residual.

The Jacobian of a factor is that of its relation where it is known, and central differences on the
tangent spaces of its variables otherwise; noise has no part in it.
-/

namespace Articulated

variable {α : Type} [Scalar α]

/-! ## 1. Noise -/

/-- Independent Gaussian noise, a standard deviation for every row. -/
structure Noise (α : Type) where
  sigmas : List α

namespace Noise

/-- The same standard deviation for all rows. -/
def isotropic (dim : Nat) (sigma : α) : Noise α := ⟨List.replicate dim sigma⟩

/-- The number of rows. -/
def dim (n : Noise α) : Nat := n.sigmas.length

/-- The residual in units of its standard deviations. It must have a row for each of them. -/
def whiten (n : Noise α) (residual : List α) : Except (Fault α) (List α) :=
  if residual.length = n.dim then pure (List.zipWith (· / ·) residual n.sigmas)
  else throw (.breach (.residualRows residual.length n.dim))

/-- A column of a Jacobian in units of the standard deviations of its rows; rows without one stay
as they are. -/
def whitenColumn : List α → List α → List α
  | σ :: σs, x :: xs => x / σ :: whitenColumn σs xs
  | [], xs => xs
  | _, [] => []

/-- The columns of a Jacobian in units of the standard deviations of their rows. -/
def whitenBlock (n : Noise α) (block : List (List α)) : List (List α) :=
  block.map (whitenColumn n.sigmas)

end Noise

/-- A relation with the noise of its residual rows. -/
structure Factor (α : Type) where
  relation : Relation α
  noise : Noise α

namespace Factor

/-! ## 2. Construction -/

/-- A relation whose residual rows all have one standard deviation. -/
def isotropic (relation : Relation α) (dim : Nat) (sigma : α) : Factor α :=
  ⟨relation, Noise.isotropic dim sigma⟩

/-- The given value of a variable. -/
def prior (k : Key) (value : Value α) (sigma : α) : Factor α :=
  isotropic (.prior k value) value.dim sigma

/-- The given value of a scalar variable. -/
def scalarPrior (k : Key) (x sigma : α) : Factor α := prior k (.scalar x) sigma

/-- The planarity of a wrench with respect to an axis. -/
def wrenchPlanar (wrench : Key) (axis : Vec3 α) (sigma : α) : Factor α :=
  isotropic (.wrenchPlanar wrench (planarRows axis)) 3 sigma

/-- The bounds of a variable. -/
def jointLimit (k : Key) (lower upper sigma : α) : Factor α :=
  isotropic (.jointLimit k lower upper) 1 sigma

/-- Bounds of a variable at equal distances from zero. -/
def symmetricLimit (k : Key) (bound sigma : α) : Factor α :=
  jointLimit k (-Scalar.abs bound) (Scalar.abs bound) sigma

/-! ## 3. Reading -/

/-- The name of the kind of factor. -/
def name (f : Factor α) : String := f.relation.name

/-- The variables of the factor. -/
def keys (f : Factor α) : List Key := f.relation.keys

/-- The number of residual rows. -/
def dim (f : Factor α) : Nat := f.noise.dim

/-- The text of a name with some keys. -/
def signatureText (name : String) (keys : List Key) : String :=
  name ++ "(" ++ ", ".intercalate (keys.map Key.text) ++ ")"

/-- The text of the factor: its name with its variables. -/
def text (f : Factor α) : String := signatureText f.name f.keys

/-! ## 4. Evaluation -/

/-- The residual, zero when the relation holds. -/
def residual (f : Factor α) (vs : Values α) : Except (Fault α) (List α) := f.relation.residual vs

/-- The residual in units of its noise. -/
def whitened (f : Factor α) (vs : Values α) : Except (Fault α) (List α) := do
  f.noise.whiten (← f.residual vs)

/-- Half the squared whitened residual. -/
def cost (f : Factor α) (vs : Values α) : Except (Fault α) α := do
  return Scalar.half * Scalar.normSq (← f.whitened vs)

/-! ## 5. Jacobians -/

/-- The disturbance of the central differences. -/
def disturbance : α := 1e-6

/-- The residual with one variable moved by a distance along one tangent direction. -/
def moved (f : Factor α) (vs : Values α) (k : Key) (value : Value α) (direction : Nat) (step : α) :
    Except (Fault α) (List α) :=
  f.residual (vs.insert k (value.retract (Scalar.axis value.dim direction step)))

/-- One column of the central differences. It must have a row for each standard deviation. -/
def differenceColumn (f : Factor α) (vs : Values α) (k : Key) (value : Value α) (ε : α)
    (direction : Nat) : Except (Fault α) (List α) := do
  let plus ← f.moved vs k value direction ε
  let minus ← f.moved vs k value direction (-ε)
  if plus.length = f.dim ∧ minus.length = f.dim then
    return List.zipWith (fun a b => (a - b) / (ε + ε)) plus minus
  else throw (.breach (.residualRows plus.length f.dim))

/-- The block of one variable: a column for every tangent direction. -/
def differenceBlock (f : Factor α) (vs : Values α) (ε : α) (k : Key) :
    Except (Fault α) (Block α) := do
  let value ← vs.lookup k
  (List.range value.dim).mapM (f.differenceColumn vs k value ε)

variable [Runtime α]

/-- The central differences, a block for every variable. Only the variables of the factor are
looked at. -/
def differences (f : Factor α) (vs : Values α) (ε : α) : Except (Fault α) (List (Block α)) := do
  let own ← vs.subset f.keys
  inParallel f.keys (f.differenceBlock own ε)

/-- The Jacobian blocks of the residual, a block for every variable. -/
def blocks (f : Factor α) (vs : Values α) : Except (Fault α) (List (Block α)) :=
  match f.relation.exactBlocks? with
  | some exact => exact vs
  | none => f.differences vs disturbance

end Factor

/-! ## 6. Linear models -/

/-- A factor near an assignment: its residual there, and a Jacobian block for each variable. -/
structure Linearization (α : Type) where
  keys : List Key
  blocks : List (Block α)
  residual : List α

/-- The linear model of a factor, in units of its noise if asked for. -/
def Factor.linearize [Runtime α] (f : Factor α) (vs : Values α) (whiten : Bool) :
    Except (Fault α) (Linearization α) := do
  let residual ← f.residual vs
  let blocks ← f.blocks vs
  if whiten then
    return ⟨f.keys, blocks.map f.noise.whitenBlock, ← f.noise.whiten residual⟩
  else return ⟨f.keys, blocks, residual⟩

end Articulated
