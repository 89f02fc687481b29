import Articulated.Graph.Basic

/-!
# Constraints

An equality constraint asks the residual of a relation to vanish, every row within a tolerance.
Noise has no part in it. The largest row counts as the violation; rows that are no numbers do not
count.

A set of constraints is a list. `Constraints.asCosts` takes the constraints as costs instead,
all with one standard deviation.
-/

namespace Articulated

variable {α : Type} [Scalar α]

/-! ## 1. One constraint -/

/-- A factor whose residual must vanish within a tolerance. -/
structure Constraint (α : Type) where
  factor : Factor α
  tolerance : α

namespace Constraint

/-- The variables of the constraint. -/
def keys (c : Constraint α) : List Key := c.factor.keys

/-- The number of residual rows. -/
def dim (c : Constraint α) : Nat := c.factor.dim

/-- The largest absolute residual row. -/
def violation (c : Constraint α) (vs : Values α) : Except (Fault α) α := do
  return Scalar.maxAbs (← c.factor.residual vs)

/-- Whether the violation is within the tolerance. -/
def compliant (c : Constraint α) (vs : Values α) : Except (Fault α) Bool := do
  return (← c.violation vs) ≤ c.tolerance

/-- The constraint as a cost. -/
def penalty (c : Constraint α) (sigma : α) : Factor α :=
  ⟨c.factor.relation, Noise.isotropic c.dim sigma⟩

end Constraint

/-! ## 2. Sets of constraints -/

/-- A list of constraints. -/
structure Constraints (α : Type) where
  items : List (Constraint α)

namespace Constraints

/-- Every factor of a graph with one tolerance. -/
def ofGraph (g : FactorGraph α) (tolerance : α) : Constraints α :=
  ⟨g.factors.map fun f => ⟨f, tolerance⟩⟩

/-- The set with one constraint more. -/
def add (cs : Constraints α) (c : Constraint α) : Constraints α := ⟨cs.items ++ [c]⟩

/-- The number of constraints. -/
def size (cs : Constraints α) : Nat := cs.items.length

/-- All variables of the constraints. -/
def keys (cs : Constraints α) : KeySet := KeySet.ofLists (cs.items.map Constraint.keys)

/-- The largest violation, zero if there are no constraints. -/
def largestViolation (cs : Constraints α) (vs : Values α) : Except (Fault α) α :=
  cs.items.foldlM (fun m c => do return Scalar.maxNum m (← c.violation vs)) 0

/-- Whether all of some constraints hold within their tolerances; those after one that does not
are not looked at. -/
def allCompliant (vs : Values α) : List (Constraint α) → Except (Fault α) Bool
  | [] => pure true
  | c :: rest => do
    if ← c.compliant vs then allCompliant vs rest else return false

/-- Whether every constraint holds within its tolerance. -/
def compliant (cs : Constraints α) (vs : Values α) : Except (Fault α) Bool :=
  allCompliant vs cs.items

/-- The linear models of all constraints. -/
def linearize [Runtime α] (cs : Constraints α) (vs : Values α) :
    Except (Fault α) (List (Linearization α)) :=
  cs.items.mapM (·.factor.linearize vs false)

/-- The constraints as costs with one standard deviation. -/
def asCosts (cs : Constraints α) (sigma : α) : FactorGraph α := ⟨cs.items.map (·.penalty sigma)⟩

end Constraints

end Articulated
