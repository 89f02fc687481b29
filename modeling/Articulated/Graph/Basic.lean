import Articulated.Factor.Basic

/-!
# Factor graphs

A factor graph is a list of factors; its error is the sum of their costs.

The signature of a factor is its name with its variables in ascending order. Two graphs whose
sorted signatures agree have the same factors up to order, parameters and the order of variables.
-/

namespace Articulated

variable {α : Type} [Scalar α]

/-- A list of factors. -/
structure FactorGraph (α : Type) where
  factors : List (Factor α)

/-- A description of a factor that does not depend on the order of its variables. -/
structure Signature where
  name : String
  keys : List Key
deriving DecidableEq

namespace Signature

/-- Lists of keys in the order of dictionaries. -/
def keysBelow : List Key → List Key → Bool
  | [], _ => true
  | _ :: _, [] => false
  | a :: as, b :: bs => a < b || (a == b && keysBelow as bs)

/-- Signatures by name, then by keys. -/
def below (a b : Signature) : Bool :=
  a.name < b.name || (a.name == b.name && keysBelow a.keys b.keys)

/-- The name with the keys. -/
def text (s : Signature) : String := Factor.signatureText s.name s.keys

end Signature

/-- The signature of a factor. -/
def Factor.signature (f : Factor α) : Signature := ⟨f.name, f.keys.mergeSort (· ≤ ·)⟩

namespace FactorGraph

/-- The graph without factors. -/
def empty : FactorGraph α := ⟨[]⟩

/-- The factors of both graphs, those of the left one first. -/
def append (g h : FactorGraph α) : FactorGraph α := ⟨g.factors ++ h.factors⟩

instance : Append (FactorGraph α) := ⟨append⟩

/-- The factors of some graphs one after the other. -/
def join (gs : List (FactorGraph α)) : FactorGraph α := ⟨gs.flatMap (·.factors)⟩

/-- The number of factors. -/
def size (g : FactorGraph α) : Nat := g.factors.length

/-- Whether there are no factors. -/
def isEmpty (g : FactorGraph α) : Bool := g.factors.isEmpty

/-- All variables of the graph. -/
def keys (g : FactorGraph α) : KeySet := KeySet.ofLists (g.factors.map Factor.keys)

/-- The number of residual rows. -/
def dim (g : FactorGraph α) : Nat := (g.factors.map Factor.dim).foldr (· + ·) 0

/-- The sum of the costs of all factors. -/
def error [Runtime α] (g : FactorGraph α) (vs : Values α) : Except (Fault α) α := do
  return Scalar.sum (← inParallel g.factors (·.cost vs))

/-- The linear models of all factors, in order. -/
def linearize [Runtime α] (g : FactorGraph α) (vs : Values α) (whiten : Bool) :
    Except (Fault α) (List (Linearization α)) :=
  inParallel g.factors (·.linearize vs whiten)

/-- The sorted signatures of all factors. -/
def signatures (g : FactorGraph α) : List Signature :=
  (g.factors.map Factor.signature).mergeSort Signature.below

end FactorGraph

end Articulated
