import Articulated.Fault
import Articulated.Key.Map
import Articulated.Spatial.Pose

/-!
# Values of variables

A variable has a scalar value, a spatial vector or a pose. Each kind has a tangent space: scalars
and vectors move by addition, poses by multiplication on the right with the motion whose rotation
vector and translation are given.

`Values` assigns values to finitely many keys, in ascending order.

* `Values.lookup`, `scalar`, `vector6` and `pose` read a variable, or say what is wrong.
* `Values.retract` moves the variables of an ordering along consecutive blocks of a tangent
  vector, and leaves all others as they are.
-/

namespace Articulated

variable {α : Type} [Scalar α]

/-! ## 1. One value -/

/-- The value of a variable. -/
inductive Value (α : Type) where
  | scalar (x : α)
  | vector (v : SpatialVector α)
  | pose (p : Pose α)

namespace Value

/-- The kind of a value. -/
def kind : Value α → ValueKind
  | scalar _ => .scalar
  | vector _ => .vector6
  | pose _ => .pose

/-- The dimension of the tangent space. -/
def dim : Value α → Nat
  | scalar _ => 1
  | vector _ => 6
  | pose _ => 6

/-- The value moved along a tangent vector; missing coordinates are zero. -/
def retract (v : Value α) (δ : List α) : Value α :=
  match v with
  | scalar x => scalar (x + δ.getD 0 0)
  | vector u => vector (u + SpatialVector.ofList δ)
  | pose p => pose (p * Pose.ofVector (SpatialVector.ofList δ))

/-- The tangent vector from one value to another of the same kind. -/
def local? : Value α → Value α → Option (List α)
  | scalar a, scalar b => some [b - a]
  | vector a, vector b => some (b - a).toList
  | pose a, pose b => some (a.localTo b).toList
  | _, _ => none

/-- Equality of values of one kind. -/
def same : Value α → Value α → Bool
  | scalar a, scalar b => a == b
  | vector a, vector b => a == b
  | pose a, pose b => a == b
  | _, _ => false

instance : BEq (Value α) := ⟨same⟩

/-- Whether all numbers of the value are finite. -/
def isFinite : Value α → Bool
  | scalar x => Scalar.isFinite x
  | vector v => v.toList.all Scalar.isFinite
  | pose p =>
    p.translation.toList.all Scalar.isFinite
      && (p.rotation.scalar :: p.rotation.vector.toList).all Scalar.isFinite

end Value

/-! ## 2. Assignments -/

/-- Values of finitely many variables. -/
@[ext]
structure Values (α : Type) where
  map : KeyMap (Value α)

namespace Values

/-- The assignment without variables. -/
def empty : Values α := ⟨KeyMap.empty⟩

/-- The variables with their values, in ascending order. -/
def entries (vs : Values α) : List (Key × Value α) := vs.map.entries

/-- The variables in ascending order. -/
def keys (vs : Values α) : List Key := vs.map.keys

/-- The number of variables. -/
def size (vs : Values α) : Nat := vs.map.size

/-- The value of a variable. -/
def get? (vs : Values α) (k : Key) : Option (Value α) := vs.map.get? k

/-- Whether a variable has a value. -/
def contains (vs : Values α) (k : Key) : Bool := vs.map.contains k

/-- Gives a variable a value, in place of the one it had. -/
def insert (vs : Values α) (k : Key) (v : Value α) : Values α := ⟨vs.map.insert k v⟩

/-- Adds the variables of another assignment that have no value yet. -/
def insertMissing (vs other : Values α) : Values α :=
  other.entries.foldl (fun acc e => if acc.contains e.1 then acc else acc.insert e.1 e.2) vs

/-- Takes over all values of another assignment. -/
def update (vs other : Values α) : Values α :=
  other.entries.foldl (fun acc e => acc.insert e.1 e.2) vs

/-- Equality: the same variables with equal values. -/
def same (vs other : Values α) : Bool := vs.entries == other.entries

instance : BEq (Values α) := ⟨same⟩

/-- Whether all numbers of the assignment are finite. -/
def allFinite (vs : Values α) : Bool := vs.entries.all fun e => e.2.isFinite

/-! ## 3. Reading -/

/-- The value of a variable that must have one. -/
def lookup (vs : Values α) (k : Key) : Except (Fault α) (Value α) :=
  match vs.get? k with
  | some v => .ok v
  | none => .error (.missing k)

/-- The value of a scalar variable. -/
def scalar (vs : Values α) (k : Key) : Except (Fault α) α := do
  match ← vs.lookup k with
  | .scalar x => pure x
  | v => throw (.kindMismatch k .scalar v.kind)

/-- The value of a variable that is a spatial vector. -/
def vector6 (vs : Values α) (k : Key) : Except (Fault α) (SpatialVector α) := do
  match ← vs.lookup k with
  | .vector v => pure v
  | v => throw (.kindMismatch k .vector6 v.kind)

/-- The value of a variable that is a pose. -/
def pose (vs : Values α) (k : Key) : Except (Fault α) (Pose α) := do
  match ← vs.lookup k with
  | .pose p => pure p
  | v => throw (.kindMismatch k .pose v.kind)

/-- The tangent dimension of a variable. -/
def dim (vs : Values α) (k : Key) : Except (Fault α) Nat := do
  return (← vs.lookup k).dim

/-- The tangent dimension of some variables together. -/
def totalDim (vs : Values α) : List Key → Except (Fault α) Nat
  | [] => pure 0
  | k :: ks => do
    let d ← vs.dim k
    let rest ← vs.totalDim ks
    return d + rest

/-- The restriction to some variables, which must all have a value. -/
def subset (vs : Values α) (ks : List Key) : Except (Fault α) (Values α) :=
  ks.foldlM (fun acc k => do return acc.insert k (← vs.lookup k)) empty

/-! ## 4. Moving -/

/-- The moves of the variables of an ordering along consecutive blocks of a tangent vector,
entered into `acc`. Each variable moves from its value in `vs`, so of two moves of one variable
the last one counts. -/
def retractInto (vs : Values α) : List Key → List α → Values α → Except (Fault α) (Values α)
  | [], _, acc => pure acc
  | k :: ks, δ, acc => do
    let v ← vs.lookup k
    if δ.length < v.dim then throw (.breach .shortTangent)
    vs.retractInto ks (δ.drop v.dim) (acc.insert k (v.retract (δ.take v.dim)))

/-- The assignment with the variables of an ordering moved along a tangent vector. -/
def retract (vs : Values α) (ordering : List Key) (δ : List α) : Except (Fault α) (Values α) :=
  vs.retractInto ordering δ vs

end Values

end Articulated
