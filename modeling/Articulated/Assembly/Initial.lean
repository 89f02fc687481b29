import Articulated.Graph.Basic
import Articulated.Random.Stream
import Articulated.Robot.Model

/-!
# Initial values

Assignments to start an optimization from: link poses at rest, everything else zero.

* `restSlice` has every variable of a slice, `restTrajectory` every variable of a trajectory, and
  `restValuesOf` exactly the variables of a graph.
* `scatteredSlice` moves every coordinate of a slice by a random distance; one seed always gives the
  same values.
-/

namespace Articulated.Robot

variable {α : Type} [Scalar α]

/-! ## 1. Rest -/

/-- The value of a quantity at rest. A pose of a link that the robot does not have is the
identity. -/
def restValue (r : Robot α) : Variable → Value α
  | .pose link _ => .pose (((r.link? link).map (·.rest)).getD Pose.identity)
  | .twist .. | .twistAccel .. | .wrench .. => .vector 0
  | .torque .. | .jointAngle .. | .jointVel .. | .jointAccel .. | .phaseDuration .. => .scalar 0

/-- Enters values of quantities into an assignment, in order. -/
def enter (vs : Values α) (entries : List (Variable × Value α)) : Except (Fault α) (Values α) :=
  entries.foldlM (fun acc e => do return acc.insert (← e.1.key) e.2) vs

/-- The quantities of a link. -/
def linkEntries (l : Link α) (t : Nat) : List (Variable × Value α) :=
  [(.pose l.id t, .pose l.rest), (.twist l.id t, .vector 0), (.twistAccel l.id t, .vector 0)]

/-- The quantities of a joint. -/
def jointEntries (j : Joint α) (t : Nat) : List (Variable × Value α) :=
  [(.wrench j.parent j.id t, .vector 0), (.wrench j.child j.id t, .vector 0),
    (.torque j.id t, .scalar 0), (.jointAngle j.id t, .scalar 0), (.jointVel j.id t, .scalar 0),
    (.jointAccel j.id t, .scalar 0)]

/-- Every quantity of the robot at a time. -/
def restEntries (r : Robot α) (t : Nat) : List (Variable × Value α) :=
  r.links.flatMap (linkEntries · t) ++ r.joints.flatMap (jointEntries · t)

/-- The values of a slice at rest. -/
def restSlice (r : Robot α) (t : Nat) : Except (Fault α) (Values α) :=
  enter .empty (r.restEntries t)

/-- The values of a trajectory at rest, with the durations of its phases. -/
def restTrajectory (r : Robot α) (numSteps numPhases : Nat) : Except (Fault α) (Values α) :=
  enter .empty ((List.range (numSteps + 1)).flatMap r.restEntries
    ++ (List.range numPhases).map fun p => (.phaseDuration p, .scalar 0))

/-- The values of the variables of a graph at rest. Each must be a quantity. -/
def restValuesOf (r : Robot α) (g : FactorGraph α) : Except (Fault α) (Values α) :=
  g.keys.toList.foldlM (fun acc k =>
    match k.variable? with
    | some v => pure (acc.insert k (r.restValue v))
    | none => throw (.missing k)) .empty

/-! ## 2. Noise -/

/-- Draws coordinates from a symmetric interval, if it has a positive length; else they are zero. -/
def drawTangent (sigma : Float) : Nat → Random.Stream → List Float × Random.Stream
  | 0, s => ([], s)
  | n + 1, s =>
    let (x, s) := if 0 < sigma then s.between (-sigma) sigma else (0, s)
    let (xs, s) := drawTangent sigma n s
    (x :: xs, s)

/-- Moves values along random tangent vectors, one after the other. -/
def scatter (sigma : Float) : List (Key × Value Float) → Random.Stream → Values Float → Values Float
  | [], _, acc => acc
  | (k, v) :: rest, s, acc =>
    let (δ, s) := drawTangent sigma v.dim s
    scatter sigma rest s (acc.insert k (v.retract δ))

/-- The values of a slice at rest, every coordinate moved by a random distance. The interval that
the distances are drawn from must have a finite length. -/
def scatteredSlice (r : Robot Float) (t : Nat) (sigma : Float) (seed : UInt64) :
    Except (Fault Float) (Values Float) := do
  let zero ← r.restSlice t
  if 0 < sigma ∧ zero.size ≠ 0 ∧ !Scalar.isFinite (Random.Stream.fullScale (-sigma) sigma) then
    throw (.breach .drawRange)
  return scatter sigma zero.entries (.ofSeed seed) .empty

/-! ## 3. Reading back -/

/-- The joint accelerations of a slice, by ascending joint id. -/
def jointAccelerations (r : Robot α) (vs : Values α) (t : Nat) : Except (Fault α) (List α) :=
  r.sortedJoints.mapM fun j => do vs.scalar (← (Variable.jointAccel j.id t).key)

end Articulated.Robot
