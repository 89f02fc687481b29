import Articulated.Assembly.Slice

/-!
# Given joint quantities

What is asked of a robot is stated by priors. Numbers for the joints are given in ascending order
of the joint ids, one for every joint.

* `forwardPriors` gives coordinates, rates and actuations, so that accelerations are the unknowns;
  `inversePriors` gives accelerations instead of actuations.
* `trajectoryPriors` gives the start of a trajectory, and the actuations at every time.
* `limitFactors` keeps the joints that have limits inside them.
-/

namespace Articulated.Builder

variable {α : Type} [Scalar α]

/-- There must be one number for every joint. -/
def checkCount (r : Robot α) (quantity : JointQuantity) (given : List α) : Except (Fault α) Unit :=
  if given.length = r.joints.length then pure ()
  else throw (.robot (.jointCount given.length quantity r.joints.length))

/-- The value of a joint quantity at a time. -/
def jointPrior (b : Builder α) (quantity : Nat → Nat → Variable) (sigma : SigmaName) (j : Joint α)
    (t : Nat) (x : α) : Except (Fault α) (Factor α) := do
  return .scalarPrior (← (quantity j.id t).key) x (b.sigma sigma)

/-- The joints by ascending id, each with the numbers given for it. -/
def jointRows (r : Robot α) (angles velocities others : List α) : List (Joint α × α × α × α) :=
  r.sortedJoints.zip (angles.zip (velocities.zip others))

/-- Coordinates, rates and actuations of the joints at a time. -/
def forwardPriors (b : Builder α) (r : Robot α) (t : Nat) (angles velocities torques : List α) :
    Except (Fault α) (FactorGraph α) := do
  checkCount r .angles angles
  checkCount r .velocities velocities
  checkCount r .torques torques
  let factors ← (jointRows r angles velocities torques).mapM fun (j, q, v, τ) => do
    return [← b.jointPrior .jointAngle .anglePrior j t q,
      ← b.jointPrior .jointVel .velocityPrior j t v, ← b.jointPrior .torque .torquePrior j t τ]
  return ⟨factors.flatten⟩

/-- Coordinates, rates and accelerations of the joints at a time. -/
def inversePriors (b : Builder α) (r : Robot α) (t : Nat) (angles velocities accels : List α) :
    Except (Fault α) (FactorGraph α) := do
  checkCount r .angles angles
  checkCount r .velocities velocities
  checkCount r .accelerations accels
  let factors ← (jointRows r angles velocities accels).mapM fun (j, q, v, a) => do
    return [← b.jointPrior .jointAngle .anglePrior j t q,
      ← b.jointPrior .jointVel .velocityPrior j t v,
      ← b.jointPrior .jointAccel .jointAccelPrior j t a]
  return ⟨factors.flatten⟩

/-- The actuations of the joints at a time. -/
def torquePriors (b : Builder α) (r : Robot α) (t : Nat) (torques : List α) :
    Except (Fault α) (List (Factor α)) := do
  checkCount r .torques torques
  (r.sortedJoints.zip torques).mapM fun e => b.jointPrior .torque .torquePrior e.1 t e.2

/-- Coordinates and rates at the start, and the actuations at the times from zero to `numSteps`. -/
def trajectoryPriors (b : Builder α) (r : Robot α) (numSteps : Nat) (angles velocities : List α)
    (torques : List (List α)) : Except (Fault α) (FactorGraph α) := do
  if torques.length ≠ numSteps + 1 then
    throw (.trajectory (.torqueCount torques.length (numSteps + 1)))
  checkCount r .angles angles
  checkCount r .velocities velocities
  let start ← (r.sortedJoints.zip (angles.zip velocities)).mapM fun (j, q, v) => do
    return [← b.jointPrior .jointAngle .anglePrior j 0 q,
      ← b.jointPrior .jointVel .velocityPrior j 0 v]
  let actuation ← torques.zipIdx.mapM fun e => b.torquePriors r e.2 e.1
  return ⟨start.flatten ++ actuation.flatten⟩

/-- The duration of the steps of a phase. -/
def durationPrior (b : Builder α) (phase : Nat) (dt : α) : Except (Fault α) (Factor α) := do
  return .scalarPrior (← (Variable.phaseDuration phase).key) dt (b.sigma .time)

/-- The limits of a joint at a time. -/
def jointLimits (b : Builder α) (t : Nat) (j : Joint α) : Except (Fault α) (List (Factor α)) := do
  match j.limits with
  | none => return []
  | some limits =>
    let sigma := b.sigma .jointLimit
    let angle ← (Variable.jointAngle j.id t).key
    let velocity ← (Variable.jointVel j.id t).key
    let accel ← (Variable.jointAccel j.id t).key
    let torque ← (Variable.torque j.id t).key
    return [.jointLimit angle limits.lower limits.upper sigma,
      .symmetricLimit velocity limits.velocity sigma,
      .symmetricLimit accel limits.acceleration sigma,
      .symmetricLimit torque limits.torque sigma]

/-- The limits of all joints that have some, at a time. -/
def limitFactors (b : Builder α) (r : Robot α) (t : Nat) : Except (Fault α) (FactorGraph α) := do
  return ⟨(← r.sortedJoints.mapM (b.jointLimits t)).flatten⟩

end Articulated.Builder
