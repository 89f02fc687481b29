/-!
# The names of the noise parameters

Each kind of factor that the assembler emits has its own standard deviation. `SigmaName.all` is
the order in which they are read and checked, and `SigmaName.text` the name of each in a settings
document.
-/

namespace Articulated

/-- The standard deviations of the assembled factors. -/
inductive SigmaName where
  /-- Rest pose of a fixed link. -/
  | posePrior
  /-- Vanishing twist of a fixed link. -/
  | twistPrior
  /-- Vanishing acceleration of a fixed link. -/
  | accelPrior
  /-- Pose relation of a joint. -/
  | pose
  /-- Twist relation of a joint. -/
  | twist
  /-- Acceleration relation of a joint. -/
  | accel
  /-- Balance of the wrenches on a moving link. -/
  | wrench
  /-- Action and reaction through a joint. -/
  | wrenchEquivalence
  /-- Actuation of a joint. -/
  | torque
  /-- Planarity of a joint wrench. -/
  | planar
  /-- Given joint coordinate. -/
  | anglePrior
  /-- Given joint rate. -/
  | velocityPrior
  /-- Given joint acceleration. -/
  | jointAccelPrior
  /-- Given joint actuation. -/
  | torquePrior
  /-- Integration of a joint coordinate. -/
  | angleCollocation
  /-- Integration of a joint rate. -/
  | velocityCollocation
  /-- Given phase duration. -/
  | time
  /-- Limits of a joint quantity. -/
  | jointLimit
deriving DecidableEq

namespace SigmaName

/-- All names, in the order in which they are read and checked. -/
def all : List SigmaName :=
  [posePrior, twistPrior, accelPrior, pose, twist, accel, wrench, wrenchEquivalence, torque,
    planar, anglePrior, velocityPrior, jointAccelPrior, torquePrior, angleCollocation,
    velocityCollocation, time, jointLimit]

/-- The name in a settings document. -/
def text : SigmaName → String
  | posePrior => "pose_prior"
  | twistPrior => "twist_prior"
  | accelPrior => "accel_prior"
  | pose => "pose"
  | twist => "twist"
  | accel => "accel"
  | wrench => "wrench"
  | wrenchEquivalence => "wrench_equivalence"
  | torque => "torque"
  | planar => "planar"
  | anglePrior => "angle_prior"
  | velocityPrior => "velocity_prior"
  | jointAccelPrior => "joint_accel_prior"
  | torquePrior => "torque_prior"
  | angleCollocation => "angle_collocation"
  | velocityCollocation => "velocity_collocation"
  | time => "time"
  | jointLimit => "joint_limit"

/-- Every name is in the list. -/
theorem mem_all (n : SigmaName) : n ∈ all := by cases n <;> decide

end SigmaName

end Articulated
