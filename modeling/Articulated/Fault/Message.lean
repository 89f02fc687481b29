import Articulated.Decimal.Shortest
import Articulated.Fault

/-!
# The texts of failures

`Fault.message` words every cause. Numbers stand in the texts as their shortest decimals.
-/

namespace Articulated

/-- The name of a kind of values. -/
def ValueKind.text : ValueKind → String
  | scalar => "scalar"
  | vector6 => "vector6"
  | pose => "pose"

/-- The name of a joint quantity. -/
def JointQuantity.text : JointQuantity → String
  | angles => "angles"
  | velocities => "velocities"
  | accelerations => "accelerations"
  | torques => "torques"

/-- The wording of an ill-formed trajectory. -/
def TrajectoryFault.message : TrajectoryFault → String
  | noPhases => "no phases given"
  | robotCount robots phases => s!"{robots} robots given for {phases} phases"
  | emptyPhase phase => s!"phase {phase} has no steps"
  | transitionCount graphs phases => s!"{graphs} transition graphs given for {phases} phases"
  | torqueCount vectors slices => s!"{vectors} torque vectors given for {slices} slices"

/-- The wording of an ill-formed robot. -/
def RobotFault.message : RobotFault → String
  | linkIdTooLarge id => s!"link id {id} is too large"
  | duplicateLink id => s!"duplicate link id {id}"
  | jointIdTooLarge id => s!"joint id {id} is too large"
  | duplicateJoint id => s!"duplicate joint id {id}"
  | selfJoint joint link => s!"joint {joint} connects link {link} to itself"
  | newSelfJoint joint => s!"joint {joint} connects a link to itself"
  | jointCount given quantity joints => s!"{given} {quantity.text} given for {joints} joints"

/-- The wording of a reference to a link. -/
def LinkReference.message : LinkReference → String
  | byName text => text
  | endOf id joint => s!"{id} (joint {joint})"
  | byId id => s!"{id}"

/-- The wording of refused settings. -/
def SettingsFault.message : SettingsFault Float → String
  | notADocument => "Failed to parse YAML"
  | notANumber entry => s!"'{entry}' must be a number"
  | unknownOptimizer text => s!"unknown optimizer '{text}'"
  | negativeIterations => "max_iterations must not be negative"
  | badSigma name value =>
    "sigma '" ++ name.text ++ "' must be positive and finite, got " ++ Decimal.plain value
  | unknownScheme text => s!"unknown collocation scheme '{text}'"

/-- The wording of a broken contract. -/
def Breach.message : Breach → String
  | keyLayout v => v.describe ++ " does not fit into the key layout"
  | shortTangent => "the tangent vector is too short"
  | residualRows rows sigmas => s!"{rows} residual rows for {sigmas} standard deviations"
  | blockShape => "a Jacobian block does not fit"
  | badThreshold => "the threshold of the singular values is negative"
  | emptySystem => "the system has no rows or no columns"
  | drawRange => "the interval to draw from is too long"

/-- The wording of a failure. -/
def Fault.message : Fault Float → String
  | missing key => "Invalid variable reference: " ++ key.text ++ " is not present in the values"
  | kindMismatch key expected found =>
    "Value kind mismatch for " ++ key.text ++ ": expected " ++ expected.text ++ ", found "
      ++ found.text
  | infeasible rank dimension =>
    s!"Infeasible constraint set: Jacobian rank {rank} is below the dimension {dimension}"
  | notRetracted iterations violation =>
    s!"Retraction did not converge after {iterations} iterations (max violation "
      ++ Decimal.plain violation ++ ")"
  | trajectory cause => "Invalid trajectory: " ++ cause.message
  | unknownLink link => "Unknown link: " ++ link.message
  | unknownJoint name => "Unknown joint: " ++ name
  | robot cause => "Invalid robot: " ++ cause.message
  | settings cause => "Settings error: " ++ cause.message
  | io => "IO Error: the file cannot be read"
  | breach cause => cause.message
  | unfinished => "The search was stopped by its bound"

end Articulated
