import Articulated.Graph.Basic
import Articulated.Robot.Model
import Articulated.Settings.Document

/-!
# The graph of a time slice

A `Builder` turns a robot into factors, with the noise of its settings.

* `poseFactors`, `twistFactors` and `accelFactors` hold the kinematics of every joint, and pin the
  fixed links.
* `dynamicsFactors` balances the wrenches on every moving link, and relates the wrenches of every
  joint to each other and to its actuation. With a planar axis the child wrenches are kept in the
  plane; whether the robot can move in that plane is not asked.
* `slice` puts together the groups that the builder selects.
-/

namespace Articulated

variable {α : Type} [Scalar α]

/-! ## 1. Builders -/

/-- The groups of factors of a slice. -/
inductive FactorGroup where
  | poses
  | twists
  | accels
  | dynamics
deriving DecidableEq

namespace FactorGroup

/-- All groups in order. -/
def all : List FactorGroup := [poses, twists, accels, dynamics]

/-- The name of the group. -/
def text : FactorGroup → String
  | poses => "POSES"
  | twists => "TWISTS"
  | accels => "ACCELS"
  | dynamics => "DYNAMICS"

/-- The bit of the group in a set of groups. -/
def bit : FactorGroup → Nat
  | poses => 1
  | twists => 2
  | accels => 4
  | dynamics => 8

end FactorGroup

/-- What factors are built with: the settings, and the groups of a slice. -/
structure Builder (α : Type) where
  settings : Settings α
  groups : List FactorGroup

namespace Builder

/-- A builder of all groups. -/
def ofSettings (settings : Settings α) : Builder α := ⟨settings, FactorGroup.all⟩

/-- The selected groups, in order and each once. -/
def selected (b : Builder α) : List FactorGroup := FactorGroup.all.filter fun g => g ∈ b.groups

/-- The standard deviation of a kind of factor. -/
def sigma (b : Builder α) (n : SigmaName) : α := b.settings.sigma n

variable [Runtime α]

/-! ## 2. Kinematics -/

/-- The factors of all joints, in the order of the robot. -/
def perJoint (r : Robot α) (build : Joint α → JointFrames α → Except (Fault α) (List (Factor α))) :
    Except (Fault α) (FactorGraph α) := do
  return ⟨(← inParallel r.joints fun j => do build j (← r.frames j)).flatten⟩

/-- A factor for every fixed link, in the order of the robot. -/
def perFixedLink (r : Robot α) (build : Link α → Except (Fault α) (Factor α)) :
    Except (Fault α) (FactorGraph α) := do
  return ⟨← r.fixedLinks.mapM build⟩

/-- Poses of the links of every joint, and rest poses of the fixed links. -/
def poseFactors (b : Builder α) (r : Robot α) (t : Nat) : Except (Fault α) (FactorGraph α) := do
  let joints ← perJoint r fun j frames => do
    let parent ← (Variable.pose j.parent t).key
    let child ← (Variable.pose j.child t).key
    let angle ← (Variable.jointAngle j.id t).key
    return [.isotropic (.jointPose parent child angle frames) 6 (b.sigma .pose)]
  let fixed ← perFixedLink r fun l => do
    return .prior (← (Variable.pose l.id t).key) (.pose l.rest) (b.sigma .posePrior)
  return joints ++ fixed

/-- Twists of the links of every joint, and vanishing twists of the fixed links. -/
def twistFactors (b : Builder α) (r : Robot α) (t : Nat) : Except (Fault α) (FactorGraph α) := do
  let joints ← perJoint r fun j frames => do
    let parent ← (Variable.twist j.parent t).key
    let child ← (Variable.twist j.child t).key
    let angle ← (Variable.jointAngle j.id t).key
    let velocity ← (Variable.jointVel j.id t).key
    return [.isotropic (.jointTwist parent child angle velocity frames) 6 (b.sigma .twist)]
  let fixed ← perFixedLink r fun l => do
    return .prior (← (Variable.twist l.id t).key) (.vector 0) (b.sigma .twistPrior)
  return joints ++ fixed

/-- Accelerations of the links of every joint, and vanishing accelerations of the fixed links. -/
def accelFactors (b : Builder α) (r : Robot α) (t : Nat) : Except (Fault α) (FactorGraph α) := do
  let joints ← perJoint r fun j frames => do
    let childTwist ← (Variable.twist j.child t).key
    let parent ← (Variable.twistAccel j.parent t).key
    let child ← (Variable.twistAccel j.child t).key
    let angle ← (Variable.jointAngle j.id t).key
    let velocity ← (Variable.jointVel j.id t).key
    let acceleration ← (Variable.jointAccel j.id t).key
    let relation :=
      .jointTwistAccel childTwist parent child angle velocity acceleration frames
    return [.isotropic relation 6 (b.sigma .accel)]
  let fixed ← perFixedLink r fun l => do
    return .prior (← (Variable.twistAccel l.id t).key) (.vector 0) (b.sigma .accelPrior)
  return joints ++ fixed

/-! ## 3. Dynamics -/

/-- The balance of the wrenches on a link. -/
def balanceFactor (b : Builder α) (r : Robot α) (t : Nat) (gravity : Vec3 α) (l : Link α) :
    Except (Fault α) (Factor α) := do
  let wrenches ← (r.jointsAt l.id).mapM fun j => (Variable.wrench l.id j.id t).key
  let pose ← (Variable.pose l.id t).key
  let twist ← (Variable.twist l.id t).key
  let accel ← (Variable.twistAccel l.id t).key
  return .isotropic (.wrenchBalance pose twist accel wrenches l.mass l.spatialInertia gravity) 6
    (b.sigma .wrench)

/-- The relations of the wrenches of a joint. -/
def wrenchFactors (b : Builder α) (t : Nat) (planar : Option (Vec3 α)) (j : Joint α)
    (frames : JointFrames α) : Except (Fault α) (List (Factor α)) := do
  let parent ← (Variable.wrench j.parent j.id t).key
  let child ← (Variable.wrench j.child j.id t).key
  let angle ← (Variable.jointAngle j.id t).key
  let torque ← (Variable.torque j.id t).key
  let inPlane := planar.toList.map fun axis => Factor.wrenchPlanar child axis (b.sigma .planar)
  return .isotropic (.wrenchEquivalence parent child angle frames) 6 (b.sigma .wrenchEquivalence)
    :: .isotropic (.torque child torque frames.screwChild) 1 (b.sigma .torque) :: inPlane

/-- The balance of every moving link, and the wrench relations of every joint. -/
def dynamicsFactors (b : Builder α) (r : Robot α) (t : Nat) (gravity : Vec3 α)
    (planar : Option (Vec3 α)) : Except (Fault α) (FactorGraph α) := do
  let links ← inParallel r.movingLinks (b.balanceFactor r t gravity)
  let joints ← perJoint r (b.wrenchFactors t planar)
  return ⟨links⟩ ++ joints

/-! ## 4. The slice -/

/-- The factors of one group. -/
def group (b : Builder α) (r : Robot α) (t : Nat) (gravity : Vec3 α) (planar : Option (Vec3 α)) :
    FactorGroup → Except (Fault α) (FactorGraph α)
  | .poses => b.poseFactors r t
  | .twists => b.twistFactors r t
  | .accels => b.accelFactors r t
  | .dynamics => b.dynamicsFactors r t gravity planar

/-- All factors of one time, group by group. -/
def slice (b : Builder α) (r : Robot α) (t : Nat) (gravity : Vec3 α) (planar : Option (Vec3 α)) :
    Except (Fault α) (FactorGraph α) := do
  return .join (← b.selected.mapM (b.group r t gravity planar))

end Builder

end Articulated
