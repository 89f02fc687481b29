import Articulated.Spatial.Pose

/-!
# Screw algebra

The maps of spatial vectors that the dynamics factors are built from.

* `Pose.adjoint` carries twists between frames: `V_a = Ad(aTb) V_b`. Wrenches go the other way by
  the transpose: `F_b = Ad(aTb)ᵀ F_a`.
* `SpatialVector.bracket` is the Lie bracket: `[V, W] = ad(V) W`.
* `JointFrames` is what the factors need of a joint: the joint frame seen from the parent, the child
  frame seen from the joint, and the joint screw in both link frames. It comes from the rest poses
  of the two links and of the joint, and from the axis of the joint in its own frame.
* `planarRows` selects the three components of a wrench that must vanish for motion in the plane
  orthogonal to an axis.
-/

namespace Articulated

variable {α : Type} [Scalar α]

/-! ## 1. Frames -/

/-- The adjoint map of a pose: the rotation in both diagonal blocks, and the skew matrix of the
translation times the rotation below. -/
def Pose.adjoint (a : Pose α) : SpatialMatrix α :=
  let r := a.rotation.matrix
  ⟨r, 0, Mat3.skew a.translation * r, r⟩

/-- The matrix of the Lie bracket with a twist. -/
def SpatialVector.bracket (v : SpatialVector α) : SpatialMatrix α :=
  let w := Mat3.skew v.angular
  ⟨w, 0, Mat3.skew v.linear, w⟩

/-! ## 2. Inertia and gravity -/

/-- The inertia of a body in the frame of its centre of mass. -/
def SpatialMatrix.ofInertia (mass : α) (inertia : Mat3 α) : SpatialMatrix α :=
  ⟨inertia, 0, 0, mass • Mat3.identity⟩

/-- The wrench of gravity on a body at a pose, in the frame of its centre of mass: no moment, and
the weight turned into that frame. -/
def gravityWrench (mass : α) (pose : Pose α) (gravity : Vec3 α) : SpatialVector α :=
  ⟨0, pose.rotation.inverse.apply (mass • gravity)⟩

/-! ## 3. Joints -/

/-- The two kinds of motion that a joint allows. -/
inductive JointType where
  /-- A turn about the axis. -/
  | revolute
  /-- A shift along the axis. -/
  | prismatic
deriving DecidableEq

namespace JointType

/-- The unit twist of the joint in its own frame. -/
def screw (axis : Vec3 α) : JointType → SpatialVector α
  | revolute => ⟨axis, 0⟩
  | prismatic => ⟨0, axis⟩

end JointType

/-- The turn about a unit axis by an angle. The angle zero turns nothing, whatever the axis. -/
def rotationAbout (axis : Vec3 α) (angle : α) : Pose α :=
  if angle == 0 then Pose.identity else ⟨Rotation.aboutAxis axis angle, 0⟩

/-- The motion of a joint at a coordinate, in its own frame. -/
def JointType.motion (axis : Vec3 α) (q : α) : JointType → Pose α
  | revolute => rotationAbout axis q
  | prismatic => Pose.shift (q • axis)

/-! ## 4. Frames of a joint -/

/-- The geometry of a joint relative to the frames of its two links. -/
structure JointFrames (α : Type) where
  type : JointType
  /-- The joint frame in the frame of the parent. -/
  jointInParent : Pose α
  /-- The frame of the child in the joint frame, at rest. -/
  childInJoint : Pose α
  /-- The axis in the joint frame. -/
  axis : Vec3 α
  /-- The unit twist of the joint in the frame of the child, the same at every coordinate. -/
  screwChild : SpatialVector α
  /-- The unit twist of the joint in the frame of the parent. -/
  screwParent : SpatialVector α

namespace JointFrames

/-- The frames of a joint from the rest poses of its parent, itself and its child in the world. -/
def ofRest (type : JointType) (parent joint child : Pose α) (axis : Vec3 α) : JointFrames α :=
  let jointInParent := parent.inverse * joint
  let childInJoint := joint.inverse * child
  let screw := type.screw axis
  { type, jointInParent, childInJoint, axis
    screwChild := childInJoint.inverse.adjoint.apply screw
    screwParent := jointInParent.adjoint.apply screw }

/-- The frame of the child in the frame of the parent at a joint coordinate. -/
def childInParent (f : JointFrames α) (q : α) : Pose α :=
  f.jointInParent * f.type.motion f.axis q * f.childInJoint

/-- The frame of the parent in the frame of the child at a joint coordinate. -/
def parentInChild (f : JointFrames α) (q : α) : Pose α := (f.childInParent q).inverse

end JointFrames

/-! ## 5. Planes -/

/-- A basis vector that is least aligned with a unit normal. -/
def leastAligned (n : Vec3 α) : Vec3 α :=
  if Scalar.abs n.x ≤ Scalar.abs n.y ∧ Scalar.abs n.x ≤ Scalar.abs n.z then Vec3.unitX
  else if Scalar.abs n.y ≤ Scalar.abs n.z then Vec3.unitY
  else Vec3.unitZ

/-- Rows that vanish on the wrenches of motion in the plane orthogonal to an axis: the moments
about two directions in the plane, and the force along the axis. -/
def planarRows (axis : Vec3 α) : List (SpatialVector α) :=
  let n := axis.normalize
  let u := (n.cross (leastAligned n)).normalize
  let w := n.cross u
  [⟨u, 0⟩, ⟨w, 0⟩, ⟨0, n⟩]

end Articulated
