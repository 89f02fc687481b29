import Articulated.Fault
import Articulated.Spatial.Screw

/-!
# Robots

A robot is a list of links and a list of joints, each with an id. Links are given by the rest pose
of their centre of mass, joints by their rest pose and axis.

* `Robot.check` says whether ids are unique and fit the keys and whether every joint connects two
  different links of the robot; `Robot.ofParts` accepts exactly such lists.
* Links and joints are looked up by id or by name; a name stands for the first part of that name.
* `Robot.addLink` and `Robot.addJoint` give out the id after the largest one in use.
* `Robot.sortedJoints` is the order in which numbers are given for joints.
* `Robot.twoLinkArm` and `Robot.fourBarLinkage` are examples: an arm that swings about its own
  centre of mass, and a closed loop of four links.
-/

namespace Articulated

variable {α : Type} [Scalar α]

/-! ## 1. Parts -/

/-- A rigid body. -/
structure Link (α : Type) where
  id : Nat
  name : String
  mass : α
  /-- Rotational inertia about the centre of mass, in its frame. -/
  inertia : Mat3 α
  /-- World pose of the frame of the centre of mass at rest. -/
  rest : Pose α
  /-- A fixed link stays in its rest pose, and no balance of wrenches is asked of it. -/
  fixed : Bool

/-- The spatial inertia of a link. -/
def Link.spatialInertia (l : Link α) : SpatialMatrix α := SpatialMatrix.ofInertia l.mass l.inertia

/-- Bounds of the quantities of a joint. -/
structure JointLimits (α : Type) where
  lower : α
  upper : α
  velocity : α
  acceleration : α
  torque : α

/-- A joint with one degree of freedom. -/
structure Joint (α : Type) where
  id : Nat
  name : String
  type : JointType
  /-- The id of the link on one side. -/
  parent : Nat
  /-- The id of the link on the other side, which the joint moves relative to the parent. -/
  child : Nat
  /-- World pose of the joint frame at rest. -/
  rest : Pose α
  /-- The axis of motion in the joint frame. -/
  axis : Vec3 α
  limits : Option (JointLimits α)

namespace Joint

/-- Whether a link is at an end of the joint. -/
def touches (j : Joint α) (link : Nat) : Bool := j.parent == link || j.child == link

/-- The link at the other end, for a link at one end. -/
def otherLink? (j : Joint α) (link : Nat) : Option Nat :=
  if link = j.parent then some j.child
  else if link = j.child then some j.parent
  else none

end Joint

/-- Links connected by joints. -/
structure Robot (α : Type) where
  links : List (Link α)
  joints : List (Joint α)

namespace Robot

/-! ## 2. Look-up -/

/-- The robot without parts. -/
def empty : Robot α := ⟨[], []⟩

/-- The link with an id. -/
def link? (r : Robot α) (id : Nat) : Option (Link α) := r.links.find? (·.id == id)

/-- The joint with an id. -/
def joint? (r : Robot α) (id : Nat) : Option (Joint α) := r.joints.find? (·.id == id)

/-- The first link with a name. -/
def linkNamed (r : Robot α) (name : String) : Except (Fault α) (Link α) :=
  match r.links.find? (·.name == name) with
  | some l => .ok l
  | none => .error (.unknownLink (.byName name))

/-- The first joint with a name. -/
def jointNamed (r : Robot α) (name : String) : Except (Fault α) (Joint α) :=
  match r.joints.find? (·.name == name) with
  | some j => .ok j
  | none => .error (.unknownJoint name)

/-- The joints at a link, in the order of the robot. -/
def jointsAt (r : Robot α) (link : Nat) : List (Joint α) := r.joints.filter (·.touches link)

/-- The links that are fixed, in the order of the robot. -/
def fixedLinks (r : Robot α) : List (Link α) := r.links.filter (·.fixed)

/-- The links that are not fixed, in the order of the robot. -/
def movingLinks (r : Robot α) : List (Link α) := r.links.filter (!·.fixed)

/-- The joints by ascending id, those with one id in the order of the robot. -/
def sortedJoints (r : Robot α) : List (Joint α) := r.joints.mergeSort fun a b => a.id ≤ b.id

/-- The frames of a joint, from the rest poses of its links. -/
def frames (r : Robot α) (j : Joint α) : Except (Fault α) (JointFrames α) := do
  let some parent := r.link? j.parent | throw (.unknownLink (.byId j.parent))
  let some child := r.link? j.child | throw (.unknownLink (.byId j.child))
  return JointFrames.ofRest j.type parent.rest j.rest child.rest j.axis

/-! ## 3. Well-formed robots -/

/-- Checks links one by one against those before them, given with the nearest one first. -/
def checkLinks : List (Link α) → List (Link α) → Except (Fault α) Unit
  | _, [] => pure ()
  | seen, l :: rest => do
    if maxId < l.id then throw (.robot (.linkIdTooLarge l.id))
    if seen.any (·.id == l.id) then throw (.robot (.duplicateLink l.id))
    checkLinks (l :: seen) rest

/-- Checks that a link exists at an end of a joint. -/
def checkEnd (r : Robot α) (j : Joint α) (link : Nat) : Except (Fault α) Unit :=
  if (r.link? link).isSome then pure () else throw (.unknownLink (.endOf link j.name))

/-- Checks joints one by one against those before them and against the links of the robot. -/
def checkJoints (r : Robot α) : List (Joint α) → List (Joint α) → Except (Fault α) Unit
  | _, [] => pure ()
  | seen, j :: rest => do
    if maxId < j.id then throw (.robot (.jointIdTooLarge j.id))
    if seen.any (·.id == j.id) then throw (.robot (.duplicateJoint j.id))
    if j.parent = j.child then throw (.robot (.selfJoint j.name j.parent))
    r.checkEnd j j.parent
    r.checkEnd j j.child
    checkJoints r (j :: seen) rest

/-- Checks that the robot is well-formed, links first. -/
def check (r : Robot α) : Except (Fault α) Unit := do
  checkLinks [] r.links
  r.checkJoints [] r.joints

/-- The robot with the given parts, if it is well-formed. -/
def ofParts (links : List (Link α)) (joints : List (Joint α)) : Except (Fault α) (Robot α) := do
  let r : Robot α := ⟨links, joints⟩
  r.check
  return r

/-! ## 4. Changes -/

/-- The id after the largest one of a list. -/
def nextId (ids : List Nat) : Nat := ids.foldl (fun m id => max m (id + 1)) 0

/-- Adds a link that is not fixed, and tells its id. -/
def addLink (r : Robot α) (name : String) (mass : α) (inertia : Mat3 α) (rest : Pose α) :
    Robot α × Nat :=
  let id := nextId (r.links.map (·.id))
  ({ r with links := r.links ++ [⟨id, name, mass, inertia, rest, false⟩] }, id)

/-- Adds a joint between two named links, and tells its id. The axis is divided by its length. -/
def addJoint (r : Robot α) (name : String) (type : JointType) (parent child : String)
    (rest : Pose α) (axis : Vec3 α) : Except (Fault α) (Robot α × Nat) := do
  let parentId := (← r.linkNamed parent).id
  let childId := (← r.linkNamed child).id
  if parentId = childId then throw (.robot (.newSelfJoint name))
  let id := nextId (r.joints.map (·.id))
  let joint : Joint α := ⟨id, name, type, parentId, childId, rest, axis.normalize, none⟩
  return ({ r with joints := r.joints ++ [joint] }, id)

/-- Changes the first element that passes a test. -/
def modifyFirst {β : Type} (test : β → Bool) (change : β → β) : List β → List β
  | [] => []
  | x :: xs => if test x then change x :: xs else x :: modifyFirst test change xs

/-- Fixes or frees the first link with a name. -/
def setFixed (r : Robot α) (name : String) (fixed : Bool) : Except (Fault α) (Robot α) := do
  discard <| r.linkNamed name
  return { r with links := modifyFirst (·.name == name) ({ · with fixed }) r.links }

/-- Sets the limits of the first joint with a name. -/
def setLimits (r : Robot α) (name : String) (limits : JointLimits α) :
    Except (Fault α) (Robot α) := do
  discard <| r.jointNamed name
  let limit (j : Joint α) : Joint α := { j with limits := some limits }
  return { r with joints := modifyFirst (·.name == name) limit r.joints }

/-! ## 5. Examples -/

/-- The pose shifted by whole coordinates without a turn. -/
def placed (x y z : α) : Pose α := Pose.shift ⟨x, y, z⟩

/-- A link of mass one and unit inertia. -/
def unitLink (id : Nat) (name : String) (rest : Pose α) (fixed : Bool) : Link α :=
  ⟨id, name, 1, Mat3.identity, rest, fixed⟩

/-- A joint that turns about the first axis. -/
def hinge (id : Nat) (name : String) (parent child : Nat) (rest : Pose α) : Joint α :=
  ⟨id, name, .revolute, parent, child, rest, Vec3.unitX, none⟩

/-- A fixed base `l1` and an arm `l2`. The joint `j1` passes through the centre of mass of the
arm, so gravity exerts no torque on it. -/
def twoLinkArm : Robot α :=
  let two : α := 1 + 1
  ⟨[unitLink 0 "l1" (placed 0 0 1) true, unitLink 1 "l2" (placed 0 0 two) false],
    [hinge 0 "j1" 0 1 (placed 0 0 two)]⟩

/-- Four links of length two in a square in the second and third axes, connected at the corners.
No link is fixed. -/
def fourBarLinkage : Robot α :=
  let two : α := 1 + 1
  ⟨[unitLink 0 "l1" (placed 0 1 0) false, unitLink 1 "l2" (placed 0 two 1) false,
      unitLink 2 "l3" (placed 0 1 two) false, unitLink 3 "l4" (placed 0 0 1) false],
    [hinge 0 "j1" 0 1 (placed 0 two 0), hinge 1 "j2" 1 2 (placed 0 two two),
      hinge 2 "j3" 2 3 (placed 0 0 two), hinge 3 "j4" 3 0 (placed 0 0 0)]⟩

end Robot

end Articulated
