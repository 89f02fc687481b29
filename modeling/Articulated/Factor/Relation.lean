import Articulated.Factor.Collocation
import Articulated.Spatial.Screw
import Articulated.Values

/-!
# Relations between variables

A relation reads some variables and answers a residual, which vanishes when the relation holds.
The relations are

* the given value of a variable, and the given pose between two poses;
* the kinematics of a joint for poses, twists and accelerations of its links;
* the balance of the wrenches on a link, action and reaction through a joint, the actuation of a
  joint, and planarity of a joint wrench;
* the limits of a joint quantity, and the integration of a quantity over a step;
* any other one, given by its name, its variables and its residual (`Relation.custom`).

`Relation.keys` are the variables of a relation in order, `Relation.residual` evaluates it, and
`Relation.exactBlocks?` are the Jacobian blocks of those relations whose derivatives are known in
closed form.
-/

namespace Articulated

variable {α : Type} [Scalar α]

/-! ## 1. Relations -/

/-- A block of a Jacobian: for every tangent coordinate of one variable, the column of the
derivatives of the residual rows. -/
abbrev Block (α : Type) := List (List α)

/-- A relation that is given from outside. -/
structure CustomRelation (α : Type) where
  name : String
  keys : List Key
  residual : Values α → Except (Fault α) (List α)
  /-- The Jacobian blocks, where they are known. -/
  blocks? : Option (Values α → Except (Fault α) (List (Block α)))

/-- A relation between variables. -/
inductive Relation (α : Type) where
  /-- The variable has the given value. -/
  | prior (key : Key) (value : Value α)
  /-- The second pose is the first one moved by the given pose. -/
  | between (key₁ key₂ : Key) (measured : Pose α)
  /-- The child pose is the parent pose moved through the joint. -/
  | jointPose (parent child angle : Key) (frames : JointFrames α)
  /-- The child twist is the parent twist carried over, plus the motion of the joint. -/
  | jointTwist (parent child angle velocity : Key) (frames : JointFrames α)
  /-- The child acceleration is the parent acceleration carried over, plus the rates of the
  motion of the joint. -/
  | jointTwistAccel (childTwist parent child angle velocity acceleration : Key)
      (frames : JointFrames α)
  /-- Joint wrenches, weight and inertial wrench on a link are in balance. -/
  | wrenchBalance (pose twist accel : Key) (wrenches : List Key) (mass : α)
      (inertia : SpatialMatrix α) (gravity : Vec3 α)
  /-- The wrenches of a joint on its links are action and reaction. -/
  | wrenchEquivalence (parent child angle : Key) (frames : JointFrames α)
  /-- The actuation is the part of the child wrench along the joint screw. -/
  | torque (wrench torque : Key) (screw : SpatialVector α)
  /-- The selected components of the wrench vanish. -/
  | wrenchPlanar (wrench : Key) (rows : List (SpatialVector α))
  /-- The variable lies between its bounds. -/
  | jointLimit (key : Key) (lower upper : α)
  /-- The second variable is the first one integrated over the step. -/
  | collocation (x₀ x₁ r₀ r₁ : Key) (step : TimeStep α) (scheme : CollocationScheme)
  /-- A relation given from outside. -/
  | custom (relation : CustomRelation α)

namespace Relation

/-! ## 2. Variables -/

/-- The variable of a step. -/
def stepKeys : TimeStep α → List Key
  | .fixed _ => []
  | .phase k => [k]

/-- The variables that the relation reads, in the order of its Jacobian blocks. -/
def keys : Relation α → List Key
  | prior k _ => [k]
  | between k₁ k₂ _ => [k₁, k₂]
  | jointPose p c q _ => [p, c, q]
  | jointTwist p c q v _ => [p, c, q, v]
  | jointTwistAccel t p c q v a _ => [t, p, c, q, v, a]
  | wrenchBalance p v a ws _ _ _ => p :: v :: a :: ws
  | wrenchEquivalence p c q _ => [p, c, q]
  | torque w t _ => [w, t]
  | wrenchPlanar w _ => [w]
  | jointLimit k _ _ => [k]
  | collocation x₀ x₁ r₀ r₁ step scheme =>
    x₀ :: x₁ :: r₀ :: ((if scheme.readsEndRate then [r₁] else []) ++ stepKeys step)
  | custom r => r.keys

/-- The name of the kind of relation. -/
def name : Relation α → String
  | prior .. => "prior"
  | between .. => "between"
  | jointPose .. => "pose"
  | jointTwist .. => "twist"
  | jointTwistAccel .. => "twist_accel"
  | wrenchBalance .. => "wrench"
  | wrenchEquivalence .. => "wrench_equivalence"
  | torque .. => "torque"
  | wrenchPlanar .. => "wrench_planar"
  | jointLimit .. => "joint_limit"
  | collocation _ _ _ _ (.fixed _) .euler => "euler_collocation"
  | collocation _ _ _ _ (.phase _) .euler => "euler_phase_collocation"
  | collocation _ _ _ _ (.fixed _) .trapezoidal => "trapezoidal_collocation"
  | collocation _ _ _ _ (.phase _) .trapezoidal => "trapezoidal_phase_collocation"
  | custom r => r.name

/-! ## 3. Residuals -/

/-- The sum of the given wrenches, added one by one to a start. -/
def addWrenches (vs : Values α) : List Key → SpatialVector α → Except (Fault α) (SpatialVector α)
  | [], sum => pure sum
  | k :: ks, sum => do addWrenches vs ks (sum + (← vs.vector6 k))

/-- What a collocation reads: both values, both rates and the length of the step. A rate that the
scheme does not use is zero. -/
def readStep (vs : Values α) (x₀ x₁ r₀ r₁ : Key) (step : TimeStep α) (scheme : CollocationScheme) :
    Except (Fault α) (α × α × α × α × α) := do
  let a₀ ← vs.scalar x₀
  let a₁ ← vs.scalar x₁
  let b₀ ← vs.scalar r₀
  let b₁ ← if scheme.readsEndRate then vs.scalar r₁ else pure 0
  let dt ←
    match step with
    | .fixed dt => pure dt
    | .phase k => vs.scalar k
  return (a₀, a₁, b₀, b₁, dt)

/-- The distance to the bound that is passed, zero between the bounds. -/
def excess (x lower upper : α) : α :=
  if x < lower then x - lower else if upper < x then x - upper else 0

/-- The residual of the relation. -/
def residual (r : Relation α) (vs : Values α) : Except (Fault α) (List α) :=
  match r with
  | prior k value => do
    let v ← vs.lookup k
    match value.local? v with
    | some δ => pure δ
    | none => throw (.kindMismatch k value.kind v.kind)
  | between k₁ k₂ measured => do
    let x₁ ← vs.pose k₁
    let x₂ ← vs.pose k₂
    return (measured.localTo (x₁.inverse * x₂)).toList
  | jointPose parent child angle frames => do
    let p ← vs.pose parent
    let c ← vs.pose child
    let q ← vs.scalar angle
    return (c.localTo (p * frames.childInParent q)).toList
  | jointTwist parent child angle velocity frames => do
    let p ← vs.vector6 parent
    let c ← vs.vector6 child
    let q ← vs.scalar angle
    let v ← vs.scalar velocity
    let ad := (frames.parentInChild q).adjoint
    return (ad.apply p + v • frames.screwChild - c).toList
  | jointTwistAccel childTwist parent child angle velocity acceleration frames => do
    let t ← vs.vector6 childTwist
    let p ← vs.vector6 parent
    let c ← vs.vector6 child
    let q ← vs.scalar angle
    let v ← vs.scalar velocity
    let a ← vs.scalar acceleration
    let ad := (frames.parentInChild q).adjoint
    let screw := frames.screwChild
    return (ad.apply p + v • t.bracket.apply screw + a • screw - c).toList
  | wrenchBalance pose twist accel wrenches mass inertia gravity => do
    let p ← vs.pose pose
    let v ← vs.vector6 twist
    let a ← vs.vector6 accel
    let free := gravityWrench mass p gravity - inertia.apply a
      + (v.bracket.transpose * inertia).apply v
    return (← addWrenches vs wrenches free).toList
  | wrenchEquivalence parent child angle frames => do
    let p ← vs.vector6 parent
    let c ← vs.vector6 child
    let q ← vs.scalar angle
    let ad := (frames.parentInChild q).adjoint
    return (p + ad.transpose.apply c).toList
  | torque wrench actuation screw => do
    let w ← vs.vector6 wrench
    let t ← vs.scalar actuation
    return [screw.dot w - t]
  | wrenchPlanar wrench rows => do
    let w ← vs.vector6 wrench
    return rows.map (·.dot w)
  | jointLimit k lower upper => do
    let x ← vs.scalar k
    return [excess x lower upper]
  | collocation x₀ x₁ r₀ r₁ step scheme => do
    let (a₀, a₁, b₀, b₁, dt) ← readStep vs x₀ x₁ r₀ r₁ step scheme
    return [scheme.residual a₀ a₁ b₀ b₁ dt]
  | custom r => r.residual vs

/-! ## 4. Exact Jacobians -/

/-- The identity block on the tangent space of a value. -/
def identityBlock (dim : Nat) : Block α := (List.range dim).map fun i => Scalar.axis dim i 1

/-- The block of a scalar residual and a scalar variable. -/
def scalarBlock (x : α) : Block α := [[x]]

/-- The slope of the distance to the bound that is passed. -/
def excessSlope (x lower upper : α) : α := if x < lower ∨ upper < x then 1 else 0

/-- The block of the duration of a step, for a step that has one. -/
def stepBlocks (r₀ r₁ : α) (scheme : CollocationScheme) : TimeStep α → List (Block α)
  | .fixed _ => []
  | .phase _ =>
    match scheme with
    | .euler => [scalarBlock (-r₀)]
    | .trapezoidal => [scalarBlock (-Scalar.half * (r₀ + r₁))]

/-- The Jacobian blocks of a relation whose derivatives are known in closed form, one block per
variable and one column per tangent coordinate. -/
def exactBlocks? : Relation α → Option (Values α → Except (Fault α) (List (Block α)))
  | prior _ (.scalar _) => some fun _ => pure [identityBlock 1]
  | prior _ (.vector _) => some fun _ => pure [identityBlock 6]
  | torque _ _ screw => some fun _ => pure [screw.toList.map fun s => [s], scalarBlock (-1)]
  | wrenchPlanar _ rows => some fun _ =>
    pure [(List.range 6).map fun i => rows.map fun r => r.toList.getD i 0]
  | jointLimit k lower upper => some fun vs => do
    let x ← vs.scalar k
    return [scalarBlock (excessSlope x lower upper)]
  | collocation x₀ x₁ r₀ r₁ step scheme => some fun vs => do
    let (_, _, b₀, b₁, dt) ← readStep vs x₀ x₁ r₀ r₁ step scheme
    let rates :=
      match scheme with
      | .euler => [scalarBlock (-dt)]
      | .trapezoidal => [scalarBlock (-Scalar.half * dt), scalarBlock (-Scalar.half * dt)]
    return scalarBlock (-1) :: scalarBlock 1 :: (rates ++ stepBlocks b₀ b₁ scheme step)
  | custom r => r.blocks?
  | _ => none

end Relation

end Articulated
