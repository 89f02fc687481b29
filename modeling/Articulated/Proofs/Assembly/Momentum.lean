import Articulated.Proofs.Assembly.Power
import Articulated.Proofs.Spatial.Motion

/-!
# Momentum balance of a slice

Seen from the world, the wrenches of a joint on its two links cancel where the links stand as the
joint asks. So the joint wrenches of a robot cancel, and on a robot without fixed links the
inertial wrenches are the weights. Numbers are exact here, and poses are rigid motions.

The argument is that of virtual power. A twist of the world gives every link a twist, that of a
robot which moves as one rigid body (`carriedTwist`). Through a joint these twists are carried
over from parent to child without a motion of the joint, so action and reaction do no work on them.

* `Robot.jointWrenches`, `Robot.inertialWrenches`, `Robot.gravityWrenches`: the three sums in the
  world frame, read from an assignment.
* `joint_carried`: carried twists of the links of a joint.
* `joint_wrenches_cancel`, `link_wrenches`: one joint and one link.
* `Builder.momentum_balance`: the balance.
-/

namespace Articulated

/-! ## 1. Wrenches in the world -/

section Wrenches

variable {α : Type} [Scalar α]

/-- A wrench on a link, moved to the world frame. -/
def Values.worldWrench (vs : Values α) (t link : Nat) (w : SpatialVector α) :
    Except (Fault α) (SpatialVector α) := do
  return (← vs.poseOf (.pose link t)).inverse.adjoint.transpose.apply w

namespace Robot

/-- The wrenches of a joint on both its links, in the world frame. -/
def jointWorldWrench (vs : Values α) (t : Nat) (j : Joint α) :
    Except (Fault α) (SpatialVector α) := do
  let parent ← vs.worldWrench t j.parent (← vs.vectorOf (.wrench j.parent j.id t))
  let child ← vs.worldWrench t j.child (← vs.vectorOf (.wrench j.child j.id t))
  return parent + child

/-- The inertial wrench of a link with its velocity term, in the world frame. -/
def linkInertialWrench (vs : Values α) (t : Nat) (l : Link α) :
    Except (Fault α) (SpatialVector α) := do
  let twist ← vs.vectorOf (.twist l.id t)
  let accel ← vs.vectorOf (.twistAccel l.id t)
  vs.worldWrench t l.id (l.spatialInertia.apply accel -
    twist.bracket.transpose.apply (l.spatialInertia.apply twist))

/-- The wrench of gravity on a link, in the world frame. -/
def linkGravityWrench (vs : Values α) (t : Nat) (gravity : Vec3 α) (l : Link α) :
    Except (Fault α) (SpatialVector α) := do
  let pose ← vs.poseOf (.pose l.id t)
  vs.worldWrench t l.id (gravityWrench l.mass pose gravity)

/-- The sum of the wrenches of all joints on their links. -/
def jointWrenches (r : Robot α) (vs : Values α) (t : Nat) :
    Except (Fault α) (SpatialVector α) := do
  return (← r.joints.mapM (jointWorldWrench vs t)).sum

/-- The sum of the inertial wrenches of all links. -/
def inertialWrenches (r : Robot α) (vs : Values α) (t : Nat) :
    Except (Fault α) (SpatialVector α) := do
  return (← r.links.mapM (linkInertialWrench vs t)).sum

/-- The sum of the wrenches of gravity on all links. -/
def gravityWrenches (r : Robot α) (vs : Values α) (t : Nat) (gravity : Vec3 α) :
    Except (Fault α) (SpatialVector α) := do
  return (← r.links.mapM (linkGravityWrench vs t gravity)).sum

end Robot

end Wrenches

/-! ## 2. Rigid robots -/

/-- Rest poses are rigid motions, and joint axes have length one. -/
structure Robot.IsRigid (r : Robot ℝ) : Prop where
  link_rest : ∀ l ∈ r.links, l.rest.IsRigid
  joint_rest : ∀ j ∈ r.joints, j.rest.IsRigid
  axis : ∀ j ∈ r.joints, j.axis.normSq = 1

/-- The poses of the links of a robot at a time are rigid motions. -/
def Values.RigidAt (vs : Values ℝ) (r : Robot ℝ) (t : Nat) : Prop :=
  ∀ l ∈ r.links, ∀ pose, vs.poseOf (.pose l.id t) = .ok pose → pose.IsRigid

theorem Robot.IsRigid.childInParent {r : Robot ℝ} (h : r.IsRigid) {j : Joint ℝ} (hj : j ∈ r.joints)
    {frames : JointFrames ℝ} (hframes : r.frames j = .ok frames) (q : ℝ) :
    (frames.childInParent q).IsRigid := by
  unfold Robot.frames at hframes
  cases hparent : r.link? j.parent with
  | none => rw [hparent] at hframes; cases hframes
  | some parent =>
    cases hchild : r.link? j.child with
    | none => rw [hparent, hchild] at hframes; cases hframes
    | some child =>
      rw [hparent, hchild] at hframes
      obtain rfl := pure_eq_ok.1 hframes
      exact JointFrames.isRigid_childInParent (h.link_rest _ (List.mem_of_find?_eq_some hparent))
        (h.joint_rest j hj) (h.link_rest _ (List.mem_of_find?_eq_some hchild)) (h.axis j hj) q

theorem Values.RigidAt.of_mem {vs : Values ℝ} {r : Robot ℝ} {t : Nat} (h : vs.RigidAt r t) {i : Nat}
    (hi : i ∈ r.links.map (·.id)) {pose : Pose ℝ} (hpose : vs.poseOf (.pose i t) = .ok pose) :
    pose.IsRigid := by
  obtain ⟨l, hl, rfl⟩ := List.mem_map.1 hi
  exact h l hl pose hpose

/-! ## 3. One link, one joint -/

section Parts

variable {b : Builder ℝ} {r : Robot ℝ} {t : Nat} {gravity : Vec3 ℝ} {planar : Option (Vec3 ℝ)}
  {poses dynamics : FactorGraph ℝ} {vs : Values ℝ}

/-- The twist of a link that moves with the world. -/
noncomputable def carriedTwist (vs : Values ℝ) (t : Nat) (u : SpatialVector ℝ) (link : Nat) :
    SpatialVector ℝ :=
  (answerOr .identity (vs.poseOf (.pose link t))).inverse.adjoint.apply u

/-- In the world a wrench has the power that it has on the link with the twist of the link. -/
theorem worldWrench_eq_ok {link : Nat} {pose : Pose ℝ}
    (hpose : vs.poseOf (.pose link t) = .ok pose) (w : SpatialVector ℝ) :
    ∃ world, vs.worldWrench t link w = .ok world ∧
      ∀ u : SpatialVector ℝ, u.dot world = (carriedTwist vs t u link).dot w := by
  refine ⟨_, map_eq_ok.2 ⟨pose, hpose, rfl⟩, fun u => ?_⟩
  rw [SpatialVector.dot_transpose_apply, carriedTwist, hpose, answerOr]

section Joints

variable [Runtime ℝ] (hvalid : r.Valid) (hrigid : r.IsRigid) (hvs : vs.RigidAt r t)
  (hposes : b.poseFactors r t = .ok poses) (hposes_zero : ∀ f ∈ poses.factors, f.Vanishes vs)

include hvalid hrigid hvs hposes hposes_zero

/-- **Through a joint, the twist of the parent that moves with the world is carried over to that of
the child.** -/
theorem joint_carried {j : Joint ℝ} (hj : j ∈ r.joints) :
    ∃ frames angle, r.frames j = .ok frames ∧ vs.scalarOf (.jointAngle j.id t) = .ok angle ∧
      (∃ pose, vs.poseOf (.pose j.parent t) = .ok pose) ∧
      (∃ pose, vs.poseOf (.pose j.child t) = .ok pose) ∧
      ∀ u, (frames.parentInChild angle).adjoint.apply (carriedTwist vs t u j.parent) =
        carriedTwist vs t u j.child := by
  obtain ⟨frames, parent, child, angle, hframes, hparent, hchild, hangle, hlocal⟩ :=
    ((Builder.poseFactors_vanish_iff hposes).1 hposes_zero).joint j hj
  have hmotion := hrigid.childInParent hj hframes angle
  have hparent_rigid := hvs.of_mem (hvalid.parent_mem j hj) hparent
  have hchild_rigid := hvs.of_mem (hvalid.child_mem j hj) hchild
  refine ⟨frames, angle, hframes, hangle, ⟨parent, hparent⟩, ⟨child, hchild⟩, fun u => ?_⟩
  rw [carriedTwist, carriedTwist, hparent, hchild, answerOr, answerOr]
  let inChild := (frames.parentInChild angle).adjoint.apply (parent.inverse.adjoint.apply u)
  have hback : (parent * frames.childInParent angle).adjoint.apply inChild = u := by
    rw [Pose.adjoint_mul_apply hparent_rigid]
    show parent.adjoint.apply ((frames.childInParent angle).adjoint.apply
      ((frames.childInParent angle).inverse.adjoint.apply (parent.inverse.adjoint.apply u))) = u
    rw [Pose.adjoint_apply_inverse hmotion, Pose.adjoint_apply_inverse hparent_rigid]
  calc inChild
      = child.inverse.adjoint.apply
          ((parent * frames.childInParent angle).adjoint.apply inChild) :=
        (Pose.adjoint_apply_of_localTo hchild_rigid (hparent_rigid.mul hmotion) hlocal inChild).symm
    _ = child.inverse.adjoint.apply u := by rw [hback]

/-- The wrenches of a joint do no work on the twists of its links that move with the world. -/
theorem joint_wrenches_cancel (hdynamics : b.dynamicsFactors r t gravity planar = .ok dynamics)
    (hreaction : ∀ f ∈ dynamics.factors, f.name = "wrench_equivalence" → f.Vanishes vs)
    {j : Joint ℝ} (hj : j ∈ r.joints) :
    Robot.jointWorldWrench vs t j = .ok 0 ∧ ∀ u,
      (carriedTwist vs t u j.parent).dot (wrenchAt vs t j.parent j.id) +
        (carriedTwist vs t u j.child).dot (wrenchAt vs t j.child j.id) = 0 := by
  obtain ⟨frames, angle, hframes, hangle, ⟨parent, hparent⟩, ⟨child, hchild⟩, hcarried⟩ :=
    joint_carried hvalid hrigid hvs hposes hposes_zero hj
  obtain ⟨frames', parentWrench, childWrench, angle', hframes', hparentWrench, hchildWrench,
    hangle', hwrench⟩ := joint_reaction hdynamics hreaction hj
  obtain rfl : frames = frames' := answer_unique hframes hframes'
  obtain rfl : angle = angle' := answer_unique hangle hangle'
  have hpower : ∀ u, (carriedTwist vs t u j.parent).dot parentWrench +
      (carriedTwist vs t u j.child).dot childWrench = 0 := by
    intro u
    rw [← hcarried u]
    exact reaction_power hwrench _
  rw [wrenchAt_eq hparentWrench, wrenchAt_eq hchildWrench]
  obtain ⟨parentWorld, hparentWorld, hparentDot⟩ := worldWrench_eq_ok hparent parentWrench
  obtain ⟨childWorld, hchildWorld, hchildDot⟩ := worldWrench_eq_ok hchild childWrench
  have hsum : parentWorld + childWorld = 0 := by
    refine SpatialVector.eq_of_dot_eq fun u => ?_
    rw [SpatialVector.dot_add, hparentDot, hchildDot, hpower, SpatialVector.dot_zero]
  refine ⟨bind_eq_ok.2 ⟨parentWrench, hparentWrench, bind_eq_ok.2 ⟨parentWorld, hparentWorld, ?_⟩⟩,
    hpower⟩
  exact bind_eq_ok.2 ⟨childWrench, hchildWrench, map_eq_ok.2 ⟨childWorld, hchildWorld, hsum⟩⟩

end Joints

/-- The power of the inertial wrench of a moving link, with the twist of the link that moves with
the world. -/
theorem link_wrenches [Runtime ℝ] (h : b.dynamicsFactors r t gravity planar = .ok dynamics)
    (hzero : ∀ f ∈ dynamics.factors, f.name = "wrench" → f.Vanishes vs) {l : Link ℝ}
    (hl : l ∈ r.movingLinks) :
    ∃ inertial weight, Robot.linkInertialWrench vs t l = .ok inertial ∧
      Robot.linkGravityWrench vs t gravity l = .ok weight ∧
      ∀ u : SpatialVector ℝ, u.dot inertial = u.dot weight + ((r.jointsAt l.id).map fun j =>
        (carriedTwist vs t u l.id).dot (wrenchAt vs t l.id j.id)).sum := by
  obtain ⟨pose, twist, accel, hpose, htwist, haccel, hpower⟩ := link_balance h hzero hl
  obtain ⟨inertial, hinertial, hinertialDot⟩ := worldWrench_eq_ok hpose
    (l.spatialInertia.apply accel - twist.bracket.transpose.apply (l.spatialInertia.apply twist))
  obtain ⟨weight, hweight, hweightDot⟩ := worldWrench_eq_ok hpose
    (gravityWrench l.mass pose gravity)
  refine ⟨inertial, weight,
    bind_eq_ok.2 ⟨twist, htwist, bind_eq_ok.2 ⟨accel, haccel, hinertial⟩⟩,
    bind_eq_ok.2 ⟨pose, hpose, hweight⟩, fun u => ?_⟩
  rw [hinertialDot, hweightDot, hpower]

end Parts

namespace Builder

/-! ## 4. An arm that floats -/

section FloatingArm

/-- The arm of `Robot.twoLinkArm` on a base that is not fixed. -/
noncomputable def floatingArm : Robot ℝ :=
  ⟨[Robot.unitLink 0 "l1" (Robot.placed 0 0 1) false,
      Robot.unitLink 1 "l2" (Robot.placed 0 0 (1 + 1)) false],
    [Robot.hinge 0 "j1" 0 1 (Robot.placed 0 0 (1 + 1))]⟩

theorem floatingArm_isRigid : floatingArm.IsRigid where
  link_rest := List.forall_mem_cons.2
    ⟨Pose.isRigid_shift _, List.forall_mem_singleton.2 (Pose.isRigid_shift _)⟩
  joint_rest := List.forall_mem_singleton.2 (Pose.isRigid_shift _)
  axis := List.forall_mem_singleton.2 (by
    simp [Robot.hinge, Vec3.unitX, Vec3.normSq, Vec3.dot])

/-- The base of the arm stands at its rest pose. -/
noncomputable def floatingBase : Pose ℝ := Robot.placed 0 0 1

/-- The arm is turned by one about its joint. -/
noncomputable def floatingPose : Pose ℝ := floatingBase * armFrames.childInParent 1

/-- The joint pulls the arm and turns it. -/
noncomputable def floatingWrench : SpatialVector ℝ := ⟨Vec3.unitY, Vec3.unitZ⟩

/-- The reaction on the base. -/
noncomputable def floatingReaction : SpatialVector ℝ :=
  0 - (armFrames.parentInChild 1).adjoint.transpose.apply floatingWrench

/-- The acceleration of a link of unit inertia by weight, its twist and a wrench. -/
noncomputable def floatingAccel (pose : Pose ℝ) (gravity : Vec3 ℝ)
    (twist wrench : SpatialVector ℝ) : SpatialVector ℝ :=
  gravityWrench 1 pose gravity + twist.bracket.transpose.apply (armInertia.apply twist) + wrench

/-- Values of the arm while the arm turns about its joint at rate one. -/
noncomputable def floatingValues (gravity : Vec3 ℝ) : Values ℝ :=
  [(slot (.pose 0 0), .pose floatingBase), (slot (.pose 1 0), .pose floatingPose),
    (slot (.jointAngle 0 0), .scalar 1), (slot (.twist 0 0), .vector 0),
    (slot (.twist 1 0), .vector armFrames.screwChild),
    (slot (.twistAccel 0 0),
      .vector (floatingAccel floatingBase gravity 0 floatingReaction)),
    (slot (.twistAccel 1 0),
      .vector (floatingAccel floatingPose gravity armFrames.screwChild floatingWrench)),
    (slot (.wrench 0 0 0), .vector floatingReaction),
    (slot (.wrench 1 0 0), .vector floatingWrench)].foldl (fun vs e => vs.insert e.1 e.2) .empty

theorem get?_floatingValues (gravity : Vec3 ℝ) :
    (floatingValues gravity).get? (slot (.pose 0 0)) = some (.pose floatingBase) ∧
    (floatingValues gravity).get? (slot (.pose 1 0)) = some (.pose floatingPose) ∧
    (floatingValues gravity).get? (slot (.jointAngle 0 0)) = some (.scalar 1) ∧
    (floatingValues gravity).get? (slot (.twist 0 0)) = some (.vector 0) ∧
    (floatingValues gravity).get? (slot (.twist 1 0)) = some (.vector armFrames.screwChild) ∧
    (floatingValues gravity).get? (slot (.twistAccel 0 0)) =
      some (.vector (floatingAccel floatingBase gravity 0 floatingReaction)) ∧
    (floatingValues gravity).get? (slot (.twistAccel 1 0)) =
      some (.vector (floatingAccel floatingPose gravity armFrames.screwChild floatingWrench)) ∧
    (floatingValues gravity).get? (slot (.wrench 0 0 0)) = some (.vector floatingReaction) ∧
    (floatingValues gravity).get? (slot (.wrench 1 0 0)) = some (.vector floatingWrench) := by
  simp +decide only [floatingValues, List.foldl_cons, List.foldl_nil, Values.get?_insert, if_true,
    if_false, and_true]

theorem floatingPose_isRigid : floatingPose.IsRigid :=
  (Pose.isRigid_shift _).mul
    (floatingArm_isRigid.childInParent (List.mem_singleton.2 rfl) (by rfl) 1)

theorem floatingValues_rigidAt (gravity : Vec3 ℝ) :
    (floatingValues gravity).RigidAt floatingArm 0 := by
  obtain ⟨hbase, harm, -⟩ := get?_floatingValues gravity
  refine List.forall_mem_cons.2 ⟨fun pose hpose => ?_, List.forall_mem_singleton.2 fun pose hpose =>
    ?_⟩
  · obtain rfl := answer_unique hpose (bind_eq_ok.2 ⟨_, rfl, Values.pose_eq_ok hbase⟩)
    exact Pose.isRigid_shift _
  · obtain rfl := answer_unique hpose (bind_eq_ok.2 ⟨_, rfl, Values.pose_eq_ok harm⟩)
    exact floatingPose_isRigid

noncomputable def floatingPoses : FactorGraph ℝ :=
  ⟨[.isotropic (.jointPose (slot (.pose 0 0)) (slot (.pose 1 0)) (slot (.jointAngle 0 0))
      armFrames) 6 ((ofSettings .default).sigma .pose)]⟩

noncomputable def floatingDynamics (gravity : Vec3 ℝ) : FactorGraph ℝ :=
  ⟨[.isotropic (.wrenchBalance (slot (.pose 0 0)) (slot (.twist 0 0)) (slot (.twistAccel 0 0))
      [slot (.wrench 0 0 0)] 1 armInertia gravity) 6 ((ofSettings .default).sigma .wrench),
    .isotropic (.wrenchBalance (slot (.pose 1 0)) (slot (.twist 1 0)) (slot (.twistAccel 1 0))
      [slot (.wrench 1 0 0)] 1 armInertia gravity) 6 ((ofSettings .default).sigma .wrench),
    .isotropic (.wrenchEquivalence (slot (.wrench 0 0 0)) (slot (.wrench 1 0 0))
      (slot (.jointAngle 0 0)) armFrames) 6 ((ofSettings .default).sigma .wrenchEquivalence),
    .isotropic (.torque (slot (.wrench 1 0 0)) (slot (.torque 0 0)) armFrames.screwChild) 1
      ((ofSettings .default).sigma .torque)]⟩

theorem floating_poseFactors :
    (ofSettings .default).poseFactors floatingArm 0 = .ok floatingPoses := rfl

theorem floating_dynamicsFactors (gravity : Vec3 ℝ) :
    (ofSettings .default).dynamicsFactors floatingArm 0 gravity none =
      .ok (floatingDynamics gravity) := rfl

theorem floatingPoses_vanish (gravity : Vec3 ℝ) :
    ∀ f ∈ floatingPoses.factors, f.Vanishes (floatingValues gravity) := by
  obtain ⟨hbase, harm, hangle, -⟩ := get?_floatingValues gravity
  refine List.forall_mem_singleton.2
    ⟨_, ?_, SpatialVector.toList_eq_zero_iff.2 (Pose.localTo_self floatingPose_isRigid)⟩
  exact bind_eq_ok.2 ⟨floatingBase, Values.pose_eq_ok hbase, bind_eq_ok.2 ⟨floatingPose,
    Values.pose_eq_ok harm, map_eq_ok.2 ⟨1, Values.scalar_eq_ok hangle, rfl⟩⟩⟩

theorem armInertia_apply (a : SpatialVector ℝ) : armInertia.apply a = a := by
  simp only [armInertia, SpatialMatrix.ofInertia, SpatialMatrix.apply, Mat3.zero_apply,
    Mat3.identity_apply]
  refine SpatialVector.ext (Vec3.ext (add_zero _) (add_zero _) (add_zero _)) ?_
  simp only [Mat3.smul_def, Mat3.identity, Mat3.apply, Vec3.unitX, Vec3.unitY, Vec3.unitZ,
    Vec3.dot, Vec3.smul_def, Vec3.add_def, Vec3.zero_def]
  refine Vec3.ext ?_ ?_ ?_ <;> ring

/-- With the acceleration `floatingAccel` the balance of a link vanishes. -/
theorem floating_balance {vs : Values ℝ} {kp kv ka kw : Key} {pose : Pose ℝ} {gravity : Vec3 ℝ}
    {twist wrench : SpatialVector ℝ} {noise : Noise ℝ} (hpose : vs.get? kp = some (.pose pose))
    (htwist : vs.get? kv = some (.vector twist))
    (haccel : vs.get? ka = some (.vector (floatingAccel pose gravity twist wrench)))
    (hwrench : vs.get? kw = some (.vector wrench)) :
    Factor.Vanishes ⟨.wrenchBalance kp kv ka [kw] 1 armInertia gravity, noise⟩ vs := by
  have hbalance : gravityWrench 1 pose gravity -
      armInertia.apply (floatingAccel pose gravity twist wrench) +
        (twist.bracket.transpose * armInertia).apply twist + wrench = 0 := by
    refine SpatialVector.eq_of_dot_eq fun u => ?_
    rw [SpatialMatrix.apply_mul, armInertia_apply (floatingAccel _ _ _ _), floatingAccel,
      SpatialVector.dot_add, SpatialVector.dot_add, SpatialVector.dot_sub, SpatialVector.dot_add,
      SpatialVector.dot_add, SpatialVector.dot_zero]
    ring
  refine ⟨_, ?_, SpatialVector.toList_eq_zero_iff.2 hbalance⟩
  have htotal : Relation.addWrenches vs [kw] (gravityWrench 1 pose gravity -
      armInertia.apply (floatingAccel pose gravity twist wrench) +
        (twist.bracket.transpose * armInertia).apply twist) = .ok _ :=
    bind_eq_ok.2 ⟨wrench, Values.vector6_eq_ok hwrench, rfl⟩
  exact bind_eq_ok.2 ⟨pose, Values.pose_eq_ok hpose, bind_eq_ok.2 ⟨twist,
    Values.vector6_eq_ok htwist, bind_eq_ok.2 ⟨_, Values.vector6_eq_ok haccel,
      map_eq_ok.2 ⟨_, htotal, rfl⟩⟩⟩⟩

theorem floatingDynamics_vanish (gravity : Vec3 ℝ) :
    (∀ f ∈ (floatingDynamics gravity).factors, f.name = "wrench_equivalence" →
      f.Vanishes (floatingValues gravity)) ∧
    ∀ f ∈ (floatingDynamics gravity).factors, f.name = "wrench" →
      f.Vanishes (floatingValues gravity) := by
  obtain ⟨hbase, harm, hangle, hbaseTwist, harmTwist, hbaseAccel, harmAccel, hreaction, hwrench⟩ :=
    get?_floatingValues gravity
  have hother : "wrench" ≠ "wrench_equivalence" := by decide
  simp only [floatingDynamics, List.forall_mem_cons]
  refine ⟨⟨fun h => ?_, fun h => ?_, fun _ => ?_, fun h => ?_, nofun⟩,
    fun _ => ?_, fun _ => ?_, fun h => ?_, fun h => ?_, nofun⟩
  · exact absurd h hother
  · exact absurd h hother
  · have hzero : floatingReaction +
        (armFrames.parentInChild 1).adjoint.transpose.apply floatingWrench = 0 :=
      SpatialVector.zero_sub_add _
    refine ⟨_, ?_, SpatialVector.toList_eq_zero_iff.2 hzero⟩
    exact bind_eq_ok.2 ⟨_, Values.vector6_eq_ok hreaction, bind_eq_ok.2 ⟨_,
      Values.vector6_eq_ok hwrench, map_eq_ok.2 ⟨1, Values.scalar_eq_ok hangle, rfl⟩⟩⟩
  · exact absurd h (by decide)
  · exact floating_balance hbase hbaseTwist hbaseAccel hreaction
  · exact floating_balance harm harmTwist harmAccel hwrench
  · exact absurd h hother.symm
  · exact absurd h (by decide)

end FloatingArm

/-! ## 5. The balance -/

/-- **At vanishing pose factors, the wrenches of the joints cancel in the world. If no link is fixed
and the balances of the links vanish too, the inertial wrenches are the weights.** -/
theorem momentum_balance [Runtime ℝ] {b : Builder ℝ} {r : Robot ℝ} {t : Nat} {gravity : Vec3 ℝ}
    {planar : Option (Vec3 ℝ)} {poses dynamics : FactorGraph ℝ} {vs : Values ℝ}
    (hcheck : r.check = .ok ()) (hrigid : r.IsRigid) (hvs : vs.RigidAt r t)
    (hposes : b.poseFactors r t = .ok poses)
    (hdynamics : b.dynamicsFactors r t gravity planar = .ok dynamics)
    (hposes_zero : ∀ f ∈ poses.factors, f.Vanishes vs)
    (hreaction : ∀ f ∈ dynamics.factors, f.name = "wrench_equivalence" → f.Vanishes vs) :
    r.jointWrenches vs t = .ok 0 ∧
      (r.fixedLinks = [] → (∀ f ∈ dynamics.factors, f.name = "wrench" → f.Vanishes vs) →
        ∃ total, r.inertialWrenches vs t = .ok total ∧
          r.gravityWrenches vs t gravity = .ok total) := by
  have hvalid := Robot.check_eq_ok_iff.1 hcheck
  have hjoint := fun j (hj : j ∈ r.joints) =>
    joint_wrenches_cancel hvalid hrigid hvs hposes hposes_zero hdynamics hreaction hj
  constructor
  · refine map_eq_ok.2 ⟨_, mapM_eq_map fun j hj => (hjoint j hj).1, ?_⟩
    refine SpatialVector.eq_of_dot_eq fun u => ?_
    rw [SpatialVector.dot_sum, List.map_map, SpatialVector.dot_zero]
    refine List.sum_eq_zero fun x hx => ?_
    obtain ⟨j, -, rfl⟩ := List.mem_map.1 hx
    exact SpatialVector.dot_zero u
  intro hfixed hbalance
  have hmoving : r.movingLinks = r.links := by
    refine List.filter_eq_self.2 fun l hl => ?_
    have hnot := List.filter_eq_nil_iff.1 hfixed l hl
    simpa using hnot
  have hlink := fun l (hl : l ∈ r.links) => link_wrenches hdynamics hbalance (hmoving ▸ hl)
  have hinertial := mapM_answerOr (f := Robot.linkInertialWrench vs t) 0 fun l hl =>
    let ⟨inertial, _, h, _⟩ := hlink l hl
    ⟨inertial, h⟩
  have hweight := mapM_answerOr (f := Robot.linkGravityWrench vs t gravity) 0 fun l hl =>
    let ⟨_, weight, _, h, _⟩ := hlink l hl
    ⟨weight, h⟩
  refine ⟨_, map_eq_ok.2 ⟨_, hinertial, rfl⟩, map_eq_ok.2 ⟨_, hweight, ?_⟩⟩
  refine SpatialVector.eq_of_dot_eq fun u => ?_
  let power : Nat → Joint ℝ → ℝ := fun i j => (carriedTwist vs t u i).dot (wrenchAt vs t i j.id)
  have hjoints : (r.links.map fun l => ((r.jointsAt l.id).map (power l.id)).sum).sum = 0 := by
    refine (sum_ends power hvalid.links_nodup fun j hj => ⟨hvalid.ends_ne j hj,
      hvalid.parent_mem j hj, hvalid.child_mem j hj⟩).trans (List.sum_eq_zero fun x hx => ?_)
    obtain ⟨j, hj, rfl⟩ := List.mem_map.1 hx
    exact (hjoint j hj).2 u
  rw [SpatialVector.dot_sum, SpatialVector.dot_sum, List.map_map, List.map_map]
  calc (r.links.map fun l => u.dot (answerOr 0 (Robot.linkGravityWrench vs t gravity l))).sum
      = (r.links.map fun l => u.dot (answerOr 0 (Robot.linkGravityWrench vs t gravity l))).sum +
          (r.links.map fun l => ((r.jointsAt l.id).map (power l.id)).sum).sum := by
        rw [hjoints, add_zero]
    _ = (r.links.map fun l => u.dot (answerOr 0 (Robot.linkGravityWrench vs t gravity l)) +
          ((r.jointsAt l.id).map (power l.id)).sum).sum := List.sum_map_add.symm
    _ = (r.links.map fun l => u.dot (answerOr 0 (Robot.linkInertialWrench vs t l))).sum := by
        refine congrArg List.sum (List.map_congr_left fun l hl => ?_)
        obtain ⟨inertial, weight, hi, hw, hdot⟩ := hlink l hl
        rw [hi, hw, answerOr, answerOr, hdot]

theorem momentum_balance_floating :
    floatingArm.check = .ok () ∧ floatingArm.IsRigid ∧
    (floatingValues ⟨0, 0, -1⟩).RigidAt floatingArm 0 ∧
    (ofSettings .default).poseFactors floatingArm 0 = .ok floatingPoses ∧
    (ofSettings .default).dynamicsFactors floatingArm 0 ⟨0, 0, -1⟩ none =
      .ok (floatingDynamics ⟨0, 0, -1⟩) ∧
    (∀ f ∈ floatingPoses.factors, f.Vanishes (floatingValues ⟨0, 0, -1⟩)) ∧
    (∀ f ∈ (floatingDynamics ⟨0, 0, -1⟩).factors, f.name = "wrench_equivalence" →
      f.Vanishes (floatingValues ⟨0, 0, -1⟩)) ∧
    (∀ f ∈ (floatingDynamics ⟨0, 0, -1⟩).factors, f.name = "wrench" →
      f.Vanishes (floatingValues ⟨0, 0, -1⟩)) ∧
    floatingArm.fixedLinks = [] ∧
    floatingArm.jointWrenches (floatingValues ⟨0, 0, -1⟩) 0 = .ok 0 ∧
    ∃ total, floatingArm.inertialWrenches (floatingValues ⟨0, 0, -1⟩) 0 = .ok total ∧
      floatingArm.gravityWrenches (floatingValues ⟨0, 0, -1⟩) 0 ⟨0, 0, -1⟩ = .ok total := by
  obtain ⟨hreaction, hwrench⟩ := floatingDynamics_vanish ⟨0, 0, -1⟩
  have hbalance := momentum_balance rfl floatingArm_isRigid (floatingValues_rigidAt ⟨0, 0, -1⟩)
    floating_poseFactors (floating_dynamicsFactors _) (floatingPoses_vanish _) hreaction
  exact ⟨rfl, floatingArm_isRigid, floatingValues_rigidAt _, floating_poseFactors,
    floating_dynamicsFactors _, floatingPoses_vanish _, hreaction, hwrench, rfl, hbalance.1,
    hbalance.2 rfl hwrench⟩

end Builder

end Articulated
