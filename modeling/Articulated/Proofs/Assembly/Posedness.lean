import Articulated.Proofs.Assembly.Layout
import Articulated.Proofs.Assembly.Momentum
import Articulated.Proofs.Assembly.Quantities
import Articulated.Proofs.Robot.Forest
import Articulated.Proofs.Spatial.Action

/-!
# Kinematics on forests

On a robot whose links and joints form a forest with one fixed link in each tree, the kinematic
factors of a time determine how the links move: for all angles, velocities and accelerations of the
joints there are poses, twists and accelerations of the links at which all factors vanish, and
there are no others. Numbers are exact here, and poses are rigid motions, equal if they move all
points alike.

What a joint says can be solved for the child and for the parent, as its motion has a way back, and
so has the adjoint map. Accelerations come last, because they depend on the twists.

* `exists_poses`, `exists_vectors`: poses of the links, and twists or accelerations with any drive
  of the joints.
* `LinkMotion.Fits`, `exists_linkMotion`: a motion of the links that fits one of the joints.
* `Values.Reads`, `exists_reads`: an assignment with the values of a motion.
* `poses_unique`, `twists_unique`, `accels_unique`: two solutions are the same.
* `Builder.kinematics_well_posed`: existence and uniqueness.
-/

namespace Articulated

/-! ## 1. Motions -/

/-- Angles, velocities and accelerations of the joints, by their ids. -/
structure JointMotion where
  angle : Nat → ℝ
  velocity : Nat → ℝ
  acceleration : Nat → ℝ

/-- Poses, twists and accelerations of the links, by their ids. -/
structure LinkMotion where
  pose : Nat → Pose ℝ
  twist : Nat → SpatialVector ℝ
  accel : Nat → SpatialVector ℝ

/-- The drive of a joint: what its motion adds to the twist of its child. -/
noncomputable def JointMotion.twistDrive (q : JointMotion) (j : Joint ℝ) (frames : JointFrames ℝ) :
    SpatialVector ℝ := q.velocity j.id • frames.screwChild

/-- What the motion of a joint adds to the acceleration of its child, at the twists of the links. -/
noncomputable def JointMotion.accelDrive (q : JointMotion) (twist : Nat → SpatialVector ℝ)
    (j : Joint ℝ) (frames : JointFrames ℝ) : SpatialVector ℝ :=
  q.velocity j.id • (twist j.child).bracket.apply frames.screwChild +
    q.acceleration j.id • frames.screwChild

/-- Twists or accelerations of the links that are carried over through the joints, with a drive, and
vanish at the fixed links. -/
structure Driven (r : Robot ℝ) (q : JointMotion)
    (drive : Joint ℝ → JointFrames ℝ → SpatialVector ℝ) (vector : Nat → SpatialVector ℝ) :
    Prop where
  fixed : ∀ l ∈ r.fixedLinks, vector l.id = 0
  joint : ∀ j ∈ r.joints, ∀ frames, r.frames j = .ok frames →
    (frames.parentInChild (q.angle j.id)).adjoint.apply (vector j.parent) + drive j frames =
      vector j.child

/-- Poses of the links that are moved through the joints, and are the rest poses at the fixed
links. -/
structure Placed (r : Robot ℝ) (q : JointMotion) (pose : Nat → Pose ℝ) : Prop where
  rigid : ∀ i, (pose i).IsRigid
  fixed : ∀ l ∈ r.fixedLinks, (pose l.id).SameMotion l.rest
  joint : ∀ j ∈ r.joints, ∀ frames, r.frames j = .ok frames →
    (pose j.child).SameMotion (pose j.parent * frames.childInParent (q.angle j.id))

/-- The links move as the joints ask. -/
structure LinkMotion.Fits (m : LinkMotion) (r : Robot ℝ) (q : JointMotion) : Prop where
  pose : Placed r q m.pose
  twist : Driven r q q.twistDrive m.twist
  accel : Driven r q (q.accelDrive m.twist) m.accel

/-! ## 2. Solving through joints -/

section Solving

variable {r : Robot ℝ} (hr : r.Valid) (hrigid : r.IsRigid) (hforest : r.IsForest)
  (q : JointMotion)

include hr hrigid hforest

/-- Poses of the links on a forest. A parent pose is the child pose with the motion of the joint
taken back. -/
theorem exists_poses : ∃ pose, Placed r q pose := by
  have hstart : ∀ i, ∃ p : {p : Pose ℝ // p.IsRigid}, ∀ l ∈ r.links, l.id = i → p.1 = l.rest := by
    intro i
    cases hfind : r.link? i with
    | some l =>
      refine ⟨⟨l.rest, hrigid.link_rest l (List.mem_of_find?_eq_some hfind)⟩, ?_⟩
      rintro l' hl' rfl
      exact congrArg Link.rest (Option.some.inj (hfind.symm.trans (hr.link?_eq hl')))
    | none =>
      refine ⟨⟨.identity, Pose.isRigid_identity⟩, ?_⟩
      rintro l hl rfl
      rw [hr.link?_eq hl] at hfind
      cases hfind
  choose start hstart using hstart
  let moved : Joint ℝ → {p : Pose ℝ // p.IsRigid} → {p : Pose ℝ // p.IsRigid} → Prop :=
    fun j parent child => ∀ frames, r.frames j = .ok frames →
      child.1.SameMotion (parent.1 * frames.childInParent (q.angle j.id))
  have hchild : ∀ j ∈ r.joints, ∀ parent, ∃ child, moved j parent child := by
    intro j hj parent
    obtain ⟨frames, hframes⟩ := hr.exists_frames hj
    have hmotion := hrigid.childInParent hj hframes (q.angle j.id)
    refine ⟨⟨parent.1 * frames.childInParent (q.angle j.id), parent.2.mul hmotion⟩, ?_⟩
    intro frames' hframes'
    obtain rfl := answer_unique hframes hframes'
    exact .refl _
  have hparent : ∀ j ∈ r.joints, ∀ child, ∃ parent, moved j parent child := by
    intro j hj child
    obtain ⟨frames, hframes⟩ := hr.exists_frames hj
    have hmotion := hrigid.childInParent hj hframes (q.angle j.id)
    refine ⟨⟨child.1 * (frames.childInParent (q.angle j.id)).inverse,
      child.2.mul hmotion.inverse⟩, ?_⟩
    intro frames' hframes'
    obtain rfl := answer_unique hframes hframes'
    exact Pose.sameMotion_mul_inverse_mul child.2 hmotion
  obtain ⟨pose, hfixed, hjoint⟩ := hforest.exists_assignment hr hchild hparent start
  refine ⟨fun i => (pose i).1, fun i => (pose i).2, fun l hl => ?_, hjoint⟩
  show (pose l.id).1.SameMotion l.rest
  rw [hfixed l hl, hstart l.id l (List.mem_filter.1 hl).1 rfl]
  exact .refl _

/-- Twists or accelerations of the links on a forest. That of a parent is what is left of that of
the child without the drive, carried back. -/
theorem exists_vectors (drive : Joint ℝ → JointFrames ℝ → SpatialVector ℝ) :
    ∃ vector, Driven r q drive vector := by
  let carried : Joint ℝ → SpatialVector ℝ → SpatialVector ℝ → Prop :=
    fun j parent child => ∀ frames, r.frames j = .ok frames →
      (frames.parentInChild (q.angle j.id)).adjoint.apply parent + drive j frames = child
  have hchild : ∀ j ∈ r.joints, ∀ parent, ∃ child, carried j parent child := by
    intro j hj parent
    obtain ⟨frames, hframes⟩ := hr.exists_frames hj
    refine ⟨(frames.parentInChild (q.angle j.id)).adjoint.apply parent + drive j frames, ?_⟩
    intro frames' hframes'
    rw [answer_unique hframes hframes']
  have hparent : ∀ j ∈ r.joints, ∀ child, ∃ parent, carried j parent child := by
    intro j hj child
    obtain ⟨frames, hframes⟩ := hr.exists_frames hj
    have hmotion := hrigid.childInParent hj hframes (q.angle j.id)
    refine ⟨(frames.childInParent (q.angle j.id)).adjoint.apply (child - drive j frames), ?_⟩
    intro frames' hframes'
    obtain rfl := answer_unique hframes hframes'
    rw [JointFrames.parentInChild, Pose.adjoint_inverse_apply hmotion]
    exact SpatialVector.sub_add_cancel _ _
  obtain ⟨vector, hfixed, hjoint⟩ := hforest.exists_assignment hr hchild hparent fun _ => 0
  exact ⟨vector, hfixed, hjoint⟩

/-- **On a forest the links can move as the joints ask.** -/
theorem exists_linkMotion : ∃ m : LinkMotion, m.Fits r q := by
  obtain ⟨pose, hpose⟩ := exists_poses hr hrigid hforest q
  obtain ⟨twist, htwist⟩ := exists_vectors hr hrigid hforest q q.twistDrive
  obtain ⟨accel, haccel⟩ := exists_vectors hr hrigid hforest q (q.accelDrive twist)
  exact ⟨⟨pose, twist, accel⟩, hpose, htwist, haccel⟩

end Solving

/-! ## 3. Assignments of a motion -/

/-- The value of a quantity in a motion. Quantities that no motion has are zero. -/
noncomputable def JointMotion.value (q : JointMotion) (m : LinkMotion) : Variable → Value ℝ
  | .pose link _ => .pose (m.pose link)
  | .twist link _ => .vector (m.twist link)
  | .twistAccel link _ => .vector (m.accel link)
  | .jointAngle joint _ => .scalar (q.angle joint)
  | .jointVel joint _ => .scalar (q.velocity joint)
  | .jointAccel joint _ => .scalar (q.acceleration joint)
  | .wrench .. => .vector 0
  | .torque .. | .phaseDuration .. => .scalar 0

/-- The value that a motion has for a key. -/
noncomputable def JointMotion.valueAt (q : JointMotion) (m : LinkMotion) (k : Key) : Value ℝ :=
  match k.variable? with
  | some v => q.value m v
  | none => .scalar 0

/-- The assignment has the values of a motion for all quantities of the robot at a time. -/
def Values.Reads (vs : Values ℝ) (r : Robot ℝ) (t : Nat) (q : JointMotion) (m : LinkMotion) :
    Prop :=
  ∀ v, r.Has t v → ∃ k, v.key (α := ℝ) = .ok k ∧ vs.get? k = some (q.value m v)

/-- The joints move as given in the assignment. -/
structure Values.Follows (vs : Values ℝ) (r : Robot ℝ) (t : Nat) (q : JointMotion) : Prop where
  angle : ∀ j ∈ r.joints, vs.scalarOf (.jointAngle j.id t) = .ok (q.angle j.id)
  velocity : ∀ j ∈ r.joints, vs.scalarOf (.jointVel j.id t) = .ok (q.velocity j.id)
  acceleration : ∀ j ∈ r.joints, vs.scalarOf (.jointAccel j.id t) = .ok (q.acceleration j.id)

section Assignments

variable {r : Robot ℝ} {t : Nat} {q : JointMotion} {m : LinkMotion} {vs : Values ℝ}

theorem get?_foldl_enter (value : Key → Value ℝ) (k : Key) : ∀ {ks : List Key} {vs : Values ℝ},
    k ∈ ks ∨ vs.get? k = some (value k) →
      (ks.foldl (fun acc k => acc.insert k (value k)) vs).get? k = some (value k)
  | [], _, h => h.resolve_left List.not_mem_nil
  | q :: ks, vs, h => by
    rw [List.foldl_cons]
    refine get?_foldl_enter value k ?_
    rw [Values.get?_insert]
    by_cases hq : k = q
    · right
      rw [if_pos hq, hq]
    · rw [if_neg hq]
      exact h.imp_left fun hk => (List.mem_cons.1 hk).resolve_left hq

/-- Every motion has an assignment, where the quantities of the robot fit. The keys are those of
the slice at rest. -/
theorem exists_reads (hr : r.Valid) (hfits : ∀ v, r.Has t v → v.fields.Fits) (q : JointMotion)
    (m : LinkMotion) : ∃ vs : Values ℝ, vs.Reads r t q m := by
  obtain ⟨rest, hrest⟩ := (hr.restSlice_spec t).2.2 hfits
  refine ⟨rest.keys.foldl (fun acc k => acc.insert k (q.valueAt m k)) .empty, fun v hv => ?_⟩
  obtain ⟨k, hk⟩ := Variable.exists_key_iff.2 (hfits v hv)
  have hvalue : q.valueAt m k = q.value m v := by
    rw [JointMotion.valueAt, Variable.decode_of_key hk]
  have hmem : k ∈ rest.keys := ((hr.restSlice_spec t).1 rest hrest).mem_keys.2 ⟨v, hv, hk⟩
  refine ⟨k, Variable.key_eq_ok.2 hk, ?_⟩
  rw [← hvalue]
  exact get?_foldl_enter (q.valueAt m) k (.inl hmem)

namespace Values.Reads

variable (h : vs.Reads r t q m) {i : Nat} {j : Joint ℝ}

include h

theorem poseOf (hi : i ∈ r.links.map (·.id)) : vs.poseOf (.pose i t) = .ok (m.pose i) := by
  obtain ⟨k, hk, hget⟩ := h (.pose i t) ⟨hi, rfl⟩
  exact poseOf_eq_ok hk (Values.pose_eq_ok hget)

theorem twistOf (hi : i ∈ r.links.map (·.id)) : vs.vectorOf (.twist i t) = .ok (m.twist i) := by
  obtain ⟨k, hk, hget⟩ := h (.twist i t) ⟨hi, rfl⟩
  exact vectorOf_eq_ok hk (Values.vector6_eq_ok hget)

theorem accelOf (hi : i ∈ r.links.map (·.id)) :
    vs.vectorOf (.twistAccel i t) = .ok (m.accel i) := by
  obtain ⟨k, hk, hget⟩ := h (.twistAccel i t) ⟨hi, rfl⟩
  exact vectorOf_eq_ok hk (Values.vector6_eq_ok hget)

theorem follows : vs.Follows r t q := by
  refine ⟨fun j hj => ?_, fun j hj => ?_, fun j hj => ?_⟩
  · obtain ⟨k, hk, hget⟩ := h (.jointAngle j.id t) ⟨List.mem_map_of_mem hj, rfl⟩
    exact scalarOf_eq_ok hk (Values.scalar_eq_ok hget)
  · obtain ⟨k, hk, hget⟩ := h (.jointVel j.id t) ⟨List.mem_map_of_mem hj, rfl⟩
    exact scalarOf_eq_ok hk (Values.scalar_eq_ok hget)
  · obtain ⟨k, hk, hget⟩ := h (.jointAccel j.id t) ⟨List.mem_map_of_mem hj, rfl⟩
    exact scalarOf_eq_ok hk (Values.scalar_eq_ok hget)

theorem rigidAt (hm : Articulated.Placed r q m.pose) : vs.RigidAt r t := by
  intro l hl pose hpose
  rw [answer_unique hpose (h.poseOf (List.mem_map_of_mem hl))]
  exact hm.rigid l.id

variable (hr : r.Valid)

include hr

theorem posesHold (hrigid : r.IsRigid) (hm : Articulated.Placed r q m.pose) : vs.PosesHold r t := by
  refine ⟨fun j hj => ?_, fun l hl => ?_⟩
  · obtain ⟨frames, hframes⟩ := hr.exists_frames hj
    have hmotion := hrigid.childInParent hj hframes (q.angle j.id)
    refine ⟨frames, _, _, _, hframes, h.poseOf (hr.parent_mem j hj),
      h.poseOf (hr.child_mem j hj), h.follows.angle j hj, ?_⟩
    exact (Pose.localTo_eq_zero_iff (hm.rigid _) ((hm.rigid _).mul hmotion)).2
      (hm.joint j hj frames hframes)
  · have hmem := (List.mem_filter.1 hl).1
    refine ⟨_, h.poseOf (List.mem_map_of_mem hmem), ?_⟩
    exact (Pose.localTo_eq_zero_iff (hrigid.link_rest l hmem) (hm.rigid _)).2 (hm.fixed l hl).symm

theorem twistsHold (hm : Driven r q q.twistDrive m.twist) : vs.TwistsHold r t := by
  refine ⟨fun j hj => ?_, fun l hl => ?_⟩
  · obtain ⟨frames, hframes⟩ := hr.exists_frames hj
    exact ⟨frames, _, _, _, _, hframes, h.twistOf (hr.parent_mem j hj),
      h.twistOf (hr.child_mem j hj), h.follows.angle j hj, h.follows.velocity j hj,
      hm.joint j hj frames hframes⟩
  · rw [h.twistOf (List.mem_map_of_mem (List.mem_filter.1 hl).1), hm.fixed l hl]

theorem accelsHold (hm : Driven r q (q.accelDrive m.twist) m.accel) : vs.AccelsHold r t := by
  refine ⟨fun j hj => ?_, fun l hl => ?_⟩
  · obtain ⟨frames, hframes⟩ := hr.exists_frames hj
    refine ⟨frames, _, _, _, _, _, _, hframes, h.twistOf (hr.child_mem j hj),
      h.accelOf (hr.parent_mem j hj), h.accelOf (hr.child_mem j hj), h.follows.angle j hj,
      h.follows.velocity j hj, h.follows.acceleration j hj, ?_⟩
    rw [SpatialVector.add_assoc]
    exact hm.joint j hj frames hframes
  · rw [h.accelOf (List.mem_map_of_mem (List.mem_filter.1 hl).1), hm.fixed l hl]

end Values.Reads

end Assignments

/-! ## 4. Uniqueness -/

section Uniqueness

variable {r : Robot ℝ} {t : Nat} {q : JointMotion} {vs vs' : Values ℝ}

/-- **Poses that hold at the same angles are the same motions.** -/
theorem poses_unique (hr : r.Valid) (hrigid : r.IsRigid) (hforest : r.IsForest)
    (hvs : vs.RigidAt r t) (hvs' : vs'.RigidAt r t) (hq : vs.Follows r t q)
    (hq' : vs'.Follows r t q) (h : vs.PosesHold r t) (h' : vs'.PosesHold r t) : ∀ l ∈ r.links,
      BothAnswer Pose.SameMotion (vs.poseOf (.pose l.id t)) (vs'.poseOf (.pose l.id t)) := by
  refine hforest.induction (P := fun i => BothAnswer Pose.SameMotion (vs.poseOf (.pose i t))
    (vs'.poseOf (.pose i t))) (fun l hl => ?_) fun j hj => ?_
  · obtain ⟨pose, hpose, hlocal⟩ := h.fixed l hl
    obtain ⟨pose', hpose', hlocal'⟩ := h'.fixed l hl
    have hmem := (List.mem_filter.1 hl).1
    have hrest := hrigid.link_rest l hmem
    have hsame := (Pose.localTo_eq_zero_iff hrest (hvs l hmem pose hpose)).1 hlocal
    have hsame' := (Pose.localTo_eq_zero_iff hrest (hvs' l hmem pose' hpose')).1 hlocal'
    exact ⟨pose, pose', hpose, hpose', hsame.symm.trans hsame'⟩
  · obtain ⟨frames, parent, child, angle, hframes, hparent, hchild, hangle, hlocal⟩ :=
      h.joint j hj
    obtain ⟨frames', parent', child', angle', hframes', hparent', hchild', hangle', hlocal'⟩ :=
      h'.joint j hj
    obtain rfl := answer_unique hframes hframes'
    obtain rfl := answer_unique hangle (hq.angle j hj)
    obtain rfl := answer_unique hangle' (hq'.angle j hj)
    have hmotion := hrigid.childInParent hj hframes (q.angle j.id)
    have hp := hvs.of_mem (hr.parent_mem j hj) hparent
    have hp' := hvs'.of_mem (hr.parent_mem j hj) hparent'
    have hc := (Pose.localTo_eq_zero_iff (hvs.of_mem (hr.child_mem j hj) hchild)
      (hp.mul hmotion)).1 hlocal
    have hc' := (Pose.localTo_eq_zero_iff (hvs'.of_mem (hr.child_mem j hj) hchild')
      (hp'.mul hmotion)).1 hlocal'
    rw [bothAnswer_iff hparent hparent', bothAnswer_iff hchild hchild',
      ← Pose.sameMotion_mul_right_iff hp hp' hmotion]
    exact ⟨fun hsame => hc.trans (hsame.trans hc'.symm),
      fun hsame => hc.symm.trans (hsame.trans hc')⟩

/-- The vectors that are carried over through a joint with a drive determine each other. -/
theorem carried_eq_iff {joint : Pose ℝ} (hjoint : joint.IsRigid)
    {drive parent parent' child child' : SpatialVector ℝ}
    (h : joint.inverse.adjoint.apply parent + drive = child)
    (h' : joint.inverse.adjoint.apply parent' + drive = child') :
    parent = parent' ↔ child = child' := by
  constructor
  · rintro rfl
    exact h.symm.trans h'
  · rintro rfl
    have hcarried := congrArg joint.adjoint.apply
      (SpatialVector.add_right_cancel (h.trans h'.symm))
    rwa [Pose.adjoint_apply_inverse hjoint, Pose.adjoint_apply_inverse hjoint] at hcarried

/-- **Twists that hold at the same angles and velocities are the same.** -/
theorem twists_unique (hrigid : r.IsRigid) (hforest : r.IsForest) (hq : vs.Follows r t q)
    (hq' : vs'.Follows r t q) (h : vs.TwistsHold r t) (h' : vs'.TwistsHold r t) : ∀ l ∈ r.links,
      BothAnswer Eq (vs.vectorOf (.twist l.id t)) (vs'.vectorOf (.twist l.id t)) := by
  refine hforest.induction (P := fun i => BothAnswer Eq (vs.vectorOf (.twist i t))
    (vs'.vectorOf (.twist i t))) (fun l hl => ⟨0, 0, h.fixed l hl, h'.fixed l hl, rfl⟩)
    fun j hj => ?_
  obtain ⟨frames, parent, child, angle, velocity, hframes, hparent, hchild, hangle, hvelocity,
    htwist⟩ := h.joint j hj
  obtain ⟨frames', parent', child', angle', velocity', hframes', hparent', hchild', hangle',
    hvelocity', htwist'⟩ := h'.joint j hj
  obtain rfl := answer_unique hframes hframes'
  obtain rfl := answer_unique hangle (hq.angle j hj)
  obtain rfl := answer_unique hangle' (hq'.angle j hj)
  obtain rfl := answer_unique hvelocity (hq.velocity j hj)
  obtain rfl := answer_unique hvelocity' (hq'.velocity j hj)
  rw [bothAnswer_iff hparent hparent', bothAnswer_iff hchild hchild']
  exact carried_eq_iff (hrigid.childInParent hj hframes (q.angle j.id)) htwist htwist'

/-- **Accelerations that hold with the same twists are the same.** -/
theorem accels_unique (hr : r.Valid) (hrigid : r.IsRigid) (hforest : r.IsForest)
    (hq : vs.Follows r t q) (hq' : vs'.Follows r t q)
    (htwists : ∀ l ∈ r.links,
      BothAnswer Eq (vs.vectorOf (.twist l.id t)) (vs'.vectorOf (.twist l.id t)))
    (h : vs.AccelsHold r t) (h' : vs'.AccelsHold r t) : ∀ l ∈ r.links,
      BothAnswer Eq (vs.vectorOf (.twistAccel l.id t)) (vs'.vectorOf (.twistAccel l.id t)) := by
  refine hforest.induction (P := fun i => BothAnswer Eq (vs.vectorOf (.twistAccel i t))
    (vs'.vectorOf (.twistAccel i t))) (fun l hl => ⟨0, 0, h.fixed l hl, h'.fixed l hl, rfl⟩)
    fun j hj => ?_
  obtain ⟨frames, twist, parent, child, angle, velocity, accel, hframes, htwist, hparent, hchild,
    hangle, hvelocity, haccel, heq⟩ := h.joint j hj
  obtain ⟨frames', twist', parent', child', angle', velocity', accel', hframes', htwist',
    hparent', hchild', hangle', hvelocity', haccel', heq'⟩ := h'.joint j hj
  obtain rfl := answer_unique hframes hframes'
  obtain rfl := answer_unique hangle (hq.angle j hj)
  obtain rfl := answer_unique hangle' (hq'.angle j hj)
  obtain rfl := answer_unique hvelocity (hq.velocity j hj)
  obtain rfl := answer_unique hvelocity' (hq'.velocity j hj)
  obtain rfl := answer_unique haccel (hq.acceleration j hj)
  obtain rfl := answer_unique haccel' (hq'.acceleration j hj)
  obtain ⟨l, hl, hid⟩ := List.mem_map.1 (hr.child_mem j hj)
  have hsame := htwists l hl
  rw [hid] at hsame
  obtain rfl := (bothAnswer_iff htwist htwist').1 hsame
  rw [SpatialVector.add_assoc] at heq heq'
  rw [bothAnswer_iff hparent hparent', bothAnswer_iff hchild hchild']
  exact carried_eq_iff (hrigid.childInParent hj hframes (q.angle j.id)) heq heq'

end Uniqueness

/-! ## 5. Well-posedness -/

/-- The assignment solves some factors at a time: its joints move as given, its poses are rigid
motions, and the factors vanish. -/
structure Values.Solves (vs : Values ℝ) (r : Robot ℝ) (t : Nat) (q : JointMotion)
    (factors : List (Factor ℝ)) : Prop where
  follows : vs.Follows r t q
  rigid : vs.RigidAt r t
  vanish : ∀ f ∈ factors, f.Vanishes vs

/-- Both assignments have values for how a link moves, and these are the same. -/
structure Values.SameLink (vs vs' : Values ℝ) (t link : Nat) : Prop where
  pose : BothAnswer Pose.SameMotion (vs.poseOf (.pose link t)) (vs'.poseOf (.pose link t))
  twist : BothAnswer Eq (vs.vectorOf (.twist link t)) (vs'.vectorOf (.twist link t))
  accel : BothAnswer Eq (vs.vectorOf (.twistAccel link t)) (vs'.vectorOf (.twistAccel link t))

/-- A robot with quantities has links. -/
theorem exists_link_of_has {r : Robot ℝ} (hr : r.Valid) {t : Nat} {v : Variable}
    (hv : r.Has t v) : ∃ l, l ∈ r.links := by
  have hlink : ∀ {i : Nat}, i ∈ r.links.map (·.id) → ∃ l, l ∈ r.links := fun hi =>
    (List.mem_map.1 hi).imp fun _ h => h.1
  have hjoint : ∀ {i : Nat}, i ∈ r.joints.map (·.id) → ∃ l, l ∈ r.links := by
    intro i hi
    obtain ⟨j, hj, -⟩ := List.mem_map.1 hi
    exact hlink (hr.parent_mem j hj)
  cases v with
  | pose link s | twist link s | twistAccel link s => exact hlink hv.1
  | wrench link joint s =>
    obtain ⟨⟨j, hj, -⟩, -⟩ := hv
    exact hlink (hr.parent_mem j hj)
  | torque joint s | jointAngle joint s | jointVel joint s | jointAccel joint s => exact hjoint hv.1
  | phaseDuration phase => exact hv.elim

theorem Robot.twoLinkArm_isRigid : (twoLinkArm : Robot ℝ).IsRigid where
  link_rest := List.forall_mem_cons.2
    ⟨Pose.isRigid_shift _, List.forall_mem_singleton.2 (Pose.isRigid_shift _)⟩
  joint_rest := List.forall_mem_singleton.2 (Pose.isRigid_shift _)
  axis := List.forall_mem_singleton.2 (by
    simp [hinge, Vec3.unitX, Vec3.normSq, Vec3.dot])

namespace Builder

variable {b : Builder ℝ} {r : Robot ℝ} {t : Nat} {poses twists accels : FactorGraph ℝ}

/-- Where the poses of a forest are assembled, its quantities fit: there is a fixed link. -/
theorem fits_of_poseFactors [Runtime ℝ] (hr : r.Valid) (hforest : r.IsForest)
    (hposes : b.poseFactors r t = .ok poses) {v : Variable} (hv : r.Has t v) : v.fields.Fits := by
  obtain ⟨l, hl⟩ := exists_link_of_has hr hv
  obtain ⟨f, ⟨hf, -⟩, -⟩ := hforest.rooted l hl
  obtain ⟨joints, -, h⟩ := bind_eq_ok.1 hposes
  obtain ⟨fixed, hfixed, -⟩ := map_eq_ok.1 h
  obtain ⟨factor, -, hbuild⟩ := mem_perFixedLink hfixed hf
  obtain ⟨k, hk, -⟩ := map_eq_ok.1 hbuild
  have hfits := (Variable.key?_eq_some_iff.1 (Variable.key_eq_ok.1 hk)).1
  exact hr.fits hfits.2.2 hv

/-- **On a forest with one fixed link in each tree, the kinematic factors of a time that fits are
assembled. Wherever they are assembled, every motion of the joints has a solution, and all its
solutions move the links in the same way.** -/
theorem kinematics_well_posed [Runtime ℝ] (hcheck : r.check = .ok ()) (hrigid : r.IsRigid)
    (hforest : r.IsForest) (b : Builder ℝ) (t : Nat) (q : JointMotion) :
    (t ≤ maxIndex → ∃ poses twists accels, b.poseFactors r t = .ok poses ∧
      b.twistFactors r t = .ok twists ∧ b.accelFactors r t = .ok accels) ∧
    ∀ poses twists accels, b.poseFactors r t = .ok poses → b.twistFactors r t = .ok twists →
      b.accelFactors r t = .ok accels →
        (∃ vs : Values ℝ,
          vs.Solves r t q (poses.factors ++ twists.factors ++ accels.factors)) ∧
        ∀ vs vs' : Values ℝ,
          vs.Solves r t q (poses.factors ++ twists.factors ++ accels.factors) →
          vs'.Solves r t q (poses.factors ++ twists.factors ++ accels.factors) →
            ∀ l ∈ r.links, vs.SameLink vs' t l.id := by
  have hr := Robot.check_eq_ok_iff.1 hcheck
  refine ⟨fun ht => ?_, fun poses twists accels hposes htwists haccels => ?_⟩
  · obtain ⟨poses, hposes⟩ := (poseFactors_needsKeys (b := b) hr).succeeds ht
    obtain ⟨twists, htwists⟩ := (twistFactors_needsKeys (b := b) hr).succeeds ht
    obtain ⟨accels, haccels⟩ := (accelFactors_needsKeys (b := b) hr).succeeds ht
    exact ⟨poses, twists, accels, hposes, htwists, haccels⟩
  have hvanish : ∀ vs : Values ℝ,
      (∀ f ∈ poses.factors ++ twists.factors ++ accels.factors, f.Vanishes vs) ↔
        (vs.PosesHold r t ∧ vs.TwistsHold r t) ∧ vs.AccelsHold r t := by
    intro vs
    rw [List.forall_mem_append, List.forall_mem_append, poseFactors_vanish_iff hposes,
      twistFactors_vanish_iff htwists, accelFactors_vanish_iff haccels]
  constructor
  · obtain ⟨m, hm⟩ := exists_linkMotion hr hrigid hforest q
    obtain ⟨vs, hreads⟩ :=
      exists_reads hr (fun _ hv => fits_of_poseFactors hr hforest hposes hv) q m
    refine ⟨vs, hreads.follows, hreads.rigidAt hm.pose, (hvanish vs).2 ⟨⟨?_, ?_⟩, ?_⟩⟩
    · exact hreads.posesHold hr hrigid hm.pose
    · exact hreads.twistsHold hr hm.twist
    · exact hreads.accelsHold hr hm.accel
  · intro vs vs' h h' l hl
    obtain ⟨⟨hposes, htwists⟩, haccels⟩ := (hvanish vs).1 h.vanish
    obtain ⟨⟨hposes', htwists'⟩, haccels'⟩ := (hvanish vs').1 h'.vanish
    have hpose := poses_unique hr hrigid hforest h.rigid h'.rigid h.follows h'.follows hposes
      hposes'
    have hsame := twists_unique hrigid hforest h.follows h'.follows htwists htwists'
    exact ⟨hpose l hl, hsame l hl,
      accels_unique hr hrigid hforest h.follows h'.follows hsame haccels haccels' l hl⟩

theorem kinematics_well_posed_twoLinkArm :
    (Robot.twoLinkArm : Robot ℝ).check = .ok () ∧ (Robot.twoLinkArm : Robot ℝ).IsRigid ∧
    (Robot.twoLinkArm : Robot ℝ).IsForest ∧
    ∃ poses twists accels, (ofSettings .default).poseFactors Robot.twoLinkArm 0 = .ok poses ∧
      (ofSettings .default).twistFactors Robot.twoLinkArm 0 = .ok twists ∧
      (ofSettings .default).accelFactors Robot.twoLinkArm 0 = .ok accels ∧
      (∃ vs : Values ℝ, vs.Solves Robot.twoLinkArm 0 ⟨fun _ => 1, fun _ => 2, fun _ => 3⟩
        (poses.factors ++ twists.factors ++ accels.factors)) ∧
      ∀ vs vs' : Values ℝ,
        vs.Solves Robot.twoLinkArm 0 ⟨fun _ => 1, fun _ => 2, fun _ => 3⟩
          (poses.factors ++ twists.factors ++ accels.factors) →
        vs'.Solves Robot.twoLinkArm 0 ⟨fun _ => 1, fun _ => 2, fun _ => 3⟩
          (poses.factors ++ twists.factors ++ accels.factors) →
          ∀ l ∈ (Robot.twoLinkArm : Robot ℝ).links, vs.SameLink vs' 0 l.id := by
  obtain ⟨hassembled, hposed⟩ := kinematics_well_posed rfl Robot.twoLinkArm_isRigid
    Robot.twoLinkArm_isForest
    (ofSettings .default) 0 ⟨fun _ => 1, fun _ => 2, fun _ => 3⟩
  obtain ⟨poses, twists, accels, hposes, htwists, haccels⟩ := hassembled (Nat.zero_le _)
  obtain ⟨hexists, hunique⟩ := hposed poses twists accels hposes htwists haccels
  exact ⟨rfl, Robot.twoLinkArm_isRigid, Robot.twoLinkArm_isForest, poses, twists, accels, hposes,
    htwists, haccels, hexists, hunique⟩

end Builder

end Articulated
