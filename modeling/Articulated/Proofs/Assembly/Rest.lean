import Articulated.Proofs.Number.Exact
import Articulated.Proofs.Assembly.Posedness
import Articulated.Proofs.Assembly.Slots
import Articulated.Proofs.Dense.LeastSquares
import Articulated.Proofs.Robot.Frames

/-!
# The robot at rest

The values at rest are those of a motion: all links stand at their rest poses and nothing moves.
This motion fits every robot, as the frames of a joint lead from the rest pose of one link to that
of the other. Without wrenches all relations of the dynamics hold as well, except that nothing holds
the weight of the moving links. So the weights are all that is left of the residuals of a slice, and
the error of the slice is what they cost. Numbers are exact here.

* `Robot.restMotion_fits`: the links at rest move as joints at zero ask.
* `Robot.Valid.restSlice_reads`: the slice at rest has the values of this motion.
* `wrenchFactors_vanish`, `balanceFactor_residual`: the dynamics of one joint and of one link.
* `Builder.slice_parts`: a slice with all groups, part by part, and `Builder.slice_vanishes`,
  `Builder.slice_balances`: what vanishes of it and what does not.
* `slice_error`: what the weights cost.
* `Builder.rest_solves`: what is left of a slice at rest.
-/

namespace Articulated

open Scalar

/-! ## 1. The motion at rest -/

/-- All joints at zero. -/
noncomputable def JointMotion.rest : JointMotion := ⟨fun _ => 0, fun _ => 0, fun _ => 0⟩

namespace Robot

/-- All links at their rest poses. -/
noncomputable def restMotion (r : Robot ℝ) : LinkMotion :=
  ⟨fun link => ((r.link? link).map (·.rest)).getD Pose.identity, fun _ => 0, fun _ => 0⟩

variable {r : Robot ℝ} {j : Joint ℝ} {l : Link ℝ}

theorem Valid.restMotion_pose (hr : r.Valid) (hl : l ∈ r.links) :
    r.restMotion.pose l.id = l.rest := by
  simp only [restMotion, hr.link?_eq hl, Option.map_some, Option.getD_some]

theorem restMotion_rigid (hrigid : r.IsRigid) (link : Nat) : (r.restMotion.pose link).IsRigid := by
  cases hfind : r.link? link with
  | none =>
    simp only [restMotion, hfind]
    exact Pose.isRigid_identity
  | some l =>
    simp only [restMotion, hfind]
    exact hrigid.link_rest l (List.mem_of_find?_eq_some hfind)

/-- The frames of a joint lead from the rest pose of its parent to that of its child. -/
theorem restMotion_joint (hr : r.Valid) (hrigid : r.IsRigid) (hj : j ∈ r.joints)
    {frames : JointFrames ℝ} (hframes : r.frames j = .ok frames) :
    (r.restMotion.pose j.child).SameMotion
      (r.restMotion.pose j.parent * frames.childInParent 0) := by
  obtain ⟨parent, hparent, hpid⟩ := List.mem_map.1 (hr.parent_mem j hj)
  obtain ⟨child, hchild, hcid⟩ := List.mem_map.1 (hr.child_mem j hj)
  have hp := hrigid.link_rest parent hparent
  have hc := hrigid.link_rest child hchild
  obtain rfl : JointFrames.ofRest j.type parent.rest j.rest child.rest j.axis = frames := by
    unfold Robot.frames at hframes
    rw [← hpid, ← hcid, hr.link?_eq hparent, hr.link?_eq hchild] at hframes
    exact Except.ok.inj hframes
  rw [← hpid, ← hcid, hr.restMotion_pose hparent, hr.restMotion_pose hchild]
  intro x
  -- At zero the joint moves nothing, and what is left of the way back to the parent cancels.
  rw [Pose.move_mul hp (hrigid.childInParent hj hframes 0),
    JointFrames.childInParent_zero hp (hrigid.joint_rest j hj) hc (hrigid.axis j hj),
    Pose.move_mul hp.inverse hc, Pose.move_move_inverse hp]

/-- **The links at rest move as joints at zero ask.** -/
theorem restMotion_fits (hr : r.Valid) (hrigid : r.IsRigid) : r.restMotion.Fits r .rest where
  pose := {
    rigid := restMotion_rigid hrigid
    fixed := fun l hl => by
      rw [hr.restMotion_pose (List.mem_filter.1 hl).1]
      exact .refl _
    joint := fun j hj frames hframes => restMotion_joint hr hrigid hj hframes }
  twist := {
    fixed := fun _ _ => rfl
    joint := fun j _ frames _ => by
      show (frames.parentInChild _).adjoint.apply 0 + (0 : ℝ) • frames.screwChild = 0
      rw [SpatialMatrix.apply_zero, SpatialVector.zero_smul, SpatialVector.add_zero] }
  accel := {
    fixed := fun _ _ => rfl
    joint := fun j _ frames _ => by
      show (frames.parentInChild _).adjoint.apply 0 +
        ((0 : ℝ) • (0 : SpatialVector ℝ).bracket.apply frames.screwChild +
          (0 : ℝ) • frames.screwChild) = 0
      rw [SpatialMatrix.apply_zero, SpatialVector.zero_smul, SpatialVector.zero_smul,
        SpatialVector.add_zero, SpatialVector.add_zero] }

/-- The slice at rest has the values of the motion at rest. -/
theorem Valid.restSlice_reads (hr : r.Valid) {t : Nat} {vs : Values ℝ}
    (h : r.restSlice t = .ok vs) : vs.Reads r t .rest r.restMotion := by
  have hvalue : ∀ v : Variable, r.restValue v = JointMotion.rest.value r.restMotion v := by
    intro v
    cases v <;> rfl
  obtain ⟨hrest, hfits⟩ := hr.restSlice_spec t
  intro v hv
  obtain ⟨k, hk⟩ := Variable.exists_key_iff.2 (hfits.1 ⟨vs, h⟩ v hv)
  exact ⟨k, Variable.key_eq_ok.2 hk, ((hrest vs h) k _).2 ⟨v, hv, hk, hvalue v⟩⟩

end Robot

/-! ## 2. The dynamics at rest -/

section Dynamics

variable {b : Builder ℝ} {r : Robot ℝ} {t : Nat} {q : JointMotion} {m : LinkMotion} {vs : Values ℝ}

theorem Values.Reads.get? (h : vs.Reads r t q m) {v : Variable} {k : Key}
    (hk : v.key (α := ℝ) = .ok k) (hv : r.Has t v) : vs.get? k = some (q.value m v) := by
  obtain ⟨k', hk', hget⟩ := h v hv
  rwa [answer_unique hk hk']

/-- Wrenches that are zero add nothing. -/
theorem addWrenches_zero : ∀ {ks : List Key} {sum : SpatialVector ℝ},
    (∀ k ∈ ks, vs.vector6 k = .ok 0) → Relation.addWrenches vs ks sum = .ok sum
  | [], _, _ => rfl
  | k :: ks, sum, h => by
    obtain ⟨hk, hks⟩ := List.forall_mem_cons.1 h
    refine bind_eq_ok.2 ⟨0, hk, ?_⟩
    rw [SpatialVector.add_zero]
    exact addWrenches_zero hks

/-- **No motion has wrenches, so what relates the wrenches of a joint vanishes.** -/
theorem wrenchFactors_vanish {planar : Option (Vec3 ℝ)} {j : Joint ℝ} {frames : JointFrames ℝ}
    {fs : List (Factor ℝ)} (h : vs.Reads r t q m) (hj : j ∈ r.joints)
    (hbuild : b.wrenchFactors t planar j frames = .ok fs) : ∀ f ∈ fs, f.Vanishes vs := by
  obtain ⟨kp, hkp, hbuild⟩ := bind_eq_ok.1 hbuild
  obtain ⟨kc, hkc, hbuild⟩ := bind_eq_ok.1 hbuild
  obtain ⟨kq, hkq, hbuild⟩ := bind_eq_ok.1 hbuild
  obtain ⟨kt, hkt, rfl⟩ := map_eq_ok.1 hbuild
  have hid : j.id ∈ r.joints.map (·.id) := List.mem_map_of_mem hj
  have hparent := Values.vector6_eq_ok (h.get? hkp ⟨⟨j, hj, .inl rfl, rfl⟩, rfl⟩)
  have hchild := Values.vector6_eq_ok (h.get? hkc ⟨⟨j, hj, .inr rfl, rfl⟩, rfl⟩)
  have hangle := Values.scalar_eq_ok (h.get? hkq ⟨hid, rfl⟩)
  have htorque := Values.scalar_eq_ok (h.get? hkt ⟨hid, rfl⟩)
  refine List.forall_mem_cons.2 ⟨?_, List.forall_mem_cons.2 ⟨?_, List.forall_mem_map.2 ?_⟩⟩
  · refine ⟨_, bind_eq_ok.2 ⟨0, hparent, bind_eq_ok.2 ⟨0, hchild,
      map_eq_ok.2 ⟨_, hangle, rfl⟩⟩⟩, SpatialVector.toList_eq_zero_iff.2 ?_⟩
    rw [SpatialMatrix.apply_zero, SpatialVector.add_zero]
  · refine ⟨_, bind_eq_ok.2 ⟨0, hchild, map_eq_ok.2 ⟨0, htorque, rfl⟩⟩,
      List.forall_mem_singleton.2 ?_⟩
    rw [SpatialVector.dot_zero, sub_zero]
  · intro axis _
    refine ⟨_, map_eq_ok.2 ⟨0, hchild, rfl⟩, List.forall_mem_map.2 fun row _ => ?_⟩
    exact SpatialVector.dot_zero row

/-- **At rest nothing holds the weight of a link.** -/
theorem balanceFactor_residual {gravity : Vec3 ℝ} {l : Link ℝ} {f : Factor ℝ} (hr : r.Valid)
    (h : vs.Reads r t q r.restMotion) (hl : l ∈ r.links)
    (hbuild : b.balanceFactor r t gravity l = .ok f) :
    f.residual vs = .ok (gravityWrench l.mass l.rest gravity).toList := by
  obtain ⟨kws, hkws, hbuild⟩ := bind_eq_ok.1 hbuild
  obtain ⟨kp, hkp, hbuild⟩ := bind_eq_ok.1 hbuild
  obtain ⟨kv, hkv, hbuild⟩ := bind_eq_ok.1 hbuild
  obtain ⟨ka, hka, rfl⟩ := map_eq_ok.1 hbuild
  have hid : l.id ∈ r.links.map (·.id) := List.mem_map_of_mem hl
  have hpose := Values.pose_eq_ok (h.get? hkp ⟨hid, rfl⟩)
  rw [hr.restMotion_pose hl] at hpose
  have htwist := Values.vector6_eq_ok (h.get? hkv ⟨hid, rfl⟩)
  have haccel := Values.vector6_eq_ok (h.get? hka ⟨hid, rfl⟩)
  have hwrenches : ∀ k ∈ kws, vs.vector6 k = .ok 0 := by
    intro k hk
    obtain ⟨j, hj, hkey⟩ := exists_computation hkws hk
    obtain ⟨hj, htouches⟩ := List.mem_filter.1 hj
    rw [Joint.touches, Bool.or_eq_true, beq_iff_eq, beq_iff_eq] at htouches
    exact Values.vector6_eq_ok (h.get? hkey ⟨⟨j, hj, htouches, rfl⟩, rfl⟩)
  refine bind_eq_ok.2 ⟨_, hpose, bind_eq_ok.2 ⟨0, htwist, bind_eq_ok.2 ⟨0, haccel,
    map_eq_ok.2 ⟨_, ?_, rfl⟩⟩⟩⟩
  rw [SpatialMatrix.apply_zero, SpatialMatrix.apply_zero, SpatialVector.sub_zero,
    SpatialVector.add_zero]
  exact addWrenches_zero hwrenches

end Dynamics

/-! ## 3. Slices at rest -/

namespace Builder

variable [Runtime ℝ] {b : Builder ℝ} {r : Robot ℝ} {t : Nat} {gravity : Vec3 ℝ}
  {planar : Option (Vec3 ℝ)} {g poses twists accels : FactorGraph ℝ} {vs : Values ℝ}

/-- A slice with all groups: the kinematics, the balances of the moving links and the relations of
the wrenches of the joints. -/
theorem slice_parts (hall : ∀ group, group ∈ b.groups) (h : b.slice r t gravity planar = .ok g) :
    ∃ poses twists accels links joints, b.poseFactors r t = .ok poses ∧
      b.twistFactors r t = .ok twists ∧ b.accelFactors r t = .ok accels ∧
      r.movingLinks.mapM (b.balanceFactor r t gravity) = .ok links ∧
      perJoint r (b.wrenchFactors t planar) = .ok joints ∧
      g.factors =
        poses.factors ++ (twists.factors ++ accels.factors) ++ (links ++ joints.factors) := by
  have hselected : b.selected = FactorGroup.all :=
    List.filter_eq_self.2 fun group _ => decide_eq_true (hall group)
  obtain ⟨parts, hparts, rfl⟩ := map_eq_ok.1 h
  rw [hselected] at hparts
  match parts, mapM_eq_ok.1 hparts with
  | [poses, twists, accels, dynamics], .cons hposes (.cons htwists (.cons haccels
      (.cons hdynamics .nil))) =>
    obtain ⟨links, hlinks, hdynamics⟩ := bind_eq_ok.1 hdynamics
    obtain ⟨joints, hjoints, rfl⟩ := map_eq_ok.1 hdynamics
    refine ⟨poses, twists, accels, links, joints, hposes, htwists, haccels,
      inParallel_eq_ok.1 hlinks, hjoints, ?_⟩
    simp only [FactorGraph.join, List.flatMap_cons, List.flatMap_nil, List.append_nil,
      List.append_assoc]
    rfl

/-- No factor of a kinematic group is a balance. -/
theorem kinematics_name (hposes : b.poseFactors r t = .ok poses)
    (htwists : b.twistFactors r t = .ok twists) (haccels : b.accelFactors r t = .ok accels) :
    ∀ f ∈ poses.factors ++ (twists.factors ++ accels.factors), f.name ≠ "wrench" := by
  have hprior : "prior" ≠ "wrench" := by decide
  refine List.forall_mem_append.2 ⟨?_, List.forall_mem_append.2 ⟨?_, ?_⟩⟩
  · refine forall_kinematics hposes (fun j _ frames fs hbuild => ?_) fun _ _ _ _ => hprior
    obtain ⟨kp, -, hbuild⟩ := bind_eq_ok.1 hbuild
    obtain ⟨kc, -, hbuild⟩ := bind_eq_ok.1 hbuild
    obtain ⟨kq, -, rfl⟩ := map_eq_ok.1 hbuild
    exact List.forall_mem_singleton.2 (by decide : "pose" ≠ "wrench")
  · refine forall_kinematics htwists (fun j _ frames fs hbuild => ?_) fun _ _ _ _ => hprior
    obtain ⟨kp, -, hbuild⟩ := bind_eq_ok.1 hbuild
    obtain ⟨kc, -, hbuild⟩ := bind_eq_ok.1 hbuild
    obtain ⟨kq, -, hbuild⟩ := bind_eq_ok.1 hbuild
    obtain ⟨kv, -, rfl⟩ := map_eq_ok.1 hbuild
    exact List.forall_mem_singleton.2 (by decide : "twist" ≠ "wrench")
  · refine forall_kinematics haccels (fun j _ frames fs hbuild => ?_) fun _ _ _ _ => hprior
    obtain ⟨kt, -, hbuild⟩ := bind_eq_ok.1 hbuild
    obtain ⟨kp, -, hbuild⟩ := bind_eq_ok.1 hbuild
    obtain ⟨kc, -, hbuild⟩ := bind_eq_ok.1 hbuild
    obtain ⟨kq, -, hbuild⟩ := bind_eq_ok.1 hbuild
    obtain ⟨kv, -, hbuild⟩ := bind_eq_ok.1 hbuild
    obtain ⟨ka, -, rfl⟩ := map_eq_ok.1 hbuild
    exact List.forall_mem_singleton.2 (by decide : "twist_accel" ≠ "wrench")

omit [Runtime ℝ] in
/-- Neither is any relation of the wrenches of a joint. -/
theorem wrenchFactors_name {j : Joint ℝ} {frames : JointFrames ℝ} {fs : List (Factor ℝ)}
    (h : b.wrenchFactors t planar j frames = .ok fs) : ∀ f ∈ fs, f.name ≠ "wrench" := by
  obtain ⟨kp, -, h⟩ := bind_eq_ok.1 h
  obtain ⟨kc, -, h⟩ := bind_eq_ok.1 h
  obtain ⟨kq, -, h⟩ := bind_eq_ok.1 h
  obtain ⟨kt, -, rfl⟩ := map_eq_ok.1 h
  exact List.forall_mem_cons.2 ⟨(by decide : "wrench_equivalence" ≠ "wrench"),
    List.forall_mem_cons.2 ⟨(by decide : "torque" ≠ "wrench"),
      List.forall_mem_map.2 fun _ _ => (by decide : "wrench_planar" ≠ "wrench")⟩⟩

/-- The balances of the moving links are all the factors of their kind. -/
theorem slice_balances (hall : ∀ group, group ∈ b.groups)
    (h : b.slice r t gravity planar = .ok g) :
    List.Forall₂ (fun l f => l ∈ r.links ∧ b.balanceFactor r t gravity l = .ok f) r.movingLinks
      (g.factors.filter (·.name == "wrench")) := by
  obtain ⟨poses, twists, accels, links, joints, hposes, htwists, haccels, hlinks, hjoints,
    hfactors⟩ := slice_parts hall h
  have hnone : ∀ {fs : List (Factor ℝ)}, (∀ f ∈ fs, f.name ≠ "wrench") →
      fs.filter (·.name == "wrench") = [] := fun hfs =>
    List.filter_eq_nil_iff.2 fun f hf heq => hfs f hf (beq_iff_eq.1 heq)
  have hbalances : links.filter (·.name == "wrench") = links := by
    refine List.filter_eq_self.2 fun f hf => ?_
    obtain ⟨l, -, hbuild⟩ := exists_computation hlinks hf
    exact beq_iff_eq.2 (balanceFactor_fill hbuild).name_eq
  have hjoint : ∀ f ∈ joints.factors, f.name ≠ "wrench" := by
    intro f hf
    obtain ⟨j, -, frames, fs, hbuild, hf⟩ := of_mem_perJoint hjoints hf
    exact wrenchFactors_name hbuild f hf
  rw [hfactors, List.filter_append, hnone (kinematics_name hposes htwists haccels),
    List.filter_append, hbalances, hnone hjoint, List.nil_append, List.append_nil]
  exact (List.forall₂_and_left _ _).2 ⟨fun l hl => (List.mem_filter.1 hl).1, mapM_eq_ok.1 hlinks⟩

/-- Apart from the balances, a slice vanishes at rest. -/
theorem slice_vanishes (hr : r.Valid) (hrigid : r.IsRigid) (hall : ∀ group, group ∈ b.groups)
    (h : b.slice r t gravity planar = .ok g) (hvs : vs.Reads r t .rest r.restMotion) :
    ∀ f ∈ g.factors, f.name ≠ "wrench" → f.Vanishes vs := by
  obtain ⟨poses, twists, accels, links, joints, hposes, htwists, haccels, hlinks, hjoints,
    hfactors⟩ := slice_parts hall h
  have hfits := Robot.restMotion_fits hr hrigid
  rw [hfactors]
  refine List.forall_mem_append.2 ⟨List.forall_mem_append.2 ⟨fun f hf _ => ?_,
    List.forall_mem_append.2 ⟨fun f hf _ => ?_, fun f hf _ => ?_⟩⟩,
      List.forall_mem_append.2 ⟨fun f hf hname => ?_, fun f hf _ => ?_⟩⟩
  · exact (poseFactors_vanish_iff hposes).2 (hvs.posesHold hr hrigid hfits.pose) f hf
  · exact (twistFactors_vanish_iff htwists).2 (hvs.twistsHold hr hfits.twist) f hf
  · exact (accelFactors_vanish_iff haccels).2 (hvs.accelsHold hr hfits.accel) f hf
  · obtain ⟨l, -, hbuild⟩ := exists_computation hlinks hf
    exact absurd (balanceFactor_fill hbuild).name_eq hname
  · obtain ⟨j, hj, frames, fs, hbuild, hf⟩ := of_mem_perJoint hjoints hf
    exact wrenchFactors_vanish hvs hj hbuild f hf

end Builder

/-! ## 4. The error of a slice at rest -/

section Costs

variable {b : Builder ℝ} {r : Robot ℝ} {t : Nat} {q : JointMotion} {gravity : Vec3 ℝ}
  {planar : Option (Vec3 ℝ)} {g : FactorGraph ℝ} {f : Factor ℝ} {vs : Values ℝ}

theorem normSq_whitened_zeros : ∀ {rows sigmas : List ℝ}, (∀ x ∈ rows, x = 0) →
    normSq (List.zipWith (· / ·) rows sigmas) = 0
  | [], _, _ => rfl
  | _ :: _, [], _ => rfl
  | x :: rows, σ :: sigmas, h => by
    obtain ⟨rfl, hrows⟩ := List.forall_mem_cons.1 h
    rw [List.zipWith_cons_cons, zero_div, normSq_cons, normSq_whitened_zeros hrows, mul_zero,
      add_zero]

/-- A factor that vanishes costs nothing. -/
theorem Factor.cost_of_vanishes (hf : f.IsRegular) (hkinds : vs.HasKinds f.relation.reads)
    (h : f.Vanishes vs) : f.cost vs = .ok 0 := by
  obtain ⟨rows, hrows, hzero⟩ := h
  obtain ⟨rows', hrows', hlength⟩ := Factor.residual_answers hf hkinds
  obtain rfl := answer_unique hrows hrows'
  have hwhiten : f.noise.whiten rows = .ok (List.zipWith (· / ·) rows f.noise.sigmas) :=
    if_pos hlength
  refine map_eq_ok.2 ⟨_, bind_eq_ok.2 ⟨rows, hrows, hwhiten⟩, ?_⟩
  rw [normSq_whitened_zeros hzero, mul_zero]

/-- The wrench of gravity is as long as the weight. -/
theorem sum_squares_gravityWrench {pose : Pose ℝ} (hpose : pose.IsRigid) (mass : ℝ)
    (gravity : Vec3 ℝ) : ((gravityWrench mass pose gravity).toList.map (· ^ 2)).sum =
      (mass * gravity.norm) ^ 2 := by
  have hnonneg : 0 ≤ gravity.normSq :=
    add_nonneg (add_nonneg (mul_self_nonneg _) (mul_self_nonneg _)) (mul_self_nonneg _)
  have hnorm : gravity.norm ^ 2 = gravity.normSq := Real.sq_sqrt hnonneg
  have hturned := Rotation.normSq_apply (Rotation.IsUnit.inverse hpose) (mass • gravity)
  have hscaled : (mass • gravity).normSq = mass ^ 2 * gravity.normSq := by
    simp only [Vec3.normSq, Vec3.dot, Vec3.smul_def]
    ring
  rw [mul_pow, hnorm, ← hscaled, ← hturned]
  simp only [gravityWrench, SpatialVector.toList, Vec3.zero_def, Vec3.normSq, Vec3.dot,
    List.map_cons, List.map_nil, List.sum_cons, List.sum_nil]
  ring

/-- What the balance of a link costs at rest. -/
theorem balanceFactor_cost {l : Link ℝ} (hr : r.Valid) (hrigid : r.IsRigid)
    (h : vs.Reads r t q r.restMotion) (hl : l ∈ r.links)
    (hbuild : b.balanceFactor r t gravity l = .ok f) :
    f.cost vs = .ok ((l.mass * gravity.norm) ^ 2 / (2 * b.sigma .wrench ^ 2)) := by
  have hresidual := balanceFactor_residual hr h hl hbuild
  obtain ⟨kws, -, hbuild⟩ := bind_eq_ok.1 hbuild
  obtain ⟨kp, -, hbuild⟩ := bind_eq_ok.1 hbuild
  obtain ⟨kv, -, hbuild⟩ := bind_eq_ok.1 hbuild
  obtain ⟨ka, -, rfl⟩ := map_eq_ok.1 hbuild
  refine map_eq_ok.2 ⟨_, bind_eq_ok.2 ⟨_, hresidual, Factor.whiten_isotropic rfl _⟩, ?_⟩
  rw [normSq_map_div, sum_squares_gravityWrench (hrigid.link_rest l hl), half]
  ring

/-- **The error of a slice at rest is what the weights cost.** -/
theorem slice_error [Runtime ℝ] (hr : r.Valid) (hrigid : r.IsRigid)
    (hall : ∀ group, group ∈ b.groups) (h : b.slice r t gravity planar = .ok g)
    (hvs : r.restSlice t = .ok vs) :
    g.error vs = .ok (r.movingLinks.map fun l =>
      (l.mass * gravity.norm) ^ 2 / (2 * b.sigma .wrench ^ 2)).sum := by
  have hreads := hr.restSlice_reads hvs
  have hweights : List.Forall₂ (fun f l => f.cost vs =
      .ok ((l.mass * gravity.norm) ^ 2 / (2 * b.sigma .wrench ^ 2)))
      (g.factors.filter (·.name == "wrench")) r.movingLinks :=
    ((Builder.slice_balances hall h).imp fun l f hl =>
      balanceFactor_cost hr hrigid hreads hl.1 hl.2).flip
  have hothers : ∀ f ∈ g.factors, f.name ≠ "wrench" → f.cost vs = .ok 0 := by
    intro f hf hname
    have hwithin := Builder.slice_within hr h f hf
    refine Factor.cost_of_vanishes hwithin.regular
      (hwithin.hasKinds ((hr.restSlice_spec t).1 vs hvs)) ?_
    exact Builder.slice_vanishes hr hrigid hall h hreads f hf hname
  have hanswers : ∀ f ∈ g.factors, ∃ c, f.cost vs = .ok c := by
    intro f hf
    by_cases hname : f.name = "wrench"
    · obtain ⟨l, -, hcost⟩ :=
        exists_answer hweights (List.mem_filter.2 ⟨hf, beq_iff_eq.2 hname⟩)
      exact ⟨_, hcost⟩
    · exact ⟨0, hothers f hf hname⟩
  -- The sum falls into the balances and the rest, which drops out.
  have hnothing : ((g.factors.filter fun f => ¬ (f.name == "wrench") = true).map fun f =>
      answerOr 0 (f.cost vs)).sum = 0 := by
    refine List.sum_eq_zero (List.forall_mem_map.2 fun f hf => ?_)
    obtain ⟨hf, hname⟩ := List.mem_filter.1 hf
    rw [hothers f hf (by simpa using hname), answerOr]
  refine map_eq_ok.2 ⟨_, inParallel_eq_ok.2 (mapM_answerOr 0 hanswers), ?_⟩
  rw [Scalar.sum_eq, ← List.sum_map_filter_add_sum_map_filter_not (fun f => f.name == "wrench"),
    hnothing, add_zero, eq_map_answerOr 0 (List.forall₂_map_right_iff.2 hweights)]
  simp only [Bool.decide_eq_true]

end Costs

/-- **At rest a slice is solved up to the weights.** A slice with all groups and its values at rest
exist at every time that fits the keys. There all factors vanish but the balances of the moving
links, whose residuals are the weights in the frames of the links, without a moment. So the error is
what the weights cost, and without gravity there is none. -/
theorem Builder.rest_solves [Runtime ℝ] {b : Builder ℝ} {r : Robot ℝ} (hcheck : r.check = .ok ())
    (hrigid : r.IsRigid) (hall : ∀ group, group ∈ b.groups) (t : Nat) (gravity : Vec3 ℝ)
    (planar : Option (Vec3 ℝ)) :
    (t ≤ maxIndex → ∃ g vs, b.slice r t gravity planar = .ok g ∧ r.restSlice t = .ok vs) ∧
    ∀ g vs, b.slice r t gravity planar = .ok g → r.restSlice t = .ok vs →
      (∀ f ∈ g.factors, f.name ≠ "wrench" → f.Vanishes vs) ∧
      List.Forall₂ (fun l f => f.residual vs = .ok (SpatialVector.toList
          ⟨0, l.rest.rotation.matrix.transpose.apply (l.mass • gravity)⟩))
        r.movingLinks (g.factors.filter (·.name == "wrench")) ∧
      g.error vs = .ok (r.movingLinks.map fun l =>
        (l.mass * gravity.norm) ^ 2 / (2 * b.sigma .wrench ^ 2)).sum ∧
      (gravity = 0 → g.error vs = .ok 0) := by
  have hr := Robot.check_eq_ok_iff.1 hcheck
  refine ⟨fun ht => ?_, fun g vs h hvs => ?_⟩
  · obtain ⟨g, hg⟩ := (slice_needsKeys (b := b) hr gravity planar).succeeds ht
    obtain ⟨vs, hvs⟩ := (hr.restSlice_spec t).2.2 fun v hv => hr.fits ht hv
    exact ⟨g, vs, hg, hvs⟩
  have hreads := hr.restSlice_reads hvs
  have herror := slice_error hr hrigid hall h hvs
  refine ⟨slice_vanishes hr hrigid hall h hreads, ?_, herror, ?_⟩
  · refine (slice_balances hall h).imp fun l f hl => ?_
    rw [balanceFactor_residual hr hreads hl.1 hl.2, gravityWrench,
      Rotation.apply_eq_matrix (Rotation.IsUnit.inverse (hrigid.link_rest l hl.1)),
      Rotation.matrix_inverse]
  · rintro rfl
    have hsquare : (0 : Vec3 ℝ).normSq = 0 := by simp [Vec3.normSq, Vec3.dot, Vec3.zero_def]
    have hnorm : (0 : Vec3 ℝ).norm = 0 := (congrArg Real.sqrt hsquare).trans Real.sqrt_zero
    rw [herror, hnorm]
    refine congrArg _ (List.sum_eq_zero (List.forall_mem_map.2 fun l _ => ?_))
    rw [mul_zero, zero_pow two_ne_zero, zero_div]

/-- An arm under gravity, with a plane: its weight is the residual of its balance. -/
theorem Builder.rest_solves_twoLinkArm :
    let b : Builder ℝ := .ofSettings (Settings.default.setSigma .wrench 1)
    let r : Robot ℝ := .twoLinkArm
    let gravity : Vec3 ℝ := ⟨0, 0, -1⟩
    r.check = .ok () ∧ r.IsRigid ∧ (∀ group, group ∈ b.groups) ∧ ∃ g vs,
      b.slice r 0 gravity (some Vec3.unitX) = .ok g ∧ r.restSlice 0 = .ok vs ∧
      (∀ f ∈ g.factors, f.name ≠ "wrench" → f.Vanishes vs) ∧
      (∃ f, g.factors.filter (·.name == "wrench") = [f] ∧
        f.residual vs = .ok [0, 0, 0, 0, 0, -1]) ∧
      g.error vs = .ok (1 / 2) := by
  intro b r gravity
  have hr : r.check = .ok () := rfl
  have hall : ∀ group, group ∈ b.groups := fun group => by cases group <;> decide
  obtain ⟨hexists, hsolves⟩ :=
    rest_solves hr Robot.twoLinkArm_isRigid hall 0 gravity (some Vec3.unitX)
  obtain ⟨g, vs, hg, hvs⟩ := hexists (Nat.zero_le _)
  obtain ⟨hvanish, hweights, herror, -⟩ := hsolves g vs hg hvs
  refine ⟨hr, Robot.twoLinkArm_isRigid, hall, g, vs, hg, hvs, hvanish, ?_, ?_⟩
  · obtain ⟨f, fs, hf, hfs, heq⟩ := List.forall₂_cons_left_iff.1 hweights
    obtain rfl := List.forall₂_nil_left_iff.1 hfs
    refine ⟨f, heq, hf.trans (congrArg _ ?_)⟩
    simp [gravity, Robot.unitLink, Robot.placed, Pose.shift, Rotation.identity, Rotation.matrix,
      Mat3.transpose, Mat3.apply, SpatialVector.toList, Vec3.dot, Vec3.zero_def, Vec3.smul_def]
  · have hnorm : gravity.norm = 1 := (congrArg Real.sqrt (by
      simp [gravity, Vec3.normSq, Vec3.dot])).trans Real.sqrt_one
    rw [herror, hnorm]
    refine congrArg _ ?_
    show ((1 : ℝ) * 1) ^ 2 / (2 * 1 ^ 2) + 0 = 1 / 2
    norm_num

end Articulated
