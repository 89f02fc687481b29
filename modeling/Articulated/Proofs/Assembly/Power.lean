import Articulated.Proofs.Assembly.Kinematics
import Articulated.Proofs.Robot.Check
import Articulated.Proofs.Spatial.Algebra
import Articulated.Robot.Model
import Mathlib.Algebra.BigOperators.Group.List.Basic

/-!
# Energy balance of a slice

At an assignment where the twist factors and the dynamics factors of a time vanish, the power of
the inertial wrenches of the moving links is the power of the actuations plus that of gravity.
Numbers are exact here.

The balance of each moving link gives its part of the sum in terms of the wrenches of its joints.
Every joint stands at two different links, and there the powers of its wrenches add up to that of
its actuation. The twist of a fixed link vanishes, so that its missing balance is not missed.

* `Robot.inertialPower`, `Robot.actuationPower`, `Robot.gravityPower`: the three sums, read from
  an assignment.
* `link_balance`, `joint_reaction`, `joint_actuation`: what the dynamics factors of one link and of
  one joint say.
* `link_power`, `fixed_twist`, `joint_ends_power`: the powers that follow from it.
* `sum_ends`: a sum over links and their joints is a sum over joints and their two ends.
* `Builder.Swing`: an arm on a base at rest, whose factors vanish where it moves by its equations.
* `Builder.energy_balance`: the balance.
-/

namespace Articulated

/-! ## 1. Powers -/

section Powers

variable {α : Type} [Scalar α]

namespace Robot

/-- The power of the inertial wrench of a link: its twist times its inertia times its
acceleration. -/
def linkInertialPower (vs : Values α) (t : Nat) (l : Link α) : Except (Fault α) α := do
  let twist ← vs.vectorOf (.twist l.id t)
  let accel ← vs.vectorOf (.twistAccel l.id t)
  return twist.dot (l.spatialInertia.apply accel)

/-- The power of gravity on a link. -/
def linkGravityPower (vs : Values α) (t : Nat) (gravity : Vec3 α) (l : Link α) :
    Except (Fault α) α := do
  let twist ← vs.vectorOf (.twist l.id t)
  let pose ← vs.poseOf (.pose l.id t)
  return twist.dot (gravityWrench l.mass pose gravity)

/-- The power of the actuation of a joint. -/
def jointPower (vs : Values α) (t : Nat) (j : Joint α) : Except (Fault α) α := do
  let torque ← vs.scalarOf (.torque j.id t)
  let velocity ← vs.scalarOf (.jointVel j.id t)
  return torque * velocity

/-- The power of the inertial wrenches of all moving links. -/
def inertialPower (r : Robot α) (vs : Values α) (t : Nat) : Except (Fault α) α := do
  return Scalar.sum (← r.movingLinks.mapM (linkInertialPower vs t))

/-- The power of gravity on all moving links. -/
def gravityPower (r : Robot α) (vs : Values α) (t : Nat) (gravity : Vec3 α) :
    Except (Fault α) α := do
  return Scalar.sum (← r.movingLinks.mapM (linkGravityPower vs t gravity))

/-- The power of the actuations of all joints. -/
def actuationPower (r : Robot α) (vs : Values α) (t : Nat) : Except (Fault α) α := do
  return Scalar.sum (← r.joints.mapM (jointPower vs t))

end Robot

end Powers

/-! ## 2. What vanishing relations say -/

section Relations

variable {vs : Values ℝ}

theorem addWrenches_eq_ok : ∀ {ks : List Key} {start total : SpatialVector ℝ},
    Relation.addWrenches vs ks start = .ok total →
      ∃ ws, List.Forall₂ (fun k w => vs.vector6 k = .ok w) ks ws ∧
        ∀ v : SpatialVector ℝ, v.dot total = v.dot start + (ws.map v.dot).sum
  | [], start, total, h => by
    obtain rfl := pure_eq_ok.1 h
    exact ⟨[], .nil, fun v => by rw [List.map_nil, List.sum_nil, add_zero]⟩
  | k :: ks, start, total, h => by
    obtain ⟨w, hw, h⟩ := bind_eq_ok.1 h
    obtain ⟨ws, hws, hdot⟩ := addWrenches_eq_ok h
    refine ⟨w :: ws, .cons hw hws, fun v => ?_⟩
    rw [hdot, SpatialVector.dot_add, List.map_cons, List.sum_cons, add_assoc]

/-- The balance of a link, as the power of every virtual twist. -/
theorem wrenchBalance_vanishes {p v a : Key} {ws : List Key} {mass : ℝ}
    {inertia : SpatialMatrix ℝ} {gravity : Vec3 ℝ} {noise : Noise ℝ}
    (h : Factor.Vanishes ⟨.wrenchBalance p v a ws mass inertia gravity, noise⟩ vs) :
    ∃ pose twist accel wrenches, vs.pose p = .ok pose ∧ vs.vector6 v = .ok twist ∧
      vs.vector6 a = .ok accel ∧ List.Forall₂ (fun k w => vs.vector6 k = .ok w) ws wrenches ∧
      ∀ u : SpatialVector ℝ,
        u.dot (inertia.apply accel - twist.bracket.transpose.apply (inertia.apply twist)) =
          u.dot (gravityWrench mass pose gravity) + (wrenches.map u.dot).sum := by
  obtain ⟨rows, hrows, hzero⟩ := h
  obtain ⟨pose, hpose, hrows⟩ := bind_eq_ok.1 hrows
  obtain ⟨twist, htwist, hrows⟩ := bind_eq_ok.1 hrows
  obtain ⟨accel, haccel, hrows⟩ := bind_eq_ok.1 hrows
  obtain ⟨total, htotal, rfl⟩ := map_eq_ok.1 hrows
  obtain ⟨wrenches, hwrenches, hdot⟩ := addWrenches_eq_ok htotal
  refine ⟨pose, twist, accel, wrenches, hpose, htwist, haccel, hwrenches, fun u => ?_⟩
  have hbalance := hdot u
  rw [SpatialVector.toList_eq_zero_iff.1 hzero, SpatialVector.dot_zero, SpatialVector.dot_add,
    SpatialVector.dot_sub, SpatialMatrix.apply_mul] at hbalance
  rw [SpatialVector.dot_sub]
  linear_combination hbalance

/-- The wrenches of a joint are action and reaction. -/
theorem wrenchEquivalence_vanishes {p c q : Key} {frames : JointFrames ℝ} {noise : Noise ℝ}
    (h : Factor.Vanishes ⟨.wrenchEquivalence p c q frames, noise⟩ vs) :
    ∃ parent child angle, vs.vector6 p = .ok parent ∧ vs.vector6 c = .ok child ∧
      vs.scalar q = .ok angle ∧
      parent + (frames.parentInChild angle).adjoint.transpose.apply child = 0 := by
  obtain ⟨rows, hrows, hzero⟩ := h
  obtain ⟨parent, hparent, hrows⟩ := bind_eq_ok.1 hrows
  obtain ⟨child, hchild, hrows⟩ := bind_eq_ok.1 hrows
  obtain ⟨angle, hangle, rfl⟩ := map_eq_ok.1 hrows
  exact ⟨parent, child, angle, hparent, hchild, hangle, SpatialVector.toList_eq_zero_iff.1 hzero⟩

/-- The actuation is the part of the child wrench along the screw. -/
theorem torque_vanishes {w k : Key} {screw : SpatialVector ℝ} {noise : Noise ℝ}
    (h : Factor.Vanishes ⟨.torque w k screw, noise⟩ vs) :
    ∃ wrench torque, vs.vector6 w = .ok wrench ∧ vs.scalar k = .ok torque ∧
      screw.dot wrench = torque := by
  obtain ⟨rows, hrows, hzero⟩ := h
  obtain ⟨wrench, hwrench, hrows⟩ := bind_eq_ok.1 hrows
  obtain ⟨torque, htorque, rfl⟩ := map_eq_ok.1 hrows
  exact ⟨wrench, torque, hwrench, htorque,
    sub_eq_zero.1 (hzero _ (List.mem_singleton.2 rfl))⟩

end Relations

/-! ## 3. One link, one joint -/

section Parts

variable {b : Builder ℝ} {r : Robot ℝ} {t : Nat} {gravity : Vec3 ℝ} {planar : Option (Vec3 ℝ)}
  {twists dynamics : FactorGraph ℝ} {vs : Values ℝ}

/-- The twist of a link, or zero if it is not given. -/
noncomputable def twistAt (vs : Values ℝ) (t link : Nat) : SpatialVector ℝ :=
  answerOr 0 (vs.vectorOf (.twist link t))

/-- The wrench of a joint on a link, or zero if it is not given. -/
noncomputable def wrenchAt (vs : Values ℝ) (t link joint : Nat) : SpatialVector ℝ :=
  answerOr 0 (vs.vectorOf (.wrench link joint t))

theorem twistAt_eq {link : Nat} {x : SpatialVector ℝ} (h : vs.vectorOf (.twist link t) = .ok x) :
    twistAt vs t link = x := by
  rw [twistAt, h, answerOr]

theorem wrenchAt_eq {link joint : Nat} {x : SpatialVector ℝ}
    (h : vs.vectorOf (.wrench link joint t) = .ok x) : wrenchAt vs t link joint = x := by
  rw [wrenchAt, h, answerOr]

/-- The twist of a fixed link vanishes. -/
theorem fixed_twist [Runtime ℝ] (h : b.twistFactors r t = .ok twists)
    (hzero : ∀ f ∈ twists.factors, f.Vanishes vs) {l : Link ℝ} (hl : l ∈ r.fixedLinks) :
    twistAt vs t l.id = 0 := by
  have hold := (Builder.twistFactors_vanish_iff h).1 hzero
  exact twistAt_eq (hold.fixed l hl)

/-- What the balance of a moving link reads, and the power of every virtual twist there. -/
theorem link_balance [Runtime ℝ] (h : b.dynamicsFactors r t gravity planar = .ok dynamics)
    (hzero : ∀ f ∈ dynamics.factors, f.name = "wrench" → f.Vanishes vs) {l : Link ℝ}
    (hl : l ∈ r.movingLinks) :
    ∃ pose twist accel, vs.poseOf (.pose l.id t) = .ok pose ∧
      vs.vectorOf (.twist l.id t) = .ok twist ∧ vs.vectorOf (.twistAccel l.id t) = .ok accel ∧
      ∀ u : SpatialVector ℝ, u.dot (l.spatialInertia.apply accel -
          twist.bracket.transpose.apply (l.spatialInertia.apply twist)) =
        u.dot (gravityWrench l.mass pose gravity) +
          ((r.jointsAt l.id).map fun j => u.dot (wrenchAt vs t l.id j.id)).sum := by
  obtain ⟨links, hlinks, h⟩ := bind_eq_ok.1 h
  obtain ⟨joints, -, rfl⟩ := map_eq_ok.1 h
  obtain ⟨f, hf, hbuild⟩ := exists_answer (mapM_eq_ok.1 (inParallel_eq_ok.1 hlinks)) hl
  obtain ⟨keys, hkeys, hbuild⟩ := bind_eq_ok.1 hbuild
  obtain ⟨kp, hkp, hbuild⟩ := bind_eq_ok.1 hbuild
  obtain ⟨kv, hkv, hbuild⟩ := bind_eq_ok.1 hbuild
  obtain ⟨ka, hka, rfl⟩ := map_eq_ok.1 hbuild
  obtain ⟨pose, twist, accel, wrenches, hpose, htwist, haccel, hwrenches, hpower⟩ :=
    wrenchBalance_vanishes (hzero _ (List.mem_append_left _ hf) rfl)
  have hread : List.Forall₂ (fun j w => vs.vectorOf (.wrench l.id j.id t) = .ok w)
      (r.jointsAt l.id) wrenches := by
    refine forall₂_trans (fun j k w hk hw => ?_) (mapM_eq_ok.1 hkeys) hwrenches
    exact vectorOf_eq_ok hk hw
  refine ⟨pose, twist, accel, bind_eq_ok.2 ⟨kp, hkp, hpose⟩, vectorOf_eq_ok hkv htwist,
    vectorOf_eq_ok hka haccel, fun u => ?_⟩
  rw [hpower, eq_map_answerOr 0 hread, List.map_map]
  rfl

/-- The power of a moving link: inertia against gravity and the wrenches of its joints. -/
theorem link_power [Runtime ℝ] (h : b.dynamicsFactors r t gravity planar = .ok dynamics)
    (hzero : ∀ f ∈ dynamics.factors, f.Vanishes vs) {l : Link ℝ} (hl : l ∈ r.movingLinks) :
    ∃ inertial weight, Robot.linkInertialPower vs t l = .ok inertial ∧
      Robot.linkGravityPower vs t gravity l = .ok weight ∧
      inertial = weight +
        ((r.jointsAt l.id).map fun j => (twistAt vs t l.id).dot (wrenchAt vs t l.id j.id)).sum := by
  obtain ⟨pose, twist, accel, hpose, htwist, haccel, hpower⟩ :=
    link_balance h (fun f hf _ => hzero f hf) hl
  refine ⟨twist.dot (l.spatialInertia.apply accel), twist.dot (gravityWrench l.mass pose gravity),
    bind_eq_ok.2 ⟨twist, htwist, map_eq_ok.2 ⟨accel, haccel, rfl⟩⟩,
    bind_eq_ok.2 ⟨twist, htwist, map_eq_ok.2 ⟨pose, hpose, rfl⟩⟩, ?_⟩
  have hbalance := hpower twist
  rw [SpatialVector.dot_sub, SpatialVector.dot_bracket_transpose, sub_zero] at hbalance
  rw [hbalance, twistAt_eq htwist]

/-- The wrenches of a joint on both its links are action and reaction. -/
theorem joint_reaction [Runtime ℝ] (h : b.dynamicsFactors r t gravity planar = .ok dynamics)
    (hzero : ∀ f ∈ dynamics.factors, f.name = "wrench_equivalence" → f.Vanishes vs)
    {j : Joint ℝ} (hj : j ∈ r.joints) :
    ∃ frames parent child angle, r.frames j = .ok frames ∧
      vs.vectorOf (.wrench j.parent j.id t) = .ok parent ∧
      vs.vectorOf (.wrench j.child j.id t) = .ok child ∧
      vs.scalarOf (.jointAngle j.id t) = .ok angle ∧
      parent + (frames.parentInChild angle).adjoint.transpose.apply child = 0 := by
  obtain ⟨links, -, h⟩ := bind_eq_ok.1 h
  obtain ⟨relations, hrelations, rfl⟩ := map_eq_ok.1 h
  obtain ⟨frames, fs, hframes, hbuild, hfs⟩ := mem_perJoint hrelations hj
  obtain ⟨kp, hkp, hbuild⟩ := bind_eq_ok.1 hbuild
  obtain ⟨kc, hkc, hbuild⟩ := bind_eq_ok.1 hbuild
  obtain ⟨kq, hkq, hbuild⟩ := bind_eq_ok.1 hbuild
  obtain ⟨kt, -, rfl⟩ := map_eq_ok.1 hbuild
  obtain ⟨parent, child, angle, hparent, hchild, hangle, hwrench⟩ := wrenchEquivalence_vanishes
    (hzero _ (List.mem_append_right _ (hfs _ List.mem_cons_self)) rfl)
  exact ⟨frames, parent, child, angle, hframes, vectorOf_eq_ok hkp hparent,
    vectorOf_eq_ok hkc hchild, scalarOf_eq_ok hkq hangle, hwrench⟩

/-- The actuation of a joint is the part of its child wrench along its screw. -/
theorem joint_actuation [Runtime ℝ] (h : b.dynamicsFactors r t gravity planar = .ok dynamics)
    (hzero : ∀ f ∈ dynamics.factors, f.name = "torque" → f.Vanishes vs) {j : Joint ℝ}
    (hj : j ∈ r.joints) :
    ∃ frames wrench torque, r.frames j = .ok frames ∧
      vs.vectorOf (.wrench j.child j.id t) = .ok wrench ∧
      vs.scalarOf (.torque j.id t) = .ok torque ∧ frames.screwChild.dot wrench = torque := by
  obtain ⟨links, -, h⟩ := bind_eq_ok.1 h
  obtain ⟨relations, hrelations, rfl⟩ := map_eq_ok.1 h
  obtain ⟨frames, fs, hframes, hbuild, hfs⟩ := mem_perJoint hrelations hj
  obtain ⟨kp, -, hbuild⟩ := bind_eq_ok.1 hbuild
  obtain ⟨kc, hkc, hbuild⟩ := bind_eq_ok.1 hbuild
  obtain ⟨kq, -, hbuild⟩ := bind_eq_ok.1 hbuild
  obtain ⟨kt, hkt, rfl⟩ := map_eq_ok.1 hbuild
  obtain ⟨wrench, torque, hwrench, htorque, hscrew⟩ := torque_vanishes (hzero _
    (List.mem_append_right _ (hfs _ (List.mem_cons_of_mem _ List.mem_cons_self))) rfl)
  exact ⟨frames, wrench, torque, hframes, vectorOf_eq_ok hkc hwrench, scalarOf_eq_ok hkt htorque,
    hscrew⟩

/-- The power of a joint: that of its wrenches on both links. -/
theorem joint_ends_power [Runtime ℝ] (htwists : b.twistFactors r t = .ok twists)
    (hdynamics : b.dynamicsFactors r t gravity planar = .ok dynamics)
    (hzero : ∀ f ∈ twists.factors ++ dynamics.factors, f.Vanishes vs) {j : Joint ℝ}
    (hj : j ∈ r.joints) :
    Robot.jointPower vs t j = .ok
      ((twistAt vs t j.parent).dot (wrenchAt vs t j.parent j.id) +
        (twistAt vs t j.child).dot (wrenchAt vs t j.child j.id)) := by
  obtain ⟨frames, parent, child, angle, velocity, hframes, hparent, hchild, hangle, hvelocity,
    htwist⟩ := ((Builder.twistFactors_vanish_iff htwists).1 fun f hf =>
      hzero f (List.mem_append_left _ hf)).joint j hj
  have hdynamics_zero : ∀ f ∈ dynamics.factors, f.Vanishes vs :=
    fun f hf => hzero f (List.mem_append_right _ hf)
  obtain ⟨frames', parentWrench, childWrench, angle', hframes', hparentWrench, hchildWrench,
    hangle', hwrench⟩ := joint_reaction hdynamics (fun f hf _ => hdynamics_zero f hf) hj
  obtain ⟨frames'', childWrench', torque, hframes'', hchildWrench', htorque, hscrew⟩ :=
    joint_actuation hdynamics (fun f hf _ => hdynamics_zero f hf) hj
  obtain rfl : frames = frames' := answer_unique hframes hframes'
  obtain rfl : frames = frames'' := answer_unique hframes hframes''
  obtain rfl : angle = angle' := answer_unique hangle hangle'
  obtain rfl : childWrench = childWrench' := answer_unique hchildWrench hchildWrench'
  rw [twistAt_eq hparent, twistAt_eq hchild, wrenchAt_eq hparentWrench, wrenchAt_eq hchildWrench,
    joint_power htwist hwrench hscrew]
  exact bind_eq_ok.2 ⟨torque, htorque, map_eq_ok.2 ⟨velocity, hvelocity, rfl⟩⟩

end Parts

/-! ## 4. Both ends of every joint -/

section Ends

/-- In a sum over distinct ids, an id counts once. -/
theorem sum_single (h : Nat → ℝ) {ids : List Nat} {a : Nat} (hnodup : ids.Nodup) (ha : a ∈ ids) :
    (ids.map fun i => if i = a then h i else 0).sum = h a := by
  rw [List.sum_map_ite_eq ids h (fun _ => 0) a, List.count_eq_one_of_mem hnodup ha]
  simp

/-- **A sum over links and the joints at them is a sum over joints and their two ends.** -/
theorem sum_ends {links : List (Link ℝ)} (g : Nat → Joint ℝ → ℝ)
    (hnodup : (links.map (·.id)).Nodup) : ∀ {joints : List (Joint ℝ)},
    (∀ j ∈ joints, j.parent ≠ j.child ∧ j.parent ∈ links.map (·.id) ∧
      j.child ∈ links.map (·.id)) →
      (links.map fun l => ((joints.filter (·.touches l.id)).map (g l.id)).sum).sum =
        (joints.map fun j => g j.parent j + g j.child j).sum
  | [], _ => by simp
  | j :: joints, h => by
    obtain ⟨hne, hparent, hchild⟩ := h j List.mem_cons_self
    have ih := sum_ends g hnodup fun j' hj' => h j' (List.mem_cons_of_mem j hj')
    have hsplit : ∀ i, ((((j :: joints).filter (·.touches i)).map (g i)).sum : ℝ) =
        (if i = j.parent then g i j else 0) + (if i = j.child then g i j else 0) +
          ((joints.filter (·.touches i)).map (g i)).sum := by
      intro i
      by_cases hp : i = j.parent
      · have htouch : j.touches i = true := by simp [Joint.touches, hp]
        rw [List.filter_cons, if_pos htouch, List.map_cons, List.sum_cons, if_pos hp,
          if_neg (hp ▸ hne), add_zero]
      · by_cases hc : i = j.child
        · have htouch : j.touches i = true := by simp [Joint.touches, hc]
          rw [List.filter_cons, if_pos htouch, List.map_cons, List.sum_cons, if_neg hp, if_pos hc,
            zero_add]
        · have htouch : ¬ j.touches i = true := by
            simp [Joint.touches, Ne.symm hp, Ne.symm hc]
          rw [List.filter_cons, if_neg htouch, if_neg hp, if_neg hc, add_zero, zero_add]
    have hend : ∀ a ∈ links.map (·.id),
        (links.map fun l => if l.id = a then g l.id j else 0).sum = g a j := by
      intro a ha
      rw [← sum_single (fun i => g i j) hnodup ha, List.map_map]
      rfl
    simp only [hsplit]
    rw [List.sum_map_add, List.sum_map_add, hend _ hparent, hend _ hchild, ih, List.map_cons,
      List.sum_cons]

/-- Links that do not count may be left out of a sum. -/
theorem sum_filter {β : Type} (p : β → Bool) (f : β → ℝ) : ∀ {l : List β},
    (∀ x ∈ l, p x = false → f x = 0) → ((l.filter p).map f).sum = (l.map f).sum
  | [], _ => rfl
  | x :: l, h => by
    have ih := sum_filter p f fun y hy => h y (List.mem_cons_of_mem x hy)
    rw [List.filter_cons, List.map_cons, List.sum_cons, ← ih]
    cases hx : p x with
    | true => rw [if_pos rfl, List.map_cons, List.sum_cons]
    | false => rw [if_neg Bool.false_ne_true, h x List.mem_cons_self hx, zero_add]

end Ends

namespace Builder

/-! ## 5. An arm that swings -/

section Arm

/-- The quantities of the arm of `Robot.twoLinkArm` at time zero, with its base at rest. -/
structure Swing where
  pose : Pose ℝ
  twist : SpatialVector ℝ
  accel : SpatialVector ℝ
  wrench : SpatialVector ℝ
  reaction : SpatialVector ℝ
  angle : ℝ
  rate : ℝ
  torque : ℝ

noncomputable def armFrames : JointFrames ℝ :=
  .ofRest .revolute (Robot.placed 0 0 1) (Robot.placed 0 0 (1 + 1)) (Robot.placed 0 0 (1 + 1))
    Vec3.unitX

noncomputable def armInertia : SpatialMatrix ℝ := .ofInertia 1 Mat3.identity

noncomputable def armTwists : FactorGraph ℝ :=
  ⟨[.isotropic (.jointTwist (slot (.twist 0 0)) (slot (.twist 1 0)) (slot (.jointAngle 0 0))
      (slot (.jointVel 0 0)) armFrames) 6 ((ofSettings .default).sigma .twist),
    .prior (slot (.twist 0 0)) (.vector 0) ((ofSettings .default).sigma .twistPrior)]⟩

noncomputable def armDynamics (gravity : Vec3 ℝ) : FactorGraph ℝ :=
  ⟨[.isotropic (.wrenchBalance (slot (.pose 1 0)) (slot (.twist 1 0)) (slot (.twistAccel 1 0))
      [slot (.wrench 1 0 0)] 1 armInertia gravity) 6 ((ofSettings .default).sigma .wrench),
    .isotropic (.wrenchEquivalence (slot (.wrench 0 0 0)) (slot (.wrench 1 0 0))
      (slot (.jointAngle 0 0)) armFrames) 6 ((ofSettings .default).sigma .wrenchEquivalence),
    .isotropic (.torque (slot (.wrench 1 0 0)) (slot (.torque 0 0)) armFrames.screwChild) 1
      ((ofSettings .default).sigma .torque)]⟩

/-- The equations of motion of the arm. -/
structure Swing.Moves (s : Swing) (gravity : Vec3 ℝ) : Prop where
  twist_eq : (armFrames.parentInChild s.angle).adjoint.apply 0 + s.rate • armFrames.screwChild -
    s.twist = 0
  balance : gravityWrench 1 s.pose gravity - armInertia.apply s.accel +
    s.twist.bracket.transpose.apply (armInertia.apply s.twist) + s.wrench = 0
  reaction_eq : s.reaction +
    (armFrames.parentInChild s.angle).adjoint.transpose.apply s.wrench = 0
  torque_eq : armFrames.screwChild.dot s.wrench - s.torque = 0

noncomputable def Swing.values (s : Swing) : Values ℝ :=
  [(slot (.twist 0 0), .vector 0), (slot (.twist 1 0), .vector s.twist),
    (slot (.twistAccel 1 0), .vector s.accel), (slot (.pose 1 0), .pose s.pose),
    (slot (.jointAngle 0 0), .scalar s.angle), (slot (.jointVel 0 0), .scalar s.rate),
    (slot (.wrench 1 0 0), .vector s.wrench), (slot (.wrench 0 0 0), .vector s.reaction),
    (slot (.torque 0 0), .scalar s.torque)].foldl (fun vs e => vs.insert e.1 e.2) .empty

theorem Swing.get?_values (s : Swing) :
    s.values.get? (slot (.twist 0 0)) = some (.vector 0) ∧
    s.values.get? (slot (.twist 1 0)) = some (.vector s.twist) ∧
    s.values.get? (slot (.twistAccel 1 0)) = some (.vector s.accel) ∧
    s.values.get? (slot (.pose 1 0)) = some (.pose s.pose) ∧
    s.values.get? (slot (.jointAngle 0 0)) = some (.scalar s.angle) ∧
    s.values.get? (slot (.jointVel 0 0)) = some (.scalar s.rate) ∧
    s.values.get? (slot (.wrench 1 0 0)) = some (.vector s.wrench) ∧
    s.values.get? (slot (.wrench 0 0 0)) = some (.vector s.reaction) ∧
    s.values.get? (slot (.torque 0 0)) = some (.scalar s.torque) := by
  simp +decide only [Swing.values, List.foldl_cons, List.foldl_nil, Values.get?_insert, if_true,
    if_false, and_true]

/-- Where the arm moves by its equations, its factors vanish. -/
theorem Swing.Moves.factors_vanish {s : Swing} {gravity : Vec3 ℝ} (h : s.Moves gravity) :
    ∀ f ∈ armTwists.factors ++ (armDynamics gravity).factors, f.Vanishes s.values := by
  obtain ⟨hbase, htwist, haccel, hpose, hangle, hrate, hwrench, hreaction, htorque⟩ :=
    s.get?_values
  have hbase' := Values.vector6_eq_ok hbase
  have htwist' := Values.vector6_eq_ok htwist
  have hangle' := Values.scalar_eq_ok hangle
  have hwrench' := Values.vector6_eq_ok hwrench
  refine List.forall_mem_cons.2 ⟨⟨_, ?_, SpatialVector.toList_eq_zero_iff.2 h.twist_eq⟩, ?_⟩
  · exact bind_eq_ok.2 ⟨0, hbase', bind_eq_ok.2 ⟨s.twist, htwist', bind_eq_ok.2 ⟨s.angle, hangle',
      map_eq_ok.2 ⟨s.rate, Values.scalar_eq_ok hrate, rfl⟩⟩⟩⟩
  refine List.forall_mem_cons.2
    ⟨⟨_, ?_, SpatialVector.toList_eq_zero_iff.2 (SpatialVector.sub_self 0)⟩, ?_⟩
  · exact bind_eq_ok.2 ⟨.vector 0, Values.lookup_eq_ok.2 hbase, rfl⟩
  refine List.forall_mem_cons.2 ⟨⟨_, ?_, SpatialVector.toList_eq_zero_iff.2 h.balance⟩, ?_⟩
  · have htotal : Relation.addWrenches s.values [slot (.wrench 1 0 0)]
        (gravityWrench 1 s.pose gravity - armInertia.apply s.accel +
          (s.twist.bracket.transpose * armInertia).apply s.twist) =
        .ok (gravityWrench 1 s.pose gravity - armInertia.apply s.accel +
          s.twist.bracket.transpose.apply (armInertia.apply s.twist) + s.wrench) := by
      rw [SpatialMatrix.apply_mul]
      exact bind_eq_ok.2 ⟨s.wrench, hwrench', rfl⟩
    exact bind_eq_ok.2 ⟨s.pose, Values.pose_eq_ok hpose, bind_eq_ok.2 ⟨s.twist, htwist',
      bind_eq_ok.2 ⟨s.accel, Values.vector6_eq_ok haccel, map_eq_ok.2 ⟨_, htotal, rfl⟩⟩⟩⟩
  refine List.forall_mem_cons.2 ⟨⟨_, ?_, SpatialVector.toList_eq_zero_iff.2 h.reaction_eq⟩, ?_⟩
  · exact bind_eq_ok.2 ⟨s.reaction, Values.vector6_eq_ok hreaction,
      bind_eq_ok.2 ⟨s.wrench, hwrench', map_eq_ok.2 ⟨s.angle, hangle', rfl⟩⟩⟩
  refine List.forall_mem_singleton.2 ⟨_, ?_, List.forall_mem_singleton.2 h.torque_eq⟩
  exact bind_eq_ok.2 ⟨s.wrench, hwrench',
    map_eq_ok.2 ⟨s.torque, Values.scalar_eq_ok htorque, rfl⟩⟩

/-- The wrench on the arm without that of its joint. -/
noncomputable def swingFree : SpatialVector ℝ :=
  let twist := (armFrames.parentInChild 0).adjoint.apply 0 + (1 : ℝ) • armFrames.screwChild
  gravityWrench 1 (Robot.placed 0 0 (1 + 1)) ⟨0, 0, -1⟩ - armInertia.apply armFrames.screwChild +
    twist.bracket.transpose.apply (armInertia.apply twist)

/-- The arm at angle zero and rate one, under downward gravity. -/
noncomputable def swing : Swing where
  pose := Robot.placed 0 0 (1 + 1)
  twist := (armFrames.parentInChild 0).adjoint.apply 0 + (1 : ℝ) • armFrames.screwChild
  accel := armFrames.screwChild
  wrench := 0 - swingFree
  reaction := 0 - (armFrames.parentInChild 0).adjoint.transpose.apply (0 - swingFree)
  angle := 0
  rate := 1
  torque := armFrames.screwChild.dot (0 - swingFree)

theorem arm_twistFactors :
    (ofSettings .default).twistFactors Robot.twoLinkArm 0 = .ok armTwists := rfl

theorem arm_dynamicsFactors (gravity : Vec3 ℝ) :
    (ofSettings .default).dynamicsFactors Robot.twoLinkArm 0 gravity none =
      .ok (armDynamics gravity) := rfl

theorem swing_moves : swing.Moves ⟨0, 0, -1⟩ where
  twist_eq := SpatialVector.sub_self _
  balance := SpatialVector.add_zero_sub _
  reaction_eq := SpatialVector.zero_sub_add _
  torque_eq := sub_self _

end Arm

/-! ## 6. The balance -/

/-- **At vanishing twist and dynamics factors, the power of the inertial wrenches is that of the
actuations plus that of gravity.** -/
theorem energy_balance [Runtime ℝ] {b : Builder ℝ} {r : Robot ℝ} {t : Nat} {gravity : Vec3 ℝ}
    {planar : Option (Vec3 ℝ)} {twists dynamics : FactorGraph ℝ} {vs : Values ℝ}
    (hcheck : r.check = .ok ()) (htwists : b.twistFactors r t = .ok twists)
    (hdynamics : b.dynamicsFactors r t gravity planar = .ok dynamics)
    (hzero : ∀ f ∈ twists.factors ++ dynamics.factors, f.Vanishes vs) :
    ∃ inertial actuation weight, r.inertialPower vs t = .ok inertial ∧
      r.actuationPower vs t = .ok actuation ∧ r.gravityPower vs t gravity = .ok weight ∧
      inertial = actuation + weight := by
  have hvalid := Robot.check_eq_ok_iff.1 hcheck
  let power : Nat → Joint ℝ → ℝ := fun i j => (twistAt vs t i).dot (wrenchAt vs t i j.id)
  have hlink : ∀ l ∈ r.movingLinks, ∃ inertial weight,
      Robot.linkInertialPower vs t l = .ok inertial ∧
      Robot.linkGravityPower vs t gravity l = .ok weight ∧
      inertial = weight + ((r.jointsAt l.id).map (power l.id)).sum :=
    fun l hl => link_power hdynamics (fun f hf => hzero f (List.mem_append_right _ hf)) hl
  have hjoint : ∀ j ∈ r.joints,
      Robot.jointPower vs t j = .ok (power j.parent j + power j.child j) :=
    fun j hj => joint_ends_power htwists hdynamics hzero hj
  have hfixed : ∀ l ∈ r.fixedLinks, ((r.jointsAt l.id).map (power l.id)).sum = 0 := by
    intro l hl
    have htwist := fixed_twist htwists (fun f hf => hzero f (List.mem_append_left _ hf)) hl
    refine List.sum_eq_zero fun x hx => ?_
    obtain ⟨j, -, rfl⟩ := List.mem_map.1 hx
    show (twistAt vs t l.id).dot _ = 0
    rw [htwist, SpatialVector.dot_comm, SpatialVector.dot_zero]
  have hinertial : ∀ l ∈ r.movingLinks, Robot.linkInertialPower vs t l =
      .ok (answerOr 0 (Robot.linkInertialPower vs t l)) := by
    intro l hl
    obtain ⟨inertial, -, h, -⟩ := hlink l hl
    rw [h, answerOr]
  have hweight : ∀ l ∈ r.movingLinks, Robot.linkGravityPower vs t gravity l =
      .ok (answerOr 0 (Robot.linkGravityPower vs t gravity l)) := by
    intro l hl
    obtain ⟨-, weight, -, h, -⟩ := hlink l hl
    rw [h, answerOr]
  refine ⟨_, _, _, map_eq_ok.2 ⟨_, mapM_eq_map hinertial, rfl⟩,
    map_eq_ok.2 ⟨_, mapM_eq_map hjoint, rfl⟩, map_eq_ok.2 ⟨_, mapM_eq_map hweight, rfl⟩, ?_⟩
  rw [Scalar.sum_eq, Scalar.sum_eq, Scalar.sum_eq]
  calc (r.movingLinks.map fun l => answerOr 0 (Robot.linkInertialPower vs t l)).sum
      = (r.movingLinks.map fun l => ((r.jointsAt l.id).map (power l.id)).sum +
          answerOr 0 (Robot.linkGravityPower vs t gravity l)).sum := by
        refine congrArg List.sum (List.map_congr_left fun l hl => ?_)
        obtain ⟨inertial, weight, hi, hw, heq⟩ := hlink l hl
        rw [hi, hw, answerOr, answerOr, heq, add_comm]
    _ = (r.movingLinks.map fun l => ((r.jointsAt l.id).map (power l.id)).sum).sum +
          (r.movingLinks.map fun l => answerOr 0 (Robot.linkGravityPower vs t gravity l)).sum :=
        List.sum_map_add
    _ = (r.links.map fun l => ((r.jointsAt l.id).map (power l.id)).sum).sum + _ := by
        refine congrArg (· + _) (sum_filter _ _ fun l hl hmoving => hfixed l ?_)
        exact List.mem_filter.2 ⟨hl, by simpa using hmoving⟩
    _ = (r.joints.map fun j => power j.parent j + power j.child j).sum + _ := by
        refine congrArg (· + _) (sum_ends power hvalid.links_nodup fun j hj => ?_)
        exact ⟨hvalid.ends_ne j hj, hvalid.parent_mem j hj, hvalid.child_mem j hj⟩

theorem energy_balance_swing :
    (Robot.twoLinkArm : Robot ℝ).check = .ok () ∧
    (ofSettings .default).twistFactors Robot.twoLinkArm 0 = .ok armTwists ∧
    (ofSettings .default).dynamicsFactors Robot.twoLinkArm 0 ⟨0, 0, -1⟩ none =
      .ok (armDynamics ⟨0, 0, -1⟩) ∧
    (∀ f ∈ armTwists.factors ++ (armDynamics ⟨0, 0, -1⟩).factors, f.Vanishes swing.values) ∧
    ∃ inertial actuation weight, Robot.twoLinkArm.inertialPower swing.values 0 = .ok inertial ∧
      Robot.twoLinkArm.actuationPower swing.values 0 = .ok actuation ∧
      Robot.twoLinkArm.gravityPower swing.values 0 ⟨0, 0, -1⟩ = .ok weight ∧
      inertial = actuation + weight :=
  ⟨rfl, arm_twistFactors, arm_dynamicsFactors _, swing_moves.factors_vanish,
    energy_balance rfl arm_twistFactors (arm_dynamicsFactors _) swing_moves.factors_vanish⟩

end Builder

end Articulated
