import Articulated.Proofs.Assembly.Members
import Articulated.Proofs.Spatial.Duality
import Articulated.Proofs.Values.Reading

/-!
# The kinematic equations of a slice

Whether the factors of the poses, twists or accelerations of a time vanish at an assignment is said
in terms of the quantities of links and joints: every joint relates its two links, and the fixed
links have given values. Numbers are exact here.

* `Values.poseOf`, `Values.vectorOf`, `Values.scalarOf`: quantities read from an assignment.
* `Factor.Vanishes`: a residual that is zero.
* `jointPose_vanishes_iff`, `jointTwist_vanishes_iff`, `jointTwistAccel_vanishes_iff`,
  `posePrior_vanishes_iff`, `zeroPrior_vanishes_iff`: single relations.
* `Values.PosesHold`, `Values.TwistsHold`, `Values.AccelsHold`: the equations.
* `Builder.poseFactors_vanish_iff`, `Builder.twistFactors_vanish_iff`,
  `Builder.accelFactors_vanish_iff`: all factors of a group vanish exactly if its equations hold.
-/

namespace Articulated

/-! ## 1. Quantities and residuals -/

section Quantities

variable {α : Type} [Scalar α]

/-- The value of a quantity that is a spatial vector. -/
def Values.vectorOf (vs : Values α) (v : Variable) : Except (Fault α) (SpatialVector α) := do
  vs.vector6 (← v.key)

/-- The value of a quantity that is a scalar. -/
def Values.scalarOf (vs : Values α) (v : Variable) : Except (Fault α) α := do
  vs.scalar (← v.key)

/-- The value of a quantity that is a pose. -/
def Values.poseOf (vs : Values α) (v : Variable) : Except (Fault α) (Pose α) := do
  vs.pose (← v.key)

/-- The key of a variable, if it has one. -/
def Builder.slot (v : Variable) : Key := v.key?.getD ⟨0⟩

/-- The residual of the factor evaluates and is zero. -/
def Factor.Vanishes (f : Factor α) (vs : Values α) : Prop :=
  ∃ rows, f.residual vs = .ok rows ∧ ∀ x ∈ rows, x = 0

end Quantities

section Reading

variable {vs : Values ℝ} {v : Variable} {k : Key}

theorem vectorOf_eq_ok {x : SpatialVector ℝ} (hk : v.key (α := ℝ) = .ok k)
    (hx : vs.vector6 k = .ok x) : vs.vectorOf v = .ok x := bind_eq_ok.2 ⟨k, hk, hx⟩

theorem scalarOf_eq_ok {x : ℝ} (hk : v.key (α := ℝ) = .ok k) (hx : vs.scalar k = .ok x) :
    vs.scalarOf v = .ok x := bind_eq_ok.2 ⟨k, hk, hx⟩

theorem poseOf_eq_ok {x : Pose ℝ} (hk : v.key (α := ℝ) = .ok k) (hx : vs.pose k = .ok x) :
    vs.poseOf v = .ok x := bind_eq_ok.2 ⟨k, hk, hx⟩

end Reading

/-! ## 2. Relations -/

section Relations

variable {vs : Values ℝ} {k p c q v a : Key} {frames : JointFrames ℝ} {noise : Noise ℝ}

/-- The child pose is the parent pose moved through the joint. -/
theorem jointPose_vanishes_iff : Factor.Vanishes ⟨.jointPose p c q frames, noise⟩ vs ↔
    ∃ parent child angle, vs.pose p = .ok parent ∧ vs.pose c = .ok child ∧
      vs.scalar q = .ok angle ∧ child.localTo (parent * frames.childInParent angle) = 0 := by
  constructor
  · intro h
    obtain ⟨rows, hrows, hzero⟩ := h
    obtain ⟨parent, hparent, hrows⟩ := bind_eq_ok.1 hrows
    obtain ⟨child, hchild, hrows⟩ := bind_eq_ok.1 hrows
    obtain ⟨angle, hangle, rfl⟩ := map_eq_ok.1 hrows
    exact ⟨parent, child, angle, hparent, hchild, hangle,
      SpatialVector.toList_eq_zero_iff.1 hzero⟩
  · intro h
    obtain ⟨parent, child, angle, hparent, hchild, hangle, hlocal⟩ := h
    refine ⟨_, ?_, SpatialVector.toList_eq_zero_iff.2 hlocal⟩
    exact bind_eq_ok.2 ⟨parent, hparent, bind_eq_ok.2 ⟨child, hchild,
      map_eq_ok.2 ⟨angle, hangle, rfl⟩⟩⟩

/-- The child twist is the parent twist carried over, plus the motion of the joint. -/
theorem jointTwist_vanishes_iff : Factor.Vanishes ⟨.jointTwist p c q v frames, noise⟩ vs ↔
    ∃ parent child angle velocity, vs.vector6 p = .ok parent ∧ vs.vector6 c = .ok child ∧
      vs.scalar q = .ok angle ∧ vs.scalar v = .ok velocity ∧
      (frames.parentInChild angle).adjoint.apply parent + velocity • frames.screwChild =
        child := by
  constructor
  · intro h
    obtain ⟨rows, hrows, hzero⟩ := h
    obtain ⟨parent, hparent, hrows⟩ := bind_eq_ok.1 hrows
    obtain ⟨child, hchild, hrows⟩ := bind_eq_ok.1 hrows
    obtain ⟨angle, hangle, hrows⟩ := bind_eq_ok.1 hrows
    obtain ⟨velocity, hvelocity, rfl⟩ := map_eq_ok.1 hrows
    exact ⟨parent, child, angle, velocity, hparent, hchild, hangle, hvelocity,
      SpatialVector.sub_eq_zero_iff.1 (SpatialVector.toList_eq_zero_iff.1 hzero)⟩
  · intro h
    obtain ⟨parent, child, angle, velocity, hparent, hchild, hangle, hvelocity, htwist⟩ := h
    refine ⟨_, ?_, SpatialVector.toList_eq_zero_iff.2 (SpatialVector.sub_eq_zero_iff.2 htwist)⟩
    exact bind_eq_ok.2 ⟨parent, hparent, bind_eq_ok.2 ⟨child, hchild, bind_eq_ok.2 ⟨angle, hangle,
      map_eq_ok.2 ⟨velocity, hvelocity, rfl⟩⟩⟩⟩

/-- The child acceleration is the parent acceleration carried over, plus the rates of the motion of
the joint. -/
theorem jointTwistAccel_vanishes_iff {w : Key} :
    Factor.Vanishes ⟨.jointTwistAccel w p c q v a frames, noise⟩ vs ↔
    ∃ twist parent child angle velocity accel, vs.vector6 w = .ok twist ∧
      vs.vector6 p = .ok parent ∧ vs.vector6 c = .ok child ∧ vs.scalar q = .ok angle ∧
      vs.scalar v = .ok velocity ∧ vs.scalar a = .ok accel ∧
      (frames.parentInChild angle).adjoint.apply parent +
        velocity • twist.bracket.apply frames.screwChild + accel • frames.screwChild =
          child := by
  constructor
  · intro h
    obtain ⟨rows, hrows, hzero⟩ := h
    obtain ⟨twist, htwist, hrows⟩ := bind_eq_ok.1 hrows
    obtain ⟨parent, hparent, hrows⟩ := bind_eq_ok.1 hrows
    obtain ⟨child, hchild, hrows⟩ := bind_eq_ok.1 hrows
    obtain ⟨angle, hangle, hrows⟩ := bind_eq_ok.1 hrows
    obtain ⟨velocity, hvelocity, hrows⟩ := bind_eq_ok.1 hrows
    obtain ⟨accel, haccel, rfl⟩ := map_eq_ok.1 hrows
    exact ⟨twist, parent, child, angle, velocity, accel, htwist, hparent, hchild, hangle,
      hvelocity, haccel,
      SpatialVector.sub_eq_zero_iff.1 (SpatialVector.toList_eq_zero_iff.1 hzero)⟩
  · intro h
    obtain ⟨twist, parent, child, angle, velocity, accel, htwist, hparent, hchild, hangle,
      hvelocity, haccel, heq⟩ := h
    refine ⟨_, ?_, SpatialVector.toList_eq_zero_iff.2 (SpatialVector.sub_eq_zero_iff.2 heq)⟩
    exact bind_eq_ok.2 ⟨twist, htwist, bind_eq_ok.2 ⟨parent, hparent, bind_eq_ok.2 ⟨child, hchild,
      bind_eq_ok.2 ⟨angle, hangle, bind_eq_ok.2 ⟨velocity, hvelocity,
        map_eq_ok.2 ⟨accel, haccel, rfl⟩⟩⟩⟩⟩⟩

/-- A pose that is given is not different from the given one. -/
theorem posePrior_vanishes_iff {rest : Pose ℝ} :
    Factor.Vanishes ⟨.prior k (.pose rest), noise⟩ vs ↔
      ∃ pose, vs.pose k = .ok pose ∧ rest.localTo pose = 0 := by
  constructor
  · intro h
    obtain ⟨rows, hrows, hzero⟩ := h
    obtain ⟨value, hvalue, hrows⟩ := bind_eq_ok.1 hrows
    cases value with
    | scalar x => cases hrows
    | vector v => cases hrows
    | pose pose =>
      obtain rfl := Except.ok.inj hrows
      exact ⟨pose, bind_eq_ok.2 ⟨.pose pose, hvalue, rfl⟩,
        SpatialVector.toList_eq_zero_iff.1 hzero⟩
  · intro h
    obtain ⟨pose, hpose, hlocal⟩ := h
    exact ⟨_, bind_eq_ok.2 ⟨.pose pose, Values.lookup_of_pose hpose, rfl⟩,
      SpatialVector.toList_eq_zero_iff.2 hlocal⟩

/-- A vector that is given as zero is zero. -/
theorem zeroPrior_vanishes_iff :
    Factor.Vanishes ⟨.prior k (.vector 0), noise⟩ vs ↔ vs.vector6 k = .ok 0 := by
  constructor
  · intro h
    obtain ⟨rows, hrows, hzero⟩ := h
    obtain ⟨value, hvalue, hrows⟩ := bind_eq_ok.1 hrows
    cases value with
    | scalar x => cases hrows
    | pose p => cases hrows
    | vector v =>
      obtain rfl := Except.ok.inj hrows
      have hv : v = 0 := SpatialVector.sub_eq_zero_iff.1 (SpatialVector.toList_eq_zero_iff.1 hzero)
      exact bind_eq_ok.2 ⟨.vector v, hvalue, congrArg _ hv⟩
  · intro hzero
    exact ⟨_, bind_eq_ok.2 ⟨.vector 0, Values.lookup_of_vector6 hzero, rfl⟩,
      SpatialVector.toList_eq_zero_iff.2 (SpatialVector.sub_self 0)⟩

end Relations

/-! ## 3. Equations -/

section Equations

variable (vs : Values ℝ) (r : Robot ℝ) (t : Nat)

/-- The child pose of every joint is the parent pose moved through the joint, and fixed links stand
at their rest poses. -/
structure Values.PosesHold : Prop where
  joint : ∀ j ∈ r.joints, ∃ frames parent child angle, r.frames j = .ok frames ∧
    vs.poseOf (.pose j.parent t) = .ok parent ∧ vs.poseOf (.pose j.child t) = .ok child ∧
    vs.scalarOf (.jointAngle j.id t) = .ok angle ∧
    child.localTo (parent * frames.childInParent angle) = 0
  fixed : ∀ l ∈ r.fixedLinks, ∃ pose, vs.poseOf (.pose l.id t) = .ok pose ∧
    l.rest.localTo pose = 0

/-- The child twist of every joint is the parent twist carried over, plus the motion of the joint,
and fixed links are at rest. -/
structure Values.TwistsHold : Prop where
  joint : ∀ j ∈ r.joints, ∃ frames parent child angle velocity, r.frames j = .ok frames ∧
    vs.vectorOf (.twist j.parent t) = .ok parent ∧ vs.vectorOf (.twist j.child t) = .ok child ∧
    vs.scalarOf (.jointAngle j.id t) = .ok angle ∧
    vs.scalarOf (.jointVel j.id t) = .ok velocity ∧
    (frames.parentInChild angle).adjoint.apply parent + velocity • frames.screwChild = child
  fixed : ∀ l ∈ r.fixedLinks, vs.vectorOf (.twist l.id t) = .ok 0

/-- The child acceleration of every joint is the parent acceleration carried over, plus the rates
of the motion of the joint, and fixed links are not accelerated. -/
structure Values.AccelsHold : Prop where
  joint : ∀ j ∈ r.joints, ∃ frames twist parent child angle velocity accel,
    r.frames j = .ok frames ∧ vs.vectorOf (.twist j.child t) = .ok twist ∧
    vs.vectorOf (.twistAccel j.parent t) = .ok parent ∧
    vs.vectorOf (.twistAccel j.child t) = .ok child ∧
    vs.scalarOf (.jointAngle j.id t) = .ok angle ∧
    vs.scalarOf (.jointVel j.id t) = .ok velocity ∧
    vs.scalarOf (.jointAccel j.id t) = .ok accel ∧
    (frames.parentInChild angle).adjoint.apply parent +
      velocity • twist.bracket.apply frames.screwChild + accel • frames.screwChild = child
  fixed : ∀ l ∈ r.fixedLinks, vs.vectorOf (.twistAccel l.id t) = .ok 0

end Equations

/-! ## 4. Groups of factors -/

namespace Builder

variable {b : Builder ℝ} {r : Robot ℝ} {t : Nat} {g : FactorGraph ℝ} {vs : Values ℝ}

/-- What holds of all factors of a group holds of those of every joint and of every fixed link. -/
theorem forall_parts_iff [Runtime ℝ] {P : Factor ℝ → Prop}
    {ofJoint : Joint ℝ → JointFrames ℝ → Except (Fault ℝ) (List (Factor ℝ))}
    {ofFixed : Link ℝ → Except (Fault ℝ) (Factor ℝ)}
    (h : (do
      let joints ← perJoint r ofJoint
      let fixed ← perFixedLink r ofFixed
      return joints ++ fixed) = .ok g) :
    (∀ f ∈ g.factors, P f) ↔
      (∀ j ∈ r.joints, ∃ frames fs, r.frames j = .ok frames ∧ ofJoint j frames = .ok fs ∧
        ∀ f ∈ fs, P f) ∧
      ∀ l ∈ r.fixedLinks, ∃ f, ofFixed l = .ok f ∧ P f := by
  obtain ⟨joints, hjoints, h⟩ := bind_eq_ok.1 h
  obtain ⟨fixed, hfixed, rfl⟩ := map_eq_ok.1 h
  rw [← forall_perJoint_iff hjoints, ← forall_perFixedLink_iff hfixed]
  exact List.forall_mem_append

/-- **The factors of the poses vanish exactly if the poses hold.** -/
theorem poseFactors_vanish_iff [Runtime ℝ] (h : b.poseFactors r t = .ok g) :
    (∀ f ∈ g.factors, f.Vanishes vs) ↔ vs.PosesHold r t := by
  rw [forall_parts_iff h]
  constructor
  · intro hparts
    refine ⟨fun j hj => ?_, fun l hl => ?_⟩
    · obtain ⟨frames, fs, hframes, hbuild, hzero⟩ := hparts.1 j hj
      obtain ⟨kp, hkp, hbuild⟩ := bind_eq_ok.1 hbuild
      obtain ⟨kc, hkc, hbuild⟩ := bind_eq_ok.1 hbuild
      obtain ⟨kq, hkq, rfl⟩ := map_eq_ok.1 hbuild
      obtain ⟨parent, child, angle, hparent, hchild, hangle, hlocal⟩ :=
        jointPose_vanishes_iff.1 (hzero _ List.mem_cons_self)
      exact ⟨frames, parent, child, angle, hframes, poseOf_eq_ok hkp hparent,
        poseOf_eq_ok hkc hchild, scalarOf_eq_ok hkq hangle, hlocal⟩
    · obtain ⟨f, hbuild, hzero⟩ := hparts.2 l hl
      obtain ⟨k, hk, rfl⟩ := map_eq_ok.1 hbuild
      obtain ⟨pose, hpose, hlocal⟩ := posePrior_vanishes_iff.1 hzero
      exact ⟨pose, poseOf_eq_ok hk hpose, hlocal⟩
  · intro hold
    refine ⟨fun j hj => ?_, fun l hl => ?_⟩
    · obtain ⟨frames, parent, child, angle, hframes, hparent, hchild, hangle, hlocal⟩ :=
        hold.joint j hj
      obtain ⟨kp, hkp, hparent⟩ := bind_eq_ok.1 hparent
      obtain ⟨kc, hkc, hchild⟩ := bind_eq_ok.1 hchild
      obtain ⟨kq, hkq, hangle⟩ := bind_eq_ok.1 hangle
      refine ⟨frames, _, hframes, bind_eq_ok.2 ⟨kp, hkp, bind_eq_ok.2 ⟨kc, hkc,
        map_eq_ok.2 ⟨kq, hkq, rfl⟩⟩⟩, List.forall_mem_singleton.2 ?_⟩
      exact jointPose_vanishes_iff.2 ⟨parent, child, angle, hparent, hchild, hangle, hlocal⟩
    · obtain ⟨pose, hpose, hlocal⟩ := hold.fixed l hl
      obtain ⟨k, hk, hpose⟩ := bind_eq_ok.1 hpose
      exact ⟨_, map_eq_ok.2 ⟨k, hk, rfl⟩, posePrior_vanishes_iff.2 ⟨pose, hpose, hlocal⟩⟩

/-- A quantity that is given as zero. -/
theorem zeroPrior_iff {v : Variable} {sigma : ℝ} :
    (∃ f, (do return Factor.prior (← v.key) (.vector 0) sigma) = Except.ok (ε := Fault ℝ) f ∧
      f.Vanishes vs) ↔ vs.vectorOf v = .ok 0 := by
  constructor
  · intro h
    obtain ⟨f, hbuild, hzero⟩ := h
    obtain ⟨k, hk, rfl⟩ := map_eq_ok.1 hbuild
    exact vectorOf_eq_ok hk (zeroPrior_vanishes_iff.1 hzero)
  · intro h
    obtain ⟨k, hk, hzero⟩ := bind_eq_ok.1 h
    exact ⟨_, map_eq_ok.2 ⟨k, hk, rfl⟩, zeroPrior_vanishes_iff.2 hzero⟩

/-- **The factors of the twists vanish exactly if the twists hold.** -/
theorem twistFactors_vanish_iff [Runtime ℝ] (h : b.twistFactors r t = .ok g) :
    (∀ f ∈ g.factors, f.Vanishes vs) ↔ vs.TwistsHold r t := by
  rw [forall_parts_iff h]
  constructor
  · intro hparts
    refine ⟨fun j hj => ?_, fun l hl => zeroPrior_iff.1 (hparts.2 l hl)⟩
    obtain ⟨frames, fs, hframes, hbuild, hzero⟩ := hparts.1 j hj
    obtain ⟨kp, hkp, hbuild⟩ := bind_eq_ok.1 hbuild
    obtain ⟨kc, hkc, hbuild⟩ := bind_eq_ok.1 hbuild
    obtain ⟨kq, hkq, hbuild⟩ := bind_eq_ok.1 hbuild
    obtain ⟨kv, hkv, rfl⟩ := map_eq_ok.1 hbuild
    obtain ⟨parent, child, angle, velocity, hparent, hchild, hangle, hvelocity, htwist⟩ :=
      jointTwist_vanishes_iff.1 (hzero _ List.mem_cons_self)
    exact ⟨frames, parent, child, angle, velocity, hframes, vectorOf_eq_ok hkp hparent,
      vectorOf_eq_ok hkc hchild, scalarOf_eq_ok hkq hangle, scalarOf_eq_ok hkv hvelocity, htwist⟩
  · intro hold
    refine ⟨fun j hj => ?_, fun l hl => zeroPrior_iff.2 (hold.fixed l hl)⟩
    obtain ⟨frames, parent, child, angle, velocity, hframes, hparent, hchild, hangle, hvelocity,
      htwist⟩ := hold.joint j hj
    obtain ⟨kp, hkp, hparent⟩ := bind_eq_ok.1 hparent
    obtain ⟨kc, hkc, hchild⟩ := bind_eq_ok.1 hchild
    obtain ⟨kq, hkq, hangle⟩ := bind_eq_ok.1 hangle
    obtain ⟨kv, hkv, hvelocity⟩ := bind_eq_ok.1 hvelocity
    refine ⟨frames, _, hframes, bind_eq_ok.2 ⟨kp, hkp, bind_eq_ok.2 ⟨kc, hkc,
      bind_eq_ok.2 ⟨kq, hkq, map_eq_ok.2 ⟨kv, hkv, rfl⟩⟩⟩⟩, List.forall_mem_singleton.2 ?_⟩
    exact jointTwist_vanishes_iff.2
      ⟨parent, child, angle, velocity, hparent, hchild, hangle, hvelocity, htwist⟩

/-- **The factors of the accelerations vanish exactly if the accelerations hold.** -/
theorem accelFactors_vanish_iff [Runtime ℝ] (h : b.accelFactors r t = .ok g) :
    (∀ f ∈ g.factors, f.Vanishes vs) ↔ vs.AccelsHold r t := by
  rw [forall_parts_iff h]
  constructor
  · intro hparts
    refine ⟨fun j hj => ?_, fun l hl => zeroPrior_iff.1 (hparts.2 l hl)⟩
    obtain ⟨frames, fs, hframes, hbuild, hzero⟩ := hparts.1 j hj
    obtain ⟨kw, hkw, hbuild⟩ := bind_eq_ok.1 hbuild
    obtain ⟨kp, hkp, hbuild⟩ := bind_eq_ok.1 hbuild
    obtain ⟨kc, hkc, hbuild⟩ := bind_eq_ok.1 hbuild
    obtain ⟨kq, hkq, hbuild⟩ := bind_eq_ok.1 hbuild
    obtain ⟨kv, hkv, hbuild⟩ := bind_eq_ok.1 hbuild
    obtain ⟨ka, hka, rfl⟩ := map_eq_ok.1 hbuild
    obtain ⟨twist, parent, child, angle, velocity, accel, htwist, hparent, hchild, hangle,
      hvelocity, haccel, heq⟩ := jointTwistAccel_vanishes_iff.1 (hzero _ List.mem_cons_self)
    exact ⟨frames, twist, parent, child, angle, velocity, accel, hframes,
      vectorOf_eq_ok hkw htwist, vectorOf_eq_ok hkp hparent, vectorOf_eq_ok hkc hchild,
      scalarOf_eq_ok hkq hangle, scalarOf_eq_ok hkv hvelocity, scalarOf_eq_ok hka haccel, heq⟩
  · intro hold
    refine ⟨fun j hj => ?_, fun l hl => zeroPrior_iff.2 (hold.fixed l hl)⟩
    obtain ⟨frames, twist, parent, child, angle, velocity, accel, hframes, htwist, hparent,
      hchild, hangle, hvelocity, haccel, heq⟩ := hold.joint j hj
    obtain ⟨kw, hkw, htwist⟩ := bind_eq_ok.1 htwist
    obtain ⟨kp, hkp, hparent⟩ := bind_eq_ok.1 hparent
    obtain ⟨kc, hkc, hchild⟩ := bind_eq_ok.1 hchild
    obtain ⟨kq, hkq, hangle⟩ := bind_eq_ok.1 hangle
    obtain ⟨kv, hkv, hvelocity⟩ := bind_eq_ok.1 hvelocity
    obtain ⟨ka, hka, haccel⟩ := bind_eq_ok.1 haccel
    refine ⟨frames, _, hframes, bind_eq_ok.2 ⟨kw, hkw, bind_eq_ok.2 ⟨kp, hkp,
      bind_eq_ok.2 ⟨kc, hkc, bind_eq_ok.2 ⟨kq, hkq, bind_eq_ok.2 ⟨kv, hkv,
        map_eq_ok.2 ⟨ka, hka, rfl⟩⟩⟩⟩⟩⟩, List.forall_mem_singleton.2 ?_⟩
    exact jointTwistAccel_vanishes_iff.2 ⟨twist, parent, child, angle, velocity, accel, htwist,
      hparent, hchild, hangle, hvelocity, haccel, heq⟩

end Builder

end Articulated
