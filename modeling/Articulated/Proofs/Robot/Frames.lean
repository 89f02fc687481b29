import Articulated.Proofs.Spatial.Action

/-!
# How a joint moves with its coordinate

In its own frame a joint with a unit axis turns about the axis or shifts along it. Coordinates add
up as motions follow one another, and no motion of the joint moves its screw. Between its links
this is still so, because the frames of the joint are fixed in the links. Numbers are exact here,
and poses are rigid motions.

* `Rotation.aboutAxis_add`, `Rotation.aboutAxis_apply_axis`: turns about one axis.
* `JointType.motion_add`, `JointType.adjoint_motion_screw`: the motion of a joint in its own frame.
* `JointFrames.move_childInParent`: what this motion does to points, seen from the links.
* `JointFrames.childInParent_zero`: the rest poses of the links.
* `JointFrames.childInParent_add`, `JointFrames.adjoint_childInParent_screw`: sums of coordinates,
  and the screw in both links.
* `JointFrames.oneParameter_constantScrew`: a joint moves as a one-parameter group with a constant
  screw.
-/

namespace Articulated

/-! ## 1. Turns about an axis -/

namespace Rotation

variable {axis : Vec3 ℝ}

theorem aboutAxis_zero (axis : Vec3 ℝ) : aboutAxis axis 0 = identity := by
  have hcos : Real.cos (0 * Scalar.half) = 1 := by rw [zero_mul, Real.cos_zero]
  have hsin : Real.sin (0 * Scalar.half) = 0 := by rw [zero_mul, Real.sin_zero]
  refine Rotation.ext hcos (Vec3.ext ?_ ?_ ?_) <;>
    exact (congrArg (· * _) hsin).trans (zero_mul _)

/-- **Turns about one axis add their angles.** -/
theorem aboutAxis_add (haxis : axis.normSq = 1) (a b : ℝ) :
    aboutAxis axis (a + b) = aboutAxis axis a * aboutAxis axis b := by
  have hcos := Real.cos_add (a * Scalar.half) (b * Scalar.half)
  have hsin := Real.sin_add (a * Scalar.half) (b * Scalar.half)
  rw [← add_mul] at hcos hsin
  simp only [Vec3.normSq, Vec3.dot] at haxis
  refine Rotation.ext ?_ (Vec3.ext ?_ ?_ ?_)
  · show Real.cos _ = Real.cos _ * Real.cos _ - (Real.sin _ * _ * (Real.sin _ * _) +
      Real.sin _ * _ * (Real.sin _ * _) + Real.sin _ * _ * (Real.sin _ * _))
    linear_combination hcos + Real.sin (a * Scalar.half) * Real.sin (b * Scalar.half) * haxis
  · show Real.sin _ * _ = Real.cos _ * (Real.sin _ * _) + Real.cos _ * (Real.sin _ * _) +
      (Real.sin _ * _ * (Real.sin _ * _) - Real.sin _ * _ * (Real.sin _ * _))
    linear_combination axis.x * hsin
  · show Real.sin _ * _ = Real.cos _ * (Real.sin _ * _) + Real.cos _ * (Real.sin _ * _) +
      (Real.sin _ * _ * (Real.sin _ * _) - Real.sin _ * _ * (Real.sin _ * _))
    linear_combination axis.y * hsin
  · show Real.sin _ * _ = Real.cos _ * (Real.sin _ * _) + Real.cos _ * (Real.sin _ * _) +
      (Real.sin _ * _ * (Real.sin _ * _) - Real.sin _ * _ * (Real.sin _ * _))
    linear_combination axis.z * hsin

theorem mul_identity (r : Rotation ℝ) : r * identity = r := by
  show Rotation.mul r identity = r
  simp only [Rotation.mul, identity, Vec3.dot, Vec3.cross, Vec3.add_def, Vec3.smul_def,
    Vec3.zero_def]
  refine Rotation.ext ?_ (Vec3.ext ?_ ?_ ?_) <;> ring

/-- A turn does not move its own axis. -/
theorem aboutAxis_apply_axis (axis : Vec3 ℝ) (angle : ℝ) :
    (aboutAxis axis angle).apply axis = axis := by
  simp only [aboutAxis, apply, Vec3.cross, Vec3.add_def, Vec3.smul_def]
  refine Vec3.ext ?_ ?_ ?_ <;> ring

end Rotation

/-! ## 2. The frame of the joint -/

/-- The angle zero is no exception: a turn by it is the identity already. -/
theorem rotationAbout_eq (axis : Vec3 ℝ) (angle : ℝ) :
    rotationAbout axis angle = ⟨Rotation.aboutAxis axis angle, 0⟩ := by
  unfold rotationAbout
  split
  · rename_i hangle
    obtain rfl : angle = 0 := of_decide_eq_true hangle
    rw [Rotation.aboutAxis_zero]
    rfl
  · rfl

namespace JointType

variable {axis : Vec3 ℝ}

theorem motion_zero (axis : Vec3 ℝ) (type : JointType) : type.motion axis 0 = Pose.identity := by
  cases type with
  | revolute =>
    show rotationAbout axis 0 = _
    rw [rotationAbout_eq, Rotation.aboutAxis_zero]
    rfl
  | prismatic => exact Pose.ext rfl (Vec3.ext (zero_mul _) (zero_mul _) (zero_mul _))

/-- **Coordinates add up as motions follow one another.** -/
theorem motion_add (haxis : axis.normSq = 1) (a b : ℝ) (type : JointType) :
    type.motion axis (a + b) = type.motion axis a * type.motion axis b := by
  cases type with
  | revolute =>
    show rotationAbout axis (a + b) = rotationAbout axis a * rotationAbout axis b
    rw [rotationAbout_eq, rotationAbout_eq, rotationAbout_eq]
    refine Pose.ext (Rotation.aboutAxis_add haxis a b) ?_
    show (0 : Vec3 ℝ) = 0 + (Rotation.aboutAxis axis a).apply 0
    rw [Rotation.apply_zero]
    exact Vec3.ext (zero_add _).symm (zero_add _).symm (zero_add _).symm
  | prismatic =>
    refine Pose.ext (Rotation.mul_identity _).symm ?_
    show (a + b) • axis = a • axis + (Rotation.identity : Rotation ℝ).apply (b • axis)
    rw [Rotation.apply_of_vector_eq_zero Rotation.isUnit_identity rfl]
    exact Vec3.ext (add_mul _ _ _) (add_mul _ _ _) (add_mul _ _ _)

/-- **No motion of a joint moves its screw.** -/
theorem adjoint_motion_screw (haxis : axis.normSq = 1) (q : ℝ) (type : JointType) :
    (type.motion axis q).adjoint.apply (type.screw axis) = type.screw axis := by
  cases type with
  | revolute =>
    show (rotationAbout axis q).adjoint.apply ⟨axis, 0⟩ = ⟨axis, 0⟩
    have hturn : (Rotation.aboutAxis axis q).matrix.apply axis = axis := by
      rw [← Rotation.apply_eq_matrix (Rotation.isUnit_aboutAxis haxis q),
        Rotation.aboutAxis_apply_axis]
    rw [rotationAbout_eq, Pose.adjoint_apply, hturn]
    refine SpatialVector.ext rfl ?_
    simp only [Mat3.apply, Vec3.dot, Vec3.cross, Vec3.zero_def, Vec3.add_def]
    refine Vec3.ext ?_ ?_ ?_ <;> ring
  | prismatic =>
    -- A shift carries the velocity of a turn along, and here there is no turn.
    show (Pose.shift (q • axis)).adjoint.apply ⟨0, axis⟩ = ⟨0, axis⟩
    have hstill : (Rotation.identity : Rotation ℝ).matrix = Mat3.identity :=
      Rotation.matrix_of_vector_eq_zero Rotation.isUnit_identity rfl
    rw [Pose.adjoint_apply]
    simp only [Pose.shift, hstill, Mat3.identity_apply]
    refine SpatialVector.ext rfl ?_
    simp only [Vec3.cross, Vec3.zero_def, Vec3.add_def]
    refine Vec3.ext ?_ ?_ ?_ <;> ring

end JointType

/-! ## 3. Between the links -/

namespace JointFrames

variable {type : JointType} {parent joint child : Pose ℝ} {axis : Vec3 ℝ}

/-- A point of the child goes to the frame of the joint, moves there, and goes to the parent. -/
theorem move_childInParent (hparent : parent.IsRigid) (hjoint : joint.IsRigid)
    (hchild : child.IsRigid) (haxis : axis.normSq = 1) (q : ℝ) (x : Vec3 ℝ) :
    ((ofRest type parent joint child axis).childInParent q).move x =
      (parent.inverse * joint).move
        ((type.motion axis q).move ((joint.inverse * child).move x)) := by
  have hleft := hparent.inverse.mul hjoint
  have hmotion := type.isRigid_motion haxis q
  show (parent.inverse * joint * type.motion axis q * (joint.inverse * child)).move x = _
  rw [Pose.move_mul (hleft.mul hmotion) (hjoint.inverse.mul hchild), Pose.move_mul hleft hmotion]

/-- **At the coordinate zero the links stand as they do at rest.** -/
theorem childInParent_zero (hparent : parent.IsRigid) (hjoint : joint.IsRigid)
    (hchild : child.IsRigid) (haxis : axis.normSq = 1) :
    ((ofRest type parent joint child axis).childInParent 0).SameMotion
      (parent.inverse * child) := by
  intro x
  rw [move_childInParent hparent hjoint hchild haxis, JointType.motion_zero,
    Pose.move_of_still Pose.isRigid_identity rfl rfl, Pose.move_mul hparent.inverse hjoint,
    Pose.move_mul hjoint.inverse hchild, Pose.move_move_inverse hjoint,
    Pose.move_mul hparent.inverse hchild]

/-- Coordinates add up between the links too, counted from the rest poses. -/
theorem childInParent_add (hparent : parent.IsRigid) (hjoint : joint.IsRigid)
    (hchild : child.IsRigid) (haxis : axis.normSq = 1) (a b : ℝ) :
    ((ofRest type parent joint child axis).childInParent (a + b)).SameMotion
      ((ofRest type parent joint child axis).childInParent a *
        ((ofRest type parent joint child axis).childInParent 0).inverse *
        (ofRest type parent joint child axis).childInParent b) := by
  intro x
  have hright := hjoint.inverse.mul hchild
  have hrigid : ∀ q, ((ofRest type parent joint child axis).childInParent q).IsRigid :=
    isRigid_childInParent hparent hjoint hchild haxis
  have hmove : ∀ q x, ((ofRest type parent joint child axis).childInParent q).move x =
      (parent.inverse * joint).move
        ((type.motion axis q).move ((joint.inverse * child).move x)) :=
    move_childInParent hparent hjoint hchild haxis
  -- At rest the frame of the joint, seen from the parent, leads back to the child.
  have hback : ∀ y, ((ofRest type parent joint child axis).childInParent 0).inverse.move
      ((parent.inverse * joint).move y) = (joint.inverse * child).inverse.move y := by
    intro y
    have hrest := hmove 0 ((joint.inverse * child).inverse.move y)
    rw [JointType.motion_zero, Pose.move_of_still Pose.isRigid_identity rfl rfl,
      Pose.move_move_inverse hright] at hrest
    rw [← hrest, Pose.move_inverse_move (hrigid 0)]
  rw [Pose.move_mul ((hrigid a).mul (hrigid 0).inverse) (hrigid b),
    Pose.move_mul (hrigid a) (hrigid 0).inverse, hmove b, hback, hmove a,
    Pose.move_move_inverse hright, hmove, JointType.motion_add haxis,
    Pose.move_mul (type.isRigid_motion haxis a) (type.isRigid_motion haxis b)]

/-- At every coordinate the screw of the child is the screw of the parent, carried over. -/
theorem adjoint_childInParent_screw (hparent : parent.IsRigid) (hjoint : joint.IsRigid)
    (hchild : child.IsRigid) (haxis : axis.normSq = 1) (q : ℝ) :
    ((ofRest type parent joint child axis).childInParent q).adjoint.apply
        (ofRest type parent joint child axis).screwChild =
      (ofRest type parent joint child axis).screwParent := by
  have hleft := hparent.inverse.mul hjoint
  show (parent.inverse * joint * type.motion axis q * (joint.inverse * child)).adjoint.apply
      ((joint.inverse * child).inverse.adjoint.apply (type.screw axis)) =
    (parent.inverse * joint).adjoint.apply (type.screw axis)
  rw [Pose.adjoint_mul_apply (hleft.mul (type.isRigid_motion haxis q)),
    Pose.adjoint_apply_inverse (hjoint.inverse.mul hchild), Pose.adjoint_mul_apply hleft,
    JointType.adjoint_motion_screw haxis]

/-- **A joint moves as a one-parameter group with a constant screw.** Counted from the rest poses
of the links, coordinates add up as motions follow one another. At the coordinate zero the links
stand as they do at rest, and at every coordinate the screw of the child is that of the parent. -/
theorem oneParameter_constantScrew (hparent : parent.IsRigid) (hjoint : joint.IsRigid)
    (hchild : child.IsRigid) (haxis : axis.normSq = 1) :
    (∀ a b, ((ofRest type parent joint child axis).childInParent (a + b)).SameMotion
      ((ofRest type parent joint child axis).childInParent a *
        ((ofRest type parent joint child axis).childInParent 0).inverse *
        (ofRest type parent joint child axis).childInParent b)) ∧
    ((ofRest type parent joint child axis).childInParent 0).SameMotion
      (parent.inverse * child) ∧
    ∀ q, ((ofRest type parent joint child axis).childInParent q).adjoint.apply
        (ofRest type parent joint child axis).screwChild =
      (ofRest type parent joint child axis).screwParent :=
  ⟨childInParent_add hparent hjoint hchild haxis, childInParent_zero hparent hjoint hchild haxis,
    adjoint_childInParent_screw hparent hjoint hchild haxis⟩

/-- A hinge on a turned parent, with an axis off the coordinate axes. -/
theorem oneParameter_constantScrew_hinge :
    let parent : Pose ℝ := ⟨⟨3 / 5, ⟨4 / 5, 0, 0⟩⟩, ⟨1, 2, 3⟩⟩
    let hinge : Pose ℝ := Pose.shift ⟨0, 1, 0⟩
    let child : Pose ℝ := ⟨⟨0, ⟨0, 0, 1⟩⟩, ⟨0, 2, 0⟩⟩
    let axis : Vec3 ℝ := ⟨0, 3 / 5, 4 / 5⟩
    let f := ofRest .revolute parent hinge child axis
    (parent.IsRigid ∧ hinge.IsRigid ∧ child.IsRigid ∧ axis.normSq = 1) ∧
      (∀ a b, (f.childInParent (a + b)).SameMotion
        (f.childInParent a * (f.childInParent 0).inverse * f.childInParent b)) ∧
      (f.childInParent 0).SameMotion (parent.inverse * child) ∧
      ∀ q, (f.childInParent q).adjoint.apply f.screwChild = f.screwParent := by
  intro parent hinge child axis f
  have hparent : parent.IsRigid := by
    simp only [parent, Pose.IsRigid, Rotation.IsUnit, Vec3.normSq, Vec3.dot]
    norm_num
  have hhinge : hinge.IsRigid := Pose.isRigid_shift _
  have hchild : child.IsRigid := by
    simp only [child, Pose.IsRigid, Rotation.IsUnit, Vec3.normSq, Vec3.dot]
    norm_num
  have haxis : axis.normSq = 1 := by
    simp only [axis, Vec3.normSq, Vec3.dot]
    norm_num
  exact ⟨⟨hparent, hhinge, hchild, haxis⟩,
    oneParameter_constantScrew hparent hhinge hchild haxis⟩

end JointFrames

end Articulated
