import Articulated.Assembly.Priors
import Articulated.Assembly.Trajectory
import Articulated.Proofs.Assembly.Layout
import Articulated.Proofs.Graph.Reordering
import Articulated.Proofs.Robot.Reordering
import Articulated.Robot.Model

/-!
# Assembly does not depend on the order of the parts

A slice goes through the links and the joints in the order of the robot, and the balance of a link
through the joints at that link. For a robot whose parts stand in another order the factors are
built in another order, and the wrenches of a link are added up in another order. Nothing else is
different, and what goes through the joints by ascending id is not different at all.

* `Builder.kinematics_matching`, `Builder.dynamicsFactors_matching`: the groups of a slice.
* `Builder.slice_matching`: the slice.
* `Builder.assembly_ignores_order`: what is the same for a robot with reordered parts.
-/

namespace Articulated

namespace Builder

section Slice

variable {α : Type} [Scalar α] {b : Builder α} {r r' : Robot α} {t : Nat} {gravity : Vec3 α}
  {planar : Option (Vec3 α)} (h : r.Reordered r')

include h

omit [Scalar α] in
theorem perFixedLink_matching (build : Link α → Except (Fault α) (Factor α)) :
    Matching FactorGraph.Reordered (perFixedLink r build) (perFixedLink r' build) := by
  have hlinks : ReorderedBy Eq r.fixedLinks r'.fixedLinks :=
    .of_perm h.fixedLinks_perm fun _ _ => rfl
  refine (Matching.mapM hlinks fun l l' hl => ?_).bind fun fs fs' hfs => .pure hfs
  subst hl
  exact .same Factor.Similar.refl

/-- The balance of a link adds up its wrenches in some order. -/
theorem balanceFactor_matching (l : Link α) :
    Matching Factor.Similar (b.balanceFactor r t gravity l) (b.balanceFactor r' t gravity l) :=
  (Matching.mapM_perm (h.jointsAt_perm l.id)).bind fun _ _ hwrenches => .bind_same fun _ =>
    .bind_same fun _ => .bind_same fun _ => .pure ⟨.wrenchBalance hwrenches, rfl⟩

variable (hr : r.Valid)

include hr

section Graphs

variable [Runtime α]

theorem perJoint_matching (build : Joint α → JointFrames α → Except (Fault α) (List (Factor α))) :
    Matching FactorGraph.Reordered (perJoint r build) (perJoint r' build) := by
  have hjoints : ReorderedBy Eq r.joints r'.joints := .of_perm h.joints fun _ _ => rfl
  refine (Matching.mapM (S := Eq) hjoints fun j j' hj => ?_).inParallel.bind fun fss fss' hfss =>
    .pure ?_
  · subst hj
    rw [h.frames_eq hr]
    exact .same fun _ => rfl
  · show ReorderedBy Factor.Similar fss.flatten fss'.flatten
    rw [← List.flatMap_id, ← List.flatMap_id]
    refine hfss.flatMap fun fs fs' hfs => ?_
    exact hfs ▸ .of_perm (.refl _) fun f _ => .refl f

/-- Factors of the joints followed by factors of the fixed links. -/
theorem kinematics_matching
    (buildJoint : Joint α → JointFrames α → Except (Fault α) (List (Factor α)))
    (buildFixed : Link α → Except (Fault α) (Factor α)) : Matching FactorGraph.Reordered
    (do return (← perJoint r buildJoint) ++ (← perFixedLink r buildFixed))
    (do return (← perJoint r' buildJoint) ++ (← perFixedLink r' buildFixed)) :=
  (perJoint_matching h hr buildJoint).bind fun _ _ hjoints =>
    (perFixedLink_matching h buildFixed).bind fun _ _ hfixed => .pure (hjoints.append hfixed)

theorem dynamicsFactors_matching : Matching FactorGraph.Reordered
    (b.dynamicsFactors r t gravity planar) (b.dynamicsFactors r' t gravity planar) := by
  have hlinks : ReorderedBy Eq r.movingLinks r'.movingLinks :=
    .of_perm h.movingLinks_perm fun _ _ => rfl
  refine (Matching.mapM hlinks fun l l' hl => ?_).inParallel.bind fun _ _ hbalances =>
    (perJoint_matching h hr _).bind fun _ _ hjoints => .pure (ReorderedBy.append hbalances hjoints)
  subst hl
  exact balanceFactor_matching h l

/-- **The slices of reordered robots have corresponding factors.** -/
theorem slice_matching : Matching FactorGraph.Reordered
    (b.slice r t gravity planar) (b.slice r' t gravity planar) := by
  have hgroups : ReorderedBy Eq b.selected b.selected := .of_perm (.refl _) fun _ _ => rfl
  refine (Matching.mapM hgroups fun group group' hgroup => ?_).bind fun gs gs' hgs =>
    .pure (hgs.flatMap fun _ _ hg => hg)
  subst hgroup
  cases group with
  | poses | twists | accels => exact kinematics_matching h hr _ _
  | dynamics => exact dynamicsFactors_matching h hr

end Graphs

/-- The values at rest are the same. -/
theorem restSlice_matching : Matching Eq (r.restSlice t) (r'.restSlice t) := by
  obtain ⟨hrest, hexists⟩ := hr.restSlice_spec t
  obtain ⟨hrest', hexists'⟩ := (h.valid hr).restSlice_spec t
  refine .of_answers ?_ fun vs vs' hvs hvs' => ?_
  · rw [hexists, hexists']
    exact forall_congr' fun v => imp_congr_left (h.has_iff t v)
  · have hrest'' : r.RestOf (r'.Has t) vs' := fun k x => by
      simp only [h.restValue_eq hr]
      exact hrest' vs' hvs' k x
    exact (hrest vs hvs).unique hrest'' fun v _ _ => h.has_iff t v

end Slice

/-- **The order of the parts.** Take a valid robot, and another one with the same links and joints
in any order. Their slices are assembled or refused together, have the same signatures and
variables, and have errors that evaluate together and differ only as far as sums depend on the order
of their terms. The values at rest, the priors of joint quantities, the limits, the steps and the
accelerations read back are the same outright. -/
theorem assembly_ignores_order {α : Type} [Scalar α] [Runtime α] {r r' : Robot α}
    (hr : r.check = .ok ()) (hlinks : r.links.Perm r'.links) (hjoints : r.joints.Perm r'.joints)
    (b : Builder α) :
    (∀ t gravity planar,
      Matching (fun g g' => g.signatures = g'.signatures ∧ g.keys = g'.keys ∧
          ∀ vs, Matching (UpToSums α) (g.error vs) (g'.error vs))
        (b.slice r t gravity planar) (b.slice r' t gravity planar) ∧
      (t ≤ maxIndex → ∃ g, b.slice r t gravity planar = .ok g)) ∧
    (∀ t, Matching Eq (r.restSlice t) (r'.restSlice t) ∧
      (t ≤ maxIndex → ∃ vs, r.restSlice t = .ok vs)) ∧
    b.forwardPriors r = b.forwardPriors r' ∧ b.inversePriors r = b.inversePriors r' ∧
    b.trajectoryPriors r = b.trajectoryPriors r' ∧ b.limitFactors r = b.limitFactors r' ∧
    b.collocation r = b.collocation r' ∧ b.phaseCollocation r = b.phaseCollocation r' ∧
    r.jointAccelerations = r'.jointAccelerations := by
  have hvalid : r.Valid := Robot.check_eq_ok_iff.1 hr
  have h : r.Reordered r' := ⟨hlinks, hjoints⟩
  have hsorted := h.sortedJoints_eq hvalid
  have hcount : checkCount r = checkCount r' := by
    unfold checkCount
    rw [hjoints.length_eq]
  have hrows : jointRows r = jointRows r' := by
    unfold jointRows
    rw [hsorted]
  have hsteps : b.collocationWith r = b.collocationWith r' := by
    unfold collocationWith
    rw [hsorted]
  refine ⟨fun t gravity planar => ⟨?_, ?_⟩, fun t => ⟨restSlice_matching h hvalid, fun ht => ?_⟩,
    ?_, ?_, ?_, ?_, ?_, ?_, ?_⟩
  · exact (slice_matching h hvalid).mono fun g g' hg =>
      ⟨hg.signatures_eq, hg.keys_eq, fun vs => hg.error_matching vs⟩
  · exact (slice_needsKeys hvalid gravity planar).succeeds
  · exact (hvalid.restSlice_spec t).2.2 fun v hv => hvalid.fits ht hv
  · unfold forwardPriors
    rw [hcount, hrows]
  · unfold inversePriors
    rw [hcount, hrows]
  · unfold trajectoryPriors torquePriors
    rw [hcount, hsorted]
  · unfold limitFactors
    rw [hsorted]
  · unfold collocation
    rw [hsteps]
  · unfold phaseCollocation
    rw [hsteps]
  · unfold Robot.jointAccelerations
    rw [hsorted]

/-- A linkage with its parts in the opposite order, with exact numbers. -/
theorem assembly_ignores_order_fourBarLinkage :
    let r : Robot ℝ := .fourBarLinkage
    let r' : Robot ℝ := ⟨r.links.reverse, r.joints.reverse⟩
    let b : Builder ℝ := ofSettings .default
    r.check = .ok () ∧ r.links.Perm r'.links ∧ r.joints.Perm r'.joints ∧
      ∃ g g', b.slice r 0 0 none = .ok g ∧ b.slice r' 0 0 none = .ok g' ∧
        g.signatures = g'.signatures ∧ ∀ vs, Matching Eq (g.error vs) (g'.error vs) := by
  intro r r' b
  have hr : r.check = .ok () := rfl
  have hlinks : r.links.Perm r'.links := (List.reverse_perm r.links).symm
  have hjoints : r.joints.Perm r'.joints := (List.reverse_perm r.joints).symm
  obtain ⟨hmatching, hsucceeds⟩ := (assembly_ignores_order hr hlinks hjoints b).1 0 0 none
  obtain ⟨g, hg⟩ := hsucceeds (Nat.zero_le _)
  obtain ⟨g', hg', hsignatures, -, herror⟩ := hmatching.answer hg
  exact ⟨hr, hlinks, hjoints, g, g', hg, hg', hsignatures,
    fun vs => (herror vs).mono fun x y hxy => hxy Scalar.exactSums_real⟩

end Builder

end Articulated
