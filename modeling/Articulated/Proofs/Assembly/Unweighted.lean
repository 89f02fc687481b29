import Articulated.Assembly.Slice
import Articulated.Proofs.Constraint.Runtime
import Articulated.Proofs.Constraint.Unweighted

/-!
# Settings do not influence what is feasible

The settings of a builder are the noise of its factors. Builders of the same groups with different
settings make the same factors in the same order but for noise, or fail in the same way. So the
constraints made of their graphs have the same components, and retracting these has the same
outcome, with every way to retract and at every assignment.

If several of the jobs of an assembly or of a retraction fail, then which of their faults is
reported depends on what runs them, but not on settings: the same one is reported if both are run
alike, and the faults that may be reported are the same.

* `FactorGraph.unweighted`: a graph with unit noise.
* `Builder.group_alike`, `Builder.slice_alike`: slices are the same without noise.
* `Builder.slice_determinate`: slices are the same whatever assembles them.
* `Builder.slice_feasibility`: graphs, components and retractions.
-/

namespace Articulated

variable {α : Type} [Scalar α]

/-! ## 1. Graphs -/

/-- The graph with unit noise. -/
def FactorGraph.unweighted (g : FactorGraph α) : FactorGraph α := ⟨g.factors.map (·.unweighted)⟩

/-- The graphs have the same factors in the same order, but for noise. -/
def FactorGraph.SameUnweighted (g g' : FactorGraph α) : Prop := g.unweighted = g'.unweighted

namespace FactorGraph

theorem unweighted_append (g h : FactorGraph α) :
    (g ++ h).unweighted = g.unweighted ++ h.unweighted :=
  congrArg FactorGraph.mk List.map_append

theorem SameUnweighted.append {g g' h h' : FactorGraph α} (hg : g.SameUnweighted g')
    (hh : h.SameUnweighted h') : (g ++ h).SameUnweighted (g' ++ h') := by
  unfold SameUnweighted at *
  rw [unweighted_append, unweighted_append, hg, hh]

/-- Graphs put together from parts that are the same one by one. -/
theorem SameUnweighted.join {gs gs' : List (FactorGraph α)}
    (h : List.Forall₂ SameUnweighted gs gs') : (join gs).SameUnweighted (join gs') := by
  induction h with
  | nil => rfl
  | cons hg _ ih => exact hg.append ih

/-- The constraints made of a graph, without their noise. -/
theorem ofGraph_unweighted (g : FactorGraph α) (tolerance : α) :
    (Constraints.ofGraph g tolerance).unweighted = .ofGraph g.unweighted tolerance := by
  unfold Constraints.ofGraph Constraints.unweighted unweighted
  rw [List.map_map, List.map_map]
  rfl

end FactorGraph

/-! ## 2. Slices -/

namespace Builder

section Settings

variable [Runtime α] {r : Robot α}

theorem perJoint_alike {build build' : Joint α → JointFrames α → Except (Fault α) (List (Factor α))}
    (h : ∀ j frames, Alike (fun fs fs' => fs.map Factor.unweighted = fs'.map Factor.unweighted)
      (build j frames) (build' j frames)) :
    Alike FactorGraph.SameUnweighted (perJoint r build) (perJoint r build') := by
  refine (Alike.inParallel fun j _ => .bind_same fun frames => h j frames).bind
    fun fss fss' hfss => .pure (congrArg FactorGraph.mk ?_)
  rw [List.map_flatten, List.map_flatten, map_eq_map_iff.2 hfss]

omit [Runtime α] in
theorem perFixedLink_alike {build build' : Link α → Except (Fault α) (Factor α)}
    (h : ∀ l, Alike (fun f f' => f.unweighted = f'.unweighted) (build l) (build' l)) :
    Alike FactorGraph.SameUnweighted (perFixedLink r build) (perFixedLink r build') :=
  (Alike.mapM fun l _ => h l).bind fun _ _ hfs =>
    .pure (congrArg FactorGraph.mk (map_eq_map_iff.2 hfs))

/-- Factors of the joints, followed by given values of the fixed links. -/
theorem kinematics_alike
    {build build' : Joint α → JointFrames α → Except (Fault α) (List (Factor α))}
    (h : ∀ j frames, Alike (fun fs fs' => fs.map Factor.unweighted = fs'.map Factor.unweighted)
      (build j frames) (build' j frames))
    (quantity : Link α → Variable) (value : Link α → Value α) (sigma sigma' : α) :
    Alike FactorGraph.SameUnweighted
      (do
        let joints ← perJoint r build
        let fixed ← perFixedLink r fun l => do
          return .prior (← (quantity l).key) (value l) sigma
        return joints ++ fixed)
      (do
        let joints ← perJoint r build'
        let fixed ← perFixedLink r fun l => do
          return .prior (← (quantity l).key) (value l) sigma'
        return joints ++ fixed) := by
  refine (perJoint_alike h).bind fun _ _ hjoints => (perFixedLink_alike fun l => ?_).bind
    fun _ _ hfixed => .pure (hjoints.append hfixed)
  refine .bind_same fun k => .pure ?_
  exact (Factor.unweighted_isotropic _ _ _).trans (Factor.unweighted_isotropic _ _ _).symm

variable {settings settings' : Settings α} {groups : List FactorGroup} {t : Nat}
  {gravity : Vec3 α} {planar : Option (Vec3 α)}

omit [Runtime α] in
/-- The wrench relations of a joint. -/
theorem wrenchFactors_alike (j : Joint α) (frames : JointFrames α) :
    Alike (fun fs fs' => fs.map Factor.unweighted = fs'.map Factor.unweighted)
      ((mk settings groups).wrenchFactors t planar j frames)
      ((mk settings' groups).wrenchFactors t planar j frames) := by
  refine .bind_same fun parent => .bind_same fun child => .bind_same fun angle =>
    .bind_same fun torque => .pure ?_
  cases planar <;> rfl

/-- **A group of factors is the same with other settings, but for noise.** -/
theorem group_alike (group : FactorGroup) : Alike FactorGraph.SameUnweighted
    ((mk settings groups).group r t gravity planar group)
    ((mk settings' groups).group r t gravity planar group) := by
  cases group with
  | poses =>
    refine kinematics_alike (fun j frames => ?_) _ _ _ _
    exact .bind_same fun _ => .bind_same fun _ => .bind_same fun _ => .pure rfl
  | twists =>
    refine kinematics_alike (fun j frames => ?_) _ _ _ _
    exact .bind_same fun _ => .bind_same fun _ => .bind_same fun _ => .bind_same fun _ =>
      .pure rfl
  | accels =>
    refine kinematics_alike (fun j frames => ?_) _ _ _ _
    exact .bind_same fun _ => .bind_same fun _ => .bind_same fun _ => .bind_same fun _ =>
      .bind_same fun _ => .bind_same fun _ => .pure rfl
  | dynamics =>
    refine (Alike.inParallel (R := fun f f' => f.unweighted = f'.unweighted) fun l _ => ?_).bind
      fun fs fs' hlinks => (perJoint_alike wrenchFactors_alike).bind fun _ _ hjoints => .pure ?_
    · exact .bind_same fun _ => .bind_same fun _ => .bind_same fun _ => .bind_same fun _ =>
        .pure rfl
    · exact FactorGraph.SameUnweighted.append
        (congrArg FactorGraph.mk (map_eq_map_iff.2 hlinks)) hjoints

/-- **A slice is the same with other settings, but for noise.** -/
theorem slice_alike : Alike FactorGraph.SameUnweighted
    ((mk settings groups).slice r t gravity planar)
    ((mk settings' groups).slice r t gravity planar) :=
  (Alike.mapM fun group _ => group_alike group).bind fun _ _ hgs => .pure (.join hgs)

end Settings

section Runs

variable {r : Robot α} {t : Nat} {gravity : Vec3 α} {planar : Option (Vec3 α)}

theorem perJoint_determinate
    (build : Joint α → JointFrames α → Except (Fault α) (List (Factor α))) :
    Determinate fun _ : Runtime α => perJoint r build :=
  .bind (.inParallel fun _ => .same _) fun _ => .same _

theorem group_determinate (b : Builder α) (group : FactorGroup) :
    Determinate fun _ : Runtime α => b.group r t gravity planar group := by
  cases group with
  | poses | twists | accels => exact .bind (perJoint_determinate _) fun _ => .same _
  | dynamics =>
    exact .bind (.inParallel fun _ => .same _) fun _ => .bind (perJoint_determinate _) fun _ =>
      .same _

/-- **A slice is the same whatever assembles it**, or it fails. -/
theorem slice_determinate (b : Builder α) :
    Determinate fun _ : Runtime α => b.slice r t gravity planar :=
  .bind (.mapM fun group => b.group_determinate group) fun _ => .same _

end Runs

end Builder

/-! ## 3. Feasibility -/

section Feasibility

variable [Factorization α] [Runtime α] {g g' : FactorGraph α} (h : g.SameUnweighted g')
  (tolerance : α)

include h

omit [Factorization α] [Runtime α] in
theorem FactorGraph.SameUnweighted.components_eq :
    (Constraints.ofGraph g tolerance).components.map Component.unweighted =
      (Constraints.ofGraph g' tolerance).components.map Component.unweighted := by
  rw [← Constraints.components_unweighted, ← Constraints.components_unweighted,
    ofGraph_unweighted, ofGraph_unweighted, h]

theorem FactorGraph.SameUnweighted.retractAll_eq (attempts : Nat) (kind : Retractor)
    (p : RetractParams α) (vs : Values α) :
    retractAll attempts (Constraints.ofGraph g tolerance).components kind p vs =
      retractAll attempts (Constraints.ofGraph g' tolerance).components kind p vs := by
  rw [← retractAll_unweighted, h.components_eq tolerance, retractAll_unweighted]

end Feasibility

/-- **Settings do not influence what is feasible.** Builders of the same groups with any two
settings fail in the same way or make slices with the same factors in the same order but for noise.
With every tolerance, the constraints made of these slices then have the same components, and
retracting them gives the same outcome or the same failure. If several jobs fail and it is open
which fault is reported, it is the same one in runs that are alike, runs that differ still both
fail, and the faults that may be reported are the same. -/
theorem Builder.slice_feasibility [Factorization α] (settings settings' : Settings α)
    (groups : List FactorGroup) (r : Robot α) (t : Nat) (gravity : Vec3 α)
    (planar : Option (Vec3 α)) :
    SameRuns (fun g g' : FactorGraph α =>
        List.Forall₂ Factor.SameButNoise g.factors g'.factors ∧
        ∀ tolerance,
          List.Forall₂ Component.SameButNoise (Constraints.ofGraph g tolerance).components
            (Constraints.ofGraph g' tolerance).components ∧
          ∀ attempts kind p vs, SameRuns Eq
            (fun _ => retractAll attempts (Constraints.ofGraph g tolerance).components kind p vs)
            (fun _ => retractAll attempts (Constraints.ofGraph g' tolerance).components kind p vs))
      (fun _ => (Builder.mk settings groups).slice r t gravity planar)
      (fun _ => (Builder.mk settings' groups).slice r t gravity planar) := by
  refine .of_determinate (fun ρ => slice_alike.mono fun g g' h => ⟨?_, fun tolerance => ⟨?_, ?_⟩⟩)
    (Builder.slice_determinate _)
  · have hfactors := congrArg FactorGraph.factors h
    exact (map_eq_map_iff.1 hfactors).imp fun _ _ => Factor.sameButNoise_of_unweighted
  · exact (map_eq_map_iff.1 (h.components_eq tolerance)).imp fun _ _ =>
      Component.sameButNoise_of_unweighted
  · intro attempts kind p vs
    refine .of_determinate (fun ρ => ?_) (retractAll_determinate p attempts _ kind vs)
    rw [h.retractAll_eq tolerance attempts kind p vs]
    exact .same fun _ => rfl

end Articulated
