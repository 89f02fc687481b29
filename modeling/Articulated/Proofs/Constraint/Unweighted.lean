import Articulated.Constraint.Retraction
import Articulated.Proofs.Factor.Unweighted

/-!
# Constraints without their noise

A constraint asks for a residual within a tolerance, and nothing that is done with constraints
looks at the noise of their factors: not the search for components, not the tests, not the linear
models, and not the costs that stand for constraints, which have a noise of their own. So every
retraction goes the same way without it.

* `Constraint.unweighted`, `Constraints.unweighted`, `Component.unweighted`: unit noise throughout.
* `Constraints.components_unweighted`: the components are the same.
* `retract_unweighted`, `retractAll_unweighted`: so is what becomes of an assignment.
* `Component.SameButNoise`: components that differ in the noise of their constraints alone.
-/

namespace Articulated

variable {α : Type} [Scalar α]

/-! ## 1. Unit noise -/

/-- The constraint with unit noise. -/
def Constraint.unweighted (c : Constraint α) : Constraint α := ⟨c.factor.unweighted, c.tolerance⟩

/-- The constraints with unit noise. -/
def Constraints.unweighted (cs : Constraints α) : Constraints α := ⟨cs.items.map (·.unweighted)⟩

/-- The component with unit noise. -/
def Component.unweighted (c : Component α) : Component α := ⟨c.constraints.unweighted, c.keys⟩

/-- The constraints agree but for noise, with the same tolerance. -/
structure Constraint.SameButNoise (c c' : Constraint α) : Prop where
  factor : c.factor.SameButNoise c'.factor
  tolerance_eq : c.tolerance = c'.tolerance

/-- The components have the same variables, and the same constraints in the same order but for
noise. -/
structure Component.SameButNoise (c c' : Component α) : Prop where
  keys_eq : c.keys = c'.keys
  constraints : List.Forall₂ Constraint.SameButNoise c.constraints.items c'.constraints.items

theorem Constraint.sameButNoise_of_unweighted {c c' : Constraint α}
    (h : c.unweighted = c'.unweighted) : c.SameButNoise c' := by
  have hfactor := congrArg factor h
  have htolerance := congrArg tolerance h
  exact ⟨Factor.sameButNoise_of_unweighted hfactor, htolerance⟩

theorem Component.sameButNoise_of_unweighted {c c' : Component α}
    (h : c.unweighted = c'.unweighted) : c.SameButNoise c' := by
  have hkeys := congrArg keys h
  have hitems := congrArg (·.constraints.items) h
  exact ⟨hkeys, (map_eq_map_iff.1 hitems).imp fun _ _ => Constraint.sameButNoise_of_unweighted⟩

/-! ## 2. Components -/

namespace Constraints

variable (cs : Constraints α)

theorem keys_unweighted : cs.unweighted.keys = cs.keys := by
  unfold keys unweighted
  rw [List.map_map]
  rfl

theorem representatives_unweighted : cs.unweighted.representatives = cs.representatives := by
  have hforest : cs.unweighted.forest = cs.forest := by
    unfold forest
    rw [keys_unweighted, unweighted, List.foldl_map]
    rfl
  unfold representatives
  rw [keys_unweighted, hforest]

theorem ofConstraints_unweighted :
    Component.ofConstraints cs.unweighted = (Component.ofConstraints cs).unweighted :=
  congrArg (Component.mk cs.unweighted) cs.keys_unweighted

/-- **The components are found without a look at noise.** -/
theorem components_unweighted :
    cs.unweighted.components = cs.components.map Component.unweighted := by
  have hblock : ∀ l : List (Constraint α), Component.ofConstraints ⟨l.map (·.unweighted)⟩ =
      (Component.ofConstraints ⟨l⟩).unweighted := fun l => ofConstraints_unweighted ⟨l⟩
  unfold components
  rw [representatives_unweighted]
  simp only [unweighted, List.map_map, List.map_append, List.filterMap_map, Function.comp_def]
  refine congrArg₂ (· ++ ·) (List.map_congr_left fun k _ => ?_) ?_
  · rw [← hblock, List.map_filterMap]
    simp only [Option.map_if]
    rfl
  · rw [List.map_filterMap, List.map_filterMap]
    simp only [Option.map_if, ← hblock]
    rfl

/-! ## 3. Tests, linear models and costs -/

variable (vs : Values α)

theorem largestViolation_unweighted :
    cs.unweighted.largestViolation vs = cs.largestViolation vs := by
  unfold largestViolation unweighted
  rw [List.foldlM_map]
  rfl

theorem allCompliant_unweighted : ∀ l : List (Constraint α),
    allCompliant vs (l.map (·.unweighted)) = allCompliant vs l
  | [] => rfl
  | c :: l => by
    rw [List.map_cons, allCompliant, allCompliant, allCompliant_unweighted l]
    rfl

theorem compliant_unweighted : cs.unweighted.compliant vs = cs.compliant vs :=
  allCompliant_unweighted vs cs.items

theorem linearize_unweighted [Runtime α] : cs.unweighted.linearize vs = cs.linearize vs := by
  unfold linearize unweighted
  rw [List.mapM_map]
  exact mapM_congr fun c _ => c.factor.linearize_unweighted vs

/-- Constraints as costs are weighed by the one given standard deviation, not by their own. -/
theorem asCosts_unweighted (sigma : α) : cs.unweighted.asCosts sigma = cs.asCosts sigma := by
  unfold asCosts unweighted Constraint.penalty Constraint.dim
  rw [List.map_map]
  simp only [Function.comp_def, Constraint.unweighted, Factor.dim_unweighted]
  rfl

end Constraints

/-! ## 4. Retraction -/

section Retractions

variable (c : Component α) (vs : Values α)

theorem conclude_unweighted (iterations : Nat) :
    conclude c.unweighted vs iterations = conclude c vs iterations := by
  unfold conclude Component.unweighted
  rw [Constraints.largestViolation_unweighted, Constraints.compliant_unweighted]

variable [Factorization α] [Runtime α]

/-- Corrections look at tests and linear models that are not whitened. -/
theorem correct_unweighted (free : List Key) (ε : α) : ∀ (budget : Nat) (vs : Values α) (n : Nat),
    correct c.unweighted free ε budget vs n = correct c free ε budget vs n
  | 0, _, _ => rfl
  | budget + 1, vs, n => by
    have hrest := correct_unweighted free ε budget
    unfold correct
    dsimp only [Component.unweighted] at hrest ⊢
    simp only [Constraints.compliant_unweighted, Constraints.linearize_unweighted, hrest]

theorem project_unweighted (free : List Key) (p : RetractParams α) :
    project c.unweighted free p vs = project c free p vs := by
  unfold project
  rw [correct_unweighted]
  simp only [conclude_unweighted]

/-- **A retraction goes the same way without the noise of the constraints.** -/
theorem retract_unweighted (attempts : Nat) (r : Retractor) (p : RetractParams α) :
    retract attempts c.unweighted r p vs = retract attempts c r p vs := by
  cases r with
  | optimizing =>
    unfold retract
    simp only [conclude_unweighted]
    rw [Component.unweighted, Constraints.asCosts_unweighted]
  | projecting => exact project_unweighted c vs c.keys.toList p
  | overBasis basis =>
    unfold retract
    simp only [project_unweighted]
    rfl

/-- **So do the retractions of all components, up to the merged outcome.** -/
theorem retractAll_unweighted (attempts : Nat) (cs : List (Component α)) (r : Retractor)
    (p : RetractParams α) : retractAll attempts (cs.map Component.unweighted) r p vs =
      retractAll attempts cs r p vs := by
  unfold retractAll
  rw [inParallel_map]
  simp only [retract_unweighted, List.zip_map_left, List.foldlM_map]
  rfl

end Retractions

end Articulated
