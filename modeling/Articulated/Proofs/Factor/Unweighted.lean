import Articulated.Proofs.Fault.Outcome
import Articulated.Graph.Basic

/-!
# Factors without their noise

Noise is one half of a factor. What a factor says about an assignment before it is weighed depends
on the other half alone, the relation, and on how many rows there are. So a factor can be replaced
by one with all standard deviations equal to one, and two factors that become equal in this way
cannot be told apart as long as nothing is whitened.

* `Factor.unweighted`: the factor with unit noise.
* `Factor.blocks_unweighted`, `Factor.linearize_unweighted`: Jacobians and linear models that are
  not whitened.
* `Factor.SameButNoise`: two factors agree in everything that noise has no part in.
-/

namespace Articulated

/-- Lists have the same image exactly if their elements do, one after the other. -/
theorem map_eq_map_iff {β γ : Type} {f : β → γ} {l l' : List β} :
    l.map f = l'.map f ↔ List.Forall₂ (fun b c => f b = f c) l l' := by
  rw [← List.forall₂_map_left_iff (R := fun b c => b = f c), ← List.forall₂_map_right_iff,
    List.forall₂_eq_eq_eq]

namespace Factor

variable {α : Type} [Scalar α] (f : Factor α) (vs : Values α)

/-- The factors agree in their names, variables and numbers of rows, and in their residuals and
Jacobians at every assignment. -/
structure SameButNoise (f f' : Factor α) : Prop where
  name_eq : f.name = f'.name
  keys_eq : f.keys = f'.keys
  dim_eq : f.dim = f'.dim
  residual_eq : ∀ vs, f.residual vs = f'.residual vs
  blocks_eq : ∀ [Runtime α] vs, f.blocks vs = f'.blocks vs

/-- The factor with all standard deviations equal to one. -/
def unweighted : Factor α := ⟨f.relation, .isotropic f.dim 1⟩

@[simp] theorem keys_unweighted : f.unweighted.keys = f.keys := rfl

@[simp] theorem dim_unweighted : f.unweighted.dim = f.dim := List.length_replicate

@[simp] theorem residual_unweighted : f.unweighted.residual vs = f.residual vs := rfl

/-- Central differences look at the noise only for the number of rows. -/
theorem differenceColumn_unweighted : f.unweighted.differenceColumn = f.differenceColumn := by
  unfold differenceColumn
  rw [dim_unweighted]
  rfl

theorem differenceBlock_unweighted : f.unweighted.differenceBlock = f.differenceBlock := by
  unfold differenceBlock
  rw [differenceColumn_unweighted]

section Jacobians

variable [Runtime α]

theorem differences_unweighted (ε : α) : f.unweighted.differences vs ε = f.differences vs ε := by
  unfold differences
  rw [differenceBlock_unweighted, keys_unweighted]

@[simp] theorem blocks_unweighted : f.unweighted.blocks vs = f.blocks vs := by
  unfold blocks
  rw [differences_unweighted]
  rfl

/-- The linear model that is not whitened. -/
theorem linearize_unweighted : f.unweighted.linearize vs false = f.linearize vs false := by
  unfold linearize
  rw [blocks_unweighted]
  rfl

end Jacobians

variable {f} {f' : Factor α}

/-- Factors with one relation and one number of rows differ in their noise alone. -/
theorem unweighted_eq_iff :
    f.unweighted = f'.unweighted ↔ f.relation = f'.relation ∧ f.dim = f'.dim := by
  constructor
  · intro h
    have hrelation := congrArg relation h
    have hdim := congrArg dim h
    rw [dim_unweighted, dim_unweighted] at hdim
    exact ⟨hrelation, hdim⟩
  · rintro ⟨hrelation, hdim⟩
    unfold unweighted
    rw [hrelation, hdim]

theorem unweighted_isotropic (relation : Relation α) (dim : Nat) (sigma : α) :
    (isotropic relation dim sigma).unweighted = isotropic relation dim 1 :=
  congrArg (isotropic relation · 1) List.length_replicate

/-- **Factors that are equal without their noise agree in everything that noise has no part in.** -/
theorem sameButNoise_of_unweighted (h : f.unweighted = f'.unweighted) : SameButNoise f f' := by
  obtain ⟨hrelation, hdim⟩ := unweighted_eq_iff.1 h
  refine ⟨congrArg Relation.name hrelation, congrArg Relation.keys hrelation, hdim,
    fun vs => ?_, fun vs => ?_⟩
  · rw [← residual_unweighted, h, residual_unweighted]
  · rw [← blocks_unweighted, h, blocks_unweighted]

end Factor

end Articulated
