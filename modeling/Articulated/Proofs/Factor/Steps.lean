import Articulated.Factor.Relation
import Articulated.Proofs.Fault.Outcome

/-!
# What a step reads

A collocation reads both values, both rates and the length of its step, one after the other. The
rate at the end is read if the scheme needs it, and the length may be a number or a variable.

* `Values.lengthOf`: the length of a step.
* `CollocationScheme.endRate`: the rate at the end.
* `Relation.readStep_eq`, `Relation.readStep_eq_ok`: what is read.
* `Relation.readStep_phase`: a duration is read like a known length.
-/

namespace Articulated

variable {α : Type} [Scalar α] {vs : Values α} {x₀ x₁ r₀ r₁ : Key} {step : TimeStep α}
  {scheme : CollocationScheme}

/-- The length of a step. -/
def Values.lengthOf (vs : Values α) : TimeStep α → Except (Fault α) α
  | .fixed dt => pure dt
  | .phase k => vs.scalar k

/-- The rate at the end of a step, as far as the scheme reads it. -/
def CollocationScheme.endRate (scheme : CollocationScheme) (x : Except (Fault α) α) :
    Except (Fault α) α := if scheme.readsEndRate then x else pure 0

namespace Relation

/-- A step reads both values, both rates and its length, one after the other. -/
theorem readStep_eq : readStep vs x₀ x₁ r₀ r₁ step scheme = do
    let a₀ ← vs.scalar x₀
    let a₁ ← vs.scalar x₁
    let b₀ ← vs.scalar r₀
    let b₁ ← scheme.endRate (vs.scalar r₁)
    let dt ← vs.lengthOf step
    return (a₀, a₁, b₀, b₁, dt) := by
  cases scheme <;> cases step <;> rfl

theorem readStep_eq_ok {a₀ a₁ b₀ b₁ dt : α} :
    readStep vs x₀ x₁ r₀ r₁ step scheme = .ok (a₀, a₁, b₀, b₁, dt) ↔
      vs.scalar x₀ = .ok a₀ ∧ vs.scalar x₁ = .ok a₁ ∧ vs.scalar r₀ = .ok b₀ ∧
        scheme.endRate (vs.scalar r₁) = .ok b₁ ∧ vs.lengthOf step = .ok dt := by
  rw [readStep_eq]
  constructor
  · intro h
    obtain ⟨a₀', ha₀, h⟩ := bind_eq_ok.1 h
    obtain ⟨a₁', ha₁, h⟩ := bind_eq_ok.1 h
    obtain ⟨b₀', hb₀, h⟩ := bind_eq_ok.1 h
    obtain ⟨b₁', hb₁, h⟩ := bind_eq_ok.1 h
    obtain ⟨dt', hdt, h⟩ := map_eq_ok.1 h
    cases h
    exact ⟨ha₀, ha₁, hb₀, hb₁, hdt⟩
  · intro h
    obtain ⟨ha₀, ha₁, hb₀, hb₁, hdt⟩ := h
    exact bind_eq_ok.2 ⟨a₀, ha₀, bind_eq_ok.2 ⟨a₁, ha₁, bind_eq_ok.2 ⟨b₀, hb₀,
      bind_eq_ok.2 ⟨b₁, hb₁, map_eq_ok.2 ⟨dt, hdt, rfl⟩⟩⟩⟩⟩

/-- A step of a duration that is `dt` reads what a step of the length `dt` does. -/
theorem readStep_phase {k : Key} {dt : α} (hk : vs.scalar k = .ok dt) :
    readStep vs x₀ x₁ r₀ r₁ (.phase k) scheme = readStep vs x₀ x₁ r₀ r₁ (.fixed dt) scheme := by
  rw [readStep_eq, readStep_eq, Values.lengthOf, Values.lengthOf, hk]
  rfl

end Relation

end Articulated
