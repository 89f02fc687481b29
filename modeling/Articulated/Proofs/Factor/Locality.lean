import Articulated.Graph.Basic
import Articulated.Proofs.Values.Reading

/-!
# Relations read their own variables

A relation of the library looks at the variables that it declares and at no others, so its
residual is the same at two assignments that agree on them. Nothing of the kind is known of a
relation that is given from outside (`Relation.IsBuiltIn` excludes those).

* `Relation.residual_congr`: the residual is determined by the declared variables.
* `Factor.linearize_congr`, `Factor.cost_congr`: so are the linear model, with exact derivatives or
  central differences, and the cost.
* `FactorGraph.linearize_congr`, `FactorGraph.error_congr`: the same of a graph of such factors.
-/

namespace Articulated

/-- The relation is one of the library, not given from outside. -/
def Relation.IsBuiltIn {α : Type} : Relation α → Prop
  | .custom _ => False
  | _ => True

namespace Relation

open Values

variable {α : Type} [Scalar α] {vs vs' : Values α}

theorem addWrenches_congr : ∀ {ks : List Key}, AgreeOn ks vs vs' →
    ∀ sum, addWrenches vs ks sum = addWrenches vs' ks sum
  | [], _, _ => rfl
  | k :: ks, h, sum => by
    unfold addWrenches
    rw [h.vector6_eq List.mem_cons_self]
    refine congrArg _ (funext fun w => ?_)
    exact addWrenches_congr (h.mono fun q hq => List.mem_cons_of_mem k hq) _

theorem readStep_congr {x₀ x₁ r₀ r₁ : Key} {step : TimeStep α} {scheme : CollocationScheme}
    (h : AgreeOn (collocation x₀ x₁ r₀ r₁ step scheme).keys vs vs') :
    readStep vs x₀ x₁ r₀ r₁ step scheme = readStep vs' x₀ x₁ r₀ r₁ step scheme := by
  have hx₀ := h.scalar_eq (k := x₀) (by simp [keys])
  have hx₁ := h.scalar_eq (k := x₁) (by simp [keys])
  have hr₀ := h.scalar_eq (k := r₀) (by simp [keys])
  have hr₁ : scheme.readsEndRate = true → vs.scalar r₁ = vs'.scalar r₁ :=
    fun hs => h.scalar_eq (by simp [keys, hs])
  have hstep : ∀ k, step = .phase k → vs.scalar k = vs'.scalar k :=
    fun k hs => h.scalar_eq (by simp [keys, hs, stepKeys])
  cases step with
  | fixed dt =>
    cases scheme with
    | euler => simp only [readStep, hx₀, hx₁, hr₀]; rfl
    | trapezoidal => simp only [readStep, hx₀, hx₁, hr₀, hr₁ rfl]
  | phase k =>
    cases scheme with
    | euler => simp only [readStep, hx₀, hx₁, hr₀, hstep k rfl]; rfl
    | trapezoidal => simp only [readStep, hx₀, hx₁, hr₀, hr₁ rfl, hstep k rfl]

/-- **The residual of a relation is determined by its own variables.** -/
theorem residual_congr : ∀ {r : Relation α}, r.IsBuiltIn → AgreeOn r.keys vs vs' →
    r.residual vs = r.residual vs'
  | prior k _, _, h => by
    simp only [residual, h.lookup_eq (k := k) (by simp [keys])]
  | between k₁ k₂ _, _, h => by
    simp only [residual, h.pose_eq (k := k₁) (by simp [keys]), h.pose_eq (k := k₂) (by simp [keys])]
  | jointPose p c q _, _, h => by
    simp only [residual, h.pose_eq (k := p) (by simp [keys]), h.pose_eq (k := c) (by simp [keys]),
      h.scalar_eq (k := q) (by simp [keys])]
  | jointTwist p c q v _, _, h => by
    simp only [residual, h.vector6_eq (k := p) (by simp [keys]),
      h.vector6_eq (k := c) (by simp [keys]), h.scalar_eq (k := q) (by simp [keys]),
      h.scalar_eq (k := v) (by simp [keys])]
  | jointTwistAccel t p c q v a _, _, h => by
    simp only [residual, h.vector6_eq (k := t) (by simp [keys]),
      h.vector6_eq (k := p) (by simp [keys]), h.vector6_eq (k := c) (by simp [keys]),
      h.scalar_eq (k := q) (by simp [keys]), h.scalar_eq (k := v) (by simp [keys]),
      h.scalar_eq (k := a) (by simp [keys])]
  | wrenchBalance p v a ws _ _ _, _, h => by
    have hws : AgreeOn ws vs vs' := h.mono fun k hk => by simp [keys, hk]
    simp only [residual, h.pose_eq (k := p) (by simp [keys]),
      h.vector6_eq (k := v) (by simp [keys]), h.vector6_eq (k := a) (by simp [keys]),
      addWrenches_congr hws]
  | wrenchEquivalence p c q _, _, h => by
    simp only [residual, h.vector6_eq (k := p) (by simp [keys]),
      h.vector6_eq (k := c) (by simp [keys]), h.scalar_eq (k := q) (by simp [keys])]
  | torque w t _, _, h => by
    simp only [residual, h.vector6_eq (k := w) (by simp [keys]),
      h.scalar_eq (k := t) (by simp [keys])]
  | wrenchPlanar w _, _, h => by
    simp only [residual, h.vector6_eq (k := w) (by simp [keys])]
  | jointLimit k _ _, _, h => by
    simp only [residual, h.scalar_eq (k := k) (by simp [keys])]
  | collocation .., _, h => by
    simp only [residual, readStep_congr h]

/-- The exact Jacobian blocks are determined by the variables of the relation, too. -/
theorem exactBlocks_congr {exact : Values α → Except (Fault α) (List (Block α))} :
    ∀ {r : Relation α}, r.IsBuiltIn → AgreeOn r.keys vs vs' → r.exactBlocks? = some exact →
      exact vs = exact vs'
  | prior _ (.scalar _), _, _, he | prior _ (.vector _), _, _, he | torque .., _, _, he
  | wrenchPlanar .., _, _, he => by
    obtain rfl := Option.some.inj he
    rfl
  | jointLimit k _ _, _, h, he => by
    obtain rfl := Option.some.inj he
    simp only [h.scalar_eq (k := k) (by simp [keys])]
  | collocation .., _, h, he => by
    obtain rfl := Option.some.inj he
    simp only [readStep_congr h]

end Relation

/-! ## Factors and graphs -/

open Values

section Factors

variable {α : Type} [Scalar α] {vs vs' : Values α}

namespace Factor

variable {f : Factor α}

theorem residual_congr (hf : f.relation.IsBuiltIn) (h : AgreeOn f.keys vs vs') :
    f.residual vs = f.residual vs' := Relation.residual_congr hf h

theorem cost_congr (hf : f.relation.IsBuiltIn) (h : AgreeOn f.keys vs vs') :
    f.cost vs = f.cost vs' := by
  unfold cost whitened
  rw [residual_congr hf h]

variable [Runtime α]

/-- Central differences are taken on a copy of the variables of the factor. -/
theorem differences_congr (h : AgreeOn f.keys vs vs') (ε : α) :
    f.differences vs ε = f.differences vs' ε := by
  unfold differences
  rw [h.subset_eq]

theorem blocks_congr (hf : f.relation.IsBuiltIn) (h : AgreeOn f.keys vs vs') :
    f.blocks vs = f.blocks vs' := by
  unfold blocks
  split
  · rename_i exact hexact
    exact Relation.exactBlocks_congr hf h hexact
  · exact differences_congr h disturbance

/-- **The linear model of a factor is determined by its own variables.** -/
theorem linearize_congr (hf : f.relation.IsBuiltIn) (h : AgreeOn f.keys vs vs') (whiten : Bool) :
    f.linearize vs whiten = f.linearize vs' whiten := by
  unfold linearize
  rw [residual_congr hf h, blocks_congr hf h]

end Factor

namespace FactorGraph

variable {g : FactorGraph α}

omit [Scalar α] in
theorem mem_keys_iff {k : Key} : k ∈ g.keys.toList ↔ ∃ f ∈ g.factors, k ∈ f.keys := by
  unfold keys
  rw [KeySet.mem_ofLists]
  constructor
  · intro h
    obtain ⟨ks, hks, hk⟩ := h
    obtain ⟨f, hf, rfl⟩ := List.mem_map.1 hks
    exact ⟨f, hf, hk⟩
  · intro h
    obtain ⟨f, hf, hk⟩ := h
    exact ⟨f.keys, List.mem_map_of_mem hf, hk⟩

omit [Scalar α] in
theorem mem_keys {f : Factor α} {k : Key} (hf : f ∈ g.factors) (hk : k ∈ f.keys) :
    k ∈ g.keys.toList := mem_keys_iff.2 ⟨f, hf, hk⟩

variable [Runtime α] (hg : ∀ f ∈ g.factors, f.relation.IsBuiltIn)
  (h : AgreeOn g.keys.toList vs vs')

include hg h

theorem linearize_congr (whiten : Bool) : g.linearize vs whiten = g.linearize vs' whiten :=
  inParallel_congr fun f hf =>
    Factor.linearize_congr (hg f hf) (h.mono fun _ => mem_keys hf) whiten

theorem error_congr : g.error vs = g.error vs' := by
  unfold error
  rw [inParallel_congr fun f hf => Factor.cost_congr (hg f hf) (h.mono fun _ => mem_keys hf)]

end FactorGraph

end Factors

end Articulated
