import Articulated.Graph.Basic
import Articulated.Proofs.Factor.Reading

/-!
# Renaming variables

What a relation of the library computes does not depend on what its variables are called. When
they get other names and distinct ones stay distinct, the residual and the derivatives are the same
at an assignment that has the old values under the new names. Where evaluation fails, it fails for
the same reason, told of the renamed variable.

* `Relation.rename`, `Factor.rename`, `FactorGraph.rename`, `Values.rename`: other names for the
  variables.
* `Values.CarriedBy`: an assignment has the values of another one under new names.
* `Renamed`: two computations agree up to the names in their faults.
* `Relation.residual_renamed`, `Factor.differences_renamed`: the residual, and the derivatives that
  are found by differences. Only the latter need distinct names, as they write variables.
* `Factor.residual_rename`, `Factor.blocks_rename`: both as equations.
-/

namespace Articulated

/-! ## 1. Other names -/

section Names

variable {α : Type}

/-- The fault, told of the renamed variable. -/
def Fault.rename (ρ : Key → Key) : Fault α → Fault α
  | missing k => missing (ρ k)
  | kindMismatch k expected found => kindMismatch (ρ k) expected found
  | e => e

/-- The step, with another name for its duration. -/
def TimeStep.rename (ρ : Key → Key) : TimeStep α → TimeStep α
  | fixed dt => fixed dt
  | phase k => phase (ρ k)

/-- The relation between the renamed variables. What is given from outside cannot be renamed. -/
def Relation.rename (ρ : Key → Key) : Relation α → Relation α
  | prior k value => prior (ρ k) value
  | between k₁ k₂ measured => between (ρ k₁) (ρ k₂) measured
  | jointPose p c q frames => jointPose (ρ p) (ρ c) (ρ q) frames
  | jointTwist p c q v frames => jointTwist (ρ p) (ρ c) (ρ q) (ρ v) frames
  | jointTwistAccel t p c q v a frames =>
    jointTwistAccel (ρ t) (ρ p) (ρ c) (ρ q) (ρ v) (ρ a) frames
  | wrenchBalance p v a ws mass inertia gravity =>
    wrenchBalance (ρ p) (ρ v) (ρ a) (ws.map ρ) mass inertia gravity
  | wrenchEquivalence p c q frames => wrenchEquivalence (ρ p) (ρ c) (ρ q) frames
  | torque w t screw => torque (ρ w) (ρ t) screw
  | wrenchPlanar w rows => wrenchPlanar (ρ w) rows
  | jointLimit k lower upper => jointLimit (ρ k) lower upper
  | collocation x₀ x₁ r₀ r₁ step scheme =>
    collocation (ρ x₀) (ρ x₁) (ρ r₀) (ρ r₁) (step.rename ρ) scheme
  | custom r => custom r

/-- The factor between the renamed variables, with its noise. -/
def Factor.rename (ρ : Key → Key) (f : Factor α) : Factor α := ⟨f.relation.rename ρ, f.noise⟩

/-- The graph of the renamed factors, in order. -/
def FactorGraph.rename (ρ : Key → Key) (g : FactorGraph α) : FactorGraph α :=
  ⟨g.factors.map (Factor.rename ρ)⟩

/-- The values under other names. -/
def Values.rename (ρ : Key → Key) (vs : Values α) : Values α :=
  vs.entries.foldl (fun acc e => acc.insert (ρ e.1) e.2) .empty

variable {ρ : Key → Key}

theorem Relation.isBuiltIn_rename : ∀ {r : Relation α}, r.IsBuiltIn → (r.rename ρ).IsBuiltIn
  | prior .., _ | between .., _ | jointPose .., _ | jointTwist .., _ | jointTwistAccel .., _
  | wrenchBalance .., _ | wrenchEquivalence .., _ | torque .., _ | wrenchPlanar .., _
  | jointLimit .., _ | collocation .., _ => trivial

theorem Relation.keys_rename : ∀ {r : Relation α}, r.IsBuiltIn →
    (r.rename ρ).keys = r.keys.map ρ
  | .prior .., _ | .between .., _ | .jointPose .., _ | .jointTwist .., _ | .jointTwistAccel .., _
  | .wrenchBalance .., _ | .wrenchEquivalence .., _ | .torque .., _ | .wrenchPlanar .., _
  | .jointLimit .., _ => rfl
  | .collocation _ _ _ _ step scheme, _ => by cases step <;> cases scheme <;> rfl

theorem FactorGraph.mem_keys_rename {g : FactorGraph α} (hg : ∀ f ∈ g.factors, f.relation.IsBuiltIn)
    {k : Key} : k ∈ (g.rename ρ).keys.toList ↔ ∃ q ∈ g.keys.toList, ρ q = k := by
  rw [mem_keys_iff]
  constructor
  · rintro ⟨f', hf', hk⟩
    obtain ⟨f, hf, rfl⟩ := List.mem_map.1 hf'
    rw [Factor.keys, Factor.rename, Relation.keys_rename (hg f hf)] at hk
    obtain ⟨q, hq, rfl⟩ := List.mem_map.1 hk
    exact ⟨q, mem_keys hf hq, rfl⟩
  · rintro ⟨q, hq, rfl⟩
    obtain ⟨f, hf, hq⟩ := mem_keys_iff.1 hq
    refine ⟨f.rename ρ, List.mem_map_of_mem hf, ?_⟩
    rw [Factor.keys, Factor.rename, Relation.keys_rename (hg f hf)]
    exact List.mem_map_of_mem hq

end Names

/-! ## 2. Assignments under new names -/

namespace Values

variable {α : Type} {ρ : Key → Key} {ks : List Key} {vs vs' : Values α}

/-- The second assignment has the values of the first one under the new names, for some
variables. -/
def CarriedBy (ρ : Key → Key) (ks : List Key) (vs vs' : Values α) : Prop :=
  ∀ k ∈ ks, vs'.get? (ρ k) = vs.get? k

theorem CarriedBy.mono {qs : List Key} (h : CarriedBy ρ ks vs vs') (hsub : ∀ k ∈ qs, k ∈ ks) :
    CarriedBy ρ qs vs vs' := fun k hk => h k (hsub k hk)

/-- A write reaches the variable of the new name and no other, as names stay distinct. -/
theorem CarriedBy.insert (h : CarriedBy ρ ks vs vs')
    (hρ : ∀ a ∈ ks, ∀ b ∈ ks, ρ a = ρ b → a = b) {k : Key} (hk : k ∈ ks) (v : Value α) :
    CarriedBy ρ ks (vs.insert k v) (vs'.insert (ρ k) v) := by
  intro q hq
  rw [get?_insert, get?_insert]
  by_cases hqk : q = k
  · rw [if_pos hqk, if_pos (congrArg ρ hqk)]
  · rw [if_neg hqk, if_neg fun heq => hqk (hρ q hq k hk heq), h q hq]

theorem get?_renameInto {k : Key} (hk : k ∈ ks) (hρ : ∀ a ∈ ks, ∀ b ∈ ks, ρ a = ρ b → a = b) :
    ∀ {l : List (Key × Value α)} {acc : Values α}, l.Pairwise (fun e f => e.1 < f.1) →
      (∀ e ∈ l, e.1 ∈ ks) →
      (l.foldl (fun acc e => acc.insert (ρ e.1) e.2) acc).get? (ρ k) =
        (l.lookup k).or (acc.get? (ρ k))
  | [], _, _, _ => rfl
  | (q, v) :: rest, acc, hsorted, hks => by
    obtain ⟨hhead, hsorted⟩ := List.pairwise_cons.1 hsorted
    obtain ⟨hq, hks⟩ := List.forall_mem_cons.1 hks
    rw [List.foldl_cons, get?_renameInto hk hρ hsorted hks, get?_insert, Key.lookup_cons_eq]
    by_cases hkq : k = q
    · subst hkq
      have hnone : rest.lookup k = none := by
        refine List.lookup_eq_none_iff.2 fun e he => ?_
        exact bne_iff_ne.2 (Key.ne_of_lt (hhead e he))
      rw [hnone, if_pos rfl, if_pos rfl, Option.none_or, Option.some_or]
    · rw [if_neg hkq, if_neg fun heq => hkq (hρ k hk q hq heq)]

/-- **An assignment to some variables carries its values to their new names**, and there are none
where it has none. -/
theorem carriedBy_rename (hρ : ∀ a ∈ ks, ∀ b ∈ ks, ρ a = ρ b → a = b)
    (hvs : ∀ k ∈ vs.keys, k ∈ ks) : CarriedBy ρ ks vs (vs.rename ρ) := by
  intro k hk
  have hentries : ∀ e ∈ vs.entries, e.1 ∈ ks := fun e he => hvs e.1 (List.mem_map_of_mem he)
  refine (get?_renameInto hk hρ vs.map.sorted hentries).trans ?_
  rw [get?_empty, Option.or_none]
  rfl

end Values

/-! ## 3. Computations -/

section Computations

variable {α β γ δ ζ : Type} {ρ : Key → Key}

/-- Both computations fail, the second one with the renamed fault of the first one, or their answers
are related. -/
def Renamed (ρ : Key → Key) (R : β → γ → Prop) :
    Except (Fault α) β → Except (Fault α) γ → Prop
  | .ok b, .ok c => R b c
  | .error e, .error e' => e' = e.rename ρ
  | _, _ => False

namespace Renamed

variable {R : β → γ → Prop} {S : δ → ζ → Prop} {x : Except (Fault α) β} {y : Except (Fault α) γ}

theorem pure {b : β} {c : γ} (h : R b c) :
    Renamed ρ R (Pure.pure b : Except (Fault α) β) (Pure.pure c) := h

theorem error {e e' : Fault α} (h : e' = e.rename ρ) :
    Renamed ρ R (Except.error e) (Except.error e') := h

theorem bind {f : β → Except (Fault α) δ} {g : γ → Except (Fault α) ζ} (h : Renamed ρ R x y)
    (hfg : ∀ b c, R b c → Renamed ρ S (f b) (g c)) : Renamed ρ S (x >>= f) (y >>= g) := by
  cases x with
  | error e =>
    cases y with
    | error e' => exact h
    | ok c => exact h.elim
  | ok b =>
    cases y with
    | error e' => exact h.elim
    | ok c => exact hfg b c h

/-- What is computed from the same answer. -/
theorem bind_eq {y : Except (Fault α) β} {f : β → Except (Fault α) δ} {g : β → Except (Fault α) ζ}
    (h : Renamed ρ Eq x y) (hfg : ∀ b, Renamed ρ S (f b) (g b)) :
    Renamed ρ S (x >>= f) (y >>= g) :=
  h.bind fun b _ hbc => hbc ▸ hfg b

/-- A list of computations over renamed variables. -/
theorem mapM {σ : ζ → δ} {f : ζ → Except (Fault α) β} {g : δ → Except (Fault α) β} :
    ∀ {l : List ζ}, (∀ b ∈ l, Renamed ρ Eq (f b) (g (σ b))) →
      Renamed ρ Eq (l.mapM f) ((l.map σ).mapM g)
  | [], _ => pure rfl
  | b :: l, h => by
    rw [List.map_cons, List.mapM_cons, List.mapM_cons]
    refine (h b List.mem_cons_self).bind_eq fun c => ?_
    refine (mapM fun b' hb' => h b' (List.mem_cons_of_mem b hb')).bind_eq fun cs => ?_
    exact pure rfl

/-- Computations that answer alike, as an equation. -/
theorem eq_mapError {y : Except (Fault α) β} (h : Renamed ρ Eq x y) :
    y = x.mapError (Fault.rename ρ) := by
  cases x with
  | error e =>
    cases y with
    | error e' => exact congrArg Except.error h
    | ok c => exact h.elim
  | ok b =>
    cases y with
    | error e' => exact h.elim
    | ok c => exact congrArg Except.ok (Eq.symm h)

end Renamed

namespace Values.CarriedBy

variable {ks : List Key} {vs vs' : Values α} {k : Key}

theorem lookup (h : CarriedBy ρ ks vs vs') (hk : k ∈ ks) :
    Renamed ρ Eq (vs.lookup k) (vs'.lookup (ρ k)) := by
  unfold Values.lookup
  rw [h k hk]
  cases vs.get? k with
  | none => exact .error rfl
  | some v => exact .pure rfl

theorem scalar (h : CarriedBy ρ ks vs vs') (hk : k ∈ ks) :
    Renamed ρ Eq (vs.scalar k) (vs'.scalar (ρ k)) := by
  refine (h.lookup hk).bind_eq fun v => ?_
  cases v with
  | scalar x => exact .pure rfl
  | vector x | pose x => exact .error rfl

theorem vector6 (h : CarriedBy ρ ks vs vs') (hk : k ∈ ks) :
    Renamed ρ Eq (vs.vector6 k) (vs'.vector6 (ρ k)) := by
  refine (h.lookup hk).bind_eq fun v => ?_
  cases v with
  | vector x => exact .pure rfl
  | scalar x | pose x => exact .error rfl

theorem pose (h : CarriedBy ρ ks vs vs') (hk : k ∈ ks) :
    Renamed ρ Eq (vs.pose k) (vs'.pose (ρ k)) := by
  refine (h.lookup hk).bind_eq fun v => ?_
  cases v with
  | pose x => exact .pure rfl
  | scalar x | vector x => exact .error rfl

/-- The restrictions to some variables and to the renamed ones. -/
theorem subset (h : CarriedBy ρ ks vs vs') (hρ : ∀ a ∈ ks, ∀ b ∈ ks, ρ a = ρ b → a = b) :
    Renamed ρ (CarriedBy ρ ks) (vs.subset ks) (vs'.subset (ks.map ρ)) := by
  have hinto : ∀ {qs : List Key} {acc acc' : Values α}, (∀ k ∈ qs, k ∈ ks) →
      CarriedBy ρ ks acc acc' → Renamed ρ (CarriedBy ρ ks)
        (qs.foldlM (fun acc k => do return acc.insert k (← vs.lookup k)) acc)
        ((qs.map ρ).foldlM (fun acc k => do return acc.insert k (← vs'.lookup k)) acc') := by
    intro qs
    induction qs with
    | nil => exact fun _ hacc => .pure hacc
    | cons q qs ih =>
      intro acc acc' hsub hacc
      obtain ⟨hq, hsub⟩ := List.forall_mem_cons.1 hsub
      rw [List.map_cons, List.foldlM_cons, List.foldlM_cons]
      refine Renamed.bind (R := CarriedBy ρ ks) ?_ fun _ _ => ih hsub
      exact (h.lookup hq).bind_eq fun v => .pure (hacc.insert hρ hq v)
  exact hinto (fun _ => id) fun _ _ => rfl

end Values.CarriedBy

end Computations

/-! ## 4. Relations -/

namespace Relation

variable {α : Type} [Scalar α] {ρ : Key → Key} {vs vs' : Values α}

theorem addWrenches_renamed : ∀ {ws : List Key}, Values.CarriedBy ρ ws vs vs' →
    ∀ sum, Renamed ρ Eq (addWrenches vs ws sum) (addWrenches vs' (ws.map ρ) sum)
  | [], _, _ => .pure rfl
  | w :: _, h, _ => (h.vector6 List.mem_cons_self).bind_eq fun _ =>
      addWrenches_renamed (h.mono fun _ => List.mem_cons_of_mem w) _

theorem readStep_renamed {x₀ x₁ r₀ r₁ : Key} {step : TimeStep α} {scheme : CollocationScheme}
    (h : Values.CarriedBy ρ (collocation x₀ x₁ r₀ r₁ step scheme).keys vs vs') :
    Renamed ρ Eq (readStep vs x₀ x₁ r₀ r₁ step scheme)
      (readStep vs' (ρ x₀) (ρ x₁) (ρ r₀) (ρ r₁) (step.rename ρ) scheme) := by
  refine (h.scalar (k := x₀) (by simp [keys])).bind_eq fun _ =>
    (h.scalar (k := x₁) (by simp [keys])).bind_eq fun _ =>
    (h.scalar (k := r₀) (by simp [keys])).bind_eq fun _ => ?_
  cases scheme with
  | euler =>
    cases step with
    | fixed dt => exact .pure rfl
    | phase k => exact (h.scalar (k := k) (by simp [keys, stepKeys])).bind_eq fun _ => .pure rfl
  | trapezoidal =>
    refine (h.scalar (k := r₁) (by simp [keys, CollocationScheme.readsEndRate])).bind_eq
      fun _ => ?_
    cases step with
    | fixed dt => exact .pure rfl
    | phase k => exact (h.scalar (k := k) (by simp [keys, stepKeys])).bind_eq fun _ => .pure rfl

/-- **The residual does not depend on the names of the variables.** -/
theorem residual_renamed : ∀ {r : Relation α}, r.IsBuiltIn → Values.CarriedBy ρ r.keys vs vs' →
    Renamed ρ Eq (r.residual vs) ((r.rename ρ).residual vs')
  | prior k value, _, h => by
    refine (h.lookup (k := k) (by simp [keys])).bind_eq fun v => ?_
    cases value <;> cases v <;> first | exact .pure rfl | exact .error rfl
  | between k₁ k₂ _, _, h =>
    (h.pose (k := k₁) (by simp [keys])).bind_eq fun _ =>
      (h.pose (k := k₂) (by simp [keys])).bind_eq fun _ => .pure rfl
  | jointPose p c q _, _, h =>
    (h.pose (k := p) (by simp [keys])).bind_eq fun _ =>
      (h.pose (k := c) (by simp [keys])).bind_eq fun _ =>
      (h.scalar (k := q) (by simp [keys])).bind_eq fun _ => .pure rfl
  | jointTwist p c q v _, _, h =>
    (h.vector6 (k := p) (by simp [keys])).bind_eq fun _ =>
      (h.vector6 (k := c) (by simp [keys])).bind_eq fun _ =>
      (h.scalar (k := q) (by simp [keys])).bind_eq fun _ =>
      (h.scalar (k := v) (by simp [keys])).bind_eq fun _ => .pure rfl
  | jointTwistAccel t p c q v a _, _, h =>
    (h.vector6 (k := t) (by simp [keys])).bind_eq fun _ =>
      (h.vector6 (k := p) (by simp [keys])).bind_eq fun _ =>
      (h.vector6 (k := c) (by simp [keys])).bind_eq fun _ =>
      (h.scalar (k := q) (by simp [keys])).bind_eq fun _ =>
      (h.scalar (k := v) (by simp [keys])).bind_eq fun _ =>
      (h.scalar (k := a) (by simp [keys])).bind_eq fun _ => .pure rfl
  | wrenchBalance p v a ws _ _ _, _, h =>
    (h.pose (k := p) (by simp [keys])).bind_eq fun _ =>
      (h.vector6 (k := v) (by simp [keys])).bind_eq fun _ =>
      (h.vector6 (k := a) (by simp [keys])).bind_eq fun _ =>
      (addWrenches_renamed (h.mono fun k hk => by simp [keys, hk]) _).bind_eq fun _ => .pure rfl
  | wrenchEquivalence p c q _, _, h =>
    (h.vector6 (k := p) (by simp [keys])).bind_eq fun _ =>
      (h.vector6 (k := c) (by simp [keys])).bind_eq fun _ =>
      (h.scalar (k := q) (by simp [keys])).bind_eq fun _ => .pure rfl
  | torque w t _, _, h =>
    (h.vector6 (k := w) (by simp [keys])).bind_eq fun _ =>
      (h.scalar (k := t) (by simp [keys])).bind_eq fun _ => .pure rfl
  | wrenchPlanar w _, _, h =>
    (h.vector6 (k := w) (by simp [keys])).bind_eq fun _ => .pure rfl
  | jointLimit k _ _, _, h =>
    (h.scalar (k := k) (by simp [keys])).bind_eq fun _ => .pure rfl
  | collocation .., _, h => (readStep_renamed h).bind_eq fun _ => .pure rfl

/-- Nor do the exact blocks. A relation has such blocks under any names or under none. -/
theorem exactBlocks_renamed : ∀ {r : Relation α}, r.IsBuiltIn →
    Values.CarriedBy ρ r.keys vs vs' →
      (r.exactBlocks? = none ∧ (r.rename ρ).exactBlocks? = none) ∨
        ∃ exact exact', r.exactBlocks? = some exact ∧ (r.rename ρ).exactBlocks? = some exact' ∧
          Renamed ρ Eq (exact vs) (exact' vs')
  | prior _ (.pose _), _, _ | between .., _, _ | jointPose .., _, _ | jointTwist .., _, _
  | jointTwistAccel .., _, _ | wrenchBalance .., _, _ | wrenchEquivalence .., _, _ =>
    .inl ⟨rfl, rfl⟩
  | prior _ (.scalar _), _, _ | prior _ (.vector _), _, _ | torque .., _, _
  | wrenchPlanar .., _, _ => .inr ⟨_, _, rfl, rfl, .pure rfl⟩
  | jointLimit k _ _, _, h =>
    .inr ⟨_, _, rfl, rfl, (h.scalar (k := k) (by simp [keys])).bind_eq fun _ => .pure rfl⟩
  | collocation _ _ _ _ step _, _, h => by
    refine .inr ⟨_, _, rfl, rfl, (readStep_renamed h).bind_eq fun _ => ?_⟩
    cases step <;> exact .pure rfl

end Relation

/-! ## 5. Factors -/

namespace Factor

variable {α : Type} [Scalar α] {ρ : Key → Key} {f : Factor α} {vs vs' : Values α}
  (hf : f.relation.IsBuiltIn) (h : Values.CarriedBy ρ f.keys vs vs')

include hf h

/-- **The residual of a renamed factor** at the values under the new names. -/
theorem residual_rename :
    (f.rename ρ).residual vs' = (f.residual vs).mapError (Fault.rename ρ) :=
  (Relation.residual_renamed hf h).eq_mapError

section Distinct

variable (hρ : ∀ a ∈ f.keys, ∀ b ∈ f.keys, ρ a = ρ b → a = b)

include hρ

/-- A column of the differences: the renamed variable is disturbed in the same way. -/
theorem differenceColumn_renamed {k : Key} (hk : k ∈ f.keys) (value : Value α) (ε : α)
    (direction : Nat) : Renamed ρ Eq (f.differenceColumn vs k value ε direction)
      ((f.rename ρ).differenceColumn vs' (ρ k) value ε direction) := by
  have hmoved : ∀ step, Renamed ρ Eq (f.moved vs k value direction step)
      ((f.rename ρ).moved vs' (ρ k) value direction step) := fun step =>
    Relation.residual_renamed hf (h.insert hρ hk _)
  refine (hmoved ε).bind_eq fun plus => (hmoved (-ε)).bind_eq fun minus => ?_
  show Renamed ρ Eq (if plus.length = f.dim ∧ minus.length = f.dim then _ else _)
    (if plus.length = f.dim ∧ minus.length = f.dim then _ else _)
  split
  · exact .pure rfl
  · exact .error rfl

variable [Runtime α]

theorem differences_renamed (ε : α) :
    Renamed ρ Eq (f.differences vs ε) ((f.rename ρ).differences vs' ε) := by
  have hkeys : (f.rename ρ).keys = f.keys.map ρ := Relation.keys_rename hf
  rw [differences_eq hf, differences_eq (Relation.isBuiltIn_rename hf), hkeys]
  refine (h.subset hρ).bind fun own own' hown => Renamed.mapM fun k hk => ?_
  refine (hown.lookup hk).bind_eq fun value => ?_
  have hcolumns := Renamed.mapM (σ := id) (l := List.range value.dim) fun direction _ =>
    differenceColumn_renamed hf hown hρ hk value ε direction
  rwa [List.map_id] at hcolumns

/-- **The Jacobian blocks of a renamed factor** at the values under the new names. -/
theorem blocks_rename : (f.rename ρ).blocks vs' = (f.blocks vs).mapError (Fault.rename ρ) := by
  refine Renamed.eq_mapError ?_
  unfold blocks
  rcases Relation.exactBlocks_renamed hf h with ⟨hnone, hnone'⟩ | ⟨exact, exact', he, he', hblocks⟩
  · rw [hnone, rename, hnone']
    exact differences_renamed hf h hρ disturbance
  · rw [he, rename, he']
    exact hblocks

end Distinct

end Factor

end Articulated
