import Articulated.Proofs.Factor.Locality
import Articulated.Proofs.Values.Moving

/-!
# What a factor needs to be evaluated

A relation reads each of its variables as a value of one kind. It evaluates wherever these
variables have values of these kinds, and so does its linear model, as disturbing a value does not
change its kind.

* `Relation.reads`: the variables of a relation with the kinds that it reads them as.
* `Relation.residual_answers`: the residual evaluates, with as many rows as the relation has.
* `Factor.linearize_answers`: so does the linear model of a factor with a standard deviation for
  every row.
-/

namespace Articulated

/-! ## 1. Kinds of variables -/

namespace Values

variable {α : Type}

/-- The variables have values of the given kinds. -/
def HasKinds (vs : Values α) (reads : List (Key × ValueKind)) : Prop :=
  ∀ e ∈ reads, (vs.get? e.1).map Value.kind = some e.2

variable {vs : Values α} {reads : List (Key × ValueKind)} {k : Key}

theorem HasKinds.lookup (h : vs.HasKinds reads) {kind : ValueKind} (hk : (k, kind) ∈ reads) :
    Answers (fun v => v.kind = kind) (vs.lookup k) := by
  obtain ⟨v, hv, hkind⟩ := Option.map_eq_some_iff.1 (h _ hk)
  exact ⟨v, lookup_eq_ok.2 hv, hkind⟩

theorem HasKinds.scalar (h : vs.HasKinds reads) (hk : (k, .scalar) ∈ reads) :
    Answers (fun _ => True) (vs.scalar k) := by
  refine (h.lookup hk).bind fun v hv => ?_
  cases v with
  | scalar x => exact .pure trivial
  | vector x => cases hv
  | pose x => cases hv

theorem HasKinds.vector6 (h : vs.HasKinds reads) (hk : (k, .vector6) ∈ reads) :
    Answers (fun _ => True) (vs.vector6 k) := by
  refine (h.lookup hk).bind fun v hv => ?_
  cases v with
  | scalar x => cases hv
  | vector x => exact .pure trivial
  | pose x => cases hv

theorem HasKinds.pose (h : vs.HasKinds reads) (hk : (k, .pose) ∈ reads) :
    Answers (fun _ => True) (vs.pose k) := by
  refine (h.lookup hk).bind fun v hv => ?_
  cases v with
  | scalar x => cases hv
  | vector x => cases hv
  | pose x => exact .pure trivial

/-- The kinds stay the same if a variable takes another value of its kind. -/
theorem HasKinds.insert (h : vs.HasKinds reads) {v : Value α}
    (hv : (vs.get? k).map Value.kind = some v.kind) : (vs.insert k v).HasKinds reads := by
  intro e he
  rw [get?_insert]
  split
  · rename_i hk
    rw [← h e he, hk, hv]
    rfl
  · exact h e he

theorem HasKinds.of_moved {ks : List Key} {vs' : Values α} (h : vs.HasKinds reads)
    (hmoved : Moved ks vs vs') : vs'.HasKinds reads := fun e he =>
  (hmoved.kind_eq e.1).trans (h e he)

/-- A restriction to variables that have values. -/
theorem subset_answers {ks : List Key} (h : ∀ k ∈ ks, ∃ v, vs.get? k = some v) :
    Answers (fun _ => True) (vs.subset ks) := by
  unfold subset
  generalize (empty : Values α) = acc
  induction ks generalizing acc with
  | nil => exact .pure trivial
  | cons k ks ih =>
    obtain ⟨hk, hks⟩ := List.forall_mem_cons.1 h
    obtain ⟨v, hv⟩ := hk
    rw [List.foldlM_cons, lookup_eq_ok.2 hv]
    exact ih hks _

end Values

/-! ## 2. Relations -/

namespace Relation

variable {α : Type}

/-- The variables of the relation with the kinds of the values that it reads. Nothing is known of
a relation that is given from outside. -/
def reads : Relation α → List (Key × ValueKind)
  | prior k value => [(k, value.kind)]
  | between k₁ k₂ _ => [(k₁, .pose), (k₂, .pose)]
  | jointPose p c q _ => [(p, .pose), (c, .pose), (q, .scalar)]
  | jointTwist p c q v _ => [(p, .vector6), (c, .vector6), (q, .scalar), (v, .scalar)]
  | jointTwistAccel t p c q v a _ =>
    [(t, .vector6), (p, .vector6), (c, .vector6), (q, .scalar), (v, .scalar), (a, .scalar)]
  | wrenchBalance p v a ws _ _ _ =>
    (p, .pose) :: (v, .vector6) :: (a, .vector6) :: ws.map (·, .vector6)
  | wrenchEquivalence p c q _ => [(p, .vector6), (c, .vector6), (q, .scalar)]
  | torque w t _ => [(w, .vector6), (t, .scalar)]
  | wrenchPlanar w _ => [(w, .vector6)]
  | jointLimit k _ _ => [(k, .scalar)]
  | collocation x₀ x₁ r₀ r₁ step scheme =>
    (collocation x₀ x₁ r₀ r₁ step scheme).keys.map (·, .scalar)
  | custom _ => []

/-- The number of rows of the residual. -/
def rows : Relation α → Nat
  | prior _ value => value.dim
  | between .. | jointPose .. | jointTwist .. | jointTwistAccel .. | wrenchBalance ..
  | wrenchEquivalence .. => 6
  | wrenchPlanar _ rows => rows.length
  | torque .. | jointLimit .. | collocation .. => 1
  | custom _ => 0

theorem map_fst_reads : ∀ {r : Relation α}, r.IsBuiltIn → r.reads.map Prod.fst = r.keys
  | prior .., _ | between .., _ | jointPose .., _ | jointTwist .., _ | jointTwistAccel .., _
  | wrenchEquivalence .., _ | torque .., _ | wrenchPlanar .., _ | jointLimit .., _ => rfl
  | wrenchBalance p v a ws _ _ _, _ => by
    simp only [reads, keys, List.map_cons, List.map_map, Function.comp_def, List.map_id']
  | collocation .., _ => by
    simp only [reads, List.map_map, Function.comp_def, List.map_id']

variable [Scalar α] {vs : Values α}

theorem addWrenches_answers : ∀ {ws : List Key}, vs.HasKinds (ws.map (·, .vector6)) →
    ∀ sum, Answers (fun _ => True) (addWrenches vs ws sum)
  | [], _, _ => .pure trivial
  | w :: ws, h, _ => by
    obtain ⟨hw, hws⟩ := List.forall_mem_cons.1 h
    refine Answers.bind (Values.HasKinds.vector6 (List.forall_mem_singleton.2 hw)
      (List.mem_singleton.2 rfl)) fun x _ => ?_
    exact addWrenches_answers hws _

theorem readStep_answers {x₀ x₁ r₀ r₁ : Key} {step : TimeStep α} {scheme : CollocationScheme}
    (h : vs.HasKinds (collocation x₀ x₁ r₀ r₁ step scheme).reads) :
    Answers (fun _ => True) (readStep vs x₀ x₁ r₀ r₁ step scheme) := by
  refine (h.scalar (k := x₀) (by simp [reads, keys])).bind fun _ _ => ?_
  refine (h.scalar (k := x₁) (by simp [reads, keys])).bind fun _ _ => ?_
  refine (h.scalar (k := r₀) (by simp [reads, keys])).bind fun _ _ => ?_
  cases scheme with
  | euler =>
    cases step with
    | fixed dt => exact .pure trivial
    | phase k =>
      exact (h.scalar (k := k) (by simp [reads, keys, stepKeys])).bind fun _ _ => .pure trivial
  | trapezoidal =>
    refine (h.scalar (k := r₁)
      (by simp [reads, keys, CollocationScheme.readsEndRate])).bind fun _ _ => ?_
    cases step with
    | fixed dt => exact .pure trivial
    | phase k =>
      exact (h.scalar (k := k) (by simp [reads, keys, stepKeys])).bind fun _ _ => .pure trivial

/-- **Where its variables have the kinds that it reads, a relation evaluates to its number of
rows.** -/
theorem residual_answers : ∀ {r : Relation α}, r.IsBuiltIn → vs.HasKinds r.reads →
    Answers (fun rows => rows.length = r.rows) (r.residual vs)
  | prior k value, _, h => by
    refine (h.lookup (k := k) List.mem_cons_self).bind fun v hv => ?_
    cases value <;> cases v <;> first | exact ⟨_, rfl, rfl⟩ | cases hv
  | between k₁ k₂ _, _, h =>
    (h.pose (k := k₁) (by simp [reads])).bind fun _ _ =>
      (h.pose (k := k₂) (by simp [reads])).bind fun _ _ => .pure rfl
  | jointPose p c q _, _, h =>
    (h.pose (k := p) (by simp [reads])).bind fun _ _ =>
      (h.pose (k := c) (by simp [reads])).bind fun _ _ =>
      (h.scalar (k := q) (by simp [reads])).bind fun _ _ => .pure rfl
  | jointTwist p c q v _, _, h =>
    (h.vector6 (k := p) (by simp [reads])).bind fun _ _ =>
      (h.vector6 (k := c) (by simp [reads])).bind fun _ _ =>
      (h.scalar (k := q) (by simp [reads])).bind fun _ _ =>
      (h.scalar (k := v) (by simp [reads])).bind fun _ _ => .pure rfl
  | jointTwistAccel t p c q v a _, _, h =>
    (h.vector6 (k := t) (by simp [reads])).bind fun _ _ =>
      (h.vector6 (k := p) (by simp [reads])).bind fun _ _ =>
      (h.vector6 (k := c) (by simp [reads])).bind fun _ _ =>
      (h.scalar (k := q) (by simp [reads])).bind fun _ _ =>
      (h.scalar (k := v) (by simp [reads])).bind fun _ _ =>
      (h.scalar (k := a) (by simp [reads])).bind fun _ _ => .pure rfl
  | wrenchBalance p v a ws _ _ _, _, h =>
    (h.pose (k := p) (by simp [reads])).bind fun _ _ =>
      (h.vector6 (k := v) (by simp [reads])).bind fun _ _ =>
      (h.vector6 (k := a) (by simp [reads])).bind fun _ _ =>
      (addWrenches_answers (fun e he => h e (by simp [reads, List.mem_map.1 he])) _).bind
        fun _ _ => .pure rfl
  | wrenchEquivalence p c q _, _, h =>
    (h.vector6 (k := p) (by simp [reads])).bind fun _ _ =>
      (h.vector6 (k := c) (by simp [reads])).bind fun _ _ =>
      (h.scalar (k := q) (by simp [reads])).bind fun _ _ => .pure rfl
  | torque w t _, _, h =>
    (h.vector6 (k := w) (by simp [reads])).bind fun _ _ =>
      (h.scalar (k := t) (by simp [reads])).bind fun _ _ => .pure rfl
  | wrenchPlanar w _, _, h =>
    (h.vector6 (k := w) (by simp [reads])).bind fun _ _ => .pure (List.length_map _)
  | jointLimit k _ _, _, h =>
    (h.scalar (k := k) (by simp [reads])).bind fun _ _ => .pure rfl
  | collocation .., _, h => (readStep_answers h).bind fun _ _ => .pure rfl

/-- So do its exact Jacobian blocks, if it has some. -/
theorem exactBlocks_answers {exact : Values α → Except (Fault α) (List (Block α))} :
    ∀ {r : Relation α}, r.IsBuiltIn → vs.HasKinds r.reads → r.exactBlocks? = some exact →
      Answers (fun _ => True) (exact vs)
  | prior _ (.scalar _), _, _, he | prior _ (.vector _), _, _, he | torque .., _, _, he
  | wrenchPlanar .., _, _, he => by
    obtain rfl := Option.some.inj he
    exact .pure trivial
  | jointLimit k _ _, _, h, he => by
    obtain rfl := Option.some.inj he
    exact (h.scalar (k := k) (by simp [reads])).bind fun _ _ => .pure trivial
  | collocation .., _, h, he => by
    obtain rfl := Option.some.inj he
    exact (readStep_answers h).bind fun _ _ => .pure trivial

end Relation

/-! ## 3. Factors -/

namespace Factor

variable {α : Type}

/-- The relation is one of the library, with a standard deviation for every row. -/
structure IsRegular (f : Factor α) : Prop where
  isBuiltIn : f.relation.IsBuiltIn
  dim_eq : f.dim = f.relation.rows

theorem isRegular_isotropic {r : Relation α} (hr : r.IsBuiltIn) (sigma : α) :
    (isotropic r r.rows sigma).IsRegular := ⟨hr, List.length_replicate⟩

variable [Scalar α] {f : Factor α} {vs : Values α}

theorem residual_answers (hf : f.IsRegular) (h : vs.HasKinds f.relation.reads) :
    Answers (fun rows => rows.length = f.dim) (f.residual vs) := by
  rw [hf.dim_eq]
  exact Relation.residual_answers hf.isBuiltIn h

theorem whiten_answers {n : Noise α} {rows : List α} (h : rows.length = n.dim) :
    Answers (fun _ => True) (n.whiten rows) := by
  unfold Noise.whiten
  rw [if_pos h]
  exact .pure trivial

/-- Where its variables have the kinds that it reads, a factor costs something. -/
theorem cost_answers (hf : f.IsRegular) (h : vs.HasKinds f.relation.reads) :
    Answers (fun _ => True) (f.cost vs) :=
  ((residual_answers hf h).bind fun _ => whiten_answers).bind fun _ _ => .pure trivial

/-- With one standard deviation all rows are divided by it. -/
theorem whiten_isotropic {n : Nat} {rows : List α} (h : rows.length = n) (sigma : α) :
    (Noise.isotropic n sigma).whiten rows = .ok (rows.map (· / sigma)) := by
  have hdim : rows.length = (Noise.isotropic n sigma).dim := h.trans List.length_replicate.symm
  unfold Noise.whiten
  rw [if_pos hdim, Noise.isotropic, ← h, ← List.map_const', List.zipWith_map_right,
    List.zipWith_self]
  rfl

/-- A column of the central differences evaluates where the variables have values of their kinds,
as these are kept by the disturbance. -/
theorem differenceColumn_answers (hf : f.IsRegular) (h : vs.HasKinds f.relation.reads) {k : Key}
    {value : Value α} (hv : vs.get? k = some value) (ε : α) (direction : Nat) :
    Answers (fun _ => True) (f.differenceColumn vs k value ε direction) := by
  have hmoved : ∀ step, Answers (fun rows => rows.length = f.dim)
      (f.moved vs k value direction step) := fun step =>
    residual_answers hf (h.of_moved (Values.moved_insert (by rw [hv]; rfl) _))
  refine (hmoved ε).bind fun plus hplus => (hmoved (-ε)).bind fun minus hminus => ?_
  rw [if_pos ⟨hplus, hminus⟩]
  exact .pure trivial

omit [Scalar α] in
/-- The restriction to its own variables, over which a factor is differentiated. -/
theorem exists_own (hf : f.relation.IsBuiltIn) (h : vs.HasKinds f.relation.reads) :
    ∃ own, vs.subset f.keys = .ok own ∧ own.HasKinds f.relation.reads ∧
      ∀ k ∈ f.keys, ∃ v, own.get? k = some v := by
  have hkeys : ∀ k ∈ f.keys, ∃ kind, (k, kind) ∈ f.relation.reads := by
    intro k hk
    rw [keys, ← Relation.map_fst_reads hf] at hk
    obtain ⟨e, he, rfl⟩ := List.mem_map.1 hk
    exact ⟨e.2, he⟩
  have hdefined : ∀ k ∈ f.keys, ∃ v, vs.get? k = some v := by
    intro k hk
    obtain ⟨kind, hkind⟩ := hkeys k hk
    obtain ⟨v, hv, -⟩ := Option.map_eq_some_iff.1 (h _ hkind)
    exact ⟨v, hv⟩
  obtain ⟨own, hown, -⟩ := Values.subset_answers hdefined
  have hget : ∀ k ∈ f.keys, own.get? k = vs.get? k := fun k hk => by
    rw [Values.get?_subset hown, if_pos hk]
  refine ⟨own, hown, fun e he => ?_, fun k hk => hget k hk ▸ hdefined k hk⟩
  have hkey : e.1 ∈ f.keys := by
    rw [keys, ← Relation.map_fst_reads hf]
    exact List.mem_map_of_mem he
  rw [hget _ hkey]
  exact h e he

theorem differences_answers [Runtime α] (hf : f.IsRegular) (h : vs.HasKinds f.relation.reads)
    (ε : α) : Answers (fun _ => True) (f.differences vs ε) := by
  obtain ⟨own, hown, hkinds, hdefined⟩ := exists_own hf.isBuiltIn h
  refine Answers.bind (P := fun o => o = own) ⟨own, hown, rfl⟩ ?_
  rintro _ rfl
  refine (Answers.inParallel (Q := fun _ => True) fun k hk => ?_).mono fun _ _ => trivial
  obtain ⟨v, hv⟩ := hdefined k hk
  unfold differenceBlock
  rw [Values.lookup_eq_ok.2 hv]
  refine (Answers.mapM (Q := fun _ => True) fun direction _ => ?_).mono fun _ _ => trivial
  exact differenceColumn_answers hf hkinds hv ε direction

theorem blocks_answers [Runtime α] (hf : f.IsRegular) (h : vs.HasKinds f.relation.reads) :
    Answers (fun _ => True) (f.blocks vs) := by
  unfold blocks
  split
  · rename_i exact hexact
    exact Relation.exactBlocks_answers hf.isBuiltIn h hexact
  · exact differences_answers hf h disturbance

/-- **Where its variables have the kinds that it reads, a factor has a linear model.** -/
theorem linearize_answers [Runtime α] (hf : f.IsRegular) (h : vs.HasKinds f.relation.reads)
    (whiten : Bool) : Answers (fun _ => True) (f.linearize vs whiten) := by
  refine (residual_answers hf h).bind fun rows hrows => (blocks_answers hf h).bind fun _ _ => ?_
  cases whiten with
  | false => exact .pure trivial
  | true => exact (whiten_answers hrows).bind fun _ _ => .pure trivial

end Factor

end Articulated
