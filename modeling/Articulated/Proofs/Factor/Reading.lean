import Articulated.Proofs.Factor.Kinds

/-!
# Why a factor does not evaluate

A relation of the library reads every variable that it declares, one after the other, and can fail
for no other reason than that it cannot read one of them: it is missing, or its value is of another
kind. So a relation without the value of one of its variables does not evaluate, and the variable
that it names is one of its own.

* `Values.ReadingFault`: a fault that says of a variable why it cannot be read.
* `Reads`: a computation that reads some variables, and fails for no other reason.
* `Relation.residual_reads`: the residual of a relation reads its variables.
* `Factor.linearize_faults`: the linear model fails because of a variable, or because the noise
  does not fit the rows of the residual.
-/

namespace Articulated

/-! ## 1. Reading -/

section Reading

variable {α β γ : Type}

/-- Why a variable cannot be read as a value of some kind. -/
def Values.readingFault? (vs : Values α) (read : Key × ValueKind) : Option (Fault α) :=
  match (vs.get? read.1).map Value.kind with
  | none => some (.missing read.1)
  | some found => if found = read.2 then none else some (.kindMismatch read.1 read.2 found)

theorem Values.HasKinds.findSome?_eq {vs : Values α} {reads : List (Key × ValueKind)}
    (h : vs.HasKinds reads) : reads.findSome? vs.readingFault? = none := by
  refine List.findSome?_eq_none_iff.2 fun e he => ?_
  unfold readingFault?
  rw [h e he]
  exact if_pos rfl

/-- The fault says of a variable with a property that it has no value, or one of another kind than
the one that is read. -/
inductive Values.ReadingFault (vs : Values α) (p : Key → Prop) : Fault α → Prop where
  | missing {k : Key} (hk : p k) (h : vs.get? k = none) : ReadingFault vs p (.missing k)
  | kindMismatch {k : Key} {v : Value α} {expected : ValueKind} (hk : p k) (h : vs.get? k = some v)
      (hne : v.kind ≠ expected) : ReadingFault vs p (.kindMismatch k expected v.kind)

theorem Values.ReadingFault.mono {vs : Values α} {p q : Key → Prop} {e : Fault α}
    (h : vs.ReadingFault p e) (hpq : ∀ k, p k → q k) : vs.ReadingFault q e := by
  cases h with
  | missing hk h => exact .missing (hpq _ hk) h
  | kindMismatch hk h hne => exact .kindMismatch (hpq _ hk) h hne

/-- The computation reads some variables as values of some kinds, one after the other, and fails
only if it cannot read one of them, the first of which it names. -/
structure Reads (vs : Values α) (reads : List (Key × ValueKind)) (x : Except (Fault α) β) :
    Prop where
  kinds : ∀ b, x = .ok b → vs.HasKinds reads
  first : Faults (fun e => reads.findSome? vs.readingFault? = some e) x

namespace Reads

variable {vs : Values α} {reads reads' : List (Key × ValueKind)} {x : Except (Fault α) β} {k : Key}
  {kind : ValueKind}

theorem faults (hx : Reads vs reads x) : Faults (vs.ReadingFault (· ∈ reads.map Prod.fst)) x := by
  refine hx.first.mono fun e he => ?_
  obtain ⟨read, hread, hfault⟩ := List.exists_of_findSome?_eq_some he
  have hk : read.1 ∈ reads.map Prod.fst := List.mem_map_of_mem hread
  unfold Values.readingFault? at hfault
  cases hv : vs.get? read.1 with
  | none =>
    rw [hv] at hfault
    obtain rfl := Option.some.inj hfault
    exact .missing hk hv
  | some v =>
    rw [hv, Option.map_some] at hfault
    dsimp only at hfault
    split at hfault
    · cases hfault
    · rename_i hne
      obtain rfl := Option.some.inj hfault
      exact .kindMismatch hk hv hne

theorem pure (b : β) : Reads vs [] (Pure.pure b : Except (Fault α) β) :=
  ⟨fun _ _ => List.forall_mem_nil _, .pure b⟩

theorem bind {f : β → Except (Fault α) γ} (hx : Reads vs reads x)
    (hf : ∀ b, Reads vs reads' (f b)) : Reads vs (reads ++ reads') (x >>= f) := by
  constructor
  · intro c hc
    obtain ⟨b, hb, hc⟩ := bind_eq_ok.1 hc
    exact List.forall_mem_append.2 ⟨hx.kinds b hb, (hf b).kinds c hc⟩
  · rw [List.findSome?_append]
    refine (hx.first.mono fun e he => ?_).bind fun b hb => ?_
    · rw [he, Option.some_or]
    · rw [(hx.kinds b hb).findSome?_eq, Option.none_or]
      exact (hf b).first

theorem map {f : β → γ} (hx : Reads vs reads x) : Reads vs reads (do return f (← x)) :=
  List.append_nil reads ▸ hx.bind fun b => pure (f b)

/-- One variable is read, and used if it is of the kind. -/
theorem lookup_bind {f : Value α → Except (Fault α) β}
    (hother : ∀ v, v.kind ≠ kind → f v = .error (.kindMismatch k kind v.kind))
    (hok : ∀ v, v.kind = kind → ∃ b, f v = .ok b) :
    Reads vs [(k, kind)] (vs.lookup k >>= f) := by
  cases hv : vs.get? k with
  | none =>
    have hlookup : vs.lookup k = .error (.missing k) := by
      unfold Values.lookup
      rw [hv]
    rw [hlookup]
    refine ⟨nofun, .error ?_⟩
    simp only [List.findSome?_cons, Values.readingFault?, hv, Option.map_none]
  | some v =>
    rw [Values.lookup_eq_ok.2 hv]
    by_cases hkind : v.kind = kind
    · obtain ⟨b, hb⟩ := hok v hkind
      exact ⟨fun _ _ => List.forall_mem_singleton.2 (hkind ▸ congrArg (Option.map Value.kind) hv),
        .of_ok hb⟩
    · refine ⟨fun b hb => ?_, fun e he => ?_⟩
      · cases (hother v hkind).symm.trans hb
      · cases (hother v hkind).symm.trans he
        simp only [List.findSome?_cons, Values.readingFault?, hv, Option.map_some, if_neg hkind]

theorem scalar (vs : Values α) (k : Key) : Reads vs [(k, .scalar)] (vs.scalar k) := by
  refine lookup_bind (fun v hne => ?_) fun v heq => ?_
  · cases v with
    | scalar x => exact absurd rfl hne
    | vector x | pose x => rfl
  · cases v with
    | scalar x => exact ⟨x, rfl⟩
    | vector x | pose x => cases heq

theorem vector6 (vs : Values α) (k : Key) : Reads vs [(k, .vector6)] (vs.vector6 k) := by
  refine lookup_bind (fun v hne => ?_) fun v heq => ?_
  · cases v with
    | vector x => exact absurd rfl hne
    | scalar x | pose x => rfl
  · cases v with
    | vector x => exact ⟨x, rfl⟩
    | scalar x | pose x => cases heq

theorem pose (vs : Values α) (k : Key) : Reads vs [(k, .pose)] (vs.pose k) := by
  refine lookup_bind (fun v hne => ?_) fun v heq => ?_
  · cases v with
    | pose x => exact absurd rfl hne
    | scalar x | vector x => rfl
  · cases v with
    | pose x => exact ⟨x, rfl⟩
    | scalar x | vector x => cases heq

end Reads

end Reading

/-! ## 2. Relations -/

namespace Relation

variable {α : Type} [Scalar α] {vs : Values α}

theorem addWrenches_reads : ∀ ws sum, Reads vs (ws.map (·, .vector6)) (addWrenches vs ws sum)
  | [], sum => .pure sum
  | w :: ws, _ => (Reads.vector6 vs w).bind fun _ => addWrenches_reads ws _

theorem readStep_reads (x₀ x₁ r₀ r₁ : Key) (step : TimeStep α) (scheme : CollocationScheme) :
    Reads vs (collocation x₀ x₁ r₀ r₁ step scheme).reads
      (readStep vs x₀ x₁ r₀ r₁ step scheme) := by
  refine (Reads.scalar vs x₀).bind fun _ => (Reads.scalar vs x₁).bind fun _ =>
    (Reads.scalar vs r₀).bind fun _ => ?_
  cases scheme with
  | euler =>
    cases step with
    | fixed dt => exact .pure _
    | phase k => exact (Reads.scalar vs k).map
  | trapezoidal =>
    refine (Reads.scalar vs r₁).bind fun _ => ?_
    cases step with
    | fixed dt => exact .pure _
    | phase k => exact (Reads.scalar vs k).map

/-- **The residual of a relation reads its variables**, each as a value of its kind, and fails for
no other reason. -/
theorem residual_reads : ∀ {r : Relation α}, r.IsBuiltIn → Reads vs r.reads (r.residual vs)
  | prior k value, _ => by
    refine .lookup_bind (fun v hne => ?_) fun v heq => ?_
    · cases value <;> cases v <;> first | rfl | exact absurd rfl hne
    · cases value <;> cases v <;> first | exact ⟨_, rfl⟩ | cases heq
  | between k₁ k₂ _, _ => (Reads.pose vs k₁).bind fun _ => (Reads.pose vs k₂).map
  | jointPose p c q _, _ =>
    (Reads.pose vs p).bind fun _ => (Reads.pose vs c).bind fun _ => (Reads.scalar vs q).map
  | jointTwist p c q v _, _ =>
    (Reads.vector6 vs p).bind fun _ => (Reads.vector6 vs c).bind fun _ =>
      (Reads.scalar vs q).bind fun _ => (Reads.scalar vs v).map
  | jointTwistAccel t p c q v a _, _ =>
    (Reads.vector6 vs t).bind fun _ => (Reads.vector6 vs p).bind fun _ =>
      (Reads.vector6 vs c).bind fun _ => (Reads.scalar vs q).bind fun _ =>
      (Reads.scalar vs v).bind fun _ => (Reads.scalar vs a).map
  | wrenchBalance p v a ws _ _ _, _ =>
    (Reads.pose vs p).bind fun _ => (Reads.vector6 vs v).bind fun _ =>
      (Reads.vector6 vs a).bind fun _ => (addWrenches_reads ws _).map
  | wrenchEquivalence p c q _, _ =>
    (Reads.vector6 vs p).bind fun _ => (Reads.vector6 vs c).bind fun _ => (Reads.scalar vs q).map
  | torque w t _, _ => (Reads.vector6 vs w).bind fun _ => (Reads.scalar vs t).map
  | wrenchPlanar w _, _ => (Reads.vector6 vs w).map
  | jointLimit k _ _, _ => (Reads.scalar vs k).map
  | collocation x₀ x₁ r₀ r₁ step scheme, _ => (readStep_reads x₀ x₁ r₀ r₁ step scheme).map

/-- A fault of a relation names one of its own variables. -/
theorem residual_faults {r : Relation α} (hr : r.IsBuiltIn) :
    Faults (vs.ReadingFault (· ∈ r.keys)) (r.residual vs) :=
  map_fst_reads hr ▸ (residual_reads hr).faults

/-- Where a relation evaluates, its variables are of the kinds that it asks for, so any two
assignments at which it does have values of the same kinds. -/
theorem kinds_agree {r : Relation α} (hr : r.IsBuiltIn) {vs' : Values α} {rows rows' : List α}
    (h : r.residual vs = .ok rows) (h' : r.residual vs' = .ok rows') {k : Key} (hk : k ∈ r.keys) :
    (vs'.get? k).map Value.kind = (vs.get? k).map Value.kind := by
  rw [← map_fst_reads hr] at hk
  obtain ⟨e, he, rfl⟩ := List.mem_map.1 hk
  exact ((residual_reads hr).kinds rows' h' e he).trans
    ((residual_reads hr).kinds rows h e he).symm

end Relation

/-! ## 3. Factors -/

namespace Factor

variable {α : Type} [Scalar α] {f : Factor α} {vs : Values α}

/-- Without the value of one of its variables, a factor of the library does not evaluate. -/
theorem residual_ne_ok (hf : f.relation.IsBuiltIn) {k : Key} (hk : k ∈ f.keys)
    (hv : vs.get? k = none) (rows : List α) : f.residual vs ≠ .ok rows := by
  intro hrows
  rw [keys, ← Relation.map_fst_reads hf] at hk
  obtain ⟨e, he, rfl⟩ := List.mem_map.1 hk
  have hkind := (Relation.residual_reads hf).kinds rows hrows e he
  rw [hv] at hkind
  cases hkind

/-- The noise has not one standard deviation for every row of the residual. -/
def RowsBreach (e : Fault α) : Prop := ∃ rows sigmas, e = .breach (.residualRows rows sigmas)

/-- What a column of the central differences fails with, if it does: with the first variable that
cannot be read, or else because the noise does not fit. -/
def columnFault (f : Factor α) (vs : Values α) : Fault α :=
  (f.relation.reads.findSome? vs.readingFault?).getD
    (.breach (.residualRows f.relation.rows f.dim))

omit [Scalar α] in
theorem columnFault_eq (h : vs.HasKinds f.relation.reads) :
    f.columnFault vs = .breach (.residualRows f.relation.rows f.dim) := by
  rw [columnFault, h.findSome?_eq, Option.getD_none]

theorem differenceColumn_faults (hf : f.relation.IsBuiltIn) {k : Key} {v : Value α}
    (hv : vs.get? k = some v) (ε : α) (direction : Nat) :
    Faults (· = f.columnFault vs) (f.differenceColumn vs k v ε direction) := by
  have hkind : ∀ step q, ((vs.insert k (v.retract (Scalar.axis v.dim direction step))).get? q).map
      Value.kind = (vs.get? q).map Value.kind := fun step =>
    (Values.moved_insert (by rw [hv]; rfl) _).kind_eq
  -- A disturbed value is of the same kind, so it can be read where the given one can.
  have hmoved : ∀ step, Faults (· = f.columnFault vs) (f.moved vs k v direction step) := by
    intro step e he
    have hfirst := (Relation.residual_reads hf).first e he
    unfold columnFault
    unfold Values.readingFault? at hfirst ⊢
    simp only [hkind] at hfirst
    rw [hfirst, Option.getD_some]
  refine (hmoved ε).bind fun plus hplus => (hmoved (-ε)).bind fun minus _ => ?_
  have hkinds : vs.HasKinds f.relation.reads := fun e he =>
    (hkind ε e.1).symm.trans ((Relation.residual_reads hf).kinds plus hplus e he)
  obtain ⟨rows, hrows, hlength⟩ := Relation.residual_answers hf
    ((Relation.residual_reads hf).kinds plus hplus)
  split
  · exact .pure _
  · refine .error ?_
    rw [columnFault_eq hkinds, ← hlength, answer_unique hplus hrows]

theorem differenceBlock_faults (hf : f.relation.IsBuiltIn) {k : Key}
    (hk : ∃ v, vs.get? k = some v) (ε : α) :
    Faults (· = f.columnFault vs) (f.differenceBlock vs ε k) := by
  obtain ⟨v, hv⟩ := hk
  refine .bind (.of_ok (Values.lookup_eq_ok.2 hv)) fun v' hv' => ?_
  obtain rfl := answer_unique (Values.lookup_eq_ok.2 hv) hv'
  exact .mapM fun direction _ => differenceColumn_faults hf hv ε direction

variable [Runtime α]

/-- **The blocks of a factor of the library do not depend on what runs them**: they are the same as
one after the other, and so is the fault if there is one. -/
theorem differences_eq (hf : f.relation.IsBuiltIn) (vs : Values α) (ε : α) :
    f.differences vs ε = (do
      let own ← vs.subset f.keys
      f.keys.mapM (f.differenceBlock own ε)) := by
  unfold differences
  cases hown : vs.subset f.keys with
  | error e => rfl
  | ok own =>
    refine inParallel_eq_mapM fun k hk => differenceBlock_faults hf ?_ ε
    rw [Values.get?_subset hown, if_pos hk]
    exact Values.defined_of_subset hown hk

theorem differences_faults (hf : f.relation.IsBuiltIn) (h : vs.HasKinds f.relation.reads) (ε : α) :
    Faults RowsBreach (f.differences vs ε) := by
  obtain ⟨own, hown, hkinds, hdefined⟩ := exists_own hf h
  refine .bind (.of_ok hown) fun own' hown' => ?_
  obtain rfl := answer_unique hown hown'
  refine .inParallel fun k hk => (differenceBlock_faults hf (hdefined k hk) ε).mono ?_
  rintro _ rfl
  exact ⟨_, _, columnFault_eq hkinds⟩

theorem blocks_faults (hf : f.relation.IsBuiltIn) (h : vs.HasKinds f.relation.reads) :
    Faults RowsBreach (f.blocks vs) := by
  unfold blocks
  split
  · rename_i exact hexact
    obtain ⟨blocks, hblocks, -⟩ := Relation.exactBlocks_answers hf h hexact
    exact .of_ok hblocks
  · exact differences_faults hf h disturbance

/-- **The linear model of a factor of the library fails for one of two reasons**: a variable of the
factor cannot be read, or the noise does not fit the residual. -/
theorem linearize_faults (hf : f.relation.IsBuiltIn) :
    Faults (fun e => vs.ReadingFault (· ∈ f.keys) e ∨ ¬ f.IsRegular ∧ RowsBreach e)
      (f.linearize vs false) := by
  refine ((Relation.residual_faults hf).mono fun e => .inl).bind fun rows hrows => ?_
  have hkinds := (Relation.residual_reads hf).kinds rows hrows
  refine Faults.bind ?_ fun blocks _ => .pure _
  by_cases hregular : f.IsRegular
  · obtain ⟨blocks, hblocks, -⟩ := blocks_answers hregular hkinds
    exact .of_ok hblocks
  · exact (blocks_faults hf hkinds).mono fun e he => .inr ⟨hregular, he⟩

end Factor

end Articulated
