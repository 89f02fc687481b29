import Articulated.Graph.Basic
import Articulated.Graph.Jacobian
import Articulated.Proofs.Factor.Reading

/-!
# Shapes of linear models

A linear model is cut and put together by its shape: a block has a column for every tangent
coordinate of its variable, and every column has an entry for every row of the residual. Whitening
and stacking check this and break off where it does not hold. It holds of every model of a factor
of the library with a standard deviation for every row, wherever the factor evaluates, whether its
derivatives are known or found by differences.

* `Values.HasBlocks`: blocks that fit some variables.
* `Relation.exactBlocks_shape`, `Factor.differences_hasBlocks`: the two sources of blocks.
* `Jacobian.stack_faults`: models of this shape are stacked over all variables that have values.
* `FactorGraph.Sound`: what is asked of a graph for none of this to break off;
  `FactorGraph.sound_of_regular`: regular factors suffice.
-/

namespace Articulated

/-! ## 1. Blocks and their variables -/

/-- The dimension of the tangent space at a value of the kind. -/
def ValueKind.dim : ValueKind → Nat
  | scalar => 1
  | vector6 | pose => 6

section Blocks

variable {α : Type}

theorem Value.dim_kind (v : Value α) : v.kind.dim = v.dim := by
  cases v <;> rfl

theorem Value.dim_pos (v : Value α) : 0 < v.dim := by
  cases v <;> exact Nat.succ_pos _

/-- A column for every tangent coordinate, and an entry for every row. -/
def Block.HasShape (width rows : Nat) (b : Block α) : Prop :=
  b.length = width ∧ ∀ c ∈ b, c.length = rows

/-- A block for each of the variables, with a column for every tangent coordinate of its value and
an entry for every row. -/
def Values.HasBlocks (vs : Values α) (rows : Nat) (keys : List Key) (blocks : List (Block α)) :
    Prop :=
  List.Forall₂ (fun k b => ∃ v, vs.get? k = some v ∧ Block.HasShape v.dim rows b) keys blocks

variable {vs : Values α} {rows : Nat} {keys : List Key} {blocks : List (Block α)}

theorem Values.HasKinds.hasBlocks {reads : List (Key × ValueKind)} (h : vs.HasKinds reads)
    (hblocks : List.Forall₂ (fun e b => Block.HasShape e.2.dim rows b) reads blocks) :
    vs.HasBlocks rows (reads.map Prod.fst) blocks := by
  refine List.forall₂_map_left_iff.2 (((List.forall₂_and_left _ _).2 ⟨h, hblocks⟩).imp ?_)
  rintro e b ⟨he, hb⟩
  obtain ⟨v, hv, hkind⟩ := Option.map_eq_some_iff.1 he
  exact ⟨v, hv, v.dim_kind ▸ hkind ▸ hb⟩

theorem Values.HasBlocks.shape_of_mem (h : vs.HasBlocks rows keys blocks) {k : Key} {b : Block α}
    {v : Value α} (hv : vs.get? k = some v) (hmem : (k, b) ∈ keys.zip blocks) :
    Block.HasShape v.dim rows b := by
  obtain ⟨w, hw, hshape⟩ := (List.forall₂_iff_zip.1 h).2 hmem
  obtain rfl : v = w := Option.some.inj (hv.symm.trans hw)
  exact hshape

end Blocks

/-! ## 2. Exact derivatives -/

namespace Relation

variable {α : Type} [Scalar α] {vs : Values α}

omit [Scalar α] in
theorem hasShape_scalarBlock (x : α) : Block.HasShape 1 1 (scalarBlock x) :=
  ⟨rfl, List.forall_mem_singleton.2 rfl⟩

theorem hasShape_identityBlock (n : Nat) : Block.HasShape n n (identityBlock n : Block α) := by
  refine ⟨(List.length_map _).trans List.length_range, List.forall_mem_map.2 fun i _ => ?_⟩
  exact (List.length_map _).trans List.length_range

/-- **Exact blocks have the shape of the kinds that the relation reads**, whatever the values. -/
theorem exactBlocks_shape {exact : Values α → Except (Fault α) (List (Block α))}
    {blocks : List (Block α)} : ∀ {r : Relation α}, r.IsBuiltIn → r.exactBlocks? = some exact →
      exact vs = .ok blocks →
        List.Forall₂ (fun e b => Block.HasShape e.2.dim r.rows b) r.reads blocks
  | prior _ (.scalar _), _, he, hblocks => by
    obtain rfl := Option.some.inj he
    obtain rfl := pure_eq_ok.1 hblocks
    exact .cons (hasShape_identityBlock 1) .nil
  | prior _ (.vector _), _, he, hblocks => by
    obtain rfl := Option.some.inj he
    obtain rfl := pure_eq_ok.1 hblocks
    exact .cons (hasShape_identityBlock 6) .nil
  | torque _ _ screw, _, he, hblocks => by
    obtain rfl := Option.some.inj he
    obtain rfl := pure_eq_ok.1 hblocks
    refine .cons ⟨rfl, List.forall_mem_map.2 fun s _ => rfl⟩ (.cons (hasShape_scalarBlock _) .nil)
  | wrenchPlanar _ rows, _, he, hblocks => by
    obtain rfl := Option.some.inj he
    obtain rfl := pure_eq_ok.1 hblocks
    exact .cons ⟨rfl, List.forall_mem_map.2 fun i _ => List.length_map _⟩ .nil
  | jointLimit _ _ _, _, he, hblocks => by
    obtain rfl := Option.some.inj he
    obtain ⟨x, -, rfl⟩ := map_eq_ok.1 hblocks
    exact .cons (hasShape_scalarBlock _) .nil
  | collocation x₀ x₁ r₀ r₁ step scheme, _, he, hblocks => by
    obtain rfl := Option.some.inj he
    obtain ⟨⟨a₀, a₁, b₀, b₁, dt⟩, -, rfl⟩ := map_eq_ok.1 hblocks
    refine .cons (hasShape_scalarBlock _) (.cons (hasShape_scalarBlock _) ?_)
    cases scheme with
    | euler =>
      refine .cons (hasShape_scalarBlock _) ?_
      cases step with
      | fixed dt => exact .nil
      | phase k => exact .cons (hasShape_scalarBlock _) .nil
    | trapezoidal =>
      refine .cons (hasShape_scalarBlock _) (.cons (hasShape_scalarBlock _) ?_)
      cases step with
      | fixed dt => exact .nil
      | phase k => exact .cons (hasShape_scalarBlock _) .nil

end Relation

/-! ## 3. Factors -/

namespace Factor

variable {α : Type} [Scalar α] {f : Factor α} {vs : Values α} {blocks : List (Block α)} {ε : α}

theorem length_differenceColumn {k : Key} {value : Value α} {direction : Nat} {c : List α}
    (h : f.differenceColumn vs k value ε direction = .ok c) : c.length = f.dim := by
  obtain ⟨plus, -, h⟩ := bind_eq_ok.1 h
  obtain ⟨minus, -, h⟩ := bind_eq_ok.1 h
  split at h
  · rename_i hlength
    obtain rfl := pure_eq_ok.1 h
    rw [List.length_zipWith, hlength.1, hlength.2, Nat.min_self]
  · cases h

/-- **Central differences fit the variables of the factor**: there is a column for every direction
in which a variable is disturbed. -/
theorem differences_hasBlocks [Runtime α] (h : f.differences vs ε = .ok blocks) :
    vs.HasBlocks f.dim f.keys blocks := by
  obtain ⟨own, hown, h⟩ := bind_eq_ok.1 h
  have hall := mapM_eq_ok.1 (inParallel_eq_ok.1 h)
  refine ((List.forall₂_and_left f.keys _).2 ⟨fun _ => id, hall⟩).imp ?_
  rintro k b ⟨hk, hb⟩
  obtain ⟨v, hv, hcolumns⟩ := bind_eq_ok.1 hb
  refine ⟨v, ?_, ?_, fun c hc => ?_⟩
  · have hget := Values.get?_subset hown k
    rw [if_pos hk] at hget
    exact hget.symm.trans (Values.lookup_eq_ok.1 hv)
  · exact (mapM_eq_ok.1 hcolumns).length_eq.symm.trans List.length_range
  · obtain ⟨direction, -, hcolumn⟩ := exists_computation hcolumns hc
    exact length_differenceColumn hcolumn

theorem blocks_hasBlocks [Runtime α] (hf : f.IsRegular) (hkinds : vs.HasKinds f.relation.reads)
    (h : f.blocks vs = .ok blocks) : vs.HasBlocks f.dim f.keys blocks := by
  unfold Factor.blocks at h
  split at h
  · rename_i exact hexact
    rw [hf.dim_eq, keys, ← Relation.map_fst_reads hf.isBuiltIn]
    exact hkinds.hasBlocks (Relation.exactBlocks_shape hf.isBuiltIn hexact h)
  · exact differences_hasBlocks h

/-- **Where a regular factor evaluates, its derivatives do too**, with a block that fits for each of
its variables. -/
theorem exists_blocks [Runtime α] (hf : f.IsRegular) {rows : List α}
    (h : f.residual vs = .ok rows) :
    rows.length = f.dim ∧
      ∃ blocks, f.blocks vs = .ok blocks ∧ vs.HasBlocks f.dim f.keys blocks := by
  have hkinds := (Relation.residual_reads hf.isBuiltIn).kinds rows h
  obtain ⟨rows', hrows', hlength⟩ := residual_answers hf hkinds
  obtain ⟨blocks, hblocks, -⟩ := blocks_answers hf hkinds
  exact ⟨answer_unique h hrows' ▸ hlength, blocks, hblocks, blocks_hasBlocks hf hkinds hblocks⟩

theorem length_whitened {rows : List α} (hrows : rows.length = f.dim) :
    ∃ white, f.noise.whiten rows = .ok white ∧ white.length = f.dim := by
  refine ⟨_, if_pos hrows, ?_⟩
  rw [List.length_zipWith, hrows]
  exact Nat.min_self _

end Factor

/-- Whitening keeps the length of a column. -/
theorem Noise.length_whitenColumn {α : Type} [Scalar α] : ∀ σ xs : List α,
    (whitenColumn σ xs).length = xs.length
  | [], _ | _ :: _, [] => by simp [whitenColumn]
  | _ :: σ, _ :: xs => congrArg (· + 1) (length_whitenColumn σ xs)

theorem Noise.hasBlocks_whiten {α : Type} [Scalar α] (n : Noise α) {vs : Values α} {rows : Nat}
    {keys : List Key} {blocks : List (Block α)} (h : vs.HasBlocks rows keys blocks) :
    vs.HasBlocks rows keys (blocks.map n.whitenBlock) := by
  refine List.forall₂_map_right_iff.2 (h.imp fun k b hb => ?_)
  obtain ⟨v, hv, hwidth, hrows⟩ := hb
  refine ⟨v, hv, (List.length_map _).trans hwidth, List.forall_mem_map.2 fun c hc => ?_⟩
  exact (length_whitenColumn _ c).trans (hrows c hc)

/-! ## 4. Stacks -/

/-- The blocks of a linear model fit its variables and the rows of its residual. -/
def Linearization.Fits {α : Type} (l : Linearization α) (vs : Values α) : Prop :=
  vs.HasBlocks l.residual.length l.keys l.blocks

/-- Blocks that fit make a linear model that fits. -/
theorem Factor.linearize_fits {α : Type} [Scalar α] [Runtime α] {f : Factor α} {vs : Values α}
    {rows : List α} {blocks : List (Block α)} (h : f.residual vs = .ok rows)
    (hrows : rows.length = f.dim) (hblocks : f.blocks vs = .ok blocks)
    (hfits : vs.HasBlocks f.dim f.keys blocks) (whiten : Bool) :
    ∃ l, f.linearize vs whiten = .ok l ∧ l.Fits vs ∧ l.residual.length = f.dim := by
  cases whiten with
  | false =>
    refine ⟨⟨f.keys, blocks, rows⟩, bind_eq_ok.2 ⟨rows, h, bind_eq_ok.2 ⟨blocks, hblocks, rfl⟩⟩,
      ?_, hrows⟩
    rwa [Linearization.Fits, hrows]
  | true =>
    obtain ⟨white, hwhite, hlength⟩ := length_whitened hrows
    refine ⟨⟨f.keys, blocks.map f.noise.whitenBlock, white⟩, bind_eq_ok.2 ⟨rows, h,
      bind_eq_ok.2 ⟨blocks, hblocks, map_eq_ok.2 ⟨white, hwhite, rfl⟩⟩⟩, ?_, hlength⟩
    rw [Linearization.Fits, hlength]
    exact f.noise.hasBlocks_whiten hfits

/-- The linear model of a regular factor fits wherever the factor evaluates. -/
theorem Factor.exists_linearize {α : Type} [Scalar α] [Runtime α] {f : Factor α} {vs : Values α}
    (hf : f.IsRegular) {rows : List α} (h : f.residual vs = .ok rows) (whiten : Bool) :
    ∃ l, f.linearize vs whiten = .ok l ∧ l.Fits vs := by
  obtain ⟨hrows, blocks, hblocks, hfits⟩ := exists_blocks hf h
  obtain ⟨l, hl, hfits, -⟩ := linearize_fits h hrows hblocks hfits whiten
  exact ⟨l, hl, hfits⟩

namespace Jacobian

variable {α : Type} [Scalar α] {l : Linearization α} {vs : Values α} {k : Key}

omit [Scalar α] in
theorem mem_of_lastBlock? {b : Block α} (h : lastBlock? l k = some b) :
    (k, b) ∈ l.keys.zip l.blocks := by
  have hfold : ∀ {entries : List (Key × Block α)} {found : Option (Block α)},
      entries.foldl (fun found e => if e.1 = k then some e.2 else found) found = some b →
        found = some b ∨ (k, b) ∈ entries := by
    intro entries
    induction entries with
    | nil => exact .inl
    | cons e entries ih =>
      intro found h
      rw [List.foldl_cons] at h
      rcases ih h with h | h
      · split at h
        · rename_i hk
          exact .inr (List.mem_cons.2 (.inl (Prod.ext hk.symm (Option.some.inj h).symm)))
        · exact .inl h
      · exact .inr (List.mem_cons_of_mem e h)
  exact (hfold h).resolve_left nofun

theorem exists_columnsOf (hl : l.Fits vs) {v : Value α} (hv : vs.get? k = some v) :
    ∃ b, columnsOf l k v.dim = .ok b := by
  unfold columnsOf
  split
  · exact ⟨_, rfl⟩
  · rename_i b hb
    obtain ⟨hwidth, hrows⟩ := hl.shape_of_mem hv (mem_of_lastBlock? hb)
    exact ⟨b, if_pos ⟨hwidth, List.all_eq_true.2 fun c hc => decide_eq_true (hrows c hc)⟩⟩

theorem exists_strip (hl : l.Fits vs) : ∀ {places : List (Key × Nat)},
    (∀ e ∈ places, vs.dim e.1 = .ok e.2) → ∃ b, strip l places = .ok b
  | [], _ => ⟨[], rfl⟩
  | (k, width) :: places, h => by
    obtain ⟨hdim, hplaces⟩ := List.forall_mem_cons.1 h
    obtain ⟨rest, hrest⟩ := exists_strip hl hplaces
    obtain ⟨v, hv, rfl⟩ := map_eq_ok.1 hdim
    unfold strip
    split
    · exact ⟨_, map_eq_ok.2 ⟨rest, hrest, rfl⟩⟩
    · obtain ⟨here, hhere⟩ := exists_columnsOf hl (Values.lookup_eq_ok.1 hv)
      exact ⟨_, bind_eq_ok.2 ⟨here, hhere, map_eq_ok.2 ⟨rest, hrest, rfl⟩⟩⟩

omit [Scalar α] in
theorem dim_faults (vs : Values α) (k : Key) :
    Faults (fun e => vs.get? k = none ∧ e = .missing k) (vs.dim k) := by
  refine Faults.bind (fun e he => ?_) fun _ _ => .pure _
  unfold Values.lookup at he
  cases hk : vs.get? k with
  | none =>
    rw [hk] at he
    exact ⟨rfl, (Except.error.inj he).symm⟩
  | some v =>
    rw [hk] at he
    cases he

/-- **Models that fit are stacked over all variables that have values**: the only fault is that a
variable of the ordering has none. -/
theorem stack_faults {ls : List (Linearization α)} (hls : ∀ l ∈ ls, l.Fits vs)
    (ordering : List Key) (threshold : α) :
    Faults (fun e => ∃ k ∈ ordering, vs.get? k = none ∧ e = .missing k)
      (stack ls ordering vs threshold) := by
  refine Faults.bind (.mapM fun k hk => ?_) fun places hplaces => ?_
  · exact ((dim_faults vs k).mono fun e he => ⟨k, hk, he⟩).bind fun _ _ => .pure _
  · have hdims : ∀ e ∈ places, vs.dim e.1 = .ok e.2 := by
      intro e he
      obtain ⟨k, -, hk⟩ := exists_computation hplaces he
      obtain ⟨width, hwidth, rfl⟩ := map_eq_ok.1 hk
      exact hwidth
    refine Faults.bind (.mapM fun l hl => ?_) fun _ _ => .pure _
    obtain ⟨b, hb⟩ := exists_strip (hls l hl) hdims
    exact .of_ok (map_eq_ok.2 ⟨b, hb, rfl⟩)

end Jacobian

/-! ## 5. Graphs -/

/-- Nothing breaks off at an assignment. A factor that evaluates has a row for every standard
deviation, so that it can be whitened, and has derivatives that fit its variables. The graph can be
linearized if all its variables can be read, and the models can be stacked over any variables that
have values. -/
structure FactorGraph.Sound {α : Type} [Scalar α] [Runtime α] (g : FactorGraph α) : Prop where
  residual : ∀ f ∈ g.factors, ∀ vs rows, f.residual vs = .ok rows →
    rows.length = f.dim ∧ ∃ white, f.whitened vs = .ok white ∧ white.length = f.dim
  blocks : ∀ f ∈ g.factors, ∀ vs rows, f.residual vs = .ok rows →
    ∃ blocks, f.blocks vs = .ok blocks ∧ vs.HasBlocks f.dim f.keys blocks
  linearize : ∀ vs whiten, Faults (vs.ReadingFault (· ∈ g.keys.toList)) (g.linearize vs whiten)
  stack : ∀ vs whiten ls, g.linearize vs whiten = .ok ls → ∀ ordering threshold,
    Faults (fun e => ∃ k ∈ ordering, vs.get? k = none ∧ e = .missing k)
      (Jacobian.stack ls ordering vs threshold)

/-- **Regular factors make a sound graph.** -/
theorem FactorGraph.sound_of_regular {α : Type} [Scalar α] [Runtime α] {g : FactorGraph α}
    (hg : ∀ f ∈ g.factors, f.IsRegular) : g.Sound := by
  have hlinearize : ∀ f ∈ g.factors, ∀ vs whiten,
      Faults (vs.ReadingFault (· ∈ g.keys.toList)) (f.linearize vs whiten) := by
    intro f hf vs whiten
    cases hrows : f.residual vs with
    | ok rows =>
      obtain ⟨l, hl, -⟩ := Factor.exists_linearize (hg f hf) hrows whiten
      exact .of_ok hl
    | error e =>
      refine .bind (fun e' he' => ?_) fun rows hrows' => ?_
      · exact (Relation.residual_faults (hg f hf).isBuiltIn e' he').mono fun k hk => mem_keys hf hk
      · cases hrows.symm.trans hrows'
  refine ⟨fun f hf vs rows h => ?_, fun f hf vs rows h => (Factor.exists_blocks (hg f hf) h).2,
    fun vs whiten => .inParallel fun f hf => hlinearize f hf vs whiten,
    fun vs whiten ls hls => Jacobian.stack_faults fun l hl => ?_⟩
  · have hlength := (Factor.exists_blocks (hg f hf) h).1
    obtain ⟨white, hwhite, hwhite_length⟩ := Factor.length_whitened hlength
    exact ⟨hlength, white, bind_eq_ok.2 ⟨rows, h, hwhite⟩, hwhite_length⟩
  · obtain ⟨f, hf, hfl⟩ := exists_computation (inParallel_eq_ok.1 hls) hl
    obtain ⟨rows, hrows, -⟩ := bind_eq_ok.1 hfl
    obtain ⟨l', hl', hfits⟩ := Factor.exists_linearize (hg f hf) hrows whiten
    exact answer_unique hfl hl' ▸ hfits

end Articulated
