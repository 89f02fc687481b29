import Articulated.Proofs.Values.Moving

/-!
# Blocks of a tangent vector

A tangent vector over an ordering is cut by a running position: each variable has a block, as wide
as its kind, behind those of the variables before it. What is done along the ordering can then be
told for one variable at a time.

* `Values.StartsAt`, `Values.block`: where the block of a variable begins, and the block.
* `Values.exists_head`, `Values.startsAt_cons`: the first block, and the others behind it.
* `Values.retractInto_blocks`: a move moves every variable by its block.
-/

namespace Articulated

/-! ## 1. Where blocks begin -/

namespace Values

section Blocks

variable {α : Type} {vs : Values α} {ks : List Key} {q k : Key} {i : Nat} {v : Value α}
  {d : List α}

/-- The block of the variable begins behind those of the variables before it. -/
def StartsAt (vs : Values α) (ks : List Key) (k : Key) (i : Nat) : Prop :=
  ∃ before after, ks = before ++ k :: after ∧ vs.totalDim before = .ok i

/-- The block of a tangent vector for a value, from a position on. -/
def block (d : List α) (i : Nat) (v : Value α) : List α := (d.drop i).take v.dim

theorem not_startsAt_nil : ¬ vs.StartsAt [] k i := by
  intro h
  obtain ⟨before, after, hks, -⟩ := h
  exact List.append_ne_nil_of_right_ne_nil before (List.cons_ne_nil k after) hks.symm

theorem StartsAt.mem (h : vs.StartsAt ks k i) : k ∈ ks := by
  obtain ⟨before, after, rfl, -⟩ := h
  exact List.mem_append_right before List.mem_cons_self

theorem totalDim_cons (hv : vs.get? q = some v) {n : Nat} :
    vs.totalDim (q :: ks) = .ok n ↔ ∃ m, vs.totalDim ks = .ok m ∧ v.dim + m = n := by
  have hdim : vs.dim q = .ok v.dim := map_eq_ok.2 ⟨v, lookup_eq_ok.2 hv, rfl⟩
  show (vs.dim q >>= fun d => do return d + (← vs.totalDim ks)) = .ok n ↔ _
  rw [hdim]
  exact map_eq_ok

/-- A tangent vector for some variables begins with the block of the first one. -/
theorem exists_head (h : vs.totalDim (q :: ks) = .ok d.length) : ∃ v, vs.get? q = some v ∧
    v.dim ≤ d.length ∧ vs.totalDim ks = .ok (d.drop v.dim).length := by
  obtain ⟨width, hwidth, -⟩ := bind_eq_ok.1 h
  obtain ⟨v, hv, -⟩ := map_eq_ok.1 hwidth
  have hv := lookup_eq_ok.1 hv
  obtain ⟨m, hm, hlength⟩ := (totalDim_cons hv).1 h
  have hrest : (d.drop v.dim).length = m := by
    rw [List.length_drop, ← hlength, Nat.add_sub_cancel_left]
  exact ⟨v, hv, hlength ▸ Nat.le_add_right .., hrest ▸ hm⟩

theorem startsAt_cons (hv : vs.get? q = some v) :
    vs.StartsAt (q :: ks) k i ↔ (k = q ∧ i = 0) ∨ ∃ j, vs.StartsAt ks k j ∧ i = v.dim + j := by
  constructor
  · intro h
    obtain ⟨before, after, hks, hdim⟩ := h
    cases before with
    | nil =>
      obtain ⟨rfl, rfl⟩ := List.cons.inj hks
      exact .inl ⟨rfl, (pure_eq_ok.1 hdim).symm⟩
    | cons p before =>
      obtain ⟨rfl, rfl⟩ := List.cons.inj hks
      obtain ⟨j, hj, rfl⟩ := (totalDim_cons hv).1 hdim
      exact .inr ⟨j, ⟨before, after, rfl, hj⟩, rfl⟩
  · intro h
    obtain ⟨rfl, rfl⟩ | ⟨j, ⟨before, after, rfl, hj⟩, rfl⟩ := h
    · exact ⟨[], ks, rfl, rfl⟩
    · exact ⟨q :: before, after, rfl, (totalDim_cons hv).2 ⟨j, hj, rfl⟩⟩

theorem exists_totalDim : ∀ {ks : List Key}, (∀ k ∈ ks, ∃ v, vs.get? k = some v) →
    ∃ n, vs.totalDim ks = .ok n
  | [], _ => ⟨0, rfl⟩
  | q :: ks, h => by
    obtain ⟨⟨v, hv⟩, hrest⟩ := List.forall_mem_cons.1 h
    obtain ⟨m, hm⟩ := exists_totalDim hrest
    exact ⟨v.dim + m, (totalDim_cons hv).2 ⟨m, hm, rfl⟩⟩

/-- Every variable of the ordering has its block. -/
theorem exists_startsAt (h : ∀ k ∈ ks, ∃ v, vs.get? k = some v) (hk : k ∈ ks) :
    ∃ i, vs.StartsAt ks k i := by
  obtain ⟨before, after, rfl⟩ := List.append_of_mem hk
  obtain ⟨i, hi⟩ := exists_totalDim fun q hq => h q (List.mem_append_left _ hq)
  exact ⟨i, before, after, rfl, hi⟩

theorem block_drop (d : List α) (i j : Nat) (v : Value α) :
    block (d.drop i) j v = block d (i + j) v := by
  rw [block, block, List.drop_drop]

/-- Each block has the width of its value. -/
theorem length_block : ∀ {ks : List Key} {d : List α} {i : Nat}, vs.totalDim ks = .ok d.length →
    vs.StartsAt ks k i → vs.get? k = some v → (block d i v).length = v.dim
  | [], _, _, _, hstart, _ => (not_startsAt_nil hstart).elim
  | q :: ks, d, i, hdim, hstart, hv => by
    obtain ⟨u, hu, hwide, hrest⟩ := exists_head hdim
    obtain ⟨rfl, rfl⟩ | ⟨j, hj, rfl⟩ := (startsAt_cons hu).1 hstart
    · obtain rfl : u = v := Option.some.inj (hu.symm.trans hv)
      rw [block, List.drop_zero, List.length_take, Nat.min_eq_left hwide]
    · rw [← block_drop]
      exact length_block hrest hj hv

end Blocks

/-! ## 2. Moves by blocks -/

section Moves

variable {α : Type} [Scalar α] {vs : Values α}

/-- **A move moves every variable by its block.** The induction goes along the ordering, in which no
variable occurs again: what is entered for it stays. -/
theorem retractInto_blocks : ∀ {ks : List Key} {d : List α} (acc : Values α), ks.Nodup →
    vs.totalDim ks = .ok d.length → ∃ out, vs.retractInto ks d acc = .ok out ∧
      (∀ k ∉ ks, out.get? k = acc.get? k) ∧
      ∀ k i v, vs.StartsAt ks k i → vs.get? k = some v → out.get? k = some (v.retract (block d i v))
  | [], d, acc, _, _ =>
    ⟨acc, rfl, fun _ _ => rfl, fun _ _ _ hstart _ => (not_startsAt_nil hstart).elim⟩
  | q :: ks, d, acc, hnodup, hdim => by
    obtain ⟨hq, hnodupRest⟩ := List.nodup_cons.1 hnodup
    obtain ⟨u, hu, hwide, hrest⟩ := exists_head hdim
    obtain ⟨out, hout, hother, hblocks⟩ :=
      retractInto_blocks (acc.insert q (u.retract (d.take u.dim))) hnodupRest hrest
    refine ⟨out, bind_eq_ok.2 ⟨u, lookup_eq_ok.2 hu, ?_⟩, fun k hk => ?_,
      fun k i v hstart hv => ?_⟩
    · rw [if_neg (Nat.not_lt.2 hwide)]
      exact hout
    · obtain ⟨hkq, hkks⟩ := List.ne_and_not_mem_of_not_mem_cons hk
      rw [hother k hkks, get?_insert, if_neg hkq]
    · obtain ⟨rfl, rfl⟩ | ⟨j, hj, rfl⟩ := (startsAt_cons hu).1 hstart
      · obtain rfl : u = v := Option.some.inj (hu.symm.trans hv)
        rw [hother k hq, get?_insert, if_pos rfl]
        rfl
      · rw [hblocks k j v hj hv, block_drop]

/-- The blocks tell where a move leads. -/
theorem blocks_of_retractInto {ks : List Key} {d : List α} {acc out : Values α} (hks : ks.Nodup)
    (hdim : vs.totalDim ks = .ok d.length) (h : vs.retractInto ks d acc = .ok out) :
    (∀ k ∉ ks, out.get? k = acc.get? k) ∧ ∀ k i v, vs.StartsAt ks k i → vs.get? k = some v →
      out.get? k = some (v.retract (block d i v)) := by
  obtain ⟨out', hout', hblocks⟩ := retractInto_blocks acc hks hdim
  obtain rfl : out = out' := answer_unique h hout'
  exact hblocks

end Moves

end Values

end Articulated
