import Articulated.Proofs.Factor.Shapes
import Articulated.Proofs.Graph.Stacking
import Articulated.Proofs.Spatial.Duality
import Articulated.Proofs.Values.Blocks

/-!
# From one assignment to another

Two assignments are a tangent vector apart: the tangent vectors of their values, one variable after
the other. Where values move by addition, the step along this vector leads from the one to the
other, and a step that was taken is found again. Numbers are exact here.

* `Values.offset?`: the tangent vector between two assignments.
* `Values.Flat`: all values move by addition, as those do that affine relations read.
* `Values.retractInto_offset`: the step along a tangent vector leads to the values of the second
  assignment, and `Values.exists_step_towards`: there is such a step.
* `Values.offset_blocks_iff`: the tangent vector consists of those between the values.
* `Values.offset_of_retractInto`: a step is the tangent vector to where it leads.
-/

namespace Articulated

open Scalar

/-- The tangent vector from one assignment to another over some variables, which need values of the
same kind in both. -/
def Values.offset? {α : Type} [Scalar α] (vs vs' : Values α) : List Key → Option (List α)
  | [] => some []
  | k :: ks => do
    let v ← vs.get? k
    let w ← vs'.get? k
    let δ ← v.local? w
    let rest ← vs.offset? vs' ks
    return δ ++ rest

/-! ## 1. Values -/

namespace Value

variable {v w : Value ℝ} {xs δ : List ℝ}

theorem exists_local (h : w.kind = v.kind) : ∃ δ, v.local? w = some δ := by
  cases v <;> cases w <;> first | exact ⟨_, rfl⟩ | cases h

/-- The tangent vector has a coordinate for every dimension of its kind. -/
theorem length_local (h : v.local? w = some δ) : δ.length = v.dim := by
  cases v <;> cases w <;> first | exact Option.some.inj h ▸ rfl | cases h

/-- A value that moves by addition moves to any other one of its kind. -/
theorem retract_local (hv : v.coords? = some xs) (h : v.local? w = some δ) :
    δ.length = v.dim ∧ v.retract δ = w := by
  cases v with
  | pose p => cases hv
  | scalar a =>
    cases w with
    | vector b | pose b => cases h
    | scalar b =>
      obtain rfl := Option.some.inj h
      exact ⟨rfl, congrArg Value.scalar (add_sub_cancel a b)⟩
  | vector a =>
    cases w with
    | scalar b | pose b => cases h
    | vector b =>
      obtain rfl := Option.some.inj h
      refine ⟨rfl, congrArg Value.vector ?_⟩
      simp only [SpatialVector.ofList_toList, SpatialVector.add_def, SpatialVector.sub_def,
        Vec3.add_def, Vec3.sub_def, add_sub_cancel]

/-- And the move is found again. -/
theorem local_retract (hv : v.coords? = some xs) (hδ : δ.length = v.dim) :
    v.local? (v.retract δ) = some δ := by
  cases v with
  | pose p => cases hv
  | scalar a =>
    obtain ⟨d, rfl⟩ := List.length_eq_one_iff.1 hδ
    exact congrArg (fun x => some [x]) (add_sub_cancel_left a d)
  | vector a =>
    match δ, hδ with
    | [d₁, d₂, d₃, d₄, d₅, d₆], _ =>
      simp only [retract, local?, SpatialVector.ofList, SpatialVector.toList,
        SpatialVector.add_def, SpatialVector.sub_def, Vec3.add_def, Vec3.sub_def,
        add_sub_cancel_left, List.getD_cons_zero, List.getD_cons_succ]

theorem local_self (hv : v.coords? = some xs) : v.local? v = some (List.replicate v.dim 0) := by
  cases v with
  | pose p => cases hv
  | scalar a => exact congrArg (fun x => some [x]) (sub_self a)
  | vector a =>
    simp only [local?, SpatialVector.toList, SpatialVector.sub_def, Vec3.sub_def, sub_self]
    rfl

end Value

/-! ## 2. Assignments -/

namespace Values

variable {vs vs' : Values ℝ} {ks : List Key} {k : Key} {δ : List ℝ}

/-- All values of the variables move by addition. -/
def Flat (vs : Values ℝ) (ks : List Key) : Prop := ∀ k ∈ ks, ∃ xs, vs.coords? k = some xs

theorem Flat.exists_value (h : vs.Flat ks) (hk : k ∈ ks) :
    ∃ v xs, vs.get? k = some v ∧ v.coords? = some xs := by
  obtain ⟨xs, hxs⟩ := h k hk
  obtain ⟨v, hv, hcoords⟩ := Option.bind_eq_some_iff.1 hxs
  exact ⟨v, xs, hv, hcoords⟩

/-- Variables keep their dimensions where they move. -/
theorem Placed.of_moved {places : List (Key × Nat)} (h : vs.Placed places)
    (hmoved : Moved ks vs vs') : vs'.Placed places := by
  intro e he
  obtain ⟨v, hv, hdim⟩ := h e he
  have hkind := hmoved.kind_eq e.1
  rw [hv, Option.map_some] at hkind
  obtain ⟨w, hw, hkind⟩ := Option.map_eq_some_iff.1 hkind
  exact ⟨w, hw, by rw [← w.dim_kind, hkind, v.dim_kind, hdim]⟩

theorem offset_cons : vs.offset? vs' (k :: ks) = some δ ↔ ∃ v w δ₁ δ₂, vs.get? k = some v ∧
    vs'.get? k = some w ∧ v.local? w = some δ₁ ∧ vs.offset? vs' ks = some δ₂ ∧ δ₁ ++ δ₂ = δ := by
  simp only [offset?, Option.bind_eq_bind, Option.bind_eq_some_iff, Option.pure_def,
    Option.some.injEq]
  tauto

/-- Assignments with values of the same kinds are a tangent vector apart. -/
theorem exists_offset : ∀ {ks : List Key}, (∀ k ∈ ks, ∃ v, vs.get? k = some v) →
    (∀ k ∈ ks, (vs'.get? k).map Value.kind = (vs.get? k).map Value.kind) →
      ∃ δ, vs.offset? vs' ks = some δ
  | [], _, _ => ⟨[], rfl⟩
  | k :: ks, hpresent, hkinds => by
    obtain ⟨⟨v, hv⟩, hpresentRest⟩ := List.forall_mem_cons.1 hpresent
    obtain ⟨hkind, hkindsRest⟩ := List.forall_mem_cons.1 hkinds
    rw [hv, Option.map_some] at hkind
    obtain ⟨w, hw, hkind⟩ := Option.map_eq_some_iff.1 hkind
    obtain ⟨δ₁, hδ₁⟩ := Value.exists_local hkind
    obtain ⟨δ₂, hδ₂⟩ := exists_offset hpresentRest hkindsRest
    exact ⟨δ₁ ++ δ₂, offset_cons.2 ⟨v, w, δ₁, δ₂, hv, hw, hδ₁, hδ₂, rfl⟩⟩

/-- A tangent vector has a coordinate for every tangent coordinate of the variables. -/
theorem totalDim_of_offset : ∀ {ks : List Key} {δ : List ℝ}, vs.offset? vs' ks = some δ →
    vs.totalDim ks = .ok δ.length
  | [], _, h => Option.some.inj h ▸ rfl
  | k :: ks, _, h => by
    obtain ⟨v, w, δ₁, δ₂, hv, -, hδ₁, hδ₂, rfl⟩ := offset_cons.1 h
    refine (totalDim_cons hv).2 ⟨δ₂.length, totalDim_of_offset hδ₂, ?_⟩
    rw [List.length_append, Value.length_local hδ₁]

/-- **The tangent vector between two assignments consists of those between the values.** -/
theorem offset_blocks_iff : ∀ {ks : List Key} {d : List ℝ}, vs.totalDim ks = .ok d.length →
    (vs.offset? vs' ks = some d ↔ ∀ k i v, vs.StartsAt ks k i → vs.get? k = some v →
      ∃ w, vs'.get? k = some w ∧ v.local? w = some (block d i v))
  | [], d, hdim => by
    obtain rfl := List.eq_nil_of_length_eq_zero (pure_eq_ok.1 hdim).symm
    exact ⟨fun _ _ _ _ hstart => (not_startsAt_nil hstart).elim, fun _ => rfl⟩
  | q :: ks, d, hdim => by
    obtain ⟨u, hu, -, hrest⟩ := exists_head hdim
    have ih := offset_blocks_iff hrest
    constructor
    · intro h k i v hstart hv
      obtain ⟨u', w, δ₁, δ₂, hu', hw, hδ₁, hδ₂, rfl⟩ := offset_cons.1 h
      obtain rfl : u = u' := Option.some.inj (hu.symm.trans hu')
      have hwidth := Value.length_local hδ₁
      rw [List.drop_left' hwidth] at ih
      obtain ⟨rfl, rfl⟩ | ⟨j, hj, rfl⟩ := (startsAt_cons hu).1 hstart
      · obtain rfl : u = v := Option.some.inj (hu.symm.trans hv)
        rw [block, List.drop_zero, List.take_left' hwidth]
        exact ⟨w, hw, hδ₁⟩
      · rw [← block_drop, List.drop_left' hwidth]
        exact ih.1 hδ₂ k j v hj hv
    · intro h
      obtain ⟨w, hw, hlocal⟩ := h q 0 u ((startsAt_cons hu).2 (.inl ⟨rfl, rfl⟩)) hu
      have htail : vs.offset? vs' ks = some (d.drop u.dim) := by
        refine ih.2 fun k j v hj hv => ?_
        rw [block_drop]
        exact h k (u.dim + j) v ((startsAt_cons hu).2 (.inr ⟨j, hj, rfl⟩)) hv
      exact offset_cons.2 ⟨u, w, _, _, hu, hw, hlocal, htail, List.take_append_drop ..⟩

/-- **The step along the tangent vector leads to the values of the other assignment.** -/
theorem retractInto_offset : ∀ {ks : List Key} {δ : List ℝ} (acc : Values ℝ), vs.Flat ks →
    vs.offset? vs' ks = some δ → ∃ out, vs.retractInto ks δ acc = .ok out ∧
      ∀ q, out.get? q = if q ∈ ks then vs'.get? q else acc.get? q
  | [], _, acc, _, _ => ⟨acc, rfl, fun q => by rw [if_neg List.not_mem_nil]⟩
  | k :: ks, δ, acc, hflat, h => by
    obtain ⟨v, w, δ₁, δ₂, hv, hw, hδ₁, hδ₂, rfl⟩ := offset_cons.1 h
    obtain ⟨v', xs, hv', hcoords⟩ := hflat.exists_value List.mem_cons_self
    obtain rfl : v = v' := Option.some.inj (hv.symm.trans hv')
    obtain ⟨hlength, hretract⟩ := Value.retract_local hcoords hδ₁
    have hflatRest : vs.Flat ks := fun q hq => hflat q (List.mem_cons_of_mem k hq)
    obtain ⟨out, hout, hget⟩ := retractInto_offset (acc.insert k w) hflatRest hδ₂
    refine ⟨out, bind_eq_ok.2 ⟨v, lookup_eq_ok.2 hv, ?_⟩, fun q => ?_⟩
    · rw [if_neg (by rw [List.length_append]; omega), ← hlength, List.take_left', List.drop_left',
        hretract]
      · exact hout
      · rfl
      · rfl
    · rw [hget, get?_insert]
      by_cases hqks : q ∈ ks
      · rw [if_pos hqks, if_pos (List.mem_cons_of_mem k hqks)]
      · rw [if_neg hqks]
        by_cases hqk : q = k
        · rw [if_pos hqk, if_pos (hqk ▸ List.mem_cons_self), hqk, hw]
        · rw [if_neg hqk, if_neg fun hmem => (List.mem_cons.1 hmem).elim hqk hqks]

/-- **A step is the tangent vector to where it leads.** -/
theorem offset_of_retractInto {places : List (Key × Nat)} {d : List ℝ} {acc out : Values ℝ}
    (hnodup : (places.map Prod.fst).Nodup) (hplaced : vs.Placed places)
    (hflat : vs.Flat (places.map Prod.fst)) (hd : d.length = breadth places)
    (h : vs.retractInto (places.map Prod.fst) d acc = .ok out) :
    vs.offset? out (places.map Prod.fst) = some d := by
  have hdim : vs.totalDim (places.map Prod.fst) = .ok d.length := hd ▸ hplaced.totalDim_eq_ok
  obtain ⟨-, hblocks⟩ := blocks_of_retractInto hnodup hdim h
  refine (offset_blocks_iff hdim).2 fun k i v hstart hv => ⟨_, hblocks k i v hstart hv, ?_⟩
  obtain ⟨v', xs, hv', hcoords⟩ := hflat.exists_value hstart.mem
  obtain rfl : v = v' := Option.some.inj (hv.symm.trans hv')
  exact Value.local_retract hcoords (length_block hdim hstart hv)

/-- An assignment is no step away from itself. -/
theorem offset_self : ∀ {places : List (Key × Nat)}, vs.Placed places →
    vs.Flat (places.map Prod.fst) →
      vs.offset? vs (places.map Prod.fst) = some (List.replicate (breadth places) 0)
  | [], _, _ => rfl
  | (k, width) :: places, hplaced, hflat => by
    obtain ⟨⟨v, hv, rfl⟩, hplacedRest⟩ := List.forall_mem_cons.1 hplaced
    obtain ⟨v', xs, hv', hcoords⟩ := hflat.exists_value List.mem_cons_self
    obtain rfl : v = v' := Option.some.inj (hv.symm.trans hv')
    exact offset_cons.2 ⟨v, v, _, _, hv, hv, Value.local_self hcoords,
      offset_self hplacedRest fun q hq => hflat q (List.mem_cons_of_mem k hq),
      List.replicate_append_replicate⟩

/-- **Assignments with values of the same kinds are a step apart.** -/
theorem exists_step_towards (hflat : vs.Flat ks)
    (hkinds : ∀ k ∈ ks, (vs'.get? k).map Value.kind = (vs.get? k).map Value.kind) :
    ∃ δ out, vs.offset? vs' ks = some δ ∧ vs.totalDim ks = .ok δ.length ∧
      vs.retract ks δ = .ok out ∧ ∀ q, out.get? q = if q ∈ ks then vs'.get? q else vs.get? q := by
  have hpresent : ∀ k ∈ ks, ∃ v, vs.get? k = some v := fun k hk => by
    obtain ⟨v, -, hv, -⟩ := hflat.exists_value hk
    exact ⟨v, hv⟩
  obtain ⟨δ, hδ⟩ := exists_offset hpresent hkinds
  obtain ⟨out, hout, hget⟩ := retractInto_offset vs hflat hδ
  exact ⟨δ, out, hδ, totalDim_of_offset hδ, hout, hget⟩

/-- Zeros move nothing. -/
theorem retract_zeros {places : List (Key × Nat)} (hplaced : vs.Placed places)
    (hflat : vs.Flat (places.map Prod.fst)) :
    vs.retract (places.map Prod.fst) (List.replicate (breadth places) 0) = .ok vs := by
  obtain ⟨out, hout, hget⟩ := retractInto_offset vs hflat (offset_self hplaced hflat)
  have heq : out = vs := ext_get? fun q => by rw [hget, ite_self]
  exact heq ▸ hout

end Values

end Articulated
