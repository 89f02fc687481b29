import Articulated.Proofs.Dense.Combination
import Articulated.Proofs.Factor.Locality
import Articulated.Proofs.Factor.Steps

/-!
# Affine factors

Given scalars and vectors, the actuation of a joint, planarity of a wrench and the integration over
a step of known length are affine: the residual is a constant, plus for every variable a block of
columns combined with the coordinates of its value. The blocks are those of the exact Jacobian.
Numbers are exact here.

* `Value.coords?`: the coordinates of a value that moves by addition.
* `AffineForm`: a constant and a block for each of some variables.
* `AffineForm.Evaluates`: the value of the form at an assignment.
* `AffineForm.Evaluates.move`: moving one variable adds the combination of its block.
* `AffineForm.divide`, `AffineForm.model`: the form in other units, and the linear model it makes.
* `Relation.HasForm`, `Relation.IsAffine.exists_form`: affine relations are given by forms.
* `Factor.HasForm`, `Factor.exists_form`: so are affine factors in units of their noise.
-/

namespace Articulated

open Scalar

/-! ## 1. Coordinates -/

/-- The coordinates of a value that moves by addition. -/
def Value.coords? : Value ℝ → Option (List ℝ)
  | .scalar x => some [x]
  | .vector v => some v.toList
  | .pose _ => none

/-- The coordinates of a variable whose value moves by addition. -/
def Values.coords? (vs : Values ℝ) (k : Key) : Option (List ℝ) := (vs.get? k).bind Value.coords?

section Coordinates

variable {v : Value ℝ} {vs : Values ℝ} {k q : Key} {xs δ : List ℝ}

theorem Value.length_coords (h : v.coords? = some xs) : xs.length = v.dim := by
  cases v with
  | scalar x => exact Option.some.inj h ▸ rfl
  | vector u => exact Option.some.inj h ▸ rfl
  | pose p => cases h

/-- Moving a value adds to its coordinates. -/
theorem Value.coords_retract (h : v.coords? = some xs) (hδ : δ.length = v.dim) :
    (v.retract δ).coords? = some (plus xs δ) := by
  cases v with
  | scalar x =>
    obtain rfl := Option.some.inj h
    obtain ⟨d, rfl⟩ := List.length_eq_one_iff.1 hδ
    rfl
  | vector u =>
    obtain rfl := Option.some.inj h
    match δ, hδ with
    | [a, b, c, d, e, f], _ => rfl
  | pose p => cases h

theorem Values.coords_insert_self : (vs.insert k v).coords? k = v.coords? := by
  rw [coords?, get?_insert, if_pos rfl, Option.bind_some]

theorem Values.coords_insert_of_ne (h : q ≠ k) : (vs.insert k v).coords? q = vs.coords? q := by
  rw [coords?, get?_insert, if_neg h, ← coords?]

theorem Values.coords_of_scalar {x : ℝ} (h : vs.scalar k = .ok x) : vs.coords? k = some [x] := by
  rw [coords?, lookup_eq_ok.1 (lookup_of_scalar h)]
  rfl

theorem Values.coords_of_vector6 {u : SpatialVector ℝ} (h : vs.vector6 k = .ok u) :
    vs.coords? k = some u.toList := by
  rw [coords?, lookup_eq_ok.1 (lookup_of_vector6 h)]
  rfl

/-- A variable with one coordinate is a scalar. -/
theorem Values.exists_scalar (h : vs.coords? k = some xs) (hxs : xs.length = 1) :
    ∃ x, vs.scalar k = .ok x ∧ xs = [x] := by
  obtain ⟨v, hv, hcoords⟩ := Option.bind_eq_some_iff.1 h
  cases v with
  | scalar x => exact ⟨x, scalar_eq_ok hv, (Option.some.inj hcoords).symm⟩
  | vector u =>
    obtain rfl := Option.some.inj hcoords
    cases hxs
  | pose p => cases hcoords

/-- A variable with six coordinates is a vector. -/
theorem Values.exists_vector6 (h : vs.coords? k = some xs) (hxs : xs.length = 6) :
    ∃ u, vs.vector6 k = .ok u ∧ xs = u.toList := by
  obtain ⟨v, hv, hcoords⟩ := Option.bind_eq_some_iff.1 h
  cases v with
  | scalar x =>
    obtain rfl := Option.some.inj hcoords
    cases hxs
  | vector u => exact ⟨u, vector6_eq_ok hv, (Option.some.inj hcoords).symm⟩
  | pose p => cases hcoords

end Coordinates

/-! ## 2. Affine forms -/

/-- A constant, and a block of columns of its height for each of some variables. -/
structure AffineForm where
  terms : List (Key × Block ℝ)
  offset : List ℝ
  haveHeight : ∀ e ∈ terms, HaveHeight offset.length e.2

/-- The sum of some terms at an assignment: each block combined with the coordinates of its
variable. -/
def TermsSum (n : Nat) (vs : Values ℝ) : List (Key × Block ℝ) → List ℝ → Prop
  | [], zs => zs = List.replicate n 0
  | (k, b) :: rest, zs => ∃ xs ys, vs.coords? k = some xs ∧ xs.length = b.length ∧
      TermsSum n vs rest ys ∧ zs = plus (combine n b xs) ys

/-- The columns of some terms for a variable of the given dimension: its block, or zeros. -/
def columnsFor (n : Nat) (terms : List (Key × Block ℝ)) (k : Key) (width : Nat) : Block ℝ :=
  (terms.lookup k).getD (List.replicate width (List.replicate n 0))

section Terms

variable {n : Nat} {vs : Values ℝ} {k : Key} {v : Value ℝ} {δ zs : List ℝ}

/-- A term with one column reads a scalar. -/
theorem termsSum_scalar {rest : List (Key × Block ℝ)} {c : List ℝ} :
    TermsSum n vs ((k, [c]) :: rest) zs ↔ ∃ x, vs.scalar k = .ok x ∧
      ∃ ys, TermsSum n vs rest ys ∧ zs = plus (combine n [c] [x]) ys := by
  constructor
  · rintro ⟨xs, ys, hxs, hlength, hys, rfl⟩
    obtain ⟨x, hx, rfl⟩ := Values.exists_scalar hxs hlength
    exact ⟨x, hx, ys, hys, rfl⟩
  · rintro ⟨x, hx, ys, hys, rfl⟩
    exact ⟨[x], ys, Values.coords_of_scalar hx, rfl, hys, rfl⟩

/-- A term with six columns reads a vector. -/
theorem termsSum_vector6 {rest : List (Key × Block ℝ)} {b : Block ℝ} (hb : b.length = 6) :
    TermsSum n vs ((k, b) :: rest) zs ↔ ∃ u, vs.vector6 k = .ok u ∧
      ∃ ys, TermsSum n vs rest ys ∧ zs = plus (combine n b u.toList) ys := by
  constructor
  · rintro ⟨xs, ys, hxs, hlength, hys, rfl⟩
    obtain ⟨u, hu, rfl⟩ := Values.exists_vector6 hxs (hlength.trans hb)
    exact ⟨u, hu, ys, hys, rfl⟩
  · rintro ⟨u, hu, ys, hys, rfl⟩
    exact ⟨u.toList, ys, Values.coords_of_vector6 hu, hb.symm, hys, rfl⟩

theorem TermsSum.length_eq : ∀ {terms : List (Key × Block ℝ)} {zs : List ℝ},
    (∀ e ∈ terms, HaveHeight n e.2) → TermsSum n vs terms zs → zs.length = n
  | [], _, _, h => by rw [h, List.length_replicate]
  | (k, b) :: rest, _, hheight, ⟨xs, ys, _, _, hys, hzs⟩ => by
    obtain ⟨hb, hrest⟩ := List.forall_mem_cons.1 hheight
    rw [hzs, length_plus, length_combine hb]
    rw [length_combine hb, hys.length_eq hrest]

/-- Variables outside the terms have no part in their sum. -/
theorem TermsSum.insert_of_not_mem : ∀ {terms : List (Key × Block ℝ)} {zs : List ℝ},
    TermsSum n vs terms zs → k ∉ terms.map Prod.fst → TermsSum n (vs.insert k v) terms zs
  | [], _, h, _ => h
  | (q, b) :: rest, _, ⟨xs, ys, hxs, hlength, hys, hzs⟩, hk => by
    obtain ⟨hqk, hk⟩ := List.ne_and_not_mem_of_not_mem_cons hk
    exact ⟨xs, ys, (Values.coords_insert_of_ne (Ne.symm hqk)).trans hxs, hlength,
      hys.insert_of_not_mem hk, hzs⟩

theorem columnsFor_of_not_mem {terms : List (Key × Block ℝ)} {width : Nat}
    (hk : k ∉ terms.map Prod.fst) :
    columnsFor n terms k width = List.replicate width (List.replicate n 0) := by
  rw [columnsFor, Key.lookup_eq_none hk, Option.getD_none]

/-- **Moving a variable adds the combination of its columns.** -/
theorem TermsSum.move (hv : vs.get? k = some v) (hδ : δ.length = v.dim) :
    ∀ {terms : List (Key × Block ℝ)} {zs : List ℝ}, (terms.map Prod.fst).Nodup →
      (∀ e ∈ terms, HaveHeight n e.2) → TermsSum n vs terms zs →
        TermsSum n (vs.insert k (v.retract δ)) terms
          (plus zs (combine n (columnsFor n terms k v.dim) δ))
  | [], _, _, _, h => by
    rw [columnsFor_of_not_mem List.not_mem_nil, combine_zeros, h]
    exact plus_zeros_of_length List.length_replicate
  | (q, b) :: rest, zs, hnodup, hheight, ⟨xs, ys, hxs, hlength, hys, hzs⟩ => by
    obtain ⟨hq, hnodup⟩ := List.nodup_cons.1 hnodup
    obtain ⟨hb, hrest⟩ := List.forall_mem_cons.1 hheight
    by_cases hkq : k = q
    · subst hkq
      have hcoords : v.coords? = some xs := by
        rwa [Values.coords?, hv, Option.bind_some] at hxs
      have hδb : δ.length = b.length := hδ.trans ((Value.length_coords hcoords).symm.trans hlength)
      have hcolumns : columnsFor n ((k, b) :: rest) k v.dim = b := by
        rw [columnsFor, Key.lookup_cons_eq, if_pos rfl, Option.getD_some]
      refine ⟨plus xs δ, ys, ?_, ?_, hys.insert_of_not_mem hq, ?_⟩
      · rw [Values.coords_insert_self, Value.coords_retract hcoords hδ]
      · rw [length_plus (hlength.trans hδb.symm), hlength]
      · rw [hzs, hcolumns, combine_plus hlength hδb, plus_assoc, plus_assoc,
          plus_comm ys (combine n b δ)]
    · have hcolumns : columnsFor n ((q, b) :: rest) k v.dim = columnsFor n rest k v.dim := by
        rw [columnsFor, Key.lookup_cons_eq, if_neg hkq, ← columnsFor]
      refine ⟨xs, _, ?_, hlength, hys.move hv hδ hnodup hrest, ?_⟩
      · rw [Values.coords_insert_of_ne (Ne.symm hkq), hxs]
      · rw [hzs, hcolumns, plus_assoc]

end Terms

namespace AffineForm

variable {a : AffineForm} {vs : Values ℝ} {k : Key} {v : Value ℝ} {δ rows σ : List ℝ}

/-- The value of the form at an assignment: the constant plus the sum of the terms. -/
def Evaluates (a : AffineForm) (vs : Values ℝ) (rows : List ℝ) : Prop :=
  ∃ zs, TermsSum a.offset.length vs a.terms zs ∧ rows = plus a.offset zs

/-- The linear model with the blocks of the form and the given residual. -/
def model (a : AffineForm) (rows : List ℝ) : Linearization ℝ :=
  ⟨a.terms.map Prod.fst, a.terms.map Prod.snd, rows⟩

/-- The columns of the form for a variable of the given dimension. -/
def columns (a : AffineForm) (k : Key) (width : Nat) : Block ℝ :=
  columnsFor a.offset.length a.terms k width

theorem Evaluates.length_eq (h : a.Evaluates vs rows) : rows.length = a.offset.length := by
  obtain ⟨zs, hzs, rfl⟩ := h
  exact length_plus (hzs.length_eq a.haveHeight).symm

theorem columns_haveHeight (a : AffineForm) (k : Key) (width : Nat) :
    HaveHeight a.offset.length (a.columns k width) := by
  unfold columns columnsFor
  cases hlookup : a.terms.lookup k with
  | none =>
    intro c hc
    rw [List.eq_of_mem_replicate hc, List.length_replicate]
  | some b =>
    exact a.haveHeight (k, b) (Key.mem_of_lookup hlookup)

/-- **Moving a variable adds the combination of its columns.** -/
theorem Evaluates.move (h : a.Evaluates vs rows) (hnodup : (a.terms.map Prod.fst).Nodup)
    (hv : vs.get? k = some v) (hδ : δ.length = v.dim) :
    a.Evaluates (vs.insert k (v.retract δ))
      (plus rows (combine a.offset.length (a.columns k v.dim) δ)) := by
  obtain ⟨zs, hzs, rfl⟩ := h
  exact ⟨_, hzs.move hv hδ hnodup a.haveHeight, plus_assoc ..⟩

/-- The form with its rows divided. -/
noncomputable def divide (a : AffineForm) (σ : List ℝ) (hσ : a.offset.length = σ.length) :
    AffineForm where
  terms := a.terms.map fun e => (e.1, e.2.map (Scalar.divide · σ))
  offset := Scalar.divide a.offset σ
  haveHeight := by
    refine List.forall_mem_map.2 fun e he => List.forall_mem_map.2 fun c hc => ?_
    have hc : c.length = a.offset.length := a.haveHeight e he c hc
    rw [length_divide (hc.trans hσ), length_divide hσ, hc]

theorem termsSum_divide : ∀ {terms : List (Key × Block ℝ)} {ws : List ℝ},
    TermsSum σ.length vs (terms.map fun e => (e.1, e.2.map (Scalar.divide · σ))) ws ↔
      ∃ zs, TermsSum σ.length vs terms zs ∧ ws = Scalar.divide zs σ
  | [], ws => by
    constructor
    · exact fun h => ⟨_, rfl, h.trans (divide_zeros σ).symm⟩
    · rintro ⟨zs, rfl, rfl⟩
      exact divide_zeros σ
  | (k, b) :: rest, ws => by
    constructor
    · rintro ⟨xs, ys, hxs, hlength, hys, rfl⟩
      obtain ⟨zs, hzs, rfl⟩ := termsSum_divide.1 hys
      rw [List.length_map] at hlength
      exact ⟨_, ⟨xs, zs, hxs, hlength, hzs, rfl⟩, by rw [combine_map_divide, divide_plus]⟩
    · rintro ⟨_, ⟨xs, ys, hxs, hlength, hys, rfl⟩, rfl⟩
      refine ⟨xs, _, hxs, ?_, termsSum_divide.2 ⟨ys, hys, rfl⟩, ?_⟩
      · rw [List.length_map, hlength]
      · rw [combine_map_divide, divide_plus]

/-- The value of the divided form. -/
theorem evaluates_divide {hσ : a.offset.length = σ.length} :
    (a.divide σ hσ).Evaluates vs rows ↔
      ∃ rows', a.Evaluates vs rows' ∧ rows = Scalar.divide rows' σ := by
  unfold Evaluates
  have hlength : (a.divide σ hσ).offset.length = σ.length := (length_divide hσ).trans hσ
  rw [hlength, hσ]
  constructor
  · rintro ⟨ws, hws, rfl⟩
    obtain ⟨zs, hzs, rfl⟩ := termsSum_divide.1 hws
    exact ⟨_, ⟨zs, hzs, rfl⟩, (divide_plus ..).symm⟩
  · rintro ⟨_, ⟨zs, hzs, rfl⟩, rfl⟩
    exact ⟨_, termsSum_divide.2 ⟨zs, hzs, rfl⟩, divide_plus ..⟩

end AffineForm

/-! ## 3. Affine relations -/

namespace Relation

/-- The relation gives a scalar or a vector, relates an actuation to a wrench, asks a wrench to be
planar, or integrates over a step of known length. -/
def IsAffine : Relation ℝ → Prop
  | prior _ (.scalar _) | prior _ (.vector _) | torque .. | wrenchPlanar ..
  | collocation _ _ _ _ (.fixed _) _ => True
  | _ => False

theorem IsAffine.isBuiltIn : ∀ {r : Relation ℝ}, r.IsAffine → r.IsBuiltIn
  | prior .., _ | torque .., _ | wrenchPlanar .., _ | collocation .., _ => trivial

/-- The relation is given by a form: it has its variables, its values and its blocks. -/
structure HasForm (r : Relation ℝ) (a : AffineForm) : Prop where
  keys_eq : r.keys = a.terms.map Prod.fst
  residual_eq_ok : ∀ {vs rows}, r.residual vs = .ok rows ↔ a.Evaluates vs rows
  blocks_eq : ∀ {vs rows}, r.residual vs = .ok rows →
    ∃ exact, r.exactBlocks? = some exact ∧ exact vs = .ok (a.terms.map Prod.snd)

section Forms

variable {vs : Values ℝ}

theorem residual_prior_scalar {k : Key} {x : ℝ} {rows : List ℝ} :
    (prior k (.scalar x)).residual vs = .ok rows ↔ ∃ y, vs.scalar k = .ok y ∧ [y - x] = rows := by
  constructor
  · intro h
    obtain ⟨v, hv, h⟩ := bind_eq_ok.1 h
    cases v with
    | scalar y => exact ⟨y, Values.scalar_eq_ok (Values.lookup_eq_ok.1 hv), pure_eq_ok.1 h⟩
    | vector y => cases h
    | pose y => cases h
  · rintro ⟨y, hy, rfl⟩
    exact bind_eq_ok.2 ⟨.scalar y, Values.lookup_of_scalar hy, rfl⟩

theorem residual_prior_vector {k : Key} {u : SpatialVector ℝ} {rows : List ℝ} :
    (prior k (.vector u)).residual vs = .ok rows ↔
      ∃ y, vs.vector6 k = .ok y ∧ (y - u).toList = rows := by
  constructor
  · intro h
    obtain ⟨v, hv, h⟩ := bind_eq_ok.1 h
    cases v with
    | scalar y => cases h
    | vector y => exact ⟨y, Values.vector6_eq_ok (Values.lookup_eq_ok.1 hv), pure_eq_ok.1 h⟩
    | pose y => cases h
  · rintro ⟨y, hy, rfl⟩
    exact bind_eq_ok.2 ⟨.vector y, Values.lookup_of_vector6 hy, rfl⟩

theorem exists_form_prior_scalar (k : Key) (x : ℝ) : ∃ a, (prior k (.scalar x)).HasForm a := by
  have hvalue : ∀ y : ℝ, [y - x] = plus [-x] (plus (combine 1 [[1]] [y]) [0]) := by
    intro y
    simp [combine]
    ring
  refine ⟨⟨[(k, [[1]])], [-x], ?_⟩, rfl, fun {vs rows} => ?_, fun _ => ⟨_, rfl, rfl⟩⟩
  · exact List.forall_mem_singleton.2 (List.forall_mem_singleton.2 rfl)
  rw [residual_prior_scalar]
  constructor
  · rintro ⟨y, hy, rfl⟩
    exact ⟨_, termsSum_scalar.2 ⟨y, hy, _, rfl, rfl⟩, hvalue y⟩
  · rintro ⟨_, hzs, rfl⟩
    obtain ⟨y, hy, _, rfl, rfl⟩ := termsSum_scalar.1 hzs
    exact ⟨y, hy, hvalue y⟩

theorem exists_form_prior_vector (k : Key) (u : SpatialVector ℝ) :
    ∃ a, (prior k (.vector u)).HasForm a := by
  have hvalue : ∀ y : SpatialVector ℝ, (y - u).toList = plus (u.toList.map (- ·))
      (plus (combine 6 (identityBlock 6) y.toList) (List.replicate 6 0)) := by
    intro y
    have hsub : (y - u).toList = plus (u.toList.map (- ·)) y.toList := by
      simp only [SpatialVector.toList, List.map_cons, List.map_nil, plus_cons, plus_nil_left,
        neg_add_eq_sub]
      rfl
    have hidentity : combine 6 (identityBlock 6) y.toList = y.toList := by
      simp [combine, identityBlock, axis, List.range_succ, SpatialVector.toList]
    rw [hidentity, plus_zeros_of_length (SpatialVector.length_toList y), hsub]
  refine ⟨⟨[(k, identityBlock 6)], u.toList.map (- ·), ?_⟩, rfl, fun {vs rows} => ?_,
    fun _ => ⟨_, rfl, rfl⟩⟩
  · exact List.forall_mem_singleton.2 (List.forall_mem_map.2 fun i _ => by simp [axis])
  rw [residual_prior_vector]
  constructor
  · rintro ⟨y, hy, rfl⟩
    exact ⟨_, (termsSum_vector6 (by simp [identityBlock])).2 ⟨y, hy, _, rfl, rfl⟩, hvalue y⟩
  · rintro ⟨_, hzs, rfl⟩
    obtain ⟨y, hy, _, rfl, rfl⟩ := (termsSum_vector6 (by simp [identityBlock])).1 hzs
    exact ⟨y, hy, hvalue y⟩

theorem exists_form_torque (w t : Key) (screw : SpatialVector ℝ) :
    ∃ a, (torque w t screw).HasForm a := by
  have hvalue : ∀ (u : SpatialVector ℝ) (y : ℝ), [screw.dot u - y] = plus [0]
      (plus (combine 1 (screw.toList.map fun s => [s]) u.toList)
        (plus (combine 1 [[-1]] [y]) [0])) := by
    intro u y
    simp only [combine, SpatialVector.toList, SpatialVector.dot, Vec3.dot, List.map_cons,
      List.map_nil, List.replicate_one, plus_cons, plus_nil_left]
    congr 1
    ring
  refine ⟨⟨[(w, screw.toList.map fun s => [s]), (t, [[-1]])], [0], ?_⟩, rfl, fun {vs rows} => ?_,
    fun _ => ⟨_, rfl, rfl⟩⟩
  · exact List.forall_mem_cons.2 ⟨List.forall_mem_map.2 fun _ _ => rfl,
      List.forall_mem_singleton.2 (List.forall_mem_singleton.2 rfl)⟩
  constructor
  · intro h
    obtain ⟨u, hu, h⟩ := bind_eq_ok.1 h
    obtain ⟨y, hy, rfl⟩ := map_eq_ok.1 h
    exact ⟨_, (termsSum_vector6 rfl).2 ⟨u, hu, _, termsSum_scalar.2 ⟨y, hy, _, rfl, rfl⟩, rfl⟩,
      hvalue u y⟩
  · rintro ⟨_, hzs, rfl⟩
    obtain ⟨u, hu, _, hrest, rfl⟩ := (termsSum_vector6 rfl).1 hzs
    obtain ⟨y, hy, _, rfl, rfl⟩ := termsSum_scalar.1 hrest
    exact bind_eq_ok.2 ⟨u, hu, map_eq_ok.2 ⟨y, hy, hvalue u y⟩⟩

/-- Columns that are read off some rows combine row by row. -/
theorem combine_map {β : Type} (rows : List β) : ∀ (fs : List (β → ℝ)) (xs : List ℝ),
    combine rows.length (fs.map fun f => rows.map f) xs =
      rows.map fun r => (List.zipWith (fun f x => x * f r) fs xs).sum
  | [], xs => by
    rw [List.map_nil, combine_nil_left, ← List.map_const']
    rfl
  | _ :: _, [] => (List.map_const' ..).symm
  | f :: fs, x :: xs => by
    rw [List.map_cons, combine, combine_map rows fs xs, List.map_map, plus, List.zipWith_map,
      List.zipWith_self]
    rfl

theorem exists_form_wrenchPlanar (w : Key) (rows : List (SpatialVector ℝ)) :
    ∃ a, (wrenchPlanar w rows).HasForm a := by
  let offset : List ℝ := List.replicate rows.length 0
  let columns : Block ℝ := (List.range 6).map fun i => rows.map fun r => r.toList.getD i 0
  have hoffset : offset.length = rows.length := List.length_replicate
  have hvalue : ∀ u : SpatialVector ℝ, rows.map (·.dot u) =
      plus offset (plus (combine offset.length columns u.toList)
        (List.replicate offset.length 0)) := by
    intro u
    have hcombine : combine rows.length columns u.toList = rows.map (·.dot u) := by
      refine (combine_map rows ((List.range 6).map fun i (r : SpatialVector ℝ) =>
        r.toList.getD i 0) u.toList).trans (List.map_congr_left fun r _ => ?_)
      simp [List.range_succ, SpatialVector.toList, SpatialVector.dot, Vec3.dot]
      ring
    rw [hoffset, hcombine, plus_zeros_of_length (List.length_map _),
      zeros_plus_of_length (List.length_map _)]
  refine ⟨⟨[(w, columns)], offset, ?_⟩, rfl, fun {vs out} => ?_, fun _ => ⟨_, rfl, rfl⟩⟩
  · refine List.forall_mem_singleton.2 (List.forall_mem_map.2 fun i _ => ?_)
    rw [List.length_map, hoffset]
  have hsix : columns.length = 6 := List.length_map _
  constructor
  · intro h
    obtain ⟨u, hu, rfl⟩ := map_eq_ok.1 h
    exact ⟨_, (termsSum_vector6 hsix).2 ⟨u, hu, _, rfl, rfl⟩, hvalue u⟩
  · rintro ⟨_, hzs, rfl⟩
    obtain ⟨u, hu, _, rfl, rfl⟩ := (termsSum_vector6 hsix).1 hzs
    exact map_eq_ok.2 ⟨u, hu, hvalue u⟩

theorem residual_collocation_fixed {x₀ x₁ r₀ r₁ : Key} {dt : ℝ} {scheme : CollocationScheme}
    {rows : List ℝ} : (collocation x₀ x₁ r₀ r₁ (.fixed dt) scheme).residual vs = .ok rows ↔
      ∃ a₀ a₁ b₀ b₁, vs.scalar x₀ = .ok a₀ ∧ vs.scalar x₁ = .ok a₁ ∧ vs.scalar r₀ = .ok b₀ ∧
        scheme.endRate (vs.scalar r₁) = .ok b₁ ∧ [scheme.residual a₀ a₁ b₀ b₁ dt] = rows := by
  constructor
  · intro h
    obtain ⟨⟨a₀, a₁, b₀, b₁, _⟩, hread, hrows⟩ := map_eq_ok.1 h
    obtain ⟨ha₀, ha₁, hb₀, hb₁, hdt⟩ := readStep_eq_ok.1 hread
    obtain rfl := pure_eq_ok.1 hdt
    exact ⟨a₀, a₁, b₀, b₁, ha₀, ha₁, hb₀, hb₁, hrows⟩
  · rintro ⟨a₀, a₁, b₀, b₁, ha₀, ha₁, hb₀, hb₁, hrows⟩
    exact map_eq_ok.2 ⟨_, readStep_eq_ok.2 ⟨ha₀, ha₁, hb₀, hb₁, rfl⟩, hrows⟩

/-- The blocks of a step of known length are the same wherever it evaluates. -/
theorem blocks_collocation_fixed {x₀ x₁ r₀ r₁ : Key} {dt : ℝ} {scheme : CollocationScheme}
    {rows : List ℝ}
    (h : (collocation x₀ x₁ r₀ r₁ (.fixed dt) scheme).residual vs = .ok rows) :
    ∃ exact, (collocation x₀ x₁ r₀ r₁ (.fixed dt) scheme).exactBlocks? = some exact ∧
      exact vs = .ok (scalarBlock (-1) :: scalarBlock 1 :: match scheme with
        | .euler => [scalarBlock (-dt)]
        | .trapezoidal => [scalarBlock (-half * dt), scalarBlock (-half * dt)]) := by
  obtain ⟨⟨a₀, a₁, b₀, b₁, _⟩, hread, -⟩ := map_eq_ok.1 h
  obtain ⟨-, -, -, -, hdt⟩ := readStep_eq_ok.1 hread
  obtain rfl := pure_eq_ok.1 hdt
  refine ⟨_, rfl, map_eq_ok.2 ⟨_, hread, ?_⟩⟩
  cases scheme <;> rfl

theorem exists_form_euler (x₀ x₁ r₀ r₁ : Key) (dt : ℝ) :
    ∃ a, (collocation x₀ x₁ r₀ r₁ (.fixed dt) .euler).HasForm a := by
  have hvalue : ∀ a₀ a₁ b₀ : ℝ, [a₁ - (a₀ + dt * b₀)] = plus [0]
      (plus (combine 1 [[-1]] [a₀]) (plus (combine 1 [[1]] [a₁])
        (plus (combine 1 [[-dt]] [b₀]) [0]))) := by
    intro a₀ a₁ b₀
    simp [combine]
    ring
  refine ⟨⟨[(x₀, [[-1]]), (x₁, [[1]]), (r₀, [[-dt]])], [0], ?_⟩, rfl, fun {vs rows} => ?_,
    blocks_collocation_fixed⟩
  · simp [HaveHeight]
  rw [residual_collocation_fixed]
  constructor
  · rintro ⟨a₀, a₁, b₀, _, ha₀, ha₁, hb₀, -, rfl⟩
    exact ⟨_, termsSum_scalar.2 ⟨a₀, ha₀, _, termsSum_scalar.2 ⟨a₁, ha₁, _,
      termsSum_scalar.2 ⟨b₀, hb₀, _, rfl, rfl⟩, rfl⟩, rfl⟩, hvalue a₀ a₁ b₀⟩
  · rintro ⟨_, hzs, rfl⟩
    obtain ⟨a₀, ha₀, _, hend, rfl⟩ := termsSum_scalar.1 hzs
    obtain ⟨a₁, ha₁, _, hrate, rfl⟩ := termsSum_scalar.1 hend
    obtain ⟨b₀, hb₀, _, rfl, rfl⟩ := termsSum_scalar.1 hrate
    exact ⟨a₀, a₁, b₀, 0, ha₀, ha₁, hb₀, rfl, hvalue a₀ a₁ b₀⟩

theorem exists_form_trapezoidal (x₀ x₁ r₀ r₁ : Key) (dt : ℝ) :
    ∃ a, (collocation x₀ x₁ r₀ r₁ (.fixed dt) .trapezoidal).HasForm a := by
  have hvalue : ∀ a₀ a₁ b₀ b₁ : ℝ, [a₁ - (a₀ + half * dt * (b₀ + b₁))] = plus [0]
      (plus (combine 1 [[-1]] [a₀]) (plus (combine 1 [[1]] [a₁])
        (plus (combine 1 [[-half * dt]] [b₀]) (plus (combine 1 [[-half * dt]] [b₁]) [0])))) := by
    intro a₀ a₁ b₀ b₁
    simp [combine]
    ring
  refine ⟨⟨[(x₀, [[-1]]), (x₁, [[1]]), (r₀, [[-half * dt]]), (r₁, [[-half * dt]])], [0], ?_⟩, rfl,
    fun {vs rows} => ?_, blocks_collocation_fixed⟩
  · simp [HaveHeight]
  rw [residual_collocation_fixed]
  constructor
  · rintro ⟨a₀, a₁, b₀, b₁, ha₀, ha₁, hb₀, hb₁, rfl⟩
    exact ⟨_, termsSum_scalar.2 ⟨a₀, ha₀, _, termsSum_scalar.2 ⟨a₁, ha₁, _,
      termsSum_scalar.2 ⟨b₀, hb₀, _, termsSum_scalar.2 ⟨b₁, hb₁, _, rfl, rfl⟩, rfl⟩, rfl⟩, rfl⟩,
      hvalue a₀ a₁ b₀ b₁⟩
  · rintro ⟨_, hzs, rfl⟩
    obtain ⟨a₀, ha₀, _, hend, rfl⟩ := termsSum_scalar.1 hzs
    obtain ⟨a₁, ha₁, _, hrate, rfl⟩ := termsSum_scalar.1 hend
    obtain ⟨b₀, hb₀, _, hendRate, rfl⟩ := termsSum_scalar.1 hrate
    obtain ⟨b₁, hb₁, _, rfl, rfl⟩ := termsSum_scalar.1 hendRate
    exact ⟨a₀, a₁, b₀, b₁, ha₀, ha₁, hb₀, hb₁, hvalue a₀ a₁ b₀ b₁⟩

end Forms

/-- **Affine relations are given by forms.** -/
theorem IsAffine.exists_form : ∀ {r : Relation ℝ}, r.IsAffine → ∃ a, r.HasForm a
  | prior k (.scalar x), _ => exists_form_prior_scalar k x
  | prior k (.vector u), _ => exists_form_prior_vector k u
  | torque w t screw, _ => exists_form_torque w t screw
  | wrenchPlanar w rows, _ => exists_form_wrenchPlanar w rows
  | collocation x₀ x₁ r₀ r₁ (.fixed dt) .euler, _ => exists_form_euler x₀ x₁ r₀ r₁ dt
  | collocation x₀ x₁ r₀ r₁ (.fixed dt) .trapezoidal, _ => exists_form_trapezoidal x₀ x₁ r₀ r₁ dt

end Relation

/-! ## 4. Affine factors -/

theorem Factor.blocks_of_exact [Runtime ℝ] {f : Factor ℝ} {vs : Values ℝ} {blocks : List (Block ℝ)}
    (h : ∃ exact, f.relation.exactBlocks? = some exact ∧ exact vs = .ok blocks) :
    f.blocks vs = .ok blocks := by
  obtain ⟨exact, hexact, hblocks⟩ := h
  unfold Factor.blocks
  rw [hexact]
  exact hblocks

/-- The factor in units of its noise is given by a form: it has its variables and its values, and
the linear model is made of its blocks. -/
structure Factor.HasForm (f : Factor ℝ) (a : AffineForm) : Prop where
  keys_eq : f.keys = a.terms.map Prod.fst
  dim_eq : f.dim = a.offset.length
  whitened_eq_ok : ∀ {vs rows}, f.whitened vs = .ok rows ↔ a.Evaluates vs rows
  linearize_eq : ∀ [Runtime ℝ] {vs rows}, f.whitened vs = .ok rows →
    f.linearize vs true = .ok (a.model rows)

/-- **An affine factor that evaluates somewhere is given by a form.** -/
theorem Factor.exists_form {f : Factor ℝ} (hf : f.relation.IsAffine) {vs : Values ℝ}
    {rows : List ℝ} (h : f.whitened vs = .ok rows) : ∃ a, f.HasForm a := by
  obtain ⟨a, ha⟩ := hf.exists_form
  have hwhiten : ∀ {rows rows' : List ℝ}, f.noise.whiten rows = .ok rows' ↔
      rows.length = f.noise.sigmas.length ∧ Scalar.divide rows f.noise.sigmas = rows' := by
    intro rows rows'
    unfold Noise.whiten
    by_cases hlength : rows.length = f.noise.dim
    · rw [if_pos hlength, pure_eq_ok]
      exact (and_iff_right hlength).symm
    · rw [if_neg hlength]
      exact ⟨nofun, fun h => absurd h.1 hlength⟩
  obtain ⟨rows', hrows', hnoise⟩ := bind_eq_ok.1 h
  have hσ : a.offset.length = f.noise.sigmas.length :=
    (ha.residual_eq_ok.1 hrows').length_eq.symm.trans (hwhiten.1 hnoise).1
  have hkeys : f.keys = (a.divide f.noise.sigmas hσ).terms.map Prod.fst := by
    rw [keys, ha.keys_eq, AffineForm.divide, List.map_map]
    rfl
  have hdivide : (a.terms.map Prod.snd).map f.noise.whitenBlock =
      (a.divide f.noise.sigmas hσ).terms.map Prod.snd := by
    rw [AffineForm.divide, List.map_map, List.map_map]
    refine List.map_congr_left fun e he => List.map_congr_left fun c hc => ?_
    exact Noise.whitenColumn_eq_divide ((a.haveHeight e he c hc).trans hσ)
  refine ⟨a.divide f.noise.sigmas hσ, hkeys, ((length_divide hσ).trans hσ).symm,
    fun {vs rows} => ?_, fun {_ vs rows} h => ?_⟩
  · rw [AffineForm.evaluates_divide]
    constructor
    · intro h
      obtain ⟨raw, hraw, hrows⟩ := bind_eq_ok.1 h
      exact ⟨raw, ha.residual_eq_ok.1 hraw, (hwhiten.1 hrows).2.symm⟩
    · rintro ⟨raw, hraw, rfl⟩
      exact bind_eq_ok.2 ⟨raw, ha.residual_eq_ok.2 hraw, hwhiten.2 ⟨hraw.length_eq.trans hσ, rfl⟩⟩
  · obtain ⟨raw, hraw, hrows⟩ := bind_eq_ok.1 h
    refine bind_eq_ok.2 ⟨raw, hraw, bind_eq_ok.2 ⟨_, blocks_of_exact (ha.blocks_eq hraw), ?_⟩⟩
    rw [if_pos rfl, hdivide, hkeys]
    exact map_eq_ok.2 ⟨rows, hrows, rfl⟩

/-- The given value of a scalar variable, in units of its standard deviation. -/
theorem Factor.whitened_scalarPrior {vs : Values ℝ} {k : Key} {x y σ : ℝ}
    (h : vs.get? k = some (.scalar y)) :
    (scalarPrior k x σ).whitened vs = .ok [(y - x) / σ] :=
  bind_eq_ok.2 ⟨_, Relation.residual_prior_scalar.2 ⟨y, Values.scalar_eq_ok h, rfl⟩, rfl⟩

end Articulated
