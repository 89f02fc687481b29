import Articulated.Proofs.Factor.Affine
import Articulated.Graph.Basic
import Articulated.Graph.Jacobian

/-!
# Linear models of affine graphs

The linear model of a graph of affine factors is exact: after a step along any tangent vector the
error of the graph is what the model says. The rows of the model follow the factors and the columns
the ordering, the step is cut along the ordering too, and whatever the ordering leaves out is held
fixed. Numbers are exact here.

* `Values.Placed`: variables with their tangent dimensions.
* `AffineForm.matrix`: the columns of a form for such variables.
* `AffineForm.strip_eq`: these are the columns that `Jacobian.strip` finds.
* `Values.exists_retractInto`: a step moves every form by its matrix.
* `SystemAt`: forms with their values, and what stacking and stepping make of them.
* `FactorGraph.error_eq_ok`: the error of a graph is half the squared length of its whitened rows.
* `FactorGraph.linearModel_exact`: the model tells the error after a step.
-/

namespace Articulated

open Scalar

/-! ## 1. Variables with their dimensions -/

/-- The number of tangent coordinates of some variables. -/
def breadth (places : List (Key × Nat)) : Nat := (places.map Prod.snd).foldr (· + ·) 0

namespace Values

variable {vs : Values ℝ}

/-- The variables stand with their tangent dimensions. -/
def Placed (vs : Values ℝ) (places : List (Key × Nat)) : Prop :=
  ∀ e ∈ places, ∃ v, vs.get? e.1 = some v ∧ v.dim = e.2

theorem exists_places : ∀ {ordering : List Key}, (∀ k ∈ ordering, ∃ v, vs.get? k = some v) →
    ∃ places, vs.Placed places ∧ places.map Prod.fst = ordering
  | [], _ => ⟨[], List.forall_mem_nil _, rfl⟩
  | k :: ordering, h => by
    obtain ⟨⟨v, hv⟩, hrest⟩ := List.forall_mem_cons.1 h
    obtain ⟨places, hplaces, rfl⟩ := exists_places hrest
    exact ⟨(k, v.dim) :: places, List.forall_mem_cons.2 ⟨⟨v, hv, rfl⟩, hplaces⟩, rfl⟩

theorem Placed.dim_eq_ok {places : List (Key × Nat)} (h : vs.Placed places) {e : Key × Nat}
    (he : e ∈ places) : vs.dim e.1 = .ok e.2 := by
  obtain ⟨v, hv, hdim⟩ := h e he
  exact map_eq_ok.2 ⟨v, lookup_eq_ok.2 hv, hdim⟩

theorem Placed.mapM_dim {places : List (Key × Nat)} (h : vs.Placed places) :
    (places.map Prod.fst).mapM (fun k => do return (k, ← vs.dim k)) = .ok places := by
  rw [mapM_eq_ok, List.forall₂_map_left_iff, List.forall₂_same]
  exact fun e he => map_eq_ok.2 ⟨e.2, h.dim_eq_ok he, rfl⟩

theorem Placed.totalDim_eq_ok : ∀ {places : List (Key × Nat)}, vs.Placed places →
    vs.totalDim (places.map Prod.fst) = .ok (breadth places)
  | [], _ => rfl
  | e :: places, h => by
    have hrest : vs.Placed places := fun e' he' => h e' (List.mem_cons_of_mem e he')
    exact bind_eq_ok.2 ⟨e.2, h.dim_eq_ok List.mem_cons_self,
      map_eq_ok.2 ⟨_, hrest.totalDim_eq_ok, rfl⟩⟩

end Values

/-! ## 2. One factor -/

/-- Blocks for distinct variables: the last one for a variable is the only one. -/
theorem Jacobian.foldl_lastBlock (k : Key) : ∀ {terms : List (Key × Block ℝ)}
    (found : Option (Block ℝ)), (terms.map Prod.fst).Nodup →
      terms.foldl (fun found e => if e.1 = k then some e.2 else found) found =
        (terms.lookup k).or found
  | [], _, _ => rfl
  | (q, b) :: terms, found, h => by
    obtain ⟨hq, h⟩ := List.nodup_cons.1 h
    rw [List.foldl_cons, foldl_lastBlock k _ h, Key.lookup_cons_eq]
    by_cases hqk : q = k
    · subst hqk
      rw [Key.lookup_eq_none hq, if_pos rfl, if_pos rfl, Option.none_or, Option.some_or]
    · rw [if_neg hqk, if_neg (Ne.symm hqk)]

/-- The blocks of a sum have a column for every tangent coordinate. -/
theorem TermsSum.length_block {n : Nat} {vs : Values ℝ} {k : Key} {v : Value ℝ} {b : Block ℝ}
    (hv : vs.get? k = some v) : ∀ {terms : List (Key × Block ℝ)} {zs : List ℝ},
      TermsSum n vs terms zs → terms.lookup k = some b → b.length = v.dim
  | [], _, _, hb => nomatch hb
  | (q, c) :: terms, _, ⟨xs, ys, hxs, hlength, hys, _⟩, hb => by
    rw [Key.lookup_cons_eq] at hb
    by_cases hkq : k = q
    · subst hkq
      rw [if_pos rfl] at hb
      obtain rfl := Option.some.inj hb
      rw [Values.coords?, hv, Option.bind_some] at hxs
      exact hlength.symm.trans (Value.length_coords hxs)
    · rw [if_neg hkq] at hb
      exact hys.length_block hv hb

namespace AffineForm

variable {a : AffineForm} {vs : Values ℝ} {rows : List ℝ} {k : Key} {v : Value ℝ}

theorem Evaluates.length_columns (h : a.Evaluates vs rows) (hv : vs.get? k = some v) :
    (a.columns k v.dim).length = v.dim := by
  obtain ⟨zs, hzs, -⟩ := h
  unfold columns columnsFor
  cases hb : a.terms.lookup k with
  | none => exact List.length_replicate
  | some b => exact hzs.length_block hv hb

/-- The columns that a linear model has for a variable are those of the form. -/
theorem columnsOf_eq (h : a.Evaluates vs rows) (hnodup : (a.terms.map Prod.fst).Nodup)
    (hv : vs.get? k = some v) :
    Jacobian.columnsOf (a.model rows) k v.dim = .ok (a.columns k v.dim) := by
  have hlast : Jacobian.lastBlock? (a.model rows) k = a.terms.lookup k := by
    have hzip : (a.terms.map Prod.fst).zip (a.terms.map Prod.snd) = a.terms := by
      rw [List.zip_map', List.map_id']
    unfold Jacobian.lastBlock? model
    rw [hzip, Jacobian.foldl_lastBlock k none hnodup, Option.or_none]
  have hrows : (a.model rows).residual.length = a.offset.length := h.length_eq
  have hlength := h.length_columns hv
  have hheight := a.columns_haveHeight k v.dim
  unfold Jacobian.columnsOf
  rw [hlast, hrows]
  unfold columns columnsFor at hlength hheight ⊢
  cases hb : a.terms.lookup k with
  | none => rfl
  | some b =>
    rw [hb, Option.getD_some] at hlength hheight
    refine if_pos ⟨hlength, List.all_eq_true.2 fun c hc => decide_eq_true (hheight c hc)⟩

/-- The columns of the form for some variables, side by side. -/
def matrix (a : AffineForm) (places : List (Key × Nat)) : Dense ℝ :=
  ⟨a.offset.length, places.flatMap fun e => a.columns e.1 e.2⟩

/-- **The strip of a linear model** has the columns of the form. -/
theorem strip_eq (h : a.Evaluates vs rows) (hnodup : (a.terms.map Prod.fst).Nodup) :
    ∀ {places : List (Key × Nat)}, (places.map Prod.fst).Nodup → vs.Placed places →
      Jacobian.strip (a.model rows) places = .ok (a.matrix places).columns
  | [], _, _ => rfl
  | (k, width) :: places, hplaces, hplaced => by
    obtain ⟨hk, hrest⟩ := List.nodup_cons.1 hplaces
    obtain ⟨⟨v, hv, rfl⟩, hplacedRest⟩ := List.forall_mem_cons.1 hplaced
    have hfirst : places.any (fun e => e.1 = k) = false := by
      exact List.any_eq_false.2 fun e he heq => Key.ne_of_not_mem hk he (of_decide_eq_true heq)
    unfold Jacobian.strip
    rw [hfirst]
    exact bind_eq_ok.2 ⟨_, columnsOf_eq h hnodup hv,
      map_eq_ok.2 ⟨_, strip_eq h hnodup hrest hplacedRest, rfl⟩⟩

theorem matrix_haveHeight (a : AffineForm) (places : List (Key × Nat)) :
    HaveHeight a.offset.length (a.matrix places).columns := by
  refine List.forall_mem_flatten.2 (List.forall_mem_map.2 fun e _ => ?_)
  exact a.columns_haveHeight e.1 e.2

/-- The tangent vector is cut where the columns are put together. -/
theorem apply_matrix_cons {places : List (Key × Nat)} {width : Nat} {d : List ℝ}
    (hwidth : (a.columns k width).length = (d.take width).length) :
    (a.matrix ((k, width) :: places)).apply d =
      plus (combine a.offset.length (a.columns k width) (d.take width))
        ((a.matrix places).apply (d.drop width)) := by
  rw [Dense.apply_eq_combine (a.matrix_haveHeight _), Dense.apply_eq_combine
    (a.matrix_haveHeight _)]
  have hcut : combine a.offset.length (a.columns k width ++ (a.matrix places).columns)
      (d.take width ++ d.drop width) = plus (combine a.offset.length (a.columns k width)
        (d.take width)) (combine a.offset.length (a.matrix places).columns (d.drop width)) :=
    combine_append (a.matrix_haveHeight places) hwidth
  rwa [List.take_append_drop] at hcut

theorem matrix_hasCols (h : a.Evaluates vs rows) : ∀ {places : List (Key × Nat)},
    vs.Placed places → (a.matrix places).HasCols (breadth places)
  | [], _ => ⟨rfl, a.matrix_haveHeight []⟩
  | (k, width) :: places, hplaced => by
    obtain ⟨⟨v, hv, rfl⟩, hrest⟩ := List.forall_mem_cons.1 hplaced
    have hcols := (matrix_hasCols h hrest).cols_eq
    refine ⟨?_, a.matrix_haveHeight _⟩
    exact List.length_append.trans (congrArg₂ (· + ·) (h.length_columns hv) hcols)

end AffineForm

/-! ## 3. Steps -/

namespace Values

variable {vs : Values ℝ}

/-- **A step moves every form by what its matrix makes of the tangent vector.** The induction goes
along the ordering: the variables that are still to be moved have their values of before. -/
theorem exists_retractInto : ∀ {places : List (Key × Nat)} {d : List ℝ} {acc : Values ℝ},
    (places.map Prod.fst).Nodup → vs.Placed places → d.length = breadth places →
      (∀ e ∈ places, acc.get? e.1 = vs.get? e.1) →
        ∃ out, vs.retractInto (places.map Prod.fst) d acc = .ok out ∧
          ∀ (a : AffineForm) (rows : List ℝ), (a.terms.map Prod.fst).Nodup →
            a.Evaluates acc rows → a.Evaluates out (plus rows ((a.matrix places).apply d))
  | [], d, acc, _, _, _, _ => by
    refine ⟨acc, rfl, fun a rows _ h => ?_⟩
    have hrows : plus rows ((a.matrix []).apply d) = rows := plus_zeros_of_length h.length_eq
    rwa [hrows]
  | (k, width) :: places, d, acc, hnodup, hplaced, hd, hacc => by
    obtain ⟨hk, hnodupRest⟩ := List.nodup_cons.1 hnodup
    obtain ⟨⟨v, hv, rfl⟩, hplacedRest⟩ := List.forall_mem_cons.1 hplaced
    obtain ⟨hacck, haccRest⟩ := List.forall_mem_cons.1 hacc
    have hsum : d.length = v.dim + breadth places := hd
    have htake : (d.take v.dim).length = v.dim := by
      rw [List.length_take, hsum, Nat.min_eq_left (Nat.le_add_right ..)]
    have hdrop : (d.drop v.dim).length = breadth places := by
      rw [List.length_drop, hsum, Nat.add_sub_cancel_left]
    have hmoved : ∀ e ∈ places,
        (acc.insert k (v.retract (d.take v.dim))).get? e.1 = vs.get? e.1 := by
      intro e he
      rw [get?_insert, if_neg (Key.ne_of_not_mem hk he), haccRest e he]
    obtain ⟨out, hout, hforms⟩ := exists_retractInto hnodupRest hplacedRest hdrop hmoved
    refine ⟨out, ?_, fun a rows hterms h => ?_⟩
    · refine bind_eq_ok.2 ⟨v, lookup_eq_ok.2 hv, ?_⟩
      rw [if_neg (by omega)]
      exact hout
    · have hacck : acc.get? k = some v := hacck.trans hv
      have hwidth : (a.columns k v.dim).length = (d.take v.dim).length :=
        (h.length_columns hacck).trans htake.symm
      have hout := hforms a _ hterms (h.move hterms hacck htake)
      rwa [plus_assoc, ← AffineForm.apply_matrix_cons hwidth] at hout

end Values

/-! ## 4. Systems of forms -/

/-- Forms over distinct variables, each with its value at an assignment. -/
structure SystemAt (vs : Values ℝ) (parts : List (AffineForm × List ℝ)) : Prop where
  nodup : ∀ p ∈ parts, (p.1.terms.map Prod.fst).Nodup
  evaluates : ∀ p ∈ parts, p.1.Evaluates vs p.2

/-- The columns of all forms for some variables, one form above the other. -/
def systemMatrix (parts : List (AffineForm × List ℝ)) (places : List (Key × Nat)) : Dense ℝ :=
  (parts.map fun p => p.1.matrix places).foldr Dense.above (Dense.noRows (breadth places))

/-- The forms with their values after a step. -/
noncomputable def stepped (parts : List (AffineForm × List ℝ)) (places : List (Key × Nat))
    (d : List ℝ) : List (AffineForm × List ℝ) :=
  parts.map fun p => (p.1, plus p.2 ((p.1.matrix places).apply d))

namespace SystemAt

variable {vs : Values ℝ} {parts : List (AffineForm × List ℝ)} {places : List (Key × Nat)}
  (h : SystemAt vs parts)

include h

theorem stack_eq (hnodup : (places.map Prod.fst).Nodup) (hplaced : vs.Placed places)
    (threshold : ℝ) :
    Jacobian.stack (parts.map fun p => p.1.model p.2) (places.map Prod.fst) vs threshold =
      .ok ⟨systemMatrix parts places, (parts.map Prod.snd).flatten, places.map Prod.fst,
        threshold⟩ := by
  have hstrips : (parts.map fun p => p.1.model p.2).mapM (fun l => do
      return Dense.mk l.residual.length (← Jacobian.strip l places)) =
        .ok (parts.map fun p => p.1.matrix places) := by
    rw [mapM_eq_ok, List.forall₂_map_left_iff, List.forall₂_map_right_iff, List.forall₂_same]
    intro p hp
    have hrows : p.1.Evaluates vs p.2 := h.evaluates p hp
    exact map_eq_ok.2 ⟨_, p.1.strip_eq hrows (h.nodup p hp) hnodup hplaced,
      congrArg (Dense.mk · _) hrows.length_eq⟩
  refine bind_eq_ok.2 ⟨places, hplaced.mapM_dim, bind_eq_ok.2 ⟨_, hstrips, pure_eq_ok.2 ?_⟩⟩
  rw [List.map_map]
  rfl

theorem hasCols_matrix (hplaced : vs.Placed places) :
    ∀ m ∈ parts.map fun p => p.1.matrix places, m.HasCols (breadth places) :=
  List.forall_mem_map.2 fun p hp => p.1.matrix_hasCols (h.evaluates p hp) hplaced

theorem hasCols (hplaced : vs.Placed places) :
    (systemMatrix parts places).HasCols (breadth places) :=
  Dense.hasCols_foldr_above (h.hasCols_matrix hplaced)

omit h in
theorem rows_systemMatrix (parts : List (AffineForm × List ℝ)) (places : List (Key × Nat)) :
    (systemMatrix parts places).rows = (parts.map fun p => p.1.offset.length).sum := by
  unfold systemMatrix
  rw [Dense.rows_foldr_above, List.map_map]
  rfl

/-- There is a row of the matrix for every row of the forms. -/
theorem length_rows :
    (parts.map Prod.snd).flatten.length = (systemMatrix parts places).rows := by
  rw [List.length_flatten, List.map_map, rows_systemMatrix]
  exact congrArg List.sum (List.map_congr_left fun p hp => (h.evaluates p hp).length_eq)

/-- After a step the rows have changed by what the matrix makes of the tangent vector. -/
theorem rows_stepped (hplaced : vs.Placed places) (d : List ℝ) :
    ((stepped parts places d).map Prod.snd).flatten =
      plus (parts.map Prod.snd).flatten ((systemMatrix parts places).apply d) := by
  unfold stepped systemMatrix
  rw [Dense.apply_foldr_above d (h.hasCols_matrix hplaced), List.map_map, List.map_map,
    plus_flatten_map]
  · rfl
  · intro p hp
    have hstep := p.1.matrix_hasCols (h.evaluates p hp) hplaced
    exact (h.evaluates p hp).length_eq.trans (hstep.length_apply d).symm

/-- **A step moves a system of forms by its matrix.** -/
theorem exists_step (hnodup : (places.map Prod.fst).Nodup) (hplaced : vs.Placed places)
    {d : List ℝ} (hd : d.length = breadth places) :
    ∃ out, vs.retract (places.map Prod.fst) d = .ok out ∧
      SystemAt out (stepped parts places d) := by
  obtain ⟨out, hout, hforms⟩ := Values.exists_retractInto hnodup hplaced hd fun _ _ => rfl
  refine ⟨out, hout, List.forall_mem_map.2 h.nodup, List.forall_mem_map.2 fun p hp => ?_⟩
  exact hforms p.1 p.2 (h.nodup p hp) (h.evaluates p hp)

end SystemAt

/-! ## 5. Graphs -/

/-- The error that a linear model tells after a step. -/
noncomputable def Jacobian.predictedError (j : Jacobian ℝ) (d : List ℝ) : ℝ :=
  half * normSq (plus j.residual (j.matrix.apply d))

namespace FactorGraph

variable {g : FactorGraph ℝ} {vs : Values ℝ} {e : ℝ}

/-- The error is half the squared length of the whitened rows of all factors. -/
theorem error_eq_ok [Runtime ℝ] : g.error vs = .ok e ↔
    ∃ rows, g.factors.mapM (·.whitened vs) = .ok rows ∧ half * normSq rows.flatten = e := by
  have hsum : ∀ rows : List (List ℝ),
      Scalar.sum (rows.map fun r => half * normSq r) = half * normSq rows.flatten := by
    intro rows
    rw [Scalar.sum_eq, List.sum_map_mul_left, normSq_flatten]
  constructor
  · intro h
    obtain ⟨costs, hcosts, rfl⟩ := map_eq_ok.1 h
    obtain ⟨rows, hrows, rfl⟩ := mapM_read_eq_ok.1 (inParallel_eq_ok.1 hcosts)
    exact ⟨rows, hrows, (hsum rows).symm⟩
  · rintro ⟨rows, hrows, rfl⟩
    exact map_eq_ok.2 ⟨_, inParallel_eq_ok.2 (mapM_read_eq_ok.2 ⟨rows, hrows, rfl⟩), hsum rows⟩

/-- The factors of the graph are given by forms over distinct variables, which stand with their
values at an assignment. -/
structure HasForms (g : FactorGraph ℝ) (vs : Values ℝ) (parts : List (AffineForm × List ℝ)) :
    Prop where
  forms : List.Forall₂ (fun f p => f.HasForm p.1) g.factors parts
  nodup : ∀ p ∈ parts, (p.1.terms.map Prod.fst).Nodup
  evaluates : ∀ p ∈ parts, p.1.Evaluates vs p.2

/-- Affine factors over distinct variables that evaluate are given by forms, one by one. -/
theorem exists_forms : ∀ {fs : List (Factor ℝ)} {rows : List (List ℝ)},
    (∀ f ∈ fs, f.relation.IsAffine ∧ f.keys.Nodup) → fs.mapM (·.whitened vs) = .ok rows →
      ∃ parts, HasForms ⟨fs⟩ vs parts ∧ parts.map Prod.snd = rows
  | [], rows, _, h => by
    obtain rfl := List.forall₂_nil_left_iff.1 (mapM_eq_ok.1 h)
    exact ⟨[], ⟨.nil, List.forall_mem_nil _, List.forall_mem_nil _⟩, rfl⟩
  | f :: fs, _, haffine, h => by
    obtain ⟨⟨hf, hnodup⟩, hfs⟩ := List.forall_mem_cons.1 haffine
    obtain ⟨r, rows, hr, hrows, rfl⟩ := List.forall₂_cons_left_iff.1 (mapM_eq_ok.1 h)
    obtain ⟨a, ha⟩ := Factor.exists_form hf hr
    obtain ⟨parts, hparts, rfl⟩ := exists_forms hfs (mapM_eq_ok.2 hrows)
    refine ⟨(a, r) :: parts, ⟨.cons ha hparts.forms, ?_, ?_⟩, rfl⟩
    · exact List.forall_mem_cons.2 ⟨ha.keys_eq ▸ hnodup, hparts.nodup⟩
    · exact List.forall_mem_cons.2 ⟨ha.whitened_eq_ok.1 hr, hparts.evaluates⟩

namespace HasForms

variable {parts : List (AffineForm × List ℝ)} {places : List (Key × Nat)}

theorem systemAt (h : g.HasForms vs parts) : SystemAt vs parts := ⟨h.nodup, h.evaluates⟩

/-- What every factor computes, told by its form. -/
theorem mapM_eq {β : Type} (h : g.HasForms vs parts) {φ : Factor ℝ → Except (Fault ℝ) β}
    {ψ : AffineForm × List ℝ → β} (hφ : ∀ p ∈ parts, ∀ f : Factor ℝ, f.HasForm p.1 →
      φ f = .ok (ψ p)) : g.factors.mapM φ = .ok (parts.map ψ) :=
  mapM_of_forall₂ h.forms hφ

theorem linearize_eq [Runtime ℝ] (h : g.HasForms vs parts) :
    g.linearize vs true = .ok (parts.map fun p => p.1.model p.2) :=
  inParallel_eq_ok.2 (h.mapM_eq fun p hp _ hf =>
    hf.linearize_eq (hf.whitened_eq_ok.2 (h.evaluates p hp)))

theorem dim_eq (h : g.HasForms vs parts) :
    g.dim = (parts.map fun p => p.1.offset.length).sum := by
  have hdims : g.factors.map Factor.dim = parts.map fun p => p.1.offset.length := by
    rw [← List.forall₂_eq_eq_eq, List.forall₂_map_left_iff, List.forall₂_map_right_iff]
    exact h.forms.imp fun f p hp => hp.dim_eq
  unfold dim
  rw [hdims, List.sum_eq_foldr]

theorem stack_eq (h : g.HasForms vs parts) (hnodup : (places.map Prod.fst).Nodup)
    (hplaced : vs.Placed places) (threshold : ℝ) :
    Jacobian.stack (parts.map fun p => p.1.model p.2) (places.map Prod.fst) vs threshold =
      .ok ⟨(parts.map fun p => p.1.matrix places).foldr Dense.above (Dense.noRows (breadth places)),
        (parts.map Prod.snd).flatten, places.map Prod.fst, threshold⟩ :=
  h.systemAt.stack_eq hnodup hplaced threshold

/-- The error at an assignment where the values of the forms are known. -/
theorem error_eq [Runtime ℝ] (h : g.HasForms vs parts) {vs' : Values ℝ}
    {rows : AffineForm × List ℝ → List ℝ} (hrows : ∀ p ∈ parts, p.1.Evaluates vs' (rows p)) :
    g.error vs' = .ok (half * normSq (parts.map rows).flatten) :=
  error_eq_ok.2 ⟨_, h.mapM_eq fun p hp _ hf => hf.whitened_eq_ok.2 (hrows p hp), rfl⟩

end HasForms

/-- **The linear model of a graph of affine factors is exact.** Where such a graph evaluates, the
linear models of its factors can be stacked over any distinct variables that have values. There is a
column for every tangent coordinate of these variables and a row for every residual row. Half the
squared length of the residual is the error, and with what the matrix makes of a tangent vector
added to it, it is the error after the step along that vector. -/
theorem linearModel_exact [Runtime ℝ]
    (haffine : ∀ f ∈ g.factors, f.relation.IsAffine ∧ f.keys.Nodup)
    (he : g.error vs = .ok e) {ordering : List Key} (hordering : ordering.Nodup)
    (hdefined : ∀ k ∈ ordering, ∃ v, vs.get? k = some v) (threshold : ℝ) :
    ∃ ls j n, g.linearize vs true = .ok ls ∧ Jacobian.stack ls ordering vs threshold = .ok j ∧
      vs.totalDim ordering = .ok n ∧ j.matrix.HasCols n ∧ j.matrix.rows = g.dim ∧
      j.residual.length = g.dim ∧ j.predictedError (List.replicate n 0) = e ∧
      ∀ d, d.length = n → ∃ vs', vs.retract ordering d = .ok vs' ∧
        g.error vs' = .ok (j.predictedError d) := by
  obtain ⟨rows, hrows, rfl⟩ := error_eq_ok.1 he
  obtain ⟨places, hplaced, rfl⟩ := Values.exists_places hdefined
  obtain ⟨parts, hparts, rfl⟩ := exists_forms haffine hrows
  have hcols : ∀ m ∈ parts.map fun p => p.1.matrix places, m.HasCols (breadth places) :=
    List.forall_mem_map.2 fun p hp => p.1.matrix_hasCols (hparts.evaluates p hp) hplaced
  have hrows : ((parts.map fun p => p.1.matrix places).foldr Dense.above
      (Dense.noRows (breadth places))).rows = g.dim := by
    rw [Dense.rows_foldr_above, List.map_map, hparts.dim_eq]
    rfl
  have hresidual : (parts.map Prod.snd).flatten.length = g.dim := by
    rw [List.length_flatten, List.map_map, hparts.dim_eq]
    exact congrArg List.sum (List.map_congr_left fun p hp => (hparts.evaluates p hp).length_eq)
  refine ⟨_, _, _, hparts.linearize_eq, hparts.stack_eq hordering hplaced threshold,
    hplaced.totalDim_eq_ok, Dense.hasCols_foldr_above hcols, hrows, hresidual, ?_,
    fun d hd => ?_⟩
  · unfold Jacobian.predictedError
    rw [(Dense.hasCols_foldr_above hcols).apply_zeros, plus_zeros_of_length]
    rw [hresidual, hrows]
  · obtain ⟨vs', hvs', hforms⟩ := Values.exists_retractInto hordering hplaced hd fun _ _ => rfl
    refine ⟨vs', hvs', ?_⟩
    rw [hparts.error_eq fun p hp => hforms p.1 p.2 (hparts.nodup p hp) (hparts.evaluates p hp)]
    unfold Jacobian.predictedError
    rw [Dense.apply_foldr_above d hcols, List.map_map, plus_flatten_map]
    · rfl
    · intro p hp
      have hstep := p.1.matrix_hasCols (hparts.evaluates p hp) hplaced
      exact (hparts.evaluates p hp).length_eq.trans (hstep.length_apply d).symm

/-- A start that is given, and a step of length three from there. -/
def steppedPrior : FactorGraph ℝ :=
  ⟨[.scalarPrior ⟨0⟩ 3 2, .isotropic (.collocation ⟨0⟩ ⟨1⟩ ⟨2⟩ ⟨3⟩ (.fixed 3) .euler) 1 1]⟩

/-- A start, an end and a rate. -/
def steppedValues : Values ℝ :=
  ((Values.empty.insert ⟨0⟩ (.scalar 1)).insert ⟨1⟩ (.scalar 5)).insert ⟨2⟩ (.scalar 2)

theorem steppedValues_get? : steppedValues.get? ⟨0⟩ = some (.scalar 1) ∧
    steppedValues.get? ⟨1⟩ = some (.scalar 5) ∧ steppedValues.get? ⟨2⟩ = some (.scalar 2) := by
  simp +decide only [steppedValues, Values.get?_insert, if_true, if_false, and_true]

theorem error_steppedPrior : steppedPrior.error steppedValues = .ok (5 / 2) := by
  obtain ⟨h₀, h₁, h₂⟩ := steppedValues_get?
  have hprior : (Factor.scalarPrior ⟨0⟩ 3 2).whitened steppedValues = .ok [-1] := by
    rw [Factor.whitened_scalarPrior h₀]
    norm_num
  have hstep : (Factor.isotropic (.collocation ⟨0⟩ ⟨1⟩ ⟨2⟩ ⟨3⟩ (.fixed 3) .euler) 1 1).whitened
      steppedValues = .ok [-2] := by
    refine bind_eq_ok.2 ⟨_, Relation.residual_collocation_fixed.2 ⟨1, 5, 2, 0,
      Values.scalar_eq_ok h₀, Values.scalar_eq_ok h₁, Values.scalar_eq_ok h₂, rfl, rfl⟩, ?_⟩
    show Except.ok [((5 : ℝ) - (1 + 3 * 2)) / 1] = Except.ok [-2]
    norm_num
  refine error_eq_ok.2 ⟨[[-1], [-2]], mapM_eq_ok.2 (.cons hprior (.cons hstep .nil)), ?_⟩
  norm_num [normSq, dot, dot.go, half]

/-- The model of the two factors over the rate and the start. -/
theorem linearModel_exact_steppedPrior :
    let g := steppedPrior
    let ordering : List Key := [⟨2⟩, ⟨0⟩]
    (∀ f ∈ g.factors, f.relation.IsAffine ∧ f.keys.Nodup) ∧
      g.error steppedValues = .ok (5 / 2) ∧ ordering.Nodup ∧
      (∀ k ∈ ordering, ∃ v, steppedValues.get? k = some v) ∧
      ∃ ls j n, g.linearize steppedValues true = .ok ls ∧
        Jacobian.stack ls ordering steppedValues 0 = .ok j ∧
        steppedValues.totalDim ordering = .ok n ∧ n = 2 ∧ j.matrix.HasCols n ∧ j.matrix.rows = 2 ∧
        j.residual.length = 2 ∧ j.predictedError [0, 0] = 5 / 2 ∧
        ∃ vs', steppedValues.retract ordering [1, 2] = .ok vs' ∧
          g.error vs' = .ok (j.predictedError [1, 2]) := by
  intro g ordering
  obtain ⟨h₀, -, h₂⟩ := steppedValues_get?
  have haffine : ∀ f ∈ g.factors, f.relation.IsAffine ∧ f.keys.Nodup :=
    List.forall_mem_cons.2 ⟨⟨trivial, List.nodup_singleton _⟩,
      List.forall_mem_singleton.2 ⟨trivial, by decide⟩⟩
  have hordering : ordering.Nodup := by decide
  have hdefined : ∀ k ∈ ordering, ∃ v, steppedValues.get? k = some v :=
    List.forall_mem_cons.2 ⟨⟨_, h₂⟩, List.forall_mem_singleton.2 ⟨_, h₀⟩⟩
  obtain ⟨ls, j, n, hls, hj, hn, hcols, hrows, hresidual, hzero, hstep⟩ :=
    linearModel_exact haffine error_steppedPrior hordering hdefined 0
  have hplaced : steppedValues.Placed [(⟨2⟩, 1), (⟨0⟩, 1)] :=
    List.forall_mem_cons.2 ⟨⟨_, h₂, rfl⟩, List.forall_mem_singleton.2 ⟨_, h₀, rfl⟩⟩
  obtain rfl := answer_unique hn hplaced.totalDim_eq_ok
  exact ⟨haffine, error_steppedPrior, hordering, hdefined, ls, j, 2, hls, hj, hn, rfl, hcols, hrows,
    hresidual, hzero, hstep [1, 2] rfl⟩

end FactorGraph

end Articulated
