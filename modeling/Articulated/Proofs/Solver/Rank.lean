import Articulated.Dense.Jacobi
import Articulated.Proofs.Factor.Shapes
import Articulated.Proofs.Number.Growth
import Articulated.Proofs.Solver.FullStep
import Articulated.Proofs.Solver.Report

/-!
# Full steps and rank

A full step is taken only along a linear model that determines it: as many singular values as the
model has columns must lie above a fraction of the largest one. The model is made anew at every
iterate, and so is this check. A run over some budget is a run over a part of it, followed by one
from the iterate that the part leads to; so what is refused at an iterate ends the whole run.

What is computed for the fraction need not be a threshold, since zero times infinity is no number.
Then the model is not reported as one that leaves something open.

* `Jacobian.relativeRank`, `Jacobian.rankFault`: what the check finds, and what it reports.
* `FactorGraph.HasDims.exists_jacobian`: wherever a graph evaluates there is a linear model, with a
  row for every row of its factors and a column for every tangent coordinate.
* `gaussNewton_add`: runs are cut anywhere.
* `optimize_rank_checked`: the check stands before every step of a run.
* `optimize_infinite_rankTolerance`: a run that ends without a threshold.
-/

namespace Articulated

/-! ## 1. The check -/

section Check

variable {α : Type} [Scalar α]

theorem SingularTriples.rank_le_length (s : SingularTriples α) (threshold : α) :
    s.rank threshold ≤ s.length := List.countP_le_length

variable [Factorization α]

namespace Jacobian

/-- The number of singular values above a fraction of the largest one. -/
def relativeRank (j : Jacobian α) (tolerance : α) : Nat :=
  (Factorization.singular j.matrix).rank ((Factorization.singular j.matrix).largest * tolerance)

/-- What is reported of a linear model that leaves something open: its rank and the number of its
columns, unless the fraction of the largest singular value is no threshold. -/
def rankFault (j : Jacobian α) (tolerance : α) : Fault α :=
  if 0 ≤ (Factorization.singular j.matrix).largest * tolerance then
    .infeasible (j.relativeRank tolerance) j.matrix.cols
  else .breach .badThreshold

end Jacobian

variable {j : Jacobian α} {tolerance : α}

/-- A linear model that leaves something open is refused. -/
theorem fullStep_refused (hj : j.matrix.isEmpty = false)
    (h : j.relativeRank tolerance < j.matrix.cols) :
    fullStep j tolerance = .error (j.rankFault tolerance) := by
  unfold fullStep Jacobian.checkThreshold Jacobian.rankFault
  rw [if_neg (by rw [hj]; exact Bool.false_ne_true)]
  dsimp only
  split
  · exact if_pos h
  · rfl

/-- A full step is taken only if the linear model determines it. -/
theorem cols_le_of_fullStep {δ : List α} (h : fullStep j tolerance = .ok δ) :
    j.matrix.cols ≤ j.relativeRank tolerance := by
  refine Nat.not_lt.1 fun hlt => ?_
  cases hj : j.matrix.isEmpty with
  | true =>
    rw [fullStep, if_pos hj] at h
    cases h
  | false => cases (fullStep_refused hj hlt).symm.trans h

/-- Numbers below infinity make a threshold, so that the rank is reported. -/
theorem Jacobian.rankFault_eq [Factorization Float] {j : Jacobian Float} {tolerance : Float}
    (hnonneg : 0 ≤ tolerance) (hfinite : tolerance.isFinite = true)
    (hvalues : ∀ t ∈ Factorization.singular j.matrix, t.value.isFinite = true) :
    j.rankFault tolerance = .infeasible (j.relativeRank tolerance) j.matrix.cols := by
  obtain ⟨-, hlargest, hone⟩ := (Factorization.singular j.matrix).largest_spec
  refine if_pos (Machine.mul_nonneg hlargest hnonneg ?_ hfinite)
  rcases hone with hzero | ⟨t, ht, heq⟩
  · rw [hzero]
    decide +kernel
  · exact heq ▸ hvalues t ht

end Check

/-! ## 2. The dimensions of linear models -/

section Dimensions

variable {α : Type} {g : FactorGraph α} {vs : Values α}

namespace Values

theorem exists_dims : ∀ {ordering : List Key} {n : Nat}, vs.totalDim ordering = .ok n →
    ∃ places, ordering.mapM (fun k => do return (k, ← vs.dim k)) = .ok places ∧
      breadth places = n ∧ ∀ e ∈ places, vs.dim e.1 = .ok e.2
  | [], n, h => ⟨[], rfl, pure_eq_ok.1 h, List.forall_mem_nil _⟩
  | k :: ordering, n, h => by
    obtain ⟨d, hd, h⟩ := bind_eq_ok.1 h
    obtain ⟨rest, hrest, rfl⟩ := map_eq_ok.1 h
    obtain ⟨places, hplaces, rfl, hdims⟩ := exists_dims hrest
    refine ⟨(k, d) :: places, mapM_eq_ok.2 (.cons (map_eq_ok.2 ⟨d, hd, rfl⟩) ?_), rfl,
      List.forall_mem_cons.2 ⟨hd, hdims⟩⟩
    exact mapM_eq_ok.1 hplaces

theorem totalDim_pos {ordering : List Key} {n : Nat} (h : vs.totalDim ordering = .ok n)
    (hordering : ordering ≠ []) : 0 < n := by
  obtain ⟨k, ks, rfl⟩ := List.exists_cons_of_ne_nil hordering
  obtain ⟨d, hd, h⟩ := bind_eq_ok.1 h
  obtain ⟨rest, -, rfl⟩ := map_eq_ok.1 h
  obtain ⟨v, -, rfl⟩ := map_eq_ok.1 hd
  exact Nat.add_pos_left v.dim_pos rest

end Values

theorem FactorGraph.isEmpty_of_dim_pos (h : 0 < g.dim) : g.isEmpty = false := by
  refine Bool.eq_false_iff.2 fun hempty => ?_
  rw [dim, List.isEmpty_iff.1 hempty] at h
  exact Nat.lt_irrefl 0 h

variable [Scalar α]

namespace Jacobian

variable {l : Linearization α} {b : Block α}

theorem length_columnsOf {k : Key} {width : Nat} (h : columnsOf l k width = .ok b) :
    b.length = width := by
  unfold columnsOf at h
  split at h
  · obtain rfl := pure_eq_ok.1 h
    exact List.length_replicate
  · split at h
    · rename_i hshape
      obtain rfl := pure_eq_ok.1 h
      exact hshape.1
    · cases h

/-- A strip has the columns of all variables. -/
theorem length_strip : ∀ {places : List (Key × Nat)} {b : Block α}, strip l places = .ok b →
    b.length = breadth places
  | [], b, h => by
    obtain rfl := pure_eq_ok.1 h
    rfl
  | (k, width) :: places, b, h => by
    unfold strip at h
    split at h
    · obtain ⟨rest, hrest, rfl⟩ := map_eq_ok.1 h
      exact List.length_append.trans (congrArg₂ (· + ·) List.length_replicate (length_strip hrest))
    · obtain ⟨here, hhere, h⟩ := bind_eq_ok.1 h
      obtain ⟨rest, hrest, rfl⟩ := map_eq_ok.1 h
      exact List.length_append.trans
        (congrArg₂ (· + ·) (length_columnsOf hhere) (length_strip hrest))

/-- **Models that fit are stacked over all variables that have values**: the rows are those of the
models, and the columns the tangent coordinates of the variables. -/
theorem exists_stack {ls : List (Linearization α)} (hls : ∀ l ∈ ls, l.Fits vs)
    {ordering : List Key} {n : Nat} (hn : vs.totalDim ordering = .ok n) (τ : α) :
    ∃ j, stack ls ordering vs τ = .ok j ∧
      j.matrix.rows = (ls.map (·.residual.length)).sum ∧ j.matrix.cols = n := by
  obtain ⟨places, hplaces, rfl, hdims⟩ := Values.exists_dims hn
  have hstrip : ∀ l ∈ ls, ∃ m : Dense α,
      (do return Dense.mk l.residual.length (← strip l places)) = Except.ok m ∧
        m.rows = l.residual.length ∧ m.cols = breadth places := by
    intro l hl
    obtain ⟨b, hb⟩ := exists_strip (hls l hl) hdims
    exact ⟨⟨_, b⟩, map_eq_ok.2 ⟨b, hb, rfl⟩, rfl, length_strip hb⟩
  obtain ⟨strips, hstrips⟩ := exists_forall₂ hstrip
  have hrows : strips.map (·.rows) = ls.map (·.residual.length) := by
    rw [← List.forall₂_eq_eq_eq, List.forall₂_map_left_iff, List.forall₂_map_right_iff]
    exact hstrips.flip.imp fun _ _ h => h.2.1
  have hcols : ∀ m ∈ strips, m.cols = breadth places := by
    intro m hm
    obtain ⟨l, -, -, -, hcols⟩ := exists_answer hstrips.flip hm
    exact hcols
  refine ⟨_, bind_eq_ok.2 ⟨places, hplaces, map_eq_ok.2
    ⟨strips, mapM_eq_ok.2 (hstrips.imp fun _ _ h => h.1), rfl⟩⟩, ?_, Dense.cols_foldr_above hcols⟩
  rw [Dense.rows_foldr_above, hrows]

end Jacobian

namespace FactorGraph

/-- Wherever a factor of the graph evaluates it has the declared number of rows, and derivatives
that fit its variables. -/
def HasDims [Runtime α] (g : FactorGraph α) : Prop :=
  ∀ f ∈ g.factors, ∀ vs rows, f.residual vs = .ok rows →
    rows.length = f.dim ∧ ∃ blocks, f.blocks vs = .ok blocks ∧ vs.HasBlocks f.dim f.keys blocks

theorem hasDims_of_regular [Runtime α] (h : ∀ f ∈ g.factors, f.IsRegular) : g.HasDims :=
  fun f hf _ _ hrows => Factor.exists_blocks (h f hf) hrows

/-- **Wherever a graph evaluates it has a linear model**, with a row for every row of its factors
and a column for every tangent coordinate of the ordering. -/
theorem HasDims.exists_jacobian [Runtime α] (hg : g.HasDims) {e : α} (he : g.error vs = .ok e)
    {ordering : List Key} {n : Nat} (hn : vs.totalDim ordering = .ok n) (τ : α) :
    ∃ j, g.jacobian vs ordering τ = .ok j ∧ j.matrix.rows = g.dim ∧ j.matrix.cols = n := by
  have hfactor : ∀ f ∈ g.factors, ∃ l,
      f.linearize vs true = .ok l ∧ l.Fits vs ∧ l.residual.length = f.dim := by
    intro f hf
    obtain ⟨rows, hrows⟩ := exists_residual he hf
    obtain ⟨hlength, blocks, hblocks, hfits⟩ := hg f hf vs rows hrows
    exact Factor.linearize_fits hrows hlength hblocks hfits true
  obtain ⟨ls, hls⟩ := exists_forall₂ hfactor
  have hfits : ∀ l ∈ ls, l.Fits vs := by
    intro l hl
    obtain ⟨f, -, -, hfits, -⟩ := exists_answer hls.flip hl
    exact hfits
  obtain ⟨j, hj, hrows, hcols⟩ := Jacobian.exists_stack hfits hn τ
  have hheights : ls.map (·.residual.length) = g.factors.map Factor.dim := by
    rw [← List.forall₂_eq_eq_eq, List.forall₂_map_left_iff, List.forall₂_map_right_iff]
    exact hls.flip.imp fun _ _ h => h.2.2
  have hmodels : g.linearize vs true = .ok ls :=
    inParallel_eq_ok.2 (mapM_eq_ok.2 (hls.imp fun _ _ h => h.1))
  exact ⟨j, bind_eq_ok.2 ⟨ls, hmodels, hj⟩, hrows.trans (congrArg List.sum hheights), hcols⟩

end FactorGraph

end Dimensions

/-! ## 3. Runs -/

section Runs

variable {α : Type} [Scalar α] [Factorization α] [Runtime α] {g : FactorGraph α}
  {ordering : List Key} {p : OptimizerParams α} {s last : Progress α}

/-- **A run is cut anywhere**: it goes on from the iterate that a part of its budget leads to. -/
theorem gaussNewton_add (budget : Nat) : ∀ (n : Nat) (s : Progress α),
    gaussNewton g ordering p (n + budget) s =
      gaussNewton g ordering p n s >>= gaussNewton g ordering p budget
  | 0, s => by
    rw [Nat.zero_add]
    rfl
  | n + 1, s => by
    rw [Nat.succ_add, gaussNewton, gaussNewton]
    split
    · rename_i hconverged
      exact (gaussNewton_converged hconverged budget).symm
    · simp only [bind_assoc, gaussNewton_add budget n]

/-- An iterate before the last one is open, is reached by one step an iteration, and has a linear
model that determines the next step. -/
theorem gaussNewton_determined {budget n : Nat} (h : gaussNewton g ordering p budget s = .ok last)
    (hs : s.InStep g) (hn : s.iterations + n < last.iterations) :
    ∃ s' j, gaussNewton g ordering p n s = .ok s' ∧ s'.iterations = s.iterations + n ∧
      s'.converged = false ∧ g.jacobian s'.values ordering p.rankTolerance = .ok j ∧
      j.matrix.cols ≤ j.relativeRank p.rankTolerance := by
  have hbudget := (gaussNewton_frame h).2
  obtain ⟨rest, rfl⟩ : ∃ rest, budget = n + (rest + 1) := ⟨budget - n - 1, by omega⟩
  rw [gaussNewton_add] at h
  obtain ⟨s', hs', h⟩ := bind_eq_ok.1 h
  have hspent := (gaussNewton_inStep hs' hs).2
  have hcount := (gaussNewton_frame hs').2
  unfold gaussNewton at h
  split at h
  · -- a converged iterate is the last one, which comes later
    obtain rfl := pure_eq_ok.1 h
    omega
  · rename_i hopen
    have hopen := Bool.eq_false_iff.2 hopen
    obtain ⟨j, hj, h⟩ := bind_eq_ok.1 h
    obtain ⟨δ, hδ, -⟩ := bind_eq_ok.1 h
    exact ⟨s', j, hs', hspent hopen, hopen, hj, cols_le_of_fullStep hδ⟩

/-- An open iterate within the budget whose linear model leaves something open ends the run. -/
theorem gaussNewton_refused {budget n : Nat} {s' : Progress α} {j : Jacobian α}
    (hs' : gaussNewton g ordering p n s = .ok s') (hn : n < budget) (hopen : s'.converged = false)
    (hj : g.jacobian s'.values ordering p.rankTolerance = .ok j)
    (hmatrix : j.matrix.isEmpty = false)
    (hrank : j.relativeRank p.rankTolerance < j.matrix.cols) :
    gaussNewton g ordering p budget s = .error (j.rankFault p.rankTolerance) := by
  obtain ⟨rest, rfl⟩ : ∃ rest, budget = n + (rest + 1) := ⟨budget - n - 1, by omega⟩
  rw [gaussNewton_add, hs']
  show gaussNewton g ordering p (rest + 1) s' = _
  rw [gaussNewton, if_neg (by rw [hopen]; exact Bool.false_ne_true), hj]
  show (fullStep j p.rankTolerance >>= _) = _
  rw [fullStep_refused hmatrix hrank]
  rfl

/-- At every iterate of a run there is a linear model, with the dimensions of the first one. -/
theorem FactorGraph.HasDims.exists_model (hg : g.HasDims) {dim n : Nat} {s' : Progress α}
    (hdim : s.values.totalDim ordering = .ok dim) (hs : s.InStep g)
    (hs' : gaussNewton g ordering p n s = .ok s') :
    ∃ j, g.jacobian s'.values ordering p.rankTolerance = .ok j ∧ j.matrix.rows = g.dim ∧
      j.matrix.cols = dim := by
  have hmoved := (gaussNewton_frame hs').1
  exact hg.exists_jacobian (gaussNewton_inStep hs' hs).1
    ((hmoved.totalDim_eq ordering).trans hdim) _

end Runs

/-! ## 4. The number of singular values -/

namespace Jacobi

theorem size_turnPair (rows : Nat) (w : Work) (p q : Nat) :
    (turnPair rows w p q).columns.size = w.columns.size := by
  unfold turnPair
  dsimp only
  split
  · rw [Array.size_setIfInBounds, Array.size_setIfInBounds]
  · rfl

theorem size_fold : ∀ {n : Nat} {f : (i : Nat) → i < n → Work → Work} {w : Work},
    (∀ i h w, (f i h w).columns.size = w.columns.size) → (n.fold f w).columns.size = w.columns.size
  | 0, _, _, _ => rfl
  | n + 1, f, w, hf => by
    rw [Nat.fold_succ, hf]
    exact size_fold fun i h w => hf i _ w

theorem size_sweep (rows : Nat) (w : Work) : (sweep rows w).columns.size = w.columns.size :=
  size_fold fun _ _ _ => size_fold fun _ _ w => size_turnPair rows w _ _

theorem size_sweeps (rows : Nat) : ∀ (n : Nat) (w : Work),
    (sweeps rows n w).columns.size = w.columns.size
  | 0, _ => rfl
  | n + 1, w => by
    unfold sweeps
    dsimp only
    split
    · exact (size_sweeps rows n _).trans (size_sweep rows w)
    · exact size_sweep rows w

theorem length_tall (m : Dense Float) : (tall m).length = m.cols := by
  unfold tall
  dsimp only
  rw [List.length_map, Array.length_toList, size_sweeps, List.size_toArray, List.length_map,
    List.length_zipIdx, Dense.cols]

/-- There are as many singular values as the smaller side has entries. -/
theorem length_singular (m : Dense Float) : (singular m).length = min m.rows m.cols := by
  unfold singular
  split
  · rename_i hcols
    rw [length_tall, Nat.min_eq_right hcols]
  · rename_i hcols
    rw [List.length_map, length_tall, Nat.min_eq_left (Nat.le_of_not_le hcols)]
    exact (List.length_map _).trans List.length_range

end Jacobi

/-! ## 5. Optimizations -/

section Optimizations

variable {α : Type} [Scalar α] [Factorization α] [Runtime α] {g : FactorGraph α} {vs : Values α}
  {p : OptimizerParams α} {attempts dim : Nat} {e : α}

/-- A graph with factors is optimized by a run of full steps. -/
theorem optimize_gaussNewton (hmethod : p.method = .gaussNewton)
    (hdim : vs.totalDim g.keys.toList = .ok dim) (he : g.error vs = .ok e)
    (hg : g.isEmpty = false) :
    optimize attempts g vs p = (do
      let last ← gaussNewton g g.keys.toList p p.maxIterations (.initial p vs e)
      return ⟨last.values, last.iterations, e, last.error, last.converged⟩) := by
  unfold optimize
  dsimp only
  rw [hdim, he]
  show (if g.isEmpty = true then _ else _) = _
  rw [if_neg (by rw [hg]; exact Bool.false_ne_true), hmethod]
  rfl

/-- An optimization succeeds only from values of all variables of the graph. -/
theorem exists_totalDim_of_optimize {out : Solution α} (h : optimize attempts g vs p = .ok out) :
    ∃ dim, vs.totalDim g.keys.toList = .ok dim := by
  obtain ⟨_, hdim, -⟩ := bind_eq_ok.1 h
  cases htotal : vs.totalDim g.keys.toList with
  | ok dim => exact ⟨dim, rfl⟩
  | error fault =>
    rw [htotal] at hdim
    cases hdim

/-- An open iterate within the budget has a linear model, and one that leaves something open ends
the optimization. -/
theorem optimize_refused (hmethod : p.method = .gaussNewton) (hg : g.HasDims) (hrows : 0 < g.dim)
    (hkeys : g.keys.toList ≠ []) (hdim : vs.totalDim g.keys.toList = .ok dim)
    (he : g.error vs = .ok e) {n : Nat} (hn : n < p.maxIterations) {s : Progress α}
    (hs : gaussNewton g g.keys.toList p n (.initial p vs e) = .ok s)
    (hopen : s.converged = false) :
    ∃ j, g.jacobian s.values g.keys.toList p.rankTolerance = .ok j ∧
      j.matrix.rows = g.dim ∧ j.matrix.cols = dim ∧
      (j.relativeRank p.rankTolerance < dim →
        optimize attempts g vs p = .error (j.rankFault p.rankTolerance)) := by
  obtain ⟨j, hj, hheight, rfl⟩ := hg.exists_model (s := .initial p vs e) hdim he hs
  refine ⟨j, hj, hheight, rfl, fun hlower => ?_⟩
  have hmatrix : j.matrix.isEmpty = false := by
    rw [Dense.isEmpty, hheight, Bool.or_eq_false_iff]
    exact ⟨beq_eq_false_iff_ne.2 hrows.ne',
      beq_eq_false_iff_ne.2 (Values.totalDim_pos hdim hkeys).ne'⟩
  rw [optimize_gaussNewton hmethod hdim he (FactorGraph.isEmpty_of_dim_pos hrows),
    gaussNewton_refused hs hn hopen hj hmatrix hlower]
  rfl

/-- Every iterate but the last one of an optimization that succeeds has a linear model that
determines the step. -/
theorem optimize_determined (hmethod : p.method = .gaussNewton) (hg : g.HasDims)
    (hrows : 0 < g.dim) (hdim : vs.totalDim g.keys.toList = .ok dim) (he : g.error vs = .ok e)
    {out : Solution α} (hout : optimize attempts g vs p = .ok out) {n : Nat}
    (hn : n < out.iterations) :
    ∃ s j, gaussNewton g g.keys.toList p n (.initial p vs e) = .ok s ∧ s.iterations = n ∧
      s.converged = false ∧ g.jacobian s.values g.keys.toList p.rankTolerance = .ok j ∧
      j.matrix.rows = g.dim ∧ j.matrix.cols = dim ∧ dim ≤ j.relativeRank p.rankTolerance := by
  rw [optimize_gaussNewton hmethod hdim he (FactorGraph.isEmpty_of_dim_pos hrows)] at hout
  obtain ⟨last, hlast, rfl⟩ := map_eq_ok.1 hout
  rw [← Nat.zero_add n] at hn
  obtain ⟨s, j, hs, hcount, hopen, hj, hfull⟩ := gaussNewton_determined hlast he hn
  obtain ⟨j', hj', hheight, hwidth⟩ := hg.exists_model (s := .initial p vs e) hdim he hs
  obtain rfl := answer_unique hj hj'
  exact ⟨s, j, hs, hcount.trans (Nat.zero_add n), hopen, hj, hheight, hwidth, hwidth ▸ hfull⟩

end Optimizations

section Checked

variable [Factorization Float] [Runtime Float] {attempts : Nat} {g : FactorGraph Float}
  {vs : Values Float} {p : OptimizerParams Float}

/-- What full steps make of the ranks of their linear models. -/
structure RankChecked (attempts : Nat) (g : FactorGraph Float) (vs : Values Float)
    (p : OptimizerParams Float) : Prop where
  /-- A run that succeeds left every iterate but the last along a model of full rank. -/
  determined : ∀ out, optimize attempts g vs p = .ok out →
    ∃ dim, vs.totalDim g.keys.toList = .ok dim ∧ ∀ n < out.iterations, ∃ s j,
      gaussNewton g g.keys.toList p n (.initial p vs out.initialError) = .ok s ∧
      s.iterations = n ∧ s.converged = false ∧
      g.jacobian s.values g.keys.toList p.rankTolerance = .ok j ∧
      j.matrix.rows = g.dim ∧ j.matrix.cols = dim ∧ j.relativeRank p.rankTolerance = dim
  /-- An open iterate within the budget has a model, and one of lower rank ends the run. -/
  refused : ∀ dim e, vs.totalDim g.keys.toList = .ok dim → g.error vs = .ok e →
    ∀ n < p.maxIterations, ∀ s, gaussNewton g g.keys.toList p n (.initial p vs e) = .ok s →
      s.converged = false → ∃ j,
        g.jacobian s.values g.keys.toList p.rankTolerance = .ok j ∧
        j.matrix.rows = g.dim ∧ j.matrix.cols = dim ∧
        (j.relativeRank p.rankTolerance < dim →
          optimize attempts g vs p = .error (j.rankFault p.rankTolerance))
  /-- So does the first model if the graph has fewer rows than coordinates. -/
  wide : ∀ dim e, vs.totalDim g.keys.toList = .ok dim → g.error vs = .ok e → g.dim < dim →
    ¬ e ≤ p.absoluteTolerance → p.maxIterations ≠ 0 → ∃ j,
      g.jacobian vs g.keys.toList p.rankTolerance = .ok j ∧ j.matrix.cols = dim ∧
      j.relativeRank p.rankTolerance < dim ∧
      optimize attempts g vs p = .error (j.rankFault p.rankTolerance)
  /-- What ends a run is reported as a lower rank, unless numbers reach infinity. -/
  reported : 0 ≤ p.rankTolerance → p.rankTolerance.isFinite = true → ∀ j : Jacobian Float,
    (∀ t ∈ Factorization.singular j.matrix, t.value.isFinite = true) →
      j.rankFault p.rankTolerance = .infeasible (j.relativeRank p.rankTolerance) j.matrix.cols

/-- **Full steps are taken only along models of full rank.** Let a graph have rows and variables,
and let it evaluate with the declared dimensions. If there are as many singular values as the
smaller side of a matrix has entries, then every run of full steps is checked. -/
theorem optimize_rank_checked (hmethod : p.method = .gaussNewton) (hg : g.HasDims)
    (hrows : 0 < g.dim) (hkeys : g.keys.toList ≠ [])
    (hsingular : ∀ m : Dense Float, (Factorization.singular m).length = min m.rows m.cols) :
    RankChecked attempts g vs p := by
  have hrank : ∀ j : Jacobian Float,
      j.relativeRank p.rankTolerance ≤ min j.matrix.rows j.matrix.cols := fun j =>
    hsingular j.matrix ▸ SingularTriples.rank_le_length _ _
  refine ⟨fun out hout => ?_, fun dim e hdim he n hn s hs hopen =>
    optimize_refused hmethod hg hrows hkeys hdim he hn hs hopen,
    fun dim e hdim he hwide hlarge hbudget => ?_,
    fun hnonneg hfinite j hvalues => Jacobian.rankFault_eq hnonneg hfinite hvalues⟩
  · obtain ⟨dim, hdim⟩ := exists_totalDim_of_optimize hout
    have he := (optimize_truthful hout).initialError_eq
    refine ⟨dim, hdim, fun n hn => ?_⟩
    obtain ⟨s, j, hs, hcount, hopen, hj, hheight, rfl, hfull⟩ :=
      optimize_determined hmethod hg hrows hdim he hout hn
    have hle := (hrank j).trans (Nat.min_le_right _ _)
    exact ⟨s, j, hs, hcount, hopen, hj, hheight, rfl, Nat.le_antisymm hle hfull⟩
  · obtain ⟨j, hj, hheight, hwidth, herror⟩ := optimize_refused hmethod hg hrows hkeys hdim he
      (Nat.pos_of_ne_zero hbudget) rfl (decide_eq_false hlarge)
    have hlower : j.relativeRank p.rankTolerance < dim :=
      ((hrank j).trans (Nat.min_le_left _ _)).trans_lt (hheight ▸ hwide)
    exact ⟨j, hj, hwidth, hlower, herror hlower⟩

end Checked

/-- A variable is the integral of another one over a step. -/
def eulerStep : FactorGraph Float :=
  ⟨[.isotropic (.collocation ⟨1⟩ ⟨2⟩ ⟨3⟩ ⟨4⟩ (.fixed 1) .euler) 1 1]⟩

/-- From zero to one at the rate zero. -/
def eulerStart : Values Float :=
  ((Values.empty.insert ⟨1⟩ (.scalar 0)).insert ⟨2⟩ (.scalar 1)).insert ⟨3⟩ (.scalar 0)

/-- One row does not determine three variables. -/
theorem optimize_rank_checked_eulerStep :
    (OptimizerParams.default (α := Float)).method = .gaussNewton ∧ eulerStep.HasDims ∧
      0 < eulerStep.dim ∧ eulerStep.keys.toList ≠ [] ∧
      (∀ m : Dense Float, (Factorization.singular m).length = min m.rows m.cols) ∧
      ∃ j, eulerStep.jacobian eulerStart eulerStep.keys.toList 1e-6 = .ok j ∧
        j.matrix.cols = 3 ∧ j.relativeRank 1e-6 < 3 ∧
        optimize 0 eulerStep eulerStart .default = .error (j.rankFault 1e-6) := by
  have hdims : eulerStep.HasDims := FactorGraph.hasDims_of_regular fun f hf => by
    obtain rfl := List.mem_singleton.1 hf
    exact Factor.isRegular_isotropic (r := .collocation ⟨1⟩ ⟨2⟩ ⟨3⟩ ⟨4⟩ (.fixed 1) .euler) trivial 1
  have hrows : 0 < eulerStep.dim := by decide
  have hkeys : eulerStep.keys.toList ≠ [] := by decide
  have hchecked : RankChecked 0 eulerStep eulerStart .default :=
    optimize_rank_checked rfl hdims hrows hkeys Jacobi.length_singular
  have herror : (eulerStep.error eulerStart).toOption.map (fun e => decide (e ≤ 1e-12)) =
      some false := by
    decide +kernel
  obtain ⟨e, he, hlarge⟩ := Option.map_eq_some_iff.1 herror
  have hwide := hchecked.wide 3 e rfl (toOption_eq_some_iff.1 he) (by decide)
    (of_decide_eq_false hlarge) (by decide)
  exact ⟨rfl, hdims, hrows, hkeys, Jacobi.length_singular, hwide⟩

/-- The product of two variables is one. -/
def productGraph : FactorGraph Float :=
  ⟨[⟨.custom ⟨"product", [⟨1⟩, ⟨2⟩], fun vs => do
    return [(← vs.scalar ⟨1⟩) * (← vs.scalar ⟨2⟩) - 1], none⟩, ⟨[1]⟩⟩]⟩

/-- Both variables are zero, where the product does not change to first order. -/
def originStart : Values Float := (Values.empty.insert ⟨1⟩ (.scalar 0)).insert ⟨2⟩ (.scalar 0)

/-- No singular value counts against the largest one. -/
def infiniteRankTolerance : OptimizerParams Float :=
  { OptimizerParams.default with rankTolerance := 1 / 0 }

/-- **A model of rank zero is not reported.** All its entries and its singular value are zero, and
infinity times zero is no threshold. -/
theorem optimize_infinite_rankTolerance :
    infiniteRankTolerance.method = .gaussNewton ∧ 0 ≤ infiniteRankTolerance.rankTolerance ∧
      0 < infiniteRankTolerance.maxIterations ∧
      originStart.totalDim productGraph.keys.toList = .ok 2 ∧
      (∃ e, productGraph.error originStart = .ok e ∧ e.isFinite = true ∧
        ¬ e ≤ infiniteRankTolerance.absoluteTolerance) ∧
      (∃ j, productGraph.jacobian originStart productGraph.keys.toList
          infiniteRankTolerance.rankTolerance = .ok j ∧
        j.matrix.rows = 1 ∧ j.matrix.cols = 2 ∧
        (∀ c ∈ j.matrix.columns, ∀ x ∈ c, x.isFinite = true) ∧
        (Factorization.singular j.matrix).length = 1 ∧
        (∀ t ∈ Factorization.singular j.matrix, 0 ≤ t.value) ∧
        j.relativeRank infiniteRankTolerance.rankTolerance = 0) ∧
      optimize 0 productGraph originStart infiniteRankTolerance =
        .error (.breach .badThreshold) := by
  have herror : (productGraph.error originStart).toOption.map
      (fun e => (e.isFinite, decide (e ≤ infiniteRankTolerance.absoluteTolerance))) =
        some (true, false) := by
    decide +kernel
  have hmodel : (productGraph.jacobian originStart productGraph.keys.toList
      infiniteRankTolerance.rankTolerance).toOption.map (fun j =>
        ([j.matrix.rows, j.matrix.cols, (Factorization.singular j.matrix).length,
            j.relativeRank infiniteRankTolerance.rankTolerance],
          [j.matrix.columns.all (·.all (·.isFinite)),
            (Factorization.singular j.matrix).all (fun t => decide (0 ≤ t.value)),
            decide (0 ≤ (Factorization.singular j.matrix).largest *
              infiniteRankTolerance.rankTolerance)])) =
        some ([1, 2, 1, 0], [true, true, false]) := by
    decide +kernel
  obtain ⟨e, he, hends⟩ := Option.map_eq_some_iff.1 herror
  obtain ⟨j, hj, hread⟩ := Option.map_eq_some_iff.1 hmodel
  obtain ⟨hfinite, hlarge⟩ := Prod.mk.inj hends
  simp only [Prod.mk.injEq, List.cons.injEq, and_true, List.all_eq_true, decide_eq_true_eq,
    decide_eq_false_iff_not] at hread
  obtain ⟨⟨hrows, hcols, hlength, hrank⟩, hentries, hvalues, hthreshold⟩ := hread
  replace he := toOption_eq_some_iff.1 he
  replace hj := toOption_eq_some_iff.1 hj
  refine ⟨rfl, by decide +kernel, by decide, rfl, ⟨e, he, hfinite, of_decide_eq_false hlarge⟩,
    ⟨j, hj, hrows, hcols, hentries, hlength, hvalues, hrank⟩, ?_⟩
  have hmatrix : j.matrix.isEmpty = false := by
    rw [Dense.isEmpty, hrows, hcols]
    rfl
  have hlower : j.relativeRank infiniteRankTolerance.rankTolerance < j.matrix.cols := by
    rw [hrank, hcols]
    exact Nat.succ_pos 1
  have hdim : originStart.totalDim productGraph.keys.toList = .ok 2 := rfl
  have hbudget : 0 < infiniteRankTolerance.maxIterations := by decide
  rw [optimize_gaussNewton rfl hdim he rfl,
    gaussNewton_refused rfl hbudget hlarge hj hmatrix hlower, Jacobian.rankFault,
    if_neg hthreshold]
  rfl

end Articulated
