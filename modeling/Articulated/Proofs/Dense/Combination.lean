import Articulated.Proofs.Number.Exact
import Articulated.Dense.Matrix
import Articulated.Factor.Basic

/-!
# Combinations of columns

A matrix that is given by its columns takes a vector to the combination of the columns with the
entries of the vector as coefficients. Columns may be put side by side, on top of each other, or
divided row by row, and what the matrix does follows. Numbers are exact here.

* `Scalar.plus`: the sum of two vectors, entry by entry.
* `combine`: a combination of columns. `Dense.apply_eq_combine`: what a matrix does to a vector.
* `combine_append`, `combine_above`: columns side by side, and on top of each other.
* `combine_plus`, `combine_map_divide`: combinations are additive, and commute with dividing rows.
* `Dense.HasCols`, `Dense.apply_foldr_above`: matrices of one width on top of each other.
* `Scalar.normSq_append`: squared lengths add up.
-/

namespace Articulated

/-! ## 1. Sums of vectors -/

namespace Scalar

/-- The sum of two vectors, entry by entry. -/
def plus (u v : List ℝ) : List ℝ := List.zipWith (· + ·) u v

/-- A vector divided by another one, entry by entry. -/
noncomputable def divide (u σ : List ℝ) : List ℝ := List.zipWith (· / ·) u σ

variable {u v w u' v' : List ℝ}

@[simp] theorem plus_cons (a b : ℝ) : plus (a :: u) (b :: v) = (a + b) :: plus u v := rfl

@[simp] theorem plus_nil_left : plus [] v = [] := rfl

@[simp] theorem plus_nil_right : plus u [] = [] := List.zipWith_nil_right

theorem length_plus (h : u.length = v.length) : (plus u v).length = u.length := by
  rw [plus, List.length_zipWith, h, Nat.min_self]

theorem plus_comm : ∀ u v : List ℝ, plus u v = plus v u
  | [], _ => plus_nil_right.symm
  | _ :: _, [] => rfl
  | a :: u, b :: v => congrArg₂ List.cons (add_comm a b) (plus_comm u v)

theorem plus_assoc : ∀ u v w : List ℝ, plus (plus u v) w = plus u (plus v w)
  | [], _, _ => rfl
  | _ :: _, [], _ => rfl
  | _ :: _, _ :: _, [] => rfl
  | a :: u, b :: v, c :: w => congrArg₂ List.cons (add_assoc a b c) (plus_assoc u v w)

theorem plus_plus_comm (u v u' v' : List ℝ) :
    plus (plus u v) (plus u' v') = plus (plus u u') (plus v v') := by
  rw [plus_assoc, ← plus_assoc v, plus_comm v u', plus_assoc u', ← plus_assoc u]

theorem plus_zeros : ∀ u : List ℝ, plus u (List.replicate u.length 0) = u
  | [] => rfl
  | a :: u => congrArg₂ List.cons (add_zero a) (plus_zeros u)

theorem plus_append (h : u.length = v.length) :
    plus (u ++ u') (v ++ v') = plus u v ++ plus u' v' := List.zipWith_append h

/-- Sums of vectors that stand one after the other. -/
theorem plus_flatten_map {β : Type} {f g : β → List ℝ} : ∀ {l : List β},
    (∀ b ∈ l, (f b).length = (g b).length) →
      plus (l.map f).flatten (l.map g).flatten = (l.map fun b => plus (f b) (g b)).flatten
  | [], _ => rfl
  | b :: l, h => by
    obtain ⟨hb, hl⟩ := List.forall_mem_cons.1 h
    rw [List.map_cons, List.map_cons, List.map_cons, List.flatten_cons, List.flatten_cons,
      List.flatten_cons, plus_append hb, plus_flatten_map hl]

theorem map_mul_plus (x : ℝ) : ∀ u v : List ℝ,
    (plus u v).map (x * ·) = plus (u.map (x * ·)) (v.map (x * ·))
  | [], _ => rfl
  | _ :: _, [] => rfl
  | a :: u, b :: v => congrArg₂ List.cons (mul_add x a b) (map_mul_plus x u v)

theorem map_add_mul (x y : ℝ) : ∀ u : List ℝ,
    u.map ((x + y) * ·) = plus (u.map (x * ·)) (u.map (y * ·))
  | [] => rfl
  | a :: u => congrArg₂ List.cons (add_mul x y a) (map_add_mul x y u)

theorem divide_plus : ∀ u v σ : List ℝ, divide (plus u v) σ = plus (divide u σ) (divide v σ)
  | [], _, _ => rfl
  | _ :: _, [], [] => rfl
  | _ :: _, [], _ :: _ => rfl
  | _ :: _, _ :: _, [] => rfl
  | a :: u, b :: v, c :: σ => congrArg₂ List.cons (add_div a b c) (divide_plus u v σ)

theorem divide_map_mul (x : ℝ) : ∀ u σ : List ℝ,
    divide (u.map (x * ·)) σ = (divide u σ).map (x * ·)
  | [], _ => rfl
  | _ :: _, [] => rfl
  | a :: u, c :: σ => congrArg₂ List.cons (mul_div_assoc x a c) (divide_map_mul x u σ)

theorem divide_zeros : ∀ σ : List ℝ,
    divide (List.replicate σ.length 0) σ = List.replicate σ.length 0
  | [] => rfl
  | c :: σ => congrArg₂ List.cons (zero_div c) (divide_zeros σ)

theorem length_divide {σ : List ℝ} (h : u.length = σ.length) :
    (divide u σ).length = u.length := by
  rw [divide, List.length_zipWith, h, Nat.min_self]

theorem axis_zero (n : Nat) (s : ℝ) : axis (n + 1) 0 s = s :: List.replicate n 0 := by
  have hrest : (fun j => if j = 0 then s else 0) ∘ Nat.succ = fun _ => (0 : ℝ) := by
    funext j
    simp
  rw [axis, List.range_succ_eq_map, List.map_cons, List.map_map, hrest, List.map_const',
    List.length_range, if_pos rfl]

theorem axis_succ (n i : Nat) (s : ℝ) : axis (n + 1) (i + 1) s = 0 :: axis n i s := by
  have hrest : (fun j => if j = i + 1 then s else 0) ∘ Nat.succ =
      fun j => if j = i then s else 0 := by
    funext j
    exact if_congr Nat.succ_inj rfl rfl
  rw [axis, List.range_succ_eq_map, List.map_cons, List.map_map, hrest,
    if_neg i.succ_ne_zero.symm, axis]

/-! ## 2. Squared lengths -/

theorem dot_go_eq : ∀ (u v : List ℝ) (sum : ℝ),
    dot.go u v sum = sum + (List.zipWith (· * ·) u v).sum
  | [], _, sum => (add_zero sum).symm
  | _ :: _, [], sum => (add_zero sum).symm
  | a :: u, b :: v, sum => by
    rw [dot.go, dot_go_eq u v, List.zipWith_cons_cons, List.sum_cons, add_assoc]

theorem dot_eq_sum : ∀ u v : List ℝ, dot u v = (List.zipWith (· * ·) u v).sum
  | [], _ => rfl
  | _ :: _, [] => rfl
  | a :: u, b :: v => dot_go_eq u v (a * b)

/-- The squared lengths of two vectors, one after the other, add up. -/
theorem normSq_append (u v : List ℝ) : normSq (u ++ v) = normSq u + normSq v := by
  unfold normSq
  rw [dot_eq_sum, dot_eq_sum, dot_eq_sum, List.zipWith_append rfl, List.sum_append]

/-- The squared length of some vectors, one after the other. -/
theorem normSq_flatten : ∀ us : List (List ℝ), normSq us.flatten = (us.map normSq).sum
  | [] => rfl
  | u :: us => by
    rw [List.flatten_cons, normSq_append, normSq_flatten us, List.map_cons, List.sum_cons]

end Scalar

open Scalar

/-! ## 3. Combinations -/

/-- The columns have a height each. -/
def HaveHeight (n : Nat) (cols : List (List ℝ)) : Prop := ∀ c ∈ cols, c.length = n

/-- The sum of columns of height `n`, each times its coefficient. -/
def combine (n : Nat) : List (List ℝ) → List ℝ → List ℝ
  | c :: cols, x :: xs => plus (c.map (x * ·)) (combine n cols xs)
  | _, _ => List.replicate n 0

section Combinations

variable {n m : Nat} {cols cols' : List (List ℝ)} {xs ys : List ℝ}

theorem combine_nil_left (xs : List ℝ) : combine n [] xs = List.replicate n 0 := by
  cases xs <;> rfl

theorem length_combine : ∀ {cols : List (List ℝ)}, HaveHeight n cols → ∀ xs : List ℝ,
    (combine n cols xs).length = n
  | [], _, xs => by rw [combine_nil_left, List.length_replicate]
  | _ :: _, _, [] => List.length_replicate
  | c :: cols, h, x :: xs => by
    obtain ⟨hc, hcols⟩ := List.forall_mem_cons.1 h
    rw [combine, length_plus, List.length_map, hc]
    rw [List.length_map, hc, length_combine hcols]

theorem plus_zeros_of_length {u : List ℝ} (h : u.length = n) :
    plus u (List.replicate n 0) = u := h ▸ plus_zeros u

theorem zeros_plus_of_length {u : List ℝ} (h : u.length = n) :
    plus (List.replicate n 0) u = u := by rw [plus_comm, plus_zeros_of_length h]

/-- Columns side by side. -/
theorem combine_append (hcols' : HaveHeight n cols') : ∀ {cols : List (List ℝ)} {xs : List ℝ},
    cols.length = xs.length →
      combine n (cols ++ cols') (xs ++ ys) = plus (combine n cols xs) (combine n cols' ys)
  | [], [], _ => (zeros_plus_of_length (length_combine hcols' ys)).symm
  | c :: cols, x :: xs, h => by
    rw [List.cons_append, List.cons_append, combine, combine,
      combine_append hcols' (Nat.succ.inj h), plus_assoc]

/-- Columns of zeros. -/
theorem combine_zeros : ∀ (width : Nat) (xs : List ℝ),
    combine n (List.replicate width (List.replicate n 0)) xs = List.replicate n 0
  | 0, xs => combine_nil_left xs
  | _ + 1, [] => rfl
  | width + 1, x :: xs => by
    rw [List.replicate_succ, combine, combine_zeros width xs, List.map_replicate, mul_zero]
    exact plus_zeros_of_length List.length_replicate

theorem map_zero_mul {c : List ℝ} (hc : c.length = n) :
    c.map ((0 : ℝ) * ·) = List.replicate n 0 := by
  rw [← hc, ← List.map_const']
  exact List.map_congr_left fun x _ => zero_mul x

/-- Vectors of zeros. -/
theorem combine_replicate_zero : ∀ {cols : List (List ℝ)}, HaveHeight n cols → ∀ width : Nat,
    combine n cols (List.replicate width 0) = List.replicate n 0
  | [], _, width => combine_nil_left _
  | _ :: _, _, 0 => rfl
  | c :: cols, h, width + 1 => by
    obtain ⟨hc, hcols⟩ := List.forall_mem_cons.1 h
    rw [List.replicate_succ, combine, combine_replicate_zero hcols, map_zero_mul hc]
    exact plus_zeros_of_length List.length_replicate

/-- Multiples of unit vectors pick a column. -/
theorem combine_axis (s : ℝ) : ∀ {cols : List (List ℝ)} {i : Nat}, HaveHeight n cols →
    i < cols.length → combine n cols (axis cols.length i s) = (cols.getD i []).map (s * ·)
  | [], i, _, hi => absurd hi i.not_lt_zero
  | c :: cols, 0, h, _ => by
    obtain ⟨hc, hcols⟩ := List.forall_mem_cons.1 h
    rw [List.length_cons, axis_zero, combine, combine_replicate_zero hcols]
    exact plus_zeros_of_length ((List.length_map _).trans hc)
  | c :: cols, i + 1, h, hi => by
    obtain ⟨hc, hcols⟩ := List.forall_mem_cons.1 h
    have hpick := combine_axis s hcols (Nat.lt_of_succ_lt_succ hi)
    rw [List.length_cons, axis_succ, combine, map_zero_mul hc,
      zeros_plus_of_length (length_combine hcols _), hpick, List.getD_cons_succ]

/-- Combinations are additive in the coefficients. -/
theorem combine_plus : ∀ {cols : List (List ℝ)} {xs ys : List ℝ}, xs.length = cols.length →
    ys.length = cols.length →
      combine n cols (plus xs ys) = plus (combine n cols xs) (combine n cols ys)
  | [], [], [], _, _ => (plus_zeros_of_length List.length_replicate).symm
  | c :: cols, x :: xs, y :: ys, hx, hy => by
    rw [plus_cons, combine, combine, combine, map_add_mul,
      combine_plus (Nat.succ.inj hx) (Nat.succ.inj hy), plus_plus_comm]

/-- Rows that are divided before or after. -/
theorem combine_map_divide {σ : List ℝ} : ∀ (cols : List (List ℝ)) (xs : List ℝ),
    combine σ.length (cols.map (divide · σ)) xs = divide (combine σ.length cols xs) σ
  | [], xs => by
    rw [List.map_nil, combine_nil_left, divide_zeros]
  | _ :: _, [] => (divide_zeros σ).symm
  | c :: cols, x :: xs => by
    rw [List.map_cons, combine, combine, divide_plus, divide_map_mul, combine_map_divide cols xs]

theorem HaveHeight.above : ∀ {cols cols' : List (List ℝ)}, HaveHeight n cols →
    HaveHeight m cols' → HaveHeight (n + m) (List.zipWith (· ++ ·) cols cols')
  | [], _, _, _ => List.forall_mem_nil _
  | _ :: _, [], _, _ => List.forall_mem_nil _
  | c :: cols, c' :: cols', h, h' => by
    obtain ⟨hc, hcols⟩ := List.forall_mem_cons.1 h
    obtain ⟨hc', hcols'⟩ := List.forall_mem_cons.1 h'
    refine List.forall_mem_cons.2 ⟨?_, HaveHeight.above hcols hcols'⟩
    rw [List.length_append, hc, hc']

/-- Columns on top of each other. -/
theorem combine_above : ∀ {cols cols' : List (List ℝ)} (xs : List ℝ), HaveHeight n cols →
    cols.length = cols'.length →
      combine (n + m) (List.zipWith (· ++ ·) cols cols') xs =
        combine n cols xs ++ combine m cols' xs
  | [], [], xs, _, _ => by
    rw [List.zipWith_nil_left, combine_nil_left, combine_nil_left, combine_nil_left,
      List.replicate_add]
  | _ :: _, _ :: _, [], _, _ => List.replicate_add ..
  | c :: cols, c' :: cols', x :: xs, h, hlength => by
    obtain ⟨hc, hcols⟩ := List.forall_mem_cons.1 h
    have hsum : (c.map (x * ·)).length = (combine n cols xs).length := by
      rw [List.length_map, hc, length_combine hcols]
    rw [List.zipWith_cons_cons, combine, combine, combine,
      combine_above xs hcols (Nat.succ.inj hlength), List.map_append, plus_append hsum]

end Combinations

/-! ## 4. Matrices -/

theorem foldl_axpy_eq {n : Nat} : ∀ {cols : List (List ℝ)} (xs acc : List ℝ), acc.length = n →
    HaveHeight n cols →
      (cols.zip xs).foldl (fun acc e => axpy e.2 e.1 acc) acc = plus acc (combine n cols xs)
  | [], xs, acc, hacc, _ => by
    rw [combine_nil_left, plus_zeros_of_length hacc]
    rfl
  | _ :: _, [], acc, hacc, _ => (plus_zeros_of_length hacc).symm
  | c :: cols, x :: xs, acc, hacc, h => by
    obtain ⟨hc, hcols⟩ := List.forall_mem_cons.1 h
    have hstep : axpy x c acc = plus acc (c.map (x * ·)) := by
      rw [axpy, plus, List.zipWith_comm, List.zipWith_map_right]
    have hlength : (plus acc (c.map (x * ·))).length = n := by
      rw [length_plus, hacc]
      rw [hacc, List.length_map, hc]
    rw [List.zip_cons_cons, List.foldl_cons, hstep, foldl_axpy_eq xs _ hlength hcols, combine,
      plus_assoc]

/-- **A matrix takes a vector to the combination of its columns.** -/
theorem Dense.apply_eq_combine {j : Dense ℝ} (h : HaveHeight j.rows j.columns) (xs : List ℝ) :
    j.apply xs = combine j.rows j.columns xs := by
  unfold apply
  rw [foldl_axpy_eq xs _ List.length_replicate h,
    zeros_plus_of_length (length_combine h xs)]

/-- The matrix has as many columns as told, each with an entry per row. -/
structure Dense.HasCols (m : Dense ℝ) (cols : Nat) : Prop where
  cols_eq : m.cols = cols
  haveHeight : HaveHeight m.rows m.columns

namespace Dense

variable {m m' : Dense ℝ} {cols : Nat} {ms : List (Dense ℝ)}

theorem HasCols.length_apply (h : m.HasCols cols) (xs : List ℝ) :
    (m.apply xs).length = m.rows := by
  rw [apply_eq_combine h.haveHeight, length_combine h.haveHeight]

/-- A matrix takes zeros to zeros. -/
theorem HasCols.apply_zeros (h : m.HasCols cols) (width : Nat) :
    m.apply (List.replicate width 0) = List.replicate m.rows 0 := by
  rw [apply_eq_combine h.haveHeight, combine_replicate_zero h.haveHeight]

theorem hasCols_noRows (cols : Nat) : (noRows cols : Dense ℝ).HasCols cols :=
  ⟨List.length_replicate, fun _ hc => List.eq_of_mem_replicate hc ▸ rfl⟩

theorem HasCols.above (h : m.HasCols cols) (h' : m'.HasCols cols) :
    (m.above m').HasCols cols := by
  refine ⟨?_, h.haveHeight.above h'.haveHeight⟩
  show (List.zipWith (· ++ ·) m.columns m'.columns).length = cols
  rw [List.length_zipWith, ← Dense.cols, ← Dense.cols, h.cols_eq, h'.cols_eq, Nat.min_self]

theorem HasCols.apply_above (h : m.HasCols cols) (h' : m'.HasCols cols) (xs : List ℝ) :
    (m.above m').apply xs = m.apply xs ++ m'.apply xs := by
  rw [apply_eq_combine (h.above h').haveHeight, apply_eq_combine h.haveHeight,
    apply_eq_combine h'.haveHeight]
  exact combine_above xs h.haveHeight (h.cols_eq.trans h'.cols_eq.symm)

theorem hasCols_foldr_above : ∀ {ms : List (Dense ℝ)}, (∀ m ∈ ms, m.HasCols cols) →
    (ms.foldr Dense.above (noRows cols)).HasCols cols
  | [], _ => hasCols_noRows cols
  | m :: ms, h => by
    obtain ⟨hm, hms⟩ := List.forall_mem_cons.1 h
    exact hm.above (hasCols_foldr_above hms)

/-- Matrices on top of each other do what each of them does. -/
theorem apply_foldr_above (xs : List ℝ) : ∀ {ms : List (Dense ℝ)}, (∀ m ∈ ms, m.HasCols cols) →
    (ms.foldr Dense.above (noRows cols)).apply xs = (ms.map (·.apply xs)).flatten
  | [], _ => by
    have hlength := (hasCols_noRows cols).length_apply xs
    exact List.eq_nil_of_length_eq_zero hlength
  | m :: ms, h => by
    obtain ⟨hm, hms⟩ := List.forall_mem_cons.1 h
    rw [List.foldr_cons, hm.apply_above (hasCols_foldr_above hms), apply_foldr_above xs hms]
    rfl

theorem rows_foldr_above {α : Type} [Scalar α] : ∀ ms : List (Dense α),
    (ms.foldr Dense.above (noRows cols)).rows = (ms.map (·.rows)).sum
  | [] => rfl
  | m :: ms => congrArg (m.rows + ·) (rows_foldr_above ms)

theorem cols_foldr_above {α : Type} [Scalar α] : ∀ {ms : List (Dense α)},
    (∀ m ∈ ms, m.cols = cols) → (ms.foldr Dense.above (noRows cols)).cols = cols
  | [], _ => List.length_replicate
  | m :: ms, h => by
    obtain ⟨hm, hms⟩ := List.forall_mem_cons.1 h
    show (List.zipWith (· ++ ·) m.columns _).length = cols
    rw [List.length_zipWith, ← Dense.cols, ← Dense.cols, hm, cols_foldr_above hms, Nat.min_self]

end Dense

/-- Whitening a column divides its rows. -/
theorem Noise.whitenColumn_eq_divide : ∀ {σ c : List ℝ}, c.length = σ.length →
    whitenColumn σ c = divide c σ
  | [], [], _ => rfl
  | σ :: _, x :: _, h => congrArg (x / σ :: ·) (whitenColumn_eq_divide (Nat.succ.inj h))

end Articulated
