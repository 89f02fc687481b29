import Articulated.Dense.SingularValues

/-!
# The factorizations that the library runs on

`Cholesky.solve?` solves `A x = b` for a symmetric matrix by its Cholesky factor, one column at a
time: the pivot's square root divides the column below it, its products leave the rest of the
matrix and of the right-hand side, and the solution comes back from the last unknown to the
first. There is no solution by this way when a pivot is zero, negative or NaN. Of each column only
the part from the diagonal down is read, so the columns are given as the lower triangle: the first
of full length, each later one shorter by one.

`Jacobi.singular` finds singular values: pairs of columns of the matrix are turned in their plane
until all columns are orthogonal. Their lengths are the singular values then, the turns together are
the right vectors, and the columns divided by their lengths the left ones.

Each working column holds a column of the matrix on top and the same column of the accumulated
turns below it, so that one turn moves both. A sweep visits every pair; sweeps go on until one
finds all pairs orthogonal to working precision, at most `maxSweeps` times.
-/

namespace Articulated

/-! ## 1. Positive definite systems -/

namespace Cholesky

variable {α : Type} [Scalar α]

/-- The columns of a square matrix from the diagonal down. -/
def lowerTriangle (columns : List (List α)) : List (List α) :=
  columns.zipIdx.map fun e => e.1.drop e.2

/-- Takes the products of a column of the factor from the columns that follow it. The `k`-th of
these loses the column from its `k`-th entry on, times that entry. -/
@[specialize] def downdate : List α → List (List α) → List (List α)
  | c :: cs, column :: columns =>
    List.zipWith (fun a b => a - b * c) column (c :: cs) :: downdate cs columns
  | _, columns => columns

/-- The square root of a pivot, which must be positive. -/
def pivotRoot? (d : α) : Option α := if 0 < d then some (Scalar.sqrt d) else none

/-- The solution for a lower triangle and a right-hand side. The bound is the number of unknowns
that are still to be found. -/
@[specialize] def solveLower? : Nat → List (List α) → List α → Option (List α)
  | n + 1, (d :: below) :: columns, y :: ys => do
    let root ← pivotRoot? d
    let factor := below.map (· / root)
    let z := y / root
    let rest ← solveLower? n (downdate factor columns)
      (List.zipWith (fun a b => a - b * z) ys factor)
    return (z - Scalar.dot factor rest) / root :: rest
  | _, _, _ => some []

/-- The solution of a symmetric system given by its columns. -/
def solve? (columns : List (List α)) (b : List α) : Option (List α) :=
  solveLower? columns.length (lowerTriangle columns) b

end Cholesky

namespace Jacobi

/-! ## 2. Columns of machine numbers -/

/-- An entry of a column, zero past its end. -/
@[inline] def entry (a : FloatArray) (i : Nat) : Float := if h : i < a.size then a[i] else 0

/-- The inner product of the first `n` entries, added to a sum. -/
def dotTo (a b : FloatArray) : Nat → Float → Float
  | 0, s => s
  | n + 1, s => dotTo a b n (s + entry a n * entry b n)

/-- The combination `c a + s b` of two columns. -/
def mix (c : Float) (a : FloatArray) (s : Float) (b : FloatArray) : FloatArray :=
  a.size.fold (fun i _ acc => acc.push (c * entry a i + s * entry b i))
    (FloatArray.emptyWithCapacity a.size)

/-- A column from a list. -/
def ofList (v : List Float) : FloatArray := v.foldl FloatArray.push FloatArray.empty

/-- The entries from `start` on, `n` of them. -/
def slice (a : FloatArray) (start n : Nat) : List Float :=
  (List.range n).map fun i => entry a (start + i)

/-! ## 3. Sweeps -/

/-- The working columns, their squared lengths, and whether the current sweep turned a pair. -/
structure Work where
  columns : Array FloatArray
  squares : FloatArray
  turned : Bool

/-- Two columns are orthogonal to working precision when their inner product is below this
fraction of the product of their lengths. -/
def precision : Float := 1e-15

/-- Sweeps converge quadratically, so this many are never needed. -/
def maxSweeps : Nat := 40

/-- Turns the columns `p` and `q` of height `rows` so that they become orthogonal. -/
def turnPair (rows : Nat) (w : Work) (p q : Nat) : Work :=
  let a := w.columns.getD p FloatArray.empty
  let b := w.columns.getD q FloatArray.empty
  let alpha := entry w.squares p
  let beta := entry w.squares q
  let gamma := dotTo a b rows 0
  if precision * Float.sqrt (alpha * beta) < gamma.abs then
    let zeta := (beta - alpha) / (gamma + gamma)
    let t := (if zeta < 0 then -1 else 1) / (zeta.abs + Float.sqrt (1 + zeta * zeta))
    let c := 1 / Float.sqrt (1 + t * t)
    let s := c * t
    let a' := mix c a (-s) b
    let b' := mix s a c b
    { columns := (w.columns.setIfInBounds p a').setIfInBounds q b'
      squares := (w.squares.set! p (dotTo a' a' rows 0)).set! q (dotTo b' b' rows 0)
      turned := true }
  else w

/-- Visits every pair of columns once. -/
def sweep (rows : Nat) (w : Work) : Work :=
  let n := w.columns.size
  n.fold (fun p _ w => (n - p - 1).fold (fun k _ w => turnPair rows w p (p + 1 + k)) w)
    { w with turned := false }

/-- Sweeps until nothing turns, at most the given number of times. -/
def sweeps (rows : Nat) : Nat → Work → Work
  | 0, w => w
  | n + 1, w =>
    let w := sweep rows w
    if w.turned then sweeps rows n w else w

/-! ## 4. The decomposition -/

/-- The triples of a matrix with at least as many rows as columns. The entries are scaled by the
largest one, so that squares neither overflow nor vanish. -/
def tall (m : Dense Float) : SingularTriples Float :=
  let n := m.cols
  let scale := m.columns.foldl (fun s c => Scalar.maxNum s (Scalar.maxAbs c)) 0
  let unit := if scale == 0 then 1 else scale
  let columns := m.columns.zipIdx.map fun e =>
    ofList (e.1.map (· / unit) ++ Scalar.axis n e.2 1)
  let squares := columns.map fun c => dotTo c c m.rows 0
  let w := sweeps m.rows maxSweeps ⟨columns.toArray, ofList squares, false⟩
  w.columns.toList.map fun c =>
    let length := Float.sqrt (dotTo c c m.rows 0)
    let divisor := if length == 0 then 1 else length
    ⟨(slice c 0 m.rows).map (· / divisor), length * unit, slice c m.rows n⟩

/-- The singular value decomposition; a matrix with fewer rows than columns is transposed. -/
def singular (m : Dense Float) : SingularTriples Float :=
  if m.cols ≤ m.rows then tall m
  else (tall m.transpose).map fun t => ⟨t.right, t.value, t.left⟩

instance : Factorization Float where
  singular := singular
  definite? := Cholesky.solve?

end Jacobi

end Articulated
