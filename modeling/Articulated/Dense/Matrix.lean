import Articulated.Scalar

/-!
# Dense matrices by columns

A matrix is its number of rows and the list of its columns. Columns are what the solvers work
with: inner products of columns make the normal equations, and turning pairs of columns makes the
singular values.
-/

namespace Articulated

variable {α : Type} [Scalar α]

/-- A dense matrix. -/
structure Dense (α : Type) where
  /-- The number of rows. -/
  rows : Nat
  /-- The columns, each with an entry per row. -/
  columns : List (List α)

namespace Dense

/-- The number of columns. -/
def cols (m : Dense α) : Nat := m.columns.length

/-- Whether there are no entries. -/
def isEmpty (m : Dense α) : Bool := m.rows == 0 || m.cols == 0

/-- The matrix without rows over the given number of columns. -/
def noRows (cols : Nat) : Dense α := ⟨0, List.replicate cols []⟩

/-- One matrix above another one with as many columns. -/
def above (m n : Dense α) : Dense α :=
  ⟨m.rows + n.rows, List.zipWith (· ++ ·) m.columns n.columns⟩

/-- Rows and columns exchanged. -/
def transpose (m : Dense α) : Dense α :=
  ⟨m.cols, (List.range m.rows).map fun i => m.columns.map fun c => c.getD i 0⟩

/-- The entries by rows. -/
def toRows (m : Dense α) : List (List α) := m.transpose.columns

/-- The transpose times a vector: the inner product of every column with it. -/
@[specialize] def applyTransposed (m : Dense α) (v : List α) : List α :=
  m.columns.map fun c => Scalar.dot c v

/-- The matrix times a vector: the combination of the columns. -/
def apply (m : Dense α) (v : List α) : List α :=
  (List.zip m.columns v).foldl (fun acc e => Scalar.axpy e.2 e.1 acc) (List.replicate m.rows 0)

/-- The transpose times the matrix, as the list of its columns. -/
@[specialize] def gram (m : Dense α) : List (List α) :=
  m.columns.map fun c => m.columns.map fun d => Scalar.dot d c

end Dense

end Articulated
