import Articulated.Dense.Matrix

/-!
# Singular values

A singular value decomposition is a list of triples: a left vector, a singular value and a right
vector. The matrix is the sum of `value · left · rightᵀ`, the left vectors are orthonormal, and so
are the right ones.

* `rank` counts the singular values above a threshold, and `solve` is the least squares solution
  of smallest norm when those not above it are dropped.
* `Factorization` names the two factorizations that the solvers use. The solvers are written for
  any of them, so that a statement may take a decomposition as given.
-/

namespace Articulated

variable {α : Type} [Scalar α]

/-- One term of a singular value decomposition. -/
structure SingularTriple (α : Type) where
  left : List α
  value : α
  right : List α

/-- A singular value decomposition. -/
abbrev SingularTriples (α : Type) := List (SingularTriple α)

namespace SingularTriples

/-- The largest singular value, zero if there is none. -/
def largest (s : SingularTriples α) : α := s.foldl (fun m t => Scalar.maxNum m t.value) 0

/-- The number of singular values strictly above a threshold. -/
def rank (s : SingularTriples α) (threshold : α) : Nat :=
  s.countP fun t => decide (threshold < t.value)

/-- The combination of right vectors that solves for `b`, over the singular values strictly above
a threshold. The length is that of the right vectors. -/
@[specialize] def solve (s : SingularTriples α) (threshold : α) (b : List α) (length : Nat) :
    List α :=
  s.foldl
    (fun x t =>
      if threshold < t.value then Scalar.axpy (Scalar.dot t.left b / t.value) t.right x else x)
    (List.replicate length 0)

end SingularTriples

/-- The matrix factorizations that the solvers use. -/
class Factorization (α : Type) where
  /-- A singular value decomposition with as many triples as the smaller side of the matrix. -/
  singular : Dense α → SingularTriples α
  /-- The solution of a symmetric positive definite system given by its columns, if the
  factorization succeeds. -/
  definite? : List (List α) → List α → Option (List α)

end Articulated
