import Mathlib.Analysis.SpecialFunctions.Complex.Arg
import Mathlib.Analysis.SpecialFunctions.Exp
import Mathlib.Analysis.SpecialFunctions.Trigonometric.Basic
import Articulated.Proofs.Number.Comparison

/-!
# Exact numbers

The real numbers with their usual operations: what is computed when nothing is rounded. The angle
of a point is the argument of the complex number. All of them are numbers in the sense of
comparison, and they obey its laws.
-/

namespace Articulated

open Classical in
/-- The real numbers compute exactly. -/
noncomputable instance : Scalar ℝ where
  beq a b := decide (a = b)
  decLt := inferInstance
  decLe := inferInstance
  abs := fun a => |a|
  sqrt := Real.sqrt
  sin := Real.sin
  cos := Real.cos
  exp := Real.exp
  atan2 := fun y x => Complex.arg ⟨x, y⟩
  epsilon := 0

theorem Scalar.isNumber_exact (x : ℝ) : Scalar.IsNumber x := decide_eq_true (Eq.refl x)

instance : LawfulScalar ℝ where
  isNumber_of_le _ := ⟨Scalar.isNumber_exact _, Scalar.isNumber_exact _⟩
  le_total _ _ := le_total _ _
  le_trans h h' := le_trans h h'
  lt_iff := lt_iff_le_not_ge
  isNumber_zero := Scalar.isNumber_exact 0
  abs_zero := abs_zero
  abs_abs := abs_abs
  isNumber_abs := ⟨fun _ => Scalar.isNumber_exact _, fun _ => Scalar.isNumber_exact _⟩
  abs_antisymm h h' := le_antisymm h h'

/-- The sum of a list of exact numbers. -/
theorem Scalar.sum_eq (v : List ℝ) : Scalar.sum v = v.sum := by
  unfold Scalar.sum
  rw [List.sum_eq_foldl]

end Articulated
