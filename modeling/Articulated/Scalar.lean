/-!
# Numbers

Everything in this library that computes is written once, for any type of numbers with the
operations of `Scalar`, and read in two ways:

* at `Float`, where it runs: IEEE double precision, infinities and NaN included;
* at an exact field such as the real numbers, where statements "in exact arithmetic" are about
  the very same definitions.

Comparisons are the order relations of the type with their decision procedures, so that a test
on a NaN fails exactly as it does in IEEE arithmetic (`Float.lt` and `Float.le` are false on a
NaN, and `==` tells a NaN from itself).
-/

namespace Articulated

/-! ## 1. The interface -/

/-- Numbers with arithmetic, comparisons and the elementary functions. -/
class Scalar (α : Type) extends Zero α, One α, Add α, Sub α, Mul α, Div α, Neg α,
    LT α, LE α, BEq α, OfScientific α where
  /-- The decision procedure of the strict order. -/
  decLt : DecidableLT α
  /-- The decision procedure of the order. -/
  decLe : DecidableLE α
  /-- Absolute value. -/
  abs : α → α
  /-- Square root. -/
  sqrt : α → α
  /-- Sine of an angle in radians. -/
  sin : α → α
  /-- Cosine of an angle in radians. -/
  cos : α → α
  /-- Exponential function. -/
  exp : α → α
  /-- The angle of the point `(x, y)`, taken as `atan2 y x`. -/
  atan2 : α → α → α
  /-- The distance from one to the next larger number, zero if there is none. -/
  epsilon : α

attribute [reducible, instance] Scalar.decLt Scalar.decLe

/-- IEEE double precision numbers. -/
instance : Scalar Float where
  decLt := inferInstance
  decLe := inferInstance
  abs := Float.abs
  sqrt := Float.sqrt
  sin := Float.sin
  cos := Float.cos
  exp := Float.exp
  atan2 := Float.atan2
  epsilon := 2.220446049250313e-16

namespace Scalar

variable {α : Type} [Scalar α]

/-! ## 2. Derived operations -/

/-- One half. -/
@[inline] def half : α := 1 / (1 + 1)

/-- A number is finite when it differs from itself by zero: infinities and NaN do not. -/
@[inline] def isFinite (x : α) : Bool := x - x == 0

/-- The larger of two numbers, where a NaN gives way to the other one. -/
@[inline] def maxNum (a b : α) : α :=
  if a < b then b else if a == a then a else b

/-! ## 3. Vectors of any length -/

/-- Inner product, up to the length of the shorter list. -/
@[specialize] def dot : List α → List α → α
  | a :: as, b :: bs => go as bs (a * b)
  | _, _ => 0
where
  /-- Adds the remaining products to what was summed so far. -/
  @[specialize] go : List α → List α → α → α
    | a :: as, b :: bs, sum => go as bs (sum + a * b)
    | _, _, sum => sum

/-- Sum of the squares. -/
@[inline] def normSq (v : List α) : α := dot v v

/-- Sum of a list, from the left. -/
@[specialize] def sum (v : List α) : α := v.foldl (· + ·) 0

/-- The largest absolute entry, where entries that are NaN do not count; zero for no entries. -/
@[specialize] def maxAbs (v : List α) : α := v.foldl (fun m x => maxNum m (abs x)) 0

/-- The sum of `u` and `c` times `v`, entry by entry. -/
@[specialize] def axpy (c : α) (v u : List α) : List α := List.zipWith (fun a b => b + c * a) v u

/-- The `i`-th unit vector of length `n`, scaled by `c`. -/
@[specialize] def axis (n i : Nat) (c : α) : List α :=
  (List.range n).map fun j => if j = i then c else 0

end Scalar

end Articulated
