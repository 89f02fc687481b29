/-!
# The exact value of a machine number

A finite double is `± mantissa · 2 ^ exponent`, an exact rational number. Every decimal text of
this library is cut from that rational in integer arithmetic:

* `Reading.ofFloat` takes a double apart;
* `roundDiv` rounds a quotient to the nearest integer, a half to the even neighbour;
* `Binary.roundAt` is the value in units of a power of ten, rounded so;
* `Binary.magnitude` is the exponent of its leading decimal digit;
* `positional` writes a coefficient and a power of ten without an exponent;
* `fixed` writes a number rounded to some places.
-/

namespace Articulated.Decimal

/-! ## 1. Taking a double apart -/

/-- A power of two. -/
def twoTo (n : Nat) : Nat := Nat.pow 2 n

/-- A power of ten. -/
def tenTo (n : Nat) : Nat := Nat.pow 10 n

/-- The number `± mantissa · 2 ^ exponent`. -/
structure Binary where
  negative : Bool
  mantissa : Nat
  exponent : Int

/-- What a double stands for. -/
inductive Reading where
  | nan
  | infinite (negative : Bool)
  | finite (value : Binary)

/-- The exponent of the unit of the smallest doubles. -/
def minExponent : Int := -1074

/-- The smallest mantissa of a double that is not one of the smallest ones. -/
def normalMantissa : Nat := twoTo 52

/-- The reading of a double: one sign bit, eleven exponent bits, fifty-two fraction bits. -/
def Reading.ofFloat (x : Float) : Reading :=
  let bits := x.toBits.toNat
  let negative := bits / twoTo 63 == 1
  let biased : Nat := bits / normalMantissa % twoTo 11
  let fraction : Nat := bits % normalMantissa
  if biased = twoTo 11 - 1 then
    if fraction = 0 then .infinite negative else .nan
  else if biased = 0 then
    .finite ⟨negative, fraction, minExponent⟩
  else
    .finite ⟨negative, normalMantissa + fraction, biased - 1 + minExponent⟩

/-! ## 2. Rounding -/

/-- The quotient rounded to the nearest integer, a half to the even neighbour. -/
def roundDiv (num den : Nat) : Nat :=
  let q := num / den
  let r := num % den
  if 2 * r < den then q
  else if den < 2 * r then q + 1
  else if q % 2 = 0 then q else q + 1

namespace Binary

/-- Numerator and denominator of the absolute value in units of `10 ^ unit`. -/
def quotient (b : Binary) (unit : Int) : Nat × Nat :=
  (b.mantissa * twoTo b.exponent.toNat * tenTo (-unit).toNat,
    twoTo (-b.exponent).toNat * tenTo unit.toNat)

/-- The absolute value in units of `10 ^ unit`, rounded. -/
def roundAt (b : Binary) (unit : Int) : Nat :=
  let (num, den) := b.quotient unit
  roundDiv num den

/-- Whether the absolute value is at least `10 ^ e`. -/
def reaches (b : Binary) (e : Int) : Bool :=
  let (num, den) := b.quotient e
  den ≤ num

/-- The `e` with `10 ^ e ≤ |b| < 10 ^ (e + 1)`, for a value that is not zero. The logarithm to
base two gives `e` up to one, and two comparisons settle it. -/
def magnitude (b : Binary) : Int :=
  let guess := ((Nat.log2 b.mantissa : Int) + b.exponent) * 30103 / 100000
  if b.reaches (guess + 1) then guess + 1
  else if b.reaches guess then guess
  else guess - 1

end Binary

/-! ## 3. Positional notation -/

/-- The decimal digits of a natural number. -/
def digits (n : Nat) : List Char := Nat.toDigits 10 n

/-- `coefficient · 10 ^ unit` in positional notation: trailing zeros for a positive unit, else a
point before the last `-unit` digits with at least one digit in front of it. -/
def positional (coefficient : Nat) (unit : Int) : List Char :=
  if 0 ≤ unit then
    digits coefficient ++ List.replicate unit.toNat '0'
  else
    let places := (-unit).toNat
    let ds := List.leftpad (places + 1) '0' (digits coefficient)
    let point := ds.length - places
    ds.take point ++ '.' :: ds.drop point

/-- The sign written before a number. -/
def sign (negative : Bool) : List Char := if negative then ['-'] else []

/-! ## 4. Fixed places -/

/-- The number rounded to the given number of places. Its sign stays, so a small negative number is
`-0.0000`; NaN and infinities are written by name. -/
def fixed (places : Nat) (x : Float) : String :=
  match Reading.ofFloat x with
  | .nan => "NaN"
  | .infinite negative => String.ofList (sign negative ++ ['i', 'n', 'f'])
  | .finite b => String.ofList (sign b.negative ++ positional (b.roundAt (-places)) (-places))

/-- The text with blanks in front up to the given number of characters. -/
def alignRight (width : Nat) (s : String) : String :=
  String.ofList (List.leftpad width ' ' s.toList)

end Articulated.Decimal
