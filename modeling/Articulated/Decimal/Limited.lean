import Articulated.Decimal.Shortest

/-!
# Decimals of limited precision

A `Precision` limits a decimal to a number of significant digits, and possibly to a number of
places after the point as well; the tighter limit counts. `limited` writes a number so, without
zeros at its end:

* positional for magnitudes from `10 ^ -7` up to `10 ^ 16`, with an exponent outside of these;
* zero, also after rounding and whatever its sign, is `0`.
-/

namespace Articulated.Decimal

/-- How far a number is written out. -/
structure Precision where
  /-- The number of significant digits. -/
  digits : Nat
  /-- The number of places after the point, if they are limited too. -/
  places : Option Nat

/-- The value rounded to the precision, as a coefficient and a power of ten. Rounding to
significant digits may carry into one digit more, so the leading digit is that of the result. -/
def Precision.round (p : Precision) (b : Binary) : Nat × Int :=
  let unit : Int := b.magnitude - p.digits + 1
  let coefficient := b.roundAt unit
  let carried : Int := if coefficient = tenTo p.digits then unit + 1 else unit
  match p.places with
  | some places => if carried < -places then (b.roundAt (-places), -places) else (coefficient, unit)
  | none => (coefficient, unit)

/-- A decimal with its exponent: one digit, the others after a point, and the power of ten of the
first digit. -/
def scientific (coefficient : Nat) (unit : Int) : List Char :=
  let ds := digits coefficient
  let rest := ds.drop 1
  ds.take 1 ++ (if rest.isEmpty then [] else '.' :: rest)
    ++ 'e' :: (toString (unit + rest.length)).toList

/-- The text of a number at a precision. -/
def limited (p : Precision) (b : Binary) : String :=
  if b.mantissa = 0 then "0"
  else
    let (c, unit) := p.round b
    let (c, unit) := dropZeros p.digits c unit
    let top := unit + (digits c).length - 1
    if c = 0 then "0"
    else
      String.ofList (sign b.negative
        ++ if -7 ≤ top ∧ top < 16 then positional c unit else scientific c unit)

end Articulated.Decimal
