import Articulated.Decimal.Exact

/-!
# The shortest decimal that reads back

`Binary.shortest` gives the decimal with the fewest digits among those that round to the double,
and of these the nearest to it. `plain` writes it the way numbers stand in messages: positional
for every magnitude, no point on integers, `NaN`, `inf` and `-inf`, and `-0` for the negative
zero.
-/

namespace Articulated.Decimal

namespace Binary

/-- Whether the decimal `coefficient · 10 ^ unit` rounds to the (positive) double. In quarters of
the double's unit its neighbours are 4 away, except below a power of two, where the spacing is
half as wide; a decimal half way between two doubles goes to the one with the even mantissa. -/
def roundsFrom (b : Binary) (coefficient : Nat) (unit : Int) : Bool :=
  let quarter := b.exponent - 2
  -- the decimal and one quarter of the double's unit over a common denominator
  let decimal := coefficient * tenTo unit.toNat * twoTo (-quarter).toNat
  let scale := twoTo quarter.toNat * tenTo (-unit).toNat
  let tight := b.mantissa = normalMantissa ∧ minExponent < b.exponent
  let low := (4 * b.mantissa - (if tight then 1 else 2)) * scale
  let high := (4 * b.mantissa + 2) * scale
  if b.mantissa % 2 = 0 then low ≤ decimal && decimal ≤ high
  else low < decimal && decimal < high

/-- The candidate of one grid of decimals: of the two grid points around the double, the nearer
one that rounds to it. -/
def candidate? (b : Binary) (unit : Int) : Option Nat :=
  let (num, den) := b.quotient unit
  let below := num / den
  let nearest := roundDiv num den
  let other := if nearest = below then below + 1 else below
  if b.roundsFrom nearest unit then some nearest
  else if b.roundsFrom other unit then some other
  else none

/-- The coefficient and power of ten of the shortest decimal, for a value that is not zero. The
search is over the number of digits; seventeen always suffice. -/
def shortest (b : Binary) : Nat × Int :=
  let top := b.magnitude
  let rec search : Nat → Int → Nat × Int
    | 0, unit => (b.roundAt unit, unit)
    | n + 1, unit =>
      match b.candidate? unit with
      | some c => (c, unit)
      | none => search n (unit - 1)
  search 17 top

end Binary

/-- Drops zeros at the end of a coefficient into its power of ten, at most `fuel` of them. -/
def dropZeros : Nat → Nat → Int → Nat × Int
  | 0, c, unit => (c, unit)
  | fuel + 1, c, unit =>
    if c % 10 = 0 ∧ c ≠ 0 then dropZeros fuel (c / 10) (unit + 1) else (c, unit)

/-- The text of a number in a message. -/
def plain (x : Float) : String :=
  match Reading.ofFloat x with
  | .nan => "NaN"
  | .infinite negative => String.ofList (sign negative ++ ['i', 'n', 'f'])
  | .finite b =>
    if b.mantissa = 0 then String.ofList (sign b.negative ++ ['0'])
    else
      let (c, unit) := b.shortest
      let (c, unit) := dropZeros 20 c unit
      String.ofList (sign b.negative ++ positional c unit)

end Articulated.Decimal
