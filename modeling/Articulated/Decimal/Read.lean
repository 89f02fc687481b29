import Articulated.Decimal.Exact

/-!
# Reading decimals

`real?` reads a number written in decimal: an optional sign, then `inf`, `infinity` or `nan` in
any case, or digits with an optional point and an optional exponent, at least one digit standing
before the exponent. The result is the nearest double, so it may be an infinity or a zero.
`int?` reads an integer in a given base with an optional sign.
-/

namespace Articulated.Decimal

/-- The value of a digit in the given base, letters in either case counting from ten. -/
def digitValue? (base : Nat) (c : Char) : Option Nat :=
  let v :=
    if '0' ≤ c ∧ c ≤ '9' then c.toNat - '0'.toNat
    else if 'a' ≤ c ∧ c ≤ 'z' then c.toNat - 'a'.toNat + 10
    else if 'A' ≤ c ∧ c ≤ 'Z' then c.toNat - 'A'.toNat + 10
    else base
  if v < base then some v else none

/-- The number written by a list of digits, nothing if a character is no digit. -/
def natOfDigits? (base : Nat) (cs : List Char) : Option Nat :=
  cs.foldlM (fun n c => (digitValue? base c).map (base * n + ·)) 0

/-- An optional sign: whether it is a minus, and the characters after it. -/
def splitSign : List Char → Bool × List Char
  | '-' :: cs => (true, cs)
  | '+' :: cs => (false, cs)
  | cs => (false, cs)

/-- An integer in the given base: an optional sign and at least one digit. -/
def int? (base : Nat) (cs : List Char) : Option Int :=
  let (negative, ds) := splitSign cs
  if ds.isEmpty then none
  else (natOfDigits? base ds).map fun n => if negative then -(n : Int) else n

/-- The double nearest to `coefficient · 10 ^ unit`, where `length` is the number of digits of
the coefficient. Beyond the range of doubles the answer is known without the power. -/
def nearest (coefficient length : Nat) (unit : Int) : Float :=
  if coefficient = 0 ∨ unit + length < -400 then 0
  else if 400 < unit then 1 / 0
  else Float.ofScientific coefficient (unit < 0) unit.natAbs

/-- The unsigned part of a decimal number. -/
def magnitude? (cs : List Char) : Option Float :=
  let lower := cs.map Char.toLower
  if lower = ['i', 'n', 'f'] ∨ lower = ['i', 'n', 'f', 'i', 'n', 'i', 't', 'y'] then some (1 / 0)
  else if lower = ['n', 'a', 'n'] then some (0 / 0)
  else
    let whole := cs.takeWhile Char.isDigit
    let rest := cs.dropWhile Char.isDigit
    let (fraction, rest) :=
      match rest with
      | '.' :: r => (r.takeWhile Char.isDigit, r.dropWhile Char.isDigit)
      | r => ([], r)
    let ds := whole ++ fraction
    if ds.isEmpty then none
    else do
      let coefficient ← natOfDigits? 10 ds
      let significant := (ds.dropWhile (· == '0')).length
      let power ←
        match rest with
        | [] => some 0
        | c :: r => if c = 'e' ∨ c = 'E' then int? 10 r else none
      return nearest coefficient significant (power - fraction.length)

/-- A decimal number with an optional sign. -/
def real? (cs : List Char) : Option Float :=
  let (negative, rest) := splitSign cs
  (magnitude? rest).map fun x => if negative then -x else x

end Articulated.Decimal
