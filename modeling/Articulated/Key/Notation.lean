import Articulated.Decimal.Read
import Articulated.Key

/-!
# Variables written as text

`Variable.ofText?` reads what `Variable.text` writes: the letter of a kind, then the numbers of the
variable in parentheses with commas between them. Any other text names no variable.
-/

namespace Articulated

/-- The parts of a text between its commas; a text without commas is one part. -/
def commaParts : List Char → List (List Char)
  | [] => [[]]
  | ',' :: cs => [] :: commaParts cs
  | c :: cs =>
    match commaParts cs with
    | part :: parts => (c :: part) :: parts
    | [] => [[c]]

/-- A number written in decimal digits. -/
def number? (cs : List Char) : Option Nat :=
  if cs.isEmpty then none else Decimal.natOfDigits? 10 cs

namespace Variable

/-- The variable of a kind, given by its letter, with the given numbers. -/
def ofNumbers? (letter : Char) (numbers : List Nat) : Option Variable :=
  match letter, numbers with
  | 'p', [link, t] => some (pose link t)
  | 'V', [link, t] => some (twist link t)
  | 'A', [link, t] => some (twistAccel link t)
  | 'F', [link, joint, t] => some (wrench link joint t)
  | 'T', [joint, t] => some (torque joint t)
  | 'q', [joint, t] => some (jointAngle joint t)
  | 'v', [joint, t] => some (jointVel joint t)
  | 'a', [joint, t] => some (jointAccel joint t)
  | 'P', [phase] => some (phaseDuration phase)
  | _, _ => none

/-- The letter and the numbers of a variable determine it. -/
theorem ofNumbers?_tag_numbers (v : Variable) : ofNumbers? v.tag v.numbers = some v := by
  cases v <;> rfl

/-- The variable that a text names. -/
def ofText? (s : String) : Option Variable :=
  match s.toList with
  | letter :: '(' :: rest =>
    if rest.getLast? = some ')' then do
      ofNumbers? letter (← (commaParts rest.dropLast).mapM number?)
    else none
  | _ => none

end Variable

end Articulated
