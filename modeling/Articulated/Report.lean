import Articulated.Decimal.Exact
import Articulated.Fault.Message
import Articulated.Robot.Model
import Articulated.Values

/-!
# Tables of values

Texts that show assignments to a reader: the joint quantities of a slice, one joint in a line, and
all variables of an assignment, one variable in a line. Numbers have four places; a pose shows its
translation, and its rotation as roll, pitch and yaw in whole degrees and two places.
-/

namespace Articulated

/-! ## 1. Angles -/

/-- A quarter turn in radians. -/
def quarterTurn : Float := 1.5707963267948966

/-- Roll, pitch and yaw of a rotation: it turns by the roll about the first axis, then by the pitch
about the second, then by the yaw about the third. At a pitch of a quarter turn the yaw is zero. -/
def Rotation.rollPitchYaw (r : Rotation Float) : Float × Float × Float :=
  let m := r.matrix
  let sine := m.row3.x
  if sine.abs < 1 then
    let pitch := -sine.asin
    let cosine := pitch.cos
    (Float.atan2 (m.row3.y / cosine) (m.row3.z / cosine), pitch,
      Float.atan2 (m.row2.x / cosine) (m.row1.x / cosine))
  else if sine ≤ -1 then (Float.atan2 m.row1.y m.row1.z, quarterTurn, 0)
  else (-Float.atan2 m.row1.y (-m.row1.z), -quarterTurn, 0)

/-- An angle in degrees. -/
def toDegrees (angle : Float) : Float := angle * (180 / (quarterTurn + quarterTurn))

/-! ## 2. Joints -/

/-- The widths and places of the numbers in a table of joints. -/
def jointNumber (x : Float) : String := Decimal.alignRight 9 (Decimal.fixed 4 x)

/-- The line of a joint. -/
def jointLine (vs : Values Float) (t : Nat) (j : Joint Float) : Except (Fault Float) String := do
  let q ← vs.scalar (← (Variable.jointAngle j.id t).key)
  let v ← vs.scalar (← (Variable.jointVel j.id t).key)
  let a ← vs.scalar (← (Variable.jointAccel j.id t).key)
  let τ ← vs.scalar (← (Variable.torque j.id t).key)
  return Decimal.alignRight 8 j.name ++ ": q " ++ jointNumber q ++ " v " ++ jointNumber v
    ++ " a " ++ jointNumber a ++ " T " ++ jointNumber τ ++ "\n"

/-- The joint quantities of a slice, by ascending joint id. -/
def jointTable (r : Robot Float) (vs : Values Float) (t : Nat) : Except (Fault Float) String := do
  return String.join (← r.sortedJoints.mapM (jointLine vs t))

/-- The table of the joints, or what is missing for it. -/
def jointReport (r : Robot Float) (vs : Values Float) (t : Nat) : String :=
  match jointTable r vs t with
  | .ok table => table
  | .error e => s!"Incomplete slice {t}: " ++ e.message ++ "\n"

/-! ## 3. Values -/

/-- Numbers in brackets. -/
def bracketed (places : Nat) (xs : List Float) : String :=
  "[" ++ ", ".intercalate (xs.map (Decimal.fixed places)) ++ "]"

/-- The text of a value. -/
def valueText : Value Float → String
  | .scalar x => Decimal.fixed 4 x
  | .vector v => bracketed 4 v.toList
  | .pose p =>
    let (roll, pitch, yaw) := p.rotation.rollPitchYaw
    bracketed 4 p.translation.toList ++ " rpy " ++ bracketed 2 ([roll, pitch, yaw].map toDegrees)

/-- All variables with their values, a line each. -/
def valueReport (vs : Values Float) : String :=
  if vs.size = 0 then "No values\n"
  else String.join (vs.entries.map fun e => e.1.text ++ ": " ++ valueText e.2 ++ "\n")

end Articulated
