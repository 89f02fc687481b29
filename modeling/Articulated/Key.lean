/-!
# Variables and their keys

Every physical quantity of a robot at a time is a `Variable`, and every variable has a key of 64
bits, laid out from the top as

`| tag (8) | link (16) | joint (16) | time or phase (24) |`

* `Variable.key?` encodes a variable; it is `none` exactly when an id or an index does not fit.
* `Key.variable?` decodes a key; keys with any other tag are plain keys that name no quantity.
* `Variable.text` and `Key.text` are the texts shown to users: `q(2,5)` is the angle of joint 2
  at time 5, and a plain key is its number.
-/

namespace Articulated

/-! ## 1. Quantities -/

/-- A physical quantity of the robot. Link and joint numbers are ids; `t` is a time index. -/
inductive Variable where
  /-- World pose of a link. -/
  | pose (link t : Nat)
  /-- Twist of a link in its own frame. -/
  | twist (link t : Nat)
  /-- Rate of change of the twist of a link. -/
  | twistAccel (link t : Nat)
  /-- Wrench that a joint exerts on a link, in the frame of the link. -/
  | wrench (link joint t : Nat)
  /-- Actuation of a joint. -/
  | torque (joint t : Nat)
  /-- Coordinate of a joint. -/
  | jointAngle (joint t : Nat)
  /-- Rate of the coordinate of a joint. -/
  | jointVel (joint t : Nat)
  /-- Second rate of the coordinate of a joint. -/
  | jointAccel (joint t : Nat)
  /-- Duration of the steps of a phase. -/
  | phaseDuration (phase : Nat)
deriving DecidableEq

/-! ## 2. The layout -/

/-- How many tags there are. -/
def tagCount : Nat := 0x100

/-- How many link or joint ids fit. -/
def idCount : Nat := 0x10000

/-- How many time or phase indices fit. -/
def indexCount : Nat := 0x1000000

/-- The largest link or joint id that fits. -/
def maxId : Nat := 0xffff

/-- The largest time or phase index that fits. -/
def maxIndex : Nat := 0xffffff

/-- The four fields of a key. -/
structure KeyFields where
  tag : Nat
  link : Nat
  joint : Nat
  index : Nat
deriving DecidableEq

namespace KeyFields

/-- The fields fit the layout. -/
def Fits (f : KeyFields) : Prop := f.link ≤ maxId ∧ f.joint ≤ maxId ∧ f.index ≤ maxIndex

instance (f : KeyFields) : Decidable f.Fits :=
  inferInstanceAs (Decidable (_ ∧ _ ∧ _))

/-- The fields side by side in one number. -/
def pack (f : KeyFields) : Nat :=
  ((f.tag * idCount + f.link) * idCount + f.joint) * indexCount + f.index

/-- The fields of a number. -/
def unpack (n : Nat) : KeyFields :=
  let ids := n / indexCount
  let head := ids / idCount
  ⟨head / idCount % tagCount, head % idCount, ids % idCount, n % indexCount⟩

end KeyFields

/-- An identifier of a variable. -/
structure Key where
  raw : UInt64
deriving DecidableEq

namespace Key

instance : LT Key := ⟨fun a b => a.raw < b.raw⟩
instance : LE Key := ⟨fun a b => a.raw ≤ b.raw⟩
instance (a b : Key) : Decidable (a < b) := inferInstanceAs (Decidable (a.raw < b.raw))
instance (a b : Key) : Decidable (a ≤ b) := inferInstanceAs (Decidable (a.raw ≤ b.raw))

/-- The fields of the key. -/
def fields (k : Key) : KeyFields := KeyFields.unpack k.raw.toNat

end Key

/-! ## 3. Encoding and decoding -/

/-- The tag of a kind of quantity: the code of the letter it is shown with. -/
def Variable.tag : Variable → Char
  | pose .. => 'p'
  | twist .. => 'V'
  | twistAccel .. => 'A'
  | wrench .. => 'F'
  | torque .. => 'T'
  | jointAngle .. => 'q'
  | jointVel .. => 'v'
  | jointAccel .. => 'a'
  | phaseDuration .. => 'P'

/-- The fields of the key of a variable; those that its kind does not use are zero. -/
def Variable.fields (v : Variable) : KeyFields :=
  match v with
  | pose link t | twist link t | twistAccel link t => ⟨v.tag.toNat, link, 0, t⟩
  | wrench link joint t => ⟨v.tag.toNat, link, joint, t⟩
  | torque joint t | jointAngle joint t | jointVel joint t | jointAccel joint t =>
    ⟨v.tag.toNat, 0, joint, t⟩
  | phaseDuration phase => ⟨v.tag.toNat, 0, 0, phase⟩

/-- The key of a variable, if its fields fit the layout. -/
def Variable.key? (v : Variable) : Option Key :=
  if v.fields.Fits then some ⟨UInt64.ofNat v.fields.pack⟩ else none

/-- The variable that a key stands for, if its tag is one of the nine. -/
def Key.variable? (k : Key) : Option Variable :=
  let f := k.fields
  match Char.ofNat f.tag with
  | 'p' => some (.pose f.link f.index)
  | 'V' => some (.twist f.link f.index)
  | 'A' => some (.twistAccel f.link f.index)
  | 'F' => some (.wrench f.link f.joint f.index)
  | 'T' => some (.torque f.joint f.index)
  | 'q' => some (.jointAngle f.joint f.index)
  | 'v' => some (.jointVel f.joint f.index)
  | 'a' => some (.jointAccel f.joint f.index)
  | 'P' => some (.phaseDuration f.index)
  | _ => none

/-- The time index of a variable; a duration has none. -/
def Variable.time? : Variable → Option Nat
  | pose _ t | twist _ t | twistAccel _ t | wrench _ _ t
  | torque _ t | jointAngle _ t | jointVel _ t | jointAccel _ t => some t
  | phaseDuration _ => none

/-! ## 4. Texts -/

/-- The numbers that the text of a variable shows, in order. -/
def Variable.numbers : Variable → List Nat
  | pose link t | twist link t | twistAccel link t => [link, t]
  | wrench link joint t => [link, joint, t]
  | torque joint t | jointAngle joint t | jointVel joint t | jointAccel joint t => [joint, t]
  | phaseDuration phase => [phase]

/-- The text of a variable: its letter, then its numbers in parentheses. -/
def Variable.text (v : Variable) : String :=
  String.singleton v.tag ++ "(" ++ ",".intercalate (v.numbers.map Nat.repr) ++ ")"

/-- The text of a key: that of its variable, or its number. -/
def Key.text (k : Key) : String :=
  match k.variable? with
  | some v => v.text
  | none => k.raw.toNat.repr

/-- The kind of a variable and the names of its numbers. -/
def Variable.labels : Variable → String × List String
  | pose .. => ("Pose", ["link", "t"])
  | twist .. => ("Twist", ["link", "t"])
  | twistAccel .. => ("TwistAccel", ["link", "t"])
  | wrench .. => ("Wrench", ["link", "joint", "t"])
  | torque .. => ("Torque", ["joint", "t"])
  | jointAngle .. => ("JointAngle", ["joint", "t"])
  | jointVel .. => ("JointVel", ["joint", "t"])
  | jointAccel .. => ("JointAccel", ["joint", "t"])
  | phaseDuration .. => ("PhaseDuration", ["phase"])

/-- A variable spelled out, each number with its name. -/
def Variable.describe (v : Variable) : String :=
  let (kind, names) := v.labels
  let members := List.zipWith (fun name n => name ++ ": " ++ Nat.repr n) names v.numbers
  kind ++ " \x7b " ++ ", ".intercalate members ++ " \x7d"

end Articulated
