import Articulated.Decimal.Read

/-!
# Nodes of a document

A document is a tree of sequences and mappings over scalars. A plain scalar stands for what it
looks like: an integer, a real number, a truth value, nothing, or its own text; a quoted scalar is
always text.
-/

namespace Articulated.Yaml

/-! ## 1. Trees -/

/-- A node of a document. A real number keeps its spelling, which tells it from other spellings
of the same number when it is a key. -/
inductive Node where
  /-- A scalar that is not what its tag says. As an entry it is read as one that is not there. -/
  | missing
  | null
  | boolean (value : Bool)
  | integer (value : Int)
  | real (spelling : List Char)
  | text (content : List Char)
  | sequence (items : List Node)
  | mapping (entries : List (Node × Node))

namespace Node

mutual

/-- Equality of nodes. -/
def same : Node → Node → Bool
  | missing, missing => true
  | null, null => true
  | boolean a, boolean b => a == b
  | integer a, integer b => a == b
  | real a, real b => a == b
  | text a, text b => a == b
  | sequence as, sequence bs => sameItems as bs
  | mapping as, mapping bs => sameEntries as bs
  | _, _ => false

/-- Equality of the items of two sequences, in order. -/
def sameItems : List Node → List Node → Bool
  | [], [] => true
  | a :: as, b :: bs => same a b && sameItems as bs
  | _, _ => false

/-- Equality of the entries of two mappings, in order. -/
def sameEntries : List (Node × Node) → List (Node × Node) → Bool
  | [], [] => true
  | (k, v) :: as, (l, w) :: bs => same k l && same v w && sameEntries as bs
  | _, _ => false

end

/-- The value under a text key of a mapping; nothing for any other node. -/
def get? (n : Node) (key : String) : Option Node :=
  match n with
  | mapping entries => (entries.find? fun e => e.1.same (text key.toList)).map Prod.snd
  | _ => none

/-! ## 2. Plain scalars -/

/-- The integers that fit 64 bits with a sign. -/
def isWord (i : Int) : Bool := decide (-0x8000000000000000 ≤ i ∧ i < 0x8000000000000000)

/-- An integer that fits 64 bits, in a base. -/
def word? (base : Nat) (cs : List Char) : Option Int := (Decimal.int? base cs).filter isWord

/-- An integer with its base in front, or with a plus sign. -/
def markedInteger? : List Char → Option Int
  | '0' :: 'x' :: cs => word? 16 cs
  | '0' :: 'o' :: cs => word? 8 cs
  | '+' :: cs => word? 10 cs
  | _ => none

/-- A real number: an infinity or NaN spelled with a point, or a decimal number with a digit. -/
def real? (cs : List Char) : Option Float :=
  let is (names : List String) : Bool := names.any fun n => n.toList == cs
  if is [".inf", ".Inf", ".INF", "+.inf", "+.Inf", "+.INF"] then some (1 / 0)
  else if is ["-.inf", "-.Inf", "-.INF"] then some (-1 / 0)
  else if is [".nan", ".NaN", ".NAN"] then some (0 / 0)
  else if cs.any Char.isDigit then Decimal.real? cs
  else none

/-- What a plain scalar stands for. -/
def ofPlain (cs : List Char) : Node :=
  match markedInteger? cs with
  | some i => integer i
  | none =>
    let is (names : List String) : Bool := names.any fun n => n.toList == cs
    if is ["", "~", "null"] then null
    else if is ["true", "True", "TRUE"] then boolean true
    else if is ["false", "False", "FALSE"] then boolean false
    else
      match word? 10 cs with
      | some i => integer i
      | none => if (real? cs).isSome then real cs else text cs

end Node

end Articulated.Yaml
