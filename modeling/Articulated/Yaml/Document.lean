import Articulated.Yaml.Node
import Articulated.Yaml.Token

/-!
# Documents

`documents?` reads the tokens of a stream as documents, each a node. A missing node is null. There
is no answer for tokens that make no documents, nor for a mapping with one key twice.
-/

namespace Articulated.Yaml

/-! ## 1. Nodes -/

/-- Adds an entry to a mapping, given in reverse; its key must be new. -/
def addEntry? (entries : List (Node × Node)) (key value : Node) : Option (List (Node × Node)) :=
  if entries.any fun e => e.1.same key then none else some ((key, value) :: entries)

/-- A block collection has nothing to say at these tokens. -/
def endsBlockNode : List Token → Bool
  | .key :: _ | .value :: _ | .blockEnd :: _ => true
  | _ => false

/-- A sequence that is not indented has nothing to say at these tokens. -/
def endsLooseItem : List Token → Bool
  | .item :: _ | .key :: _ | .value :: _ | .blockEnd :: _ => true
  | _ => false

/-- A flow mapping has nothing to say at these tokens. -/
def endsFlowNode : List Token → Bool
  | .value :: _ | .comma :: _ | .flowMappingEnd :: _ => true
  | _ => false

mutual

/-- Reads a node. Block collections are read where `block` allows them, and a sequence that is not
indented where `loose` does. Every reader takes a bound on its depth. -/
def node? (block loose : Bool) : Nat → List Token → Option (Node × List Token)
  | 0, _ => none
  | fuel + 1, ts =>
    match ts with
    | .plain content :: ts => some (Node.ofPlain content, ts)
    | .quoted content :: ts => some (.text content, ts)
    | .flowSequenceStart :: ts => flowSequence? true fuel ts []
    | .flowMappingStart :: ts => flowMapping? true fuel ts []
    | .sequenceStart :: ts => if block then blockSequence? fuel ts [] else none
    | .mappingStart :: ts => if block then blockMapping? fuel ts [] else none
    | .item :: _ => if loose then looseSequence? fuel ts [] else none
    | _ => none

/-- Reads the items of a block sequence. -/
def blockSequence? : Nat → List Token → List Node → Option (Node × List Token)
  | 0, _, _ => none
  | fuel + 1, ts, items =>
    match ts with
    | .blockEnd :: ts => some (.sequence items.reverse, ts)
    | .item :: ts =>
      match ts with
      | .item :: _ | .blockEnd :: _ => blockSequence? fuel ts (.null :: items)
      | _ =>
        match node? true false fuel ts with
        | some (n, ts) => blockSequence? fuel ts (n :: items)
        | none => none
    | _ => none

/-- Reads the items of a sequence at the indentation of the mapping around it. -/
def looseSequence? : Nat → List Token → List Node → Option (Node × List Token)
  | 0, _, _ => none
  | fuel + 1, ts, items =>
    match ts with
    | .item :: ts =>
      if endsLooseItem ts then looseSequence? fuel ts (.null :: items)
      else
        match node? true false fuel ts with
        | some (n, ts) => looseSequence? fuel ts (n :: items)
        | none => none
    | _ => some (.sequence items.reverse, ts)

/-- Reads the entries of a block mapping. -/
def blockMapping? : Nat → List Token → List (Node × Node) → Option (Node × List Token)
  | 0, _, _ => none
  | fuel + 1, ts, entries =>
    match ts with
    | .blockEnd :: ts => some (.mapping entries.reverse, ts)
    | .key :: ts =>
      if endsBlockNode ts then blockValue? fuel ts .null entries
      else
        match node? true true fuel ts with
        | some (k, ts) => blockValue? fuel ts k entries
        | none => none
    | .value :: _ => blockValue? fuel ts .null entries
    | _ => none

/-- Reads the value of a key of a block mapping, then the entries after it. -/
def blockValue? : Nat → List Token → Node → List (Node × Node) → Option (Node × List Token)
  | 0, _, _, _ => none
  | fuel + 1, ts, key, entries =>
    match ts with
    | .value :: ts =>
      if endsBlockNode ts then
        match addEntry? entries key .null with
        | some entries => blockMapping? fuel ts entries
        | none => none
      else
        match node? true true fuel ts with
        | some (v, ts) =>
          match addEntry? entries key v with
          | some entries => blockMapping? fuel ts entries
          | none => none
        | none => none
    | _ =>
      match addEntry? entries key .null with
      | some entries => blockMapping? fuel ts entries
      | none => none

/-- Reads the items of a flow sequence. An entry with a key is a mapping of its own. -/
def flowSequence? (first : Bool) : Nat → List Token → List Node → Option (Node × List Token)
  | 0, _, _ => none
  | fuel + 1, ts, items =>
    match ts with
    | .flowSequenceEnd :: ts => some (.sequence items.reverse, ts)
    | .comma :: ts =>
      if first then none
      else
        match ts with
        | .flowSequenceEnd :: ts => some (.sequence items.reverse, ts)
        | .comma :: _ => none
        | _ => flowSequence? true fuel ts items
    | .key :: ts =>
      if first then
        match flowPair? fuel ts with
        | some (n, ts) => flowSequence? false fuel ts (n :: items)
        | none => none
      else none
    | _ =>
      if first then
        match node? false false fuel ts with
        | some (n, ts) => flowSequence? false fuel ts (n :: items)
        | none => none
      else none

/-- Reads a key and its value as a mapping of one entry, inside a flow sequence. -/
def flowPair? : Nat → List Token → Option (Node × List Token)
  | 0, _ => none
  | fuel + 1, ts =>
    let ends : List Token → Bool
      | .value :: _ | .comma :: _ | .flowSequenceEnd :: _ => true
      | _ => false
    let key? := if ends ts then some (.null, ts) else node? false false fuel ts
    match key? with
    | some (k, .value :: ts) =>
      if ends ts then some (.mapping [(k, .null)], ts)
      else
        match node? false false fuel ts with
        | some (v, ts) => some (.mapping [(k, v)], ts)
        | none => none
    | some (k, ts) => some (.mapping [(k, .null)], ts)
    | none => none

/-- Reads the entries of a flow mapping. -/
def flowMapping? (first : Bool) : Nat → List Token → List (Node × Node) →
    Option (Node × List Token)
  | 0, _, _ => none
  | fuel + 1, ts, entries =>
    match ts with
    | .flowMappingEnd :: ts => some (.mapping entries.reverse, ts)
    | .comma :: ts =>
      if first then none
      else
        match ts with
        | .flowMappingEnd :: ts => some (.mapping entries.reverse, ts)
        | .comma :: _ => none
        | _ => flowMapping? true fuel ts entries
    | .key :: ts =>
      if first then
        if endsFlowNode ts then flowValue? fuel ts .null entries
        else
          match node? false false fuel ts with
          | some (k, ts) => flowValue? fuel ts k entries
          | none => none
      else none
    | .value :: _ => if first then flowValue? fuel ts .null entries else none
    | _ =>
      if first then
        match node? false false fuel ts with
        | some (k, ts) =>
          match addEntry? entries k .null with
          | some entries => flowMapping? false fuel ts entries
          | none => none
        | none => none
      else none

/-- Reads the value of a key of a flow mapping, then the entries after it. -/
def flowValue? : Nat → List Token → Node → List (Node × Node) → Option (Node × List Token)
  | 0, _, _, _ => none
  | fuel + 1, ts, key, entries =>
    let value? : Option (Node × List Token) :=
      match ts with
      | .value :: ts => if endsFlowNode ts then some (.null, ts) else node? false false fuel ts
      | _ => some (.null, ts)
    match value? with
    | some (v, ts) =>
      match addEntry? entries key v with
      | some entries => flowMapping? false fuel ts entries
      | none => none
    | none => none

end

/-! ## 2. Streams -/

/-- Reads the content of a document, which may be missing. -/
def content? (ts : List Token) : Option (Node × List Token) :=
  match ts with
  | [] | .documentStart :: _ | .documentEnd :: _ => some (.null, ts)
  | _ => node? true false (2 * ts.length + 2) ts

/-- Reads the documents of a stream. A document begins with its mark, except the first one and one
after an end mark (`bare`). -/
def stream? : Nat → Bool → List Token → List Node → Option (List Node)
  | 0, _, _, _ => none
  | fuel + 1, bare, ts, docs =>
    match ts with
    | [] => some docs.reverse
    | .documentEnd :: ts => stream? fuel true ts docs
    | .documentStart :: ts =>
      match content? ts with
      | some (n, ts) => stream? fuel false ts (n :: docs)
      | none => none
    | _ =>
      if bare then
        match content? ts with
        | some (n, ts) => stream? fuel false ts (n :: docs)
        | none => none
      else none

/-- The documents of a text. -/
def documents? (cs : List Char) : Option (List Node) := do
  let ts ← Token.scan? cs
  stream? (ts.length + 1) true ts []

end Articulated.Yaml
