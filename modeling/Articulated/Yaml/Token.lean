/-!
# Tokens of a document

`Token.scan?` cuts the text of a document stream into tokens. In block style the indentation of a
line says where collections begin and end, and these places become tokens of their own. A scalar
turns out to be a key only at the colon after it, so the tokens that open a mapping are put in
before it then.

The grammar covers block and flow collections, plain and quoted scalars, comments and document
marks. Anchors, tags, directives and block scalars are no part of it. There is no answer for a
text that cannot be cut.
-/

namespace Articulated.Yaml

/-! ## 1. Tokens -/

/-- A token. -/
inductive Token where
  | documentStart
  | documentEnd
  /-- A block sequence begins. -/
  | sequenceStart
  /-- A block mapping begins. -/
  | mappingStart
  /-- A block collection ends. -/
  | blockEnd
  /-- An item of a block sequence follows. -/
  | item
  /-- A key follows. -/
  | key
  /-- A value follows. -/
  | value
  | flowSequenceStart
  | flowSequenceEnd
  | flowMappingStart
  | flowMappingEnd
  /-- A comma in a flow collection. -/
  | comma
  | plain (content : List Char)
  | quoted (content : List Char)
deriving DecidableEq

/-! ## 2. Characters -/

/-- A blank within a line. -/
def isSpace (c : Char) : Bool := c == ' ' || c == '\t'

/-- A line break. -/
def isBreak (c : Char) : Bool := c == '\n' || c == '\r'

/-- A character that structures flow collections. -/
def isFlow (c : Char) : Bool := [',', '[', ']', '\x7b', '\x7d'].contains c

/-- The text ends here, or goes on with a blank or a line break. -/
def atGap : List Char → Bool
  | [] => true
  | c :: _ => isSpace c || isBreak c

/-- The text ends here, or goes on with a line break. -/
def atLineEnd : List Char → Bool
  | [] => true
  | c :: _ => isBreak c

/-- A document mark, alone or before a gap. -/
def atMark (mark : Char) : List Char → Bool
  | a :: b :: c :: rest => a == mark && b == mark && c == mark && atGap rest
  | _ => false

/-- Either document mark. -/
def atDocumentMark (cs : List Char) : Bool := atMark '-' cs || atMark '.' cs

/-- The text goes on with a flow character. -/
def atFlow : List Char → Bool
  | c :: _ => isFlow c
  | [] => false

/-- Whether the next character may be part of a plain scalar. -/
def canBePlain (inFlow : Bool) : List Char → Bool
  | [] => false
  | c :: rest =>
    if isSpace c || isBreak c then false
    else if c == ':' then !(atGap rest || inFlow && atFlow rest)
    else !(inFlow && isFlow c)

/-! ## 3. Scanner states -/

/-- A place where a key may have begun. -/
structure KeyPlace where
  possible : Bool
  /-- Here only a key can stand. -/
  required : Bool
  /-- The number of tokens before it. -/
  tokens : Nat
  index : Nat
  line : Nat
  col : Nat

/-- No key has begun. -/
def KeyPlace.none : KeyPlace := ⟨false, false, 0, 0, 0, 0⟩

/-- What the scanner knows at a place of the text. -/
structure Scanner where
  rest : List Char
  index : Nat
  line : Nat
  col : Nat
  /-- Only blanks stand before this place in its line. -/
  leading : Bool
  /-- The column of the innermost block collection. -/
  indent : Int
  /-- The columns around it, and whether leaving it ends a collection. -/
  outer : List (Int × Bool)
  /-- The depth of flow collections. -/
  depth : Nat
  /-- A key may begin here. -/
  keyAllowed : Bool
  /-- The last place where a key may have begun, for every flow depth, innermost first. -/
  places : List KeyPlace
  /-- The place where a colon needs no blank after it. -/
  adjacent : Option Nat
  tokens : Array Token

namespace Scanner

/-- The state at the beginning of a text. -/
def start (cs : List Char) : Scanner :=
  ⟨cs, 0, 0, 0, true, -1, [], 0, true, [KeyPlace.none], none, #[]⟩

/-- Whether the place is inside a flow collection. -/
def inFlow (s : Scanner) : Bool := s.depth != 0

/-- Adds a token. -/
def push (s : Scanner) (t : Token) : Scanner := { s with tokens := s.tokens.push t }

/-- Adds a token after the first `n` ones. -/
def pushAt (s : Scanner) (n : Nat) (t : Token) : Scanner :=
  { s with tokens := s.tokens.insertIdxIfInBounds n t }

/-- Passes over `n` characters that are no blanks. -/
def skip (s : Scanner) (n : Nat) : Scanner :=
  { s with rest := s.rest.drop n, index := s.index + n, col := s.col + n, leading := false }

/-- Passes over a blank. -/
def skipSpace (s : Scanner) : Scanner :=
  { s with rest := s.rest.drop 1, index := s.index + 1, col := s.col + 1 }

/-- Passes over a line break, which is one or two characters. -/
def skipBreak (s : Scanner) : Scanner :=
  let n := match s.rest with
    | '\r' :: '\n' :: _ => 2
    | _ => 1
  { s with rest := s.rest.drop n, index := s.index + n, line := s.line + 1, col := 0,
           leading := true }

/-- Passes over the rest of the line. -/
def skipComment (s : Scanner) : Scanner :=
  let n := (s.rest.takeWhile (!isBreak ·)).length
  { s with rest := s.rest.drop n, index := s.index + n, col := s.col + n }

/-- Passes over blanks of the line, and over a comment after at least one of them. A comment that
touches what is before it is refused. -/
def skipToLineEnd? (s : Scanner) : Option Scanner :=
  let n := (s.rest.takeWhile isSpace).length
  let s' := { s with rest := s.rest.drop n, index := s.index + n, col := s.col + n }
  match s'.rest with
  | '#' :: _ => if n = 0 then none else some s'.skipComment
  | _ => some s'

/-- Passes over blanks, line breaks and comments before a token. A tab in the indentation of a
block collection is refused, except in a line without content. -/
def toToken? : Nat → Scanner → Option Scanner
  | 0, s => some s
  | fuel + 1, s =>
    match s.rest with
    | [] => some s
    | c :: _ =>
      if c == '\t' && !s.outer.isEmpty && s.leading && decide ((s.col : Int) < s.indent) then do
        let s ← s.skipToLineEnd?
        if atLineEnd s.rest then toToken? fuel s else none
      else if isSpace c then toToken? fuel s.skipSpace
      else if isBreak c then
        let s := s.skipBreak
        toToken? fuel (if s.inFlow then s else { s with keyAllowed := true })
      else if c == '#' then toToken? fuel s.skipComment
      else some s

/-! ## 4. Indentation -/

/-- Enters a block collection at a column, unless it is already open there. The tokens go in
after the first `n` ones. -/
def enter (s : Scanner) (col : Nat) (n : Nat) (t : Token) : Scanner :=
  if s.inFlow then s
  else
    let s :=
      match s.outer with
      | (before, false) :: outer =>
        if s.indent ≤ (col : Int) then { s with indent := before, outer } else s
      | _ => s
    if s.indent < (col : Int) then
      { s with indent := col, outer := (s.indent, true) :: s.outer }.pushAt n t
    else s

/-- Asks the content that follows to stand one column further in than its collection. -/
def indentContent (s : Scanner) : Scanner :=
  match s.outer with
  | (_, true) :: _ =>
    if s.inFlow then s
    else { s with indent := s.indent + 1, outer := (s.indent, false) :: s.outer }
  | _ => s

/-- Leaves the block collections that lie further in than a column. The first argument are the
columns around the innermost one. -/
def leaveTo (col : Int) : List (Int × Bool) → Scanner → Scanner
  | [], s => s
  | (before, ends) :: outer, s =>
    if s.indent ≤ col then s
    else
      let s := { s with indent := before, outer }
      leaveTo col outer (if ends then s.push .blockEnd else s)

/-- Leaves block collections; inside a flow collection there are none to leave. -/
def leave (s : Scanner) (col : Int) : Scanner := if s.inFlow then s else leaveTo col s.outer s

/-- Takes back what was asked of the content of a collection. -/
def dropContentIndent : List (Int × Bool) → Scanner → Scanner
  | (before, false) :: outer, s => dropContentIndent outer { s with indent := before, outer }
  | _, s => s

/-! ## 5. Keys -/

/-- Remembers this place as one where a key may begin. -/
def savePlace (s : Scanner) : Scanner :=
  if s.keyAllowed then
    let required :=
      !s.inFlow && s.indent == s.col && (match s.outer with | (_, true) :: _ => true | _ => false)
    let place : KeyPlace := ⟨true, required, s.tokens.size, s.index, s.line, s.col⟩
    { s with places := place :: s.places.drop 1 }
  else s

/-- Forgets the innermost place where a key may have begun; there must be a key if only a key can
stand there. -/
def dropPlace? (s : Scanner) : Option Scanner :=
  match s.places with
  | p :: ps =>
    if p.possible && p.required then none
    else some { s with places := { p with possible := false } :: ps }
  | [] => some s

/-- Outside of flow collections a key must stand in one line, and not be too long. -/
def ageKeys? (s : Scanner) : Option Scanner :=
  if s.inFlow then some s
  else
    let old (p : KeyPlace) : Bool := p.possible && (p.line < s.line || p.index + 1024 < s.index)
    if s.places.any fun p => old p && p.required then none
    else
      let forget (p : KeyPlace) : KeyPlace := if old p then { p with possible := false } else p
      some { s with places := s.places.map forget }

/-! ## 6. Scalars -/

/-- The blanks and line breaks between two parts of a scalar. -/
structure Gap where
  spaces : List Char
  breaks : Nat

/-- What a gap contributes to the scalar: its blanks within a line; across lines one blank, or the
line breaks after the first one. -/
def Gap.content (g : Gap) : List Char :=
  if g.breaks = 0 then g.spaces
  else if g.breaks = 1 then [' ']
  else List.replicate (g.breaks - 1) '\n'

/-- Reads blanks and line breaks inside a scalar. A tab in the indentation is refused, except in
a line without content of a plain scalar. -/
def gap? (inQuotes : Bool) (limit : Int) : Nat → Scanner → Gap → Option (Scanner × Gap)
  | 0, s, g => some (s, g)
  | fuel + 1, s, g =>
    match s.rest with
    | [] => some (s, g)
    | c :: _ =>
      if isBreak c then gap? inQuotes limit fuel s.skipBreak ⟨[], g.breaks + 1⟩
      else if isSpace c then
        if g.breaks = 0 then
          gap? inQuotes limit fuel s.skipSpace { g with spaces := g.spaces ++ [c] }
        else if c == '\t' && decide ((s.col : Int) < limit) then
          if inQuotes then none
          else do
            let s ← s.skipToLineEnd?
            if atLineEnd s.rest then gap? inQuotes limit fuel s g else none
        else gap? inQuotes limit fuel s.skipSpace g
      else some (s, g)

/-- Reads the characters of a plain scalar up to a gap or its end; the content comes in reverse. -/
def plainRun (inFlow : Bool) : Nat → Scanner → List Char → Scanner × List Char
  | 0, s, acc => (s, acc)
  | fuel + 1, s, acc =>
    match s.rest with
    | [] => (s, acc)
    | c :: _ =>
      if canBePlain inFlow s.rest then plainRun inFlow fuel (s.skip 1) (c :: acc) else (s, acc)

/-- Reads a plain scalar whose lines stand at column `limit` or further in; the content comes in
reverse, and `g` is the gap before this place. -/
def plainParts? (limit : Int) : Nat → Scanner → Gap → List Char → Option (Scanner × List Char)
  | 0, s, _, acc => some (s, acc)
  | fuel + 1, s, g, acc =>
    if (s.leading && atDocumentMark s.rest) || s.rest.head? == some '#' then some (s, acc)
    else if s.inFlow && s.rest.head? == some '-' && atFlow (s.rest.drop 1) then none
    else
      let (s, acc) :=
        if canBePlain s.inFlow s.rest then
          plainRun s.inFlow s.rest.length s (g.content.reverse ++ acc)
        else (s, acc)
      if s.rest.isEmpty || !atGap s.rest then some (s, acc)
      else do
        let (s, g) ← gap? false limit s.rest.length s ⟨[], 0⟩
        if !s.inFlow && decide ((s.col : Int) < limit) then return (s, acc)
        plainParts? limit fuel s g acc

/-- Reads a plain scalar. -/
def plainScalar? (s : Scanner) : Option Scanner := do
  let s := { s.savePlace with keyAllowed := false }
  let s := dropContentIndent s.outer s
  let limit := s.indent + 1
  if s.inFlow && decide ((s.col : Int) < limit) then none
  let (s, acc) ← plainParts? limit (s.rest.length + 1) s ⟨[], 0⟩ []
  if acc.isEmpty then none
  let s := if s.leading then { s with keyAllowed := true } else s
  return s.push (.plain acc.reverse)

/-- The character written by one letter after a backslash. -/
def simpleEscape? : Char → Option Char
  | '0' => some '\x00'
  | 'a' => some '\x07'
  | 'b' => some '\x08'
  | 't' => some '\t'
  | '\t' => some '\t'
  | 'n' => some '\n'
  | 'v' => some '\x0b'
  | 'f' => some '\x0c'
  | 'r' => some '\r'
  | 'e' => some '\x1b'
  | ' ' => some ' '
  | '\x22' => some '\x22'
  | '/' => some '/'
  | '\\' => some '\\'
  | 'N' => some '\u0085'
  | '_' => some '\u00a0'
  | 'L' => some '\u2028'
  | 'P' => some '\u2029'
  | _ => none

/-- The number of hexadecimal digits after a letter that announces a code point. -/
def escapeLength? : Char → Option Nat
  | 'x' => some 2
  | 'u' => some 4
  | 'U' => some 8
  | _ => none

/-- The value of a hexadecimal digit. -/
def hexDigit? (c : Char) : Option Nat :=
  if '0' ≤ c ∧ c ≤ '9' then some (c.toNat - '0'.toNat)
  else if 'a' ≤ c ∧ c ≤ 'f' then some (c.toNat - 'a'.toNat + 10)
  else if 'A' ≤ c ∧ c ≤ 'F' then some (c.toNat - 'A'.toNat + 10)
  else none

/-- The character with the given hexadecimal code point. -/
def codePoint? (ds : List Char) : Option Char := do
  let n ← ds.foldlM (fun n c => (hexDigit? c).map (16 * n + ·)) 0
  if n.isValidChar then some (Char.ofNat n) else none

/-- Reads the characters of a quoted scalar up to a gap or the closing quote; the content comes in
reverse. The flag tells that an escaped line break was read last. -/
def quotedRun? (quote : Char) : Nat → Scanner → List Char → Option (Scanner × List Char × Bool)
  | 0, s, acc => some (s, acc, false)
  | fuel + 1, s, acc =>
    match s.rest with
    | [] => some (s, acc, false)
    | c :: rest =>
      if isSpace c || isBreak c then some (s, acc, false)
      else if c == quote then
        if quote == '\x27' && rest.head? == some quote then
          quotedRun? quote fuel (s.skip 2) (c :: acc)
        else some (s, acc, false)
      else if c == '\\' && quote == '\x22' then
        match rest with
        | [] => none
        | e :: _ =>
          if isBreak e then some ((s.skip 1).skipBreak, acc, true)
          else
            match simpleEscape? e, escapeLength? e with
            | some x, _ => quotedRun? quote fuel (s.skip 2) (x :: acc)
            | none, some n =>
              let ds := (rest.drop 1).take n
              if ds.length = n then do
                let x ← codePoint? ds
                quotedRun? quote fuel (s.skip (2 + n)) (x :: acc)
              else none
            | none, none => none
      else quotedRun? quote fuel (s.skip 1) (c :: acc)

/-- Reads a quoted scalar up to its closing quote; the content comes in reverse. -/
def quotedParts? (quote : Char) : Nat → Scanner → List Char → Option (Scanner × List Char)
  | 0, _, _ => none
  | fuel + 1, s, acc =>
    if s.col == 0 && atDocumentMark s.rest then none
    else if s.rest.isEmpty || decide ((s.col : Int) < s.indent) then none
    else do
      let (s, acc, joined) ← quotedRun? quote s.rest.length s acc
      if s.rest.head? == some quote then return (s, acc)
      let (s, g) ← gap? true s.indent s.rest.length s ⟨[], if joined then 1 else 0⟩
      let content :=
        if joined then List.replicate (g.breaks - 1) '\n'
        else g.content
      quotedParts? quote fuel s (content.reverse ++ acc)

/-- Whether a quoted scalar that began in a line may be followed by the next character. -/
def mayFollowQuote (s : Scanner) (line : Nat) : Bool :=
  match s.rest with
  | [] => true
  | c :: _ =>
    isBreak c || (c == ':' && (s.inFlow || line == s.line))
      || (s.inFlow && [',', ']', '\x7d'].contains c)

/-- Reads a quoted scalar. -/
def quotedScalar? (s : Scanner) (quote : Char) : Option Scanner := do
  let line := s.line
  let s := { s.savePlace with keyAllowed := false }
  let (s, acc) ← quotedParts? quote (s.rest.length + 1) (s.skip 1) []
  let s ← (s.skip 1).skipToLineEnd?
  if !s.mayFollowQuote line then none
  let s ← toToken? (s.rest.length + 1) s
  return { s with adjacent := some s.index }.push (.quoted acc.reverse)

/-! ## 7. Structure -/

/-- Opens a flow collection. -/
def openFlow? (s : Scanner) (t : Token) : Option Scanner := do
  let s := s.savePlace.indentContent
  let s := { s with depth := s.depth + 1, places := KeyPlace.none :: s.places, keyAllowed := true }
  return (← (s.skip 1).skipToLineEnd?).push t

/-- Closes a flow collection. -/
def closeFlow? (s : Scanner) (t : Token) : Option Scanner := do
  let s ← s.dropPlace?
  let s := if s.inFlow then { s with depth := s.depth - 1, places := s.places.drop 1 } else s
  let s ← ({ s with keyAllowed := false }.skip 1).skipToLineEnd?
  let s := if s.inFlow then { s with adjacent := some s.index } else s
  return s.push t

/-- Reads a comma of a flow collection. -/
def comma? (s : Scanner) : Option Scanner := do
  let s ← s.dropPlace?
  return (← ({ s with keyAllowed := true }.skip 1).skipToLineEnd?).push .comma

/-- Reads the dash before an item of a block sequence. -/
def item? (s : Scanner) : Option Scanner := do
  if s.inFlow || !s.keyAllowed then none
  let col := s.col
  let s := s.skip 1
  let s := s.enter col s.tokens.size .sequenceStart
  let tabbed := (s.rest.takeWhile isSpace).contains '\t'
  let s ← s.skipToLineEnd?
  if tabbed && s.rest.head? == some '-' && atGap (s.rest.drop 1) then none
  let s := if (s.rest.head?.any isBreak) || atFlow s.rest then s.indentContent else s
  let s ← s.dropPlace?
  return { s with keyAllowed := true }.push .item

/-- Reads the question mark before a key. -/
def key? (s : Scanner) : Option Scanner := do
  if !s.inFlow && !s.keyAllowed then none
  let s := s.enter s.col s.tokens.size .mappingStart
  let s ← s.dropPlace?
  let s := { s with keyAllowed := !s.inFlow }.skip 1
  return s.push .key

/-- Reads the colon before a value. If a key may have begun at a place before it, the tokens that
make it one are put in there. -/
def value? (s : Scanner) : Option Scanner := do
  let col := s.col
  let s := s.skip 1
  let blanks := s.rest.takeWhile isSpace
  let s ← if blanks.head? == some '\t' then s.skipToLineEnd? else some s
  if blanks.head? == some '\t' && !blanks.contains ' '
      && s.rest.head?.any (fun c => c == '-' || c.isAlphanum || c == '_') then none
  match s.places with
  | p :: ps =>
    if p.possible then
      let s := s.pushAt p.tokens .key
      let s := (s.enter p.col p.tokens .mappingStart).indentContent
      let s := { s with places := { p with possible := false } :: ps, keyAllowed := false }
      return s.push .value
    else
      if !s.inFlow && !s.keyAllowed then none
      let s := (s.enter col s.tokens.size .mappingStart).indentContent
      return { s with keyAllowed := !s.inFlow }.push .value
  | [] => none

/-- Reads a document mark. -/
def mark? (s : Scanner) (t : Token) : Option Scanner := do
  let s ← (s.leave (-1)).dropPlace?
  return { s with keyAllowed := false }.skip 3 |>.push t

/-- Reads one token at a place that is no gap. -/
def token? (s : Scanner) (c : Char) (rest : List Char) : Option Scanner :=
  if s.col == 0 && atMark '-' s.rest then s.mark? .documentStart
  else if s.col == 0 && atMark '.' s.rest then do
    let s ← s.mark? .documentEnd
    let s ← s.skipToLineEnd?
    if atLineEnd s.rest then some s else none
  else if decide ((s.col : Int) < s.indent) then none
  else
    match c with
    | '[' => s.openFlow? .flowSequenceStart
    | '\x7b' => s.openFlow? .flowMappingStart
    | ']' => s.closeFlow? .flowSequenceEnd
    | '\x7d' => s.closeFlow? .flowMappingEnd
    | ',' => s.comma?
    | '\x27' | '\x22' => s.quotedScalar? c
    | '-' => if atGap rest then s.item? else s.plainScalar?
    | '?' => if atGap rest then s.key? else s.plainScalar?
    | ':' =>
      if atGap rest then s.value?
      else if s.inFlow && (atFlow rest || s.adjacent == some s.index) then
        if s.adjacent != some s.index && rest.head?.any (fun d => d == '[' || d == '\x7b') then none
        else s.value?
      else s.plainScalar?
    | '*' | '&' | '!' | '|' | '>' | '%' | '@' | '\x60' => none
    | _ => s.plainScalar?

/-- Reads all tokens. Every token takes at least one character. -/
def tokens? : Nat → Scanner → Option (List Token)
  | 0, _ => none
  | fuel + 1, s => do
    let s ← toToken? (s.rest.length + 1) s
    let s ← s.ageKeys?
    let s := s.leave s.col
    match s.rest with
    | [] =>
      if s.places.any fun p => p.possible && p.required then none
      return (s.leave (-1)).tokens.toList
    | c :: rest => tokens? fuel (← s.token? c rest)

end Scanner

/-- The tokens of a text. A zero character ends it. -/
def Token.scan? (cs : List Char) : Option (List Token) :=
  let cs := cs.takeWhile (· != '\x00')
  Scanner.tokens? (cs.length + 1) (Scanner.start cs)

end Articulated.Yaml
