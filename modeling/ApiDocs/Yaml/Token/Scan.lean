import ApiDocs.Yaml.Token.Name

/-!
# Tokens of a text

The scanner reads one token after another. In a block the columns open and close collections: a key or
a dash further right than the current indentation opens one, and a token further left closes it. What
can be a key is known only when its colon comes, so the place of a possible key is kept for every level
of flow collections, and the token that marks the key is put there later.
-/

namespace ApiDocs.Yaml

/-- The place of a possible key: the number of tokens before it and where it begins. A required key
begins where only a key of the current block can stand. -/
structure KeyPlace where
  position : Nat
  line : Nat
  column : Nat
  required : Bool
deriving Repr, DecidableEq

/-- The state of the scanner. Columns of the enclosing blocks are counted from 1, and 0 is outside of
all blocks. -/
structure Scan where
  rest : List Cell
  /-- The tokens so far, the last one first. -/
  tokens : List Token := []
  /-- How many tokens there are. -/
  count : Nat := 0
  flowLevel : Nat := 0
  indent : Nat := 0
  outerIndents : List Nat := []
  /-- The possible keys, that of the innermost flow level first. -/
  keys : List (Option KeyPlace) := [none]
  /-- Whether a key can begin here. -/
  keyAllowed : Bool := true

namespace Scan

def inFlow (s : Scan) : Bool := s.flowLevel != 0

def column (s : Scan) : Nat := (s.rest.head?.map (·.column)).getD 0

/-! ## Tokens and blocks -/

def emit (s : Scan) (t : Token) : Scan := { s with tokens := t :: s.tokens, count := s.count + 1 }

def insertAt (s : Scan) (position : Nat) (t : Token) : Scan :=
  let later := s.count - position
  { s with tokens := s.tokens.take later ++ t :: s.tokens.drop later, count := s.count + 1 }

def skip (s : Scan) (count : Nat) : Scan := { s with rest := s.rest.drop count }

def closeBlocks (s : Scan) (indent : Nat) : Scan :=
  if s.inFlow then s else go s s.outerIndents
where
  go (s : Scan) : List Nat → Scan
    | [] => s
    | outer :: more =>
      if indent < s.indent then go { s.emit .blockEnd with indent := outer, outerIndents := more } more
      else s

def openBlock (s : Scan) (column : Nat) (place : Scan → Scan) : Scan :=
  if !s.inFlow && s.indent < column + 1 then
    place { s with indent := column + 1, outerIndents := s.indent :: s.outerIndents }
  else s

/-! ## Possible keys -/

/-- No key is possible any more; a required one must not be lost. -/
def dropKey? (s : Scan) : Option Scan :=
  match s.keys with
  | some k :: keys => if k.required then none else some { s with keys := none :: keys }
  | _ => some s

/-- A key ends on its line, and within 1024 characters. -/
def KeyPlace.isStale (k : KeyPlace) (c : Cell) : Bool :=
  k.line < c.line || k.column + 1024 < c.column

def dropStaleKeys? (s : Scan) : Option Scan :=
  match s.rest with
  | [] => some s
  | c :: _ => do
    let keys ← s.keys.mapM fun key =>
      match key with
      | some k => if KeyPlace.isStale k c then (if k.required then none else some none) else some (some k)
      | none => some none
    some { s with keys }

def markKey? (s : Scan) : Option Scan :=
  match s.keyAllowed, s.rest with
  | true, c :: _ => do
    let dropped ← s.dropKey?
    let place : KeyPlace := {
      position := s.count
      line := c.line
      column := c.column
      required := !s.inFlow && s.indent == c.column + 1 }
    some { dropped with keys := some place :: dropped.keys.tail }
  | _, _ => some s

/-! ## One token -/

/-- Skips blanks, comments and line breaks. A new line of a block can begin with a key; a tab cannot
stand where a key can. -/
def skipGaps (flow : Bool) : (keyAllowed inComment : Bool) → List Cell → Bool × List Cell
  | keyAllowed, _, [] => (keyAllowed, [])
  | keyAllowed, inComment, c :: cs =>
    if isBreak c.char then skipGaps flow (keyAllowed || !flow) false cs
    else if inComment || c.char == ' ' || (c.char == '\t' && (flow || !keyAllowed)) then
      skipGaps flow keyAllowed inComment cs
    else if c.char == '#' then skipGaps flow keyAllowed true cs
    else (keyAllowed, c :: cs)

def outside? (s : Scan) : Option Scan := do
  some { ← (s.closeBlocks 0).dropKey? with keyAllowed := false }

def documentMark? (s : Scan) (t : Token) : Option Scan := do
  some ((← s.outside?).skip 3 |>.emit t)

def openFlow? (s : Scan) (t : Token) : Option Scan := do
  let s ← s.markKey?
  some ({ s with flowLevel := s.flowLevel + 1, keys := none :: s.keys, keyAllowed := true }.skip 1
    |>.emit t)

def closeFlow? (s : Scan) (t : Token) : Option Scan := do
  let s ← s.dropKey?
  let s := if s.inFlow then { s with flowLevel := s.flowLevel - 1, keys := s.keys.tail } else s
  some ({ s with keyAllowed := false }.skip 1 |>.emit t)

def comma? (s : Scan) : Option Scan := do
  some ({ ← s.dropKey? with keyAllowed := true }.skip 1 |>.emit .comma)

def item? (s : Scan) : Option Scan := do
  if s.inFlow || s.keyAllowed then
    let s := s.openBlock s.column (·.emit .blockSequence)
    some ({ ← s.dropKey? with keyAllowed := true }.skip 1 |>.emit .item)
  else none

def key? (s : Scan) : Option Scan := do
  if s.inFlow || s.keyAllowed then
    let s := s.openBlock s.column (·.emit .blockMapping)
    some ({ ← s.dropKey? with keyAllowed := !s.inFlow }.skip 1 |>.emit .key)
  else none

/-- The colon of a value. If a key is possible, the key was that. -/
def value? (s : Scan) : Option Scan :=
  match s.keys with
  | some k :: keys =>
    let s := s.insertAt k.position .key
    let s := s.openBlock k.column (·.insertAt k.position .blockMapping)
    some ({ s with keys := none :: keys, keyAllowed := false }.skip 1 |>.emit .value)
  | _ =>
    if s.inFlow || s.keyAllowed then
      let s := s.openBlock s.column (·.emit .blockMapping)
      some ({ s with keyAllowed := !s.inFlow }.skip 1 |>.emit .value)
    else none

def word? (s : Scan) (read : List Cell → Option (Token × List Cell)) : Option Scan := do
  let s ← s.markKey?
  let (t, rest) ← read s.rest
  some ({ s with rest, keyAllowed := false }.emit t)

def quoted? (s : Scan) (fuel : Nat) (single : Bool) : Option Scan :=
  s.word? fun cs => do
    let (text, rest) ← quotedText single fuel cs.tail
    some (.scalar .quoted (String.ofList text), rest)

def plain? (s : Scan) (fuel : Nat) : Option Scan := do
  let s ← s.markKey?
  let (text, broken, rest) ← plainText s.inFlow s.indent fuel s.rest
  some ({ s with rest, keyAllowed := broken }.emit (.scalar .plain (String.ofList text)))

def block? (s : Scan) (fuel : Nat) (literal : Bool) : Option Scan := do
  let s ← s.dropKey?
  let (text, rest) ← blockText literal s.indent fuel s.rest.tail
  some ({ s with rest, keyAllowed := true }.emit
    (.scalar (if literal then .literal else .folded) (String.ofList text)))

def marks : List Char :=
  ['-', '?', ':', ',', '[', ']', '{', '}', '#', '&', '*', '!', '|', '>', '\'', '"', '%', '@', '`']

/-- The token that begins with `c`, with `next` after it. The fuel bounds its characters. -/
def token? (s : Scan) (fuel : Nat) (c : Cell) (next : List Cell) : Option Scan :=
  let marked := s.inFlow || atGap next
  if c.column == 0 && c.char == '%' then do
    let s ← s.outside?
    let (t, rest) ← directive? fuel next
    some ({ s with rest }.emit t)
  else if atDocumentMark '-' s.rest then s.documentMark? .documentStart
  else if atDocumentMark '.' s.rest then s.documentMark? .documentEnd
  else if c.char == '[' then s.openFlow? .flowSequence
  else if c.char == '{' then s.openFlow? .flowMapping
  else if c.char == ']' then s.closeFlow? .flowSequenceEnd
  else if c.char == '}' then s.closeFlow? .flowMappingEnd
  else if c.char == ',' then s.comma?
  else if c.char == '-' && atGap next then s.item?
  else if c.char == '?' && marked then s.key?
  else if c.char == ':' && marked then s.value?
  else if c.char == '*' then s.word? fun cs => (anchorName? cs.tail).map fun r => (.alias r.1, r.2)
  else if c.char == '&' then s.word? fun cs => (anchorName? cs.tail).map fun r => (.anchor r.1, r.2)
  else if c.char == '!' then s.word? fun cs => tag? s.inFlow fuel cs
  else if c.char == '|' && !s.inFlow then s.block? fuel true
  else if c.char == '>' && !s.inFlow then s.block? fuel false
  else if c.char == '\'' then s.quoted? fuel true
  else if c.char == '"' then s.quoted? fuel false
  else if !isGapChar c.char && (!marks.contains c.char || c.char == '-' ||
      (!s.inFlow && (c.char == '?' || c.char == ':'))) then s.plain? fuel
  else none

def all? : (fuel : Nat) → Scan → Option (List Token)
  | 0, _ => none
  | fuel + 1, s =>
    let (keyAllowed, rest) := skipGaps s.inFlow s.keyAllowed false s.rest
    let s := { s with keyAllowed, rest }
    match rest with
    | [] => do
      let s ← (s.closeBlocks 0).dropKey?
      some s.tokens.reverse
    | c :: next => do
      let s ← s.dropStaleKeys?
      all? fuel (← (s.closeBlocks (c.column + 1)).token? (fuel + 1) c next)

end Scan

/-- The tokens of a text. A mark of the byte order may stand in front. -/
def tokens? (text : String) : Option (List Token) :=
  if text.toList.all isAdmitted then
    let cs := cells text
    let start := if cs.head?.any (fun c => c.char.toNat == 0xFEFF) then cs.tail else cs
    Scan.all? (start.length + 1) { rest := start }
  else none

end ApiDocs.Yaml
