import ApiDocs.Yaml.Cell

/-!
# Scalars in a text

A line break inside a scalar is mostly folded: one break is a blank, and of several the first is
dropped.
-/

namespace ApiDocs.Yaml

def foldGap (gap : List Char) : List Char :=
  match gap.filter isBreak with
  | [] => gap
  | b :: more => if b == '\n' then (if more.isEmpty then [' '] else more) else b :: more

/-! ## Plain scalars -/

def flowMarks : List Char := [',', '[', ']', '{', '}']

/-- The characters up to a gap or to what ends a plain scalar. In a flow collection a colon may not
stand before a mark of the collection. -/
def plainWord (flow : Bool) : List Cell → Option (List Char × List Cell)
  | [] => some ([], [])
  | c :: rest =>
    if isGapChar c.char then some ([], c :: rest)
    else if flow && c.char == ':' && rest.head?.any (fun d => ('?' :: flowMarks).contains d.char) then
      none
    else if (c.char == ':' && atGap rest) || (flow && flowMarks.contains c.char) then
      some ([], c :: rest)
    else (plainWord flow rest).map fun r => (c.char :: r.1, r.2)

/-- A tab stands in front of the text of a line and left of the indentation. -/
def tabInIndentation (indent : Nat) (gap : List Cell) : Bool :=
  (gap.dropWhile fun c => !isBreak c.char).any fun c => c.char == '\t' && c.column < indent

def plainGoesOn (flow : Bool) (indent : Nat) : List Cell → Bool
  | [] => false
  | c :: rest =>
    (flow || indent ≤ c.column) && c.char != '#' && !atAnyDocumentMark (c :: rest)

/-- The words of a plain scalar, whether a line has ended behind it, and the rest. -/
def plainText (flow : Bool) (indent : Nat) :
    (fuel : Nat) → List Cell → Option (List Char × Bool × List Cell)
  | 0, _ => none
  | fuel + 1, cs => do
    let (word, rest) ← plainWord flow cs
    let gap := rest.takeWhile fun c => isGapChar c.char
    let after := rest.dropWhile fun c => isGapChar c.char
    let broken := gap.any fun c => isBreak c.char
    if tabInIndentation indent gap then none
    else if gap.isEmpty || !plainGoesOn flow indent after then some (word, broken, after)
    else
      let (more, brokenLater, rest) ← plainText flow indent fuel after
      if more.isEmpty then some (word, broken, rest)
      else some (word ++ foldGap (chars gap) ++ more, brokenLater, rest)

/-! ## Quoted scalars -/

def hexDigit? (c : Char) : Option Nat :=
  if '0' ≤ c ∧ c ≤ '9' then some (c.toNat - '0'.toNat)
  else if 'a' ≤ c ∧ c ≤ 'f' then some (c.toNat - 'a'.toNat + 10)
  else if 'A' ≤ c ∧ c ≤ 'F' then some (c.toNat - 'A'.toNat + 10)
  else none

def hexNumber? (digits : List Char) : Option Nat :=
  digits.foldlM (fun n c => (hexDigit? c).map (16 * n + ·)) 0

def codedChar? (digits : Nat) (cs : List Cell) : Option (Char × List Cell) := do
  let found := cs.take digits
  let n ← hexNumber? (chars found)
  if found.length = digits ∧ (n < 0xD800 ∨ 0xE000 ≤ n ∧ n ≤ 0x10FFFF) then
    some (Char.ofNat n, cs.drop digits)
  else none

def escape? : List Cell → Option (Char × List Cell)
  | [] => none
  | c :: rest =>
    match c.char with
    | '0' => some (Char.ofNat 0x00, rest)
    | 'a' => some (Char.ofNat 0x07, rest)
    | 'b' => some (Char.ofNat 0x08, rest)
    | 't' | '\t' => some ('\t', rest)
    | 'n' => some ('\n', rest)
    | 'v' => some (Char.ofNat 0x0B, rest)
    | 'f' => some (Char.ofNat 0x0C, rest)
    | 'r' => some ('\r', rest)
    | 'e' => some (Char.ofNat 0x1B, rest)
    | ' ' => some (' ', rest)
    | '"' => some ('"', rest)
    | '/' => some ('/', rest)
    | '\\' => some ('\\', rest)
    | 'N' => some (Char.ofNat 0x85, rest)
    | '_' => some (Char.ofNat 0xA0, rest)
    | 'L' => some (Char.ofNat 0x2028, rest)
    | 'P' => some (Char.ofNat 0x2029, rest)
    | 'x' => codedChar? 2 rest
    | 'u' => codedChar? 4 rest
    | 'U' => codedChar? 8 rest
    | _ => none

def quotedText (single : Bool) : (fuel : Nat) → List Cell → Option (List Char × List Cell)
  | 0, _ => none
  | _, [] => none
  | fuel + 1, c :: rest =>
    let onward (chars : List Char) (rest : List Cell) : Option (List Char × List Cell) :=
      (quotedText single fuel rest).map fun r => (chars ++ r.1, r.2)
    if atAnyDocumentMark (c :: rest) then none
    else if isGapChar c.char then
      onward (foldGap (chars ((c :: rest).takeWhile fun c => isGapChar c.char)))
        ((c :: rest).dropWhile fun c => isGapChar c.char)
    else if single then
      if c.char == '\'' then
        match rest with
        | d :: more => if d.char == '\'' then onward ['\''] more else some ([], rest)
        | [] => some ([], [])
      else onward [c.char] rest
    else if c.char == '"' then some ([], rest)
    else if c.char == '\\' then
      if rest.head?.any (fun d => isBreak d.char) then
        -- an escaped break vanishes with the blanks after it; further breaks stay
        let gap := rest.tail.takeWhile fun c => isGapChar c.char
        onward ((chars gap).filter isBreak) (rest.tail.dropWhile fun c => isGapChar c.char)
      else do
        let (d, rest) ← escape? rest
        onward [d] rest
    else onward [c.char] rest

/-! ## Block scalars -/

inductive Chomping where
  | strip
  | clip
  | keep
deriving Repr, DecidableEq

def chomping? (c : Char) : Option Chomping :=
  if c == '+' then some .keep else if c == '-' then some .strip else none

def indentDigit? (c : Char) : Option Nat :=
  if '0' ≤ c ∧ c ≤ '9' then some (c.toNat - '0'.toNat) else none

/-- The marks of a block scalar after its bar or angle, in either order; 0 stands for no indentation
mark, and cannot be one. -/
def blockMarks? : List Cell → Option (Chomping × Nat × List Cell)
  | [] => some (.clip, 0, [])
  | c :: rest =>
    match chomping? c.char, indentDigit? c.char with
    | some chomping, _ =>
      match rest with
      | d :: more =>
        match indentDigit? d.char with
        | some 0 => none
        | some n => some (chomping, n, more)
        | none => some (chomping, 0, rest)
      | [] => some (chomping, 0, [])
    | none, some 0 => none
    | none, some n =>
      match rest with
      | d :: more =>
        match chomping? d.char with
        | some chomping => some (chomping, n, more)
        | none => some (.clip, n, rest)
      | [] => some (.clip, n, [])
    | none, none => some (.clip, 0, c :: rest)

/-- Skips indentation and empty lines. An indentation of 0 is not known yet, and then `widest` finds
it: the result has the greatest column reached, the breaks and the rest. -/
def emptyLines? (indent : Nat) : (widest : Nat) → List Cell → Option (Nat × List Char × List Cell)
  | widest, [] => some (widest, [], [])
  | widest, c :: rest =>
    let indenting := indent == 0 || c.column < indent
    if indenting && c.char == ' ' then emptyLines? indent (max widest (c.column + 1)) rest
    else if indenting && c.char == '\t' then none
    else if isBreak c.char then
      (emptyLines? indent (max widest c.column) rest).map fun r => (r.1, c.char :: r.2.1, r.2.2)
    else some (max widest c.column, [], c :: rest)

/-- The lines of a block scalar. `ended` is the break of the line before, `empty` are those of the empty
lines since, and `indented` says that the line before began with a blank. -/
def blockLines (literal : Bool) (chomping : Chomping) (indent : Nat) :
    (fuel : Nat) → (ended empty : List Char) → (indented : Bool) → List Cell →
      Option (List Char × List Cell)
  | 0, _, _, _, _ => none
  | fuel + 1, ended, empty, indented, cs =>
    if cs.head?.any (fun c => c.column == indent) then do
      let blank := cs.head?.any fun c => isSpaceOrTab c.char
      let joint :=
        if !literal && ended == ['\n'] && !indented && !blank then
          (if empty.isEmpty then [' '] else [])
        else ended
      let line := cs.takeWhile fun c => !isBreak c.char
      let rest := cs.dropWhile fun c => !isBreak c.char
      let (_, emptyNext, after) ← emptyLines? indent 0 rest.tail
      let (more, after) ← blockLines literal chomping indent fuel (chars (rest.take 1)) emptyNext
        blank after
      some (joint ++ empty ++ chars line ++ more, after)
    else
      let ending := match chomping with
        | .strip => []
        | .clip => ended
        | .keep => ended ++ empty
      some (ending, cs)

/-- The text of a block scalar after its bar or angle; `outer` is the column after which its lines can
begin. -/
def blockText (literal : Bool) (outer : Nat) (fuel : Nat) (cs : List Cell) :
    Option (List Char × List Cell) := do
  let (chomping, mark, rest) ← blockMarks? cs
  let rest ← endOfLine? rest
  let given := if mark = 0 then 0 else if outer = 0 then mark else outer - 1 + mark
  let (widest, empty, rest) ← emptyLines? given 0 rest
  let indent := if given = 0 then max widest (max outer 1) else given
  blockLines literal chomping indent fuel [] empty false rest

end ApiDocs.Yaml
