import ApiDocs.Source.Token
import ApiDocs.Text.Blank
import ApiDocs.Text.Identifier

/-!
# From source text to tokens

Blanks and plain comments are skipped, documentation comments become attributes, and every bracket
has to close in its turn.
-/

namespace ApiDocs.Source.Lexer

open Text

def startsWith (s : String) (cs : List Char) : Bool := s.toList.isPrefixOf cs

/-! ## Comments -/

def line : List Char → List Char × List Char
  | [] => ([], [])
  | '\n' :: cs => ([], '\n' :: cs)
  | '\r' :: '\n' :: cs => ([], '\n' :: cs)
  | c :: cs => let (l, rest) := line cs; (c :: l, rest)

/-- Reads a block comment to the end of its outermost level; `depth` levels are open. The first
component is the text read, closing marks included. -/
def blockComment : (depth : Nat) → List Char → Option (List Char × List Char)
  | depth, '/' :: '*' :: cs =>
    (blockComment (depth + 1) cs).map fun r => ('/' :: '*' :: r.1, r.2)
  | depth, '*' :: '/' :: cs =>
    if depth ≤ 1 then some (['*', '/'], cs)
    else (blockComment (depth - 1) cs).map fun r => ('*' :: '/' :: r.1, r.2)
  | depth, c :: cs => (blockComment depth cs).map fun r => (c :: r.1, r.2)
  | _, [] => none

/-- Blanks between tokens; the two direction marks count. -/
def isSpace (c : Char) : Bool := isBlank c || c.toNat == 0x200E || c.toNat == 0x200F

def skipOne (cs : List Char) : Option (List Char) :=
  if startsWith "//" cs && (!startsWith "///" cs || startsWith "////" cs) && !startsWith "//!" cs then
    some (line cs).2
  else if startsWith "/**/" cs then some (cs.drop 4)
  else if startsWith "/*" cs && (!startsWith "/**" cs || startsWith "/***" cs) &&
      !startsWith "/*!" cs then
    (blockComment 1 (cs.drop 2)).map (·.2)
  else match cs with
    | c :: rest => if isSpace c then some rest else none
    | [] => none

def skipSpace : (fuel : Nat) → List Char → List Char
  | 0, cs => cs
  | fuel + 1, cs =>
    match skipOne cs with
    | some rest => skipSpace fuel rest
    | none => cs

/-- A carriage return in a documentation comment stands before a line feed only. -/
def noBareReturn : List Char → Bool
  | [] => true
  | '\r' :: '\n' :: cs => noBareReturn cs
  | '\r' :: _ => false
  | _ :: cs => noBareReturn cs

/-- The inside of a block comment from which the opening marks are already gone. -/
def blockText (cs : List Char) : Option (List Char × List Char) :=
  (blockComment 1 cs).map fun r => (r.1.dropLast.dropLast, r.2)

/-- A documentation comment: whether it documents what encloses it, its text, and the rest. -/
def docComment (cs : List Char) : Option (Bool × List Char × List Char) :=
  let found :=
    if startsWith "//!" cs then some (true, line (cs.drop 3))
    else if startsWith "/*!" cs then (blockText (cs.drop 3)).map fun r => (true, r)
    else if startsWith "///" cs && !startsWith "////" cs then some (false, line (cs.drop 3))
    else if startsWith "/**" cs && !startsWith "/***" cs then
      (blockText (cs.drop 3)).map fun r => (false, r)
    else none
  match found with
  | some (inner, text, rest) => if noBareReturn text then some (inner, text, rest) else none
  | none => none

/-! ## Identifiers -/

def plainWord : List Char → Option (List Char × List Char)
  | c :: cs =>
    if isIdentStart c then some (c :: cs.takeWhile isIdentContinue, cs.dropWhile isIdentContinue)
    else none
  | [] => none

def rawForbidden : List String := ["_", "super", "self", "Self", "crate"]

def word (cs : List Char) : Option (String × List Char) :=
  if startsWith "r#" cs then
    match plainWord (cs.drop 2) with
    | some (w, rest) =>
      if rawForbidden.contains (String.ofList w) then none
      else some ("r#" ++ String.ofList w, rest)
    | none => none
  else (plainWord cs).map fun r => (String.ofList r.1, r.2)

def literalOpenings : List String :=
  ["r\"", "r#\"", "r##", "b\"", "b'", "br\"", "br#", "c\"", "cr\"", "cr#"]

def identifier (cs : List Char) : Option (String × List Char) :=
  if literalOpenings.any (startsWith · cs) then none else word cs

def dropSuffix (cs : List Char) : List Char :=
  match plainWord cs with
  | some (_, rest) => rest
  | none => cs

/-! ## Quoted literals -/

/-- What stands between the quotes: characters, bytes, or characters without NUL. -/
inductive Alphabet where
  | chars
  | bytes
  | nonzero
deriving DecidableEq

def hexDigit? (c : Char) : Option Nat :=
  if '0' ≤ c ∧ c ≤ '9' then some (c.toNat - '0'.toNat)
  else if 'a' ≤ c ∧ c ≤ 'f' then some (c.toNat - 'a'.toNat + 10)
  else if 'A' ≤ c ∧ c ≤ 'F' then some (c.toNat - 'A'.toNat + 10)
  else none

def scalar? (n : Nat) : Option Char :=
  if n < 0xD800 ∨ (0xDFFF < n ∧ n < 0x110000) then some (Char.ofNat n) else none

/-- The character of `\xHH`. -/
def hexEscape? (alphabet : Alphabet) (a b : Char) : Option Char :=
  match hexDigit? a, hexDigit? b with
  | some x, some y =>
    let n := 16 * x + y
    match alphabet with
    | .chars => if n < 0x80 then some (Char.ofNat n) else none
    | .bytes => some (Char.ofNat n)
    | .nonzero => if n = 0 then none else some (Char.ofNat n)
  | _, _ => none

def letterEscape? (alphabet : Alphabet) : Char → Option Char
  | 'n' => some '\n'
  | 'r' => some '\r'
  | 't' => some '\t'
  | '\\' => some '\\'
  | '\'' => some '\''
  | '"' => some '"'
  | '0' => if alphabet = .nonzero then none else some (Char.ofNat 0)
  | _ => none

def allowed (alphabet : Alphabet) (c : Char) : Bool :=
  match alphabet with
  | .chars => true
  | .bytes => c.toNat < 0x80
  | .nonzero => c.toNat ≠ 0

/-- The digits of `\u{…}` up to the closing brace; `value` is what `count` digits have given. -/
def unicodeEscape : (value count : Nat) → List Char → Option (Char × List Char)
  | value, count, c :: cs =>
    match hexDigit? c with
    | some d => if count = 6 then none else unicodeEscape (16 * value + d) (count + 1) cs
    | none =>
      if count = 0 then none
      else if c = '_' then unicodeEscape value count cs
      else if c.toNat = 0x7D then (scalar? value).map fun ch => (ch, cs)
      else none
  | _, _, [] => none

def isLineSpace (c : Char) : Bool := c == ' ' || c == '\t' || c == '\n' || c == '\r'

/-- Every carriage return among the skipped blanks stands before a line feed. -/
def lineSpaceOk (cs : List Char) : Bool := noBareReturn (cs.takeWhile isLineSpace)

/-- The value of a quoted text up to its closing quote, and the rest. A backslash at the end of a
line skips the blanks after it. -/
def quoted (alphabet : Alphabet) : (fuel : Nat) → List Char → Option (List Char × List Char)
  | 0, _ => none
  | fuel + 1, cs =>
    let push (c : Char) (rest : List Char) :=
      (quoted alphabet fuel rest).map fun r => (c :: r.1, r.2)
    match cs with
    | [] => none
    | '"' :: rest => some ([], rest)
    | '\r' :: '\n' :: rest => push '\n' rest
    | '\r' :: _ => none
    | '\\' :: 'x' :: a :: b :: rest =>
      match hexEscape? alphabet a b with
      | some c => push c rest
      | none => none
    | '\\' :: 'u' :: b :: rest =>
      if alphabet = .bytes ∨ b.toNat ≠ 0x7B then none
      else match unicodeEscape 0 0 rest with
        | some (c, rest) => if allowed alphabet c then push c rest else none
        | none => none
    | '\\' :: '\n' :: rest =>
      if lineSpaceOk rest then quoted alphabet fuel (rest.dropWhile isLineSpace) else none
    | '\\' :: '\r' :: '\n' :: rest =>
      if lineSpaceOk rest then quoted alphabet fuel (rest.dropWhile isLineSpace) else none
    | '\\' :: c :: rest =>
      match letterEscape? alphabet c with
      | some c => push c rest
      | none => none
    | c :: rest => if allowed alphabet c then push c rest else none

/-- The text of a raw literal whose closing quote is followed by `hashes`. -/
def rawText (alphabet : Alphabet) (hashes : List Char) : List Char → Option (List Char × List Char)
  | [] => none
  | '\r' :: '\n' :: cs => (rawText alphabet hashes cs).map fun r => ('\r' :: '\n' :: r.1, r.2)
  | '\r' :: _ => none
  | c :: cs =>
    if c = '"' ∧ hashes.isPrefixOf cs then some ([], cs.drop hashes.length)
    else if allowed alphabet c then (rawText alphabet hashes cs).map fun r => (c :: r.1, r.2)
    else none

def rawQuoted (alphabet : Alphabet) (cs : List Char) : Option (List Char × List Char) :=
  let hashes := cs.takeWhile (· == '#')
  match cs.drop hashes.length with
  | '"' :: rest => if hashes.length ≤ 255 then rawText alphabet hashes rest else none
  | _ => none

def closeChar : List Char → Option (List Char)
  | '\'' :: rest => some (dropSuffix rest)
  | _ => none

def charLiteral (alphabet : Alphabet) : List Char → Option (List Char)
  | '\\' :: 'x' :: a :: b :: rest =>
    if (hexEscape? alphabet a b).isSome then closeChar rest else none
  | '\\' :: 'u' :: b :: rest =>
    if alphabet = .bytes ∨ b.toNat ≠ 0x7B then none
    else match unicodeEscape 0 0 rest with
      | some (_, rest) => closeChar rest
      | none => none
  | '\\' :: c :: rest => if (letterEscape? alphabet c).isSome then closeChar rest else none
  | c :: rest => if allowed alphabet c then closeChar rest else none
  | [] => none

/-! ## Numbers -/

def isDigit (c : Char) : Bool := '0' ≤ c && c ≤ '9'

def isDigitOrUnderscore (c : Char) : Bool := isDigit c || c == '_'

/-- No identifier goes on where a number ends. -/
def wordBreak (cs : List Char) : Bool :=
  match cs with
  | c :: _ => !isIdentContinue c
  | [] => true

def exponent (cs : List Char) : Option (List Char × List Char) :=
  let blank := cs.takeWhile (· == '_')
  let afterBlank := cs.drop blank.length
  let (sign, body) := match afterBlank with
    | c :: rest => if c = '+' ∨ c = '-' then ([c], rest) else ([], afterBlank)
    | [] => ([], [])
  let digits := body.takeWhile isDigitOrUnderscore
  if digits.any isDigit then some (blank ++ sign ++ digits, body.drop digits.length) else none

/-- The digits of a float: a point or an exponent has to be there, and the point has to be followed
by neither a second point nor an identifier. -/
def floatDigits (cs : List Char) : Option (List Char × List Char) :=
  match cs with
  | c :: _ =>
    if !isDigit c then none
    else
      let whole := cs.takeWhile isDigitOrUnderscore
      let afterWhole := cs.drop whole.length
      match afterWhole with
      | '.' :: afterPoint =>
        let follows := match afterPoint with
          | d :: _ => d == '.' || isIdentStart d
          | [] => false
        if follows then none
        else
          let fraction := afterPoint.takeWhile isDigitOrUnderscore
          let afterFraction := afterPoint.drop fraction.length
          let plain := (whole ++ '.' :: fraction, afterFraction)
          match afterFraction with
          | e :: afterE =>
            if e = 'e' ∨ e = 'E' then
              match exponent afterE with
              | some (x, rest) => some (whole ++ '.' :: fraction ++ e :: x, rest)
              | none => some plain
            else some plain
          | [] => some plain
      | e :: afterE =>
        if e = 'e' ∨ e = 'E' then
          (exponent afterE).map fun r => (whole ++ e :: r.1, r.2)
        else none
      | [] => none
  | [] => none

def float (cs : List Char) : Option (String × List Char) :=
  match floatDigits cs with
  | some (digits, rest) =>
    let suffix := (plainWord rest).getD ([], rest)
    if wordBreak suffix.2 then some (String.ofList (digits ++ suffix.1), suffix.2) else none
  | none => none

def digitBelow (base : Nat) (c : Char) : Bool :=
  match hexDigit? c with
  | some d => d < base
  | none => false

/-- The digits of an integer after the mark of its base. A decimal digit beyond the base is wrong,
a letter beyond it begins the suffix. -/
def baseDigits (base : Nat) (cs : List Char) : Option (List Char × List Char) :=
  let digits := cs.takeWhile fun c => digitBelow base c || c == '_'
  let rest := cs.drop digits.length
  let beyond := match rest with
    | c :: _ => isDigit c
    | [] => false
  let early := base == 10 && digits.head? == some '_'
  if beyond || early || !digits.any (· != '_') then none else some (digits, rest)

def integer (cs : List Char) : Option (String × List Char) :=
  let found :=
    if startsWith "0x" cs then (baseDigits 16 (cs.drop 2)).map fun r => ("0x".toList ++ r.1, r.2)
    else if startsWith "0o" cs then (baseDigits 8 (cs.drop 2)).map fun r => ("0o".toList ++ r.1, r.2)
    else if startsWith "0b" cs then (baseDigits 2 (cs.drop 2)).map fun r => ("0b".toList ++ r.1, r.2)
    else baseDigits 10 cs
  match found with
  | some (digits, rest) =>
    let suffix := (plainWord rest).getD ([], rest)
    if wordBreak suffix.2 then some (String.ofList (digits ++ suffix.1), suffix.2) else none
  | none => none

/-! ## Literals -/

def textLiteral (r : Option (List Char × List Char)) : Option (Literal × List Char) :=
  r.map fun r => (.text (String.ofList r.1), dropSuffix r.2)

def otherLiteral (r : Option (List Char × List Char)) : Option (Literal × List Char) :=
  r.map fun r => (.other, dropSuffix r.2)

def literal (cs : List Char) : Option (Literal × List Char) :=
  let string := match cs with
    | '"' :: rest => textLiteral (quoted .chars (rest.length + 1) rest)
    | 'r' :: rest => textLiteral (rawQuoted .chars rest)
    | 'b' :: '"' :: rest => otherLiteral (quoted .bytes (rest.length + 1) rest)
    | 'b' :: 'r' :: rest => otherLiteral (rawQuoted .bytes rest)
    | 'c' :: '"' :: rest => otherLiteral (quoted .nonzero (rest.length + 1) rest)
    | 'c' :: 'r' :: rest => otherLiteral (rawQuoted .nonzero rest)
    | 'b' :: '\'' :: rest => (charLiteral .bytes rest).map fun r => (.other, r)
    | '\'' :: rest => (charLiteral .chars rest).map fun r => (.other, r)
    | _ => none
  string <|> (float cs).map (fun r => (.float r.1, r.2)) <|>
    (integer cs).map fun r => (.integer r.1, r.2)

/-! ## Punctuation -/

def punctuation : List Char := "~!@#$%^&*-=+|;:,<.>/?'".toList

/-- A slash that opens a comment is no punctuation. -/
def punctChar : List Char → Option Char
  | cs@(c :: _) =>
    if startsWith "//" cs || startsWith "/*" cs then none
    else if punctuation.contains c then some c else none
  | [] => none

def punct (cs : List Char) : Option (Token × List Char) :=
  match punctChar cs with
  | none => none
  | some '\'' =>
    match word (cs.drop 1) with
    | none => none
    | some (name, rest) =>
      if startsWith "'" rest || (startsWith "#" rest && !startsWith "r#" (cs.drop 1)) then none
      else some (.lifetime name, rest)
  | some c => some (.punct c (punctChar (cs.drop 1)).isSome, cs.drop 1)

/-! ## Token trees -/

def opening? : Char → Option Delimiter
  | '(' => some .paren
  | '[' => some .bracket
  | '{' => some .brace
  | _ => none

def closing? : Char → Option Delimiter
  | ')' => some .paren
  | ']' => some .bracket
  | '}' => some .brace
  | _ => none

inductive Lexeme where
  | opening (d : Delimiter)
  | closing (d : Delimiter)
  | tokens (ts : List Token)

def lexeme (cs : List Char) : Option (Lexeme × List Char) :=
  match docComment cs with
  | some (inner, text, rest) => some (.tokens (Token.docComment inner (String.ofList text)), rest)
  | none =>
    match cs with
    | [] => none
    | c :: rest =>
      match opening? c, closing? c with
      | some d, _ => some (.opening d, rest)
      | _, some d => some (.closing d, rest)
      | none, none =>
        (literal cs).map (fun r => (.tokens [.literal r.1], r.2)) <|>
          (punct cs).map (fun r => (.tokens [r.1], r.2)) <|>
          (identifier cs).map fun r => (.tokens [.word r.1], r.2)

/-- An open group: its delimiter and the tokens before it at its own level, last first. -/
abbrev Frame := Delimiter × List Token

/-- Reads lexemes into token trees; `level` are the tokens of the current level, last first. -/
def trees : (fuel : Nat) → List Frame → (level : List Token) → List Char → Option (List Token)
  | 0, _, _, _ => none
  | fuel + 1, frames, level, cs =>
    match skipSpace (fuel + 1) cs with
    | [] => if frames.isEmpty then some level.reverse else none
    | cs =>
      match lexeme cs with
      | none => none
      | some (.opening d, rest) => trees fuel ((d, level) :: frames) [] rest
      | some (.closing d, rest) =>
        match frames with
        | (d', outer) :: frames =>
          if d = d' then trees fuel frames (.group d level.reverse :: outer) rest else none
        | [] => none
      | some (.tokens ts, rest) => trees fuel frames (ts.reverse ++ level) rest

end ApiDocs.Source.Lexer

namespace ApiDocs.Source

open Lexer

def dropMark : List Char → List Char
  | c :: cs => if c.toNat = 0xFEFF then cs else c :: cs
  | [] => []

/-- The token trees of a text. A byte order mark at its front is dropped. -/
def tokens? (cs : List Char) : Option (List Token) :=
  let cs := dropMark cs
  trees (cs.length + 1) [] [] cs

/-- Drops a first line that names an interpreter. -/
def dropShebang (cs : List Char) : List Char :=
  if startsWith "#!" cs then
    let rest := skipSpace (cs.length + 1) (cs.drop 2)
    if startsWith "[" rest then cs else cs.dropWhile (· != '\n')
  else cs

def fileTokens? (text : String) : Option (List Token) :=
  tokens? (dropShebang (dropMark text.toList))

end ApiDocs.Source
