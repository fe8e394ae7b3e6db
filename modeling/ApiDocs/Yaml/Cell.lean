/-!
# Characters in their places

A text to be read is a list of cells: every character with its line and column. A carriage return, a
line feed, both together and a next-line character are all one line feed; the line and paragraph
separators end a line and stay what they are.
-/

namespace ApiDocs.Yaml

structure Cell where
  char : Char
  line : Nat
  column : Nat
deriving Repr, DecidableEq

/-! ## Classes -/

def isBreak (c : Char) : Bool :=
  c == '\n' || c == '\r' || c.toNat == 0x85 || c.toNat == 0x2028 || c.toNat == 0x2029

def isSpaceOrTab (c : Char) : Bool := c == ' ' || c == '\t'

def isGapChar (c : Char) : Bool := isSpaceOrTab c || isBreak c

def isNameChar (c : Char) : Bool :=
  ('a' ≤ c && c ≤ 'z') || ('A' ≤ c && c ≤ 'Z') || ('0' ≤ c && c ≤ '9') || c == '_' || c == '-'

def isAdmitted (c : Char) : Bool :=
  let n := c.toNat
  n == 0x09 || n == 0x0A || n == 0x0D || (0x20 ≤ n && n ≤ 0x7E) || n == 0x85 ||
    (0xA0 ≤ n && n != 0xFFFE && n != 0xFFFF)

/-! ## Cells -/

def breakChar (c : Char) : Char := if c == '\r' || c.toNat == 0x85 then '\n' else c

def cellsFrom : (line column : Nat) → List Char → List Cell
  | line, column, '\r' :: '\n' :: cs => ⟨'\n', line, column⟩ :: cellsFrom (line + 1) 0 cs
  | line, column, c :: cs =>
    if isBreak c then ⟨breakChar c, line, column⟩ :: cellsFrom (line + 1) 0 cs
    else ⟨c, line, column⟩ :: cellsFrom line (column + 1) cs
  | _, _, [] => []

def cells (s : String) : List Cell := cellsFrom 0 0 s.toList

def chars (cs : List Cell) : List Char := cs.map (·.char)

/-- The next character is a gap, or there is none. -/
def atGap : List Cell → Bool
  | [] => true
  | c :: _ => isGapChar c.char

def atDocumentMark (mark : Char) : List Cell → Bool
  | a :: b :: c :: rest =>
    a.column == 0 && a.char == mark && b.char == mark && c.char == mark && atGap rest
  | _ => false

def atAnyDocumentMark (cs : List Cell) : Bool := atDocumentMark '-' cs || atDocumentMark '.' cs

def skipSpaces (cs : List Cell) : List Cell := cs.dropWhile fun c => isSpaceOrTab c.char

/-- The rest of a line that may hold a comment and nothing else, without its break. -/
def endOfLine? (cs : List Cell) : Option (List Cell) :=
  let rest := skipSpaces cs
  let rest := if rest.head?.any (fun c => c.char == '#') then rest.dropWhile (fun c => !isBreak c.char)
    else rest
  match rest with
  | [] => some []
  | c :: more => if isBreak c.char then some more else none

end ApiDocs.Yaml
