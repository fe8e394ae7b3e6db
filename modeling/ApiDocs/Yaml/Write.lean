import ApiDocs.Data.Tree
import ApiDocs.Yaml.Scalar

/-!
# Writing YAML

Block style with two blanks for each level; a list stands at the indentation of its key. A text is
written plainly if it reads back as itself, else between single quotes, and between double quotes
where it holds characters that have to be escaped. A text with line feeds is a literal block.
-/

namespace ApiDocs.Yaml

/-! ## Characters -/

def isPrintedBreak (c : Char) : Bool := c == '\n' || c.toNat == 0x2028 || c.toNat == 0x2029

def isPrintable (c : Char) : Bool :=
  let n := c.toNat
  n == 0x0A || (0x20 ≤ n && n ≤ 0x7E) ||
    (0xA0 ≤ n && n != 0xFEFF && n != 0xFFFE && n != 0xFFFF)

/-- Blanks and breaks, and the end of the text. -/
def isGap : Option Char → Bool
  | none => true
  | some c =>
    c == ' ' || c == '\t' || c == '\r' || isPrintedBreak c || c.toNat == 0x85 || c.toNat == 0

/-! ## What a text admits -/

def openers : List Char :=
  ['#', ',', '[', ']', '{', '}', '&', '*', '!', '|', '>', '\'', '"', '%', '@', '`']

def startsAsMarkup : List Char → Bool
  | '-' :: '-' :: '-' :: _ => true
  | '.' :: '.' :: '.' :: _ => true
  | c :: cs => openers.contains c || ((c == '?' || c == ':' || c == '-') && isGap cs.head?)
  | [] => false

/-- Somewhere after the first character a colon ends a word or a hash begins one; `before` is the
character in front. -/
def holdsMarkup : (before : Char) → List Char → Bool
  | _, [] => false
  | before, c :: cs =>
    (c == ':' && isGap cs.head?) || (c == '#' && isGap (some before)) || holdsMarkup c cs

def anyPair (p : Char → Char → Bool) : List Char → Bool
  | a :: b :: cs => p a b || anyPair p (b :: cs)
  | _ => false

structure Manner where
  multiline : Bool
  plain : Bool
  single : Bool
  block : Bool

def manner (cs : List Char) : Manner :=
  let markup := startsAsMarkup cs || match cs with
    | c :: rest => holdsMarkup c rest
    | [] => false
  let breaks := cs.any isPrintedBreak || cs.any (fun c => c == '\r' || c.toNat == 0x85)
  let isBreak (c : Char) : Bool := isPrintedBreak c || c == '\r' || c.toNat == 0x85
  let spaceFirst := cs.head? == some ' '
  let spaceLast := cs.getLast? == some ' '
  let breakSpace := anyPair (fun a b => isBreak a && b == ' ') cs
  let spaceBreak := anyPair (fun a b => a == ' ' && isBreak b) cs
  let special := !cs.all isPrintable
  { multiline := breaks
    plain := !(markup || breaks || spaceFirst || spaceLast || special)
    single := !(breakSpace || spaceBreak || special)
    block := !(spaceLast || spaceBreak || special) }

inductive Style where
  | plain
  | single
  | double
  | literal
deriving Repr, DecidableEq

def style (s : String) : Style :=
  let m := manner s.toList
  if s.toList.contains '\n' then if m.block then .literal else .double
  else if !needsQuotes s && m.plain then .plain
  else if m.single then .single
  else .double

/-! ## Scalars -/

def spaces (n : Nat) : List Char := List.replicate n ' '

/-- The characters between single quotes: a quote is doubled, and a line begins at the
indentation. -/
def singleBody (indent : Nat) : (broken : Bool) → List Char → List Char
  | broken, [] => if broken then spaces indent else []
  | broken, c :: cs =>
    if isPrintedBreak c then c :: singleBody indent true cs
    else (if broken then spaces indent else []) ++
      (if c = '\'' then ['\'', '\''] else [c]) ++ singleBody indent false cs

def hexDigit (n : Nat) : Char := if n < 10 then Char.ofNat (n + 48) else Char.ofNat (n + 55)

def hexDigits : (width n : Nat) → List Char
  | 0, _ => []
  | width + 1, n => hexDigits width (n / 16) ++ [hexDigit (n % 16)]

def letterEscapes : List (Char × Char) := [
  ('\t', 't'), ('\n', 'n'), ('\r', 'r'), ('"', '"'), ('\\', '\\'),
  (Char.ofNat 0x00, '0'), (Char.ofNat 0x07, 'a'), (Char.ofNat 0x08, 'b'), (Char.ofNat 0x0B, 'v'),
  (Char.ofNat 0x0C, 'f'), (Char.ofNat 0x1B, 'e'), (Char.ofNat 0x85, 'N'), (Char.ofNat 0xA0, '_'),
  (Char.ofNat 0x2028, 'L'), (Char.ofNat 0x2029, 'P')]

def escapeCode (c : Char) : List Char :=
  match letterEscapes.lookup c with
  | some letter => [letter]
  | none =>
    if c.toNat ≤ 0xFF then 'x' :: hexDigits 2 c.toNat
    else if c.toNat ≤ 0xFFFF then 'u' :: hexDigits 4 c.toNat
    else 'U' :: hexDigits 8 c.toNat

def doubleBody (cs : List Char) : List Char :=
  cs.flatMap fun c =>
    if !isPrintable c || isPrintedBreak c || c == '"' || c == '\\' then '\\' :: escapeCode c else [c]

/-- The marks after the bar of a literal block: the indentation if the text begins with a blank or a
break, and what becomes of the line feeds at its end. -/
def literalHints (cs : List Char) : List Char :=
  let indentation := match cs with
    | c :: _ => if c == ' ' || isPrintedBreak c then ['2'] else []
    | [] => []
  let ending := match cs.reverse with
    | [] => ['-']
    | [c] => if isPrintedBreak c then ['+'] else ['-']
    | c :: d :: _ => if !isPrintedBreak c then ['-'] else if isPrintedBreak d then ['+'] else []
  indentation ++ ending

/-- The lines of a literal block; only lines with text are indented. -/
def literalBody (indent : Nat) : (broken : Bool) → List Char → List Char
  | broken, [] => if broken then [] else ['\n']
  | broken, c :: cs =>
    if isPrintedBreak c then c :: literalBody indent true cs
    else (if broken then spaces indent else []) ++ c :: literalBody indent false cs

/-- A text whose lines are indented by `indent`, with the end of its last line. -/
def scalarChars (indent : Nat) (s : String) : List Char :=
  match style s with
  | .plain => s.toList ++ ['\n']
  | .single => '\'' :: singleBody indent false s.toList ++ ['\'', '\n']
  | .double => '"' :: doubleBody s.toList ++ ['"', '\n']
  | .literal => '|' :: literalHints s.toList ++ '\n' :: literalBody indent true s.toList

def isSimpleKey (s : String) : Bool := s.utf8ByteSize ≤ 128 && !(manner s.toList).multiline

/-- A simple key without the end of a line. -/
def keyChars (indent : Nat) (s : String) : List Char := (scalarChars indent s).dropLast

/-! ## Trees -/

mutual
/-- The fields of an object at an indentation. `started` says that the first one stands on a line that
is already indented. -/
def objectChars (indent : Nat) : (started : Bool) → List (String × Tree) → List Char
  | _, [] => []
  | started, (k, t) :: fs =>
    (if started then [] else spaces indent) ++
    (if isSimpleKey k then keyChars (indent + 2) k ++ ':' :: fieldChars indent t
     else '?' :: ' ' :: scalarChars (indent + 2) k ++ spaces indent ++ ':' :: ' ' ::
       entryChars indent t) ++
    objectChars indent false fs
def fieldChars (indent : Nat) : Tree → List Char
  | .object (f :: fs) => '\n' :: objectChars (indent + 2) false (f :: fs)
  | .list (t :: ts) => '\n' :: listChars indent false (t :: ts)
  | .object [] => [' ', '{', '}', '\n']
  | .list [] => [' ', '[', ']', '\n']
  | .text s => ' ' :: scalarChars (indent + 2) s
  | .flag b => ' ' :: (if b then "true".toList else "false".toList) ++ ['\n']
  | .number n => ' ' :: (toString n).toList ++ ['\n']
def listChars (indent : Nat) : (started : Bool) → List Tree → List Char
  | _, [] => []
  | started, t :: ts =>
    (if started then [] else spaces indent) ++ '-' :: ' ' :: entryChars indent t ++
    listChars indent false ts
/-- What follows a dash, or the colon of a key on a line of its own. -/
def entryChars (indent : Nat) : Tree → List Char
  | .object (f :: fs) => objectChars (indent + 2) true (f :: fs)
  | .list (t :: ts) => listChars (indent + 2) true (t :: ts)
  | .object [] => ['{', '}', '\n']
  | .list [] => ['[', ']', '\n']
  | .text s => scalarChars (indent + 2) s
  | .flag b => (if b then "true".toList else "false".toList) ++ ['\n']
  | .number n => (toString n).toList ++ ['\n']
end

def render (t : Tree) : String :=
  match t with
  | .object (f :: fs) => String.ofList (objectChars 0 false (f :: fs))
  | .list (t :: ts) => String.ofList (listChars 0 false (t :: ts))
  | t => String.ofList (entryChars 0 t)

end ApiDocs.Yaml
