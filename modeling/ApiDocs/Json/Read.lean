import ApiDocs.Data.Readable
import ApiDocs.Word

/-!
# Reading JSON
-/

namespace ApiDocs.Json

def isSpace (c : Char) : Bool := c == ' ' || c == '\n' || c == '\t' || c == '\r'

def skipSpace (cs : List Char) : List Char := cs.dropWhile isSpace

/-! ## Texts -/

def hexValue? (c : Char) : Option Nat :=
  if '0' ≤ c ∧ c ≤ '9' then some (c.toNat - '0'.toNat)
  else if 'a' ≤ c ∧ c ≤ 'f' then some (c.toNat - 'a'.toNat + 10)
  else if 'A' ≤ c ∧ c ≤ 'F' then some (c.toNat - 'A'.toNat + 10)
  else none

def hex4? (a b c d : Char) : Option Nat := do
  return 4096 * (← hexValue? a) + 256 * (← hexValue? b) + 16 * (← hexValue? c) + (← hexValue? d)

def letterEscape? : Char → Option Char
  | '"' => some '"'
  | '\\' => some '\\'
  | '/' => some '/'
  | 'b' => some (Char.ofNat 8)
  | 'f' => some (Char.ofNat 12)
  | 'n' => some '\n'
  | 'r' => some '\r'
  | 't' => some '\t'
  | _ => none

/-- The code points and surrogates of a text up to its closing quote, and the rest. -/
def units : List Char → Option (List Nat × List Char)
  | '"' :: rest => some ([], rest)
  | '\\' :: 'u' :: a :: b :: c :: d :: rest =>
    match hex4? a b c d, units rest with
    | some n, some (ns, rest) => some (n :: ns, rest)
    | _, _ => none
  | '\\' :: c :: rest =>
    match letterEscape? c, units rest with
    | some c, some (ns, rest) => some (c.toNat :: ns, rest)
    | _, _ => none
  | c :: rest =>
    if c.toNat < 32 then none else (units rest).map fun r => (c.toNat :: r.1, r.2)
  | [] => none

/-- Joins surrogate pairs; a surrogate without its partner is no character. -/
def joinSurrogates : List Nat → Option (List Char)
  | [] => some []
  | n :: ns =>
    if n < 0xD800 ∨ 0xE000 ≤ n then (joinSurrogates ns).map (Char.ofNat n :: ·)
    else if n < 0xDC00 then
      match ns with
      | m :: ns =>
        if 0xDC00 ≤ m ∧ m < 0xE000 then
          (joinSurrogates ns).map
            (Char.ofNat (0x10000 + 0x400 * (n - 0xD800) + (m - 0xDC00)) :: ·)
        else none
      | [] => none
    else none

def text (cs : List Char) : Option (Datum × List Char) :=
  (units cs).map fun r =>
    match joinSurrogates r.1 with
    | some chars => (.text (String.ofList chars), r.2)
    | none => (.brokenText, r.2)

/-! ## Numbers -/

def isDigit (c : Char) : Bool := '0' ≤ c && c ≤ '9'

def digitsValue (cs : List Char) : Nat := cs.foldl (fun n c => 10 * n + (c.toNat - '0'.toNat)) 0

/-- The digits after a point: whether there are any, and the rest. -/
def fraction : List Char → Option (Bool × List Char)
  | '.' :: rest =>
    if (rest.takeWhile isDigit).isEmpty then none else some (true, rest.dropWhile isDigit)
  | cs => some (false, cs)

def exponent : List Char → Option (Bool × List Char)
  | cs@(e :: rest) =>
    if e = 'e' ∨ e = 'E' then
      let rest := match rest with
        | s :: digits => if s = '+' ∨ s = '-' then digits else rest
        | [] => []
      if (rest.takeWhile isDigit).isEmpty then none else some (true, rest.dropWhile isDigit)
    else some (false, cs)
  | [] => some (false, [])

/-- A number. An integer is one that fits in 64 bits, with or without a sign. -/
def number (cs : List Char) : Option (Datum × List Char) := do
  let (negative, body) := match cs with
    | '-' :: rest => (true, rest)
    | _ => (false, cs)
  let digits := body.takeWhile isDigit
  let wellFormed := match digits with
    | [] => false
    | '0' :: more => more.isEmpty
    | _ => true
  if !wellFormed then none
  else
    let (fractional, rest) ← fraction (body.dropWhile isDigit)
    let (scaled, rest) ← exponent rest
    let n := digitsValue digits
    let datum : Datum :=
      if fractional || scaled then .real
      else if negative then
        if n ≠ 0 ∧ Word.Signed 64 (-(n : Int)) then .integer (-(n : Int)) else .real
      else if Word.Unsigned 64 n then .integer n else .real
    return (datum, rest)

/-! ## Values -/

def literal (word : String) (d : Datum) (cs : List Char) : Option (Datum × List Char) :=
  if word.toList.isPrefixOf cs then some (d, cs.drop word.length) else none

mutual
/-- A value after blanks. The fuel bounds how many values and entries are read. -/
def value : (fuel : Nat) → List Char → Option (Datum × List Char)
  | 0, _ => none
  | fuel + 1, cs =>
    match skipSpace cs with
    | '"' :: rest => text rest
    | '[' :: rest =>
      match skipSpace rest with
      | ']' :: rest => some (.list [], rest)
      | rest => (items fuel rest).map fun r => (.list r.1, r.2)
    | '{' :: rest =>
      match skipSpace rest with
      | '}' :: rest => some (.mapping [], rest)
      | rest => (entries fuel rest).map fun r => (.mapping r.1, r.2)
    | cs@('n' :: _) => literal "null" .null cs
    | cs@('t' :: _) => literal "true" (.flag true) cs
    | cs@('f' :: _) => literal "false" (.flag false) cs
    | cs => number cs
def items : (fuel : Nat) → List Char → Option (List Datum × List Char)
  | 0, _ => none
  | fuel + 1, cs =>
    match value fuel cs with
    | none => none
    | some (d, rest) =>
      match skipSpace rest with
      | ',' :: rest => (items fuel rest).map fun r => (d :: r.1, r.2)
      | ']' :: rest => some ([d], rest)
      | _ => none
def entries : (fuel : Nat) → List Char → Option (List (Datum × Datum) × List Char)
  | 0, _ => none
  | fuel + 1, cs =>
    match skipSpace cs with
    | '"' :: rest =>
      match text rest with
      | none => none
      | some (key, rest) =>
        match skipSpace rest with
        | ':' :: rest =>
          match value fuel rest with
          | none => none
          | some (d, rest) =>
            match skipSpace rest with
            | ',' :: rest => (entries fuel rest).map fun r => ((key, d) :: r.1, r.2)
            | '}' :: rest => some ([(key, d)], rest)
            | _ => none
        | _ => none
    | _ => none
end

def read? (text : String) : Option Datum :=
  let cs := text.toList
  match value (2 * cs.length + 2) cs with
  | some (d, rest) => if (skipSpace rest).isEmpty then some d else none
  | none => none

end ApiDocs.Json
