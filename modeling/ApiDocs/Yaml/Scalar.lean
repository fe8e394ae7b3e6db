import ApiDocs.Data.Readable
import ApiDocs.Word

/-!
# What plain scalars stand for

A plain scalar can spell nothing, a truth value, an integer or a number; any other is a text. Digits
after a leading zero are a text.
-/

namespace ApiDocs.Yaml

def isNullWord (s : String) : Bool := s == "null" || s == "Null" || s == "NULL" || s == "~"

def flag? (s : String) : Option Bool :=
  if s == "true" || s == "True" || s == "TRUE" then some true
  else if s == "false" || s == "False" || s == "FALSE" then some false
  else none

/-! ## Integers -/

def digitValue? (c : Char) : Option Nat :=
  if '0' ≤ c ∧ c ≤ '9' then some (c.toNat - '0'.toNat)
  else if 'a' ≤ c ∧ c ≤ 'z' then some (c.toNat - 'a'.toNat + 10)
  else if 'A' ≤ c ∧ c ≤ 'Z' then some (c.toNat - 'A'.toNat + 10)
  else none

def digits? (base : Nat) (cs : List Char) : Option Nat :=
  if cs.isEmpty then none
  else cs.foldlM (fun n c => do
    let d ← digitValue? c
    if d < base then some (base * n + d) else none) 0

def based? : List Char → Option Nat
  | '0' :: 'x' :: cs => digits? 16 cs
  | '0' :: 'o' :: cs => digits? 8 cs
  | '0' :: 'b' :: cs => digits? 2 cs
  | _ => none

def isSign (c : Char) : Bool := c == '+' || c == '-'

def isDigit (c : Char) : Bool := '0' ≤ c && c ≤ '9'

def leadingZero (cs : List Char) : Bool :=
  let body := match cs with
    | c :: rest => if isSign c then rest else cs
    | [] => []
  match body with
  | '0' :: rest => !rest.isEmpty && rest.all isDigit
  | _ => false

def natural? (cs : List Char) : Option Nat :=
  let body := match cs with
    | '+' :: rest => rest
    | _ => cs
  (based? body).or (if leadingZero cs then none else digits? 10 body)

def integerChars? (cs : List Char) : Option Int :=
  match cs with
  | '-' :: rest =>
    ((based? rest).or (if leadingZero cs then none else digits? 10 rest)).map fun n => -(n : Int)
  | _ => (natural? cs).map Int.ofNat

/-! ## Numbers -/

/-- An unsigned decimal: its digits as an integer and the power of ten that scales them. -/
def decimal? (cs : List Char) : Option (Nat × Int) :=
  let whole := cs.takeWhile isDigit
  let afterWhole := cs.dropWhile isDigit
  let (fraction, rest) := match afterWhole with
    | '.' :: more => (more.takeWhile isDigit, more.dropWhile isDigit)
    | _ => ([], afterWhole)
  if whole.isEmpty && fraction.isEmpty then none
  else do
    let mantissa ← digits? 10 (whole ++ fraction)
    let scale := -(fraction.length : Int)
    match rest with
    | [] => some (mantissa, scale)
    | e :: more =>
      if e = 'e' ∨ e = 'E' then
        let (negative, digits) := match more with
          | '-' :: ds => (true, ds)
          | '+' :: ds => (false, ds)
          | ds => (false, ds)
        let n ← digits? 10 digits
        some (mantissa, if negative then scale - n else scale + n)
      else none

/-- A decimal is finite if it rounds to less than two to the power 1024. -/
def isFinite (mantissa : Nat) (scale : Int) : Bool :=
  let bound := Word.span 1024 - Word.span 970
  let size := (Nat.toDigits 10 mantissa).length + scale
  if mantissa = 0 ∨ size < 300 then true
  else if 320 < size then false
  else if 0 ≤ scale then mantissa * Nat.pow 10 scale.toNat < bound
  else mantissa < bound * Nat.pow 10 (-scale).toNat

def isNumber (s : String) : Bool :=
  let cs := s.toList
  let positive := match cs with
    | '+' :: rest => rest
    | _ => cs
  let body := match cs with
    | c :: rest => if isSign c then rest else cs
    | [] => []
  positive == ".inf".toList || positive == ".Inf".toList || positive == ".INF".toList ||
    s == "-.inf" || s == "-.Inf" || s == "-.INF" || s == ".nan" || s == ".NaN" || s == ".NAN" ||
    match decimal? body with
    | some (mantissa, scale) => isFinite mantissa scale
    | none => false

/-! ## Resolution -/

/-- What a plain scalar stands for. An integer has 64 bits; one of up to 128 bits stands for nothing, and
a longer one is a number. -/
def resolve? (s : String) : Option Datum :=
  if s.isEmpty || isNullWord s then some .null
  else match flag? s with
    | some b => some (.flag b)
    | none =>
      match integerChars? s.toList with
      | some n =>
        if Word.Fits 64 n then some (.integer n)
        else if Word.Fits 128 n then none
        else if isNumber s then some .real
        else some (.text s)
      | none => if !leadingZero s.toList && isNumber s then some .real else some (.text s)

/-- Written plainly, the text would not be read as a text, or looks like a number with a leading
zero. -/
def needsQuotes (s : String) : Bool :=
  leadingZero s.toList || match resolve? s with
    | some (.text _) => false
    | _ => true

end ApiDocs.Yaml
