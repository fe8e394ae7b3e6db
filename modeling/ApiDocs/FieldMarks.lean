import ApiDocs.Text.Blank
import ApiDocs.Word

/-!
# Field marks

The text of an `openapi` attribute is a list of clauses between semicolons. A clause without a colon
is a flag; any other is a key and a value around its first colon, so a value may hold colons.
-/

namespace ApiDocs

open Text

/-- What the marks of one field say. Texts are empty where nothing is said; bounds stay text until
they are used. -/
structure FieldMarks where
  location : String := ""
  sample : String := ""
  /-- The name of the schema that the field refers to. -/
  reference : String := ""
  required : Bool := false
  nullable : Bool := false
  ignored : Bool := false
  maxLength : String := ""
  minLength : String := ""
  minimum : String := ""
  maximum : String := ""
  pattern : String := ""
  enumValue : String := ""
deriving Repr, DecidableEq, Inhabited

namespace FieldMarks

def setFlag (m : FieldMarks) : String → FieldMarks
  | "required" => { m with required := true }
  | "nullable" => { m with nullable := true }
  | "ignored" => { m with ignored := true }
  | _ => m

def setKey (m : FieldMarks) (key value : String) : FieldMarks :=
  match key with
  | "in" => { m with location := value }
  | "example" => { m with sample := value }
  | "$ref" => { m with reference := value }
  | "maxLength" => { m with maxLength := value }
  | "minLength" => { m with minLength := value }
  | "minimum" => { m with minimum := value }
  | "maximum" => { m with maximum := value }
  | "pattern" => { m with pattern := value }
  | "enumValue" => { m with enumValue := value }
  | _ => m

/-- Unknown flags and keys change nothing, nor does a blank clause. -/
def addClause (m : FieldMarks) (clause : String) : FieldMarks :=
  match cut ':' (trim clause) with
  | none => m.setFlag (trim clause)
  | some (key, value) => m.setKey (trim key) (trim value)

/-- The marks of a text. A field that is ignored has no other marks. -/
def ofText (text : String) : FieldMarks :=
  let m := (parts ';' text).foldl addClause {}
  if m.ignored then { ignored := true } else m

def locationOrQuery (m : FieldMarks) : String := if m.location.isEmpty then "query" else m.location

end FieldMarks

/-! ## Bounds -/

def digitsValue? (cs : List Char) : Option Nat :=
  if !cs.isEmpty && cs.all (fun c => '0' ≤ c && c ≤ '9') then
    some (cs.foldl (fun n c => 10 * n + (c.toNat - '0'.toNat)) 0)
  else none

def integerChars? : List Char → Option Int
  | '-' :: cs => (digitsValue? cs).map fun n => -(n : Int)
  | '+' :: cs => (digitsValue? cs).map Int.ofNat
  | cs => (digitsValue? cs).map Int.ofNat

/-- The integer that a bound spells, 0 where it spells none of 64 bits. -/
def numeric (text : String) : Int :=
  match integerChars? (trim text).toList with
  | some n => if Word.Signed 64 n then n else 0
  | none => 0

end ApiDocs
