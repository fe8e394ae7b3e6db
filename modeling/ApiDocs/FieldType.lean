import ApiDocs.Source.Item

/-!
# Types of fields

A field is described by a primitive of the document format, by another schema, or by a sequence of
either. References, parentheses and the usual pointers around a type do not count.
-/

namespace ApiDocs

open Source

/-- How a field is described. A primitive is named by its own identifier, a sequence of primitives by
`Vec<name>`. -/
inductive FieldType where
  | primitive (name : String)
  | reference (name : String)
  | arrayOfReference (name : String)
deriving Repr, DecidableEq

/-! ## Names of primitives -/

def elementName? (name : List Char) : Option (List Char) :=
  match name with
  | 'V' :: 'e' :: 'c' :: '<' :: rest =>
    if rest.getLast? = some '>' then some rest.dropLast else none
  | _ => none

theorem length_lt_of_elementName? {name element : List Char} (h : elementName? name = some element) :
    element.length < name.length := by
  unfold elementName? at h
  split at h
  · split at h
    · simp only [Option.some.injEq] at h
      subst h
      simp only [List.length_dropLast, List.length_cons]
      omega
    · simp at h
  · simp at h

def scalarType : String → String
  | "String" | "str" | "char" => "string"
  | "bool" => "boolean"
  | "i8" | "i16" | "i32" | "i64" | "i128" | "isize" | "u8" | "u16" | "u32" | "u64" | "u128"
  | "usize" => "integer"
  | "f32" | "f64" => "number"
  | "DateTime" | "NaiveDateTime" | "NaiveDate" | "Uuid" => "string"
  | _ => "object"

def scalarFormat : String → String
  | "String" | "str" | "char" => "string"
  | "bool" => "boolean"
  | "i8" | "i16" | "i32" | "u8" | "u16" | "u32" => "int32"
  | "i64" | "i128" | "isize" | "u64" | "u128" | "usize" => "int64"
  | "f32" => "float"
  | "f64" => "double"
  | "DateTime" | "NaiveDateTime" => "date-time"
  | "NaiveDate" => "date"
  | "Uuid" => "uuid"
  | "Value" | "HashMap" | "BTreeMap" => "object"
  | _ => "string"

def openApiType (name : String) : String :=
  if (elementName? name.toList).isSome then "array" else scalarType name

def formatOfChars (name : List Char) : String :=
  match _h : elementName? name with
  | some element => formatOfChars element
  | none => scalarFormat (String.ofList name)
termination_by name.length
decreasing_by exact length_lt_of_elementName? _h

def openApiFormat (name : String) : String := formatOfChars name.toList

def isKnownPrimitive (name : String) : Bool :=
  openApiType name != "object" || name == "Value" || name == "HashMap" || name == "BTreeMap"

/-! ## Shapes of types -/

/-- Pointers that do not show in a schema. -/
def transparentNames : List String := ["Option", "Box", "Rc", "Arc"]

def sequenceNames : List String := ["Vec", "VecDeque", "HashSet", "BTreeSet"]

/-- The type without the references, parentheses and pointers around it. -/
def unwrap : TypeExpr → TypeExpr
  | .reference inner => unwrap inner
  | .paren inner => unwrap inner
  | .named q name arguments (t :: ts) =>
    if transparentNames.contains name then unwrap t else .named q name arguments (t :: ts)
  | t => t

def element? : TypeExpr → Option TypeExpr
  | .slice element => some element
  | .array element => some element
  | .named _ name _ (t :: _) => if sequenceNames.contains name then some (unwrap t) else none
  | _ => none

def classifySingle : TypeExpr → Option FieldType
  | .named false name arguments _ =>
    if isKnownPrimitive name then some (.primitive name)
    else if arguments then none
    else some (.reference name)
  | _ => none

/-- The description of a field of the type, or `none` if there is none. A reference that the field
names itself stands in for whatever its type, or the element of its sequence, is. -/
def classify (type : TypeExpr) (reference : String) : Option FieldType :=
  let type := unwrap type
  if !reference.isEmpty then
    if (element? type).isSome then some (.arrayOfReference reference)
    else some (.reference reference)
  else
    match element? type with
    | some element =>
      let element := unwrap element
      if (element? element).isSome then none
      else match classifySingle element with
        | some (.primitive name) => some (.primitive ("Vec<" ++ name ++ ">"))
        | some (.reference name) => some (.arrayOfReference name)
        | _ => none
    | none => classifySingle type

end ApiDocs
