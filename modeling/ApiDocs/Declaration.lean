import ApiDocs.Directive.Record
import ApiDocs.FieldMarks
import ApiDocs.FieldType
import ApiDocs.Source.WireName

/-!
# Documented declarations

The structures and enumerations of a source file that its comments mark as documented, with the
fields or variants that are written out.
-/

namespace ApiDocs

open Source

/-! ## Source files -/

inductive FileError where
  | read (path cause : String)
  | malformed (path : String)
  | noComments (path : String)
  | noDirectives (path keyword : String)
deriving Repr, DecidableEq

namespace FileError

def message : FileError → String
  | read path cause => "failed to read file " ++ path ++ ": " ++ cause
  | malformed path => "failed to parse Rust syntax in file " ++ path
  | noComments path => path ++ ": there are no doc comments (@api declarations) in the file"
  | noDirectives path keyword => path ++ ": there are no " ++ keyword ++ " declarations in the file"

end FileError

/-- A source file with at least one comment block. -/
structure SourceFile where
  path : String
  items : List Item
  blocks : List String

def SourceFile.parse (path text : String) : Except FileError SourceFile :=
  match File.parse? text with
  | none => .error (.malformed path)
  | some file =>
    if file.docBlocks.isEmpty then .error (.noComments path)
    else .ok ⟨path, file.items, file.docBlocks⟩

/-! ## Fields -/

/-- A field of a structure, or a variant of an enumeration, which has no type. -/
structure DeclaredField where
  name : String
  marks : FieldMarks
  /-- Whether the field carries marks at all, be they empty. -/
  marked : Bool
  type : Option FieldType
deriving Repr, DecidableEq

structure Declaration where
  name : String
  fields : List DeclaredField
deriving Repr, DecidableEq

def marksText : AttributeBody → String
  | .list [.literal (.text value)] => value
  | .text value => value
  | _ => ""

/-- The marks of the first `openapi` attribute, if there is one. -/
def marksOf? (attributes : List Attribute) : Option FieldMarks :=
  (attributes.find? fun a => a.name = some "openapi").map fun a => .ofText (marksText a.body)

namespace DeclaredField

def ofField? (f : Field) : Option DeclaredField :=
  let wire := WireMarks.ofAttributes f.attributes
  let marks := marksOf? f.attributes
  if wire.skip then none
  else some {
    name := wire.rename.getD f.name
    marks := marks.getD {}
    marked := marks.isSome
    type := classify f.type (marks.getD {}).reference }

def ofVariant? (v : Variant) : Option DeclaredField :=
  let wire := WireMarks.ofAttributes v.attributes
  let marks := marksOf? v.attributes
  if wire.skip then none
  else some {
    name := wire.rename.getD v.name
    marks := marks.getD {}
    marked := marks.isSome
    type := none }

end DeclaredField

/-! ## Declarations -/

namespace Declaration

mutual
/-- The documented declarations of an item: structures with named fields, enumerations where `kind`
asks for them, and what inline modules hold. -/
def ofItem (kind : DeclarationKind) (documented : List String) : Item → List Declaration
  | .struct _ name (some fields) _ =>
    if documented.contains name then [⟨name, fields.filterMap DeclaredField.ofField?⟩] else []
  | .enum _ name variants _ =>
    if kind = .enumeration ∧ documented.contains name then
      [⟨name, variants.filterMap DeclaredField.ofVariant?⟩]
    else []
  | .inlineModule _ items => ofItems kind documented items
  | _ => []
def ofItems (kind : DeclarationKind) (documented : List String) : List Item → List Declaration
  | [] => []
  | i :: is => ofItem kind documented i ++ ofItems kind documented is
end

def scan (file : SourceFile) (kind : DeclarationKind) : Except FileError (List Declaration) :=
  match documentedNames file.blocks kind with
  | [] => .error (.noDirectives file.path kind.keyword)
  | documented => .ok (ofItems kind documented file.items)

end Declaration

end ApiDocs
