import ApiDocs.Declaration
import ApiDocs.Document.Basic

/-!
# Schemas of documented declarations
-/

namespace ApiDocs

def nonEmpty? (text : String) : Option String := if text.isEmpty then none else some text

namespace Property

def constrained (m : FieldMarks) : Property where
  sample := nonEmpty? m.sample
  pattern := nonEmpty? m.pattern
  nullable := m.nullable
  maxLength := .ofInt (numeric m.maxLength)
  minLength := .ofInt (numeric m.minLength)
  maximum := .ofInt (numeric m.maximum)
  minimum := .ofInt (numeric m.minimum)

/-- The property of a field, or `none` if the field is ignored or cannot be described. -/
def ofField? (f : DeclaredField) : Option Property :=
  if f.marks.ignored then none
  else match f.type with
    | none => none
    | some (.reference name) => some {
        location := f.marks.locationOrQuery
        reference := some (schemaRef name) }
    | some (.arrayOfReference name) => some { constrained f.marks with
        location := f.marks.locationOrQuery
        type := some "array"
        items := some (schemaRef name) }
    | some (.primitive name) => some { constrained f.marks with
        location := f.marks.locationOrQuery
        type := some (openApiType name)
        format := some (openApiFormat name) }

end Property

namespace Schema

def described (d : Declaration) : List (DeclaredField × Property) :=
  d.fields.filterMap fun f => (Property.ofField? f).map (f, ·)

def ofStruct (d : Declaration) : Schema :=
  .object (.ofList ((described d).map fun fp => (fp.1.name, fp.2)))
    (((described d).filter (·.1.marks.required)).map (·.1.name))

/-- The schema of an enumeration: a marked entry gives its value, any other its name. -/
def ofEnum (d : Declaration) : Schema :=
  .enumeration ((d.fields.filter (!·.marks.ignored)).map fun f =>
    if f.marked then f.marks.enumValue else f.name)

def ofDeclaration (kind : DeclarationKind) (d : Declaration) : Schema :=
  match kind with
  | .schema => ofStruct d
  | .enumeration => ofEnum d

end Schema

/-- The schemas that a file documents by name; of two declarations of a name the later counts. -/
def SchemaRegistry.ofFile (kind : DeclarationKind) (file : SourceFile) :
    Except FileError SchemaRegistry :=
  (Declaration.scan file kind).map fun ds =>
    .ofList (ds.map fun d => (d.name, Schema.ofDeclaration kind d))

end ApiDocs
