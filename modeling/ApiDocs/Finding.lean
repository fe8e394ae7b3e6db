import ApiDocs.Outline
import ApiDocs.Status
import ApiDocs.Yaml.Read

/-!
# Findings

What is wrong with the text of a document. The text is read again, so the checks see what was written
and not what was meant.
-/

namespace ApiDocs

inductive Finding where
  | unresolvedRef (reference : String)
  | duplicateOperationId (id : String)
  | duplicatePropertyName (schema property : String)
  | pathMissingLeadingSlash (path : String)
  | duplicateGetParameter (path name : String)
  | duplicateMethodPath (method path : String)
  | unparseable
deriving Repr, DecidableEq

def Finding.message : Finding → String
  | unresolvedRef reference => "reference " ++ reference ++ " does not resolve to a schema"
  | duplicateOperationId id => "operationId " ++ id ++ " is used by more than one operation"
  | duplicatePropertyName schema property =>
    "schema " ++ schema ++ " declares property " ++ property ++ " more than once"
  | pathMissingLeadingSlash path => "path " ++ path ++ " does not start with '/'"
  | duplicateGetParameter path name =>
    "GET " ++ path ++ " declares parameter " ++ name ++ " more than once"
  | duplicateMethodPath method path => method ++ " " ++ path ++ " is declared more than once"
  | unparseable => "document could not be parsed"

/-- The elements that have occurred exactly once before, so each repeated one at its second place. -/
def repeatedAfter {α : Type} [BEq α] (before : List α) : List α → List α
  | [] => []
  | a :: as =>
    if before.count a = 1 then a :: repeatedAfter (a :: before) as
    else repeatedAfter (a :: before) as

def repeated {α : Type} [BEq α] (as : List α) : List α := repeatedAfter [] as

namespace Outline

/-! ## The checks -/

def references (o : Outline) : List String :=
  o.operations.flatMap (·.2.2.references) ++ o.schemas.flatMap fun s => s.2.flatMap (·.references)

def resolves (o : Outline) (reference : String) : Bool :=
  o.schemas.any fun s => schemaRef s.1 == reference

def unresolvedRefs (o : Outline) : List Finding :=
  (o.references.filter fun r => !o.resolves r).eraseDups.map .unresolvedRef

def duplicateOperationIds (o : Outline) : List Finding :=
  (repeated (o.operations.filterMap (·.2.2.id))).map .duplicateOperationId

def duplicatePropertyNames (o : Outline) : List Finding :=
  o.schemas.flatMap fun s => (repeated (s.2.map (·.name))).map (.duplicatePropertyName s.1)

def missingSlashes (o : Outline) : List Finding :=
  (o.paths.filter fun p => p.1.toList.head? != some '/').map fun p => .pathMissingLeadingSlash p.1

def duplicateGetParameters (o : Outline) : List Finding :=
  (o.operations.filter (·.2.1 == "GET")).flatMap fun m =>
    (repeated m.2.2.parameters).map (.duplicateGetParameter m.1)

def duplicateMethodPaths (o : Outline) : List Finding :=
  (repeated (o.operations.map fun m => (m.2.1, m.1))).map fun r => .duplicateMethodPath r.1 r.2

def findings (o : Outline) : List Finding :=
  o.unresolvedRefs ++ o.duplicateOperationIds ++ o.duplicatePropertyNames ++ o.missingSlashes ++
    o.duplicateGetParameters ++ o.duplicateMethodPaths

end Outline

def validate (text : String) : List Finding :=
  match (Yaml.read? text).bind Outline.decode with
  | some outline => outline.findings
  | none => [.unparseable]

end ApiDocs
