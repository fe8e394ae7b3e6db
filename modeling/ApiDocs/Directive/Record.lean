import ApiDocs.Directive.Key
import ApiDocs.Keyed.Dict
import ApiDocs.Keyed.Table

/-!
# What a block says

A block with path directives describes one handler; `@apiDefine` and `@apiEnum` name the declarations
of the file that are documented.
-/

namespace ApiDocs

open Text

inductive DeclarationKind where
  | schema
  | enumeration
deriving Repr, DecidableEq

namespace DeclarationKind

def directiveName : DeclarationKind → String
  | schema => "Define"
  | enumeration => "Enum"

def keyword (kind : DeclarationKind) : String := "@api" ++ kind.directiveName

end DeclarationKind

/-! ## Handlers -/

/-- The description of one handler. Texts are empty where the block says nothing. -/
structure Record where
  path : String := ""
  method : String := ""
  description : String := ""
  summary : String := ""
  requestRef : String := ""
  responseRef : String := ""
  statusCode : String := ""
  tag : String := ""
  parametersRef : String := ""
  deprecated : Bool := false
  errorStatusCodes : List String := []
  customErrorRefs : Dict String := {}
  customErrorDescriptions : Dict String := {}
  /-- Scopes by security scheme. -/
  security : Table (List String) := {}
deriving Repr, DecidableEq, Inhabited

namespace Record

/-- The record after one more directive, or `none` if the directive says nothing of a handler. -/
def add? (r : Record) (d : Directive) : Option Record :=
  if d.code.isEmpty then
    match d.name with
    | "Path" => some { r with path := firstWord d.value }
    | "Method" => some { r with method := firstWord d.value }
    | "Description" => some { r with description := d.value }
    | "Summary" => some { r with summary := d.value }
    | "RequestRef" => some { r with requestRef := firstWord d.value }
    | "ResponseRef" => some { r with responseRef := firstWord d.value }
    | "StatusCode" => some { r with statusCode := firstWord d.value }
    | "Tag" => some { r with tag := d.value }
    | "ParametersRef" => some { r with parametersRef := firstWord d.value }
    | "Deprecated" => some { r with deprecated := sameIgnoringCase (firstWord d.value) "true" }
    | "ErrorStatusCodes" =>
      some { r with errorStatusCodes := r.errorStatusCodes ++ (commaItems d.value).map firstWord }
    | "Security" =>
      match commaItems d.value with
      | [] => some r
      | scheme :: scopes => some { r with security := r.security.insert scheme scopes }
    | _ => none
  else
    match d.name with
    | "CustomErrorRef" => some { r with customErrorRefs := r.customErrorRefs.insert d.code d.value }
    | "CustomErrorDescription" =>
      some { r with customErrorDescriptions := r.customErrorDescriptions.insert d.code d.value }
    | _ => none

def ofDirectives (ds : List Directive) : Option Record :=
  ds.foldl (fun r d => ((r.getD {}).add? d).or r) none

def ofBlock? (block : String) : Option Record := ofDirectives (Directive.ofBlock block)

end Record

/-! ## Documented declarations -/

def Directive.marks? (kind : DeclarationKind) (d : Directive) : Option String :=
  if d.name = kind.directiveName ∧ d.code.isEmpty ∧ !isBlankText d.value then some (firstWord d.value)
  else none

/-- The names that the blocks mark as documented, in order of first mention. -/
def documentedNames (blocks : List String) (kind : DeclarationKind) : List String :=
  ((blocks.flatMap Directive.ofBlock).filterMap (·.marks? kind)).eraseDups

end ApiDocs
