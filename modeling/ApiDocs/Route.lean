import ApiDocs.Declaration
import ApiDocs.Document.Basic
import ApiDocs.Text.UpperCase

/-!
# Operations of documented handlers
-/

namespace ApiDocs

open Text

/-- What every handler is described against: the schemas for its parameters, and the error responses
laid over its own. -/
structure RouteContext where
  schemas : SchemaRegistry := {}
  errorResponses : Responses := {}
deriving Repr, DecidableEq, Inhabited

def nonBlank? (text : String) : Option String :=
  if (trim text).isEmpty then none else some (trim text)

/-- The trimmed path with a slash in front, unless it is empty. -/
def normalizePath (path : String) : String :=
  match (trim path).toList with
  | [] => ""
  | '/' :: cs => String.ofList ('/' :: cs)
  | cs => String.ofList ('/' :: cs)

def firstSegment (path : String) : String :=
  ((parts '/' path).find? (!·.isEmpty)).getD ""

/-- The first segment with its first letter in upper case, and the verb of the method. -/
def operationId (path : String) (m : Method) : String := capitalize (firstSegment path) ++ m.action

/-! ## Parameters and responses -/

def Parameter.ofProperty (name : String) (p : Property) : Parameter :=
  let location := if p.location.isEmpty then "query" else p.location
  { name
    location
    required := location == "path"
    schema := { type := p.type, format := p.format, reference := p.reference, items := p.items }
    sample := p.sample }

namespace RouteContext

def parameters (ctx : RouteContext) (schemaName : String) : List Parameter :=
  if schemaName.isEmpty then []
  else match ctx.schemas.get? schemaName with
    | some schema => schema.properties.entries.map fun e => .ofProperty e.1 e.2
    | none => []

def successCode (r : Record) : String := if r.statusCode.isEmpty then "200" else r.statusCode

def successResponse (r : Record) : Response where
  description := Status.description (successCode r)
  content := (nonBlank? r.responseRef).map fun name => .forReference (schemaRef name)

def selects (r : Record) (code : String) : Bool :=
  r.errorStatusCodes.isEmpty || r.errorStatusCodes.contains code

def customize (r : Record) (code : String) (response : Response) : Response :=
  match r.customErrorRefs.get? code, r.customErrorDescriptions.get? code with
  | none, none => response
  | none, some description => { response with description }
  | some name, description => {
      description := description.getD (Status.description code)
      content := some (.forReference (schemaRef name)) }

/-- The response of success, the selected error responses over it, and the record's own wording. -/
def responses (ctx : RouteContext) (r : Record) : Responses :=
  let base : Responses := Dict.empty.insert (successCode r) (successResponse r)
  let all := (ctx.errorResponses.entries.filter fun e => selects r e.1).foldl
    (fun rs e => rs.insert e.1 e.2) base
  ⟨all.entries.map fun e => (e.1, customize r e.1 e.2), by
    rw [List.pairwise_map]
    exact all.sorted⟩

def operation (ctx : RouteContext) (r : Record) (m : Method) (path : String) : Operation where
  tags := (nonBlank? r.tag).toList
  summary := nonBlank? r.summary
  description := nonBlank? r.description
  operationId := some (ApiDocs.operationId path m)
  parameters := ctx.parameters r.parametersRef
  requestBody := (nonBlank? r.requestRef).map fun name =>
    { required := true, content := .forReference (schemaRef name) }
  responses := ctx.responses r
  security := r.security.entries.map fun e => Dict.empty.insert e.1 e.2
  deprecated := r.deprecated

end RouteContext

/-! ## Assembly -/

def Record.slot? (r : Record) : Option (String × Method) :=
  if (normalizePath r.path).isEmpty then none
  else (Method.ofText? r.method).map (normalizePath r.path, ·)

namespace PathRegistry

def bind (paths : PathRegistry) (path : String) (m : Method) (o : Operation) : PathRegistry :=
  paths.insert path (((paths.get? path).getD {}).set m o)

def addRecord (ctx : RouteContext) (paths : PathRegistry) (r : Record) : PathRegistry :=
  match r.slot? with
  | some (path, m) => bind paths path m (ctx.operation r m path)
  | none => paths

/-- The operations of the records; of two records for a path and a method the later counts. -/
def assemble (ctx : RouteContext) (records : List Record) : PathRegistry :=
  records.foldl (addRecord ctx) Dict.empty

def ofFile (ctx : RouteContext) (file : SourceFile) : Except FileError PathRegistry :=
  match file.blocks.filterMap Record.ofBlock? with
  | [] => .error (.noDirectives file.path "@apiPath")
  | records => .ok (assemble ctx records)

end PathRegistry

end ApiDocs
