import ApiDocs.Config
import ApiDocs.Finding

/-!
# Building a document

A document is built in steps. Error responses and schemas have to be there before the first operations,
which are described against them, so a step that comes too late is an error and changes nothing.
-/

namespace ApiDocs

structure Builder where
  document : Document := {
    openapi := "3.0.0"
    info := {
      title := "Generated API"
      version := "1.0.0"
      description := some "API documentation generated from Rust doc comments" } }
  errorResponses : Responses := {}
  /-- Operations have been added. -/
  pathsParsed : Bool := false
  options : ExtractionOptions := {}
  fileName : String := "openapi.yaml"
  format : Format := .yaml
  /-- Findings are errors. -/
  strict : Bool := false
deriving Repr, DecidableEq, Inhabited

inductive BuildError where
  | errorResponsesAfterPaths
  | defaultErrorsAfterCustom
  | schemasAfterPaths
  | schemasMissing
  | tagsPathNotSet
  | noTagsFound (path : String)
  | tagsDirectory (path : String) (cause : DiskError)
  | extract (cause : ExtractError)
  | output (cause : OutputError)
  | viewer (cause : ExportError)
  | validation (findings : List Finding)
deriving Repr, DecidableEq

def BuildError.message : BuildError → String
  | errorResponsesAfterPaths =>
    "paths already parsed, register error responses before parsing paths"
  | defaultErrorsAfterCustom =>
    "custom error responses already registered, enable default error responses before adding your own"
  | schemasAfterPaths => "paths already parsed, register schemas before parsing paths"
  | schemasMissing => "parse your schemas first"
  | tagsPathNotSet => "path is not set to parse tags from subdirectories"
  | noTagsFound path => "no tags found in " ++ path
  | tagsDirectory path cause => "failed to read tag directory " ++ path ++ ": " ++ cause.message
  | extract cause => cause.message
  | output cause => cause.message
  | viewer cause => cause.message
  | validation findings =>
    "document written but validation found " ++ toString findings.length ++ " problem(s)"

/-- The response that an error code is configured with. An empty reference is none. -/
def ErrorResponse.response (code : String) (defaultRef : Option String) (e : ErrorResponse) :
    Response where
  description := e.description.getD (Status.description code)
  content := ((e.reference.filter (!·.isEmpty)).or (defaultRef.filter (!·.isEmpty))).map fun name =>
    .forReference (schemaRef name)

namespace Builder

/-! ## Settings -/

def withInfo (b : Builder) (info : Info) : Builder :=
  { b with document := { b.document with info } }

def withExternalDocs (b : Builder) (docs : ExternalDocs) : Builder :=
  { b with document := { b.document with externalDocs := some docs } }

def withOptions (b : Builder) (options : ExtractionOptions) : Builder := { b with options }

/-- An empty name changes nothing. -/
def withFileName (b : Builder) (name : String) : Builder :=
  if name.isEmpty then b else { b with fileName := name }

def withFormat (b : Builder) (format : Format) : Builder := { b with format }

def withStrict (b : Builder) (strict : Bool) : Builder := { b with strict }

/-! ## Error responses -/

def addErrorResponses (b : Builder) (responses : Dict ErrorResponse) (defaultRef : Option String) :
    Except BuildError Builder :=
  if b.pathsParsed then .error .errorResponsesAfterPaths
  else .ok { b with
    errorResponses := responses.entries.foldl
      (fun rs e => rs.insert e.1 (e.2.response e.1 defaultRef)) b.errorResponses }

/-- The listed standard codes, all of them if none is listed. -/
def selectStandard (codes : List Nat) : Dict ErrorResponse :=
  if (standardErrors codes).isEmpty then standardErrors [] else standardErrors codes

/-- Offers standard error codes with their descriptions only. -/
def addDefaultErrors (b : Builder) (codes : List Nat) : Except BuildError Builder :=
  if b.pathsParsed then .error .errorResponsesAfterPaths
  else if !b.errorResponses.isEmpty then .error .defaultErrorsAfterCustom
  else .ok { b with
    errorResponses := .ofList ((selectStandard codes).keys.map fun code =>
      (code, { description := Status.description code })) }

/-- Keeps the listed codes, all of them if none is listed. -/
def restrictErrorResponses (b : Builder) (codes : List Nat) : Except BuildError Builder :=
  if b.pathsParsed then .error .errorResponsesAfterPaths
  else if codes.isEmpty then .ok b
  else .ok { b with
    errorResponses := b.errorResponses.filter fun code _ => (codes.map toString).contains code }

/-! ## Schemas and paths -/

def addSchemas (b : Builder) (schemas : SchemaRegistry) : Except BuildError Builder :=
  if b.pathsParsed then .error .schemasAfterPaths
  else
    let components := b.document.components
    .ok { b with document := { b.document with components := { components with
      schemas := (Registry.merge components.schemas schemas).1 } } }

def addExtracted {ρ : Type} (add : ρ → Except BuildError Builder) :
    Except ExtractError (Extracted ρ) → Except BuildError Builder
  | .ok found => add found.registry
  | .error e => .error (.extract e)

def parseDeclarations (b : Builder) (kind : DeclarationKind) (root : String) (disk : Disk) :
    Except BuildError Builder × Disk :=
  if b.pathsParsed then (.error .schemasAfterPaths, disk)
  else
    let (result, disk) := ApiDocs.extract (.schemas kind) b.options root disk
    (addExtracted b.addSchemas result, disk)

def addPaths (b : Builder) (paths : PathRegistry) : Builder :=
  { b with
    document := { b.document with paths := (Registry.merge b.document.paths paths).1 }
    pathsParsed := true }

def context (b : Builder) : RouteContext where
  schemas := b.document.components.schemas
  errorResponses := b.errorResponses

def parsePaths (b : Builder) (root : String) (disk : Disk) : Except BuildError Builder × Disk :=
  if b.document.components.schemas.isEmpty then (.error .schemasMissing, disk)
  else
    let (result, disk) := ApiDocs.extract (.paths b.context) b.options root disk
    (addExtracted (fun paths => .ok (b.addPaths paths)) result, disk)

/-! ## Tags, servers and security -/

/-- A tag takes the place of the one of its name, or comes last. -/
def placeTag (tag : Tag) : List Tag → List Tag
  | [] => [tag]
  | t :: ts => if t.name = tag.name then tag :: ts else t :: placeTag tag ts

def addTag (b : Builder) (tag : Tag) : Builder :=
  { b with document := { b.document with tags := placeTag tag b.document.tags } }

def tagNames (ignored : List String) (children : List (String × Entry)) : List String :=
  (children.filter fun c => c.2.isDirectory && isWalked ignored c.1).map (·.1)

def parseTags (b : Builder) (directory : String) (ignored : List String) (disk : Disk) :
    Except BuildError Builder :=
  if directory.isEmpty then .error .tagsPathNotSet
  else match disk.list directory with
    | .error cause => .error (.tagsDirectory directory cause)
    | .ok children =>
      match tagNames ignored children with
      | [] => .error (.noTagsFound directory)
      | names => .ok { b with document := { b.document with
          tags := names.map fun name => { name } } }

def addServers (b : Builder) (servers : List Server) : Builder :=
  { b with document := { b.document with servers := b.document.servers ++ servers } }

def addSecuritySchemes (b : Builder) (schemes : SecuritySchemes) : Builder :=
  { b with document := { b.document with
    components := { b.document.components with securitySchemes := schemes.flatten } } }

/-! ## Output -/

def exportViewer (b : Builder) (fetch : Fetch) (c : ViewerConfig) (disk : Disk) :
    Except BuildError Builder × Disk :=
  match Viewer.exportTo fetch c b.fileName disk with
  | (.ok (), disk) => (.ok b, disk)
  | (.error e, disk) => (.error (.viewer e), disk)

structure Generated where
  content : String
  findings : List Finding
  path : String
deriving Repr, DecidableEq

/-- Writes the document into a directory. What is wrong with it is reported, and is an error when the
builder is strict, but not before the document is written. -/
def generate (b : Builder) (directory : String) (disk : Disk) : Except BuildError Generated × Disk :=
  let content := b.document.render b.format
  let findings := validate content
  let path := Path.join directory b.fileName
  match disk.writeText path content with
  | (.error e, disk) => (.error (.output e), disk)
  | (.ok (), disk) =>
    if b.strict && !findings.isEmpty then (.error (.validation findings), disk)
    else (.ok ⟨content, findings, path⟩, disk)

end Builder

end ApiDocs
