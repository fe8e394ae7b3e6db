import ApiDocs.Data.Readable
import ApiDocs.Document.Basic
import ApiDocs.Word

/-!
# Documents from trees

Unknown fields are skipped. A field given twice is wrong, and so is a missing one that has no default.
Of two entries of a map with the same key the later counts.
-/

namespace ApiDocs

open Readable

variable {ν : Type} [Readable ν]

def decodeDict {α : Type} (read : ν → Option α) (v : ν) : Option (Dict α) :=
  (mapOf read v).map .ofList

def Contact.decode (v : ν) : Option Contact := do
  let fs ← record? ["name", "url", "email"] v
  return {
    name := ← fs.optional "name" text?
    url := ← fs.optional "url" text?
    email := ← fs.optional "email" text? }

def License.decode (v : ν) : Option License := do
  let fs ← record? ["name", "url"] v
  return {
    name := ← fs.required "name" text?
    url := ← fs.optional "url" text? }

def Info.decode (v : ν) : Option Info := do
  let fs ← record? ["title", "version", "description", "termsOfService", "contact", "license"] v
  return {
    title := ← fs.required "title" text?
    version := ← fs.required "version" text?
    description := ← fs.optional "description" text?
    termsOfService := ← fs.optional "termsOfService" text?
    contact := ← fs.optional "contact" Contact.decode
    license := ← fs.optional "license" License.decode }

def ExternalDocs.decode (v : ν) : Option ExternalDocs := do
  let fs ← record? ["url", "description"] v
  return { url := ← fs.required "url" text?, description := ← fs.optional "description" text? }

def Server.decode (v : ν) : Option Server := do
  let fs ← record? ["url", "description"] v
  return { url := ← fs.required "url" text?, description := ← fs.optional "description" text? }

def Tag.decode (v : ν) : Option Tag := do
  let fs ← record? ["name", "description"] v
  return { name := ← fs.required "name" text?, description := ← fs.optional "description" text? }

/-! ## Schemas -/

def integer64? (v : ν) : Option Int64 := do
  let n ← integer? v
  if Word.Signed 64 n then some (.ofInt n) else none

def decodeRef (v : ν) : Option String := do
  (← record? ["$ref"] v).required "$ref" text?

def Property.decode (v : ν) : Option Property := do
  let fs ← record? ["type", "format", "example", "$ref", "pattern", "items", "nullable", "maxLength",
    "minLength", "maximum", "minimum"] v
  return {
    type := ← fs.optional "type" text?
    format := ← fs.optional "format" text?
    sample := ← fs.optional "example" text?
    reference := ← fs.optional "$ref" text?
    pattern := ← fs.optional "pattern" text?
    items := ← fs.optional "items" decodeRef
    nullable := ← fs.defaulted "nullable" false flag?
    maxLength := ← fs.defaulted "maxLength" 0 integer64?
    minLength := ← fs.defaulted "minLength" 0 integer64?
    maximum := ← fs.defaulted "maximum" 0 integer64?
    minimum := ← fs.defaulted "minimum" 0 integer64? }

def Schema.decode (v : ν) : Option Schema := do
  let fs ← record? ["type", "properties", "required", "enum"] v
  return {
    type := ← fs.optional "type" text?
    properties := ← fs.defaulted "properties" {} fun v => (mapOf Property.decode v).map .ofList
    required := ← fs.defaulted "required" [] (listOf text?)
    values := ← fs.optional "enum" (listOf text?) }

/-! ## Operations -/

def Content.decode (v : ν) : Option Content :=
  decodeDict (fun v => do (← record? ["schema"] v).required "schema" decodeRef) v

def ParameterSchema.decode (v : ν) : Option ParameterSchema := do
  let fs ← record? ["type", "format", "$ref", "items"] v
  return {
    type := ← fs.optional "type" text?
    format := ← fs.optional "format" text?
    reference := ← fs.optional "$ref" text?
    items := ← fs.optional "items" decodeRef }

def Parameter.decode (v : ν) : Option Parameter := do
  let fs ← record? ["name", "in", "description", "required", "schema", "example"] v
  return {
    name := ← fs.required "name" text?
    location := ← fs.required "in" text?
    description := ← fs.optional "description" text?
    required := ← fs.defaulted "required" false flag?
    schema := ← fs.required "schema" ParameterSchema.decode
    sample := ← fs.optional "example" text? }

def RequestBody.decode (v : ν) : Option RequestBody := do
  let fs ← record? ["description", "required", "content"] v
  return {
    description := ← fs.optional "description" text?
    required := ← fs.defaulted "required" false flag?
    content := ← fs.required "content" Content.decode }

def Response.decode (v : ν) : Option Response := do
  let fs ← record? ["description", "content"] v
  return {
    description := ← fs.required "description" text?
    content := ← fs.optional "content" Content.decode }

def Operation.decode (v : ν) : Option Operation := do
  let fs ← record? ["tags", "summary", "description", "operationId", "parameters", "requestBody",
    "responses", "security", "deprecated"] v
  return {
    tags := ← fs.defaulted "tags" [] (listOf text?)
    summary := ← fs.optional "summary" text?
    description := ← fs.optional "description" text?
    operationId := ← fs.optional "operationId" text?
    parameters := ← fs.defaulted "parameters" [] (listOf Parameter.decode)
    requestBody := ← fs.optional "requestBody" RequestBody.decode
    responses := ← fs.defaulted "responses" {} (decodeDict Response.decode)
    security := ← fs.defaulted "security" [] (listOf (decodeDict (listOf text?)))
    deprecated := ← fs.defaulted "deprecated" false flag? }

def PathItem.decode (v : ν) : Option PathItem := do
  let fs ← record? (Method.all.map Method.key) v
  return {
    get := ← fs.optional "get" Operation.decode
    post := ← fs.optional "post" Operation.decode
    put := ← fs.optional "put" Operation.decode
    delete := ← fs.optional "delete" Operation.decode
    patch := ← fs.optional "patch" Operation.decode
    options := ← fs.optional "options" Operation.decode
    head := ← fs.optional "head" Operation.decode }

/-! ## Security -/

def OAuthFlow.decode (v : ν) : Option OAuthFlow := do
  let fs ← record? ["authorizationUrl", "tokenUrl", "refreshUrl", "scopes"] v
  return {
    authorizationUrl := ← fs.optional "authorizationUrl" text?
    tokenUrl := ← fs.optional "tokenUrl" text?
    refreshUrl := ← fs.optional "refreshUrl" text?
    scopes := ← fs.defaulted "scopes" {} (decodeDict text?) }

def OAuthFlows.decode (v : ν) : Option OAuthFlows := do
  let fs ← record? ["implicit", "password", "clientCredentials", "authorizationCode"] v
  return {
    implicit := ← fs.optional "implicit" OAuthFlow.decode
    password := ← fs.optional "password" OAuthFlow.decode
    clientCredentials := ← fs.optional "clientCredentials" OAuthFlow.decode
    authorizationCode := ← fs.optional "authorizationCode" OAuthFlow.decode }

namespace SecurityScheme

/-- The fields of a scheme of a kind, which its `type` has named. -/
def decodeKind (kind : String) (v : Datum) : Option SecurityScheme :=
  match kind with
  | "apiKey" => do
    let fs ← record? ["name", "in", "description"] v
    return .apiKey (← fs.required "name" text?) (← fs.required "in" text?)
      (← fs.optional "description" text?)
  | "http" => do
    let fs ← record? ["scheme", "bearerFormat", "description"] v
    return .http (← fs.required "scheme" text?) (← fs.optional "bearerFormat" text?)
      (← fs.optional "description" text?)
  | "oauth2" => do
    let fs ← record? ["flows", "description"] v
    return .oauth2 (← fs.required "flows" OAuthFlows.decode) (← fs.optional "description" text?)
  | "openIdConnect" => do
    let fs ← record? ["openIdConnectUrl", "description"] v
    return .openIdConnect (← fs.required "openIdConnectUrl" text?)
      (← fs.optional "description" text?)
  | _ => none

/-- A scheme names its kind in its field `type`, wherever that stands, or in the first place of a list.
All its scalars have types. -/
def ofDatum (d : Datum) : Option SecurityScheme :=
  match d with
  | .mapping entries =>
    let isTag (e : Datum × Datum) := e.1.key? == some "type"
    match entries.filter isTag with
    | [(_, kind)] => do decodeKind (← text? kind) (.mapping (entries.filter (!isTag ·)))
    | _ => none
  | .list (kind :: rest) => do decodeKind (← text? kind) (.list rest)
  | _ => none

def decode (v : ν) : Option SecurityScheme := do ofDatum (← settle? v)

end SecurityScheme

/-! ## The document -/

def Components.decode (v : ν) : Option Components := do
  let fs ← record? ["schemas", "requestBodies", "securitySchemes"] v
  return {
    schemas := ← fs.defaulted "schemas" {} (decodeDict Schema.decode)
    requestBodies := ← fs.defaulted "requestBodies" {} (decodeDict RequestBody.decode)
    securitySchemes := ← fs.defaulted "securitySchemes" {} (decodeDict SecurityScheme.decode) }

def Document.decode (v : ν) : Option Document := do
  let fs ← record? ["openapi", "info", "externalDocs", "servers", "tags", "paths", "components"] v
  return {
    openapi := ← fs.required "openapi" text?
    info := ← fs.required "info" Info.decode
    externalDocs := ← fs.optional "externalDocs" ExternalDocs.decode
    servers := ← fs.defaulted "servers" [] (listOf Server.decode)
    tags := ← fs.defaulted "tags" [] (listOf Tag.decode)
    paths := ← fs.defaulted "paths" {} (decodeDict PathItem.decode)
    components := ← fs.defaulted "components" {} Components.decode }

end ApiDocs
