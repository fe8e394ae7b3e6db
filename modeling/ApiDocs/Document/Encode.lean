import ApiDocs.Data.Tree
import ApiDocs.Document.Basic

/-!
# Documents as trees

The fields of every part in the order in which they are written. What is empty is mostly left out.
-/

namespace ApiDocs

open ApiDocs.Tree

def optionalText (key : String) (value : Option String) : List (String × Tree) :=
  optional key (value.map .text)

def encodeDict {α : Type} (encode : α → Tree) (d : Dict α) : Tree :=
  .object (d.entries.map fun e => (e.1, encode e.2))

def Contact.encode (c : Contact) : Tree := .object <|
  optionalText "name" c.name ++ optionalText "url" c.url ++ optionalText "email" c.email

def License.encode (l : License) : Tree := .object <|
  field "name" (.text l.name) ++ optionalText "url" l.url

def Info.encode (i : Info) : Tree := .object <|
  field "title" (.text i.title) ++
  field "version" (.text i.version) ++
  optionalText "description" i.description ++
  optionalText "termsOfService" i.termsOfService ++
  optional "contact" (i.contact.map Contact.encode) ++
  optional "license" (i.license.map License.encode)

def ExternalDocs.encode (d : ExternalDocs) : Tree := .object <|
  field "url" (.text d.url) ++ optionalText "description" d.description

def Server.encode (s : Server) : Tree := .object <|
  field "url" (.text s.url) ++ optionalText "description" s.description

def Tag.encode (t : Tag) : Tree := .object <|
  field "name" (.text t.name) ++ optionalText "description" t.description

/-! ## Schemas -/

def encodeRef (reference : String) : Tree := .object (field "$ref" (.text reference))

/-- A bound, left out when it is 0. -/
def bound (key : String) (value : Int64) : List (String × Tree) :=
  fieldIf (value != 0) key (.number value.toInt)

def Property.encode (p : Property) : Tree := .object <|
  optionalText "type" p.type ++
  optionalText "format" p.format ++
  optionalText "example" p.sample ++
  optionalText "$ref" p.reference ++
  optionalText "pattern" p.pattern ++
  optional "items" (p.items.map encodeRef) ++
  fieldIf p.nullable "nullable" (.flag true) ++
  bound "maxLength" p.maxLength ++
  bound "minLength" p.minLength ++
  bound "maximum" p.maximum ++
  bound "minimum" p.minimum

def Schema.encode (s : Schema) : Tree := .object <|
  optionalText "type" s.type ++
  fieldIf (!s.properties.isEmpty) "properties"
    (.object (s.properties.entries.map fun e => (e.1, e.2.encode))) ++
  fieldIf (!s.required.isEmpty) "required" (texts s.required) ++
  optional "enum" (s.values.map texts)

def SchemaRegistry.encode (r : SchemaRegistry) : Tree := encodeDict Schema.encode r

/-! ## Operations -/

def Content.encode (c : Content) : Tree :=
  encodeDict (fun reference => .object (field "schema" (encodeRef reference))) c

def ParameterSchema.encode (s : ParameterSchema) : Tree := .object <|
  optionalText "type" s.type ++
  optionalText "format" s.format ++
  optionalText "$ref" s.reference ++
  optional "items" (s.items.map encodeRef)

def Parameter.encode (p : Parameter) : Tree := .object <|
  field "name" (.text p.name) ++
  field "in" (.text p.location) ++
  optionalText "description" p.description ++
  field "required" (.flag p.required) ++
  field "schema" p.schema.encode ++
  optionalText "example" p.sample

def RequestBody.encode (b : RequestBody) : Tree := .object <|
  optionalText "description" b.description ++
  field "required" (.flag b.required) ++
  field "content" (Content.encode b.content)

def Response.encode (r : Response) : Tree := .object <|
  field "description" (.text r.description) ++ optional "content" (r.content.map Content.encode)

def Responses.encode (r : Responses) : Tree := encodeDict Response.encode r

def Operation.encode (o : Operation) : Tree := .object <|
  fieldIf (!o.tags.isEmpty) "tags" (texts o.tags) ++
  optionalText "summary" o.summary ++
  optionalText "description" o.description ++
  optionalText "operationId" o.operationId ++
  fieldIf (!o.parameters.isEmpty) "parameters" (.list (o.parameters.map Parameter.encode)) ++
  optional "requestBody" (o.requestBody.map RequestBody.encode) ++
  field "responses" (Responses.encode o.responses) ++
  fieldIf (!o.security.isEmpty) "security" (.list (o.security.map (encodeDict texts))) ++
  fieldIf o.deprecated "deprecated" (.flag true)

/-! ## Paths -/

def PathItem.encode (i : PathItem) : Tree :=
  .object (i.operations.map fun mo => (mo.1.key, mo.2.encode))

def PathRegistry.encode (r : PathRegistry) : Tree := encodeDict PathItem.encode r

/-! ## Security -/

def OAuthFlow.encode (f : OAuthFlow) : Tree := .object <|
  optionalText "authorizationUrl" f.authorizationUrl ++
  optionalText "tokenUrl" f.tokenUrl ++
  optionalText "refreshUrl" f.refreshUrl ++
  field "scopes" (encodeDict .text f.scopes)

def OAuthFlows.encode (f : OAuthFlows) : Tree := .object <|
  optional "implicit" (f.implicit.map OAuthFlow.encode) ++
  optional "password" (f.password.map OAuthFlow.encode) ++
  optional "clientCredentials" (f.clientCredentials.map OAuthFlow.encode) ++
  optional "authorizationCode" (f.authorizationCode.map OAuthFlow.encode)

def SecurityScheme.encode : SecurityScheme → Tree
  | apiKey name location description => .object <|
    field "type" (.text "apiKey") ++ field "name" (.text name) ++ field "in" (.text location) ++
    optionalText "description" description
  | http scheme bearerFormat description => .object <|
    field "type" (.text "http") ++ field "scheme" (.text scheme) ++
    optionalText "bearerFormat" bearerFormat ++ optionalText "description" description
  | oauth2 flows description => .object <|
    field "type" (.text "oauth2") ++ field "flows" flows.encode ++
    optionalText "description" description
  | openIdConnect url description => .object <|
    field "type" (.text "openIdConnect") ++ field "openIdConnectUrl" (.text url) ++
    optionalText "description" description

/-! ## The document -/

def Components.encode (c : Components) : Tree := .object <|
  fieldIf (!c.schemas.isEmpty) "schemas" (SchemaRegistry.encode c.schemas) ++
  fieldIf (!c.requestBodies.isEmpty) "requestBodies" (encodeDict RequestBody.encode c.requestBodies) ++
  fieldIf (!c.securitySchemes.isEmpty) "securitySchemes"
    (encodeDict SecurityScheme.encode c.securitySchemes)

def Document.encode (d : Document) : Tree := .object <|
  field "openapi" (.text d.openapi) ++
  field "info" d.info.encode ++
  optional "externalDocs" (d.externalDocs.map ExternalDocs.encode) ++
  field "servers" (.list (d.servers.map Server.encode)) ++
  field "tags" (.list (d.tags.map Tag.encode)) ++
  field "paths" (PathRegistry.encode d.paths) ++
  field "components" d.components.encode

end ApiDocs
