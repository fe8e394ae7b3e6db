import ApiDocs.Document.Method
import ApiDocs.Keyed.Dict
import ApiDocs.Keyed.Table
import ApiDocs.Status

/-!
# The parts of a document
-/

namespace ApiDocs

/-! ## General information -/

structure Contact where
  name : Option String := none
  url : Option String := none
  email : Option String := none
deriving Repr, DecidableEq, Inhabited

structure License where
  name : String
  url : Option String := none
deriving Repr, DecidableEq, Inhabited

structure Info where
  title : String
  version : String
  description : Option String := none
  termsOfService : Option String := none
  contact : Option Contact := none
  license : Option License := none
deriving Repr, DecidableEq, Inhabited

structure ExternalDocs where
  url : String
  description : Option String := none
deriving Repr, DecidableEq, Inhabited

structure Server where
  url : String
  description : Option String := none
deriving Repr, DecidableEq, Inhabited

structure Tag where
  name : String
  description : Option String := none
deriving Repr, DecidableEq, Inhabited

/-! ## Schemas -/

/-- A property of an object schema. `location` says where the property travels when the schema lists
parameters; it is not part of the written document. A bound of 0 is no bound. -/
structure Property where
  location : String := ""
  type : Option String := none
  format : Option String := none
  sample : Option String := none
  reference : Option String := none
  pattern : Option String := none
  /-- The reference of the elements of an array. -/
  items : Option String := none
  nullable : Bool := false
  maxLength : Int64 := 0
  minLength : Int64 := 0
  maximum : Int64 := 0
  minimum : Int64 := 0
deriving Repr, DecidableEq, Inhabited

structure Schema where
  type : Option String := none
  properties : Table Property := {}
  required : List String := []
  values : Option (List String) := none
deriving Repr, DecidableEq, Inhabited

namespace Schema

def object (properties : Table Property) (required : List String) : Schema :=
  { type := some "object", properties, required }

def enumeration (values : List String) : Schema := { type := some "string", values := some values }

end Schema

abbrev SchemaRegistry := Dict Schema

/-! ## Operations -/

abbrev Content := Dict String

namespace Content

def forReference (reference : String) : Content := .ofList (contentTypes.map (·, reference))

end Content

structure ParameterSchema where
  type : Option String := none
  format : Option String := none
  reference : Option String := none
  items : Option String := none
deriving Repr, DecidableEq, Inhabited

structure Parameter where
  name : String
  location : String
  description : Option String := none
  required : Bool := false
  schema : ParameterSchema := {}
  sample : Option String := none
deriving Repr, DecidableEq, Inhabited

structure RequestBody where
  description : Option String := none
  required : Bool := false
  content : Content
deriving Repr, DecidableEq, Inhabited

structure Response where
  description : String
  content : Option Content := none
deriving Repr, DecidableEq, Inhabited

def Response.reference? (r : Response) : Option String := r.content.bind (·.values.head?)

abbrev Responses := Dict Response

structure Operation where
  tags : List String := []
  summary : Option String := none
  description : Option String := none
  operationId : Option String := none
  parameters : List Parameter := []
  requestBody : Option RequestBody := none
  responses : Responses := {}
  /-- Scopes by security scheme. -/
  security : List (Dict (List String)) := []
  deprecated : Bool := false
deriving Repr, DecidableEq, Inhabited

/-! ## Paths -/

structure PathItem where
  get : Option Operation := none
  post : Option Operation := none
  put : Option Operation := none
  delete : Option Operation := none
  patch : Option Operation := none
  options : Option Operation := none
  head : Option Operation := none
deriving Repr, DecidableEq, Inhabited

namespace PathItem

def operation (item : PathItem) : Method → Option Operation
  | .get => item.get
  | .post => item.post
  | .put => item.put
  | .delete => item.delete
  | .patch => item.patch
  | .options => item.options
  | .head => item.head

def set (item : PathItem) (m : Method) (o : Operation) : PathItem :=
  match m with
  | .get => { item with get := some o }
  | .post => { item with post := some o }
  | .put => { item with put := some o }
  | .delete => { item with delete := some o }
  | .patch => { item with patch := some o }
  | .options => { item with options := some o }
  | .head => { item with head := some o }

def operations (item : PathItem) : List (Method × Operation) :=
  Method.all.filterMap fun m => (item.operation m).map (m, ·)

def isEmpty (item : PathItem) : Bool := item.operations.isEmpty

/-- The item with the operations of another one, and the methods that both bind. -/
def absorb (item incoming : PathItem) : PathItem × List Method :=
  (incoming.operations.foldl (fun i mo => i.set mo.1 mo.2) item,
   (incoming.operations.filter fun mo => (item.operation mo.1).isSome).map (·.1))

@[simp] theorem operation_set (item : PathItem) (m n : Method) (o : Operation) :
    (item.set m o).operation n = if n = m then some o else item.operation n := by
  cases m <;> cases n <;> rfl

end PathItem

abbrev PathRegistry := Dict PathItem

/-! ## Security -/

structure OAuthFlow where
  authorizationUrl : Option String := none
  tokenUrl : Option String := none
  refreshUrl : Option String := none
  scopes : Dict String := {}
deriving Repr, DecidableEq, Inhabited

structure OAuthFlows where
  implicit : Option OAuthFlow := none
  password : Option OAuthFlow := none
  clientCredentials : Option OAuthFlow := none
  authorizationCode : Option OAuthFlow := none
deriving Repr, DecidableEq, Inhabited

inductive SecurityScheme where
  | apiKey (name location : String) (description : Option String)
  | http (scheme : String) (bearerFormat description : Option String)
  | oauth2 (flows : OAuthFlows) (description : Option String)
  | openIdConnect (url : String) (description : Option String)
deriving Repr, DecidableEq, Inhabited

/-! ## The document -/

structure Components where
  schemas : SchemaRegistry := {}
  requestBodies : Dict RequestBody := {}
  securitySchemes : Dict SecurityScheme := {}
deriving Repr, DecidableEq, Inhabited

structure Document where
  openapi : String
  info : Info
  externalDocs : Option ExternalDocs := none
  servers : List Server := []
  tags : List Tag := []
  paths : PathRegistry := {}
  components : Components := {}
deriving Repr, DecidableEq, Inhabited

end ApiDocs
