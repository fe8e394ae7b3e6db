import ApiDocs.Data.Readable
import ApiDocs.Document.Method

/-!
# Outlines of written documents

The part of a document that the checks look at, in the order of the text and with every entry of a
mapping, so that a key that is written twice is seen twice.
-/

namespace ApiDocs

open Readable

namespace Outline

structure Operation where
  id : Option String := none
  /-- The names of the parameters that have one. -/
  parameters : List String := []
  /-- The schema references of the request body and of the responses. -/
  references : List String := []
deriving Repr, DecidableEq, Inhabited

structure Property where
  name : String
  /-- The reference of the property and that of its items. -/
  references : List String := []
deriving Repr, DecidableEq, Inhabited

end Outline

structure Outline where
  /-- The operations of every path by the upper case of their keys. -/
  paths : List (String × List (String × Outline.Operation)) := []
  schemas : List (String × List Outline.Property) := []
deriving Repr, DecidableEq, Inhabited

namespace Outline

def operations (o : Outline) : List (String × String × Operation) :=
  o.paths.flatMap fun p => p.2.map fun m => (p.1, m.1, m.2)

/-! ## Reading -/

variable {ν : Type} [Readable ν]

def decodeReference (v : ν) : Option (Option String) := do
  (← record? ["$ref"] v).optional "$ref" text?

def decodeBody (v : ν) : Option (List String) := do
  let fs ← record? ["content"] v
  let media ← fs.defaulted "content" [] <| mapOf fun v => do
    return (← (← record? ["schema"] v).optional "schema" decodeReference).join
  return media.filterMap (·.2)

def decodeParameter (v : ν) : Option (Option String) := do
  (← record? ["name"] v).optional "name" text?

def Operation.decode (v : ν) : Option Operation := do
  let fs ← record? ["operationId", "parameters", "requestBody", "responses"] v
  let id ← fs.optional "operationId" text?
  let parameters ← fs.defaulted "parameters" [] (listOf decodeParameter)
  let body ← fs.optional "requestBody" decodeBody
  let responses ← fs.defaulted "responses" [] (mapOf decodeBody)
  return {
    id
    parameters := parameters.reduceOption
    references := body.getD [] ++ responses.flatMap (·.2) }

/-- The operations of a path; keys that spell no method are skipped with their values. -/
def decodePath (v : ν) : Option (List (String × Operation)) := do
  ((← map? v).filter fun e => (Method.ofText? e.1).isSome).mapM fun e => do
    return (String.ofList (e.1.toList.map Text.upperAscii), ← Operation.decode e.2)

def decodeProperty (v : ν) : Option (List String) := do
  let fs ← record? ["$ref", "items"] v
  let reference ← fs.optional "$ref" text?
  let items ← fs.optional "items" decodeReference
  return reference.toList ++ items.join.toList

def decodeSchema (v : ν) : Option (List Property) := do
  let fs ← record? ["properties"] v
  let properties ← fs.defaulted "properties" [] (mapOf decodeProperty)
  return properties.map fun e => ⟨e.1, e.2⟩

def decode (v : ν) : Option Outline := do
  let fs ← record? ["paths", "components"] v
  let paths ← fs.defaulted "paths" [] (mapOf decodePath)
  let schemas ← fs.defaulted "components" [] fun v => do
    (← record? ["schemas"] v).defaulted "schemas" [] (mapOf decodeSchema)
  return { paths, schemas }

end Outline

end ApiDocs
