import ApiDocs.Proofs.Findings

/-!
# Entries of a text

An outline forgets where a reference stands and how a method is spelled. A `Transcript` lists what the
checks are about entry by entry: bodies with their encodings, parameters with or without a name, and
method keys as they are written. It is read from a value as an outline is, and reading an outline is
reading a transcript and taking its outline.
-/

namespace ApiDocs

structure MethodKey where
  text : String
  method : Method
  spells : Method.ofText? text = some method

namespace MethodKey

def ofText? (text : String) : Option MethodKey :=
  match h : Method.ofText? text with
  | some method => some ⟨text, method, h⟩
  | none => none

/-- The spelling that the checks compare. -/
def upperCase (k : MethodKey) : String := String.ofList (k.text.toList.map Text.upperAscii)

theorem ofText?_of_none {text : String} (h : Method.ofText? text = none) : ofText? text = none := by
  unfold ofText?
  split
  · rename_i m hm
    rw [h] at hm
    cases hm
  · rfl

theorem ofText?_of_some {text : String} {m : Method} (h : Method.ofText? text = some m) :
    ofText? text = some ⟨text, m, h⟩ := by
  unfold ofText?
  split
  · rename_i n hn
    obtain rfl : m = n := Option.some.inj (h.symm.trans hn)
    rfl
  · rename_i hn
    rw [h] at hn
    cases hn

end MethodKey

namespace Transcript

/-- A schema that stands in place, and what it refers to. -/
structure Pointer where
  reference : Option String

structure Media where
  schema : Option Pointer

-- of a request and of a response
structure Body where
  content : List (String × Media)

structure Parameter where
  name : Option String

structure Operation where
  id : Option String
  parameters : List Parameter
  requestBody : Option Body
  responses : List (String × Body)

structure Property where
  reference : Option String
  items : Option Pointer

end Transcript

/-- Every path, operation, schema and property of a text, a repeated key as often as it is written. -/
structure Transcript where
  paths : List (String × List (MethodKey × Transcript.Operation))
  schemas : List (String × List (String × Transcript.Property))

namespace Transcript

/-! ## Outlines -/

def Body.references (b : Body) : List String := b.content.filterMap (·.2.schema.bind (·.reference))

def Operation.references (o : Operation) : List String :=
  (o.requestBody.map Body.references).getD [] ++ o.responses.flatMap (·.2.references)

def Operation.names (o : Operation) : List String := o.parameters.filterMap (·.name)

def Property.references (p : Property) : List String :=
  p.reference.toList ++ (p.items.bind (·.reference)).toList

def Operation.outline (o : Operation) : Outline.Operation where
  id := o.id
  parameters := o.names
  references := o.references

def outline (t : Transcript) : Outline where
  paths := t.paths.map fun e => (e.1, e.2.map fun m => (m.1.upperCase, m.2.outline))
  schemas := t.schemas.map fun s => (s.1, s.2.map fun p => ⟨p.1, p.2.references⟩)

def findings (t : Transcript) : List Finding := t.outline.findings

def operations (t : Transcript) : List (String × MethodKey × Operation) :=
  t.paths.flatMap fun e => e.2.map (e.1, ·)

/-! ## Reading -/

section
variable {ν : Type} [Readable ν]
open Readable

def Pointer.decode (v : ν) : Option Pointer := do
  return ⟨← (← record? ["$ref"] v).optional "$ref" text?⟩

def Media.decode (v : ν) : Option Media := do
  return ⟨← (← record? ["schema"] v).optional "schema" Pointer.decode⟩

def Body.decode (v : ν) : Option Body := do
  return ⟨← (← record? ["content"] v).defaulted "content" [] (mapOf Media.decode)⟩

def Parameter.decode (v : ν) : Option Parameter := do
  return ⟨← (← record? ["name"] v).optional "name" text?⟩

def Operation.decode (v : ν) : Option Operation := do
  let fs ← record? ["operationId", "parameters", "requestBody", "responses"] v
  return {
    id := ← fs.optional "operationId" text?
    parameters := ← fs.defaulted "parameters" [] (listOf Parameter.decode)
    requestBody := ← fs.optional "requestBody" Body.decode
    responses := ← fs.defaulted "responses" [] (mapOf Body.decode) }

/-- The entries whose keys spell a method; all others are skipped. -/
def decodePath (v : ν) : Option (List (MethodKey × Operation)) := do
  ((← map? v).filterMap fun e => (MethodKey.ofText? e.1).map (·, e.2)).mapM fun e =>
    (Operation.decode e.2).map (e.1, ·)

def Property.decode (v : ν) : Option Property := do
  let fs ← record? ["$ref", "items"] v
  return ⟨← fs.optional "$ref" text?, ← fs.optional "items" Pointer.decode⟩

def decodeSchema (v : ν) : Option (List (String × Property)) := do
  (← record? ["properties"] v).defaulted "properties" [] (mapOf Property.decode)

def decodeComponents (v : ν) : Option (List (String × List (String × Property))) := do
  (← record? ["schemas"] v).defaulted "schemas" [] (mapOf decodeSchema)

def decode (v : ν) : Option Transcript := do
  let fs ← record? ["paths", "components"] v
  return {
    paths := ← fs.defaulted "paths" [] (mapOf decodePath)
    schemas := ← fs.defaulted "components" [] decodeComponents }

end

end Transcript

/-! ## Reading less

Where the parts of a value are read up to a function, so is the whole. -/

section
variable {ν α β : Type} (f : α → β) {full : ν → Option α} {part : ν → Option β}
  (h : ∀ v, part v = (full v).map f)
include h

theorem mapM_of_map (l : List ν) : l.mapM part = (l.mapM full).map (List.map f) := by
  induction l with
  | nil => rfl
  | cons v l ih =>
    rw [List.mapM_cons, List.mapM_cons, h v, ih]
    cases full v with
    | none => rfl
    | some a => cases l.mapM full <;> rfl

theorem Fields.defaulted_of_map (fs : Fields ν) (name : String) (default : α) :
    fs.defaulted name (f default) part = (fs.defaulted name default full).map f := by
  unfold Fields.defaulted
  cases fs.find? name with
  | none => rfl
  | some v => exact h v

variable [Readable ν]
open Readable

theorem Fields.optional_of_map (fs : Fields ν) (name : String) :
    fs.optional name part = (fs.optional name full).map (Option.map f) := by
  unfold Fields.optional
  cases fs.find? name with
  | none => cases fs.byPosition <;> rfl
  | some v =>
    simp only [Fields.optionalValue, h v]
    cases isNull? v with
    | none => rfl
    | some b => cases b <;> cases full v <;> rfl

theorem listOf_of_map (v : ν) : listOf part v = (listOf full v).map (List.map f) := by
  unfold listOf
  cases list? v with
  | none => rfl
  | some l => exact mapM_of_map f h l

theorem mapOf_of_map (v : ν) :
    mapOf part v = (mapOf full v).map (List.map fun e => (e.1, f e.2)) := by
  have hentry : ∀ e : String × ν,
      (part e.2).map (e.1, ·) = ((full e.2).map (e.1, ·)).map fun e => (e.1, f e.2) := by
    intro e
    rw [h e.2]
    cases full e.2 <;> rfl
  unfold mapOf
  cases map? v with
  | none => rfl
  | some l => exact mapM_of_map _ hentry l

end

namespace Transcript

section
variable {ν : Type} [Readable ν]
open Readable

theorem decodeReference_eq (v : ν) :
    Outline.decodeReference v = (Pointer.decode v).map (·.reference) := by
  unfold Outline.decodeReference Pointer.decode
  cases record? ["$ref"] v with
  | none => rfl
  | some fs => cases h : fs.optional "$ref" text? <;> simp [h]

theorem decodeMedia_eq (v : ν) :
    Outline.decodeMedia v = (Media.decode v).map (·.schema.bind (·.reference)) := by
  unfold Outline.decodeMedia Media.decode
  cases record? ["schema"] v with
  | none => rfl
  | some fs =>
    have hschema := fs.optional_of_map _ decodeReference_eq "schema"
    cases h : fs.optional "schema" Pointer.decode with
    | none => simp [h, hschema]
    | some schema => cases schema <;> simp [h, hschema]

theorem decodeBody_eq (v : ν) : Outline.decodeBody v = (Body.decode v).map Body.references := by
  rw [Outline.decodeBody_eq]
  unfold Body.decode
  cases record? ["content"] v with
  | none => rfl
  | some fs =>
    have hcontent := fs.defaulted_of_map _ (mapOf_of_map _ decodeMedia_eq) "content" []
    rw [List.map_nil] at hcontent
    cases h : fs.defaulted "content" [] (mapOf Media.decode) with
    | none => simp [h, hcontent]
    | some content => simp [h, hcontent, Body.references, List.filterMap_map]

theorem decodeParameter_eq (v : ν) :
    Outline.decodeParameter v = (Parameter.decode v).map (·.name) := by
  unfold Outline.decodeParameter Parameter.decode
  cases record? ["name"] v with
  | none => rfl
  | some fs => cases h : fs.optional "name" text? <;> simp [h]

theorem decodeOperation_eq (v : ν) :
    Outline.Operation.decode v = (Operation.decode v).map Operation.outline := by
  unfold Outline.Operation.decode Operation.decode
  cases record? ["operationId", "parameters", "requestBody", "responses"] v with
  | none => rfl
  | some fs =>
    have hparameters := fs.defaulted_of_map _ (listOf_of_map _ decodeParameter_eq) "parameters" []
    have hbody := fs.optional_of_map _ decodeBody_eq "requestBody"
    have hresponses := fs.defaulted_of_map _ (mapOf_of_map _ decodeBody_eq) "responses" []
    rw [List.map_nil] at hparameters hresponses
    cases hid : fs.optional "operationId" text? with
    | none => simp [hid]
    | some id =>
      cases hp : fs.defaulted "parameters" [] (listOf Parameter.decode) with
      | none => simp [hid, hparameters, hp]
      | some parameters =>
        cases hb : fs.optional "requestBody" Body.decode with
        | none => simp [hid, hparameters, hp, hbody, hb]
        | some body =>
          cases hr : fs.defaulted "responses" [] (mapOf Body.decode) with
          | none => simp [hid, hparameters, hp, hbody, hb, hresponses, hr]
          | some responses =>
            simp [hid, hparameters, hp, hbody, hb, hresponses, hr, Operation.outline, Operation.names,
              Operation.references, List.reduceOption, List.filterMap_map, List.flatMap_map]

theorem decodePath_eq (v : ν) : Outline.decodePath v =
    (decodePath v).map (List.map fun m => (m.1.upperCase, m.2.outline)) := by
  unfold Outline.decodePath decodePath
  cases map? v with
  | none => rfl
  | some es =>
    simp only [Option.bind_eq_bind, Option.bind_some, Option.pure_def]
    -- one side filters the keys that spell a method and the other keeps their proofs
    induction es with
    | nil => rfl
    | cons e es ih =>
      cases hm : Method.ofText? e.1 with
      | none => simpa [hm, MethodKey.ofText?_of_none hm] using ih
      | some m =>
        rw [List.filter_cons_of_pos (by simp [hm]), List.mapM_cons, ih, decodeOperation_eq,
          List.filterMap_cons, MethodKey.ofText?_of_some hm]
        simp only [Option.map_some, List.mapM_cons, Option.bind_eq_bind, Option.pure_def]
        cases Operation.decode e.2 with
        | none => rfl
        | some o =>
          cases List.mapM (fun e => (Operation.decode e.2).map (e.1, ·))
            (es.filterMap fun e => (MethodKey.ofText? e.1).map (·, e.2)) <;> rfl

theorem decodeProperty_eq (v : ν) :
    Outline.decodeProperty v = (Property.decode v).map Property.references := by
  unfold Outline.decodeProperty Property.decode
  cases record? ["$ref", "items"] v with
  | none => rfl
  | some fs =>
    have hitems := fs.optional_of_map _ decodeReference_eq "items"
    cases hr : fs.optional "$ref" text? with
    | none => simp [hr]
    | some reference =>
      cases hi : fs.optional "items" Pointer.decode with
      | none => simp [hr, hi, hitems]
      | some items => cases items <;> simp [hr, hi, hitems, Property.references]

theorem decodeSchema_eq (v : ν) : Outline.decodeSchema v =
    (decodeSchema v).map (List.map fun p => ⟨p.1, p.2.references⟩) := by
  unfold Outline.decodeSchema decodeSchema
  cases record? ["properties"] v with
  | none => rfl
  | some fs =>
    have hproperties := fs.defaulted_of_map _ (mapOf_of_map _ decodeProperty_eq) "properties" []
    rw [List.map_nil] at hproperties
    cases h : fs.defaulted "properties" [] (mapOf Property.decode) with
    | none => simp [h, hproperties]
    | some properties => simp [h, hproperties]

theorem decodeComponents_eq (v : ν) :
    (do (← record? ["schemas"] v).defaulted "schemas" [] (mapOf Outline.decodeSchema)) =
      (decodeComponents v).map (List.map fun s => (s.1, s.2.map fun p => ⟨p.1, p.2.references⟩)) := by
  unfold decodeComponents
  cases record? ["schemas"] v with
  | none => rfl
  | some fs => exact fs.defaulted_of_map _ (mapOf_of_map _ decodeSchema_eq) "schemas" []

/-- The outline of a value is the outline of its entries. -/
theorem decode_eq (v : ν) : Outline.decode v = (decode v).map outline := by
  unfold Outline.decode decode
  cases record? ["paths", "components"] v with
  | none => rfl
  | some fs =>
    have hpaths := fs.defaulted_of_map _ (mapOf_of_map _ decodePath_eq) "paths" []
    have hschemas := fs.defaulted_of_map _ decodeComponents_eq "components" []
    rw [List.map_nil] at hpaths hschemas
    simp only [Option.bind_eq_bind, Option.bind_some, Option.pure_def] at hpaths hschemas ⊢
    rw [hpaths, hschemas]
    cases fs.defaulted "paths" [] (mapOf decodePath) with
    | none => rfl
    | some paths => cases fs.defaulted "components" [] decodeComponents <;> rfl

end

def ofText? (text : String) : Option Transcript := (Yaml.read? text).bind decode

end Transcript

theorem validate_eq (text : String) :
    validate text = ((Transcript.ofText? text).map Transcript.findings).getD [.unparseable] := by
  unfold validate Transcript.ofText?
  cases Yaml.read? text with
  | none => rfl
  | some v =>
    rw [Option.bind_some, Option.bind_some, Transcript.decode_eq]
    cases Transcript.decode v <;> rfl

end ApiDocs
