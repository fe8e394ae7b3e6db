import ApiDocs.Document.Decode
import ApiDocs.Format
import ApiDocs.Proofs.JsonText
import ApiDocs.Proofs.Slots

/-!
# Documents read back

Every part of a document is read back from a value that holds what was written for it. The only thing
that is not written is where a property travels. With the texts of trees this makes writing a document
as JSON and reading it again a round trip.
-/

namespace ApiDocs

/-! ## What is not written -/

def Property.withoutLocation (p : Property) : Property := { p with location := "" }

def Schema.withoutLocations (s : Schema) : Schema :=
  { s with properties := s.properties.map Property.withoutLocation }

def Document.withoutLocations (d : Document) : Document :=
  { d with components := { d.components with
    schemas := d.components.schemas.map Schema.withoutLocations } }

/-! ## Records by their slots -/

namespace Tree

theorem field_eq (k : String) (t : Tree) : field k t = present [(k, some t)] := rfl

theorem optional_eq (k : String) (t : Option Tree) : optional k t = present [(k, t)] := by
  cases t <;> rfl

theorem fieldIf_eq (shown : Bool) (k : String) (t : Tree) :
    fieldIf shown k t = present [(k, if shown then some t else none)] := by
  cases shown <;> rfl

theorem present_append (a b : List (String × Option Tree)) : present a ++ present b = present (a ++ b) :=
  List.filterMap_append.symm

end Tree

section
variable {ν : Type} [Readable ν]
open Readable ApiDocs.Tree

theorem Contact.decode_of_holds (c : Contact) {v : ν} (h : Holds v c.encode) :
    Contact.decode v = some c := by
  simp only [Contact.encode, optionalText, optional_eq, present_append, List.cons_append,
    List.nil_append] at h
  obtain ⟨r, hr, hf⟩ := record_of_holds h (by simp) ["name", "url", "email"]
  have hname : r.optional "name" text? = some c.name := hf.optionalText (by simp)
  have hurl : r.optional "url" text? = some c.url := hf.optionalText (by simp)
  have hemail : r.optional "email" text? = some c.email := hf.optionalText (by simp)
  simp [Contact.decode, hr, hname, hurl, hemail]

/-- A record of a text that is always there and of one that may be missing. -/
theorem texts_of_record {k j s : String} {x : Option String} {v : ν} (hkj : k ≠ j)
    (h : Holds v (.object (field k (.text s) ++ optionalText j x))) :
    ∃ r, record? [k, j] v = some r ∧ r.required k text? = some s ∧ r.optional j text? = some x := by
  rw [optionalText, optional_eq, field_eq, present_append] at h
  obtain ⟨r, hr, hf⟩ := record_of_holds h (by simp [hkj]) [k, j]
  exact ⟨r, hr, hf.required (by simp) Holds.text?, hf.optionalText (by simp)⟩

theorem License.decode_of_holds (l : License) {v : ν} (h : Holds v l.encode) :
    License.decode v = some l := by
  obtain ⟨r, hr, hname, hurl⟩ := texts_of_record (by decide) h
  simp [License.decode, hr, hname, hurl]

theorem ExternalDocs.decode_of_holds (d : ExternalDocs) {v : ν} (h : Holds v d.encode) :
    ExternalDocs.decode v = some d := by
  obtain ⟨r, hr, hurl, hdescription⟩ := texts_of_record (by decide) h
  simp [ExternalDocs.decode, hr, hurl, hdescription]

theorem Server.decode_of_holds (s : Server) {v : ν} (h : Holds v s.encode) :
    Server.decode v = some s := by
  obtain ⟨r, hr, hurl, hdescription⟩ := texts_of_record (by decide) h
  simp [Server.decode, hr, hurl, hdescription]

theorem Tag.decode_of_holds (t : Tag) {v : ν} (h : Holds v t.encode) : Tag.decode v = some t := by
  obtain ⟨r, hr, hname, hdescription⟩ := texts_of_record (by decide) h
  simp [Tag.decode, hr, hname, hdescription]

theorem Info.decode_of_holds (i : Info) {v : ν} (h : Holds v i.encode) : Info.decode v = some i := by
  simp only [Info.encode, optionalText, optional_eq, field_eq, present_append, List.cons_append,
    List.nil_append] at h
  obtain ⟨r, hr, hf⟩ := record_of_holds h (by simp)
    ["title", "version", "description", "termsOfService", "contact", "license"]
  have htitle : r.required "title" text? = some i.title := hf.required (by simp) Holds.text?
  have hversion : r.required "version" text? = some i.version := hf.required (by simp) Holds.text?
  have hdescription : r.optional "description" text? = some i.description := hf.optionalText (by simp)
  have hterms : r.optional "termsOfService" text? = some i.termsOfService := hf.optionalText (by simp)
  have hcontact : r.optional "contact" Contact.decode = some i.contact :=
    hf.optionalSame (by simp) Contact.decode_of_holds
  have hlicense : r.optional "license" License.decode = some i.license :=
    hf.optionalSame (by simp) License.decode_of_holds
  simp [Info.decode, hr, htitle, hversion, hdescription, hterms, hcontact, hlicense]

/-! ## Schemas -/

theorem decodeDict_of_holds {α β : Type} {enc : α → Tree} {read : ν → Option β} {f : α → β} {d : Dict α}
    (hread : ∀ a v, Holds v (enc a) → read v = some (f a)) {v : ν} (h : Holds v (encodeDict enc d)) :
    decodeDict read v = some (d.map f) := by
  rw [encodeDict] at h
  rw [decodeDict, mapOf_of_holds hread h, Option.map_some]
  exact congrArg some (Dict.ofList_entries (d.map f))

theorem decodeDict_of_holds_same {α : Type} {enc : α → Tree} {read : ν → Option α} {d : Dict α}
    (hread : ∀ a v, Holds v (enc a) → read v = some a) {v : ν} (h : Holds v (encodeDict enc d)) :
    decodeDict read v = some d := by
  have hd := decodeDict_of_holds (f := id) hread h
  rwa [Dict.map_id] at hd

theorem integer64?_of_holds {n : Int64} {v : ν} (h : Holds v (.number n.toInt)) :
    integer64? v = some n := by
  have hs : Word.Signed 64 n.toInt := by
    rw [Word.signed_64_iff]
    have hlo := n.le_toInt
    have hhi := n.toInt_lt
    omega
  rw [Holds] at h
  simp [integer64?, h.2 hs, hs]

theorem decodeRef_of_holds (s : String) {v : ν} (h : Holds v (encodeRef s)) : decodeRef v = some s := by
  rw [encodeRef, field_eq] at h
  obtain ⟨r, hr, hf⟩ := record_of_holds h (by simp) ["$ref"]
  have href : r.required "$ref" text? = some s := hf.required (by simp) Holds.text?
  simp [decodeRef, hr, href]

theorem Found.bound {names : List String} {slots : List (String × Option Tree)} {r : Fields ν}
    (hf : Found names slots r) {k : String} {n : Int64}
    (hk : (k, if n != 0 then some (.number n.toInt) else none) ∈ slots ∧ k ∈ names) :
    r.defaulted k 0 integer64? = some n := by
  refine hf.defaulted (n != 0) hk (fun _ _ => integer64?_of_holds) fun h0 => ?_
  exact (by simpa using h0 : n = 0).symm

theorem Property.decode_of_holds (p : Property) {v : ν} (h : Holds v p.encode) :
    Property.decode v = some p.withoutLocation := by
  simp only [Property.encode, optionalText, ApiDocs.bound, optional_eq, fieldIf_eq, present_append,
    List.cons_append, List.nil_append] at h
  obtain ⟨r, hr, hf⟩ := record_of_holds h (by simp) ["type", "format", "example", "$ref", "pattern",
    "items", "nullable", "maxLength", "minLength", "maximum", "minimum"]
  have htype : r.optional "type" text? = some p.type := hf.optionalText (by simp)
  have hformat : r.optional "format" text? = some p.format := hf.optionalText (by simp)
  have hsample : r.optional "example" text? = some p.sample := hf.optionalText (by simp)
  have hreference : r.optional "$ref" text? = some p.reference := hf.optionalText (by simp)
  have hpattern : r.optional "pattern" text? = some p.pattern := hf.optionalText (by simp)
  have hitems : r.optional "items" decodeRef = some p.items :=
    hf.optionalSame (by simp) decodeRef_of_holds
  have hnullable : r.defaulted "nullable" false flag? = some p.nullable := hf.flag (by simp)
  have hmaxLength : r.defaulted "maxLength" 0 integer64? = some p.maxLength := hf.bound (by simp)
  have hminLength : r.defaulted "minLength" 0 integer64? = some p.minLength := hf.bound (by simp)
  have hmaximum : r.defaulted "maximum" 0 integer64? = some p.maximum := hf.bound (by simp)
  have hminimum : r.defaulted "minimum" 0 integer64? = some p.minimum := hf.bound (by simp)
  simp [Property.decode, hr, htype, hformat, hsample, hreference, hpattern, hitems, hnullable, hmaxLength,
    hminLength, hmaximum, hminimum, Property.withoutLocation]

theorem Schema.decode_of_holds (s : Schema) {v : ν} (h : Holds v s.encode) :
    Schema.decode v = some s.withoutLocations := by
  simp only [Schema.encode, optionalText, optional_eq, fieldIf_eq, present_append, List.cons_append,
    List.nil_append] at h
  obtain ⟨r, hr, hf⟩ := record_of_holds h (by simp) ["type", "properties", "required", "enum"]
  have htype : r.optional "type" text? = some s.type := hf.optionalText (by simp)
  have hproperties : r.defaulted "properties" {} (fun v => (mapOf Property.decode v).map Table.ofList) =
      some (s.properties.map Property.withoutLocation) := by
    refine hf.defaulted (!s.properties.isEmpty)
      (t := .object (s.properties.entries.map fun e => (e.1, e.2.encode))) (by simp)
      (fun _ v hv => ?_) fun he => ?_
    · rw [mapOf_of_holds (fun p _ => p.decode_of_holds) hv, Option.map_some]
      exact congrArg some (Table.ofList_entries (s.properties.map Property.withoutLocation))
    · exact (Table.eq_empty_of_isEmpty (by simpa [Table.isEmpty, Table.map] using he)).symm
  have hrequired : r.defaulted "required" [] (listOf text?) = some s.required :=
    hf.listedTexts (by simp)
  have hvalues : r.optional "enum" (listOf text?) = some s.values :=
    hf.optionalSame (by simp) fun _ _ => texts_of_holds
  simp [Schema.decode, hr, htype, hproperties, hrequired, hvalues, Schema.withoutLocations]

/-! ## Operations -/

theorem Content.decode_of_holds (c : Content) {v : ν} (h : Holds v (Content.encode c)) :
    Content.decode v = some c := by
  refine decodeDict_of_holds_same (fun reference w hw => ?_) h
  rw [field_eq] at hw
  obtain ⟨r, hr, hf⟩ := record_of_holds hw (by simp) ["schema"]
  have hschema : r.required "schema" decodeRef = some reference :=
    hf.required (by simp) (decodeRef_of_holds reference)
  simp [hr, hschema]

theorem ParameterSchema.decode_of_holds (s : ParameterSchema) {v : ν} (h : Holds v s.encode) :
    ParameterSchema.decode v = some s := by
  simp only [ParameterSchema.encode, optionalText, optional_eq, present_append, List.cons_append,
    List.nil_append] at h
  obtain ⟨r, hr, hf⟩ := record_of_holds h (by simp) ["type", "format", "$ref", "items"]
  have htype : r.optional "type" text? = some s.type := hf.optionalText (by simp)
  have hformat : r.optional "format" text? = some s.format := hf.optionalText (by simp)
  have hreference : r.optional "$ref" text? = some s.reference := hf.optionalText (by simp)
  have hitems : r.optional "items" decodeRef = some s.items :=
    hf.optionalSame (by simp) decodeRef_of_holds
  simp [ParameterSchema.decode, hr, htype, hformat, hreference, hitems]

theorem Parameter.decode_of_holds (p : Parameter) {v : ν} (h : Holds v p.encode) :
    Parameter.decode v = some p := by
  simp only [Parameter.encode, optionalText, optional_eq, field_eq, present_append, List.cons_append,
    List.nil_append] at h
  obtain ⟨r, hr, hf⟩ := record_of_holds h (by simp)
    ["name", "in", "description", "required", "schema", "example"]
  have hname : r.required "name" text? = some p.name := hf.required (by simp) Holds.text?
  have hlocation : r.required "in" text? = some p.location := hf.required (by simp) Holds.text?
  have hdescription : r.optional "description" text? = some p.description := hf.optionalText (by simp)
  have hrequired : r.defaulted "required" false flag? = some p.required :=
    hf.defaulted true (t := .flag p.required) (by simp) (fun _ _ => Holds.flag?) nofun
  have hschema : r.required "schema" ParameterSchema.decode = some p.schema :=
    hf.required (by simp) p.schema.decode_of_holds
  have hsample : r.optional "example" text? = some p.sample := hf.optionalText (by simp)
  simp [Parameter.decode, hr, hname, hlocation, hdescription, hrequired, hschema, hsample]

theorem RequestBody.decode_of_holds (b : RequestBody) {v : ν} (h : Holds v b.encode) :
    RequestBody.decode v = some b := by
  simp only [RequestBody.encode, optionalText, optional_eq, field_eq, present_append, List.cons_append,
    List.nil_append] at h
  obtain ⟨r, hr, hf⟩ := record_of_holds h (by simp) ["description", "required", "content"]
  have hdescription : r.optional "description" text? = some b.description := hf.optionalText (by simp)
  have hrequired : r.defaulted "required" false flag? = some b.required :=
    hf.defaulted true (t := .flag b.required) (by simp) (fun _ _ => Holds.flag?) nofun
  have hcontent : r.required "content" Content.decode = some b.content :=
    hf.required (by simp) (Content.decode_of_holds b.content)
  simp [RequestBody.decode, hr, hdescription, hrequired, hcontent]

theorem Response.decode_of_holds (p : Response) {v : ν} (h : Holds v p.encode) :
    Response.decode v = some p := by
  simp only [Response.encode, optional_eq, field_eq, present_append, List.cons_append,
    List.nil_append] at h
  obtain ⟨r, hr, hf⟩ := record_of_holds h (by simp) ["description", "content"]
  have hdescription : r.required "description" text? = some p.description :=
    hf.required (by simp) Holds.text?
  have hcontent : r.optional "content" Content.decode = some p.content :=
    hf.optionalSame (by simp) Content.decode_of_holds
  simp [Response.decode, hr, hdescription, hcontent]

theorem Operation.decode_of_holds (o : Operation) {v : ν} (h : Holds v o.encode) :
    Operation.decode v = some o := by
  simp only [Operation.encode, optionalText, optional_eq, field_eq, fieldIf_eq, present_append,
    List.cons_append, List.nil_append] at h
  obtain ⟨r, hr, hf⟩ := record_of_holds h (by simp) ["tags", "summary", "description", "operationId",
    "parameters", "requestBody", "responses", "security", "deprecated"]
  have htags : r.defaulted "tags" [] (listOf text?) = some o.tags :=
    hf.listedTexts (by simp)
  have hsummary : r.optional "summary" text? = some o.summary := hf.optionalText (by simp)
  have hdescription : r.optional "description" text? = some o.description := hf.optionalText (by simp)
  have hid : r.optional "operationId" text? = some o.operationId := hf.optionalText (by simp)
  have hparameters : r.defaulted "parameters" [] (listOf Parameter.decode) = some o.parameters := by
    simpa using hf.listed (k := "parameters") (l := o.parameters) (by simp) fun p _ => p.decode_of_holds
  have hbody : r.optional "requestBody" RequestBody.decode = some o.requestBody :=
    hf.optionalSame (by simp) RequestBody.decode_of_holds
  have hresponses : r.defaulted "responses" {} (decodeDict Response.decode) = some o.responses :=
    hf.defaulted true (t := Responses.encode o.responses) (by simp)
      (fun _ _ => decodeDict_of_holds_same fun p _ => p.decode_of_holds) nofun
  have hsecurity : r.defaulted "security" [] (listOf (decodeDict (listOf text?))) = some o.security := by
    have hscopes : ∀ (d : Dict (List String)) (w : ν), Holds w (encodeDict texts d) →
        decodeDict (listOf text?) w = some d := fun d _ =>
      decodeDict_of_holds_same fun _ _ => texts_of_holds
    simpa using hf.listed (k := "security") (l := o.security) (by simp) hscopes
  have hdeprecated : r.defaulted "deprecated" false flag? = some o.deprecated := hf.flag (by simp)
  simp [Operation.decode, hr, htags, hsummary, hdescription, hid, hparameters, hbody, hresponses,
    hsecurity, hdeprecated]

/-! ## Paths -/

theorem PathItem.encode_eq (i : PathItem) : i.encode =
    .object (present (Method.all.map fun m => (m.key, (i.operation m).map Operation.encode))) := by
  simp only [PathItem.encode, PathItem.operations, present, List.map_filterMap, List.filterMap_map,
    Function.comp_def, Option.map_map]

theorem PathItem.decode_of_holds (i : PathItem) {v : ν} (h : Holds v i.encode) :
    PathItem.decode v = some i := by
  rw [PathItem.encode_eq] at h
  obtain ⟨r, hr, hf⟩ := record_of_holds h (by simp [Method.all, Method.key]) (Method.all.map Method.key)
  have hfind : ∀ m : Method, r.optional m.key Operation.decode = some (i.operation m) := fun m =>
    hf.optionalSame ⟨List.mem_map.mpr ⟨m, m.mem_all, rfl⟩, List.mem_map.mpr ⟨m, m.mem_all, rfl⟩⟩
      Operation.decode_of_holds
  have hget := hfind .get
  have hpost := hfind .post
  have hput := hfind .put
  have hdelete := hfind .delete
  have hpatch := hfind .patch
  have hoptions := hfind .options
  have hhead := hfind .head
  simp only [Method.key, PathItem.operation] at hget hpost hput hdelete hpatch hoptions hhead
  simp [PathItem.decode, hr, hget, hpost, hput, hdelete, hpatch, hoptions, hhead]

/-! ## Security -/

theorem OAuthFlow.decode_of_holds (f : OAuthFlow) {v : ν} (h : Holds v f.encode) :
    OAuthFlow.decode v = some f := by
  simp only [OAuthFlow.encode, optionalText, optional_eq, field_eq, present_append, List.cons_append,
    List.nil_append] at h
  obtain ⟨r, hr, hf⟩ := record_of_holds h (by simp)
    ["authorizationUrl", "tokenUrl", "refreshUrl", "scopes"]
  have hauthorization : r.optional "authorizationUrl" text? = some f.authorizationUrl :=
    hf.optionalText (by simp)
  have htoken : r.optional "tokenUrl" text? = some f.tokenUrl := hf.optionalText (by simp)
  have hrefresh : r.optional "refreshUrl" text? = some f.refreshUrl := hf.optionalText (by simp)
  have hscopes : r.defaulted "scopes" {} (decodeDict text?) = some f.scopes :=
    hf.defaulted true (t := encodeDict .text f.scopes) (by simp)
      (fun _ _ => decodeDict_of_holds_same fun _ _ => Holds.text?) nofun
  simp [OAuthFlow.decode, hr, hauthorization, htoken, hrefresh, hscopes]

theorem OAuthFlows.decode_of_holds (f : OAuthFlows) {v : ν} (h : Holds v f.encode) :
    OAuthFlows.decode v = some f := by
  simp only [OAuthFlows.encode, optional_eq, present_append, List.cons_append, List.nil_append] at h
  obtain ⟨r, hr, hf⟩ := record_of_holds h (by simp)
    ["implicit", "password", "clientCredentials", "authorizationCode"]
  have himplicit : r.optional "implicit" OAuthFlow.decode = some f.implicit :=
    hf.optionalSame (by simp) OAuthFlow.decode_of_holds
  have hpassword : r.optional "password" OAuthFlow.decode = some f.password :=
    hf.optionalSame (by simp) OAuthFlow.decode_of_holds
  have hclient : r.optional "clientCredentials" OAuthFlow.decode = some f.clientCredentials :=
    hf.optionalSame (by simp) OAuthFlow.decode_of_holds
  have hcode : r.optional "authorizationCode" OAuthFlow.decode = some f.authorizationCode :=
    hf.optionalSame (by simp) OAuthFlow.decode_of_holds
  simp [OAuthFlows.decode, hr, himplicit, hpassword, hclient, hcode]

-- The kind of a scheme is looked up in its settled form, so its nesting has to be bounded.

theorem depth_object_le {n : Nat} : ∀ {fs : List (String × Tree)}, (∀ f ∈ fs, f.2.datum.depth ≤ n) →
    (Tree.object fs).datum.depth ≤ n + 1
  | [], _ => by simp [Tree.datum, Tree.fieldData, Datum.depth, Datum.depthOfEntries]
  | (k, t) :: fs, h => by
    have ht : t.datum.depth ≤ n := h (k, t) (List.mem_cons_self ..)
    have ih := depth_object_le fun f hf => h f (List.mem_cons_of_mem _ hf)
    simp only [Tree.datum, Tree.fieldData, Datum.depth, Datum.depthOfEntries] at ih ⊢
    omega

theorem depth_present_le {n : Nat} {slots : List (String × Option Tree)}
    (h : ∀ s ∈ slots, ∀ t ∈ s.2, t.datum.depth ≤ n) : (Tree.object (present slots)).datum.depth ≤ n + 1 := by
  refine depth_object_le fun f hf => ?_
  obtain ⟨s, hs, he⟩ := List.mem_filterMap.mp hf
  obtain ⟨t, ht, rfl⟩ := Option.map_eq_some_iff.mp he
  exact h s hs t ht

theorem depth_text_le (n : Nat) (s : String) : (Tree.text s).datum.depth ≤ n := Nat.zero_le n

theorem OAuthFlow.depth_encode_le (f : OAuthFlow) : f.encode.datum.depth ≤ 2 := by
  have hscopes : (encodeDict Tree.text f.scopes).datum.depth ≤ 1 := by
    refine depth_object_le fun e he => ?_
    obtain ⟨e, _, rfl⟩ := List.mem_map.mp he
    exact depth_text_le 0 e.2
  simp only [OAuthFlow.encode, optionalText, optional_eq, field_eq, present_append, List.cons_append,
    List.nil_append]
  refine depth_present_le ?_
  simp [hscopes, depth_text_le]

theorem OAuthFlows.depth_encode_le (f : OAuthFlows) : f.encode.datum.depth ≤ 3 := by
  simp only [OAuthFlows.encode, optional_eq, present_append, List.cons_append, List.nil_append]
  refine depth_present_le ?_
  simp [OAuthFlow.depth_encode_le]

namespace SecurityScheme

theorem ofDatum_tagged (kind : String) {slots : List (String × Option Tree)}
    (h : "type" ∉ slots.map (·.1)) :
    ofDatum (Tree.object (present (("type", some (.text kind)) :: slots))).datum =
      decodeKind kind (Tree.object (present slots)).datum := by
  have hother : ∀ e ∈ Tree.fieldData (present slots), e.1.key? ≠ some "type" := by
    rw [Tree.fieldData_eq_map, List.forall_mem_map]
    intro f hf
    obtain ⟨s, hs, he⟩ := List.mem_filterMap.mp hf
    obtain ⟨t, _, rfl⟩ := Option.map_eq_some_iff.mp he
    exact fun hk => h (List.mem_map.mpr ⟨s, hs, Option.some.inj hk⟩)
  have htag : (Tree.fieldData (present slots)).filter (fun e => e.1.key? == some "type") = [] := by
    simpa using hother
  have hrest : (Tree.fieldData (present slots)).filter (fun e => !e.1.key? == some "type") =
      Tree.fieldData (present slots) := by
    simpa using hother
  have hshape : present (("type", some (.text kind)) :: slots) = ("type", .text kind) :: present slots := rfl
  have hkey : (Datum.text "type").key? = some "type" := rfl
  simp [hshape, ofDatum, Tree.datum, Tree.fieldData, hkey, htag, hrest, Readable.text?]

theorem decode_of_tagged {v : ν} {kind : String} {slots : List (String × Option Tree)}
    (h : Holds v (.object (present (("type", some (.text kind)) :: slots))))
    (hn : "type" ∉ slots.map (·.1)) (hd : ∀ s ∈ slots, ∀ t ∈ s.2, t.datum.depth ≤ 3) :
    SecurityScheme.decode v = decodeKind kind (Tree.object (present slots)).datum := by
  have hdepth : (Tree.object (present (("type", some (.text kind)) :: slots))).datum.depth ≤ 4 :=
    depth_present_le (List.forall_mem_cons.mpr ⟨by simp [depth_text_le], hd⟩)
  rw [Holds] at h
  obtain ⟨_, hsettle, _⟩ := h
  rw [SecurityScheme.decode, hsettle (by omega), Option.bind_eq_bind, Option.bind_some,
    ofDatum_tagged kind hn]

theorem decode_of_holds (s : SecurityScheme) {v : ν} (h : Holds v s.encode) :
    SecurityScheme.decode v = some s := by
  cases s with
  | apiKey name location description =>
    simp only [SecurityScheme.encode, optionalText, optional_eq, field_eq, present_append,
      List.cons_append, List.nil_append] at h
    rw [decode_of_tagged h (by simp) (by simp [depth_text_le])]
    obtain ⟨r, hr, hf⟩ := record_of_holds (holds_datum (.object (present
      [("name", some (.text name)), ("in", some (.text location)),
        ("description", description.map .text)]))) (by simp) ["name", "in", "description"]
    have hname : r.required "name" text? = some name := hf.required (by simp) Holds.text?
    have hlocation : r.required "in" text? = some location := hf.required (by simp) Holds.text?
    have hdescription : r.optional "description" text? = some description := hf.optionalText (by simp)
    simp [decodeKind, hr, hname, hlocation, hdescription]
  | http scheme bearerFormat description =>
    simp only [SecurityScheme.encode, optionalText, optional_eq, field_eq, present_append,
      List.cons_append, List.nil_append] at h
    rw [decode_of_tagged h (by simp) (by simp [depth_text_le])]
    obtain ⟨r, hr, hf⟩ := record_of_holds (holds_datum (.object (present
      [("scheme", some (.text scheme)), ("bearerFormat", bearerFormat.map .text),
        ("description", description.map .text)]))) (by simp) ["scheme", "bearerFormat", "description"]
    have hscheme : r.required "scheme" text? = some scheme := hf.required (by simp) Holds.text?
    have hformat : r.optional "bearerFormat" text? = some bearerFormat := hf.optionalText (by simp)
    have hdescription : r.optional "description" text? = some description := hf.optionalText (by simp)
    simp [decodeKind, hr, hscheme, hformat, hdescription]
  | oauth2 flows description =>
    simp only [SecurityScheme.encode, optionalText, optional_eq, field_eq, present_append,
      List.cons_append, List.nil_append] at h
    rw [decode_of_tagged h (by simp) (by simp [depth_text_le, flows.depth_encode_le])]
    obtain ⟨r, hr, hf⟩ := record_of_holds (holds_datum (.object (present
      [("flows", some flows.encode), ("description", description.map .text)]))) (by simp)
      ["flows", "description"]
    have hflows : r.required "flows" OAuthFlows.decode = some flows :=
      hf.required (by simp) flows.decode_of_holds
    have hdescription : r.optional "description" text? = some description := hf.optionalText (by simp)
    simp [decodeKind, hr, hflows, hdescription]
  | openIdConnect url description =>
    simp only [SecurityScheme.encode, optionalText, optional_eq, field_eq, present_append,
      List.cons_append, List.nil_append] at h
    rw [decode_of_tagged h (by simp) (by simp [depth_text_le])]
    obtain ⟨r, hr, hf⟩ := record_of_holds (holds_datum (.object (present
      [("openIdConnectUrl", some (.text url)), ("description", description.map .text)]))) (by simp)
      ["openIdConnectUrl", "description"]
    have hurl : r.required "openIdConnectUrl" text? = some url := hf.required (by simp) Holds.text?
    have hdescription : r.optional "description" text? = some description := hf.optionalText (by simp)
    simp [decodeKind, hr, hurl, hdescription]

end SecurityScheme

/-! ## The document -/

/-- A map that is left out when it is empty. -/
theorem Found.mapped {names : List String} {slots : List (String × Option Tree)} {r : Fields ν}
    (hf : Found names slots r) {k : String} {α β : Type} {d : Dict α} {enc : α → Tree}
    {read : ν → Option β} {f : α → β}
    (hk : (k, if !d.isEmpty then some (encodeDict enc d) else none) ∈ slots ∧ k ∈ names)
    (hread : ∀ a v, Holds v (enc a) → read v = some (f a)) :
    r.defaulted k {} (decodeDict read) = some (d.map f) := by
  refine hf.defaulted (!d.isEmpty) hk (fun _ _ => decodeDict_of_holds hread) fun he => ?_
  exact (Dict.eq_empty_of_isEmpty (by simpa [Dict.isEmpty, Dict.map] using he)).symm

theorem Components.decode_of_holds (c : Components) {v : ν} (h : Holds v c.encode) :
    Components.decode v = some { c with schemas := c.schemas.map Schema.withoutLocations } := by
  simp only [Components.encode, fieldIf_eq, present_append, List.cons_append, List.nil_append] at h
  obtain ⟨r, hr, hf⟩ := record_of_holds h (by simp) ["schemas", "requestBodies", "securitySchemes"]
  have hschemas : r.defaulted "schemas" {} (decodeDict Schema.decode) =
      some (c.schemas.map Schema.withoutLocations) :=
    hf.mapped (d := c.schemas) (by simp [SchemaRegistry.encode]) fun s _ => s.decode_of_holds
  have hbodies : r.defaulted "requestBodies" {} (decodeDict RequestBody.decode) =
      some (c.requestBodies.map id) :=
    hf.mapped (d := c.requestBodies) (by simp) fun b _ => b.decode_of_holds
  have hsecurity : r.defaulted "securitySchemes" {} (decodeDict SecurityScheme.decode) =
      some (c.securitySchemes.map id) :=
    hf.mapped (d := c.securitySchemes) (by simp) fun s _ => s.decode_of_holds
  simp [Components.decode, hr, hschemas, hbodies, hsecurity, Dict.map_id]

theorem Document.decode_of_holds (d : Document) {v : ν} (h : Holds v d.encode) :
    Document.decode v = some d.withoutLocations := by
  simp only [Document.encode, optional_eq, field_eq, present_append, List.cons_append,
    List.nil_append] at h
  obtain ⟨r, hr, hf⟩ := record_of_holds h (by simp)
    ["openapi", "info", "externalDocs", "servers", "tags", "paths", "components"]
  have hopenapi : r.required "openapi" text? = some d.openapi := hf.required (by simp) Holds.text?
  have hinfo : r.required "info" Info.decode = some d.info :=
    hf.required (by simp) d.info.decode_of_holds
  have hdocs : r.optional "externalDocs" ExternalDocs.decode = some d.externalDocs :=
    hf.optionalSame (by simp) ExternalDocs.decode_of_holds
  have hservers : r.defaulted "servers" [] (listOf Server.decode) = some d.servers := by
    refine hf.defaulted true (t := .list (d.servers.map Server.encode)) (by simp) (fun _ v hv => ?_) nofun
    simpa using listOf_of_holds (fun s _ => s.decode_of_holds) hv
  have htags : r.defaulted "tags" [] (listOf Tag.decode) = some d.tags := by
    refine hf.defaulted true (t := .list (d.tags.map Tag.encode)) (by simp) (fun _ v hv => ?_) nofun
    simpa using listOf_of_holds (fun t _ => t.decode_of_holds) hv
  have hpaths : r.defaulted "paths" {} (decodeDict PathItem.decode) = some d.paths :=
    hf.defaulted true (t := PathRegistry.encode d.paths) (by simp)
      (fun _ _ => decodeDict_of_holds_same fun i _ => i.decode_of_holds) nofun
  have hcomponents : r.defaulted "components" {} Components.decode =
      some { d.components with schemas := d.components.schemas.map Schema.withoutLocations } :=
    hf.defaulted true (t := d.components.encode) (by simp)
      (fun _ _ => d.components.decode_of_holds) nofun
  simp [Document.decode, hr, hopenapi, hinfo, hdocs, hservers, htags, hpaths, hcomponents,
    Document.withoutLocations]

end

/-- A document written as JSON is read back whole, except for the places where its properties travel. -/
theorem decode_render_json (d : Document) :
    (Json.read? (d.render .json)).bind Document.decode = some d.withoutLocations := by
  have hread : Json.read? (d.render .json) = some d.encode.datum := Json.read?_render d.encode
  rw [hread, Option.bind_some, d.decode_of_holds (holds_datum d.encode)]

end ApiDocs
