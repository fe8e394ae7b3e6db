import ApiDocs.Finding
import ApiDocs.Proofs.DocumentText
import ApiDocs.Proofs.Recovery
import Mathlib.Data.List.ReduceOption

/-!
# Findings of written documents

The checks read a document's text and not the document. Where the text recovers what was written, they
see the outline of the document, and what they report is what is wrong with the document itself.
-/

namespace ApiDocs

/-! ## Outlines -/

def Response.references (r : Response) : List String := (r.content.map Dict.values).getD []

def Operation.references (o : Operation) : List String :=
  (o.requestBody.map fun b => b.content.values).getD [] ++ o.responses.values.flatMap Response.references

def Property.references (p : Property) : List String := p.reference.toList ++ p.items.toList

def Operation.outline (o : Operation) : Outline.Operation where
  id := o.operationId
  parameters := o.parameters.map (·.name)
  references := o.references

/-- What the checks see of a document. -/
def Document.outline (d : Document) : Outline where
  paths := d.paths.entries.map fun e => (e.1, e.2.operations.map fun mo => (mo.1.display, mo.2.outline))
  schemas := d.components.schemas.entries.map fun e =>
    (e.1, e.2.properties.entries.map fun p => ⟨p.1, p.2.references⟩)

section
variable {ν : Type} [Readable ν]
open Readable ApiDocs.Tree

namespace Outline

theorem decodeReference_of_holds (s : String) {v : ν} (h : Holds v (encodeRef s)) :
    decodeReference v = some (some s) := by
  rw [encodeRef, field_eq] at h
  obtain ⟨r, hr, hf⟩ := record_of_holds h (by simp) ["$ref"]
  have href : r.optional "$ref" text? = some (some s) := hf.optionalText (by simp)
  simp [decodeReference, hr, href]

def decodeMedia (v : ν) : Option (Option String) := do
  return (← (← record? ["schema"] v).optional "schema" decodeReference).join

theorem decodeBody_eq (v : ν) : decodeBody v = (record? ["content"] v).bind fun fs =>
    (fs.defaulted "content" [] (mapOf decodeMedia)).bind fun media => some (media.filterMap (·.2)) := rfl

theorem decodeMedia_of_holds (reference : String) (v : ν)
    (h : Holds v (.object (field "schema" (encodeRef reference)))) :
    decodeMedia v = some (some reference) := by
  rw [field_eq] at h
  obtain ⟨r, hr, hf⟩ := record_of_holds h (by simp) ["schema"]
  have hschema : r.optional "schema" decodeReference = some (some (some reference)) :=
    hf.optional (x := some reference) (by simp) decodeReference_of_holds
  simp [decodeMedia, hr, hschema]

theorem decodeBody_of_holds {slots : List (String × Option Tree)} {v : ν}
    (h : Holds v (.object (present slots))) (hn : (slots.map (·.1)).Nodup) {x : Option Content}
    (hx : ("content", x.map Content.encode) ∈ slots) : decodeBody v = some ((x.map Dict.values).getD []) := by
  obtain ⟨r, hr, hf⟩ := record_of_holds h hn ["content"]
  have hmedia : r.defaulted "content" [] (mapOf decodeMedia) = some _ :=
    hf.defaultedOption ⟨hx, by simp⟩ fun c _ hc => mapOf_of_holds decodeMedia_of_holds hc
  rw [decodeBody_eq, hr, Option.bind_some, hmedia]
  cases x <;> simp [Dict.values, List.filterMap_map, List.filterMap_eq_map']

theorem decodeParameter_of_holds (p : Parameter) {v : ν} (h : Holds v p.encode) :
    decodeParameter v = some (some p.name) := by
  simp only [Parameter.encode, optionalText, optional_eq, field_eq, present_append, List.cons_append,
    List.nil_append] at h
  obtain ⟨r, hr, hf⟩ := record_of_holds h (by simp) ["name"]
  have hname : r.optional "name" text? = some (some p.name) := hf.optionalText (by simp)
  simp [decodeParameter, hr, hname]

theorem decodeBody_of_requestBody (b : RequestBody) {v : ν} (h : Holds v b.encode) :
    decodeBody v = some b.content.values := by
  simp only [RequestBody.encode, optionalText, optional_eq, field_eq, present_append, List.cons_append,
    List.nil_append] at h
  exact decodeBody_of_holds h (by simp) (x := some b.content) (by simp)

theorem decodeBody_of_response (r : Response) {v : ν} (h : Holds v r.encode) :
    decodeBody v = some r.references := by
  simp only [Response.encode, optional_eq, field_eq, present_append, List.cons_append,
    List.nil_append] at h
  exact decodeBody_of_holds h (by simp) (by simp)

theorem Operation.decode_of_holds (o : ApiDocs.Operation) {v : ν} (h : Holds v o.encode) :
    Operation.decode v = some o.outline := by
  simp only [ApiDocs.Operation.encode, optionalText, optional_eq, field_eq, fieldIf_eq, present_append,
    List.cons_append, List.nil_append] at h
  obtain ⟨r, hr, hf⟩ := record_of_holds h (by simp)
    ["operationId", "parameters", "requestBody", "responses"]
  have hid : r.optional "operationId" text? = some o.operationId := hf.optionalText (by simp)
  have hparameters : r.defaulted "parameters" [] (listOf decodeParameter) =
      some (o.parameters.map fun p => some p.name) :=
    hf.listed (l := o.parameters) (by simp) fun p _ => decodeParameter_of_holds p
  have hbody : r.optional "requestBody" decodeBody = some (o.requestBody.map (·.content.values)) :=
    hf.optional (x := o.requestBody) (by simp) decodeBody_of_requestBody
  have hresponses : r.defaulted "responses" [] (mapOf decodeBody) =
      some (o.responses.entries.map fun e => (e.1, e.2.references)) :=
    hf.defaulted true (t := Responses.encode o.responses) (by simp)
      (fun _ _ => mapOf_of_holds fun r _ => decodeBody_of_response r) (by simp)
  simp [Operation.decode, hr, hid, hparameters, hbody, hresponses, ApiDocs.Operation.outline,
    ApiDocs.Operation.references, List.reduceOption, List.flatMap_map, Dict.values]

theorem ofText?_key (m : Method) : Method.ofText? m.key = some m := by
  cases m <;> decide

theorem decodePath_of_holds (i : PathItem) {v : ν} (h : Holds v i.encode) :
    decodePath v = some (i.operations.map fun mo => (mo.1.display, mo.2.outline)) := by
  have hshape : i.encode =
      .object ((i.operations.map fun mo => (mo.1.key, mo.2)).map fun e => (e.1, e.2.encode)) := by
    rw [PathItem.encode, List.map_map]
    rfl
  rw [hshape, Holds] at h
  obtain ⟨_, _, es, hes, _, hfields⟩ := h
  have hkeys : es.map (·.1) = i.operations.map (·.1.key) := by
    simpa [Function.comp_def] using keys_of_holdFields hfields
  -- only methods are keys, so no entry is skipped
  have hall : es.filter (fun e => (Method.ofText? e.1).isSome) = es := by
    refine List.filter_eq_self.mpr fun e he => ?_
    have hmem : e.1 ∈ i.operations.map (·.1.key) := hkeys ▸ List.mem_map.mpr ⟨e, he, rfl⟩
    obtain ⟨mo, _, hmo⟩ := List.mem_map.mp hmem
    rw [← hmo, ofText?_key]
    rfl
  have hread := mapM_of_holdFields (fun o w => Operation.decode_of_holds (v := w) o)
    (fun k => String.ofList (k.toList.map Text.upperAscii)) hfields
  simp only [Option.map_eq_bind, Function.comp_def] at hread
  simp only [decodePath, hes, Option.bind_eq_bind, Option.bind_some, hall, Option.pure_def, hread,
    List.map_map, Method.display, Function.comp_def]

theorem decodeProperty_of_holds (p : ApiDocs.Property) {v : ν} (h : Holds v p.encode) :
    decodeProperty v = some p.references := by
  simp only [ApiDocs.Property.encode, optionalText, ApiDocs.bound, optional_eq, fieldIf_eq, present_append,
    List.cons_append, List.nil_append] at h
  obtain ⟨r, hr, hf⟩ := record_of_holds h (by simp) ["$ref", "items"]
  have hreference : r.optional "$ref" text? = some p.reference := hf.optionalText (by simp)
  have hitems : r.optional "items" decodeReference = some (p.items.map some) :=
    hf.optional (x := p.items) (by simp) decodeReference_of_holds
  cases hp : p.items <;> simp [decodeProperty, hr, hreference, hitems, hp, ApiDocs.Property.references]

theorem decodeSchema_of_holds (s : Schema) {v : ν} (h : Holds v s.encode) :
    decodeSchema v = some (s.properties.entries.map fun p => ⟨p.1, p.2.references⟩) := by
  simp only [Schema.encode, optionalText, optional_eq, fieldIf_eq, present_append, List.cons_append,
    List.nil_append] at h
  obtain ⟨r, hr, hf⟩ := record_of_holds h (by simp) ["properties"]
  have hproperties : r.defaulted "properties" [] (mapOf decodeProperty) =
      some (s.properties.entries.map fun e => (e.1, e.2.references)) := by
    refine hf.defaulted (!s.properties.isEmpty)
      (t := .object (s.properties.entries.map fun e => (e.1, e.2.encode))) (by simp)
      (fun _ _ => mapOf_of_holds fun p _ => decodeProperty_of_holds p) fun he => ?_
    have hnil : s.properties.entries = [] := by simpa [Table.isEmpty] using he
    rw [hnil, List.map_nil]
  simp [decodeSchema, hr, hproperties]

theorem decode_of_holds (d : Document) {v : ν} (h : Holds v d.encode) : decode v = some d.outline := by
  simp only [Document.encode, optional_eq, field_eq, present_append, List.cons_append,
    List.nil_append] at h
  obtain ⟨r, hr, hf⟩ := record_of_holds h (by simp) ["paths", "components"]
  have hpaths : r.defaulted "paths" [] (mapOf decodePath) = some d.outline.paths :=
    hf.defaulted true (t := PathRegistry.encode d.paths) (by simp)
      (fun _ _ => mapOf_of_holds fun i _ => decodePath_of_holds i) (by simp)
  have hschemas : r.defaulted "components" [] (fun v => do
      (← record? ["schemas"] v).defaulted "schemas" [] (mapOf decodeSchema)) = some d.outline.schemas := by
    refine hf.defaulted true (t := d.components.encode) (by simp) (fun _ v hv => ?_) (by simp)
    simp only [Components.encode, fieldIf_eq, present_append, List.cons_append, List.nil_append] at hv
    obtain ⟨c, hc, hg⟩ := record_of_holds hv (by simp) ["schemas"]
    rw [hc]
    refine hg.defaulted (!d.components.schemas.isEmpty) (t := SchemaRegistry.encode d.components.schemas)
      (by simp) (fun _ _ => mapOf_of_holds fun s _ => decodeSchema_of_holds s) fun he => ?_
    have hnil : d.components.schemas.entries = [] := by simpa [Dict.isEmpty] using he
    rw [Document.outline, hnil, List.map_nil]
  simp only [Option.bind_eq_bind] at hschemas
  simp only [decode, hr, hpaths, hschemas, Option.bind_eq_bind, Option.bind_some, Option.pure_def]

end Outline

end

theorem validate_of_recovers {d : Document} {text : String} (h : Yaml.Recovers text d.encode) :
    validate text = d.outline.findings := by
  obtain ⟨v, hv, hd⟩ := h.holds
  rw [validate, hv, Option.bind_some, Outline.decode_of_holds d hd]

/-! ## Repeated elements -/

section
variable {α : Type} [BEq α] [LawfulBEq α]

theorem count_repeatedAfter (a : α) : ∀ l before : List α,
    (repeatedAfter before l).count a =
      if before.count a ≤ 1 ∧ 2 ≤ before.count a + l.count a then 1 else 0
  | [], before => by
    have h : ¬(before.count a ≤ 1 ∧ 2 ≤ before.count a + ([] : List α).count a) := by
      rw [List.count_nil]
      omega
    rw [if_neg h, repeatedAfter, List.count_nil]
  | b :: l, before => by
    have ih := count_repeatedAfter a l (b :: before)
    by_cases hb : b = a
    · subst hb
      simp only [List.count_cons_self] at ih ⊢
      rw [repeatedAfter]
      split <;> simp only [List.count_cons_self, ih] <;> split <;> split <;> omega
    · simp only [List.count_cons_of_ne hb] at ih ⊢
      rw [repeatedAfter]
      split
      · rw [List.count_cons_of_ne hb, ih]
      · exact ih

theorem mem_repeatedAfter {a : α} {l before : List α} : a ∈ repeatedAfter before l ↔
    before.count a ≤ 1 ∧ 2 ≤ before.count a + l.count a := by
  rw [← List.count_pos_iff, count_repeatedAfter]
  split <;> omega

theorem mem_repeated {a : α} {l : List α} : a ∈ repeated l ↔ 2 ≤ l.count a := by
  rw [repeated, mem_repeatedAfter, List.count_nil]
  omega

theorem nodup_repeated (l : List α) : (repeated l).Nodup := by
  refine List.nodup_iff_count_le_one.mpr fun a => ?_
  rw [repeated, count_repeatedAfter]
  split <;> omega

theorem repeated_eq_nil {l : List α} (h : l.Nodup) : repeated l = [] := by
  refine List.eq_nil_iff_forall_not_mem.mpr fun a ha => ?_
  have hle := List.nodup_iff_count_le_one.mp h a
  have hge := mem_repeated.mp ha
  omega

theorem nodup_eraseDups (l : List α) : l.eraseDups.Nodup := by
  induction hn : l.length using Nat.strongRecOn generalizing l with
  | ind n ih =>
    cases l with
    | nil => simp
    | cons a l =>
      rw [List.eraseDups_cons, List.nodup_cons, List.mem_eraseDups]
      have hlen : (l.filter fun b => !b == a).length < n := by
        have := List.length_filter_le (fun b => !b == a) l
        rw [← hn, List.length_cons]
        omega
      exact ⟨by simp, ih _ hlen _ rfl⟩

end

/-- Of elements with distinct keys, at least two satisfy `p` when some two of them do. -/
theorem two_le_countP_iff {α κ : Type} {key : α → κ} {l : List α} (hl : (l.map key).Nodup) (p : α → Bool) :
    2 ≤ l.countP p ↔ ∃ x ∈ l, ∃ y ∈ l, key x ≠ key y ∧ p x = true ∧ p y = true := by
  have hmem : ∀ x, x ∈ l.filter p ↔ x ∈ l ∧ p x = true := fun x => List.mem_filter
  have hn : ((l.filter p).map key).Nodup := hl.sublist (List.filter_sublist.map key)
  rw [List.countP_eq_length_filter]
  match hf : l.filter p with
  | [] =>
    rw [hf] at hmem
    constructor
    · intro h
      simp at h
    · rintro ⟨x, hx, y, hy, hne, hpx, hpy⟩
      cases (hmem x).mpr ⟨hx, hpx⟩
  | [z] =>
    rw [hf] at hmem
    constructor
    · intro h
      simp at h
    · rintro ⟨x, hx, y, hy, hne, hpx, hpy⟩
      have hxz : x = z := by simpa using (hmem x).mpr ⟨hx, hpx⟩
      have hyz : y = z := by simpa using (hmem y).mpr ⟨hy, hpy⟩
      exact absurd (hxz.trans hyz.symm ▸ rfl) hne
  | x :: y :: rest =>
    rw [hf] at hmem hn
    have hx := (hmem x).mp (by simp)
    have hy := (hmem y).mp (by simp)
    have hne : key x ≠ key y := by
      intro he
      simp [he] at hn
    exact ⟨fun _ => ⟨x, hx.1, y, hy.1, hne, hx.2, hy.2⟩, fun _ => by simp⟩

/-! ## What a document holds -/

def Operation.Mentions (o : Operation) (r : String) : Prop :=
  (∃ body media, o.requestBody = some body ∧ body.content.get? media = some r) ∨
    ∃ code response content media, o.responses.get? code = some response ∧
      response.content = some content ∧ content.get? media = some r

def Property.Mentions (p : Property) (r : String) : Prop := p.reference = some r ∨ p.items = some r

theorem Operation.mem_references {o : Operation} {r : String} : r ∈ o.references ↔ o.Mentions r := by
  rw [references, Mentions, List.mem_append, List.mem_flatMap]
  refine or_congr ?_ ?_
  · cases o.requestBody <;> simp [Dict.mem_values]
  · constructor
    · rintro ⟨response, hresponse, hr⟩
      obtain ⟨code, hcode⟩ := Dict.mem_values.mp hresponse
      cases hc : response.content with
      | none => simp [Response.references, hc] at hr
      | some content =>
        have hmem : r ∈ content.values := by simpa [Response.references, hc] using hr
        obtain ⟨media, hmedia⟩ := Dict.mem_values.mp hmem
        exact ⟨code, response, content, media, hcode, hc, hmedia⟩
    · rintro ⟨code, response, content, media, hcode, hc, hmedia⟩
      refine ⟨response, Dict.mem_values.mpr ⟨code, hcode⟩, ?_⟩
      have hmem : r ∈ content.values := Dict.mem_values.mpr ⟨media, hmedia⟩
      simpa [Response.references, hc] using hmem

theorem Property.mem_references {p : Property} {r : String} : r ∈ p.references ↔ p.Mentions r := by
  simp [references, Mentions]

theorem PathItem.mem_operations {i : PathItem} {m : Method} {o : Operation} :
    (m, o) ∈ i.operations ↔ i.operation m = some o := by
  rw [operations, List.mem_filterMap]
  constructor
  · rintro ⟨n, _, h⟩
    obtain ⟨o, ho, he⟩ := Option.map_eq_some_iff.mp h
    cases he
    exact ho
  · exact fun h => ⟨m, m.mem_all, by rw [h]; rfl⟩

theorem PathItem.operations_sorted (i : PathItem) :
    i.operations.Pairwise fun a b => a.1 ≠ b.1 := by
  have hall : Method.all.Nodup := by decide
  rw [operations, List.pairwise_filterMap]
  refine hall.imp ?_
  intro m n hmn a ha b hb
  obtain ⟨_, _, rfl⟩ := Option.map_eq_some_iff.mp ha
  obtain ⟨_, _, rfl⟩ := Option.map_eq_some_iff.mp hb
  exact hmn

namespace Document
variable (d : Document)

def operations : List ((Method × String) × Operation) :=
  d.paths.entries.flatMap fun e => e.2.operations.map fun mo => ((mo.1, e.1), mo.2)

def operation? (slot : Method × String) : Option Operation := PathRegistry.operation? d.paths slot

theorem mem_operations {slot : Method × String} {o : Operation} :
    (slot, o) ∈ d.operations ↔ d.operation? slot = some o := by
  obtain ⟨m, path⟩ := slot
  rw [operations, List.mem_flatMap, operation?, PathRegistry.operation?, PathRegistry.item]
  constructor
  · rintro ⟨⟨p, i⟩, hp, h⟩
    obtain ⟨⟨n, o⟩, ho, he⟩ := List.mem_map.mp h
    cases he
    rw [Dict.mem_entries_iff.mp hp]
    exact PathItem.mem_operations.mp ho
  · intro h
    cases hp : d.paths.get? path with
    | none => simp [hp] at h
    | some i =>
      rw [hp] at h
      exact ⟨(path, i), Dict.mem_entries_iff.mpr hp,
        List.mem_map.mpr ⟨(m, o), PathItem.mem_operations.mpr h, rfl⟩⟩

theorem nodup_slots : (d.operations.map (·.1)).Nodup := by
  rw [operations, List.map_flatMap, List.Nodup, List.pairwise_flatMap]
  constructor
  · intro e _
    rw [List.map_map, List.pairwise_map]
    exact e.2.operations_sorted.imp fun h he => h (Prod.mk.inj he).1
  · refine d.paths.sorted.imp ?_
    intro e f hef x hx y hy he
    simp only [List.map_map, List.mem_map] at hx hy
    obtain ⟨_, _, rfl⟩ := hx
    obtain ⟨_, _, rfl⟩ := hy
    have hpath : e.1 = f.1 := (Prod.ext_iff.mp he).2
    exact String.lt_irrefl f.1 (hpath ▸ hef)

theorem outline_operations : d.outline.operations =
    d.operations.map fun so => (so.1.2, so.1.1.display, so.2.outline) := by
  simp [Outline.operations, outline, operations, List.flatMap_map, List.map_flatMap, Function.comp_def]

def Mentions (r : String) : Prop :=
  (∃ slot o, d.operation? slot = some o ∧ o.Mentions r) ∨
    ∃ name schema key p, d.components.schemas.get? name = some schema ∧
      schema.properties.get? key = some p ∧ p.Mentions r

def Defines (r : String) : Prop := ∃ name ∈ d.components.schemas.keys, r = schemaRef name

/-- What is wrong with a document. -/
def Breaks : Finding → Prop
  | .unresolvedRef r => d.Mentions r ∧ ¬d.Defines r
  | .duplicateOperationId i => ∃ s t o o', s ≠ t ∧ d.operation? s = some o ∧ d.operation? t = some o' ∧
      o.operationId = some i ∧ o'.operationId = some i
  | .pathMissingLeadingSlash path => path ∈ d.paths.keys ∧ path.toList.head? ≠ some '/'
  | .duplicateGetParameter path name => ∃ o, d.operation? (.get, path) = some o ∧
      2 ≤ (o.parameters.map (·.name)).count name
  | .duplicatePropertyName .. | .duplicateMethodPath .. | .unparseable => False

/-! ## The checks on an outline -/

theorem mem_outline_references {r : String} : r ∈ d.outline.references ↔ d.Mentions r := by
  rw [Outline.references, List.mem_append, Mentions, outline_operations]
  refine or_congr ?_ ?_
  · simp only [List.mem_flatMap, List.mem_map]
    constructor
    · rintro ⟨_, ⟨⟨slot, o⟩, ho, rfl⟩, hr⟩
      exact ⟨slot, o, d.mem_operations.mp ho, Operation.mem_references.mp hr⟩
    · rintro ⟨slot, o, ho, hr⟩
      exact ⟨_, ⟨(slot, o), d.mem_operations.mpr ho, rfl⟩, Operation.mem_references.mpr hr⟩
  · simp only [outline, List.mem_flatMap, List.mem_map]
    constructor
    · rintro ⟨_, ⟨⟨name, schema⟩, hs, rfl⟩, _, hp, hr⟩
      obtain ⟨⟨key, p⟩, hkey, rfl⟩ := List.mem_map.mp hp
      exact ⟨name, schema, key, p, Dict.mem_entries_iff.mp hs, Table.mem_entries_iff.mp hkey,
        Property.mem_references.mp hr⟩
    · rintro ⟨name, schema, key, p, hs, hp, hr⟩
      exact ⟨_, ⟨(name, schema), Dict.mem_entries_iff.mpr hs, rfl⟩, _,
        List.mem_map.mpr ⟨(key, p), Table.mem_entries_iff.mpr hp, rfl⟩, Property.mem_references.mpr hr⟩

theorem outline_resolves {r : String} : d.outline.resolves r = true ↔ d.Defines r := by
  simp only [Outline.resolves, outline, List.any_map, List.any_eq_true, Function.comp_apply, beq_iff_eq,
    Defines, Dict.keys, List.mem_map]
  constructor
  · rintro ⟨e, he, rfl⟩
    exact ⟨e.1, ⟨e, he, rfl⟩, rfl⟩
  · rintro ⟨_, ⟨e, he, rfl⟩, rfl⟩
    exact ⟨e, he, rfl⟩

theorem mem_unresolvedRefs {f : Finding} :
    f ∈ d.outline.unresolvedRefs ↔ ∃ r, f = .unresolvedRef r ∧ d.Mentions r ∧ ¬d.Defines r := by
  have hr : ∀ r, (!d.outline.resolves r) = true ↔ ¬d.Defines r := fun r => by
    rw [← outline_resolves, Bool.not_eq_true', Bool.not_eq_true]
  rw [Outline.unresolvedRefs, List.mem_map]
  simp only [List.mem_eraseDups, List.mem_filter, mem_outline_references, hr]
  exact exists_congr fun r => ⟨fun h => ⟨h.2.symm, h.1⟩, fun h => ⟨h.2, h.1.symm⟩⟩

theorem mem_duplicateOperationIds {f : Finding} :
    f ∈ d.outline.duplicateOperationIds ↔ ∃ i, f = .duplicateOperationId i ∧ d.Breaks f := by
  rw [Outline.duplicateOperationIds, List.mem_map, outline_operations, List.filterMap_map]
  refine exists_congr fun i => ?_
  rw [mem_repeated, List.count_filterMap, two_le_countP_iff d.nodup_slots]
  constructor
  · rintro ⟨⟨⟨s, o⟩, ho, ⟨t, o'⟩, ho', hne, hi, hi'⟩, rfl⟩
    exact ⟨rfl, s, t, o, o', hne, d.mem_operations.mp ho, d.mem_operations.mp ho',
      by simpa [Operation.outline] using hi, by simpa [Operation.outline] using hi'⟩
  · rintro ⟨rfl, s, t, o, o', hne, ho, ho', hi, hi'⟩
    exact ⟨⟨(s, o), d.mem_operations.mpr ho, (t, o'), d.mem_operations.mpr ho', hne,
      by simpa [Operation.outline] using hi, by simpa [Operation.outline] using hi'⟩, rfl⟩

theorem duplicatePropertyNames_eq_nil : d.outline.duplicatePropertyNames = [] := by
  rw [Outline.duplicatePropertyNames, List.flatMap_eq_nil_iff]
  intro s hs
  obtain ⟨⟨name, schema⟩, _, rfl⟩ := List.mem_map.mp hs
  have hnames : (schema.properties.entries.map (·.1)).Nodup :=
    List.pairwise_map.mpr schema.properties.nodup
  rw [List.map_map, List.map_eq_nil_iff]
  exact repeated_eq_nil hnames

theorem missingSlashes_eq : d.outline.missingSlashes =
    (d.paths.keys.filter fun path => path.toList.head? != some '/').map .pathMissingLeadingSlash := by
  simp [Outline.missingSlashes, outline, Dict.keys, List.filter_map, Function.comp_def]

theorem mem_missingSlashes {f : Finding} :
    f ∈ d.outline.missingSlashes ↔ ∃ path, f = .pathMissingLeadingSlash path ∧ d.Breaks f := by
  rw [missingSlashes_eq, List.mem_map]
  refine exists_congr fun path => ?_
  rw [List.mem_filter, bne_iff_ne]
  constructor
  · rintro ⟨h, rfl⟩
    exact ⟨rfl, h⟩
  · rintro ⟨rfl, h⟩
    exact ⟨h, rfl⟩

theorem display_inj {m n : Method} (h : m.display = n.display) : m = n := by
  revert h
  cases m <;> cases n <;> decide

theorem duplicateGetParameters_eq : d.outline.duplicateGetParameters =
    (d.operations.filter fun so => so.1.1 = .get).flatMap fun so =>
      (repeated (so.2.parameters.map (·.name))).map (.duplicateGetParameter so.1.2) := by
  have hget : ∀ m : Method, (m.display == "GET") = decide (m = .get) := by
    intro m
    cases m <;> decide
  simp only [Outline.duplicateGetParameters, outline_operations, List.filter_map, List.flatMap_map,
    Function.comp_def, hget]
  rfl

theorem mem_duplicateGetParameters {f : Finding} :
    f ∈ d.outline.duplicateGetParameters ↔
      ∃ path name, f = .duplicateGetParameter path name ∧ d.Breaks f := by
  rw [duplicateGetParameters_eq, List.mem_flatMap]
  constructor
  · rintro ⟨⟨⟨m, path⟩, o⟩, ho, hf⟩
    obtain ⟨name, hname, rfl⟩ := List.mem_map.mp hf
    obtain ⟨ho, hm⟩ := List.mem_filter.mp ho
    obtain rfl : m = .get := by simpa using hm
    exact ⟨path, name, rfl, o, d.mem_operations.mp ho, mem_repeated.mp hname⟩
  · rintro ⟨path, name, rfl, o, ho, hname⟩
    exact ⟨((.get, path), o), List.mem_filter.mpr ⟨d.mem_operations.mpr ho, by simp⟩,
      List.mem_map.mpr ⟨name, mem_repeated.mpr hname, rfl⟩⟩

theorem duplicateMethodPaths_eq_nil : d.outline.duplicateMethodPaths = [] := by
  rw [Outline.duplicateMethodPaths, outline_operations, List.map_map, List.map_eq_nil_iff]
  have hinj : Function.Injective fun s : Method × String => (s.1.display, s.2) := by
    intro s t h
    obtain ⟨hm, hp⟩ := Prod.mk.inj h
    exact Prod.ext (display_inj hm) hp
  have hslots := d.nodup_slots.map hinj
  rw [List.map_map] at hslots
  exact repeated_eq_nil hslots

/-! ## What is reported -/

theorem findings_outline : d.outline.findings = d.outline.unresolvedRefs ++ d.outline.duplicateOperationIds ++
    d.outline.missingSlashes ++ d.outline.duplicateGetParameters := by
  rw [Outline.findings, duplicatePropertyNames_eq_nil, duplicateMethodPaths_eq_nil, List.append_nil,
    List.append_nil]

theorem mem_findings_outline (f : Finding) : f ∈ d.outline.findings ↔ d.Breaks f := by
  rw [findings_outline]
  simp only [List.mem_append, mem_unresolvedRefs, mem_duplicateOperationIds, mem_missingSlashes,
    mem_duplicateGetParameters]
  cases f <;> simp [Breaks]

theorem nodup_duplicateGetParameters : d.outline.duplicateGetParameters.Nodup := by
  rw [duplicateGetParameters_eq, List.nodup_flatMap]
  constructor
  · intro so _
    exact (nodup_repeated _).map fun _ _ h => (Finding.duplicateGetParameter.inj h).2
  · -- two slots of the same method differ in their paths
    have hslots := (List.pairwise_map.mp d.nodup_slots).filter fun so => so.1.1 = .get
    refine hslots.imp_of_mem ?_
    intro a b ha hb hne f hf hf'
    obtain ⟨_, _, rfl⟩ := List.mem_map.mp hf
    obtain ⟨_, _, he⟩ := List.mem_map.mp hf'
    have hget : a.1.1 = .get := by simpa using (List.mem_filter.mp ha).2
    have hget' : b.1.1 = .get := by simpa using (List.mem_filter.mp hb).2
    exact hne (Prod.ext (hget.trans hget'.symm) (Finding.duplicateGetParameter.inj he).1.symm)

theorem nodup_findings_outline : d.outline.findings.Nodup := by
  have hrefs : d.outline.unresolvedRefs.Nodup :=
    (nodup_eraseDups _).map fun _ _ => Finding.unresolvedRef.inj
  have hids : d.outline.duplicateOperationIds.Nodup :=
    (nodup_repeated _).map fun _ _ => Finding.duplicateOperationId.inj
  have hslashes : d.outline.missingSlashes.Nodup := by
    rw [missingSlashes_eq]
    exact (d.paths.nodup_keys.filter _).map fun _ _ => Finding.pathMissingLeadingSlash.inj
  have hparameters := d.nodup_duplicateGetParameters
  rw [findings_outline]
  simp only [List.nodup_append, hrefs, hids, hslashes, hparameters, true_and, List.mem_append,
    mem_unresolvedRefs, mem_duplicateOperationIds, mem_missingSlashes, mem_duplicateGetParameters]
  grind

theorem mem_validate_iff {d : Document} {text : String} (h : Yaml.Recovers text d.encode) (f : Finding) :
    f ∈ validate text ↔ d.Breaks f := by
  rw [validate_of_recovers h, mem_findings_outline]

end Document

/-- Every defect of a document is reported for its text, once, and nothing else is reported. -/
theorem validate_render_yaml (d : Document) (h : Yaml.Recovers (d.render .yaml) d.encode) :
    (validate (d.render .yaml)).Nodup ∧ ∀ f, f ∈ validate (d.render .yaml) ↔ d.Breaks f := by
  refine ⟨?_, Document.mem_validate_iff h⟩
  rw [validate_of_recovers h]
  exact d.nodup_findings_outline

/-- A document with a path without a slash, a parameter that is there twice and a reference to nothing. -/
def draftDocument : Document where
  openapi := "3"
  info := { title := "U", version := "1" }
  paths := Dict.empty.insert "u" { get := some {
    parameters := [{ name := "p", location := "query" }, { name := "p", location := "query" }]
    responses := Dict.empty.insert "200" {
      description := "OK", content := some (Dict.empty.insert "j" "#U") } } }

theorem recovers_draftDocument : Yaml.Recovers (draftDocument.render .yaml) draftDocument.encode := by
  have h : Yaml.spells (Yaml.renderChars draftDocument.encode) draftDocument.encode = true := by
    decide +kernel
  exact Yaml.recovers_render h

theorem validate_render_yaml_draft : Yaml.Recovers (draftDocument.render .yaml) draftDocument.encode ∧
    ((validate (draftDocument.render .yaml)).Nodup ∧
      ∀ f, f ∈ validate (draftDocument.render .yaml) ↔ draftDocument.Breaks f) ∧
    draftDocument.Breaks (.unresolvedRef "#U") ∧ draftDocument.Breaks (.pathMissingLeadingSlash "u") ∧
      draftDocument.Breaks (.duplicateGetParameter "u" "p") := by
  refine ⟨recovers_draftDocument, validate_render_yaml _ recovers_draftDocument, ?_,
    ⟨by decide, by decide⟩, ?_⟩
  · refine ⟨.inl ⟨(.get, "u"), _, rfl, .inr ⟨"200", _, _, "j", rfl, rfl, rfl⟩⟩, ?_⟩
    rintro ⟨name, hname, _⟩
    cases hname
  · exact ⟨_, rfl, by decide⟩

end ApiDocs
