import ApiDocs.Proofs.Directive.CommentStyle
import ApiDocs.Proofs.WellFormed

/-!
# Parameters of an operation

A record names a schema, and every property of it becomes a parameter. Where the property travels decides
whether the parameter is required: in the path it is, and elsewhere it is not, even if the schema
lists it as required.
-/

namespace ApiDocs

/-! ## Documented names -/

theorem ne_empty_of_mem_documentedNames {blocks : List String} {kind : DeclarationKind} {name : String}
    (h : name ∈ documentedNames blocks kind) : name ≠ "" := by
  obtain ⟨d, _, hd⟩ := List.mem_filterMap.mp (List.mem_eraseDups.mp h)
  unfold Directive.marks? at hd
  split at hd
  · rename_i hmark
    cases hd
    intro hempty
    have hblank := (Directive.firstWord_eq_empty_iff d.value).mp hempty
    simp [hblank] at hmark
  · cases hd

namespace Declaration

variable {kind : DeclarationKind} {documented : List String} {d : Declaration}

mutual
theorem name_mem_of_mem_ofItem : ∀ {i : Source.Item}, d ∈ ofItem kind documented i → d.name ∈ documented
  | .struct _ name (some fields) _, h => by
    unfold ofItem at h
    split at h
    · rename_i hname
      rw [List.mem_singleton.mp h]
      exact List.contains_iff_mem.mp hname
    · cases h
  | .struct _ _ none _, h => by
    unfold ofItem at h
    cases h
  | .enum _ name variants _, h => by
    unfold ofItem at h
    split at h
    · rename_i hname
      rw [List.mem_singleton.mp h]
      exact List.contains_iff_mem.mp hname.2
    · cases h
  | .inlineModule _ items, h => by
    unfold ofItem at h
    exact name_mem_of_mem_ofItems h
  | .other _ _, h => by
    unfold ofItem at h
    cases h
  | .undocumented _, h => by
    unfold ofItem at h
    cases h
theorem name_mem_of_mem_ofItems : ∀ {is : List Source.Item}, d ∈ ofItems kind documented is →
    d.name ∈ documented
  | [], h => by
    unfold ofItems at h
    cases h
  | i :: is, h => by
    unfold ofItems at h
    rcases List.mem_append.mp h with h | h
    · exact name_mem_of_mem_ofItem h
    · exact name_mem_of_mem_ofItems h
end

theorem name_ne_empty_of_scan {file : SourceFile} {ds : List Declaration} (h : scan file kind = .ok ds)
    (hd : d ∈ ds) : d.name ≠ "" := by
  unfold scan at h
  split at h
  · cases h
  · cases h
    exact ne_empty_of_mem_documentedNames (name_mem_of_mem_ofItems hd)

end Declaration

/-! ## Properties of a structure -/

theorem FieldMarks.locationOrQuery_ne_empty (m : FieldMarks) : m.locationOrQuery ≠ "" := by
  unfold locationOrQuery
  split
  · decide
  · rename_i h
    simpa using h

theorem Property.location_ofField? {f : DeclaredField} {p : Property} (h : ofField? f = some p) :
    p.location = f.marks.locationOrQuery := by
  unfold ofField? at h
  split at h
  · cases h
  · split at h <;> cases h <;> rfl

namespace Schema
variable {d : Declaration} {f : DeclaredField} {p : Property} {before after : List (DeclaredField × Property)}

theorem property_of_mem_described (h : (f, p) ∈ described d) : Property.ofField? f = some p := by
  obtain ⟨g, _, hg⟩ := List.mem_filterMap.mp h
  obtain ⟨q, hq, he⟩ := Option.map_eq_some_iff.mp hg
  cases he
  exact hq

theorem get?_ofStruct (h : described d = before ++ (f, p) :: after)
    (hlast : ∀ g ∈ after, g.1.name ≠ f.name) : (ofStruct d).properties.get? f.name = some p := by
  have hget := Table.get?_ofList (fun fp : DeclaredField × Property => fp.1.name) (·.2) (described d) f.name
  refine hget.trans (Option.map_eq_some_iff.mpr ⟨(f, p), ?_, rfl⟩)
  exact find?_reverse_eq_some_iff.mpr ⟨before, after, h, decide_eq_true rfl, fun g hg => decide_eq_false (hlast g hg)⟩

theorem mem_required_ofStruct (h : (f, p) ∈ described d) (hf : f.marks.required = true) :
    f.name ∈ (ofStruct d).required :=
  List.mem_map.mpr ⟨(f, p), List.mem_filter.mpr ⟨h, hf⟩, rfl⟩

end Schema

/-! ## Parameters -/

/-- The parameter is made from the property under the key: it has its name and place, and its schema. -/
structure Parameter.Carries (key : String) (p : Property) (q : Parameter) : Prop where
  name : q.name = key
  location : q.location = if p.location = "" then "query" else p.location
  type : q.schema.type = p.type
  format : q.schema.format = p.format
  reference : q.schema.reference = p.reference
  items : q.schema.items = p.items
  sample : q.sample = p.sample

theorem Parameter.carries_ofProperty (key : String) (p : Property) : (ofProperty key p).Carries key p where
  name := rfl
  location := by simp [ofProperty]
  type := rfl
  format := rfl
  reference := rfl
  items := rfl
  sample := rfl

theorem RouteContext.parameters_eq {ctx : RouteContext} {name : String} {s : Schema} (hname : name ≠ "")
    (hs : ctx.schemas.get? name = some s) :
    ctx.parameters name = s.properties.entries.map fun e => .ofProperty e.1 e.2 := by
  have hempty : ¬name.isEmpty = true := by simpa using hname
  rw [parameters, if_neg hempty, hs]

/-- The parameters of a record that names a documented structure are its properties, one for one and in
order. A parameter is required exactly if it travels in the path, so it respects the list of required
properties exactly if it travels there or is not on the list. The place is the one in the marks of the
field, and the mark as required puts the field on the list. -/
theorem parameters_of_struct {file : SourceFile} {ds : List Declaration} {d : Declaration}
    (hscan : Declaration.scan file .schema = .ok ds) (hd : d ∈ ds) {ctx : RouteContext}
    (hctx : ctx.schemas.get? d.name = some (Schema.ofStruct d)) {r : Record}
    (hr : r.parametersRef = d.name) (m : Method) (path : String) :
    let schema := Schema.ofStruct d
    let parameters := (ctx.operation r m path).parameters
    List.Forall₂ (fun e q => q.Carries e.1 e.2) schema.properties.entries parameters ∧
    (∀ q ∈ parameters, (q.required = true ↔ q.location = "path") ∧
      ((q.required = true ↔ q.location = "path" ∨ q.name ∈ schema.required) ↔
        (q.name ∈ schema.required → q.location = "path"))) ∧
    ∀ before f p after, Schema.described d = before ++ (f, p) :: after →
      (∀ g ∈ after, g.1.name ≠ f.name) →
        (f.marks.required = true → f.name ∈ schema.required) ∧
        ∃ q ∈ parameters, q.Carries f.name p ∧ q.location = f.marks.locationOrQuery := by
  intro schema parameters
  have hparameters : parameters = schema.properties.entries.map fun e => Parameter.ofProperty e.1 e.2 := by
    have hname := Declaration.name_ne_empty_of_scan hscan hd
    exact (congrArg ctx.parameters hr).trans (RouteContext.parameters_eq hname hctx)
  refine ⟨?_, ?_, ?_⟩
  · rw [hparameters, List.forall₂_map_right_iff, List.forall₂_same]
    exact fun e _ => Parameter.carries_ofProperty e.1 e.2
  · intro q hq
    rw [hparameters] at hq
    obtain ⟨e, _, rfl⟩ := List.mem_map.mp hq
    have hrequired : (Parameter.ofProperty e.1 e.2).required = true ↔
        (Parameter.ofProperty e.1 e.2).location = "path" := by simp [Parameter.ofProperty]
    refine ⟨hrequired, ?_⟩
    rw [hrequired]
    tauto
  · intro before f p after hdescribed hlast
    have hmem : (f, p) ∈ Schema.described d := by simp [hdescribed]
    refine ⟨Schema.mem_required_ofStruct hmem, Parameter.ofProperty f.name p, ?_,
      Parameter.carries_ofProperty f.name p, ?_⟩
    · rw [hparameters]
      exact List.mem_map.mpr
        ⟨(f.name, p), Table.mem_entries_iff.mpr (Schema.get?_ofStruct hdescribed hlast), rfl⟩
    · have hlocation := Property.location_ofField? (Schema.property_of_mem_described hmem)
      rw [(Parameter.carries_ofProperty f.name p).location, hlocation, if_neg f.marks.locationOrQuery_ne_empty]

/-! ## A required query parameter -/

def pageSource : String :=
  "/// @apiDefine: Page\nstruct Page \x7b #[openapi(\"in:query;required\")] number: u32, #[openapi(\"in:path\")] id: u32 \x7d"

def pageDeclaration : Declaration where
  name := "Page"
  fields := [
    { name := "number", marks := { location := "query", required := true }, marked := true
      type := some (.primitive "u32") },
    { name := "id", marks := { location := "path" }, marked := true, type := some (.primitive "u32") }]

theorem scan_page : ∃ file, SourceFile.parse "page.rs" pageSource = .ok file ∧
    Declaration.scan file .schema = .ok [pageDeclaration] := by
  have h : (SourceFile.parse "page.rs" pageSource).toOption.bind
      (fun file => (Declaration.scan file .schema).toOption) = some [pageDeclaration] := by
    decide +kernel
  cases hparse : SourceFile.parse "page.rs" pageSource with
  | error e =>
    rw [hparse] at h
    cases h
  | ok file =>
    rw [hparse] at h
    refine ⟨file, rfl, ?_⟩
    cases hscan : Declaration.scan file .schema with
    | error e => simp [Except.toOption, hscan] at h
    | ok ds => simpa [Except.toOption, hscan] using h

def pageContext : RouteContext where
  schemas := Dict.empty.insert "Page" (Schema.ofStruct pageDeclaration)

def pageRecord : Record := { path := "/users", method := "GET", parametersRef := "Page" }

theorem schemas_pageContext :
    pageContext.schemas.get? pageDeclaration.name = some (Schema.ofStruct pageDeclaration) := by
  rw [pageContext, Dict.get?_insert]
  rfl

theorem parameters_of_struct_page :
    (∃ file ds, Declaration.scan file .schema = .ok ds ∧ pageDeclaration ∈ ds) ∧
    pageContext.schemas.get? pageDeclaration.name = some (Schema.ofStruct pageDeclaration) ∧
    pageRecord.parametersRef = pageDeclaration.name ∧
    List.Forall₂ (fun e q => q.Carries e.1 e.2) (Schema.ofStruct pageDeclaration).properties.entries
      (pageContext.operation pageRecord .get "/users").parameters ∧
    ∀ q ∈ (pageContext.operation pageRecord .get "/users").parameters,
      (q.required = true ↔ q.location = "path") := by
  obtain ⟨file, _, hscan⟩ := scan_page
  have hmem : pageDeclaration ∈ [pageDeclaration] := List.mem_singleton_self _
  have h := parameters_of_struct hscan hmem schemas_pageContext (r := pageRecord) rfl .get "/users"
  exact ⟨⟨file, _, hscan, hmem⟩, schemas_pageContext, rfl, h.1, fun q hq => (h.2.1 q hq).1⟩

/-- The field is marked as required and the schema lists it, but the parameter is not required. -/
theorem query_parameter_not_required : (∃ file, SourceFile.parse "page.rs" pageSource = .ok file ∧
      Declaration.scan file .schema = .ok [pageDeclaration]) ∧
    pageContext.schemas.get? pageDeclaration.name = some (Schema.ofStruct pageDeclaration) ∧
    "number" ∈ (Schema.ofStruct pageDeclaration).required ∧
    ∃ q ∈ (pageContext.operation pageRecord .get "/users").parameters,
      q.name = "number" ∧ q.location = "query" ∧ q.required = false := by
  refine ⟨scan_page, schemas_pageContext, by decide, ?_⟩
  exact ⟨_, List.mem_cons_self .., rfl, rfl, rfl⟩

end ApiDocs
