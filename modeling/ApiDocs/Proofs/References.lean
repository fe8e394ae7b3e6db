import ApiDocs.Proofs.BuildOrder
import ApiDocs.Proofs.Findings

/-!
# References of built documents

The checks look at request bodies, responses and schemas, and not at parameters. That is enough for a
document that was built in steps: the schema of a parameter is that of a property, and the schema of the
property is still there.
-/

namespace ApiDocs

/-! ## References -/

def ParameterSchema.Mentions (s : ParameterSchema) (r : String) : Prop :=
  s.reference = some r ∨ s.items = some r

/-- The reference stands anywhere in the document: at an operation or a property, at a parameter, or in
a shared request body. -/
def Document.Refers (d : Document) (r : String) : Prop :=
  d.Mentions r ∨ (∃ slot o p, d.operation? slot = some o ∧ p ∈ o.parameters ∧ p.schema.Mentions r) ∨
    ∃ name body media, d.components.requestBodies.get? name = some body ∧ body.content.get? media = some r

theorem RouteContext.mem_parameters {ctx : RouteContext} {name : String} {p : Parameter}
    (h : p ∈ ctx.parameters name) : ∃ schema key property, ctx.schemas.get? name = some schema ∧
      schema.properties.get? key = some property ∧ p = .ofProperty key property := by
  unfold parameters at h
  split at h
  · cases h
  · split at h
    · rename_i schema hs
      obtain ⟨e, he, rfl⟩ := List.mem_map.mp h
      exact ⟨schema, e.1, e.2, hs, Table.mem_entries_iff.mp he, rfl⟩
    · cases h

section
variable {fetch : Fetch} {allowed : Step → Disk → Prop} {b : Builder} {files : List SourceFile}

theorem requestBodies_run (h : Run fetch allowed {} b files) : b.document.components.requestBodies = {} := by
  induction h with
  | refl => rfl
  | @set b' _ s _ ih => rw [(setting_document b' s).2.2, ih]
  | step _ _ hs ih => cases hs.effect <;> exact ih

/-- A reference of a parameter is that of a property. -/
theorem mentions_of_parameter (hallowed : ∀ s disk, allowed s disk → s.isAddPaths = false)
    (h : Run fetch allowed {} b files) {slot : Method × String} {o : Operation} {p : Parameter} {r : String}
    (ho : b.document.operation? slot = some o) (hp : p ∈ o.parameters) (hr : p.schema.Mentions r) :
    b.document.Mentions r := by
  obtain ⟨m, path⟩ := slot
  obtain ⟨_, _, record, _, hrecord⟩ := (described_run hallowed h).record _ _ ho
  obtain ⟨_, _, rfl⟩ := Record.operationAt_eq_some hrecord
  -- the parameter was made from a property of a schema of the final context
  obtain ⟨schema, key, property, hs, hproperty, rfl⟩ := RouteContext.mem_parameters hp
  exact .inr ⟨_, schema, key, property, hs, hproperty, hr⟩

end

/-- **References resolve.** If the checks find no reference without a schema in the text of a document,
there is none in it, not even where they do not look. -/
theorem references_resolve {fetch : Fetch} {b : Builder} {files : List SourceFile}
    (h : Run fetch (fun s _ => s.isAddPaths = false) {} b files) (f : Format)
    (hread : Yaml.Recovers (b.document.render f) b.document.encode)
    (hv : ∀ r, .unresolvedRef r ∉ validate (b.document.render f)) :
    ∀ r, b.document.Refers r → ∃ name ∈ b.document.components.schemas.keys, r = schemaRef name := by
  have hmentions : ∀ r, b.document.Mentions r → b.document.Defines r := by
    intro r hr
    by_contra hd
    exact hv r ((Document.mem_validate_iff hread _).mpr ⟨hr, hd⟩)
  rintro r (hr | ⟨slot, o, p, ho, hp, hr⟩ | ⟨name, body, media, hb, _⟩)
  · exact hmentions r hr
  · exact hmentions r (mentions_of_parameter (fun _ _ ha => ha) h ho hp hr)
  · rw [requestBodies_run h] at hb
    cases hb

/-! ## A run -/

def sourceDisk (source : String) : Disk :=
  { root := .directory [("s", .directory [("u.rs", .file source.toUTF8)])], here := [] }

def untitled : Builder := Setting.apply {} (.info { title := "U", version := "1" })

def nodeSchemas : SchemaRegistry := Dict.empty.insert "U" (.object (Table.empty.insert "p"
  { location := "query", reference := some (schemaRef "U") }) [])

def nodePaths : PathRegistry := Dict.empty.insert "/u" { get := some {
  operationId := some "UGet"
  parameters := [{ name := "p", location := "query", schema := { reference := some (schemaRef "U") } }]
  responses := Dict.empty.insert "200" { description := "OK" } } }

def nodeDocument : Document where
  openapi := "3.0.0"
  info := { title := "U", version := "1" }
  paths := nodePaths
  components := { schemas := nodeSchemas }

def nodeBuilt : Builder := (untitled.mergeSchemas nodeSchemas).addPaths nodePaths

theorem document_nodeBuilt : nodeBuilt.document = nodeDocument := by decide +kernel

theorem parseSchemas_node : (Step.parseSchemas "/s").ComesTo (fun _ => none) untitled
    (sourceDisk "/// @apiDefine: U\nstruct U { p: U }") (.ok (untitled.mergeSchemas nodeSchemas)) := by
  refine comesTo_of_toOption ?_
  decide +kernel

theorem parsePaths_node : (Step.parsePaths "/s").ComesTo (fun _ => none) (untitled.mergeSchemas nodeSchemas)
    (sourceDisk "//!@apiPath:/u @apiMethod:GET @apiParametersRef:U") (.ok nodeBuilt) := by
  refine comesTo_of_toOption ?_
  decide +kernel

theorem recovers_nodeBuilt :
    Yaml.Recovers (nodeBuilt.document.render .yaml) nodeBuilt.document.encode := by
  have h : Yaml.spells (Yaml.renderChars nodeDocument.encode) nodeDocument.encode = true := by
    decide +kernel
  rw [document_nodeBuilt]
  exact Yaml.recovers_render h

theorem references_resolve_node :
    (∃ slot o p, nodeBuilt.document.operation? slot = some o ∧ p ∈ o.parameters ∧
      p.schema.Mentions (schemaRef "U")) ∧
    ∀ r, nodeBuilt.document.Refers r →
      ∃ name ∈ nodeBuilt.document.components.schemas.keys, r = schemaRef name := by
  have hclean : ∀ r, .unresolvedRef r ∉ validate (nodeBuilt.document.render .yaml) := by
    have hnone : nodeDocument.outline.findings = [] := by decide +kernel
    rw [validate_of_recovers recovers_nodeBuilt, document_nodeBuilt, hnone]
    exact fun _ => List.not_mem_nil
  constructor
  · rw [document_nodeBuilt]
    exact ⟨(.get, "/u"), _, _, rfl, List.mem_singleton_self _, .inl rfl⟩
  · exact references_resolve (.step (.step (.set _ .refl) rfl parseSchemas_node) rfl parsePaths_node) .yaml
      recovers_nodeBuilt hclean

end ApiDocs
