import ApiDocs.Proofs.References
import ApiDocs.Proofs.Responses

/-!
# Well-formed documents

What holds of every document whose schemas and operations were all found in sources, whatever they are:
each part is as complete as the format asks for, and no name is there twice. So of all that the checks
can find, only two kinds are left.
-/

namespace ApiDocs

/-! ## Schemas -/

/-- The property has a type or refers to a schema, and then says nothing else. Only an array has items. -/
structure Property.WellFormed (p : Property) : Prop where
  kind : p.type.isSome = true ∧ p.reference = none ∨ p.type = none ∧ p.reference.isSome = true
  bare : p.reference.isSome = true → p.format = none ∧ p.sample = none ∧ p.pattern = none ∧
    p.items = none ∧ p.nullable = false ∧ p.maxLength = 0 ∧ p.minLength = 0 ∧ p.maximum = 0 ∧ p.minimum = 0
  array : p.items.isSome = true → p.type = some "array" ∧ p.format = none

structure ParameterSchema.WellFormed (s : ParameterSchema) : Prop where
  kind : s.type.isSome = true ∧ s.reference = none ∨ s.type = none ∧ s.reference.isSome = true
  bare : s.reference.isSome = true → s.format = none ∧ s.items = none
  array : s.items.isSome = true → s.type = some "array" ∧ s.format = none

theorem Property.wellFormed_of_ofField? {f : DeclaredField} {p : Property} (h : ofField? f = some p) :
    p.WellFormed := by
  unfold ofField? at h
  split at h
  · cases h
  · split at h <;> cases h
    · exact ⟨.inr ⟨rfl, rfl⟩, fun _ => ⟨rfl, rfl, rfl, rfl, rfl, rfl, rfl, rfl, rfl⟩, nofun⟩
    · exact ⟨.inl ⟨rfl, rfl⟩, nofun, fun _ => ⟨rfl, rfl⟩⟩
    · exact ⟨.inl ⟨rfl, rfl⟩, nofun, nofun⟩

theorem Property.WellFormed.parameter {p : Property} (h : p.WellFormed) (name : String) :
    (Parameter.ofProperty name p).schema.WellFormed where
  kind := h.kind
  bare hr := ⟨(h.bare hr).1, (h.bare hr).2.2.2.1⟩
  array := h.array

def Schema.WellFormed (s : Schema) : Prop := ∀ key p, s.properties.get? key = some p → p.WellFormed

theorem Schema.wellFormed_ofDeclaration (kind : DeclarationKind) (d : Declaration) :
    (ofDeclaration kind d).WellFormed := by
  intro key p h
  cases kind with
  | enumeration => cases h
  | schema =>
    have hget := Table.get?_ofList (fun fp : DeclaredField × Property => fp.1.name) (·.2) (described d) key
    obtain ⟨fp, hfp, rfl⟩ := Option.map_eq_some_iff.mp (hget.symm.trans h)
    have hmem : fp ∈ described d := List.mem_reverse.mp (List.mem_of_find?_eq_some hfp)
    obtain ⟨f, _, hq⟩ := List.mem_filterMap.mp hmem
    obtain ⟨p, hp, he⟩ := Option.map_eq_some_iff.mp hq
    cases he
    exact Property.wellFormed_of_ofField? hp

theorem wellFormed_declaredSchemas {kind : DeclarationKind} {units : List (List SourceFile)} {name : String}
    {s : Schema} (h : (declaredSchemas kind units).get? name = some s) : s.WellFormed := by
  have hfind := (accounts_aggregate (units.map (yields (SchemaRegistry.ofFile kind)))).find_eq name
  obtain ⟨r, hr, hs⟩ := List.exists_of_findSome?_eq_some (hfind.symm.trans h)
  obtain ⟨files, hfiles, hr⟩ := List.mem_flatten.mp (List.mem_reverse.mp hr)
  obtain ⟨_, _, rfl⟩ := List.mem_map.mp hfiles
  obtain ⟨file, _, hfile⟩ := List.mem_filterMap.mp hr
  -- the registry of a file holds the schemas of its declarations
  unfold SchemaRegistry.ofFile at hfile
  cases hscan : Declaration.scan file kind with
  | error e =>
    rw [hscan] at hfile
    cases hfile
  | ok ds =>
    rw [hscan] at hfile
    cases hfile
    have hget := Dict.get?_ofList (·.name) (Schema.ofDeclaration kind) ds name
    obtain ⟨d, _, rfl⟩ := Option.map_eq_some_iff.mp (hget.symm.trans hs)
    exact Schema.wellFormed_ofDeclaration kind d

/-! ## Tags -/

theorem mem_placeTag {tag t : Tag} : ∀ {ts : List Tag}, t ∈ Builder.placeTag tag ts → t = tag ∨ t ∈ ts
  | [], h => .inl (List.mem_singleton.mp h)
  | u :: ts, h => by
    rw [Builder.placeTag] at h
    split at h
    · exact (List.mem_cons.mp h).imp_right (List.mem_cons_of_mem u)
    · rcases List.mem_cons.mp h with rfl | h
      · exact .inr (List.mem_cons_self ..)
      · exact (mem_placeTag h).imp_right (List.mem_cons_of_mem u)

theorem nodup_placeTag (tag : Tag) : ∀ {ts : List Tag}, (ts.map (·.name)).Nodup →
    ((Builder.placeTag tag ts).map (·.name)).Nodup
  | [], _ => List.nodup_singleton _
  | t :: ts, h => by
    rw [List.map_cons, List.nodup_cons] at h
    rw [Builder.placeTag]
    split
    · rename_i hname
      rw [List.map_cons, List.nodup_cons, ← hname]
      exact h
    · rename_i hname
      rw [List.map_cons, List.nodup_cons]
      refine ⟨fun hmem => ?_, nodup_placeTag tag h.2⟩
      obtain ⟨u, hu, hut⟩ := List.mem_map.mp hmem
      rcases mem_placeTag hu with rfl | hu
      · exact hname hut.symm
      · exact h.1 (List.mem_map.mpr ⟨u, hu, hut⟩)

theorem nodup_tagNames {disk : Disk} (ht : disk.root.IsTree) {directory : String}
    {children : List (String × Entry)} (h : disk.list directory = .ok children) (ignored : List String) :
    (Builder.tagNames ignored children).Nodup := by
  unfold Disk.list at h
  cases he : disk.entry directory with
  | error e =>
    rw [he] at h
    cases h
  | ok e =>
    rw [he] at h
    cases e with
    | file content => cases h
    | sealed => cases h
    | directory entries =>
      cases h
      have htree := Disk.isTree_of_entry ht he
      rw [Entry.IsTree] at htree
      have hnames : ((entries.mergeSort fun a b => a.1 ≤ b.1).map (·.1)).Nodup :=
        ((List.mergeSort_perm ..).map _).nodup_iff.mpr htree.1
      exact hnames.sublist (List.filter_sublist.map _)

/-! ## Runs -/

def Step.isAddSchemas : Step → Bool
  | addSchemas _ => true
  | _ => false

/-- The step finds schemas and operations in sources only, on a tree of files. -/
def Step.readsSources (s : Step) (disk : Disk) : Prop :=
  s.isAddPaths = false ∧ s.isAddSchemas = false ∧ disk.root.IsTree

/-- The parts of a builder's document that are not described by records are well-formed. -/
structure Sound (b : Builder) : Prop where
  tags : (b.document.tags.map (·.name)).Nodup
  tight : PathRegistry.Tight b.document.paths
  schemas : ∀ name s, b.document.components.schemas.get? name = some s → s.WellFormed

theorem sound_new : Sound {} where
  tags := List.nodup_nil
  tight _ _ h := by cases h
  schemas _ _ h := by cases h

theorem Sound.mergeSchemas {b : Builder} (h : Sound b) (kind : DeclarationKind)
    (units : List (List SourceFile)) : Sound (b.mergeSchemas (declaredSchemas kind units)) where
  tags := h.tags
  tight := h.tight
  schemas name s hs := by
    have hget := SchemaRegistry.get?_merge b.document.components.schemas (declaredSchemas kind units) name
    rcases Option.or_eq_some_iff.mp (hget.symm.trans hs) with hnew | ⟨_, hold⟩
    · exact wellFormed_declaredSchemas hnew
    · exact h.schemas name s hold

theorem Sound.effect {b b' : Builder} {s : Step} {disk : Disk} (h : Sound b) (he : Effect disk b s b')
    (hs : s.isAddSchemas = false) (ht : disk.root.IsTree) : Sound b' := by
  cases he with
  | errors _ _ responses => exact ⟨h.tags, h.tight, h.schemas⟩
  | declared kind _ _ _ units => exact h.mergeSchemas kind units
  | schemas found => cases hs
  | operations root units => exact ⟨h.tags, PathRegistry.tight_merge h.tight _, h.schemas⟩
  | paths paths => exact ⟨h.tags, PathRegistry.tight_merge h.tight _, h.schemas⟩
  | tag tag => exact ⟨nodup_placeTag tag h.tags, h.tight, h.schemas⟩
  | tags ignored hlist =>
    refine ⟨?_, h.tight, h.schemas⟩
    simpa [Builder.setTags, Function.comp_def] using nodup_tagNames ht hlist ignored
  | servers servers => exact ⟨h.tags, h.tight, h.schemas⟩
  | security schemes => exact ⟨h.tags, h.tight, h.schemas⟩
  | viewer config => exact h

theorem sound_run {fetch : Fetch} {b : Builder} {files : List SourceFile}
    (h : Run fetch Step.readsSources {} b files) : Sound b := by
  induction h with
  | refl => exact sound_new
  | @set b' _ s _ ih =>
    obtain ⟨htags, hpaths, hcomponents⟩ := setting_document b' s
    exact ⟨htags ▸ ih.tags, hpaths ▸ ih.tight, hcomponents ▸ ih.schemas⟩
  | step _ ha hs ih => exact ih.effect hs.effect ha.2.1 ha.2.2

/-! ## Documents -/

structure Operation.WellFormed (o : Operation) : Prop where
  named : o.operationId.isSome = true
  answered : ∃ code response, o.responses.get? code = some response
  distinct : (o.parameters.map (·.name)).Nodup
  parameters : ∀ p ∈ o.parameters, p.schema.WellFormed

structure Document.WellFormed (d : Document) : Prop where
  tags : (d.tags.map (·.name)).Nodup
  slash : ∀ path ∈ d.paths.keys, path.toList.head? = some '/'
  bound : ∀ path item, d.paths.get? path = some item → ∃ m o, item.operation m = some o
  operations : ∀ slot o, d.operation? slot = some o → o.WellFormed
  schemas : ∀ name s, d.components.schemas.get? name = some s → s.WellFormed

theorem RouteContext.nodup_parameters (ctx : RouteContext) (name : String) :
    ((ctx.parameters name).map (·.name)).Nodup := by
  unfold parameters
  split
  · exact List.nodup_nil
  · split
    · rename_i schema _
      rw [List.map_map]
      exact List.pairwise_map.mpr schema.properties.nodup
    · exact List.nodup_nil

/-- The response of success is there, whatever is laid over it. -/
theorem RouteContext.exists_response (ctx : RouteContext) (r : Record) :
    ∃ code response, (ctx.responses r).get? code = some response := by
  refine ⟨successCode r, Option.isSome_iff_exists.mp ?_⟩
  rw [get?_responses, if_pos rfl, Option.isSome_map, Option.isSome_or, Option.isSome_some, Bool.or_true]

theorem head?_normalizePath {path : String} (h : (normalizePath path).isEmpty = false) :
    (normalizePath path).toList.head? = some '/' := by
  unfold normalizePath at h ⊢
  split
  · rename_i hnil
    rw [hnil] at h
    cases h
  · rw [String.toList_ofList]
    rfl
  · rw [String.toList_ofList]
    rfl

theorem head?_of_slot? {r : Record} {path : String} {m : Method} (h : r.slot? = some (path, m)) :
    path.toList.head? = some '/' := by
  unfold Record.slot? at h
  split at h
  · cases h
  · rename_i hne
    obtain ⟨_, _, he⟩ := Option.map_eq_some_iff.mp h
    cases he
    exact head?_normalizePath (Bool.eq_false_iff.mpr hne)

theorem RouteContext.wellFormed_operation {ctx : RouteContext}
    (hs : ∀ name s, ctx.schemas.get? name = some s → s.WellFormed) (r : Record) (m : Method) (path : String) :
    (ctx.operation r m path).WellFormed where
  named := rfl
  answered := ctx.exists_response r
  distinct := ctx.nodup_parameters r.parametersRef
  parameters p hp := by
    obtain ⟨schema, key, property, hschema, hproperty, rfl⟩ := RouteContext.mem_parameters hp
    exact (hs _ _ hschema key property hproperty).parameter key

theorem Document.WellFormed.breaks {d : Document} (h : d.WellFormed) {f : Finding} (hf : d.Breaks f) :
    (∃ r, f = .unresolvedRef r) ∨ ∃ i, f = .duplicateOperationId i := by
  cases f with
  | unresolvedRef r => exact .inl ⟨r, rfl⟩
  | duplicateOperationId i => exact .inr ⟨i, rfl⟩
  | pathMissingLeadingSlash path => exact absurd (h.slash path hf.1) hf.2
  | duplicateGetParameter path name =>
    obtain ⟨o, ho, hcount⟩ := hf
    have hle := List.nodup_iff_count_le_one.mp (h.operations _ o ho).distinct name
    omega
  | duplicatePropertyName schema property => cases hf
  | duplicateMethodPath method path => cases hf
  | unparseable => cases hf

theorem wellFormed_document {fetch : Fetch} {b : Builder} {files : List SourceFile}
    (h : Run fetch Step.readsSources {} b files) : b.document.WellFormed := by
  have hsound := sound_run h
  have hdescribed := described_run (fun _ _ ha => ha.1) h
  have hbound : ∀ path item, b.document.paths.get? path = some item → ∃ m o, item.operation m = some o := by
    intro path item hitem
    by_contra hnone
    have hempty : item.isEmpty = true := PathItem.isEmpty_iff.mpr fun m => by
      cases hm : item.operation m with
      | none => rfl
      | some o => exact absurd ⟨m, o, hm⟩ hnone
    rw [hsound.tight path item hitem] at hempty
    cases hempty
  refine ⟨hsound.tags, fun path hpath => ?_, hbound, fun slot o ho => ?_, hsound.schemas⟩
  · -- some method of the path is bound, and the record that it is from names the path
    obtain ⟨item, hitem⟩ := Option.isSome_iff_exists.mp (Dict.mem_keys_iff.mp hpath)
    obtain ⟨m, o, ho⟩ := hbound path item hitem
    have hop : PathRegistry.operation? b.document.paths (m, path) = some o := by
      rw [PathRegistry.operation?, PathRegistry.item, hitem]
      exact ho
    obtain ⟨_, _, r, _, hr⟩ := hdescribed.record _ _ hop
    unfold Record.operationAt at hr
    exact head?_of_slot? (Option.ite_none_right_eq_some.mp hr).1
  · obtain ⟨m, path⟩ := slot
    obtain ⟨_, _, r, _, hr⟩ := hdescribed.record _ _ ho
    obtain ⟨_, _, rfl⟩ := Record.operationAt_eq_some hr
    exact RouteContext.wellFormed_operation hsound.schemas r m path

/-- **Documents from sources are well-formed.** Of what the checks can find in their texts, only references
without a schema and repeated operation ids are left. -/
theorem wellFormed_of_sources {fetch : Fetch} {b : Builder} {files : List SourceFile}
    (h : Run fetch Step.readsSources {} b files) :
    b.document.WellFormed ∧ ∀ f : Format, Yaml.Recovers (b.document.render f) b.document.encode →
      ∀ x ∈ validate (b.document.render f), (∃ r, x = .unresolvedRef r) ∨ ∃ i, x = .duplicateOperationId i := by
  have hwf := wellFormed_document h
  exact ⟨hwf, fun f hread x hx => hwf.breaks ((Document.mem_validate_iff hread x).mp hx)⟩

theorem sourceDisk_isTree (source : String) : (sourceDisk source).root.IsTree := by
  simp [sourceDisk, Entry.IsTree, Entry.AreTrees, IsName]

theorem wellFormed_of_sources_node :
    (∃ o p, nodeBuilt.document.operation? (.get, "/u") = some o ∧ p ∈ o.parameters) ∧
    nodeBuilt.document.WellFormed ∧
    ∀ x ∈ validate (nodeBuilt.document.render .yaml),
      (∃ r, x = .unresolvedRef r) ∨ ∃ i, x = .duplicateOperationId i := by
  have hschemas : Run (fun _ => none) Step.readsSources {} (untitled.mergeSchemas nodeSchemas) _ :=
    .step (.set _ .refl) ⟨rfl, rfl, sourceDisk_isTree _⟩ parseSchemas_node
  obtain ⟨hwf, hfindings⟩ := wellFormed_of_sources
    (hschemas.step ⟨rfl, rfl, sourceDisk_isTree _⟩ parsePaths_node)
  refine ⟨?_, hwf, hfindings .yaml recovers_nodeBuilt⟩
  rw [document_nodeBuilt]
  exact ⟨_, _, rfl, List.mem_singleton_self _⟩

end ApiDocs
