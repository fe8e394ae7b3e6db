import ApiDocs.Pipeline
import ApiDocs.Proofs.Schedules
import ApiDocs.Proofs.TreeExtraction

/-!
# The order of building

Steps and settings may come in any order and as often as one likes, each step on a disk of its own and with
any schedule of its workers. Once operations have been parsed, what they are described against stays: a step
that would change the schemas or the error responses fails. So every operation of a document is the one that
its record describes against the schemas and the error responses at the end.
-/

namespace ApiDocs

/-! ## Runs -/

inductive Setting where
  | info (info : Info)
  | externalDocs (docs : ExternalDocs)
  | options (options : ExtractionOptions)
  | fileName (name : String)
  | format (format : Format)
  | strict (strict : Bool)

def Setting.apply (b : Builder) : Setting → Builder
  | .info i => b.withInfo i
  | .externalDocs docs => b.withExternalDocs docs
  | .options o => b.withOptions o
  | .fileName name => b.withFileName name
  | .format f => b.withFormat f
  | .strict on => b.withStrict on

namespace Step

def isAddPaths : Step → Bool
  | addPaths _ => true
  | _ => false

def registersErrors : Step → Bool
  | addErrorResponses .. | addDefaultErrors .. | restrictErrorResponses .. => true
  | _ => false

def registersSchemas : Step → Bool
  | parseSchemas .. | parseEnums .. | addSchemas .. => true
  | _ => false

/-- The step gets as far as an extraction. -/
def extracts (b : Builder) : Step → Bool
  | parseSchemas _ | parseEnums _ => !b.pathsParsed
  | parsePaths _ => !b.document.components.schemas.isEmpty
  | _ => false

/-- What a step may come to, whatever the schedule of its workers. -/
inductive ComesTo (fetch : Fetch) (b : Builder) (disk : Disk) : Step → Except BuildError Builder → Prop where
  | schemas {root : String} {found : Except ExtractError (Extracted SchemaRegistry)} (hp : b.pathsParsed = false)
    (h : Extracts (.schemas .schema) b.options root disk found) :
    ComesTo fetch b disk (.parseSchemas root) (Builder.addExtracted b.addSchemas found)
  | enums {root : String} {found : Except ExtractError (Extracted SchemaRegistry)} (hp : b.pathsParsed = false)
    (h : Extracts (.schemas .enumeration) b.options root disk found) :
    ComesTo fetch b disk (.parseEnums root) (Builder.addExtracted b.addSchemas found)
  | paths {root : String} {found : Except ExtractError (Extracted PathRegistry)}
    (hs : b.document.components.schemas.isEmpty = false)
    (h : Extracts (.paths b.context) b.options root disk found) :
    ComesTo fetch b disk (.parsePaths root) (Builder.addExtracted (fun paths => .ok (b.addPaths paths)) found)
  | other {s : Step} (h : s.extracts b = false) : ComesTo fetch b disk s (s.run fetch b disk).1

def scanned (b : Builder) (disk : Disk) : Step → List SourceFile
  | parsePaths root => ((scanUnits b.options root disk).toOption.getD []).flatten
  | _ => []

end Step

/-- Steps that are allowed on their disks, all of them successful, and settings lead from one builder to
another; the files are those that were searched for operations. -/
inductive Run (fetch : Fetch) (allowed : Step → Disk → Prop) (b : Builder) :
    Builder → List SourceFile → Prop where
  | refl : Run fetch allowed b b []
  | set {b' : Builder} {files : List SourceFile} (s : Setting) (h : Run fetch allowed b b' files) :
    Run fetch allowed b (s.apply b') files
  | step {b' b'' : Builder} {files : List SourceFile} {s : Step} {disk : Disk}
    (h : Run fetch allowed b b' files) (ha : allowed s disk) (hs : s.ComesTo fetch b' disk (.ok b'')) :
    Run fetch allowed b b'' (files ++ s.scanned b' disk)

/-! ## What steps and settings do -/

def Builder.mergeSchemas (b : Builder) (found : SchemaRegistry) : Builder :=
  { b with document := { b.document with components := { b.document.components with
    schemas := (Registry.merge b.document.components.schemas found).1 } } }

def Builder.setTags (b : Builder) (names : List String) : Builder :=
  { b with document := { b.document with tags := names.map fun name => { name } } }

def declaredSchemas (kind : DeclarationKind) (units : List (List SourceFile)) : SchemaRegistry :=
  (aggregate (units.map (yields (SchemaRegistry.ofFile kind)))).registry

/-- Everything that a successful step can do. -/
inductive Effect (disk : Disk) (b : Builder) : Step → Builder → Prop where
  | errors {s : Step} (hs : s.registersErrors = true) (hp : b.pathsParsed = false) (responses : Responses) :
    Effect disk b s { b with errorResponses := responses }
  | declared {s : Step} (kind : DeclarationKind) (root : String)
    (hs : s = .parseSchemas root ∨ s = .parseEnums root) (hp : b.pathsParsed = false)
    (units : List (List SourceFile)) : Effect disk b s (b.mergeSchemas (declaredSchemas kind units))
  | schemas (found : SchemaRegistry) (hp : b.pathsParsed = false) :
    Effect disk b (.addSchemas found) (b.mergeSchemas found)
  | operations (root : String) (units : List (List SourceFile)) : Effect disk b (.parsePaths root)
    (b.addPaths (PathRegistry.assemble b.context (units.flatten.flatMap SourceFile.records)))
  | paths (paths : PathRegistry) : Effect disk b (.addPaths paths) (b.addPaths paths)
  | tag (tag : Tag) : Effect disk b (.addTag tag) (b.addTag tag)
  | tags {directory : String} (ignored : List String) {children : List (String × Entry)}
    (h : disk.list directory = .ok children) :
    Effect disk b (.parseTags directory ignored) (b.setTags (Builder.tagNames ignored children))
  | servers (servers : List Server) : Effect disk b (.addServers servers) (b.addServers servers)
  | security (schemes : SecuritySchemes) :
    Effect disk b (.addSecuritySchemes schemes) (b.addSecuritySchemes schemes)
  | viewer (config : ViewerConfig) : Effect disk b (.exportViewer config) b

theorem run_of_registersErrors {fetch : Fetch} {b : Builder} {disk : Disk} {s : Step}
    (hp : b.pathsParsed = true) (hs : s.registersErrors = true) :
    s.run fetch b disk = (.error .errorResponsesAfterPaths, disk) := by
  cases s with
  | addErrorResponses responses defaultRef => rw [Step.run, Builder.addErrorResponses, if_pos hp]
  | addDefaultErrors codes => rw [Step.run, Builder.addDefaultErrors, if_pos hp]
  | restrictErrorResponses codes => rw [Step.run, Builder.restrictErrorResponses, if_pos hp]
  | _ => cases hs

theorem run_of_registersSchemas {fetch : Fetch} {b : Builder} {disk : Disk} {s : Step}
    (hp : b.pathsParsed = true) (hs : s.registersSchemas = true) :
    s.run fetch b disk = (.error .schemasAfterPaths, disk) := by
  cases s with
  | parseSchemas root => rw [Step.run, Builder.parseDeclarations, if_pos hp]
  | parseEnums root => rw [Step.run, Builder.parseDeclarations, if_pos hp]
  | addSchemas schemas => rw [Step.run, Builder.addSchemas, if_pos hp]
  | _ => cases hs

theorem extracts_of_registersErrors (b : Builder) {s : Step} (hs : s.registersErrors = true) :
    s.extracts b = false := by
  cases s with
  | addErrorResponses | addDefaultErrors | restrictErrorResponses => rfl
  | _ => cases hs

theorem extracts_of_registersSchemas {b : Builder} {s : Step} (hp : b.pathsParsed = true)
    (hs : s.registersSchemas = true) : s.extracts b = false := by
  cases s with
  | parseSchemas | parseEnums => rw [Step.extracts, hp]; rfl
  | addSchemas => rfl
  | _ => cases hs

theorem registersErrors_ok {fetch : Fetch} {b b' : Builder} {s : Step} {disk : Disk}
    (hs : s.registersErrors = true) (h : (s.run fetch b disk).1 = .ok b') :
    b.pathsParsed = false ∧ ∃ responses, b' = { b with errorResponses := responses } := by
  by_cases hp : b.pathsParsed = true
  · rw [run_of_registersErrors hp hs] at h
    cases h
  · refine ⟨Bool.eq_false_iff.mpr hp, ?_⟩
    cases s with
    | addErrorResponses responses defaultRef =>
      rw [Step.run, Builder.addErrorResponses, if_neg hp] at h
      cases h
      exact ⟨_, rfl⟩
    | addDefaultErrors codes =>
      rw [Step.run, Builder.addDefaultErrors, if_neg hp] at h
      split at h <;> cases h
      exact ⟨_, rfl⟩
    | restrictErrorResponses codes =>
      rw [Step.run, Builder.restrictErrorResponses, if_neg hp] at h
      split at h <;> cases h <;> exact ⟨_, rfl⟩
    | _ => cases hs

theorem addSchemas_ok {b b' : Builder} {found : SchemaRegistry} (h : b.addSchemas found = .ok b') :
    b.pathsParsed = false ∧ b' = b.mergeSchemas found := by
  unfold Builder.addSchemas at h
  split at h
  · cases h
  · rename_i hp
    cases h
    exact ⟨Bool.eq_false_iff.mpr hp, rfl⟩

theorem addExtracted_schemas_ok {b b' : Builder} {kind : DeclarationKind} {root : String} {disk : Disk}
    {found : Except ExtractError (Extracted SchemaRegistry)}
    (hx : Extracts (.schemas kind) b.options root disk found)
    (h : Builder.addExtracted b.addSchemas found = .ok b') :
    b.pathsParsed = false ∧ ∃ units, b' = b.mergeSchemas (declaredSchemas kind units) := by
  cases found with
  | error e => cases h
  | ok found =>
    unfold Extractor.schemas at hx
    obtain ⟨units, order, -, -, rfl⟩ := hx.units
    obtain ⟨hp, hb⟩ := addSchemas_ok h
    exact ⟨hp, order, hb⟩

/-- Operations come from all files below the root, unit by unit in some order. -/
theorem addExtracted_paths_ok {b b' : Builder} {root : String} {disk : Disk}
    {found : Except ExtractError (Extracted PathRegistry)}
    (hx : Extracts (.paths b.context) b.options root disk found)
    (h : Builder.addExtracted (fun paths => .ok (b.addPaths paths)) found = .ok b') :
    ∃ units order : List (List SourceFile), scanUnits b.options root disk = .ok units ∧ order.Perm units ∧
      b' = b.addPaths (PathRegistry.assemble b.context (order.flatten.flatMap SourceFile.records)) := by
  cases found with
  | error e => cases h
  | ok found =>
    unfold Extractor.paths at hx
    obtain ⟨units, order, hu, hp, rfl⟩ := hx.units
    refine ⟨units, order, hu, hp, ?_⟩
    rw [← PathRegistry.aggregate_assemble]
    exact (Except.ok.inj h).symm

theorem parseTags_ok {b b' : Builder} {directory : String} {ignored : List String} {disk : Disk}
    (h : b.parseTags directory ignored disk = .ok b') :
    ∃ children, disk.list directory = .ok children ∧ b' = b.setTags (Builder.tagNames ignored children) := by
  unfold Builder.parseTags at h
  split at h
  · cases h
  · split at h
    · cases h
    · rename_i children hc
      split at h
      · cases h
      · cases h
        exact ⟨children, hc, rfl⟩

/-- One directory after the other is a schedule of every step. -/
theorem comesTo_run (fetch : Fetch) (b : Builder) (disk : Disk) (s : Step) :
    s.ComesTo fetch b disk (s.run fetch b disk).1 := by
  cases he : s.extracts b with
  | false => exact .other he
  | true =>
    cases s with
    | parseSchemas root =>
      have hp : b.pathsParsed = false := by simpa [Step.extracts] using he
      rw [Step.run, Builder.parseDeclarations, if_neg (by simp [hp])]
      exact .schemas hp extracts_extract
    | parseEnums root =>
      have hp : b.pathsParsed = false := by simpa [Step.extracts] using he
      rw [Step.run, Builder.parseDeclarations, if_neg (by simp [hp])]
      exact .enums hp extracts_extract
    | parsePaths root =>
      have hs : b.document.components.schemas.isEmpty = false := by simpa [Step.extracts] using he
      rw [Step.run, Builder.parsePaths, if_neg (by simp [hs])]
      exact .paths hs extracts_extract
    | _ => cases he

theorem comesTo_of_toOption {fetch : Fetch} {b b' : Builder} {s : Step} {disk : Disk}
    (h : (s.run fetch b disk).1.toOption = some b') : s.ComesTo fetch b disk (.ok b') := by
  have hrun := comesTo_run fetch b disk s
  cases hs : (s.run fetch b disk).1 with
  | error e =>
    rw [hs] at h
    cases h
  | ok b'' =>
    rw [hs] at h hrun
    cases h
    exact hrun

/-- Without an extraction there is nothing to schedule. -/
theorem Step.ComesTo.eq_run {fetch : Fetch} {b : Builder} {s : Step} {disk : Disk}
    {result : Except BuildError Builder} (h : s.ComesTo fetch b disk result) (he : s.extracts b = false) :
    result = (s.run fetch b disk).1 := by
  cases h with
  | schemas hp _ => simp [extracts, hp] at he
  | enums hp _ => simp [extracts, hp] at he
  | paths hs _ => simp [extracts, hs] at he
  | other _ => rfl

theorem effect_of_run {fetch : Fetch} {b b' : Builder} {s : Step} {disk : Disk} (he : s.extracts b = false)
    (h : (s.run fetch b disk).1 = .ok b') : Effect disk b s b' := by
  cases s with
  | addErrorResponses | addDefaultErrors | restrictErrorResponses =>
    obtain ⟨hp, responses, rfl⟩ := registersErrors_ok rfl h
    exact .errors rfl hp responses
  | parseSchemas | parseEnums =>
    rw [run_of_registersSchemas (by simpa [Step.extracts] using he) rfl] at h
    cases h
  | addSchemas found =>
    obtain ⟨hp, rfl⟩ := addSchemas_ok h
    exact .schemas found hp
  | parsePaths root =>
    rw [Step.run, Builder.parsePaths, if_pos (by simpa [Step.extracts] using he)] at h
    cases h
  | addPaths paths =>
    cases h
    exact .paths paths
  | addTag tag =>
    cases h
    exact .tag tag
  | parseTags directory ignored =>
    obtain ⟨children, hc, rfl⟩ := parseTags_ok h
    exact .tags ignored hc
  | addServers servers =>
    cases h
    exact .servers servers
  | addSecuritySchemes schemes =>
    cases h
    exact .security schemes
  | exportViewer config =>
    rw [Step.run, Builder.exportViewer] at h
    split at h
    · cases h
      exact .viewer config
    · cases h

theorem Step.ComesTo.effect {fetch : Fetch} {b b' : Builder} {s : Step} {disk : Disk}
    (h : s.ComesTo fetch b disk (.ok b')) : Effect disk b s b' := by
  generalize hr : Except.ok b' = result at h
  cases h with
  | @schemas root _ _ hx =>
    obtain ⟨hp, units, rfl⟩ := addExtracted_schemas_ok hx hr.symm
    exact .declared .schema root (.inl rfl) hp units
  | @enums root _ _ hx =>
    obtain ⟨hp, units, rfl⟩ := addExtracted_schemas_ok hx hr.symm
    exact .declared .enumeration root (.inr rfl) hp units
  | @paths root _ _ hx =>
    obtain ⟨_, order, _, _, rfl⟩ := addExtracted_paths_ok hx hr.symm
    exact .operations root order
  | other he => exact effect_of_run he hr.symm

theorem parsePaths_tree {b : Builder} (hs : b.document.components.schemas.isEmpty = false) {disk : Disk}
    (ht : disk.root.IsTree) {root : String} {children : List (String × Entry)}
    (h : disk.entry root = .ok (.directory children)) (hr : (Entry.directory children).IsReadable) :
    b.parsePaths root disk = (.ok (b.addPaths (PathRegistry.assemble b.context
      ((Entry.directory children).records b.options))), disk) := by
  obtain ⟨found, he, hr⟩ := extract_paths_tree b.context ht b.options h hr
  unfold Builder.parsePaths
  rw [hs, he, ← hr]
  rfl

/-- Everything that a setting can do. -/
theorem setting_apply (b : Builder) (s : Setting) : ∃ info docs options fileName format strict,
    s.apply b = { b with
      document := { b.document with info := info, externalDocs := docs }
      options := options, fileName := fileName, format := format, strict := strict } := by
  cases s with
  | fileName name =>
    unfold Setting.apply Builder.withFileName
    simp only
    split
    · exact ⟨_, _, _, b.fileName, _, _, rfl⟩
    · exact ⟨_, _, _, name, _, _, rfl⟩
  | _ => exact ⟨_, _, _, _, _, _, rfl⟩

theorem setting_document (b : Builder) (s : Setting) :
    (s.apply b).document.tags = b.document.tags ∧ (s.apply b).document.paths = b.document.paths ∧
      (s.apply b).document.components = b.document.components := by
  obtain ⟨_, _, _, _, _, _, h⟩ := setting_apply b s
  rw [h]
  exact ⟨rfl, rfl, rfl⟩

/-! ## What a step keeps -/

/-- Operations are untouched, and so is their context if there may be any. -/
structure Keeps (b b' : Builder) : Prop where
  paths : b'.document.paths = b.document.paths
  parsed : b'.pathsParsed = b.pathsParsed
  context : b.pathsParsed = true → b'.context = b.context

theorem Keeps.of_fresh {b b' : Builder} (hp : b.pathsParsed = false)
    (hpaths : b'.document.paths = b.document.paths) (hparsed : b'.pathsParsed = b.pathsParsed) :
    Keeps b b' where
  paths := hpaths
  parsed := hparsed
  context h := by
    rw [hp] at h
    cases h

theorem keeps_setting (b : Builder) (s : Setting) : Keeps b (s.apply b) := by
  obtain ⟨_, _, _, _, _, _, h⟩ := setting_apply b s
  rw [h]
  exact ⟨rfl, rfl, fun _ => rfl⟩

/-- Only operations touch operations, and the context is changed as long as there are none. -/
theorem Effect.keeps {disk : Disk} {b b' : Builder} {s : Step} (h : Effect disk b s b')
    (hadd : s.isAddPaths = false) (hparse : ∀ root, s ≠ .parsePaths root) : Keeps b b' := by
  cases h with
  | errors _ hp _ => exact .of_fresh hp rfl rfl
  | declared _ _ _ hp _ => exact .of_fresh hp rfl rfl
  | schemas _ hp => exact .of_fresh hp rfl rfl
  | operations root _ => exact absurd rfl (hparse root)
  | paths _ => cases hadd
  | _ => exact ⟨rfl, rfl, fun _ => rfl⟩

theorem step_cases {fetch : Fetch} {b b' : Builder} {s : Step} {disk : Disk}
    (hp : s.isAddPaths = false) (h : s.ComesTo fetch b disk (.ok b')) :
    Keeps b b' ∨ ∃ files : List SourceFile, files.Perm (s.scanned b disk) ∧
      b' = b.addPaths (PathRegistry.assemble b.context (files.flatMap SourceFile.records)) := by
  have heffect := h.effect
  generalize hr : Except.ok b' = result at h
  cases h with
  | @paths root _ _ hx =>
    obtain ⟨units, order, hu, hperm, hb⟩ := addExtracted_paths_ok hx hr.symm
    refine Or.inr ⟨order.flatten, ?_, hb⟩
    rw [Step.scanned, hu]
    exact hperm.flatten
  | schemas _ _ => exact Or.inl (heffect.keeps hp nofun)
  | enums _ _ => exact Or.inl (heffect.keeps hp nofun)
  | other he =>
    refine Or.inl (heffect.keeps hp ?_)
    rintro root rfl
    -- without schemas there are no operations
    rw [Step.run, Builder.parsePaths, if_pos (by simpa [Step.extracts] using he)] at hr
    cases hr

/-! ## What a run keeps -/

/-- Every operation is the one that a record of the files describes against the present context, and
there is none as long as the context may change. -/
structure Described (b : Builder) (files : List SourceFile) : Prop where
  fresh : b.pathsParsed = false → ∀ slot, PathRegistry.operation? b.document.paths slot = none
  record : ∀ slot o, PathRegistry.operation? b.document.paths slot = some o →
    ∃ file ∈ files, ∃ r ∈ file.records, r.operationAt b.context slot = some o

theorem described_new : Described {} [] where
  fresh _ slot := PathItem.operation_default slot.1
  record slot o h := by
    rw [show PathRegistry.operation? ({} : Builder).document.paths slot = none from
      PathItem.operation_default slot.1] at h
    cases h

theorem Described.keeps {b b' : Builder} {files : List SourceFile} (hd : Described b files)
    (hk : Keeps b b') : Described b' files where
  fresh hp slot := by
    rw [hk.parsed] at hp
    rw [hk.paths]
    exact hd.fresh hp slot
  record slot o ho := by
    rw [hk.paths] at ho
    cases hp : b.pathsParsed with
    | false =>
      -- the context may have changed, but there was nothing to describe
      rw [hd.fresh hp slot] at ho
      cases ho
    | true =>
      rw [hk.context hp]
      exact hd.record slot o ho

theorem Described.mono {b : Builder} {files files' : List SourceFile} (hd : Described b files)
    (hs : files ⊆ files') : Described b files' where
  fresh := hd.fresh
  record slot o ho := by
    obtain ⟨file, hf, hr⟩ := hd.record slot o ho
    exact ⟨file, hs hf, hr⟩

theorem operation?_addPaths (b : Builder) (paths : PathRegistry) (slot : Method × String) :
    PathRegistry.operation? (b.addPaths paths).document.paths slot =
      (PathRegistry.operation? paths slot).or (PathRegistry.operation? b.document.paths slot) :=
  PathRegistry.operation?_merge b.document.paths paths slot

theorem Described.addPaths {b : Builder} {files : List SourceFile} (hd : Described b files)
    (scanned : List SourceFile) :
    Described (b.addPaths (PathRegistry.assemble b.context (scanned.flatMap SourceFile.records)))
      (files ++ scanned) where
  fresh hp := by cases hp
  record slot o ho := by
    -- the context is still that of `b`
    change ∃ file ∈ files ++ scanned, ∃ r ∈ file.records, r.operationAt b.context slot = some o
    rw [operation?_addPaths, Option.or_eq_some_iff] at ho
    rcases ho with hnew | ⟨_, hold⟩
    · rw [PathRegistry.operation?_assemble] at hnew
      obtain ⟨r, hr, hro⟩ := List.exists_of_findSome?_eq_some hnew
      obtain ⟨file, hf, hrf⟩ := List.mem_flatMap.mp (List.mem_reverse.mp hr)
      exact ⟨file, List.mem_append_right _ hf, r, hrf, hro⟩
    · obtain ⟨file, hf, hr⟩ := hd.record slot o hold
      exact ⟨file, List.mem_append_left _ hf, hr⟩

section
variable {fetch : Fetch} {allowed : Step → Disk → Prop}
  (hallowed : ∀ s disk, allowed s disk → s.isAddPaths = false)
include hallowed

theorem described_run {b : Builder} {files : List SourceFile} (h : Run fetch allowed {} b files) :
    Described b files := by
  induction h with
  | refl => exact described_new
  | set s _ ih => exact ih.keeps (keeps_setting _ s)
  | step _ ha hs ih =>
    obtain hk | ⟨scanned, hperm, rfl⟩ := step_cases (hallowed _ _ ha) hs
    · exact (ih.keeps hk).mono (List.subset_append_left ..)
    · exact (ih.addPaths scanned).mono (hperm.append_left _).subset

theorem frozen_run {b b' : Builder} {files : List SourceFile} (hp : b.pathsParsed = true)
    (h : Run fetch allowed b b' files) : b'.pathsParsed = true ∧ b'.context = b.context := by
  induction h with
  | refl => exact ⟨hp, rfl⟩
  | @set b' _ s _ ih =>
    have hk := keeps_setting b' s
    exact ⟨hk.parsed.trans ih.1, (hk.context ih.1).trans ih.2⟩
  | step _ ha hs ih =>
    obtain hk | ⟨_, _, rfl⟩ := step_cases (hallowed _ _ ha) hs
    · exact ⟨hk.parsed.trans ih.1, (hk.context ih.1).trans ih.2⟩
    · exact ⟨rfl, ih.2⟩

end

/-! ## Operations and the final context -/

theorem Record.slot?_eq_some {r : Record} {m : Method} {p : String} (h : r.slot? = some (p, m)) :
    normalizePath r.path = p ∧ Method.ofText? r.method = some m := by
  unfold slot? at h
  split at h
  · cases h
  · rw [Option.map_eq_some_iff] at h
    obtain ⟨n, hn, he⟩ := h
    rw [Prod.mk.injEq] at he
    exact ⟨he.1, he.2 ▸ hn⟩

theorem Record.operationAt_eq_some {ctx : RouteContext} {m : Method} {p : String} {r : Record}
    {o : Operation} (h : r.operationAt ctx (m, p) = some o) :
    normalizePath r.path = p ∧ Method.ofText? r.method = some m ∧ o = ctx.operation r m p := by
  unfold operationAt at h
  rw [Option.ite_none_right_eq_some, Option.some.injEq] at h
  obtain ⟨hslot, ho⟩ := h
  obtain ⟨hpath, hmethod⟩ := slot?_eq_some hslot
  exact ⟨hpath, hmethod, ho.symm⟩

/-- **Operations are described against the final context.** Whatever the order of steps and the schedules of
their workers, each operation is that of a record of a scanned file, and nothing that it was described against
changes after it. -/
theorem operations_of_final_context {fetch : Fetch} {b : Builder} {files : List SourceFile}
    (h : Run fetch (fun s _ => s.isAddPaths = false) {} b files) :
    (∀ m p o, PathRegistry.operation? b.document.paths (m, p) = some o →
      ∃ file ∈ files, ∃ r ∈ file.records, normalizePath r.path = p ∧ Method.ofText? r.method = some m ∧
        o = b.context.operation r m p) ∧
    ∀ slot o, PathRegistry.operation? b.document.paths slot = some o →
      (∀ b' files', Run fetch (fun s _ => s.isAddPaths = false) b b' files' → b'.context = b.context) ∧
      ∀ (s : Step) (disk : Disk),
        (s.registersErrors = true → s.run fetch b disk = (.error .errorResponsesAfterPaths, disk) ∧
          ∀ result, s.ComesTo fetch b disk result → result = .error .errorResponsesAfterPaths) ∧
        (s.registersSchemas = true → s.run fetch b disk = (.error .schemasAfterPaths, disk) ∧
          ∀ result, s.ComesTo fetch b disk result → result = .error .schemasAfterPaths) := by
  have hd := described_run (fun _ _ ha => ha) h
  constructor
  · intro m p o ho
    obtain ⟨file, hf, r, hr, hro⟩ := hd.record (m, p) o ho
    exact ⟨file, hf, r, hr, Record.operationAt_eq_some hro⟩
  · intro slot o ho
    have hp : b.pathsParsed = true := by
      by_contra hp
      rw [hd.fresh (Bool.eq_false_iff.mpr hp) slot] at ho
      cases ho
    refine ⟨fun b' files' h' => (frozen_run (fun _ _ ha => ha) hp h').2, fun s disk => ⟨fun hs => ?_, fun hs => ?_⟩⟩
    · have hrun : s.run fetch b disk = (.error .errorResponsesAfterPaths, disk) := run_of_registersErrors hp hs
      refine ⟨hrun, fun result hresult => ?_⟩
      rw [hresult.eq_run (extracts_of_registersErrors b hs), hrun]
    · have hrun : s.run fetch b disk = (.error .schemasAfterPaths, disk) := run_of_registersSchemas hp hs
      refine ⟨hrun, fun result hresult => ?_⟩
      rw [hresult.eq_run (extracts_of_registersSchemas hp hs), hrun]

def usersBuilder : Builder := (({} : Builder).addSchemas (userSchema [])).toOption.getD {}

def usersBuilt : Builder :=
  usersBuilder.addPaths (PathRegistry.assemble usersBuilder.context ((Entry.directory usersTree).records {}))

theorem run_usersBuilt : ∃ files, Run (fun _ => none) (fun s _ => s.isAddPaths = false) {} usersBuilt files := by
  have hschema : (Step.addSchemas (userSchema [])).ComesTo (fun _ => none) {} usersDisk (.ok usersBuilder) :=
    comesTo_of_toOption rfl
  have hpaths : (Step.parsePaths "/src").ComesTo (fun _ => none) usersBuilder usersDisk (.ok usersBuilt) := by
    refine comesTo_of_toOption ?_
    have hroot : usersDisk.entry "/src" = .ok (.directory usersTree) := rfl
    rw [Step.run, parsePaths_tree rfl usersDisk_isTree hroot usersTree_isReadable]
    rfl
  exact ⟨_, .step (.step .refl rfl hschema) rfl hpaths⟩

theorem operation_usersBuilt :
    (PathRegistry.operation? usersBuilt.document.paths (.get, "/users")).isSome = true := by
  have h := operation_usersTree usersBuilder.context none
  unfold usersBuilt
  rw [operation?_addPaths, Option.isSome_or, h, Bool.true_or]

/-- The operation of a tree is described against the schema that came before it. -/
theorem operations_of_final_context_users :
    (∃ r : Record, PathRegistry.operation? usersBuilt.document.paths (.get, "/users") =
      some (usersBuilt.context.operation r .get "/users")) ∧
    ∀ disk, (Step.addSchemas (userSchema [])).run (fun _ => none) usersBuilt disk =
      (.error .schemasAfterPaths, disk) := by
  obtain ⟨files, hrun⟩ := run_usersBuilt
  obtain ⟨hop, hfrozen⟩ := operations_of_final_context hrun
  obtain ⟨o, ho⟩ := Option.isSome_iff_exists.mp operation_usersBuilt
  obtain ⟨file, _, r, _, _, _, hr⟩ := hop _ _ _ ho
  exact ⟨⟨r, ho.trans (congrArg some hr)⟩, fun disk => (((hfrozen _ _ ho).2 _ disk).2 rfl).1⟩

end ApiDocs
