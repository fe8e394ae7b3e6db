import ApiDocs.CommandLine.Run
import ApiDocs.Proofs.Declarations
import ApiDocs.Proofs.Responses

/-!
# Error responses of a run

Before a run looks for schemas, up to three stages offer error responses and one restricts them. What is in
force after them is said here code by code, from the settings alone.
-/

namespace ApiDocs

/-! ## Standard errors -/

/-- A list asks for a code: the code is in it, or none of its codes is a standard one. -/
def AsksFor (codes : List Nat) (code : String) : Prop :=
  code ∈ codes.map toString ∨ ∀ n ∈ codes, toString n ∉ Status.errors.map (·.1)

theorem Dict.get?_ofList_const {α ι : Type} (key : ι → String) (a : α) (l : List ι) {k : String} {b : α} :
    (Dict.ofList (l.map fun i => (key i, a))).get? k = some b ↔ k ∈ l.map key ∧ b = a := by
  have hfound : (∃ i, l.reverse.find? (key · = k) = some i) ↔ k ∈ l.map key := by
    rw [← Option.isSome_iff_exists, List.find?_isSome, List.mem_map]
    simp
  rw [Dict.get?_ofList key fun _ => a, Option.map_eq_some_iff, exists_and_right, hfound, eq_comm]

theorem get?_standardErrors {codes : List Nat} {code : String} {e : ErrorResponse} :
    (standardErrors codes).get? code = some e ↔
      (code ∈ Status.errors.map (·.1) ∧ (codes = [] ∨ code ∈ codes.map toString)) ∧ e = {} := by
  rw [standardErrors, Dict.get?_ofList_const]
  refine and_congr_left fun _ => ?_
  simp only [List.mem_map, List.mem_filter, Bool.or_eq_true, List.isEmpty_iff, List.contains_iff_mem]
  constructor
  · intro ⟨entry, ⟨hentry, hcode⟩, he⟩
    subst he
    exact ⟨⟨entry, hentry, rfl⟩, hcode⟩
  · intro ⟨⟨entry, hentry, he⟩, hcode⟩
    subst he
    exact ⟨entry, ⟨hentry, hcode⟩, rfl⟩

theorem get?_selectStandard {codes : List Nat} {code : String} {e : ErrorResponse} :
    (Builder.selectStandard codes).get? code = some e ↔
      (code ∈ Status.errors.map (·.1) ∧ AsksFor codes code) ∧ e = {} := by
  unfold Builder.selectStandard
  split
  · rename_i hempty
    rw [get?_standardErrors]
    refine and_congr_left fun _ => and_congr_right fun hcode => ⟨fun _ => .inr fun n hn hstandard => ?_, fun _ => .inl rfl⟩
    have hget := get?_standardErrors.mpr ⟨⟨hstandard, .inr (List.mem_map.mpr ⟨n, hn, rfl⟩)⟩, rfl⟩
    rw [Dict.isEmpty_iff.mp hempty] at hget
    cases hget
  · rename_i hne
    rw [get?_standardErrors]
    refine and_congr_left fun _ => and_congr_right fun hcode => ⟨fun h => ?_, fun h => ?_⟩
    · rcases h with rfl | h
      · exact .inr (List.forall_mem_nil _)
      · exact .inl h
    · rcases h with h | hnone
      · exact .inr h
      · -- a list that names no standard code gives an empty selection
        refine .inl (Classical.byContradiction fun hcodes => hne (Dict.isEmpty_iff.mpr (Dict.ext_get? fun k => ?_)))
        cases hk : (standardErrors codes).get? k with
        | none => rfl
        | some e =>
          obtain ⟨⟨hstandard, hlisted⟩, -⟩ := get?_standardErrors.mp hk
          obtain ⟨n, hn, rfl⟩ := List.mem_map.mp (hlisted.resolve_left hcodes)
          exact absurd hstandard (hnone n hn)

/-! ## Steps that offer and restrict -/

namespace Builder
variable {b : Builder} (hb : b.pathsParsed = false)
include hb

theorem addErrorResponses_ok (responses : Dict ErrorResponse) (ref : Option String) :
    ∃ rs : Responses, b.addErrorResponses responses ref = .ok { b with errorResponses := rs } ∧
      ∀ code, rs.get? code = ((responses.get? code).map (·.response code ref)).or (b.errorResponses.get? code) := by
  refine ⟨_, by rw [addErrorResponses, hb]; rfl, fun code => ?_⟩
  have hsorted : (responses.entries.map fun e => (e.1, e.2.response e.1 ref)).Pairwise fun x y => x.1 < y.1 :=
    List.pairwise_map.mpr responses.sorted
  have h := Dict.get?_overlay b.errorResponses hsorted code
  rw [List.foldl_map, Dict.lookup_map fun code (e : ErrorResponse) => e.response code ref] at h
  exact h

theorem addDefaultErrors_ok (he : b.errorResponses = {}) (codes : List Nat) :
    ∃ rs : Responses, b.addDefaultErrors codes = .ok { b with errorResponses := rs } ∧
      ∀ code, rs.get? code = ((selectStandard codes).get? code).map (·.response code none) := by
  refine ⟨_, by rw [addDefaultErrors, hb, he]; rfl, fun code => ?_⟩
  have hsorted : ((selectStandard codes).entries.map fun e =>
      (e.1, ({ description := Status.description e.1 } : Response))).Pairwise fun x y => x.1 < y.1 :=
    List.pairwise_map.mpr (selectStandard codes).sorted
  have h := Dict.get?_overlay Dict.empty hsorted code
  rw [Dict.lookup_map fun code (_ : ErrorResponse) => ({ description := Status.description code } : Response),
    Dict.get?_empty, Option.or_none] at h
  rw [Dict.keys, List.map_map]
  refine h.trans (Option.map_congr fun e he => ?_)
  rw [(get?_selectStandard.mp he).2]
  rfl

theorem restrictErrorResponses_ok (codes : List Nat) :
    ∃ rs : Responses, b.restrictErrorResponses codes = .ok { b with errorResponses := rs } ∧
      ∀ code response, rs.get? code = some response ↔
        (codes = [] ∨ code ∈ codes.map toString) ∧ b.errorResponses.get? code = some response := by
  rw [restrictErrorResponses, if_neg (by simp [hb])]
  cases codes with
  | nil => exact ⟨b.errorResponses, rfl, fun code response => by simp⟩
  | cons n codes =>
    refine ⟨_, rfl, fun code response => ?_⟩
    rw [Dict.get?, Dict.filter, Dict.lookup_filter_key fun code => ((n :: codes).map toString).contains code,
      Option.ite_none_right_eq_some, List.contains_iff_mem]
    simp [Dict.get?]

end Builder

/-! ## Where error responses point -/

def firstName? (own default : Option String) : Option String := (own.toList ++ default.toList).find? (· ≠ "")

theorem firstName?_eq (own default : Option String) :
    (own.filter (!·.isEmpty)).or (default.filter (!·.isEmpty)) = firstName? own default := by
  have hfilter : ∀ o : Option String, o.filter (!·.isEmpty) = o.toList.find? (· ≠ "") := by
    intro o
    cases o with
    | none => rfl
    | some name =>
      by_cases hname : name = ""
      · simp [Option.filter, hname]
      · simp [Option.filter, hname]
  rw [hfilter, hfilter, firstName?, List.find?_append]

theorem ErrorResponse.response_eq (code : String) (default : Option String) (e : ErrorResponse) :
    e.response code default = {
      description := e.description.getD (Status.description code)
      content := (firstName? e.reference default).map fun name => .forReference (schemaRef name) } := by
  rw [← firstName?_eq]
  rfl

theorem Builder.addDefaultErrors_eq {b : Builder} (hb : b.pathsParsed = false) (he : b.errorResponses = {})
    (codes : List Nat) {default : Option String} (hdefault : firstName? none default = none) :
    b.addDefaultErrors codes = b.addErrorResponses (selectStandard codes) default := by
  obtain ⟨rs, hrs, hget⟩ := addDefaultErrors_ok hb he codes
  obtain ⟨rs', hrs', hget'⟩ := addErrorResponses_ok hb (selectStandard codes) default
  rw [hrs, hrs', show rs = rs' from Dict.ext_get? fun code => ?_]
  rw [hget, hget', he]
  refine Eq.trans (Option.map_congr fun e hselected => ?_) (Option.or_none ..).symm
  obtain ⟨-, rfl⟩ := get?_selectStandard.mp hselected
  rw [ErrorResponse.response_eq, ErrorResponse.response_eq, hdefault]
  rfl

/-! ## Stages -/

namespace Pipeline
variable {fetch : Fetch} {b b' : Builder} {disk disk' : Disk}

theorem run_cons {name : StageName} {step : Step} (h : step.run fetch b disk = (.ok b', disk')) (rest : List Stage) :
    run fetch (⟨name, [step]⟩ :: rest) b disk = run fetch rest b' disk' := by
  simp [run, runSteps, h]

theorem generate_append {stages rest : List Stage} (h : ∀ rest, run fetch (stages ++ rest) b disk = run fetch rest b' disk')
    (directory : String) :
    generate fetch (stages ++ rest) directory b disk = generate fetch rest directory b' disk' := by
  rw [generate, h, generate]

end Pipeline

/-! ## Settings -/

namespace CommandLine.Settings
variable (s : Settings)

/-- A standard code is offered without being configured: a list asks for it, or there is no list and nothing
configured, but a reference to go by. -/
def OffersStandard (code : String) : Prop :=
  code ∈ Status.errors.map (·.1) ∧ match s.config.defaultErrors with
    | some codes => AsksFor codes code
    | none => s.config.errorResponses = {} ∧ s.errorRef.isSome = true

inductive Offers (code : String) : Response → Prop
  | configured {e : ErrorResponse} (h : s.config.errorResponses.get? code = some e) :
      Offers code {
        description := e.description.getD (Status.description code)
        content := (firstName? e.reference s.errorRef).map fun name => .forReference (schemaRef name) }
  | standard {description : String} (hconfigured : s.config.errorResponses.get? code = none)
      (hcode : (code, description) ∈ Status.errors) (h : s.OffersStandard code) :
      Offers code {
        description
        content := (firstName? none s.errorRef).map fun name => .forReference (schemaRef name) }

def standardSelection : Dict ErrorResponse :=
  match s.config.defaultErrors with
  | some codes => Builder.selectStandard codes
  | none => if s.config.errorResponses.isEmpty && s.errorRef.isSome then Builder.selectStandard [] else {}

theorem get?_standardSelection {code : String} {e : ErrorResponse} :
    s.standardSelection.get? code = some e ↔ s.OffersStandard code ∧ e = {} := by
  unfold standardSelection OffersStandard
  cases s.config.defaultErrors with
  | some codes => exact get?_selectStandard
  | none =>
    simp only [Bool.and_eq_true, Dict.isEmpty_iff]
    split
    · rename_i h
      rw [get?_selectStandard]
      simp only [AsksFor, List.not_mem_nil, false_implies, implies_true, or_true, and_true, h.1, h.2]
    · rename_i h
      simp only [h, and_false, false_and, iff_false]
      intro hget
      cases hget

section
variable (fetch : Fetch) {b : Builder} (hb : b.pathsParsed = false) (disk : Disk)
include hb

theorem run_standardErrorStages (he : b.errorResponses = {}) : ∃ rs : Responses,
    (∀ rest, Pipeline.run fetch (s.standardErrorStages ++ rest) b disk =
      Pipeline.run fetch rest { b with errorResponses := rs } disk) ∧
    ∀ code, rs.get? code = (s.standardSelection.get? code).map (·.response code s.errorRef) := by
  unfold standardErrorStages standardSelection
  cases s.config.defaultErrors with
  | some codes =>
    cases s.errorRef with
    | some ref =>
      obtain ⟨rs, hrs, hget⟩ := Builder.addErrorResponses_ok hb (Builder.selectStandard codes) (some ref)
      refine ⟨rs, fun rest => Pipeline.run_cons (by rw [Step.run, hrs]) rest, fun code => ?_⟩
      rw [hget, he]
      exact Option.or_none ..
    | none =>
      obtain ⟨rs, hrs, hget⟩ := Builder.addDefaultErrors_ok hb he codes
      exact ⟨rs, fun rest => Pipeline.run_cons (by rw [Step.run, hrs]) rest, hget⟩
  | none =>
    have hnothing : b = { b with errorResponses := {} } := by
      rw [← he]
    cases s.errorRef with
    | none => exact ⟨{}, fun rest => congrArg (Pipeline.run fetch rest · disk) hnothing, fun code => by simp; rfl⟩
    | some ref =>
      cases s.config.errorResponses.isEmpty with
      | false => exact ⟨{}, fun rest => congrArg (Pipeline.run fetch rest · disk) hnothing, fun code => rfl⟩
      | true =>
        obtain ⟨rs, hrs, hget⟩ := Builder.addErrorResponses_ok hb (standardErrors []) (some ref)
        refine ⟨rs, fun rest => Pipeline.run_cons (by rw [Step.run, hrs]) rest, fun code => ?_⟩
        rw [hget, he, Builder.selectStandard, ite_self]
        exact Option.or_none ..

theorem run_configuredErrorStages : ∃ rs : Responses,
    (∀ rest, Pipeline.run fetch (s.configuredErrorStages ++ rest) b disk =
      Pipeline.run fetch rest { b with errorResponses := rs } disk) ∧
    ∀ code, rs.get? code =
      ((s.config.errorResponses.get? code).map (·.response code s.errorRef)).or (b.errorResponses.get? code) := by
  unfold configuredErrorStages
  cases hempty : s.config.errorResponses.isEmpty with
  | true =>
    refine ⟨b.errorResponses, fun rest => rfl, fun code => ?_⟩
    rw [Dict.isEmpty_iff.mp hempty]
    rfl
  | false =>
    obtain ⟨rs, hrs, hget⟩ := Builder.addErrorResponses_ok hb s.config.errorResponses s.errorRef
    exact ⟨rs, fun rest => Pipeline.run_cons (by rw [Step.run, hrs]) rest, hget⟩

end

theorem description_of_mem_errors {code description : String} (h : (code, description) ∈ Status.errors) :
    Status.description code = description := by
  have hall : ∀ e ∈ Status.errors, Status.description e.1 = e.2 := by decide
  exact hall _ h

theorem offers_iff {code : String} {response : Response} : s.Offers code response ↔
    ((s.config.errorResponses.get? code).map (·.response code s.errorRef)).or
      ((s.standardSelection.get? code).map (·.response code s.errorRef)) = some response := by
  constructor
  · intro h
    cases h with
    | configured h =>
      rw [h, Option.map_some, Option.some_or, ErrorResponse.response_eq]
    | standard hconfigured hcode h =>
      rw [hconfigured, Option.map_none, Option.none_or, s.get?_standardSelection.mpr ⟨h, rfl⟩, Option.map_some,
        ErrorResponse.response_eq, ← description_of_mem_errors hcode]
      rfl
  · intro h
    cases hconfigured : s.config.errorResponses.get? code with
    | some e =>
      rw [hconfigured, Option.map_some, Option.some_or, ErrorResponse.response_eq] at h
      cases h
      exact .configured hconfigured
    | none =>
      rw [hconfigured, Option.map_none, Option.none_or, Option.map_eq_some_iff] at h
      obtain ⟨e, he, hresponse⟩ := h
      obtain ⟨hoffers, rfl⟩ := s.get?_standardSelection.mp he
      obtain ⟨⟨_, description⟩, hcode, rfl⟩ := List.mem_map.mp hoffers.1
      rw [ErrorResponse.response_eq] at hresponse
      subst hresponse
      rw [← description_of_mem_errors hcode] at hcode
      exact .standard hconfigured hcode hoffers

theorem builder_fresh : s.builder.pathsParsed = false ∧ s.builder.errorResponses = {} := by
  have hname : ∀ (b : Builder) name, (b.withFileName name).pathsParsed = b.pathsParsed ∧
      (b.withFileName name).errorResponses = b.errorResponses := by
    intro b name
    unfold Builder.withFileName
    split <;> exact ⟨rfl, rfl⟩
  unfold builder
  cases s.config.info <;> cases s.config.externalDocs <;> exact hname _ s.fileName

/-- The error stages of a run succeed, and leave the responses that the settings offer for the codes that are
kept. -/
theorem run_errorStages (fetch : Fetch) (disk : Disk) : ∃ b : Builder,
    (∀ rest, Pipeline.run fetch (s.errorStages ++ rest) s.builder disk = Pipeline.run fetch rest b disk) ∧
    ∀ code response, b.errorResponses.get? code = some response ↔
      (s.config.restrictErrors = [] ∨ code ∈ s.config.restrictErrors.map toString) ∧ s.Offers code response := by
  obtain ⟨hparsed, hnone⟩ := s.builder_fresh
  obtain ⟨rs, hrs, hstandard⟩ := s.run_standardErrorStages fetch hparsed disk hnone
  obtain ⟨rs', hrs', hconfigured⟩ := s.run_configuredErrorStages fetch
    (b := { s.builder with errorResponses := rs }) hparsed disk
  obtain ⟨rs'', hrestrict, hkept⟩ := Builder.restrictErrorResponses_ok
    (b := { s.builder with errorResponses := rs' }) hparsed s.config.restrictErrors
  refine ⟨{ s.builder with errorResponses := rs'' }, fun rest => ?_, fun code response => ?_⟩
  · rw [errorStages, List.append_assoc, List.append_assoc, hrs, hrs']
    exact Pipeline.run_cons (by rw [Step.run, hrestrict]) rest
  · rw [hkept, hconfigured, hstandard, offers_iff]

end CommandLine.Settings

namespace CommandLine

/-- **The error responses of a run.** When a run starts to look for schemas, it has for every code that is kept
the response that the settings offer: the configured one, or else the standard one of a code that is offered.
Offering standard codes by themselves is offering them with no reference or an empty one. -/
theorem errorResponses_in_force (fetch : Fetch) (args : Arguments) (disk : Disk) (s : Settings) :
    ∃ (b : Builder) (later : List Stage),
      s.stages args.projectPath = s.errorStages ++ (Step.parseSchemas s.schemasRoot).stage :: later ∧
      Pipeline.run fetch s.errorStages s.builder disk = (.ok b, disk) ∧
      (checkProject args disk = .ok () → Settings.ofArguments args disk = .ok s →
        run fetch args disk =
          (Pipeline.generate fetch ((Step.parseSchemas s.schemasRoot).stage :: later) s.outputDirectory b disk).map
            (·.mapError .stage) id) ∧
      (∀ code response, b.errorResponses.get? code = some response ↔
        (s.config.restrictErrors = [] ∨ code ∈ s.config.restrictErrors.map toString) ∧ s.Offers code response) ∧
      ∀ codes ref, ref = none ∨ ref = some "" →
        s.builder.addDefaultErrors codes = s.builder.addErrorResponses (Builder.selectStandard codes) ref := by
  obtain ⟨b, hrun, hget⟩ := s.run_errorStages fetch disk
  have hstages : ∃ later, s.stages args.projectPath =
      s.errorStages ++ (Step.parseSchemas s.schemasRoot).stage :: later := by
    have hprefix : s.errorStages ++ [(Step.parseSchemas s.schemasRoot).stage] <+: s.stages args.projectPath := by
      simp only [Settings.stages, List.append_assoc, List.prefix_append_right_inj]
      exact List.prefix_append [_] _
    obtain ⟨later, hlater⟩ := hprefix
    exact ⟨later, by rw [← hlater, List.append_assoc, List.singleton_append]⟩
  obtain ⟨later, hlater⟩ := hstages
  refine ⟨b, later, hlater, ?_, fun hproject hsettings => ?_, hget, fun codes ref href => ?_⟩
  · have h := hrun []
    rwa [List.append_nil] at h
  · rw [run, hproject, hsettings]
    simp only [hlater, Pipeline.generate_append hrun]
    split <;> simp_all [Except.mapError]
  · refine Builder.addDefaultErrors_eq s.builder_fresh.1 s.builder_fresh.2 codes ?_
    rcases href with rfl | rfl <;> rfl

def teapotConfig : String :=
  "error_responses: \x7b'404': \x7bref: Missing\x7d, '418': \x7bdescription: Teapot\x7d\x7d\nrestrict_errors: [404, 418, 500]\n"

def teapotDisk : Disk where
  root := .directory [("p", .directory [("c.yaml", .file teapotConfig.toUTF8)])]
  here := []

def teapotArguments : Arguments where
  projectPath := "/p"
  config := some "/p/c.yaml"
  defaultErrors := some [404, 500, 503]
  errorRef := some "Problem"

/-- The configured responses count before the standard ones, and 503 is not kept. -/
theorem errorResponses_in_force_teapot : ∃ s, checkProject teapotArguments teapotDisk = .ok () ∧
    Settings.ofArguments teapotArguments teapotDisk = .ok s ∧ ∃ (b : Builder) (later : List Stage),
      run (fun _ => none) teapotArguments teapotDisk =
        (Pipeline.generate (fun _ => none) ((Step.parseSchemas s.schemasRoot).stage :: later) s.outputDirectory b
          teapotDisk).map (·.mapError .stage) id ∧
      b.errorResponses.get? "404" =
        some { description := "Not Found", content := some (.forReference (schemaRef "Missing")) } ∧
      b.errorResponses.get? "418" =
        some { description := "Teapot", content := some (.forReference (schemaRef "Problem")) } ∧
      b.errorResponses.get? "500" =
        some { description := "Internal Server Error", content := some (.forReference (schemaRef "Problem")) } ∧
      b.errorResponses.get? "503" = none := by
  have hproject : checkProject teapotArguments teapotDisk = .ok () := by decide +kernel
  have hread : (Settings.ofArguments teapotArguments teapotDisk).toOption.any (fun s =>
      s.errorRef = some "Problem" ∧ s.config.defaultErrors = some [404, 500, 503] ∧
      s.config.restrictErrors = [404, 418, 500] ∧ s.config.errorResponses.entries =
        [("404", { reference := some "Missing" }), ("418", { description := some "Teapot" })]) = true := by
    decide +kernel
  cases hs : Settings.ofArguments teapotArguments teapotDisk with
  | error e =>
    rw [hs] at hread
    cases hread
  | ok s =>
    rw [hs] at hread
    obtain ⟨href, hdefault, hrestrict, hentries⟩ := of_decide_eq_true hread
    obtain ⟨b, later, -, -, hrun, hget, -⟩ :=
      errorResponses_in_force (fun _ => none) teapotArguments teapotDisk s
    have hlookup : ∀ code, s.config.errorResponses.get? code = Dict.lookup code
        [("404", { reference := some "Missing" }), ("418", { description := some "Teapot" })] := by
      intro code
      rw [Dict.get?, hentries]
    have hoffered : s.OffersStandard "500" := by
      unfold Settings.OffersStandard
      rw [hdefault]
      exact ⟨by decide, .inl (by decide)⟩
    have hmissing := Settings.Offers.configured (s := s) (hlookup "404")
    have hteapot := Settings.Offers.configured (s := s) (hlookup "418")
    have hlisted : ("500", "Internal Server Error") ∈ Status.errors := by decide
    have hserver := Settings.Offers.standard (hlookup "500") hlisted hoffered
    rw [href] at hmissing hteapot hserver
    simp only [hrestrict] at hget
    refine ⟨s, hproject, rfl, b, later, hrun hproject hs, (hget _ _).mpr ⟨.inr (by decide), hmissing⟩,
      (hget _ _).mpr ⟨.inr (by decide), hteapot⟩, (hget _ _).mpr ⟨.inr (by decide), hserver⟩, ?_⟩
    cases hkept : b.errorResponses.get? "503" with
    | none => rfl
    | some response => exact absurd ((hget _ _).mp hkept).1 (by decide)

end CommandLine

end ApiDocs
