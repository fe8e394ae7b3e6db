import ApiDocs.Directive.Record
import ApiDocs.Proofs.Keyed
import Mathlib.Data.List.Forall2

/-!
# What the directives of a block tell

Each field of a record is read off the directives of its own key alone: the last one where a field has
one value, all of them for the lists, and the last one of each code or scheme for the maps.
-/

namespace ApiDocs

open Text

namespace Directive

/-! ## Directives of one key -/

def IsAt (name code : String) (d : Directive) : Prop := d.name = name ∧ d.code = code

instance (name code : String) (d : Directive) : Decidable (d.IsAt name code) :=
  inferInstanceAs (Decidable (_ ∧ _))

/-- The names of keys without a code that describe a handler. -/
def plainNames : List String :=
  ["Path", "Method", "Description", "Summary", "RequestRef", "ResponseRef", "StatusCode", "Tag",
    "ParametersRef", "Deprecated", "ErrorStatusCodes", "Security"]

/-- The names of keys with a code that describe a handler. -/
def codedNames : List String := ["CustomErrorRef", "CustomErrorDescription"]

def IsHandlerKey (name code : String) : Prop :=
  code = "" ∧ name ∈ plainNames ∨ code ≠ "" ∧ name ∈ codedNames

def IsRecognized (d : Directive) : Prop := IsHandlerKey d.name d.code

instance (d : Directive) : Decidable d.IsRecognized := inferInstanceAs (Decidable (_ ∨ _))

def valuesOf (name code : String) (ds : List Directive) : List String :=
  (ds.filter fun d => d.IsAt name code).map (·.value)

def last? (name code : String) (ds : List Directive) : Option String := (valuesOf name code ds).getLast?

theorem valuesOf_cons (name code : String) (d : Directive) (ds : List Directive) :
    valuesOf name code (d :: ds) =
      (if d.IsAt name code then [d.value] else []) ++ valuesOf name code ds := by
  by_cases h : d.IsAt name code <;> simp [valuesOf, h]

theorem valuesOf_snoc (name code : String) (ds : List Directive) (d : Directive) :
    valuesOf name code (ds ++ [d]) =
      valuesOf name code ds ++ if d.IsAt name code then [d.value] else [] := by
  by_cases h : d.IsAt name code <;> simp [valuesOf, h]

theorem last?_snoc (name code : String) (ds : List Directive) (d : Directive) :
    last? name code (ds ++ [d]) = if d.IsAt name code then some d.value else last? name code ds := by
  rw [last?, valuesOf_snoc]
  by_cases h : d.IsAt name code <;> simp [h, last?]

/-- What the last directive of a key without code says, or `default` if there is none. -/
def lastOr {α : Type} (name : String) (read : String → α) (default : α) (ds : List Directive) : α :=
  ((last? name "" ds).map read).getD default

theorem lastOr_snoc {α : Type} (name : String) (read : String → α) (default : α) (ds : List Directive)
    (d : Directive) : lastOr name read default (ds ++ [d]) =
      if d.IsAt name "" then read d.value else lastOr name read default ds := by
  rw [lastOr, last?_snoc]
  by_cases h : d.IsAt name "" <;> simp [h, lastOr]

def grant? (value : String) : Option (String × List String) :=
  match commaItems value with
  | [] => none
  | scheme :: scopes => some (scheme, scopes)

def grants (ds : List Directive) : List (String × List String) :=
  (valuesOf "Security" "" ds).filterMap grant?

theorem grants_snoc (ds : List Directive) (d : Directive) :
    grants (ds ++ [d]) = grants ds ++ if d.IsAt "Security" "" then (grant? d.value).toList else [] := by
  rw [grants, valuesOf_snoc, List.filterMap_append, ← grants]
  by_cases h : d.IsAt "Security" ""
  · cases hg : grant? d.value <;> simp [h, hg]
  · simp [h]

end Directive

open Directive

namespace Record

/-! ## One directive -/

def told (r : Record) (d : Directive) : Record where
  path := if d.IsAt "Path" "" then firstWord d.value else r.path
  method := if d.IsAt "Method" "" then firstWord d.value else r.method
  description := if d.IsAt "Description" "" then d.value else r.description
  summary := if d.IsAt "Summary" "" then d.value else r.summary
  requestRef := if d.IsAt "RequestRef" "" then firstWord d.value else r.requestRef
  responseRef := if d.IsAt "ResponseRef" "" then firstWord d.value else r.responseRef
  statusCode := if d.IsAt "StatusCode" "" then firstWord d.value else r.statusCode
  tag := if d.IsAt "Tag" "" then d.value else r.tag
  parametersRef := if d.IsAt "ParametersRef" "" then firstWord d.value else r.parametersRef
  deprecated :=
    if d.IsAt "Deprecated" "" then sameIgnoringCase (firstWord d.value) "true" else r.deprecated
  errorStatusCodes := r.errorStatusCodes ++
    if d.IsAt "ErrorStatusCodes" "" then (commaItems d.value).map firstWord else []
  customErrorRefs :=
    if d.name = "CustomErrorRef" ∧ d.code ≠ "" then r.customErrorRefs.insert d.code d.value
    else r.customErrorRefs
  customErrorDescriptions :=
    if d.name = "CustomErrorDescription" ∧ d.code ≠ "" then
      r.customErrorDescriptions.insert d.code d.value
    else r.customErrorDescriptions
  security :=
    if d.IsAt "Security" "" then
      match grant? d.value with
      | none => r.security
      | some (scheme, scopes) => r.security.insert scheme scopes
    else r.security

theorem add?_plain (r : Record) (value : String) :
    ∀ name ∈ plainNames, r.add? ⟨name, "", value⟩ = some (r.told ⟨name, "", value⟩) := by
  cases hitems : commaItems value <;> simp [plainNames, add?, told, IsAt, grant?, hitems]

theorem add?_coded (r : Record) {code : String} (h : code ≠ "") (value : String) :
    ∀ name ∈ codedNames, r.add? ⟨name, code, value⟩ = some (r.told ⟨name, code, value⟩) := by
  simp [codedNames, add?, told, IsAt, h]

theorem add?_of_not_isRecognized (r : Record) {d : Directive} (h : ¬d.IsRecognized) : r.add? d = none := by
  obtain ⟨name, code, value⟩ := d
  simp only [IsRecognized, IsHandlerKey, plainNames, codedNames, List.mem_cons, not_or, not_and] at h
  unfold add?
  split <;> split <;> simp_all

theorem add?_eq (r : Record) (d : Directive) :
    r.add? d = if d.IsRecognized then some (r.told d) else none := by
  by_cases h : d.IsRecognized
  · rw [if_pos h]
    obtain ⟨name, code, value⟩ := d
    rcases h with ⟨hcode, hname⟩ | ⟨hcode, hname⟩
    · obtain rfl : code = "" := hcode
      exact add?_plain r value name hname
    · exact add?_coded r hcode value name hname
  · rw [if_neg h, add?_of_not_isRecognized r h]

theorem told_of_not_isRecognized (r : Record) {d : Directive} (h : ¬d.IsRecognized) : r.told d = r := by
  obtain ⟨name, code, value⟩ := d
  simp [IsRecognized, IsHandlerKey, plainNames, codedNames] at h
  by_cases hcode : code = ""
  · simp_all [told, IsAt]
  · simp_all [told, IsAt]

/-! ## All directives -/

/-- What directives tell of a handler. -/
structure Tells (ds : List Directive) (r : Record) : Prop where
  path : r.path = lastOr "Path" firstWord "" ds
  method : r.method = lastOr "Method" firstWord "" ds
  description : r.description = lastOr "Description" id "" ds
  summary : r.summary = lastOr "Summary" id "" ds
  requestRef : r.requestRef = lastOr "RequestRef" firstWord "" ds
  responseRef : r.responseRef = lastOr "ResponseRef" firstWord "" ds
  statusCode : r.statusCode = lastOr "StatusCode" firstWord "" ds
  tag : r.tag = lastOr "Tag" id "" ds
  parametersRef : r.parametersRef = lastOr "ParametersRef" firstWord "" ds
  deprecated : r.deprecated = lastOr "Deprecated" (fun v => sameIgnoringCase (firstWord v) "true") false ds
  errorStatusCodes : r.errorStatusCodes =
    (valuesOf "ErrorStatusCodes" "" ds).flatMap fun v => (commaItems v).map firstWord
  customErrorRefs : ∀ code, r.customErrorRefs.get? code =
    if code = "" then none else last? "CustomErrorRef" code ds
  customErrorDescriptions : ∀ code, r.customErrorDescriptions.get? code =
    if code = "" then none else last? "CustomErrorDescription" code ds
  /-- Schemes stand in the order in which they first come. -/
  schemes : r.security.keys = ((grants ds).map (·.1)).eraseDups
  scopes : ∀ scheme, r.security.get? scheme =
    (((grants ds).filter fun g => g.1 = scheme).map (·.2)).getLast?

theorem tells_nil : Tells [] {} := by
  constructor
  case customErrorRefs => exact fun code => (ite_self none).symm
  case customErrorDescriptions => exact fun code => (ite_self none).symm
  case scopes => exact fun scheme => rfl
  all_goals rfl

variable {ds : List Directive} {r : Record} {d : Directive}

theorem get?_coded (m : Dict String) (name code : String)
    (h : ∀ code, m.get? code = if code = "" then none else last? name code ds) :
    (if d.name = name ∧ d.code ≠ "" then m.insert d.code d.value else m).get? code =
      if code = "" then none else last? name code (ds ++ [d]) := by
  rw [last?_snoc]
  by_cases hd : d.name = name ∧ d.code ≠ ""
  · rw [if_pos hd, Dict.get?_insert, h]
    by_cases hcode : code = d.code
    · subst hcode
      simp [hd, IsAt]
    · simp [hcode, IsAt, Ne.symm hcode]
  · rw [if_neg hd, h]
    by_cases hcode : code = ""
    · simp [hcode]
    · have : ¬d.IsAt name code := by
        intro hat
        exact hd ⟨hat.1, by rw [hat.2]; exact hcode⟩
      simp [hcode, this]

theorem Tells.told (h : r.Tells ds) (d : Directive) : (r.told d).Tells (ds ++ [d]) where
  path := by simp only [Record.told, lastOr_snoc, h.path]
  method := by simp only [Record.told, lastOr_snoc, h.method]
  description := by simp only [Record.told, lastOr_snoc, h.description, id]
  summary := by simp only [Record.told, lastOr_snoc, h.summary, id]
  requestRef := by simp only [Record.told, lastOr_snoc, h.requestRef]
  responseRef := by simp only [Record.told, lastOr_snoc, h.responseRef]
  statusCode := by simp only [Record.told, lastOr_snoc, h.statusCode]
  tag := by simp only [Record.told, lastOr_snoc, h.tag, id]
  parametersRef := by simp only [Record.told, lastOr_snoc, h.parametersRef]
  deprecated := by simp only [Record.told, lastOr_snoc, h.deprecated]
  errorStatusCodes := by
    rw [valuesOf_snoc, List.flatMap_append, ← h.errorStatusCodes]
    by_cases hd : d.IsAt "ErrorStatusCodes" "" <;> simp [Record.told, hd]
  customErrorRefs := fun code => get?_coded _ _ code h.customErrorRefs
  customErrorDescriptions := fun code => get?_coded _ _ code h.customErrorDescriptions
  schemes := by
    rw [grants_snoc, List.map_append, List.eraseDups_append, ← h.schemes]
    by_cases hd : d.IsAt "Security" ""
    · cases hg : grant? d.value with
      | none => simp [Record.told, hd, hg]
      | some g =>
        have hmem : g.1 ∈ r.security.keys ↔ g.1 ∈ (grants ds).map (·.1) := by
          rw [h.schemes, List.mem_eraseDups]
        simp only [Record.told, hd, hg, if_true, Table.keys_insert, hmem]
        by_cases hk : g.1 ∈ (grants ds).map (·.1) <;> simp [List.removeAll, List.eraseDups_cons, hk]
    · simp [Record.told, hd]
  scopes := by
    intro scheme
    rw [grants_snoc, List.filter_append, List.map_append]
    by_cases hd : d.IsAt "Security" ""
    · cases hg : grant? d.value with
      | none => simp [Record.told, hd, hg, h.scopes]
      | some g =>
        simp only [Record.told, hd, hg, if_true, Table.get?_insert]
        by_cases hk : scheme = g.1
        · simp [hk]
        · simp [hk, Ne.symm hk, h.scopes]
    · simp [Record.told, hd, h.scopes]

theorem Tells.unique {r' : Record} (h : r.Tells ds) (h' : r'.Tells ds) : r = r' := by
  have hrefs : r.customErrorRefs = r'.customErrorRefs := by
    apply Dict.ext_get?
    intro code
    rw [h.customErrorRefs, h'.customErrorRefs]
  have hdescriptions : r.customErrorDescriptions = r'.customErrorDescriptions := by
    apply Dict.ext_get?
    intro code
    rw [h.customErrorDescriptions, h'.customErrorDescriptions]
  have hsecurity : r.security = r'.security := by
    apply Table.ext_get?
    · rw [h.schemes, h'.schemes]
    · intro scheme
      rw [h.scopes, h'.scopes]
  cases r
  cases r'
  rw [Record.mk.injEq]
  exact ⟨h.path.trans h'.path.symm, h.method.trans h'.method.symm,
    h.description.trans h'.description.symm, h.summary.trans h'.summary.symm,
    h.requestRef.trans h'.requestRef.symm, h.responseRef.trans h'.responseRef.symm,
    h.statusCode.trans h'.statusCode.symm, h.tag.trans h'.tag.symm,
    h.parametersRef.trans h'.parametersRef.symm, h.deprecated.trans h'.deprecated.symm,
    h.errorStatusCodes.trans h'.errorStatusCodes.symm, hrefs, hdescriptions, hsecurity⟩

theorem ofDirectives_snoc (ds : List Directive) (d : Directive) : ofDirectives (ds ++ [d]) =
    if d.IsRecognized then some (((ofDirectives ds).getD {}).told d) else ofDirectives ds := by
  rw [ofDirectives, List.foldl_append, ← ofDirectives, List.foldl_cons, List.foldl_nil, add?_eq]
  by_cases h : d.IsRecognized <;> simp [h]

theorem tells_ofDirectives (ds : List Directive) : ((ofDirectives ds).getD {}).Tells ds := by
  induction ds using List.reverseRecOn with
  | nil => exact tells_nil
  | append_singleton ds d ih =>
    have hstep := ih.told d
    rw [ofDirectives_snoc]
    by_cases h : d.IsRecognized
    · rw [if_pos h]
      exact hstep
    · rw [told_of_not_isRecognized _ h] at hstep
      rw [if_neg h]
      exact hstep

theorem isSome_ofDirectives (ds : List Directive) :
    (ofDirectives ds).isSome ↔ ∃ d ∈ ds, d.IsRecognized := by
  induction ds using List.reverseRecOn with
  | nil => simp [ofDirectives]
  | append_singleton ds d ih =>
    rw [ofDirectives_snoc]
    by_cases h : d.IsRecognized
    · simp [h]
    · simp [h, ih]

theorem ofDirectives_eq_some_iff : ofDirectives ds = some r ↔
    (∃ d ∈ ds, d.IsRecognized) ∧ r.Tells ds := by
  rw [← isSome_ofDirectives]
  have htells := tells_ofDirectives ds
  cases h : ofDirectives ds with
  | none => simp
  | some r' =>
    rw [h, Option.getD_some] at htells
    simp only [Option.some.injEq, Option.isSome_some, true_and]
    constructor
    · rintro rfl
      exact htells
    · exact htells.unique

/-! ## Directives that do not count -/

theorem exists_isRecognized_iff :
    (∃ d ∈ ds, d.IsRecognized) ↔ ∃ name code, IsHandlerKey name code ∧ valuesOf name code ds ≠ [] := by
  constructor
  · rintro ⟨d, hd, hkey⟩
    refine ⟨d.name, d.code, hkey, ?_⟩
    have : d.value ∈ valuesOf d.name d.code ds := by
      simp only [valuesOf, List.mem_map, List.mem_filter]
      exact ⟨d, ⟨hd, by simp [IsAt]⟩, rfl⟩
    exact List.ne_nil_of_mem this
  · rintro ⟨name, code, hkey, hne⟩
    obtain ⟨v, hv⟩ := List.exists_mem_of_ne_nil _ hne
    simp only [valuesOf, List.mem_map, List.mem_filter, decide_eq_true_eq] at hv
    obtain ⟨d, ⟨hd, rfl, rfl⟩, -⟩ := hv
    exact ⟨d, hd, hkey⟩

theorem Tells.congr {es : List Directive} (hsame : ∀ name code, IsHandlerKey name code →
    valuesOf name code es = valuesOf name code ds) (h : r.Tells ds) : r.Tells es := by
  have hplain : ∀ name ∈ plainNames, valuesOf name "" es = valuesOf name "" ds :=
    fun name hname => hsame name "" (Or.inl ⟨rfl, hname⟩)
  have hlast : ∀ {α : Type} (name : String) (read : String → α) (default : α), name ∈ plainNames →
      lastOr name read default ds = lastOr name read default es := by
    intro α name read default hname
    simp only [lastOr, last?, hplain name hname]
  have hcoded : ∀ name ∈ codedNames, ∀ code, (if code = "" then none else last? name code ds) =
      if code = "" then none else last? name code es := by
    intro name hname code
    by_cases hcode : code = ""
    · simp [hcode]
    · simp only [hcode, if_false, last?, hsame name code (Or.inr ⟨hcode, hname⟩)]
  have hgrants : grants es = grants ds := by
    simp only [grants, hplain "Security" (by decide)]
  constructor
  case errorStatusCodes => rw [hplain _ (by decide), h.errorStatusCodes]
  case customErrorRefs => exact fun code => (h.customErrorRefs code).trans (hcoded _ (by decide) code)
  case customErrorDescriptions =>
    exact fun code => (h.customErrorDescriptions code).trans (hcoded _ (by decide) code)
  case schemes => rw [hgrants, h.schemes]
  case scopes => intro scheme; rw [hgrants, h.scopes]
  case path => exact h.path.trans (hlast _ _ _ (by decide))
  case method => exact h.method.trans (hlast _ _ _ (by decide))
  case description => exact h.description.trans (hlast _ _ _ (by decide))
  case summary => exact h.summary.trans (hlast _ _ _ (by decide))
  case requestRef => exact h.requestRef.trans (hlast _ _ _ (by decide))
  case responseRef => exact h.responseRef.trans (hlast _ _ _ (by decide))
  case statusCode => exact h.statusCode.trans (hlast _ _ _ (by decide))
  case tag => exact h.tag.trans (hlast _ _ _ (by decide))
  case parametersRef => exact h.parametersRef.trans (hlast _ _ _ (by decide))
  case deprecated => exact h.deprecated.trans (hlast _ _ _ (by decide))

theorem ofDirectives_congr {es : List Directive} (hsame : ∀ name code, IsHandlerKey name code →
    valuesOf name code es = valuesOf name code ds) : ofDirectives es = ofDirectives ds := by
  apply Option.ext
  intro r
  rw [ofDirectives_eq_some_iff, ofDirectives_eq_some_iff, exists_isRecognized_iff,
    exists_isRecognized_iff]
  apply and_congr
  · constructor
    · rintro ⟨name, code, hkey, hne⟩
      exact ⟨name, code, hkey, by rw [← hsame name code hkey]; exact hne⟩
    · rintro ⟨name, code, hkey, hne⟩
      exact ⟨name, code, hkey, by rw [hsame name code hkey]; exact hne⟩
  · exact ⟨Tells.congr fun name code hkey => (hsame name code hkey).symm, Tells.congr hsame⟩

theorem valuesOf_recognized {name code : String} (h : IsHandlerKey name code) :
    valuesOf name code (ds.filter (·.IsRecognized)) = valuesOf name code ds := by
  rw [valuesOf, List.filter_filter, valuesOf]
  apply congrArg
  apply List.filter_congr
  intro d _
  by_cases hd : d.IsAt name code
  · obtain ⟨rfl, rfl⟩ := hd
    have hd : d.IsRecognized := h
    simp [IsAt, hd]
  · simp [hd]

/-! ## Directives that read alike -/

/-- Directives of the same keys whose values at one key read the same. -/
def Alike {β : Type} (name code : String) (read : String → β) (ds es : List Directive) : Prop :=
  List.Forall₂ (fun d e => d.name = e.name ∧ d.code = e.code ∧
    (d.IsAt name code → read d.value = read e.value)) ds es

theorem Alike.map_valuesOf {β : Type} {name code : String} {read : String → β} {es : List Directive}
    (h : Alike name code read ds es) :
    (valuesOf name code ds).map read = (valuesOf name code es).map read := by
  induction h with
  | nil => rfl
  | @cons d e ds es hde _ ih =>
    obtain ⟨hname, hcode, hread⟩ := hde
    rw [valuesOf_cons, valuesOf_cons, List.map_append, List.map_append, ih]
    by_cases hd : d.IsAt name code
    · have he : e.IsAt name code := ⟨hname ▸ hd.1, hcode ▸ hd.2⟩
      simp [hd, he, hread hd]
    · have he : ¬e.IsAt name code := fun he => hd ⟨hname.trans he.1, hcode.trans he.2⟩
      simp [hd, he]

theorem Alike.map_last? {β : Type} {name code : String} {read : String → β} {es : List Directive}
    (h : Alike name code read ds es) : (last? name code ds).map read = (last? name code es).map read := by
  simp only [Directive.last?, ← List.getLast?_map, h.map_valuesOf]

theorem Alike.lastOr {β : Type} {name : String} {read : String → β} {es : List Directive}
    (h : Alike name "" read ds es) (default : β) :
    lastOr name read default ds = lastOr name read default es := by
  rw [Directive.lastOr, h.map_last?, Directive.lastOr]

theorem Alike.last? {name code : String} {es : List Directive} (h : Alike name code id ds es) :
    last? name code ds = last? name code es := by
  simpa using h.map_last?

/-- What reads the same also reads the same in part. -/
theorem Alike.comp {β γ : Type} {name code : String} {read : String → β} {es : List Directive}
    (h : Alike name code read ds es) (see : β → γ) : Alike name code (fun v => see (read v)) ds es := by
  apply h.imp
  intro d e hde
  exact ⟨hde.1, hde.2.1, fun hat => congrArg see (hde.2.2 hat)⟩

theorem Alike.exists_isRecognized {β : Type} {name code : String} {read : String → β}
    {es : List Directive} (h : Alike name code read ds es) :
    (∃ d ∈ ds, d.IsRecognized) ↔ ∃ e ∈ es, e.IsRecognized := by
  induction h with
  | nil => rfl
  | @cons d e ds es hde _ ih =>
    have hrec : d.IsRecognized ↔ e.IsRecognized := by
      unfold IsRecognized
      rw [hde.1, hde.2.1]
    simp only [List.mem_cons, exists_eq_or_imp, ih, hrec]

/-- What is seen of the records of two lists agrees if it agrees in what the lists tell. -/
theorem map_ofDirectives_congr {β : Type} {view : Record → β} {es : List Directive}
    (hsome : (∃ d ∈ ds, d.IsRecognized) ↔ ∃ e ∈ es, e.IsRecognized)
    (hview : ∀ r r', r.Tells ds → r'.Tells es → view r = view r') :
    (ofDirectives ds).map view = (ofDirectives es).map view := by
  have hd := tells_ofDirectives ds
  have he := tells_ofDirectives es
  rw [← isSome_ofDirectives, ← isSome_ofDirectives] at hsome
  cases h : ofDirectives ds with
  | none =>
    cases h' : ofDirectives es with
    | none => rfl
    | some r' => simp [h, h'] at hsome
  | some r =>
    cases h' : ofDirectives es with
    | none => simp [h, h'] at hsome
    | some r' =>
      rw [h] at hd
      rw [h'] at he
      exact congrArg some (hview r r' hd he)

end Record

/-- A block gives a record exactly if it has a directive that describes a handler, and that record holds
what the directives tell: fields of one value the last one, the others all of them. Directives of other
keys can be left out, and only the order within each key counts. -/
theorem record_tells (block : String) :
    let ds := Directive.ofBlock block
    (Record.ofBlock? block = none ↔ ∀ d ∈ ds, ¬d.IsRecognized) ∧
    (∀ r, Record.ofBlock? block = some r ↔ (∃ d ∈ ds, d.IsRecognized) ∧ r.Tells ds) ∧
    Record.ofBlock? block = Record.ofDirectives (ds.filter (·.IsRecognized)) ∧
    ∀ es, (∀ name code, IsHandlerKey name code → valuesOf name code es = valuesOf name code ds) →
      Record.ofDirectives es = Record.ofBlock? block := by
  intro ds
  refine ⟨?_, fun r => Record.ofDirectives_eq_some_iff, ?_, fun es h => Record.ofDirectives_congr h⟩
  · have hsome := Record.isSome_ofDirectives ds
    rw [← Option.not_isSome_iff_eq_none, Record.ofBlock?, hsome]
    simp
  · exact (Record.ofDirectives_congr fun name code h => Record.valuesOf_recognized h).symm

end ApiDocs
