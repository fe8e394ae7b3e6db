import ApiDocs.Proofs.Directive.Keys
import ApiDocs.Proofs.EntryChecks

/-!
# Checks of routes

A key is taken for a method whatever its case and the blanks around it, but the checks compare keys in
upper case, blanks included. So they tell methods apart, and they find a method again where it is
written without blanks around it; a key with blanks is a route of its own and never `GET`.
-/

namespace ApiDocs

namespace Text

theorem exists_eq_ofNat {a c z : Char} (h : a ≤ c ∧ c ≤ z) :
    ∃ i < z.toNat + 1 - a.toNat, c = Char.ofNat (a.toNat + i) := by
  have ha : a.toNat ≤ c.toNat := h.1
  have hz : c.toNat ≤ z.toNat := h.2
  refine ⟨c.toNat - a.toNat, by omega, ?_⟩
  rw [Nat.add_sub_cancel' ha, Char.ofNat_toNat]

theorem upperAscii_lowerAscii (c : Char) : upperAscii (lowerAscii c) = upperAscii c := by
  by_cases h : 'A' ≤ c ∧ c ≤ 'Z'
  · have hletters : ∀ i < 26, upperAscii (lowerAscii (Char.ofNat (65 + i))) = upperAscii (Char.ofNat (65 + i)) := by
      decide
    obtain ⟨i, hi, rfl⟩ := exists_eq_ofNat h
    exact hletters i hi
  · rw [lowerAscii, if_neg h]

theorem isBlank_upperAscii (c : Char) : isBlank (upperAscii c) = isBlank c := by
  by_cases h : 'a' ≤ c ∧ c ≤ 'z'
  · have hletters : ∀ i < 26, isBlank (upperAscii (Char.ofNat (97 + i))) = isBlank (Char.ofNat (97 + i)) := by
      decide
    obtain ⟨i, hi, rfl⟩ := exists_eq_ofNat h
    exact hletters i hi
  · rw [upperAscii, if_neg h]

theorem dropBlank_map {f : Char → Char} (h : ∀ c, isBlank (f c) = isBlank c) (cs : List Char) :
    dropBlank (cs.map f) = (dropBlank cs).map f := by
  have hf : isBlank ∘ f = isBlank := funext h
  rw [dropBlank, List.dropWhile_map, hf, dropBlank]

theorem trimChars_map {f : Char → Char} (h : ∀ c, isBlank (f c) = isBlank c) (cs : List Char) :
    trimChars (cs.map f) = (trimChars cs).map f := by
  rw [trimChars, dropBlank_map h, ← List.map_reverse, dropBlank_map h, ← List.map_reverse, trimChars]

end Text

open Text

namespace MethodKey

theorem upperCase_trim (k : MethodKey) :
    (trimChars k.text.toList).map upperAscii = k.method.display.toList := by
  have hsame := List.find?_some k.spells
  have hlower : (k.method.key.toList.map lowerAscii) = (trimChars k.text.toList).map lowerAscii := by
    simpa [sameIgnoringCase, trim] using hsame
  have hupper : ∀ cs : List Char, (cs.map lowerAscii).map upperAscii = cs.map upperAscii := by
    intro cs
    rw [List.map_map]
    exact List.map_congr_left fun c _ => upperAscii_lowerAscii c
  rw [← hupper, ← hlower, hupper, Method.display, String.toList_ofList]

/-- Keys that are compared equal are keys of one method. -/
theorem trim_upperCase (k : MethodKey) : trim k.upperCase = k.method.display := by
  rw [trim, upperCase, String.toList_ofList, trimChars_map isBlank_upperAscii, upperCase_trim,
    String.ofList_toList]

/-- Exactly the keys without blanks around them are compared as their methods. -/
theorem upperCase_eq_display_iff (k : MethodKey) : k.upperCase = k.method.display ↔ trim k.text = k.text := by
  rw [← k.trim_upperCase, trim, trim, upperCase, String.toList_ofList, trimChars_map isBlank_upperAscii,
    String.ofList_inj]
  constructor
  · intro h
    have hlength : (trimChars k.text.toList).length = k.text.toList.length := by
      simpa using congrArg List.length h.symm
    rw [(Directive.trimChars_isInfix k.text.toList).eq_of_length hlength, String.ofList_toList]
  · intro h
    have hchars : trimChars k.text.toList = k.text.toList := by
      rw [← String.ofList_inj, h, String.ofList_toList]
    rw [hchars]

theorem upperCase_eq_get_iff (k : MethodKey) :
    k.upperCase = "GET" ↔ k.method = .get ∧ trim k.text = k.text := by
  constructor
  · intro h
    have hget : k.method = .get := by
      refine Document.display_inj ?_
      rw [← k.trim_upperCase, h]
      decide
    refine ⟨hget, k.upperCase_eq_display_iff.mp ?_⟩
    rw [h, hget]
    decide
  · rintro ⟨hget, htrim⟩
    rw [k.upperCase_eq_display_iff.mpr htrim, hget]
    decide

end MethodKey

namespace Transcript

/-! ## Accepted keys -/

theorem keys_of_mapM {α β γ : Type} {read : α → Option β} : ∀ {l : List (γ × α)} {r : List (γ × β)},
    l.mapM (fun e => (read e.2).map (e.1, ·)) = some r → r.map (·.1) = l.map (·.1)
  | [], r, h => by
    cases h
    rfl
  | e :: l, r, h => by
    rw [List.mapM_cons] at h
    obtain ⟨b, hb, h⟩ := Option.bind_eq_some_iff.mp h
    obtain ⟨rest, hrest, h⟩ := Option.bind_eq_some_iff.mp h
    obtain ⟨_, _, rfl⟩ := Option.map_eq_some_iff.mp hb
    cases h
    rw [List.map_cons, List.map_cons, keys_of_mapM hrest]

theorem texts_of_keys {α : Type} (es : List (String × α)) :
    ((es.filterMap fun e => (MethodKey.ofText? e.1).map (·, e.2)).map (·.1)).map (·.text) =
      (es.map (·.1)).filter fun key => (Method.ofText? key).isSome := by
  induction es with
  | nil => rfl
  | cons e es ih =>
    cases hm : Method.ofText? e.1 with
    | none => simpa [hm, MethodKey.ofText?_of_none hm] using ih
    | some m => simpa [hm, MethodKey.ofText?_of_some hm] using ih

/-- The operations of a path are its entries whose keys spell a method. -/
theorem keys_decodePath {ν : Type} [Readable ν] {v : ν} {es : List (String × ν)}
    {ops : List (MethodKey × Operation)} (hv : Readable.map? v = some es) (h : decodePath v = some ops) :
    ops.map (·.1.text) = (es.map (·.1)).filter fun key => (Method.ofText? key).isSome := by
  rw [decodePath, hv] at h
  rw [← texts_of_keys, ← keys_of_mapM h, List.map_map]
  rfl

/-! ## Routes -/

variable (t : Transcript)

theorem onceIff_duplicateMethodPath (key path : String) :
    (Finding.duplicateMethodPath key path).OnceIff t.findings
      (2 ≤ t.operations.countP fun e => e.1 = path ∧ e.2.1.upperCase = key) := by
  have hnodup : t.outline.duplicateMethodPaths.Nodup := (nodup_repeated _).map Finding.duplicateMethodPath_injective
  refine Finding.onceIff_of_nodup (t.outline.count_findings _) hnodup ?_
  refine t.outline.mem_duplicateMethodPaths.trans ?_
  rw [t.outline_operations, List.countP_map]
  rfl

theorem count_duplicateGetParameter (path name : String) :
    t.findings.count (.duplicateGetParameter path name) =
      t.operations.countP fun e => e.1 = path ∧ e.2.1.upperCase = "GET" ∧ 2 ≤ e.2.2.names.count name := by
  refine (t.outline.count_findings _).trans ((t.outline.count_duplicateGetParameters path name).trans ?_)
  rw [t.outline_operations, List.countP_map]
  rfl

end Transcript

/-- Keys that spell a method, and no others, are taken for operations. The checks compare them in upper
case with the blanks around them: two keys of a path are a repeated route if they are spelled alike in
that sense, and an operation is checked for repeated parameters if its key is `GET` without blanks. Where
no key has blanks around it, routes are told by their methods. -/
theorem routes_by_spelling (t : Transcript) :
    (∀ text, Transcript.ofText? text = some t → validate text = t.findings) ∧
    (∀ (v : Yaml.Value) es ops, Readable.map? v = some es → Transcript.decodePath v = some ops →
      ops.map (·.1.text) = (es.map (·.1)).filter fun key => (Method.ofText? key).isSome) ∧
    (∀ key path, (Finding.duplicateMethodPath key path).OnceIff t.findings
      (2 ≤ t.operations.countP fun e => e.1 = path ∧ e.2.1.upperCase = key)) ∧
    (∀ path name, t.findings.count (.duplicateGetParameter path name) =
      t.operations.countP fun e =>
        e.1 = path ∧ (e.2.1.method = .get ∧ trim e.2.1.text = e.2.1.text) ∧ 2 ≤ e.2.2.names.count name) ∧
    (∀ e ∈ t.operations, trim e.2.1.upperCase = e.2.1.method.display) ∧
    ((∀ e ∈ t.operations, trim e.2.1.text = e.2.1.text) →
      (∀ m path, (Finding.duplicateMethodPath m.display path).OnceIff t.findings
        (2 ≤ t.operations.countP fun e => e.1 = path ∧ e.2.1.method = m)) ∧
      ∀ path name, t.findings.count (.duplicateGetParameter path name) =
        t.operations.countP fun e =>
          e.1 = path ∧ e.2.1.method = .get ∧ 2 ≤ e.2.2.names.count name) := by
  have hget : ∀ path name, t.findings.count (.duplicateGetParameter path name) =
      t.operations.countP fun e =>
        e.1 = path ∧ (e.2.1.method = .get ∧ trim e.2.1.text = e.2.1.text) ∧ 2 ≤ e.2.2.names.count name := by
    intro path name
    rw [t.count_duplicateGetParameter]
    simp only [MethodKey.upperCase_eq_get_iff]
  refine ⟨?_, fun v es ops hv h => Transcript.keys_decodePath hv h, t.onceIff_duplicateMethodPath, hget,
    fun e _ => e.2.1.trim_upperCase, fun htrim => ⟨?_, ?_⟩⟩
  · intro text ht
    rw [validate_eq, ht]
    rfl
  · intro m path
    have hsame : ∀ e ∈ t.operations, (e.2.1.upperCase = m.display ↔ e.2.1.method = m) := by
      intro e he
      rw [e.2.1.upperCase_eq_display_iff.mpr (htrim e he)]
      exact ⟨Document.display_inj, fun h => h ▸ rfl⟩
    have hcount : (t.operations.countP fun e => e.1 = path ∧ e.2.1.upperCase = m.display) =
        t.operations.countP fun e => e.1 = path ∧ e.2.1.method = m := by
      refine List.countP_congr fun e he => ?_
      simp [hsame e he]
    rw [← hcount]
    exact t.onceIff_duplicateMethodPath m.display path
  · intro path name
    rw [hget]
    refine List.countP_congr fun e he => ?_
    simp [htrim e he]

def mixedCaseText : String :=
  "paths:\n  /users:\n    get: {}\n    Get:\n      parameters:\n      - name: id\n      - name: id\n"

theorem routes_by_spelling_mixedCase : ∃ t, Transcript.ofText? mixedCaseText = some t ∧
    (∀ e ∈ t.operations, trim e.2.1.text = e.2.1.text) ∧
    t.findings.count (.duplicateMethodPath "GET" "/users") = 1 ∧
    t.findings.count (.duplicateGetParameter "/users" "id") = 1 := by
  have hentries : (Transcript.ofText? mixedCaseText).any (fun t =>
      (∀ e ∈ t.operations, trim e.2.1.text = e.2.1.text) ∧
      2 ≤ (t.operations.countP fun e => e.1 = "/users" ∧ e.2.1.method = .get) ∧
      (t.operations.countP fun e =>
        e.1 = "/users" ∧ e.2.1.method = .get ∧ 2 ≤ e.2.2.names.count "id") = 1) = true := by
    decide +kernel
  obtain ⟨t, ht, h⟩ := (Option.any_eq_true _ _).mp hentries
  obtain ⟨htrim, hroutes, hnames⟩ := of_decide_eq_true h
  obtain ⟨hmethods, hparameters⟩ := (routes_by_spelling t).2.2.2.2.2 htrim
  have hget : Method.get.display = "GET" := by decide
  exact ⟨t, ht, htrim, hget ▸ (hmethods .get "/users").1 hroutes, (hparameters "/users" "id").trans hnames⟩

def blankKeyText : String :=
  "paths:\n  /users:\n    get: {}\n    \" get\":\n      parameters:\n      - name: id\n      - name: id\n"

/-- The path has two operations for `GET`, and one of them repeats a parameter; neither is found. -/
theorem validate_blankKey : validate blankKeyText = [] ∧ ∃ t, Transcript.ofText? blankKeyText = some t ∧
    2 ≤ (t.operations.countP fun e => e.1 = "/users" ∧ e.2.1.method = .get) ∧
    1 ≤ t.operations.countP fun e => e.1 = "/users" ∧ e.2.1.method = .get ∧ 2 ≤ e.2.2.names.count "id" := by
  have hentries : (Transcript.ofText? blankKeyText).any (fun t => t.findings = [] ∧
      2 ≤ (t.operations.countP fun e => e.1 = "/users" ∧ e.2.1.method = .get) ∧
      1 ≤ t.operations.countP fun e =>
        e.1 = "/users" ∧ e.2.1.method = .get ∧ 2 ≤ e.2.2.names.count "id") = true := by
    decide +kernel
  obtain ⟨t, ht, h⟩ := (Option.any_eq_true _ _).mp hentries
  obtain ⟨hfindings, hroutes⟩ := of_decide_eq_true h
  refine ⟨?_, t, ht, hroutes⟩
  rw [validate_eq, ht]
  exact hfindings

end ApiDocs
