import ApiDocs.Proofs.Directive.Joins
import ApiDocs.Proofs.Directive.Records

/-!
# Prose after directives

A reference to a request, a response or parameters is one word, so text that follows it on later lines is
no part of it. A custom error reference is all the text up to the next key.
-/

namespace ApiDocs

open Text Directive

def Text.BlankFree (s : String) : Prop := ∀ c ∈ s.toList, isBlank c = false

theorem Text.blankFree_firstWord (s : String) : BlankFree (firstWord s) := by
  intro c hc
  simp only [firstWord, String.toList_ofList] at hc
  simpa using List.mem_takeWhile_imp hc

namespace Directive

theorem blankFree_lastOr (name : String) (ds : List Directive) :
    BlankFree (lastOr name firstWord "" ds) := by
  unfold lastOr
  cases last? name "" ds with
  | none => intro c hc; simp at hc
  | some v => exact blankFree_firstWord v

theorem mem_of_last? {name code value : String} {ds : List Directive}
    (h : last? name code ds = some value) : ∃ d ∈ ds, d.IsAt name code ∧ d.value = value := by
  have hmem := List.mem_of_getLast? h
  simp only [valuesOf, List.mem_map, List.mem_filter, decide_eq_true_eq] at hmem
  obtain ⟨d, ⟨hd, hat⟩, hvalue⟩ := hmem
  exact ⟨d, hd, hat, hvalue⟩

/-! ## Text put behind a directive -/

section
variable {u m v : List Char}

/-- Text that no key touches changes the value of the directive before it, and nothing else. -/
theorem alike_of_clear {β : Type} {name code : String} {read : String → β} (hblock : Clear u [] v)
    (hprose : Clear u m v)
    (hread : ∀ k raw, (pieces u).keyed.getLast? = some (k, raw) →
      (ofPiece (k, joinLines raw)).IsAt name code →
      read (ofPiece (k, joinLines (raw ++ (m ++ (pieces v).lead)))).value =
        read (ofPiece (k, joinLines (raw ++ (pieces v).lead))).value) :
    Record.Alike name code read (ofBlock (String.ofList (u ++ (m ++ v))))
      (ofBlock (String.ofList (u ++ v))) := by
  have hv : pieces (u ++ v) = (pieces u).append ⟨(pieces v).lead, (pieces v).keyed⟩ := pieces_clear hblock
  rw [ofBlock_eq, ofBlock_eq, String.toList_ofList, String.toList_ofList, hv, pieces_clear hprose]
  unfold Pieces.append Record.Alike
  rcases List.eq_nil_or_concat (pieces u).keyed with hnil | ⟨keyed, ⟨k, raw⟩, hkeyed⟩
  · rw [hnil]
    apply List.forall₂_same.mpr
    simp
  · rw [List.concat_eq_append] at hkeyed
    have hlast := hread k raw (by simp [hkeyed])
    rw [hkeyed, appendTo_snoc, appendTo_snoc, List.map_append, List.map_append]
    apply List.rel_append
    · apply List.forall₂_same.mpr
      simp
    · apply List.Forall₂.cons
      · exact ⟨rfl, rfl, hlast⟩
      · apply List.forall₂_same.mpr
        simp

theorem value_of_blank (k : Key) {raw : List Char} (h : ∀ c ∈ raw, isBlank c = true) :
    (ofPiece (k, joinLines raw)).value = "" := by
  have hdrop : dropBlank (joinLines raw) = [] := by
    rw [dropBlank_joinLines, dropBlank_of_blank h]
    rfl
  rw [ofPiece, trimChars, hdrop]
  rfl

theorem firstWord_behind {k : Key} {raw x : List Char} (hraw : (ofPiece (k, joinLines raw)).value ≠ "")
    (hx : ∀ c, x.head? = some c → isBlank c = true) :
    firstWord (ofPiece (k, joinLines (raw ++ x))).value = String.ofList (wordChars raw) := by
  rw [firstWord_ofPiece, wordChars_append _ hx]
  intro hblank
  exact hraw (value_of_blank k hblank)

theorem getLast?_ofBlock {k : Key} {raw : List Char} (h : (pieces u).keyed.getLast? = some (k, raw)) :
    (ofBlock (String.ofList u)).getLast? = some (ofPiece (k, joinLines raw)) := by
  rw [ofBlock_eq, List.getLast?_map, String.toList_ofList, h]
  rfl

end

end Directive

/-! ## References -/

def referenceNames : List String := ["RequestRef", "ResponseRef", "ParametersRef"]

namespace Record

/-- The schemas that a record names: of its request, its response, its parameters and its errors. -/
def references (r : Record) : List String × Dict String :=
  ([r.requestRef, r.responseRef, r.parametersRef], r.customErrorRefs)

theorem Tells.references {ds es : List Directive} {r r' : Record} (h : r.Tells ds) (h' : r'.Tells es)
    (hwords : ∀ name ∈ referenceNames, Alike name "" firstWord ds es)
    (hcustom : ∀ code, code ≠ "" → Alike "CustomErrorRef" code id ds es) :
    r.references = r'.references := by
  have hrefs : r.customErrorRefs = r'.customErrorRefs := by
    apply Dict.ext_get?
    intro code
    rw [h.customErrorRefs, h'.customErrorRefs]
    by_cases hcode : code = ""
    · simp [hcode]
    · rw [(hcustom code hcode).last?]
  unfold Record.references
  rw [hrefs, h.requestRef, h'.requestRef, h.responseRef, h'.responseRef, h.parametersRef,
    h'.parametersRef, (hwords _ (by decide)).lastOr, (hwords "ResponseRef" (by decide)).lastOr,
    (hwords "ParametersRef" (by decide)).lastOr]

theorem references_behind {u prose v : List Char} (hblock : Clear u [] v)
    (hprose : Clear u ('\n' :: prose) v) (hv : ∀ c, v.head? = some c → isBlank c = true)
    (hlast : ∀ d, (Directive.ofBlock (String.ofList u)).getLast? = some d →
      (d.name ∈ referenceNames → d.value ≠ "") ∧ (d.name = "CustomErrorRef" → d.code = "")) :
    (Record.ofBlock? (String.ofList (u ++ ('\n' :: prose ++ v)))).map references =
      (Record.ofBlock? (String.ofList (u ++ v))).map references := by
  have hwords : ∀ name ∈ referenceNames, Alike name "" firstWord
      (Directive.ofBlock (String.ofList (u ++ ('\n' :: prose ++ v))))
      (Directive.ofBlock (String.ofList (u ++ v))) := by
    intro name hname
    apply alike_of_clear hblock hprose
    intro k raw hraw hat
    have hvalue := (hlast _ (getLast?_ofBlock hraw)).1 (by rw [hat.1]; exact hname)
    rw [firstWord_behind hvalue, firstWord_behind hvalue]
    · intro c hc
      exact hv c (head?_lead hc)
    · intro c hc
      have : c = '\n' := (Option.some.inj hc).symm
      rw [this]
      decide
  have hcustom : ∀ code, code ≠ "" → Alike "CustomErrorRef" code id
      (Directive.ofBlock (String.ofList (u ++ ('\n' :: prose ++ v))))
      (Directive.ofBlock (String.ofList (u ++ v))) := by
    intro code hcode
    apply alike_of_clear hblock hprose
    intro k raw hraw hat
    have hempty := (hlast _ (getLast?_ofBlock hraw)).2 hat.1
    exact absurd (hat.2.symm.trans hempty) hcode
  apply map_ofDirectives_congr
  · exact (hwords "RequestRef" (by decide)).exists_isRecognized
  · intro r r' h h'
    exact h.references h' hwords hcustom

end Record

/-- No reference to a request, a response or parameters holds a blank, and a custom error reference holds
one only if its directive is written with one. Text without keys that comes on a line of its own behind a
directive leaves all references as they are, unless that directive names no schema yet or is a custom
error reference. -/
theorem references_apart_from_prose (u prose v : List Char) :
    (∀ r, Record.ofBlock? (String.ofList (u ++ v)) = some r →
      (∀ ref ∈ [r.requestRef, r.responseRef, r.parametersRef], BlankFree ref) ∧
      ∀ code ref, r.customErrorRefs.get? code = some ref →
        (∀ d ∈ Directive.ofBlock (String.ofList (u ++ v)), d.IsAt "CustomErrorRef" code →
          BlankFree d.value) →
        BlankFree ref) ∧
    (Clear u [] v → Clear u ('\n' :: prose) v → (∀ c, v.head? = some c → isBlank c = true) →
      (∀ d, (Directive.ofBlock (String.ofList u)).getLast? = some d →
        (d.name ∈ referenceNames → d.value ≠ "") ∧ (d.name = "CustomErrorRef" → d.code = "")) →
      (Record.ofBlock? (String.ofList (u ++ ('\n' :: prose ++ v)))).map Record.references =
        (Record.ofBlock? (String.ofList (u ++ v))).map Record.references) := by
  constructor
  · intro r hr
    have h := (Record.ofDirectives_eq_some_iff.mp hr).2
    constructor
    · intro ref href
      simp only [List.mem_cons, List.not_mem_nil, or_false] at href
      rcases href with rfl | rfl | rfl
      · rw [h.requestRef]
        exact blankFree_lastOr _ _
      · rw [h.responseRef]
        exact blankFree_lastOr _ _
      · rw [h.parametersRef]
        exact blankFree_lastOr _ _
    · intro code ref href hwritten
      rw [h.customErrorRefs] at href
      by_cases hcode : code = ""
      · simp [hcode] at href
      · rw [if_neg hcode] at href
        obtain ⟨d, hd, hat, rfl⟩ := mem_of_last? href
        exact hwritten d hd hat
  · exact Record.references_behind

/-- A remark between a request and a custom error changes neither reference. -/
theorem references_apart_from_prose_remark :
    let u := "@apiPath: /users\n@apiRequestRef: User".toList
    let remark := "* the user to create".toList
    let v := "\n@apiCustomErrorRef404: NotFound".toList
    (Record.ofBlock? (String.ofList (u ++ ('\n' :: remark ++ v)))).map Record.references =
        (Record.ofBlock? (String.ofList (u ++ v))).map Record.references ∧
      ∀ r, Record.ofBlock? (String.ofList (u ++ v)) = some r → BlankFree r.requestRef := by
  intro u remark v
  have hlast : (Directive.ofBlock (String.ofList u)).getLast? = some ⟨"RequestRef", "", "User"⟩ := by
    decide +kernel
  have hnext : [] ++ v = ['\n'] ++ '@' :: "apiCustomErrorRef404: NotFound".toList := by decide
  have hremark : '\n' :: remark ++ v =
      ['\n'] ++ '*' :: " the user to create\n@apiCustomErrorRef404: NotFound".toList := by decide
  constructor
  · apply (references_apart_from_prose u remark v).2
    · exact clear_of_stop (by simp) hnext (by decide) fun s _ => s.not_mem_tail (Or.inl rfl)
    · exact clear_of_stop (by decide) hremark (by decide) fun s _ => s.not_mem_tail (Or.inr rfl)
    · intro c hc
      rw [← Option.some.inj hc]
      decide
    · intro d hd
      rw [hlast] at hd
      cases hd
      decide
  · intro r hr
    exact ((references_apart_from_prose u remark v).1 r hr).1 _ (by simp)

/-- A remark behind a custom error reference becomes part of it. -/
theorem customErrorRef_with_remark :
    (Record.ofBlock? "@apiPath: /users\n@apiMethod: GET\n@apiCustomErrorRef404: NotFound").map
        (·.customErrorRefs.get? "404") = some (some "NotFound") ∧
      (Record.ofBlock? ("@apiPath: /users\n@apiMethod: GET\n@apiCustomErrorRef404: NotFound" ++
        "\nReturned when there are no users.")).map
        (·.customErrorRefs.get? "404") = some (some "NotFound Returned when there are no users.") ∧
      ¬BlankFree "NotFound Returned when there are no users." := by
  refine ⟨by decide +kernel, by decide +kernel, fun h => ?_⟩
  exact absurd (h ' ' (by decide)) (by decide)

end ApiDocs
