import ApiDocs.FieldMarks
import ApiDocs.Proofs.Directive.Joins
import ApiDocs.Proofs.Parts
import Mathlib.Data.List.DropRight
import Mathlib.Data.List.Forall2
import Mathlib.Data.List.Induction

/-!
# Clauses of the marks of a field

The marks are read clause by clause: a flag is set by any clause that is its word, a text is that of the
last clause with its key, and one clause that says `ignored` outweighs all others. Every other clause can
be left out, and blanks between the parts of a clause do not count.
-/

namespace ApiDocs

namespace Text

/-! ## The first separator -/

theorem cutChars_eq_none {sep : Char} {cs : List Char} (h : sep ∉ cs) : cutChars sep cs = none := by
  induction cs with
  | nil => rfl
  | cons c cs ih =>
    simp only [List.mem_cons, not_or] at h
    simp [cutChars, ih h.2, Ne.symm h.1]

theorem cutChars_append {sep : Char} {a : List Char} (h : sep ∉ a) (b : List Char) :
    cutChars sep (a ++ sep :: b) = some (a, b) := by
  induction a with
  | nil => simp [cutChars]
  | cons c a ih =>
    simp only [List.mem_cons, not_or] at h
    simp [cutChars, ih h.2, Ne.symm h.1]

theorem cut_eq_none {sep : Char} {s : String} (h : sep ∉ s.toList) : cut sep s = none := by
  rw [cut, cutChars_eq_none h]
  rfl

theorem cut_append {sep : Char} {a : String} (h : sep ∉ a.toList) (b : String) :
    cut sep (a ++ String.singleton sep ++ b) = some (a, b) := by
  have htext : (a ++ String.singleton sep ++ b).toList = a.toList ++ sep :: b.toList := by simp
  rw [cut, htext, cutChars_append h]
  simp

theorem not_mem_or_exists_append (sep : Char) (s : String) : sep ∉ s.toList ∨
    ∃ a b, s = a ++ String.singleton sep ++ b ∧ sep ∉ a.toList := by
  by_cases h : sep ∈ s.toList
  · right
    obtain ⟨a, b, hs, ha⟩ := List.eq_append_cons_of_mem h
    refine ⟨String.ofList a, String.ofList b, ?_, by simpa using ha⟩
    apply String.toList_inj.mp
    simp [hs]
  · exact .inl h

/-! ## Trimming -/

theorem dropBlank_append_cons {c : Char} (hc : isBlank c = false) (a b : List Char) :
    dropBlank (a ++ c :: b) = dropBlank a ++ c :: b := by
  by_cases ha : ∀ x ∈ a, isBlank x = true
  · rw [dropBlank_append_of_blank ha, dropBlank_of_blank ha]
    simp [dropBlank, hc]
  · exact dropBlank_append ha _

theorem trimChars_append_cons {c : Char} (hc : isBlank c = false) (a b : List Char) :
    trimChars (a ++ c :: b) = dropBlank a ++ c :: (dropBlank b.reverse).reverse := by
  rw [trimChars, dropBlank_append_cons hc, List.reverse_append, List.reverse_cons, List.append_assoc,
    List.singleton_append, dropBlank_append_cons hc]
  simp

theorem trimChars_dropBlank (cs : List Char) : trimChars (dropBlank cs) = trimChars cs := by
  unfold trimChars dropBlank
  rw [List.dropWhile_idempotent]

theorem trimChars_dropBlank_reverse (cs : List Char) :
    trimChars (dropBlank cs.reverse).reverse = trimChars cs := by
  have hsplit : cs = (dropBlank cs.reverse).reverse ++ (cs.reverse.takeWhile isBlank).reverse := by
    rw [← List.reverse_append]
    unfold dropBlank
    rw [List.takeWhile_append_dropWhile, List.reverse_reverse]
  have hblank : ∀ c ∈ (cs.reverse.takeWhile isBlank).reverse, isBlank c = true := by
    intro c hc
    exact List.mem_takeWhile_imp (List.mem_reverse.mp hc)
  conv => rhs; rw [hsplit, trimChars_append_of_blank hblank]

theorem trimChars_trimChars (cs : List Char) : trimChars (trimChars cs) = trimChars cs := by
  conv => lhs; arg 1; unfold trimChars
  rw [trimChars_dropBlank_reverse, trimChars_dropBlank]

theorem trim_trim (s : String) : trim (trim s) = trim s := by
  simp [trim, trimChars_trimChars]

end Text

open Text

/-! ## Flags and keys -/

inductive MarkFlag where
  | required | nullable | ignored
deriving DecidableEq

def MarkFlag.word : MarkFlag → String
  | required => "required"
  | nullable => "nullable"
  | ignored => "ignored"

inductive MarkKey where
  | location | sample | reference | maxLength | minLength | minimum | maximum | pattern | enumValue
deriving DecidableEq

def MarkKey.word : MarkKey → String
  | location => "in"
  | sample => "example"
  | reference => "$ref"
  | maxLength => "maxLength"
  | minLength => "minLength"
  | minimum => "minimum"
  | maximum => "maximum"
  | pattern => "pattern"
  | enumValue => "enumValue"

namespace FieldMarks

def flag (m : FieldMarks) : MarkFlag → Bool
  | .required => m.required
  | .nullable => m.nullable
  | .ignored => m.ignored

def text (m : FieldMarks) : MarkKey → String
  | .location => m.location
  | .sample => m.sample
  | .reference => m.reference
  | .maxLength => m.maxLength
  | .minLength => m.minLength
  | .minimum => m.minimum
  | .maximum => m.maximum
  | .pattern => m.pattern
  | .enumValue => m.enumValue

@[simp] theorem text_setFlag (m : FieldMarks) (word : String) (k : MarkKey) :
    (m.setFlag word).text k = m.text k := by
  unfold setFlag
  split <;> cases k <;> rfl

@[simp] theorem flag_setKey (m : FieldMarks) (key value : String) (f : MarkFlag) :
    (m.setKey key value).flag f = m.flag f := by
  unfold setKey
  split <;> cases f <;> rfl

theorem setFlag_of_unknown (m : FieldMarks) {word : String} (h : ∀ f : MarkFlag, word ≠ f.word) :
    m.setFlag word = m := by
  unfold setFlag
  split
  · exact absurd rfl (h .required)
  · exact absurd rfl (h .nullable)
  · exact absurd rfl (h .ignored)
  · rfl

theorem setKey_of_unknown (m : FieldMarks) {key : String} (value : String)
    (h : ∀ k : MarkKey, key ≠ k.word) : m.setKey key value = m := by
  unfold setKey
  split
  · exact absurd rfl (h .location)
  · exact absurd rfl (h .sample)
  · exact absurd rfl (h .reference)
  · exact absurd rfl (h .maxLength)
  · exact absurd rfl (h .minLength)
  · exact absurd rfl (h .minimum)
  · exact absurd rfl (h .maximum)
  · exact absurd rfl (h .pattern)
  · exact absurd rfl (h .enumValue)
  · rfl

theorem flag_setFlag (m : FieldMarks) (word : String) (f : MarkFlag) :
    (m.setFlag word).flag f = true ↔ m.flag f = true ∨ word = f.word := by
  by_cases hknown : ∃ g : MarkFlag, word = g.word
  · obtain ⟨g, rfl⟩ := hknown
    cases g <;> cases f <;> simp [setFlag, flag, MarkFlag.word]
  · have hunknown := not_exists.mp hknown
    rw [setFlag_of_unknown m hunknown]
    simp [hunknown f]

theorem text_setKey (m : FieldMarks) (key value : String) (k : MarkKey) :
    (m.setKey key value).text k = if key = k.word then value else m.text k := by
  by_cases hknown : ∃ l : MarkKey, key = l.word
  · obtain ⟨l, rfl⟩ := hknown
    cases l <;> cases k <;> simp [setKey, text, MarkKey.word]
  · have hunknown := not_exists.mp hknown
    rw [setKey_of_unknown m value hunknown, if_neg (hunknown k)]

/-! ## One clause -/

theorem cut_colon {k : String} (h : ':' ∉ k.toList) (v : String) : cut ':' (k ++ ":" ++ v) = some (k, v) :=
  cut_append h v

theorem flag_or_entry (c : String) : ':' ∉ c.toList ∨ ∃ k v, c = k ++ ":" ++ v ∧ ':' ∉ k.toList :=
  not_mem_or_exists_append ':' c

theorem addClause_trim (m : FieldMarks) (c : String) : m.addClause (trim c) = m.addClause c := by
  unfold addClause
  rw [trim_trim]

theorem addClause_flag (m : FieldMarks) {c : String} (h : ':' ∉ c.toList) :
    m.addClause c = m.setFlag (trim c) := by
  have htrim : ':' ∉ (trim c).toList := by
    intro hmem
    rw [trim, String.toList_ofList] at hmem
    exact h ((Directive.trimChars_isInfix c.toList).subset hmem)
  unfold addClause
  rw [cut_eq_none htrim]

theorem trim_entry (k v : String) : trim (k ++ ":" ++ v) =
    String.ofList (dropBlank k.toList) ++ ":" ++ String.ofList (dropBlank v.toList.reverse).reverse := by
  have hcolon : isBlank ':' = false := by decide
  have htext : (k ++ ":" ++ v).toList = k.toList ++ ':' :: v.toList := by simp
  apply String.toList_inj.mp
  rw [trim, htext, trimChars_append_cons hcolon]
  simp

theorem addClause_entry (m : FieldMarks) {k : String} (h : ':' ∉ k.toList) (v : String) :
    m.addClause (k ++ ":" ++ v) = m.setKey (trim k) (trim v) := by
  have hkey : ':' ∉ (String.ofList (dropBlank k.toList)).toList := by
    intro hmem
    rw [String.toList_ofList] at hmem
    exact h ((List.dropWhile_suffix isBlank).subset hmem)
  unfold addClause
  rw [trim_entry, cut_colon hkey]
  simp [trim, trimChars_dropBlank, trimChars_dropBlank_reverse]

/-- The clause gives the value to the key: with blanks around them, they stand before and after its first
colon. -/
def Assigns (clause key value : String) : Prop :=
  ∃ k v, clause = k ++ ":" ++ v ∧ ':' ∉ k.toList ∧ trim k = key ∧ trim v = value

theorem not_assigns_of_not_mem {c : String} (h : ':' ∉ c.toList) (key value : String) :
    ¬Assigns c key value := by
  intro hassigns
  obtain ⟨k, v, rfl, -⟩ := hassigns
  simp at h

theorem assigns_entry_iff {k : String} (h : ':' ∉ k.toList) (v key value : String) :
    Assigns (k ++ ":" ++ v) key value ↔ trim k = key ∧ trim v = value := by
  constructor
  · intro hassigns
    obtain ⟨k', v', heq, hk', hkey, hvalue⟩ := hassigns
    have hcut : some (k', v') = some (k, v) := by
      rw [← cut_colon hk', ← heq, cut_colon h]
    cases hcut
    exact ⟨hkey, hvalue⟩
  · intro hboth
    exact ⟨k, v, rfl, h, hboth⟩

/-! ## All clauses -/

def LastAssigns (clauses : List String) (key value : String) : Prop :=
  ∃ before c after, clauses = before ++ c :: after ∧ Assigns c key value ∧
    ∀ d ∈ after, ∀ other, ¬Assigns d key other

theorem lastAssigns_snoc {cs : List String} {c key value : String} :
    LastAssigns (cs ++ [c]) key value ↔
      Assigns c key value ∨ (∀ other, ¬Assigns c key other) ∧ LastAssigns cs key value := by
  constructor
  · intro h
    obtain ⟨before, d, after, hcs, hd, hafter⟩ := h
    rcases List.eq_nil_or_concat' after with hnil | ⟨rest, e, hconcat⟩
    · subst hnil
      obtain ⟨rfl, hc⟩ := List.append_inj' hcs rfl
      cases hc
      exact .inl hd
    · subst hconcat
      rw [← List.cons_append, ← List.append_assoc] at hcs
      obtain ⟨rfl, hc⟩ := List.append_inj' hcs rfl
      cases hc
      exact .inr ⟨hafter c (by simp), before, d, rest, rfl, hd, fun x hx => hafter x (by simp [hx])⟩
  · intro h
    rcases h with hc | ⟨hc, before, d, after, rfl, hd, hafter⟩
    · exact ⟨cs, c, [], rfl, hc, by simp⟩
    · refine ⟨before, d, after ++ [c], by simp, hd, ?_⟩
      intro x hx
      rcases List.mem_append.mp hx with hx | hx
      · exact hafter x hx
      · rw [List.mem_singleton.mp hx]
        exact hc

/-- What clauses tell of a field, as long as none says that it is ignored. -/
structure Tells (clauses : List String) (m : FieldMarks) : Prop where
  flag : ∀ f, m.flag f = true ↔ ∃ c ∈ clauses, trim c = f.word
  text : ∀ k value, m.text k = value ↔ LastAssigns clauses k.word value ∨
    value = "" ∧ ∀ c ∈ clauses, ∀ other, ¬Assigns c k.word other

theorem tells_nil : Tells [] {} where
  flag f := by cases f <;> simp [FieldMarks.flag]
  text k value := by
    have hnone : ¬LastAssigns [] k.word value := by
      intro h
      obtain ⟨before, c, after, hnil, -⟩ := h
      simp at hnil
    cases k <;> simp [FieldMarks.text, hnone, eq_comm]

theorem Tells.addClause {cs : List String} {m : FieldMarks} (h : Tells cs m) (c : String) :
    Tells (cs ++ [c]) (m.addClause c) := by
  rcases flag_or_entry c with hflag | ⟨k, v, rfl, hk⟩
  · -- a flag leaves every text as it is
    rw [addClause_flag m hflag]
    constructor
    · intro f
      rw [flag_setFlag, h.flag]
      simp [or_and_right, exists_or]
    · intro k value
      rw [text_setFlag, h.text, lastAssigns_snoc, List.forall_mem_append, List.forall_mem_singleton]
      simp [not_assigns_of_not_mem hflag]
  · rw [addClause_entry m hk]
    constructor
    · intro f
      have hword : trim (k ++ ":" ++ v) ≠ f.word := by
        intro heq
        have hcolon : ':' ∈ (trim (k ++ ":" ++ v)).toList := by simp [trim_entry]
        rw [heq] at hcolon
        cases f <;> simp [MarkFlag.word] at hcolon
      rw [flag_setKey, h.flag]
      simp [or_and_right, exists_or, hword]
    · intro key value
      rw [text_setKey, lastAssigns_snoc, List.forall_mem_append, List.forall_mem_singleton]
      simp only [assigns_entry_iff hk]
      by_cases hkey : trim k = key.word
      · simp [hkey]
      · simp [hkey, h.text]

theorem tells_foldl (cs : List String) : Tells cs (cs.foldl addClause {}) := by
  induction cs using List.reverseRecOn with
  | nil => exact tells_nil
  | append_singleton cs c ih =>
    rw [List.foldl_append, List.foldl_cons, List.foldl_nil]
    exact ih.addClause c

/-! ## Clauses that say nothing -/

/-- A clause without effect: it is blank, or its flag or key is unknown. -/
inductive Idle : String → Prop
  | blank {c : String} (h : ∀ x ∈ c.toList, isBlank x = true) : Idle c
  | flag {c : String} (hc : ':' ∉ c.toList) (h : ∀ f : MarkFlag, trim c ≠ f.word) : Idle c
  | entry {key : String} (hkey : ':' ∉ key.toList) (h : ∀ k : MarkKey, trim key ≠ k.word) (value : String) :
      Idle (key ++ ":" ++ value)

theorem Idle.addClause {c : String} (h : Idle c) (m : FieldMarks) : m.addClause c = m := by
  cases h with
  | blank h =>
    have hcolon : ':' ∉ c.toList := by
      intro hmem
      have hblank := h ':' hmem
      revert hblank
      decide
    have htrim : trim c = "" := by rw [trim, trimChars_of_blank h, String.ofList_nil]
    rw [addClause_flag m hcolon, htrim]
    rfl
  | flag hc h => rw [addClause_flag m hc, setFlag_of_unknown m h]
  | entry hkey h value => rw [addClause_entry m hkey, setKey_of_unknown m _ h]

/-- The clauses differ in blanks around the whole, or around the key and the value. -/
inductive Respaced : String → String → Prop
  | around {c d : String} (h : trim c = trim d) : Respaced c d
  | inside {key key' value value' : String} (hkey : ':' ∉ key.toList) (hkey' : ':' ∉ key'.toList)
      (h : trim key = trim key') (hvalue : trim value = trim value') :
      Respaced (key ++ ":" ++ value) (key' ++ ":" ++ value')

theorem Respaced.addClause {c d : String} (h : Respaced c d) (m : FieldMarks) :
    m.addClause c = m.addClause d := by
  cases h with
  | around h => rw [← addClause_trim, h, addClause_trim]
  | inside hkey hkey' h hvalue => rw [addClause_entry m hkey, addClause_entry m hkey', h, hvalue]

theorem foldl_addClause_respaced {cs ds : List String} (h : List.Forall₂ Respaced cs ds) (m : FieldMarks) :
    cs.foldl addClause m = ds.foldl addClause m := by
  induction h generalizing m with
  | nil => rfl
  | cons hcd _ ih => rw [List.foldl_cons, List.foldl_cons, hcd.addClause, ih]

/-! ## The marks of a text -/

def clauses (text : String) : List String := (parts ';' text).map trim

theorem foldl_clauses (text : String) (m : FieldMarks) :
    (clauses text).foldl addClause m = (parts ';' text).foldl addClause m := by
  rw [clauses, List.foldl_map]
  simp only [addClause_trim]

theorem flag_foldl_clauses (text : String) (f : MarkFlag) :
    ((clauses text).foldl addClause {}).flag f = true ↔ f.word ∈ clauses text := by
  rw [(tells_foldl (clauses text)).flag f]
  constructor
  · intro h
    obtain ⟨c, hc, hword⟩ := h
    obtain ⟨part, -, hpart⟩ := List.mem_map.mp hc
    have htrim : trim c = c := by rw [← hpart, trim_trim]
    rw [← hword, htrim]
    exact hc
  · intro h
    exact ⟨f.word, h, by cases f <;> decide⟩

theorem ofText_eq (text : String) : ofText text =
    if ((clauses text).foldl addClause {}).ignored then { ignored := true }
    else (clauses text).foldl addClause {} := by
  rw [foldl_clauses]
  rfl

theorem ofText_of_ignored {text : String} (h : "ignored" ∈ clauses text) : ofText text = { ignored := true } := by
  have hignored : ((clauses text).foldl addClause {}).ignored = true := (flag_foldl_clauses text .ignored).mpr h
  rw [ofText_eq, if_pos hignored]

theorem ofText_of_not_ignored {text : String} (h : "ignored" ∉ clauses text) :
    ofText text = (clauses text).foldl addClause {} := by
  have hignored : ¬((clauses text).foldl addClause {}).ignored = true := by
    intro htrue
    exact h ((flag_foldl_clauses text .ignored).mp htrue)
  rw [ofText_eq, if_neg hignored]

theorem tells_ofText {text : String} (h : "ignored" ∉ clauses text) : Tells (clauses text) (ofText text) := by
  rw [ofText_of_not_ignored h]
  exact tells_foldl (clauses text)

theorem ignored_ofText {text : String} (h : "ignored" ∉ clauses text) : (ofText text).ignored = false := by
  rw [ofText_of_not_ignored h, Bool.eq_false_iff]
  intro hignored
  exact h ((flag_foldl_clauses text .ignored).mp hignored)

theorem ofText_congr {text other : String}
    (h : (parts ';' other).foldl addClause {} = (parts ';' text).foldl addClause {}) :
    ofText other = ofText text := by
  rw [ofText_eq, ofText_eq, foldl_clauses, foldl_clauses, h]

theorem foldl_parts_intercalate {cs : List String} (h : ∀ c ∈ cs, ';' ∉ c.toList) :
    (parts ';' (";".intercalate cs)).foldl addClause {} = cs.foldl addClause {} := by
  by_cases hne : cs = []
  · subst hne
    rfl
  · have hparts : parts ';' (";".intercalate cs) = cs := parts_intercalate hne h
    rw [hparts]

/-- The marks of a text by its clauses. One that says `ignored` leaves nothing else. Without one, a flag is
set by any clause that is its word, and a text is what the last clause with its key gives, or empty. Idle
clauses can be left out, and clauses can be spaced differently. -/
theorem ofText_by_clauses (text : String) :
    (";".intercalate (parts ';' text) = text ∧ ∀ c ∈ parts ';' text, ';' ∉ c.toList) ∧
    ("ignored" ∈ clauses text → ofText text = { ignored := true }) ∧
    ("ignored" ∉ clauses text →
      (ofText text).ignored = false ∧
      ((ofText text).required = true ↔ "required" ∈ clauses text) ∧
      ((ofText text).nullable = true ↔ "nullable" ∈ clauses text) ∧
      ∀ key value, (ofText text).text key = value ↔ LastAssigns (clauses text) key.word value ∨
        value = "" ∧ ∀ c ∈ clauses text, ∀ other, ¬Assigns c key.word other) ∧
    (∀ before c after, parts ';' text = before ++ c :: after → Idle c →
      ofText (";".intercalate (before ++ after)) = ofText text) ∧
    ∀ other, List.Forall₂ Respaced (parts ';' text) (parts ';' other) → ofText other = ofText text := by
  have hfree : ∀ c ∈ parts ';' text, ';' ∉ c.toList := fun c hc => not_mem_of_mem_parts hc
  refine ⟨⟨intercalate_parts ';' text, hfree⟩, ofText_of_ignored, ?_, ?_, ?_⟩
  · intro h
    have hflag := flag_foldl_clauses text
    rw [← ofText_of_not_ignored h] at hflag
    exact ⟨ignored_ofText h, hflag .required, hflag .nullable, (tells_ofText h).text⟩
  · intro before c after hparts hidle
    have hrest : ∀ d ∈ before ++ after, ';' ∉ d.toList := by
      intro d hd
      apply hfree
      rw [hparts]
      rcases List.mem_append.mp hd with hd | hd <;> simp [hd]
    apply ofText_congr
    rw [foldl_parts_intercalate hrest, hparts, List.foldl_append, List.foldl_append, List.foldl_cons,
      hidle.addClause]
  · intro other h
    exact ofText_congr (foldl_addClause_respaced h {}).symm

def pathMarks : String := " in :path; colour:red;required;in: a:b "

theorem ofText_by_clauses_path :
    ("ignored" ∉ clauses pathMarks ∧ (ofText pathMarks).required = true ∧ ¬(ofText pathMarks).nullable = true ∧
      (ofText pathMarks).location = "a:b") ∧
    (Idle " colour:red" ∧ ofText " in :path;required;in: a:b " = ofText pathMarks) ∧
    ("ignored" ∈ clauses (pathMarks ++ "; ignored") ∧ ofText (pathMarks ++ "; ignored") = { ignored := true }) := by
  obtain ⟨-, -, hmarks, hdrop, -⟩ := ofText_by_clauses pathMarks
  have hparts : parts ';' pathMarks = [" in :path", " colour:red", "required", "in: a:b "] := by decide
  have hclauses : clauses pathMarks = ["in :path", "colour:red", "required", "in: a:b"] := by
    rw [clauses, hparts]
    decide
  have hused : "ignored" ∉ clauses pathMarks := by simp [hclauses]
  have hmem : "ignored" ∈ clauses (pathMarks ++ "; ignored") := by decide
  have hcolour : ':' ∉ " colour".toList := by decide
  have hidle : Idle " colour:red" := .entry hcolour (by intro k; cases k <;> decide) "red"
  have hlast : LastAssigns (clauses pathMarks) "in" "a:b" :=
    ⟨["in :path", "colour:red", "required"], "in: a:b", [], hclauses, ⟨"in", " a:b", by decide⟩, by simp⟩
  obtain ⟨-, hrequired, hnullable, htext⟩ := hmarks hused
  refine ⟨⟨hused, hrequired.mpr (by simp [hclauses]), mt hnullable.mp (by simp [hclauses]), ?_⟩,
    ⟨hidle, ?_⟩, hmem, ?_⟩
  · exact (htext .location "a:b").mpr (.inl hlast)
  · exact hdrop [" in :path"] " colour:red" ["required", "in: a:b "] hparts hidle
  · exact (ofText_by_clauses (pathMarks ++ "; ignored")).2.1 hmem

end FieldMarks

end ApiDocs
