import ApiDocs.Proofs.Directive.Rows
import ApiDocs.Source.Grammar.Types
import ApiDocs.Source.Lexer
import Mathlib.Data.List.Chain

/-!
# Documentation comments

How the two kinds of comment are read: a block comment that has each of its lines on a row of its own,
behind a star, and a line comment for each line. The text of a comment becomes an attribute as it stands.
-/

namespace ApiDocs.Comment

open Text Directive Source

/-! ## Rows of a comment -/

def IsIndent (cs : List Char) : Prop := ∀ c ∈ cs, isBlank c = true ∧ c ≠ '\n' ∧ c ≠ '\r'

theorem IsIndent.blank {indent : List Char} (h : IsIndent indent) : ∀ c ∈ indent, isBlank c = true :=
  fun c hc => (h c hc).1

theorem IsIndent.not_mem {indent : List Char} (h : IsIndent indent) : '\r' ∉ indent :=
  fun hmem => (h _ hmem).2.2 rfl

/-- Two characters that neither open nor close a comment. -/
def Apart (a b : Char) : Prop := ¬(a = '/' ∧ b = '*') ∧ ¬(a = '*' ∧ b = '/')

instance (a b : Char) : Decidable (Apart a b) := inferInstanceAs (Decidable (_ ∧ _))

/-- A text that can stand on one line of a comment. -/
structure IsLine (cs : List Char) : Prop where
  unbroken : '\n' ∉ cs ∧ '\r' ∉ cs
  undelimited : cs.IsChain Apart

def star (indent : List Char) : List Char := indent ++ ['*', ' ']

def space (_ : List Char) : List Char := [' ']

/-- The text of a block comment that has each line on a row of its own. -/
def inside (rows : List (List Char × List Char)) (closing : List Char) : List Char :=
  layout star rows ++ '\n' :: closing

/-! ## Comments as attributes -/

def ofComment (text : List Char) : Attribute := ⟨false, some "doc", .text (String.ofList text)⟩

/-- A source text begins with a comment that is read as the attribute `a`, and `rest` follows. -/
def ReadsAs (cs : List Char) (a : Attribute) (rest : List Char) : Prop :=
  ∃ tokens, Lexer.lexeme cs = some (.tokens tokens, rest) ∧ ∀ g found more,
    (do Reader.op "#"; Reader.within .bracket (Rules.attributeBody g false) : Reader Attribute)
      ⟨tokens ++ more, found⟩ = some (a, ⟨more, found⟩)

theorem readsAs_of_docComment {cs text rest : List Char}
    (h : Lexer.docComment cs = some (false, text, rest)) : ReadsAs cs (ofComment text) rest := by
  refine ⟨Token.docComment false (String.ofList text), ?_, fun g found more => rfl⟩
  unfold Lexer.lexeme
  rw [h]

theorem blockComment_closed {cs : List Char} (h : (cs ++ ['*']).IsChain Apart) (rest : List Char) :
    Lexer.blockComment 1 (cs ++ '*' :: '/' :: rest) = some (cs ++ ['*', '/'], rest) := by
  induction cs with
  | nil => rfl
  | cons c cs ih =>
    rw [List.cons_append, List.isChain_cons] at h
    have hapart : ∀ d t, cs ++ '*' :: '/' :: rest = d :: t → Apart c d := by
      intro d t hd
      apply h.1
      cases cs with
      | nil => rw [← (List.cons.inj hd).1]; rfl
      | cons x cs => rw [← (List.cons.inj hd).1]; rfl
    rw [List.cons_append, Lexer.blockComment, ih h.2]
    · rfl
    · rintro t rfl ht
      exact (hapart _ _ ht).1 ⟨rfl, rfl⟩
    · rintro t rfl ht
      exact (hapart _ _ ht).2 ⟨rfl, rfl⟩

theorem noBareReturn_of_not_mem {cs : List Char} (h : '\r' ∉ cs) : Lexer.noBareReturn cs = true := by
  fun_induction Lexer.noBareReturn cs <;> simp_all

theorem line_of_unbroken {l : List Char} (h : '\n' ∉ l ∧ '\r' ∉ l) (rest : List Char) :
    Lexer.line (l ++ '\n' :: rest) = (l, '\n' :: rest) := by
  induction l with
  | nil => rfl
  | cons c l ih =>
    simp only [List.mem_cons, not_or] at h
    rw [List.cons_append, Lexer.line, ih ⟨h.1.2, h.2.2⟩]
    · exact fun hc => h.1.1 hc.symm
    · intro cs hc
      exact absurd hc.symm h.2.1

theorem docComment_line {l : List Char} (h : '\n' ∉ l ∧ '\r' ∉ l) (rest : List Char) :
    Lexer.docComment ("///".toList ++ (' ' :: l ++ '\n' :: rest)) =
      some (false, ' ' :: l, '\n' :: rest) := by
  have hline : Lexer.line (' ' :: l ++ '\n' :: rest) = (' ' :: l, '\n' :: rest) :=
    line_of_unbroken (by simpa using h) rest
  have hreturn : Lexer.noBareReturn (' ' :: l) = true := noBareReturn_of_not_mem (by simpa using h.2)
  simp only [List.cons_append] at hline
  simp [Lexer.docComment, Lexer.startsWith, List.isPrefixOf, hline, hreturn]

theorem docComment_block {cs : List Char} (h : ('\n' :: cs ++ ['*']).IsChain Apart) (hr : '\r' ∉ cs)
    (rest : List Char) :
    Lexer.docComment ("/**".toList ++ ('\n' :: cs ++ ("*/".toList ++ rest))) =
      some (false, '\n' :: cs, rest) := by
  have hblock : Lexer.blockText ('\n' :: cs ++ '*' :: '/' :: rest) = some ('\n' :: cs, rest) := by
    rw [Lexer.blockText, blockComment_closed h, Option.map_some, List.append_cons, List.dropLast_concat,
      List.dropLast_concat]
  have hreturn : Lexer.noBareReturn ('\n' :: cs) = true := noBareReturn_of_not_mem (by simpa using hr)
  simp only [List.cons_append] at hblock
  simp [Lexer.docComment, Lexer.startsWith, List.isPrefixOf, hblock, hreturn]

theorem isChain_cons_plain {c : Char} {cs : List Char} (hc : c ≠ '/' ∧ c ≠ '*') (h : cs.IsChain Apart) :
    (c :: cs).IsChain Apart := by
  rw [List.isChain_cons]
  exact ⟨fun d _ => ⟨fun hd => hc.1 hd.1, fun hd => hc.2 hd.1⟩, h⟩

theorem isChain_indent {indent cs : List Char} (hindent : IsIndent indent) (h : cs.IsChain Apart) :
    (indent ++ cs).IsChain Apart := by
  induction indent with
  | nil => exact h
  | cons c indent ih =>
    have hplain : ∀ x, isBlank x = false → c ≠ x := by
      rintro x hx rfl
      exact not_mem_of_blank hindent.blank hx (by simp)
    apply isChain_cons_plain ⟨hplain _ (by decide), hplain _ (by decide)⟩
    exact ih fun x hx => hindent x (by simp [hx])

theorem isChain_layout {rows : List (List Char × List Char)} {cs : List Char}
    (hrows : ∀ r ∈ rows, IsIndent r.1 ∧ IsLine r.2) (h : ('\n' :: cs).IsChain Apart) :
    (layout star rows ++ '\n' :: cs).IsChain Apart := by
  induction rows with
  | nil => exact h
  | cons r rows ih =>
    have hrest := ih fun r' hr' => hrows r' (List.mem_cons_of_mem _ hr')
    obtain ⟨hindent, hline⟩ := hrows r (by simp)
    have hfrom : (r.2 ++ (layout star rows ++ '\n' :: cs)).IsChain Apart := by
      rw [List.isChain_append]
      refine ⟨hline.undelimited, hrest, fun x _ y hy => ?_⟩
      obtain ⟨t, ht⟩ := exists_layout_append star rows cs
      rw [ht] at hy
      rw [← Option.some.inj hy]
      exact ⟨fun hd => absurd hd.2 (by decide), fun hd => absurd hd.2 (by decide)⟩
    have hstar : ('*' :: ' ' :: (r.2 ++ (layout star rows ++ '\n' :: cs))).IsChain Apart := by
      rw [List.isChain_cons]
      refine ⟨fun y hy => ?_, isChain_cons_plain (by decide) hfrom⟩
      rw [← Option.some.inj hy]
      decide
    have hmargin := isChain_indent hindent hstar
    rw [layout_cons]
    simpa [star] using isChain_cons_plain (c := '\n') (by decide) hmargin

/-! ## Directives of comments -/

def directives (attributes : List Attribute) : List Directive :=
  (Attribute.docBlocks attributes).flatMap Directive.ofBlock

def records (attributes : List Attribute) : List Record :=
  (Attribute.docBlocks attributes).filterMap Record.ofBlock?

def names (attributes : List Attribute) (kind : DeclarationKind) : List String :=
  documentedNames (Attribute.docBlocks attributes) kind

theorem docBlocks_ofComments (texts : List (List Char)) :
    Attribute.docBlocks (texts.map ofComment) =
      [String.ofList (['\n'].intercalate texts)].filter (fun block => !isBlankText block) := by
  have hinner : (texts.map ofComment).filter (·.inner == true) = [] := by
    simp [List.filter_map, Function.comp_def, ofComment]
  have houter : (texts.map ofComment).filter (·.inner == false) = texts.map ofComment := by
    simp [ofComment]
  have hdocs : (texts.map ofComment).filterMap Attribute.doc? = texts.map String.ofList := by
    simp [List.filterMap_map, Function.comp_def, ofComment, Attribute.doc?]
  have hjoin : "\n".intercalate (texts.map String.ofList) = String.ofList (['\n'].intercalate texts) := by
    apply String.toList_injective
    simp [String.toList_intercalate, Function.comp_def]
  simp only [Attribute.docBlocks, Attribute.docText, hinner, houter, hdocs]
  cases texts with
  | nil => rfl
  | cons text texts =>
    rw [List.map_cons] at hjoin
    by_cases hblank : isBlankText (String.ofList (['\n'].intercalate (text :: texts))) = true
    · simp [hjoin, hblank]
    · simp [hjoin, hblank, Option.filter]

theorem ofBlock_of_blank {cs : List Char} (h : ∀ c ∈ cs, isBlank c = true) :
    ofBlock (String.ofList cs) = [] := by
  have hpieces := pieces_clear_nil (clear_of_blank_left h [])
  rw [List.append_nil] at hpieces
  rw [ofBlock_eq, String.toList_ofList, hpieces]
  simp [pieces]

theorem directives_ofComments (texts : List (List Char)) :
    directives (texts.map ofComment) = ofBlock (String.ofList (['\n'].intercalate texts)) := by
  unfold directives
  rw [docBlocks_ofComments]
  by_cases hblank : isBlankText (String.ofList (['\n'].intercalate texts)) = true
  · have hnone : ofBlock (String.ofList (['\n'].intercalate texts)) = [] := by
      apply ofBlock_of_blank
      simpa [isBlankText] using hblank
    simp [hblank, hnone]
  · simp [hblank]

def AreComments (attributes : List Attribute) : Prop :=
  ∃ texts : List (List Char), attributes = texts.map ofComment

theorem AreComments.records_eq {attributes : List Attribute} (h : AreComments attributes) :
    records attributes = (Record.ofDirectives (directives attributes)).toList := by
  obtain ⟨texts, rfl⟩ := h
  unfold records directives
  rw [docBlocks_ofComments]
  by_cases hblank : isBlankText (String.ofList (['\n'].intercalate texts)) = true
  · simp [hblank, Record.ofDirectives]
  · cases h : Record.ofBlock? (String.ofList (['\n'].intercalate texts)) with
    | none =>
      rw [Record.ofBlock?] at h
      simp [hblank, h, Record.ofBlock?]
    | some r =>
      rw [Record.ofBlock?] at h
      simp [hblank, h, Record.ofBlock?]

theorem AreComments.map_records {β : Type} {view : Record → β} {attributes attributes' : List Attribute}
    (h : AreComments attributes) (h' : AreComments attributes')
    (hsome : (∃ d ∈ directives attributes, d.IsRecognized) ↔
      ∃ e ∈ directives attributes', e.IsRecognized)
    (hview : ∀ r r', r.Tells (directives attributes) → r'.Tells (directives attributes') →
      view r = view r') : (records attributes).map view = (records attributes').map view := by
  rw [h.records_eq, h'.records_eq, ← Option.toList_map, ← Option.toList_map,
    Record.map_ofDirectives_congr hsome hview]

theorem areComments_map {ι : Type} (text : ι → List Char) (l : List ι) :
    AreComments (l.map fun i => ofComment (text i)) := ⟨l.map text, by simp⟩

theorem names_eq (attributes : List Attribute) (kind : DeclarationKind) : names attributes kind =
    ((directives attributes).filterMap (·.marks? kind)).eraseDups := rfl

/-! ## Rows -/

section
variable {rows : List (List Char × List Char)} {closing : List Char}

theorem not_mem_layout {margin : List Char → List Char} {c : Char} (hc : c ≠ '\n')
    (h : ∀ r ∈ rows, c ∉ margin r.1 ∧ c ∉ r.2) : c ∉ layout margin rows := by
  induction rows with
  | nil => simp [layout]
  | cons r rows ih =>
    have hr := h r (by simp)
    have hlater := ih fun r' hr' => h r' (List.mem_cons_of_mem _ hr')
    simp [layout_cons, hc, hr, hlater]

theorem directives_rows (margin : List Char → List Char) (hr : '\r' ∉ layout margin rows) :
    directives (rows.map fun r => ofComment (margin r.1 ++ r.2)) =
      ofBlock (String.ofList (layout margin rows)) := by
  have h := directives_ofComments (rows.map fun r => margin r.1 ++ r.2)
  rw [List.map_map] at h
  rw [← ofBlock_layout hr, ← h]
  rfl

variable (hrows : ∀ r ∈ rows, IsIndent r.1 ∧ IsLine r.2)
include hrows

theorem not_mem_layout_star : '\r' ∉ layout star rows := by
  apply not_mem_layout (by decide)
  intro r hr
  obtain ⟨hindent, hline⟩ := hrows r hr
  refine ⟨?_, hline.unbroken.2⟩
  simp [star, hindent.not_mem]

theorem not_mem_layout_space : '\r' ∉ layout space rows := by
  apply not_mem_layout (by decide)
  intro r hr
  exact ⟨by simp [space], (hrows r hr).2.unbroken.2⟩

theorem readsAs_block (hclosing : IsIndent closing) (rest : List Char) :
    ReadsAs ("/**".toList ++ (inside rows closing ++ ("*/".toList ++ rest)))
      (ofComment (inside rows closing)) rest := by
  have hchain : (inside rows closing ++ ['*']).IsChain Apart := by
    have hclose := isChain_indent hclosing (List.isChain_singleton '*')
    have hall := isChain_layout hrows (isChain_cons_plain (by decide) hclose)
    simpa [inside] using hall
  have hreturn : '\r' ∉ inside rows closing := by
    simp [inside, not_mem_layout_star hrows, hclosing.not_mem]
  obtain ⟨cs, hcs⟩ : ∃ cs, inside rows closing = '\n' :: cs := exists_layout_append star rows closing
  rw [hcs] at hchain hreturn ⊢
  apply readsAs_of_docComment
  exact docComment_block hchain (fun hmem => hreturn (List.mem_cons_of_mem _ hmem)) rest

theorem directives_block (hclosing : IsIndent closing) :
    directives [ofComment (inside rows closing)] = ofBlock (String.ofList (layout star rows)) := by
  have hblock : directives [ofComment (inside rows closing)] =
      ofBlock (String.ofList (inside rows closing)) := by
    have h := directives_ofComments [inside rows closing]
    simpa using h
  have hblank : ∀ c ∈ '\n' :: closing, isBlank c = true := by
    intro c hc
    rcases List.mem_cons.mp hc with rfl | hc
    · decide
    · exact hclosing.blank c hc
  rw [hblock, inside]
  exact ofBlock_between (a := []) (by simp) hblank ⟨by simp, not_mem_layout_star hrows⟩

end

end ApiDocs.Comment
