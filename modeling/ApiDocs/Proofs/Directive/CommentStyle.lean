import ApiDocs.Proofs.Directive.Comments
import Mathlib.Data.List.Infix

/-!
# Comment styles

Directives can be written in one block comment, each line behind a star, or in line comments. The stars
belong to the text of the block comment, so values that are taken whole keep them, while values of one
word are the same in both styles.
-/

namespace ApiDocs

open Text Directive

/-! ## What is seen of a record -/

def wordNames : List String :=
  ["Path", "Method", "RequestRef", "ResponseRef", "StatusCode", "ParametersRef", "Deprecated", "Define",
    "Enum"]

def listNames : List String := ["ErrorStatusCodes", "Security"]

theorem Directive.apply_lastOr {β : Type} (f : String → β) (name : String) (ds : List Directive) :
    f (lastOr name id "" ds) = lastOr name f (f "") ds := by
  unfold lastOr
  cases last? name "" ds <;> rfl

namespace Record

def firstWords (r : Record) : List String × Bool :=
  ([r.path, r.method, r.requestRef, r.responseRef, r.statusCode, r.parametersRef], r.deprecated)

def unmarkedTexts (r : Record) :
    List (List (List Char)) × (String → List (Option (List (List Char)))) :=
  ([r.description, r.summary, r.tag].map unmarked, fun code =>
    [r.customErrorRefs.get? code, r.customErrorDescriptions.get? code].map (·.map unmarked))

variable {ds es : List Directive} {r r' : Record}

theorem Tells.firstWords (h : r.Tells ds) (h' : r'.Tells es)
    (halike : ∀ name ∈ wordNames, Alike name "" firstWord ds es) : r.firstWords = r'.firstWords := by
  have hlast : ∀ name ∈ wordNames, lastOr name firstWord "" ds = lastOr name firstWord "" es :=
    fun name hname => (halike name hname).lastOr ""
  have hdeprecated : r.deprecated = r'.deprecated := by
    rw [h.deprecated, h'.deprecated]
    exact ((halike _ (by decide)).comp fun w => sameIgnoringCase w "true").lastOr false
  unfold Record.firstWords
  rw [hdeprecated, h.path, h'.path, h.method, h'.method, h.requestRef, h'.requestRef, h.responseRef,
    h'.responseRef, h.statusCode, h'.statusCode, h.parametersRef, h'.parametersRef,
    hlast "Path" (by decide), hlast "Method" (by decide), hlast "RequestRef" (by decide),
    hlast "ResponseRef" (by decide), hlast "StatusCode" (by decide), hlast "ParametersRef" (by decide)]

theorem Tells.unmarkedTexts (h : r.Tells ds) (h' : r'.Tells es)
    (halike : ∀ name code, Alike name code unmarked ds es) : r.unmarkedTexts = r'.unmarkedTexts := by
  have hlast : ∀ name, unmarked (lastOr name id "" ds) = unmarked (lastOr name id "" es) := by
    intro name
    rw [apply_lastOr unmarked, apply_lastOr unmarked, (halike name "").lastOr]
  have hcoded : ∀ name code, (if code = "" then none else last? name code ds).map unmarked =
      (if code = "" then none else last? name code es).map unmarked := by
    intro name code
    by_cases hcode : code = ""
    · simp [hcode]
    · simp only [hcode, if_false, (halike name code).map_last?]
  unfold Record.unmarkedTexts
  simp only [List.map_cons, List.map_nil, h.description, h'.description, h.summary, h'.summary, h.tag,
    h'.tag, h.customErrorRefs, h'.customErrorRefs, h.customErrorDescriptions,
    h'.customErrorDescriptions, hlast, hcoded]

theorem Tells.errorStatusCodes_eq (h : r.Tells ds) (h' : r'.Tells es)
    (halike : Alike "ErrorStatusCodes" "" seenItems ds es) : r.errorStatusCodes = r'.errorStatusCodes := by
  have hcodes := (halike.comp fun items => items.map (·.1)).map_valuesOf
  simp only [seenItems, List.map_map, Function.comp_def] at hcodes
  rw [h.errorStatusCodes, h'.errorStatusCodes, List.flatMap_def, List.flatMap_def, hcodes]

end Record

namespace Directive

def unmarkedGrant (g : String × List String) : List (List Char) × List (List (List Char)) :=
  (unmarked g.1, g.2.map unmarked)

theorem map_grants {ds es : List Directive} (halike : Record.Alike "Security" "" seenItems ds es) :
    (grants ds).map unmarkedGrant = (grants es).map unmarkedGrant := by
  have hgrants : ∀ ds : List Directive, (grants ds).map unmarkedGrant =
      ((valuesOf "Security" "" ds).map seenItems).filterMap fun items =>
        items.head?.map fun x => (x.2, items.tail.map (·.2)) := by
    intro ds
    rw [grants, List.map_filterMap, List.filterMap_map]
    apply List.filterMap_congr
    intro v _
    unfold grant? seenItems
    cases hitems : commaItems v <;> simp [hitems, unmarkedGrant]
  rw [hgrants, hgrants, halike.map_valuesOf]

theorem firstWord_eq_empty_iff (s : String) : firstWord s = "" ↔ isBlankText s = true := by
  have hword : firstWord s = String.ofList (wordChars s.toList) := rfl
  rw [hword, String.ofList_eq_empty_iff, wordChars_eq_nil_iff, isBlankText, List.all_eq_true]

theorem marks?_eq (kind : DeclarationKind) (d : Directive) : (d.marks? kind).toList =
    ((if d.IsAt kind.directiveName "" then [d.value] else []).map firstWord).filter (· ≠ "") := by
  unfold marks?
  by_cases hat : d.IsAt kind.directiveName ""
  · by_cases hword : firstWord d.value = ""
    · simp [hat, hword, (firstWord_eq_empty_iff _).mp hword]
    · have hblank : isBlankText d.value = false := by
        simpa [firstWord_eq_empty_iff] using hword
      simp [hat, hat.1, hat.2, hword, hblank]
  · rw [if_neg hat, if_neg]
    · rfl
    · intro h
      exact hat ⟨h.1, by simpa using h.2.1⟩

theorem filterMap_marks? (kind : DeclarationKind) (ds : List Directive) :
    ds.filterMap (·.marks? kind) =
      ((valuesOf kind.directiveName "" ds).map firstWord).filter (· ≠ "") := by
  induction ds with
  | nil => rfl
  | cons d ds ih =>
    rw [valuesOf_cons, List.map_append, List.filter_append, ← ih, ← marks?_eq]
    cases h : d.marks? kind <;> simp [h]

end Directive

namespace Comment

open Source

/-! ## The two styles -/

section
variable {rows : List (List Char × List Char)} {closing : List Char}

theorem isMargin_star {indent : List Char} (h : IsIndent indent) : IsMargin (star indent) := by
  refine ⟨indent ++ ['*'], by simp [star], ?_, ?_⟩
  · simp [not_mem_of_blank h.blank (c := ',') (by decide)]
  · rw [unmarkedWords, words_blank_append h.blank]
    decide

theorem isMargin_space (indent : List Char) : IsMargin (space indent) := ⟨[], rfl, by simp, by decide⟩

theorem keepsApart_star (hindent : ∀ r ∈ rows, IsIndent r.1) (text : List Char) :
    KeepsApart star rows text := by
  intro r hr
  have hblank := (hindent r hr).blank
  refine ⟨?_, '\n' :: r.1, '*', [' '], rfl, ?_, fun s _ => s.not_mem_tail (Or.inr rfl)⟩
  · simp [star, not_mem_of_blank hblank (c := '@') (by decide)]
  · simp [not_mem_of_blank hblank (c := ':') (by decide)]

/-- No key goes over the end of a line. -/
def UnbrokenKeys (text : List Char) : Prop := ∀ s : Spelling, s.chars <:+: text → '\n' ∉ s.chars

/-- A key that is broken has a colon behind the line end, with only blanks between. -/
theorem unbrokenKeys_of_tails {text : List Char}
    (h : ∀ t ∈ text.tails, t.head? = some '\n' → (dropBlank t).head? ≠ some ':') : UnbrokenKeys text := by
  intro s hs hmem
  have hblank : '\n' ∈ s.blanks := by
    have hmem : '\n' ∈ s.letters ∨ '\n' ∈ s.digits ∨ '\n' ∈ s.blanks := by
      simpa [Spelling.chars, Spelling.tail, Spelling.afterLetters] using hmem
    rcases hmem with hc | hc | hc
    · exact absurd (s.letters_isLetter _ hc) (by decide)
    · exact absurd (s.digits_isDecimal _ hc) (by decide +kernel)
    · exact hc
  obtain ⟨y, z, hyz⟩ := List.append_of_mem hblank
  obtain ⟨a, b, hab⟩ := hs
  have htail : '\n' :: (z ++ ':' :: b) <:+ text := by
    refine ⟨a ++ '@' :: 'a' :: 'p' :: 'i' :: (s.letters ++ (s.digits ++ y)), ?_⟩
    rw [← hab]
    simp [Spelling.chars, Spelling.tail, Spelling.afterLetters, hyz]
  have hz : ∀ c ∈ '\n' :: z, isBlank c = true := by
    intro c hc
    apply s.blanks_isBlank
    rw [hyz]
    exact List.mem_append_right _ hc
  apply h _ ((List.mem_tails _ _).mpr htail) rfl
  rw [← List.cons_append, dropBlank_append_of_blank hz]
  rfl

theorem keepsApart_space {text : List Char} (h : UnbrokenKeys text) : KeepsApart space rows text := by
  intro r _
  refine ⟨by simp [space], [], '\n', [' '], rfl, by simp, fun s hs hmem => ?_⟩
  exact h s hs (List.mem_cons_of_mem _ hmem)

/-- The text of each directive with one of the names is `ok` up to each line end in it. -/
def BreaksOnlyAfter (ok : List Char → Prop) (names : List String) (text : List Char) : Prop :=
  ∀ p ∈ (pieces text).keyed, String.ofList p.1.letters ∈ names → BreaksAfter ok p.2

theorem BreaksOnlyAfter.of_mem {ok : List Char → Prop} {names : List String} {text : List Char}
    {name : String} (h : BreaksOnlyAfter ok names text) (hname : name ∈ names) :
    BreaksOnlyAfter ok [name] text := by
  intro p hp hp'
  rw [List.mem_singleton] at hp'
  exact h p hp (hp' ▸ hname)

variable (hrows : ∀ r ∈ rows, IsIndent r.1 ∧ IsLine r.2) (hkeys : UnbrokenKeys (layout space rows))
include hrows hkeys

theorem alike_styles {β γ : Type} {name code : String} {read : List Char → β} {ok : List Char → Prop}
    {view : String → γ} (see : β → γ) (h : SameBehind star space rows read ok)
    (hview : ∀ k raw, view (ofPiece (k, joinLines raw)).value = see (read raw))
    (hok : BreaksOnlyAfter ok [name] (layout space rows)) :
    Record.Alike name code view (ofBlock (String.ofList (layout star rows)))
      (ofBlock (String.ofList (layout space rows))) := by
  apply alike_of_sameBehind see _ _ h hview
  · intro p hp hname
    exact hok p hp (by simp [hname])
  · exact pieces_layout List.suffix_rfl (keepsApart_star (fun r hr => (hrows r hr).1) _)
  · exact pieces_layout List.suffix_rfl (keepsApart_space hkeys)

theorem alike_unmarked (name code : String) : Record.Alike name code unmarked
    (ofBlock (String.ofList (layout star rows))) (ofBlock (String.ofList (layout space rows))) := by
  have hread : SameBehind star space rows unmarkedWords fun _ => True := by
    intro r hr u v _
    rw [unmarkedWords_margin (isMargin_star (hrows r hr).1), unmarkedWords_margin (isMargin_space _)]
  exact alike_styles hrows hkeys id hread unmarked_ofPiece fun _ _ _ _ _ => trivial

theorem alike_firstWord {name : String} (code : String)
    (hbreaks : BreaksOnlyAfter (trimChars · ≠ []) [name] (layout space rows)) :
    Record.Alike name code firstWord (ofBlock (String.ofList (layout star rows)))
      (ofBlock (String.ofList (layout space rows))) := by
  have hread : SameBehind star space rows wordChars (trimChars · ≠ []) := by
    intro r _ u v hu
    have hblank : ¬∀ c ∈ u, isBlank c = true := fun h => hu (trimChars_of_blank h)
    rw [wordChars_behind hblank, wordChars_behind hblank]
  exact alike_styles hrows hkeys String.ofList hread firstWord_ofPiece hbreaks

theorem alike_items {name : String} (code : String)
    (hbreaks : BreaksOnlyAfter Settled [name] (layout space rows)) :
    Record.Alike name code seenItems (ofBlock (String.ofList (layout star rows)))
      (ofBlock (String.ofList (layout space rows))) := by
  have hread : SameBehind star space rows itemWords Settled := by
    intro r hr u v hu
    exact itemWords_margin hu (isMargin_star (hrows r hr).1) (isMargin_space _) v
  exact alike_styles hrows hkeys
    (fun items => (items.filter (·.1 ≠ [])).map fun x => (String.ofList x.1, x.2)) hread
    seenItems_ofPiece hbreaks

end

/-- A block comment with its lines on rows of their own, each behind indentation, a star and a blank, is
read with the stars as text: it gives what line comments give whose lines begin with the stars. So, if no
key goes over the end of a line, it tells the same as the lines in line comments but for words that are
a star: word for word in texts; exactly where the value is one word, if that word stands on the line of
its key; and exactly in lists of codes, if each line of a list has an item at its end. -/
theorem styles_agree (rows : List (List Char × List Char)) (closing : List Char)
    (hrows : ∀ r ∈ rows, IsIndent r.1 ∧ IsLine r.2) (hclosing : IsIndent closing) :
    let block := [ofComment (inside rows closing)]
    let lines := rows.map fun r => ofComment (' ' :: r.2)
    let marked := rows.map fun r => ofComment (star r.1 ++ r.2)
    let text := layout space rows
    ((∀ rest, ReadsAs ("/**".toList ++ (inside rows closing ++ ("*/".toList ++ rest)))
        (ofComment (inside rows closing)) rest) ∧
      ∀ r ∈ rows, ∀ rest, ReadsAs ("///".toList ++ (' ' :: r.2 ++ '\n' :: rest))
        (ofComment (' ' :: r.2)) ('\n' :: rest)) ∧
    (records block = records marked ∧ ∀ kind, names block kind = names marked kind) ∧
    (UnbrokenKeys text →
      (records block).map Record.unmarkedTexts = (records lines).map Record.unmarkedTexts ∧
      (BreaksOnlyAfter (trimChars · ≠ []) wordNames text →
        (records block).map Record.firstWords = (records lines).map Record.firstWords ∧
        ∀ kind, names block kind = names lines kind) ∧
      (BreaksOnlyAfter Settled listNames text →
        (records block).map Record.errorStatusCodes = (records lines).map Record.errorStatusCodes ∧
        (grants (directives block)).map unmarkedGrant = (grants (directives lines)).map unmarkedGrant)) := by
  intro block lines marked text
  have hstar : directives block = ofBlock (String.ofList (layout star rows)) :=
    directives_block hrows hclosing
  have hmarked : directives marked = ofBlock (String.ofList (layout star rows)) :=
    directives_rows star (not_mem_layout_star hrows)
  have hlines : directives lines = ofBlock (String.ofList text) :=
    directives_rows space (not_mem_layout_space hrows)
  have hblock : AreComments block := ⟨[inside rows closing], rfl⟩
  refine ⟨⟨readsAs_block hrows hclosing, fun r hr rest => ?_⟩, ⟨?_, fun kind => ?_⟩, fun hkeys => ?_⟩
  · exact readsAs_of_docComment (docComment_line (hrows r hr).2.unbroken rest)
  · rw [hblock.records_eq, (areComments_map _ rows).records_eq, hstar, hmarked]
  · rw [names_eq, names_eq, hstar, hmarked]
  · have hsome : (∃ d ∈ directives block, d.IsRecognized) ↔ ∃ e ∈ directives lines, e.IsRecognized := by
      rw [hstar, hlines]
      exact (alike_unmarked hrows hkeys "" "").exists_isRecognized
    refine ⟨hblock.map_records (areComments_map _ rows) hsome fun r r' h h' => ?_, fun hwords => ?_,
      fun hlists => ?_⟩
    · rw [hstar] at h
      rw [hlines] at h'
      exact h.unmarkedTexts h' (alike_unmarked hrows hkeys)
    · have halike : ∀ name ∈ wordNames,
          Record.Alike name "" firstWord (directives block) (directives lines) := by
        intro name hname
        rw [hstar, hlines]
        exact alike_firstWord hrows hkeys "" (hwords.of_mem hname)
      refine ⟨hblock.map_records (areComments_map _ rows) hsome fun r r' h h' => ?_, fun kind => ?_⟩
      · exact h.firstWords h' halike
      · have hkind : kind.directiveName ∈ wordNames := by cases kind <;> decide
        rw [names_eq, names_eq, filterMap_marks?, filterMap_marks?, (halike _ hkind).map_valuesOf]
    · have halike : ∀ name ∈ listNames,
          Record.Alike name "" seenItems (directives block) (directives lines) := by
        intro name hname
        rw [hstar, hlines]
        exact alike_items hrows hkeys "" (hlists.of_mem hname)
      refine ⟨hblock.map_records (areComments_map _ rows) hsome fun r r' h h' => ?_, ?_⟩
      · exact h.errorStatusCodes_eq h' (halike _ (by decide))
      · exact map_grants (halike _ (by decide))

def usersRows : List (List Char × List Char) :=
  ["@apiPath: /users", "@apiSummary: All users", "@apiErrorStatusCodes: 404, 500"].map
    fun l => ([' '], l.toList)

theorem isIndent_blank : IsIndent [' '] := by
  intro c hc
  rw [List.mem_singleton.mp hc]
  decide

theorem usersRows_isLine : ∀ r ∈ usersRows, IsIndent r.1 ∧ IsLine r.2 := by
  have h : ∀ r ∈ usersRows, r.1 = [' '] ∧ ('\n' ∉ r.2 ∧ '\r' ∉ r.2) ∧ r.2.IsChain Apart := by
    decide +kernel
  intro r hr
  obtain ⟨hindent, hline, hchain⟩ := h r hr
  rw [hindent]
  exact ⟨isIndent_blank, hline, hchain⟩

/-- A summary and a list of codes, in both styles. -/
theorem styles_agree_users :
    let block := [ofComment (inside usersRows [' '])]
    let lines := usersRows.map fun r => ofComment (' ' :: r.2)
    (records block).map Record.unmarkedTexts = (records lines).map Record.unmarkedTexts ∧
      (records block).map Record.firstWords = (records lines).map Record.firstWords ∧
      (records block).map Record.errorStatusCodes = (records lines).map Record.errorStatusCodes ∧
      ReadsAs ("/**".toList ++ (inside usersRows [' '] ++ ("*/".toList ++ "fn list() ".toList)))
        (ofComment (inside usersRows [' '])) "fn list() ".toList := by
  have hkeys : UnbrokenKeys (layout space usersRows) := unbrokenKeys_of_tails (by decide +kernel)
  have hbreaks : ∀ p ∈ (pieces (layout space usersRows)).keyed, ∀ u ∈ p.2.inits,
      u ++ ['\n'] <+: p.2 → Settled u := by
    decide +kernel
  have hsettled : ∀ names, BreaksOnlyAfter Settled names (layout space usersRows) := by
    intro names p hp _ u hu
    exact hbreaks p hp u ((List.mem_inits _ _).mpr ((List.prefix_append _ _).trans hu)) hu
  have hwords : BreaksOnlyAfter (trimChars · ≠ []) wordNames (layout space usersRows) :=
    fun p hp hname u hu => (hsettled wordNames p hp hname u hu).1
  obtain ⟨hread, -, hsame⟩ := styles_agree usersRows [' '] usersRows_isLine isIndent_blank
  obtain ⟨htexts, hfirst, hlists⟩ := hsame hkeys
  exact ⟨htexts, (hfirst hwords).1, (hlists (hsettled listNames)).1, hread.1 _⟩

/-- The star of the row after it stays in a summary. -/
theorem summary_keeps_star :
    (∀ r ∈ usersRows, IsIndent r.1 ∧ IsLine r.2 ∧ r.2.head? ≠ some '*') ∧
      (records [ofComment (inside usersRows [' '])]).map (·.summary) = ["All users  *"] ∧
      (records (usersRows.map fun r => ofComment (' ' :: r.2))).map (·.summary) = ["All users"] := by
  refine ⟨fun r hr => ⟨(usersRows_isLine r hr).1, (usersRows_isLine r hr).2, ?_⟩, ?_, ?_⟩
  · revert r
    decide +kernel
  · decide +kernel
  · decide +kernel

end Comment

end ApiDocs
