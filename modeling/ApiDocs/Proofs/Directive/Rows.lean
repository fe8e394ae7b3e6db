import ApiDocs.Proofs.Directive.Joins
import ApiDocs.Proofs.Directive.Records
import ApiDocs.Proofs.Parts

/-!
# Directives of rows

A comment is often laid out in rows, each line behind a margin. A reading of values that cannot tell two
margins apart gives the same for the two layouts of the lines, as long as no key goes over the end of a
line.
-/

namespace ApiDocs

namespace Text

/-! ## Words -/

def words (cs : List Char) : List (List Char) := (partsBy isBlank cs).filter fun w => !w.isEmpty

theorem words_append {c : Char} (hc : isBlank c = true) (a b : List Char) :
    words (a ++ c :: b) = words a ++ words b := by
  unfold words
  rw [partsBy_append _ hc, List.filter_append]

theorem words_cons {c : Char} (hc : isBlank c = true) (cs : List Char) : words (c :: cs) = words cs :=
  words_append hc [] cs

theorem words_blank_append {b : List Char} (hb : ∀ c ∈ b, isBlank c = true) (cs : List Char) :
    words (b ++ cs) = words cs := by
  induction b with
  | nil => rfl
  | cons c b ih =>
    rw [List.cons_append, words_cons (hb c (by simp)), ih fun x hx => hb x (by simp [hx])]

theorem words_append_blank {b : List Char} (hb : ∀ c ∈ b, isBlank c = true) (cs : List Char) :
    words (cs ++ b) = words cs := by
  cases b with
  | nil => rw [List.append_nil]
  | cons c b =>
    have htail := words_blank_append (b := b) (fun x hx => hb x (by simp [hx])) []
    rw [List.append_nil] at htail
    rw [words_append (hb c (by simp)), htail]
    exact List.append_nil _

theorem words_trimChars (cs : List Char) : words (trimChars cs) = words cs := by
  obtain ⟨before, after, hcs, hbefore, hafter⟩ := exists_eq_trimChars cs
  have h := words_blank_append hbefore (trimChars cs ++ after)
  rw [← hcs, words_append_blank hafter] at h
  exact h.symm

theorem wordChars_append_blank {b : List Char} (hb : ∀ c ∈ b, isBlank c = true) (cs : List Char) :
    wordChars (cs ++ b) = wordChars cs := by
  rw [← wordChars_trimChars, trimChars_append_of_blank hb, wordChars_trimChars]

theorem not_mem_of_blank {b : List Char} {c : Char} (hb : ∀ x ∈ b, isBlank x = true)
    (hc : isBlank c = false) : c ∉ b := by
  intro h
  rw [hb c h] at hc
  cases hc

theorem trimChars_eq_nil_iff (cs : List Char) : trimChars cs = [] ↔ ∀ c ∈ cs, isBlank c = true := by
  constructor
  · intro h
    obtain ⟨before, after, hcs, hbefore, hafter⟩ := exists_eq_trimChars cs
    rw [hcs, h]
    intro c hc
    rcases List.mem_append.mp hc with hc | hc
    · exact hbefore c hc
    · exact hafter c hc
  · exact trimChars_of_blank

theorem wordChars_eq_nil_iff (cs : List Char) : wordChars cs = [] ↔ ∀ c ∈ cs, isBlank c = true := by
  constructor
  · intro h
    apply List.dropWhile_eq_nil_iff.mp
    cases hd : dropBlank cs with
    | nil => exact hd
    | cons c t =>
      have hc := List.head?_dropWhile_not isBlank cs
      rw [← dropBlank, hd, List.head?_cons] at hc
      rw [wordChars, hd, List.takeWhile_cons_of_pos (by simpa using hc)] at h
      cases h
  · exact wordChars_of_blank

/-- The words of a text but for stars that stand alone. -/
def unmarkedWords (cs : List Char) : List (List Char) := (words cs).filter (· ≠ ['*'])

def unmarked (s : String) : List (List Char) := unmarkedWords s.toList

/-! ## Items -/

theorem partsBy_free_append {p : Char → Bool} {m cs w : List Char} {ws : List (List Char)}
    (hm : ∀ c ∈ m, p c = false) (hcs : partsBy p cs = w :: ws) :
    partsBy p (m ++ cs) = (m ++ w) :: ws := by
  induction m with
  | nil => exact hcs
  | cons c m ih =>
    rw [List.cons_append, partsBy, ih fun x hx => hm x (by simp [hx])]
    simp [hm c (by simp)]

theorem free_or_exists_last (p : Char → Bool) (cs : List Char) : (∀ c ∈ cs, p c = false) ∨
    ∃ a sep z, cs = a ++ sep :: z ∧ p sep = true ∧ ∀ c ∈ z, p c = false := by
  induction cs with
  | nil => simp
  | cons c cs ih =>
    rcases ih with h | ⟨a, sep, z, rfl, hsep, hz⟩
    · by_cases hc : p c = true
      · exact Or.inr ⟨[], c, cs, rfl, hc, h⟩
      · left
        simpa [hc] using h
    · exact Or.inr ⟨c :: a, sep, z, rfl, hsep, hz⟩

/-- Text put behind another goes to the last part of it. -/
theorem exists_last_part (p : Char → Bool) (cs : List Char) : ∃ ps z, (∀ c ∈ z, p c = false) ∧
    (z = cs ∨ ∃ a sep, p sep = true ∧ cs = a ++ sep :: z) ∧
    ∀ x, partsBy p (cs ++ x) = ps ++ partsBy p (z ++ x) := by
  rcases free_or_exists_last p cs with h | ⟨a, sep, z, hcs, hsep, hz⟩
  · exact ⟨[], cs, h, Or.inl rfl, fun x => rfl⟩
  · refine ⟨partsBy p a, z, hz, Or.inr ⟨a, sep, hsep, hcs⟩, fun x => ?_⟩
    rw [hcs, List.append_assoc, List.cons_append, partsBy_append p hsep]

theorem getLast?_trimChars {a z : List Char} {c : Char} (hc : isBlank c = false)
    (hz : ∀ x ∈ z, isBlank x = true) : (trimChars (a ++ c :: z)).getLast? = some c := by
  have hc' : ¬isBlank c = true := by simp [hc]
  have hfront : ∃ a', dropBlank (a ++ [c]) = a' ++ [c] := by
    by_cases ha : ∀ x ∈ a, isBlank x = true
    · exact ⟨[], by rw [dropBlank_append_of_blank ha]; exact List.dropWhile_cons_of_neg hc'⟩
    · exact ⟨dropBlank a, dropBlank_append ha [c]⟩
  obtain ⟨a', ha'⟩ := hfront
  rw [List.append_cons, trimChars_append_of_blank hz, trimChars, ha', List.getLast?_reverse,
    List.reverse_append, dropBlank]
  simp [hc]

/-- The text is not blank, and what comes last in it is no comma. -/
def Settled (cs : List Char) : Prop := trimChars cs ≠ [] ∧ (trimChars cs).getLast? ≠ some ','

instance (cs : List Char) : Decidable (Settled cs) := inferInstanceAs (Decidable (_ ∧ _))

theorem Settled.exists_last_item {cs : List Char} (h : Settled cs) :
    ∃ ps z, (∀ c ∈ z, (c == ',') = false) ∧ (¬∀ c ∈ z, isBlank c = true) ∧
      ∀ x, partsBy (· == ',') (cs ++ x) = ps ++ partsBy (· == ',') (z ++ x) := by
  obtain ⟨ps, z, hz, hcs, hparts⟩ := exists_last_part (· == ',') cs
  refine ⟨ps, z, hz, fun hblank => ?_, hparts⟩
  rcases hcs with rfl | ⟨a, sep, hsep, rfl⟩
  · exact h.1 (trimChars_of_blank hblank)
  · have : sep = ',' := by simpa using hsep
    subst this
    exact h.2 (getLast?_trimChars (by decide) hblank)

/-- The first word of each item, blank ones included, and its words but for the stars. -/
def itemWords (cs : List Char) : List (List Char × List (List Char)) :=
  (partsBy (· == ',') cs).map fun item => (wordChars item, unmarkedWords item)

theorem itemWords_trimChars (cs : List Char) : itemWords (trimChars cs) = itemWords cs := by
  obtain ⟨before, after, hcs, hbefore, hafter⟩ := exists_eq_trimChars cs
  have hcomma : ∀ b : List Char, (∀ c ∈ b, isBlank c = true) → ∀ c ∈ b, (c == ',') = false := by
    intro b hb c hc
    rw [beq_eq_false_iff_ne]
    rintro rfl
    exact not_mem_of_blank hb (by decide) hc
  obtain ⟨w, ws, hw⟩ := List.exists_cons_of_ne_nil (partsBy_ne_nil (· == ',') (trimChars cs ++ after))
  have hfront := partsBy_free_append (hcomma before hbefore) hw
  obtain ⟨ps, z, hz, -, hparts⟩ := exists_last_part (· == ',') (trimChars cs)
  have hback : partsBy (· == ',') (z ++ after) = [z ++ after] := by
    apply partsBy_of_forall
    intro c hc
    rcases List.mem_append.mp hc with hc | hc
    · exact hz c hc
    · exact hcomma after hafter c hc
  have hplain : partsBy (· == ',') (trimChars cs) = ps ++ [z] := by
    have := hparts []
    rw [List.append_nil, List.append_nil, partsBy_of_forall _ hz] at this
    exact this
  have hleft : itemWords cs = itemWords (trimChars cs ++ after) := by
    rw [← hcs] at hfront
    simp only [itemWords, unmarkedWords, hfront, hw, List.map_cons, wordChars_append_of_blank hbefore,
      words_blank_append hbefore]
  rw [hleft]
  simp only [itemWords, unmarkedWords, hparts, hback, hplain, List.map_append, List.map_cons, List.map_nil,
    wordChars_append_blank hafter, words_append_blank hafter]

def seenItems (s : String) : List (String × List (List Char)) :=
  (commaItems s).map fun item => (firstWord item, unmarked item)

theorem seenItems_eq (s : String) : seenItems s =
    ((itemWords s.toList).filter (·.1 ≠ [])).map fun x => (String.ofList x.1, x.2) := by
  unfold seenItems commaItems parts itemWords
  induction partsBy (· == ',') s.toList with
  | nil => rfl
  | cons item items ih =>
    have hempty : (trim (String.ofList item)).isEmpty = decide (wordChars item = []) := by
      rw [Bool.eq_iff_iff, decide_eq_true_iff, wordChars_eq_nil_iff, ← trimChars_eq_nil_iff]
      simp [trim]
    have hitem : (firstWord (trim (String.ofList item)), unmarked (trim (String.ofList item))) =
        (String.ofList (wordChars item), unmarkedWords item) := by
      simp [trim, firstWord_ofList, wordChars_trimChars, unmarked, unmarkedWords, words_trimChars]
    simp only [List.map_cons]
    by_cases h : wordChars item = []
    · rw [List.filter_cons_of_neg (by simp [hempty, h]), List.filter_cons_of_neg (by simp [h]), ih]
    · rw [List.filter_cons_of_pos (by simp [hempty, h]), List.filter_cons_of_pos (by simp [h]),
        List.map_cons, List.map_cons, ih, hitem]

end Text

namespace Directive

open Text

/-! ## Words of values -/

theorem words_append_joinLines (w cs : List Char) : words (w ++ joinLines cs) = words (w ++ cs) := by
  fun_induction joinLines cs generalizing w with
  | case1 => rfl
  | case2 cs ih =>
    have htail : words (joinLines cs) = words cs := ih []
    rw [words_append (by decide), words_append (by decide), words_cons (by decide), htail]
  | case3 c cs _ ih =>
    by_cases hc : c = '\n' ∨ c = '\r'
    · have hblank : isBlank c = true := by
        rcases hc with rfl | rfl <;> decide
      have htail : words (joinLines cs) = words cs := ih []
      rw [if_pos hc, words_append (by decide), words_append hblank, htail]
    · rw [if_neg hc, List.append_cons, ih, ← List.append_cons]

theorem head?_of_partsBy {p : Char → Bool} {cs w : List Char} {ws : List (List Char)} {x : Char}
    (h : partsBy p cs = w :: ws) (hx : w.head? = some x) : cs.head? = some x := by
  cases cs with
  | nil =>
    cases h
    cases hx
  | cons c cs =>
    rw [partsBy] at h
    split at h
    · cases h
      cases hx
    · split at h <;> cases h <;> exact hx

theorem partsBy_joinLines (cs : List Char) :
    partsBy (· == ',') (joinLines cs) = (partsBy (· == ',') cs).map joinLines := by
  fun_induction joinLines cs with
  | case1 => rfl
  | case2 cs ih =>
    obtain ⟨w, ws, hcs⟩ := List.exists_cons_of_ne_nil (partsBy_ne_nil (· == ',') cs)
    simp [partsBy, ih, hcs, joinLines]
  | case3 c cs h ih =>
    obtain ⟨w, ws, hcs⟩ := List.exists_cons_of_ne_nil (partsBy_ne_nil (· == ',') cs)
    by_cases hc : c = ','
    · simp [partsBy, ih, hc, joinLines]
    · have hrn : ¬(c = '\r' ∧ w.head? = some '\n') := by
        rintro ⟨rfl, hw⟩
        obtain ⟨cs', rfl⟩ := List.head?_eq_some_iff.mp (head?_of_partsBy hcs hw)
        exact h cs' rfl rfl
      have hjoined : (if c = '\n' ∨ c = '\r' then ' ' else c) ≠ ',' := by
        split
        · decide
        · exact hc
      simp [partsBy, ih, hcs, joinLines_cons hrn, hc, hjoined]

theorem itemWords_joinLines (cs : List Char) : itemWords (joinLines cs) = itemWords cs := by
  have hwords : ∀ item, words (joinLines item) = words item := words_append_joinLines []
  simp only [itemWords, partsBy_joinLines, List.map_map, Function.comp_def, wordChars_joinLines,
    unmarkedWords, hwords]

theorem unmarked_ofPiece (k : Key) (raw : List Char) :
    unmarked (ofPiece (k, joinLines raw)).value = unmarkedWords raw := by
  have hwords : words (joinLines raw) = words raw := words_append_joinLines [] raw
  simp only [unmarked, unmarkedWords, ofPiece, String.toList_ofList, words_trimChars, hwords]

theorem seenItems_ofPiece (k : Key) (raw : List Char) :
    seenItems (ofPiece (k, joinLines raw)).value =
      ((itemWords raw).filter (·.1 ≠ [])).map fun x => (String.ofList x.1, x.2) := by
  rw [seenItems_eq, ofPiece, String.toList_ofList, itemWords_trimChars, itemWords_joinLines]

/-! ## Rows -/

/-- Lines one after the other, each after a line end and the margin that goes with its indentation. -/
def layout (margin : List Char → List Char) (rows : List (List Char × List Char)) : List Char :=
  rows.flatMap fun r => '\n' :: (margin r.1 ++ r.2)

def rowPieces (margin : List Char → List Char) : List (List Char × List Char) → Pieces
  | [] => ⟨[], []⟩
  | r :: rows =>
    let next := (pieces r.2).append (rowPieces margin rows)
    ⟨'\n' :: (margin r.1 ++ next.lead), next.keyed⟩

theorem Clear.nil {u m v : List Char} (h : Clear u m v) : Clear [] m v := by
  intro s a b hab
  rcases h s (u ++ a) b (by rw [List.append_assoc, ← hab]; rfl) with hp | hp
  · have hlength := hp.length_le
    simp only [Spelling.chars, List.length_append, List.length_cons] at hlength
    omega
  · right
    exact (List.prefix_append_right_inj u).mp hp

theorem Clear.pieces_append {u m v : List Char} (h : Clear u m v) :
    pieces (u ++ (m ++ v)) = (pieces u).append (pieces (m ++ v)) := by
  rw [pieces_clear h, pieces_clear_nil h.nil]

variable {margin : List Char → List Char} {rows : List (List Char × List Char)}

/-- In each margin stands a character that no key of the text goes over. -/
def KeepsApart (margin : List Char → List Char) (rows : List (List Char × List Char))
    (text : List Char) : Prop :=
  ∀ r ∈ rows, '@' ∉ margin r.1 ∧ ∃ pre x post, '\n' :: margin r.1 = pre ++ x :: post ∧ ':' ∉ pre ∧
    ∀ s : Spelling, s.chars <:+: text → x ∉ s.tail

theorem layout_cons (r : List Char × List Char) (rows : List (List Char × List Char)) :
    layout margin (r :: rows) = '\n' :: margin r.1 ++ (r.2 ++ layout margin rows) := by
  simp [layout]

theorem exists_layout_append (margin : List Char → List Char) (rows : List (List Char × List Char))
    (cs : List Char) :
    ∃ t, layout margin rows ++ '\n' :: cs = '\n' :: t := by
  cases rows with
  | nil => exact ⟨cs, rfl⟩
  | cons r rows => exact ⟨_, by rw [layout_cons]; rfl⟩

theorem layout_eq (r : List Char × List Char) (rows : List (List Char × List Char)) :
    layout margin (r :: rows) =
      '\n' :: ['\n'].intercalate ((r :: rows).map fun r => margin r.1 ++ r.2) := by
  induction rows generalizing r with
  | nil => simp [layout]
  | cons r' rows ih =>
    rw [layout_cons, ih]
    simp [List.intercalate_cons_cons]

theorem joinLines_append {a : List Char} (ha : '\r' ∉ a) (b : List Char) :
    joinLines (a ++ b) = joinLines a ++ joinLines b := by
  induction a with
  | nil => rfl
  | cons c a ih =>
    simp only [List.mem_cons, not_or] at ha
    have hc : ∀ cs : List Char, ¬(c = '\r' ∧ cs.head? = some '\n') := fun _ h => ha.1 h.1.symm
    rw [List.cons_append, joinLines_cons (hc _), joinLines_cons (hc _), ih ha.2]
    rfl

theorem joinLines_of_blank {b : List Char} (hb : ∀ c ∈ b, isBlank c = true) :
    ∀ c ∈ joinLines b, isBlank c = true := by
  apply List.dropWhile_eq_nil_iff.mp
  rw [← dropBlank, dropBlank_joinLines, dropBlank_of_blank hb]
  rfl

theorem ofBlock_between {a cs b : List Char} (ha : ∀ c ∈ a, isBlank c = true)
    (hb : ∀ c ∈ b, isBlank c = true) (hr : '\r' ∉ a ∧ '\r' ∉ cs) :
    ofBlock (String.ofList (a ++ (cs ++ b))) = ofBlock (String.ofList cs) := by
  have hnormal : normalize (String.ofList (a ++ (cs ++ b))) = normalize (String.ofList cs) := by
    simp only [normalize, trim, String.toList_ofList]
    rw [joinLines_append hr.1, joinLines_append hr.2, trimChars,
      dropBlank_append_of_blank (joinLines_of_blank ha), ← trimChars,
      trimChars_append_of_blank (joinLines_of_blank hb)]
  rw [ofBlock, hnormal, ofBlock]

theorem ofBlock_layout (hr : '\r' ∉ layout margin rows) :
    ofBlock (String.ofList (['\n'].intercalate (rows.map fun r => margin r.1 ++ r.2))) =
      ofBlock (String.ofList (layout margin rows)) := by
  cases rows with
  | nil => rfl
  | cons r rows =>
    rw [layout_eq, List.mem_cons, not_or] at hr
    have hbreak : ∀ c ∈ ['\n'], isBlank c = true := by
      intro c hc
      rw [List.mem_singleton.mp hc]
      decide
    have h := ofBlock_between (b := []) hbreak (by simp) ⟨by decide, hr.2⟩
    rw [List.append_nil] at h
    rw [layout_eq]
    exact h.symm

theorem KeepsApart.clear {text u : List Char} {r : List Char × List Char}
    (h : KeepsApart margin (r :: rows) text) (htext : u ++ layout margin (r :: rows) <:+ text) :
    Clear u ('\n' :: margin r.1) (r.2 ++ layout margin rows) := by
  obtain ⟨hat, pre, x, post, hmargin, hcolon, hx⟩ := h r (by simp)
  rw [layout_cons] at htext
  have hstop : '\n' :: margin r.1 ++ (r.2 ++ layout margin rows) =
      pre ++ x :: (post ++ (r.2 ++ layout margin rows)) := by
    rw [hmargin, List.append_assoc, List.cons_append]
  apply clear_of_stop _ hstop hcolon
  · intro s hs
    exact hx s (hs.trans htext.isInfix)
  · simpa using hat

theorem pieces_layout {text : List Char} (htext : layout margin rows <:+ text)
    (hmargin : KeepsApart margin rows text) : pieces (layout margin rows) = rowPieces margin rows := by
  induction rows with
  | nil => simp [layout, rowPieces, pieces]
  | cons r rows ih =>
    have hfront := hmargin.clear (u := []) htext
    have hrest : r.2 ++ layout margin rows <:+ text := by
      rw [layout_cons] at htext
      exact (List.suffix_append _ _).trans htext
    have hlater : KeepsApart margin rows text := fun r' hr' => hmargin r' (List.mem_cons_of_mem _ hr')
    have hline : pieces (r.2 ++ layout margin rows) = (pieces r.2).append (rowPieces margin rows) := by
      rw [← ih ((List.suffix_append _ _).trans hrest) hlater]
      cases rows with
      | nil => exact (clear_of_blank_right (m := []) (by simp) r.2).pieces_append
      | cons r' rows =>
        have hnext := (hlater.clear hrest).pieces_append
        rw [← layout_cons] at hnext
        exact hnext
    rw [layout_cons, pieces_clear_nil hfront, hline]
    rfl

/-! ## Readings that do not see the margin -/

section
variable {β : Type} {wide narrow : List Char → List Char} {read : List Char → β} {ok : List Char → Prop}

/-- Behind a text that is `ok`, `read` sees no difference between the two margins. -/
def SameBehind (wide narrow : List Char → List Char) (rows : List (List Char × List Char))
    (read : List Char → β) (ok : List Char → Prop) : Prop :=
  ∀ r ∈ rows, ∀ u v, ok u →
    read (u ++ '\n' :: (wide r.1 ++ v)) = read (u ++ '\n' :: (narrow r.1 ++ v))

/-- At each line end, what comes before it is `ok`. -/
def BreaksAfter (ok : List Char → Prop) (cs : List Char) : Prop := ∀ u, u ++ ['\n'] <+: cs → ok u

theorem read_lead (h : SameBehind wide narrow rows read ok) (u : List Char)
    (hok : BreaksAfter ok (u ++ (rowPieces narrow rows).lead)) :
    read (u ++ (rowPieces wide rows).lead) = read (u ++ (rowPieces narrow rows).lead) := by
  induction rows generalizing u with
  | nil => rfl
  | cons r rows ih =>
    have hu : ok u := by
      apply hok
      exact (List.prefix_append_right_inj u).mpr ⟨_, rfl⟩
    have hlater : SameBehind wide narrow rows read ok := fun r' hr' => h r' (List.mem_cons_of_mem _ hr')
    simp only [rowPieces, Pieces.append] at hok ⊢
    rw [h r (by simp) u _ hu]
    cases hkeyed : (pieces r.2).keyed with
    | nil =>
      -- a line without keys goes on with the text of the line before it
      have hnext := ih hlater (u ++ '\n' :: (narrow r.1 ++ (pieces r.2).lead))
      simp only [hkeyed, appendTo, List.append_assoc, List.cons_append] at hok hnext ⊢
      exact hnext hok
    | cons p keyed =>
      obtain ⟨k, raw⟩ := p
      rfl

theorem forall₂_rowPieces (h : SameBehind wide narrow rows read ok) :
    List.Forall₂ (fun p q => p.1 = q.1 ∧ (BreaksAfter ok q.2 → read p.2 = read q.2))
      (rowPieces wide rows).keyed (rowPieces narrow rows).keyed := by
  induction rows with
  | nil => exact List.Forall₂.nil
  | cons r rows ih =>
    have hlater : SameBehind wide narrow rows read ok := fun r' hr' => h r' (List.mem_cons_of_mem _ hr')
    simp only [rowPieces, Pieces.append]
    rcases List.eq_nil_or_concat (pieces r.2).keyed with hnil | ⟨keyed, ⟨k, raw⟩, hkeyed⟩
    · rw [hnil]
      exact ih hlater
    · rw [List.concat_eq_append] at hkeyed
      rw [hkeyed, appendTo_snoc, appendTo_snoc]
      apply List.rel_append
      · apply List.forall₂_same.mpr
        simp
      · exact List.Forall₂.cons ⟨rfl, read_lead hlater raw⟩ (ih hlater)

theorem alike_of_sameBehind {γ : Type} {name code : String} {view : String → γ} (see : β → γ)
    (hwide : pieces (layout wide rows) = rowPieces wide rows)
    (hnarrow : pieces (layout narrow rows) = rowPieces narrow rows)
    (h : SameBehind wide narrow rows read ok)
    (hview : ∀ k raw, view (ofPiece (k, joinLines raw)).value = see (read raw))
    (hok : ∀ p ∈ (pieces (layout narrow rows)).keyed, String.ofList p.1.letters = name →
      BreaksAfter ok p.2) :
    Record.Alike name code view (ofBlock (String.ofList (layout wide rows)))
      (ofBlock (String.ofList (layout narrow rows))) := by
  rw [ofBlock_eq, ofBlock_eq, String.toList_ofList, String.toList_ofList, hwide, hnarrow]
  rw [hnarrow] at hok
  unfold Record.Alike
  rw [List.forall₂_map_left_iff, List.forall₂_map_right_iff, List.forall₂_iff_zip]
  have hrows := List.forall₂_iff_zip.mp (forall₂_rowPieces h)
  refine ⟨hrows.1, fun {p q} hpq => ?_⟩
  obtain ⟨hkey, hread⟩ := hrows.2 hpq
  simp only [ofPiece, hkey, true_and]
  intro hat
  have hbreaks := hok q (List.of_mem_zip hpq).2 hat.1
  have hp := hview p.1 p.2
  have hq := hview q.1 q.2
  simp only [ofPiece] at hp hq
  rw [hp, hq, hread hbreaks]

end

/-! ## Margins -/

/-- A margin holds no comma and no word but stars, and a blank ends it. -/
def IsMargin (m : List Char) : Prop := ∃ m', m = m' ++ [' '] ∧ ',' ∉ m' ∧ unmarkedWords m' = []

theorem unmarkedWords_append {c : Char} (hc : isBlank c = true) (a b : List Char) :
    unmarkedWords (a ++ c :: b) = unmarkedWords a ++ unmarkedWords b := by
  unfold unmarkedWords
  rw [words_append hc, List.filter_append]

theorem unmarkedWords_margin {m : List Char} (hm : IsMargin m) (u v : List Char) :
    unmarkedWords (u ++ '\n' :: (m ++ v)) = unmarkedWords u ++ unmarkedWords v := by
  obtain ⟨m', rfl, -, hwords⟩ := hm
  rw [unmarkedWords_append (by decide), List.append_assoc, List.singleton_append,
    unmarkedWords_append (by decide), hwords, List.nil_append]

theorem wordChars_behind {u : List Char} (hu : ¬∀ c ∈ u, isBlank c = true) (x : List Char) :
    wordChars (u ++ '\n' :: x) = wordChars u := by
  apply wordChars_append hu
  intro c hc
  rw [← Option.some.inj hc]
  decide

theorem itemWords_margin {u m m' : List Char} (hu : Settled u) (hm : IsMargin m) (hm' : IsMargin m')
    (v : List Char) : itemWords (u ++ '\n' :: (m ++ v)) = itemWords (u ++ '\n' :: (m' ++ v)) := by
  obtain ⟨ps, z, hz, hblank, hparts⟩ := hu.exists_last_item
  obtain ⟨w, ws, hw⟩ := List.exists_cons_of_ne_nil (partsBy_ne_nil (· == ',') v)
  -- the margin goes to the item that `z` begins, and `z` is not blank
  have hitems : ∀ n, IsMargin n → itemWords (u ++ '\n' :: (n ++ v)) =
      (ps.map fun item => (wordChars item, unmarkedWords item)) ++
        (wordChars z, unmarkedWords z ++ unmarkedWords w) ::
          ws.map fun item => (wordChars item, unmarkedWords item) := by
    intro n hn
    have hfree : ∀ c ∈ z ++ '\n' :: n, (c == ',') = false := by
      obtain ⟨n', rfl, hcomma, -⟩ := hn
      intro c hc
      simp only [List.mem_append, List.mem_cons, List.not_mem_nil, or_false] at hc
      rcases hc with hc | rfl | hc | rfl
      · exact hz c hc
      · rfl
      · rw [beq_eq_false_iff_ne]
        rintro rfl
        exact hcomma hc
      · rfl
    have hlast : partsBy (· == ',') (z ++ '\n' :: (n ++ v)) = (z ++ '\n' :: (n ++ w)) :: ws := by
      have := partsBy_free_append hfree hw
      simpa using this
    simp only [itemWords, hparts, hlast, List.map_append, List.map_cons, wordChars_behind hblank,
      unmarkedWords_margin hn]
  rw [hitems m hm, hitems m' hm']

end Directive

end ApiDocs
