import ApiDocs.Proofs.Yaml.Literal
import ApiDocs.Proofs.Yaml.Plain
import ApiDocs.Proofs.Yaml.Scanning

/-!
# Written scalars as tokens

Whatever style a text is written in, the scanner reads one token with the text from it: as a value up to
the next line, as a key up to its colon.
-/

namespace ApiDocs.Yaml

/-! ## Styles -/

inductive Styled (s : String) : Style → Prop
  | plain (h : PlainText s.toList) (hstart : startsAsMarkup s.toList = false) (hquotes : needsQuotes s = false) :
      Styled s .plain
  | single (h : SingleText s.toList) : Styled s .single
  | double : Styled s .double
  | literal (hnewline : '\n' ∈ s.toList) (hprintable : Printable s.toList) : Styled s .literal

theorem anyPair_mono {p q : Char → Char → Bool} (hpq : ∀ a b, q a b = true → p a b = true) {cs : List Char}
    (h : anyPair p cs = false) : anyPair q cs = false := by
  induction cs with
  | nil => rfl
  | cons a cs ih =>
    cases cs with
    | nil => rfl
    | cons b cs =>
      rw [anyPair, Bool.or_eq_false_iff] at h ⊢
      refine ⟨?_, ih h.2⟩
      by_contra hq
      rw [hpq a b (by simpa using hq)] at h
      exact absurd h.1 (by decide)

theorem singleText_of_manner {cs : List Char} (hn : '\n' ∉ cs) (h : (manner cs).single = true) : SingleText cs := by
  simp only [manner, Bool.not_eq_true', Bool.or_eq_false_iff] at h
  obtain ⟨⟨hbreakSpace, hspaceBreak⟩, hspecial⟩ := h
  exact {
    printable := by simpa [Printable] using hspecial
    noNewline := hn
    breakSpace := anyPair_mono (fun a b h => by simp_all) hbreakSpace
    spaceBreak := anyPair_mono (fun a b h => by simp_all) hspaceBreak }

theorem styled (s : String) : Styled s (style s) := by
  unfold style
  by_cases hnewline : '\n' ∈ s.toList
  · by_cases hblock : (manner s.toList).block = true
    · rw [if_pos (by simpa using hnewline), if_pos hblock]
      refine .literal hnewline ?_
      simp only [manner, Bool.not_eq_true', Bool.or_eq_false_iff] at hblock
      simpa [Printable] using hblock.2
    · rw [if_pos (by simpa using hnewline), if_neg hblock]
      exact .double
  · rw [if_neg (by simpa using hnewline)]
    split
    · rename_i h
      simp only [Bool.and_eq_true, Bool.not_eq_true'] at h
      have hne : s.toList ≠ [] := by
        intro hnil
        obtain rfl : s = "" := String.toList_eq_nil_iff.mp hnil
        exact absurd h.1 (by decide)
      obtain ⟨hplain, hstart⟩ := plainText_of_manner hne h.2
      exact .plain hplain hstart h.1
    · split
      · rename_i h
        exact .single (singleText_of_manner hnewline h)
      · exact .double

def textToken (s : String) : Token :=
  .scalar (match style s with
    | .plain => .plain
    | .literal => .literal
    | _ => .quoted) s

/-! ## Beginnings -/

theorem chars_of_atDocumentMark {mark : Char} {cs : List Cell} (h : atDocumentMark mark cs = true) :
    ∃ more, chars cs = mark :: mark :: mark :: more := by
  unfold atDocumentMark at h
  split at h
  · rename_i a b c rest
    simp only [Bool.and_eq_true, beq_iff_eq] at h
    exact ⟨chars rest, by simp [chars, h]⟩
  · exact absurd h (by decide)

/-- A plain text does not begin as a mark of a document does, whatever comes after it. -/
theorem atDocumentMark_plain {mark : Char} (hmark : mark = '-' ∨ mark = '.') {w : List Char} (hw : Inline w)
    (hne : w ≠ []) (hstart : startsAsMarkup w = false) {x : Char} (hx : breakChar x = x) (hxm : x ≠ mark)
    (line column : Nat) (z : List Char) :
    atDocumentMark mark (cellsFrom line column (w ++ x :: z)) = false := by
  by_contra hat
  obtain ⟨more, hmore⟩ := chars_of_atDocumentMark (Bool.not_eq_false _ ▸ hat)
  rw [cellsFrom_append hw.kept, cellsFrom_cons hx, chars, List.map_append, ← chars, chars_cellsFrom hw.kept,
    List.map_cons] at hmore
  match w, hne with
  | [c], _ =>
    simp only [List.cons_append, List.nil_append, List.cons.injEq] at hmore
    exact hxm hmore.2.1
  | [c, d], _ =>
    simp only [List.cons_append, List.nil_append, List.cons.injEq] at hmore
    exact hxm hmore.2.2.1
  | c :: d :: e :: w, _ =>
    simp only [List.cons_append, List.cons.injEq] at hmore
    obtain ⟨rfl, rfl, rfl, -⟩ := hmore
    rcases hmark with rfl | rfl
    · simp [startsAsMarkup] at hstart
    · simp [startsAsMarkup] at hstart

theorem startsAsMarkup_cons {c : Char} {w : List Char} (h : startsAsMarkup (c :: w) = false) :
    openers.contains c = false ∧ (c = '?' ∨ c = ':' ∨ c = '-' → isGap w.head? = false) := by
  rw [startsAsMarkup.eq_def] at h
  split at h
  · exact absurd h (by decide)
  · exact absurd h (by decide)
  · rename_i he
    cases he
    rw [Bool.or_eq_false_iff] at h
    refine ⟨h.1, ?_⟩
    rintro (rfl | rfl | rfl) <;> simpa using h.2
  · rename_i he
    cases he

namespace Scan

theorem token?_plain {s : Scan} {c : Char} {line column : Nat} {next : List Cell}
    (hopener : openers.contains c = false) (hgap : isGapChar c = false)
    (hdash : atDocumentMark '-' s.rest = false) (hdot : atDocumentMark '.' s.rest = false)
    (hitem : c = '-' → atGap next = false)
    (hmark : c = '?' ∨ c = ':' → s.inFlow = false ∧ atGap next = false) (fuel : Nat) :
    s.token? fuel ⟨c, line, column⟩ next = s.plain? fuel := by
  simp only [openers, List.contains_cons, List.contains_nil, Bool.or_eq_false_iff] at hopener
  have hitem' : (c == '-' && atGap next) = false := by
    by_cases hc : c = '-'
    · simp [hitem hc]
    · simp [hc]
  have hmark' : ∀ m, m = '?' ∨ m = ':' → (c == m && (s.inFlow || atGap next)) = false := by
    intro m hm
    by_cases hc : c = m
    · simp [hmark (hc ▸ hm)]
    · simp [hc]
  have hstart : (!marks.contains c || c == '-' || (!s.inFlow && (c == '?' || c == ':'))) = true := by
    by_cases hdash : c = '-'
    · simp [hdash]
    · by_cases hc : c = '?' ∨ c = ':'
      · rcases hc with hc | hc
        · simp [hc, hmark (.inl hc)]
        · simp [hc, hmark (.inr hc)]
      · rw [not_or] at hc
        simp only [beq_eq_false_iff_ne] at hopener
        simp [marks, hopener, hdash, hc]
  unfold token?
  simp only [hdash, hdot, hgap, hopener, hitem', hmark' _ (.inl rfl), hmark' _ (.inr rfl), hstart,
    Bool.and_false, Bool.false_and, Bool.not_false, Bool.and_self, Bool.false_eq_true, if_true, if_false]

theorem token?_startsAsMarkup {s : Scan} {c : Char} (hflow : c = '?' ∨ c = ':' → s.inFlow = false)
    {w z : List Char} (hw : PlainText (c :: w)) (hstart : startsAsMarkup (c :: w) = false) {x : Char} (hx : breakChar x = x)
    (hdash : x ≠ '-') (hdot : x ≠ '.') {line column : Nat}
    (hrest : s.rest = cellsFrom line column (c :: w ++ x :: z)) (fuel : Nat) :
    s.token? fuel ⟨c, line, column⟩ (cellsFrom line (column + 1) (w ++ x :: z)) = s.plain? fuel := by
  have hnext : c = '?' ∨ c = ':' ∨ c = '-' → atGap (cellsFrom line (column + 1) (w ++ x :: z)) = false := by
    intro hc
    exact atGap_of_isGap ((startsAsMarkup_cons hstart).2 hc) _
  refine token?_plain (startsAsMarkup_cons hstart).1
    (hw.isGapChar (List.mem_cons_self ..) (by simpa using hw.head)) ?_ ?_ ?_ ?_ fuel
  · rw [hrest]
    exact atDocumentMark_plain (.inl rfl) hw.inline (by simp) hstart hx hdash ..
  · rw [hrest]
    exact atDocumentMark_plain (.inr rfl) hw.inline (by simp) hstart hx hdot ..
  · exact fun hc => hnext (.inr (.inr hc))
  · exact fun hc => ⟨hflow hc, hnext (hc.imp id .inl)⟩

/-! ## Tokens -/

def placed (keyAllowed : Bool) (ts : List Token) (indent line column : Nat) : Option KeyPlace :=
  if keyAllowed then some ⟨ts.length, line, column, indent == column + 1⟩ else none

section
variable {ts : List Token} {indent : Nat} {outer : List Nat} {keyAllowed : Bool} {line column : Nat}

theorem markKey?_inBlock (c : Char) (next : List Cell) :
    (inBlock ts indent outer none keyAllowed (⟨c, line, column⟩ :: next)).markKey? =
      some (inBlock ts indent outer (placed keyAllowed ts indent line column) keyAllowed
        (⟨c, line, column⟩ :: next)) := by
  cases keyAllowed <;> simp [markKey?, inBlock, placed, dropKey?, inFlow]

variable (h : indent ≤ column + 1)
include h

theorem reaches_quoted (single : Bool) {text : String} {next rest : List Cell}
    (hread : ∀ fuel, next.length < fuel → quotedText single fuel next = some (text.toList, rest))
    (hlength : rest.length ≤ next.length) :
    Reaches (inBlock ts indent outer none keyAllowed (⟨if single then '\'' else '"', line, column⟩ :: next))
      (inBlock (.scalar .quoted text :: ts) indent outer (placed keyAllowed ts indent line column) false rest) := by
  refine reaches_inBlock h (by cases single <;> decide) (by cases single <;> decide) ?_ hlength
  intro fuel hfuel
  have hquoted : ∀ c, (inBlock ts indent outer none keyAllowed (⟨c, line, column⟩ :: next)).quoted? fuel single =
      some (inBlock (.scalar .quoted text :: ts) indent outer (placed keyAllowed ts indent line column) false
        rest) := by
    intro c
    rw [quoted?, word?, markKey?_inBlock]
    simp [inBlock, hread fuel hfuel, emit]
  rw [← hquoted (if single then '\'' else '"')]
  unfold token?
  cases single <;> simp [inBlock, atDocumentMark_of_ne]

theorem reaches_literal {text : String} {next rest : List Cell}
    (hread : ∀ fuel, next.length < fuel → blockText true indent fuel next = some (text.toList, rest))
    (hlength : rest.length ≤ next.length) :
    Reaches (inBlock ts indent outer none keyAllowed (⟨'|', line, column⟩ :: next))
      (inBlock (.scalar .literal text :: ts) indent outer none true rest) := by
  refine reaches_inBlock h (by decide) (by decide) (fun fuel hfuel => ?_) hlength
  unfold token?
  simp [inBlock, inFlow, atDocumentMark_of_ne, block?, dropKey?, hread fuel hfuel, emit]

theorem reaches_plain {text : String} (htext : PlainText text.toList) (hstart : startsAsMarkup text.toList = false)
    {x : Char} (hx : x = ':' ∨ x = '\n') {z : List Char} {broken : Bool} {rest : List Cell}
    (hread : ∀ fuel, text.toList.length < fuel →
      plainText false indent fuel (cellsFrom line column (text.toList ++ x :: z)) = some (text.toList, broken, rest))
    (hlength : rest.length < (cellsFrom line column (text.toList ++ x :: z)).length) :
    Reaches (inBlock ts indent outer none keyAllowed (cellsFrom line column (text.toList ++ x :: z)))
      (inBlock (.scalar .plain text :: ts) indent outer (placed keyAllowed ts indent line column) broken rest) := by
  obtain ⟨c, w, hcw⟩ := List.exists_cons_of_ne_nil htext.ne_nil
  have hgap : isGapChar c = false := htext.isGapChar (hcw ▸ List.mem_cons_self ..) (by simpa [hcw] using htext.head)
  have hhash : c ≠ '#' := by
    rintro rfl
    rw [hcw] at hstart
    exact absurd (startsAsMarkup_cons hstart).1 (by decide)
  have hcells : cellsFrom line column (text.toList ++ x :: z) =
      ⟨c, line, column⟩ :: cellsFrom line (column + 1) (w ++ x :: z) := by
    rw [hcw, List.cons_append, cellsFrom_inline (isGapChar_eq_false_iff.mp hgap).2.2]
  have hxkept : breakChar x = x ∧ x ≠ '-' ∧ x ≠ '.' := by
    rcases hx with rfl | rfl <;> decide
  have hkept := length_cellsFrom_append htext.inline.kept line column line 0 (x :: z)
  rw [cellsFrom_cons hxkept.1, List.length_cons, hcells, List.length_cons] at hkept
  rw [hcells] at hlength hread ⊢
  refine reaches_inBlock h hgap hhash (fun fuel hfuel => ?_) (Nat.le_of_lt_succ hlength)
  have hplain := hread fuel (by omega)
  have htoken := token?_startsAsMarkup (s := inBlock ts indent outer none keyAllowed
    (⟨c, line, column⟩ :: cellsFrom line (column + 1) (w ++ x :: z))) (fun _ => rfl) (hcw ▸ htext) (hcw ▸ hstart)
    hxkept.1 hxkept.2.1 hxkept.2.2 (by rw [← hcw]; exact hcells.symm) fuel
  rw [htoken, plain?, markKey?_inBlock]
  simp [inBlock, inFlow, hplain, emit]

end

/-! ## Values -/

section
variable {ts : List Token} {indent n : Nat} {outer : List Nat} {key : Option KeyPlace} {keyAllowed : Bool}
  {line : Nat} {tail : List Char} (htail : Below n tail)
include htail

theorem reaches_forget_any (hkey : ∀ k ∈ key, k.required = false ∧ k.line < line) :
    Reaches (inBlock ts indent outer key keyAllowed (lineCells line tail))
      (inBlock ts indent outer none keyAllowed (lineCells line tail)) := by
  cases key with
  | none => exact .refl _
  | some k => exact reaches_forget htail (hkey k rfl).1 (hkey k rfl).2

theorem reaches_lineEnd {column : Nat} (hkey : ∀ k ∈ key, k.required = false ∧ k.line ≤ line) :
    Reaches (inBlock ts indent outer key keyAllowed (cellsFrom line column ('\n' :: tail)))
      (inBlock ts indent outer none true (lineCells (line + 1) tail)) :=
  (reaches_newline tail).trans
    (reaches_forget_any htail fun k hk => ⟨(hkey k hk).1, Nat.lt_succ_of_le (hkey k hk).2⟩)

end

section
variable {ts : List Token} {i k : Nat} {outer : List Nat} {keyAllowed : Bool} {line : Nat} {tail : List Char}
  (hk : i < k)
include hk

/-- To the right of the block a key is not required. -/
theorem placed_of_lt {key : KeyPlace} (hkey : key ∈ placed keyAllowed ts (i + 1) line k) :
    key.required = false ∧ key.line = line := by
  unfold placed at hkey
  split at hkey
  · cases hkey
    refine ⟨?_, rfl⟩
    simp
    omega
  · cases hkey

variable (htail : Below (i + 1) tail)
include htail

theorem reaches_plainValue {text : String} (htext : PlainText text.toList)
    (hstart : startsAsMarkup text.toList = false) :
    Reaches (inBlock ts (i + 1) outer none keyAllowed (cellsFrom line k (text.toList ++ ['\n'] ++ tail)))
      (inBlock (.scalar .plain text :: ts) (i + 1) outer none true (lineCells (line + 1) tail)) := by
  have hlength := length_lineCells_le (line + 1) (line + 1) 0 tail
  have hkept := length_cellsFrom_append htext.inline.kept line k line 0 ('\n' :: tail)
  rw [cellsFrom_break (by decide), List.length_cons] at hkept
  rw [List.append_assoc, List.singleton_append]
  refine Reaches.trans (reaches_plain (by omega) htext hstart (.inr rfl)
    (fun fuel hfuel => plainText_value line htext (by omega) hfuel htail) (by omega))
    (reaches_forget_any htail fun key hkey => ?_)
  obtain ⟨hrequired, hline⟩ := placed_of_lt hk hkey
  exact ⟨hrequired, by omega⟩

omit hk htail in
theorem lineAfter_quoted {q : Char} (hq : isBreak q = false) (body : List Char) :
    lineAfter line (q :: body ++ [q, '\n']) = lineAfter line body + 1 := by
  rw [List.cons_append, lineAfter_cons hq, lineAfter_append, lineAfter_cons hq]
  rfl

theorem reaches_quotedValue (single : Bool) {body : List Char} (hbody : Kept body) {text : String}
    (hread : ∀ fuel, body.length < fuel →
      quotedText single fuel
          (cellsFrom line (k + 1) (body ++ (if single then '\'' else '"') :: '\n' :: tail)) =
        some (text.toList, cellsFrom (lineAfter line body) (columnAfter (k + 1) body + 1) ('\n' :: tail))) :
    Reaches (inBlock ts (i + 1) outer none keyAllowed
        (cellsFrom line k ((if single then '\'' else '"') :: body ++ [if single then '\'' else '"', '\n'] ++ tail)))
      (inBlock (.scalar .quoted text :: ts) (i + 1) outer none true
        (lineCells (lineAfter line ((if single then '\'' else '"') :: body ++ [if single then '\'' else '"', '\n']))
          tail)) := by
  have hquote : isBreak (if single then '\'' else '"') = false := by cases single <;> decide
  have hlength : (cellsFrom line (k + 1) (body ++ (if single then '\'' else '"') :: '\n' :: tail)).length =
      body.length + ((cellsFrom (lineAfter line body) (columnAfter (k + 1) body + 1) ('\n' :: tail)).length + 1) := by
    rw [length_cellsFrom_append hbody _ _ (lineAfter line body) (columnAfter (k + 1) body),
      cellsFrom_inline hquote, List.length_cons]
  have hassoc : (if single then '\'' else '"') :: body ++ [if single then '\'' else '"', '\n'] ++ tail =
      (if single then '\'' else '"') :: (body ++ (if single then '\'' else '"') :: '\n' :: tail) := by simp
  rw [lineAfter_quoted hquote, hassoc, cellsFrom_inline hquote]
  refine Reaches.trans (reaches_quoted (by omega) single (fun fuel hfuel => hread fuel (by omega)) (by omega))
    (reaches_lineEnd htail fun key hkey => ?_)
  obtain ⟨hrequired, hline⟩ := placed_of_lt hk hkey
  exact ⟨hrequired, hline ▸ le_lineAfter line body⟩

theorem reaches_literalValue {text : String} (hne : text.toList ≠ []) (htext : Printable text.toList) :
    Reaches (inBlock ts (i + 1) outer none keyAllowed (cellsFrom line k
        ('|' :: literalHints text.toList ++ '\n' :: literalBody (i + 2) true text.toList ++ tail)))
      (inBlock (.scalar .literal text :: ts) (i + 1) outer none true
        (lineCells (lineAfter (line + 1) (literalBody (i + 2) true text.toList)) tail)) := by
  have hassoc : '|' :: literalHints text.toList ++ '\n' :: literalBody (i + 2) true text.toList ++ tail =
      '|' :: (literalHints text.toList ++ '\n' :: (literalBody (i + 2) true text.toList ++ tail)) := by simp
  have hlength : ∀ l, (lineCells l tail).length + text.toList.length ≤ (cellsFrom line (k + 1)
      (literalHints text.toList ++ '\n' :: (literalBody (i + 2) true text.toList ++ tail))).length := by
    intro l
    have hrest := length_lineCells_le l 0 0 tail
    have hbody := length_le_literalBody (i + 2) true text.toList
    rw [length_cellsFrom_append (inline_literalHints text.toList).kept _ _ line 0, cellsFrom_break (by decide),
      List.length_cons, length_cellsFrom_append (printable_literalBody _ _ htext).kept _ _ 0 0]
    omega
  rw [hassoc, cellsFrom_inline (by decide)]
  refine reaches_literal (by omega) (fun fuel hfuel => ?_) ?_
  · have := hlength 0
    exact blockText_literal (Nat.succ_ne_zero i) (htail.mono (by omega)) hne htext (by omega) ..
  · have := hlength (lineAfter (line + 1) (literalBody (i + 2) true text.toList))
    omega

/-- A text as a value is one token, and the next line comes. -/
theorem reaches_text (s : String) :
    Reaches (inBlock ts (i + 1) outer none keyAllowed (cellsFrom line k (scalarChars (i + 2) s ++ tail)))
      (inBlock (textToken s :: ts) (i + 1) outer none true
        (lineCells (lineAfter line (scalarChars (i + 2) s)) tail)) := by
  have hstyled := styled s
  unfold scalarChars textToken
  generalize style s = st at hstyled
  cases hstyled with
  | plain h hstart _ =>
    have hline : lineAfter line (s.toList ++ ['\n']) = line + 1 := by
      rw [lineAfter_append, h.inline.lineAfter]
      rfl
    simp only [hline]
    exact reaches_plainValue hk htail h hstart
  | single h =>
    refine reaches_quotedValue hk htail true (printable_singleBody (i + 2) false h.printable).kept ?_
    intro fuel hfuel
    exact quotedText_singleBody (by omega) (by simp) h fuel line (by omega) hfuel
  | double =>
    refine reaches_quotedValue hk htail false (inline_doubleBody s.toList).kept ?_
    intro fuel hfuel
    rw [(inline_doubleBody _).lineAfter, (inline_doubleBody _).columnAfter]
    exact quotedText_doubleBody line s.toList _ (by omega) hfuel
  | literal hnewline hprintable =>
    have hne : s.toList ≠ [] := List.ne_nil_of_mem hnewline
    have hline : lineAfter line ('|' :: literalHints s.toList ++ '\n' :: literalBody (i + 2) true s.toList) =
        lineAfter (line + 1) (literalBody (i + 2) true s.toList) := by
      rw [List.cons_append, lineAfter_cons (by decide), lineAfter_append, (inline_literalHints _).lineAfter]
      rfl
    simp only [hline]
    exact reaches_literalValue hk htail hne hprintable

end

end Scan

/-! ## Lengths of keys -/

theorem length_flatMap_le (enc : Char → List Char) (h : ∀ c, (enc c).length ≤ 4 * c.utf8Size) (s : String) :
    (s.toList.flatMap enc).length ≤ 4 * s.utf8ByteSize := by
  have hlist : ∀ cs : List Char, (cs.flatMap enc).length ≤ 4 * (String.ofList cs).utf8ByteSize := by
    intro cs
    induction cs with
    | nil => exact Nat.zero_le _
    | cons c cs ih =>
      have hc := h c
      rw [List.flatMap_cons, List.length_append, String.ofList_cons, String.utf8ByteSize_append,
        String.utf8ByteSize_singleton]
      omega
  simpa [String.ofList_toList] using hlist s.toList

theorem length_escapeCode_le (c : Char) : (escapeCode c).length + 1 ≤ 4 * c.utf8Size := by
  have hone := c.utf8Size_pos
  have htwo : 127 < c.toNat → 2 ≤ c.utf8Size := by
    intro h
    by_contra hlt
    have : c.utf8Size = 1 := by omega
    exact absurd (Char.utf8Size_eq_one_iff.mp this) (Nat.not_le.mpr h)
  have hfour : 0xFFFF < c.toNat → 4 ≤ c.utf8Size := fun h => Nat.le_of_eq (Char.utf8Size_eq_four_iff.mpr h).symm
  unfold escapeCode
  cases letterEscapes.lookup c with
  | some letter =>
    rw [List.length_singleton]
    omega
  | none =>
    dsimp only
    split
    · simp [length_hexDigits]
      omega
    · split
      · have := htwo (by omega)
        simp [length_hexDigits]
        omega
      · have := hfour (by omega)
        simp [length_hexDigits]
        omega

theorem singleBody_unbroken (indent : Nat) {cs : List Char} (h : ∀ c ∈ cs, isPrintedBreak c = false) :
    singleBody indent false cs = cs.flatMap fun c => if c = '\'' then ['\'', '\''] else [c] := by
  induction cs with
  | nil => rfl
  | cons c cs ih =>
    rw [singleBody, if_neg (by simp [h c (List.mem_cons_self ..)]), List.flatMap_cons,
      ih fun d hd => h d (List.mem_cons_of_mem _ hd)]
    rfl

theorem inline_singleBody (indent : Nat) {cs : List Char} (hcs : SingleText cs)
    (h : ∀ c ∈ cs, isPrintedBreak c = false) : Inline (singleBody indent false cs) := by
  intro d hd
  rw [singleBody_unbroken indent h] at hd
  obtain ⟨c, hc, hd⟩ := List.mem_flatMap.mp hd
  have hbreak := (isBreak_of_isPrintable (hcs.printable c hc)).trans (h c hc)
  split at hd
  · simp only [List.mem_cons, List.not_mem_nil, or_false, or_self] at hd
    rw [hd]
    decide
  · rwa [List.mem_singleton.mp hd]

theorem length_singleBody_le (indent : Nat) {s : String} (h : ∀ c ∈ s.toList, isPrintedBreak c = false) :
    (singleBody indent false s.toList).length ≤ 4 * s.utf8ByteSize := by
  rw [singleBody_unbroken indent h]
  refine length_flatMap_le _ (fun c => ?_) s
  have hone := c.utf8Size_pos
  split
  · simp
    omega
  · simp
    omega

theorem length_doubleBody_le (s : String) : (doubleBody s.toList).length ≤ 4 * s.utf8ByteSize := by
  refine length_flatMap_le _ (fun c => ?_) s
  have hcode := length_escapeCode_le c
  have hone := c.utf8Size_pos
  split
  · simpa using hcode
  · simp
    omega

theorem isSimpleKey_iff {s : String} : isSimpleKey s = true ↔ s.utf8ByteSize ≤ 128 ∧
    (∀ c ∈ s.toList, isPrintedBreak c = false) ∧ ∀ c ∈ s.toList, c ≠ '\r' ∧ c.toNat ≠ 0x85 := by
  simp [isSimpleKey, manner]

inductive KeyBody (s : String) (indent : Nat) : Prop
  | plain (hstyle : style s = .plain) (h : PlainText s.toList) (hstart : startsAsMarkup s.toList = false)
      (hchars : keyChars indent s = s.toList)
  | single (hstyle : style s = .single) (h : SingleText s.toList)
      (hinline : Inline (singleBody indent false s.toList))
      (hlength : (singleBody indent false s.toList).length ≤ 1000)
      (hchars : keyChars indent s = '\'' :: singleBody indent false s.toList ++ ['\''])
  | double (hstyle : style s = .double) (hlength : (doubleBody s.toList).length ≤ 1000)
      (hchars : keyChars indent s = '"' :: doubleBody s.toList ++ ['"'])

theorem keyBody {s : String} (h : isSimpleKey s = true) (indent : Nat) : KeyBody s indent := by
  obtain ⟨hbytes, hunbroken, -⟩ := isSimpleKey_iff.mp h
  have hstyled := styled s
  have hkey : keyChars indent s = (scalarChars indent s).dropLast := rfl
  unfold scalarChars at hkey
  have hlast : ∀ (q : Char) (body : List Char), (q :: body ++ [q, '\n']).dropLast = q :: body ++ [q] := by
    intro q body
    rw [show q :: body ++ [q, '\n'] = (q :: body ++ [q]) ++ ['\n'] by simp]
    exact List.dropLast_concat
  cases hstyle : style s with
  | plain =>
    rw [hstyle] at hstyled hkey
    cases hstyled with
    | plain hplain hstart _ =>
      exact .plain hstyle hplain hstart (hkey.trans List.dropLast_concat)
  | single =>
    rw [hstyle] at hstyled hkey
    cases hstyled with
    | single hsingle =>
      have hlength := length_singleBody_le indent hunbroken
      exact .single hstyle hsingle (inline_singleBody indent hsingle hunbroken) (by omega) (hkey.trans (hlast ..))
  | double =>
    rw [hstyle] at hkey
    have hlength := length_doubleBody_le s
    exact .double hstyle (by omega) (hkey.trans (hlast ..))
  | literal =>
    rw [hstyle] at hstyled
    cases hstyled with
    | literal hnewline _ => exact absurd (hunbroken _ hnewline) (by decide)

theorem length_keyChars_le {s : String} (h : isSimpleKey s = true) (indent : Nat) :
    (keyChars indent s).length ≤ 1024 := by
  cases keyBody h indent with
  | plain _ _ _ hchars =>
    have hlength := length_flatMap_le (fun c => [c]) (fun c => by have := c.utf8Size_pos; simp; omega) s
    have hbytes := (isSimpleKey_iff.mp h).1
    rw [hchars]
    simp only [List.flatMap_singleton'] at hlength
    omega
  | single _ _ _ hlength hchars =>
    rw [hchars]
    simp
    omega
  | double _ hlength hchars =>
    rw [hchars]
    simp
    omega

namespace Scan
variable {ts : List Token} {indent : Nat} {outer : List Nat} {line column : Nat} {z : List Char}

theorem reaches_quotedKey (h : indent ≤ column + 1) (single : Bool) {body : List Char} (hbody : Inline body)
    {text : String} (hread : ∀ fuel, body.length < fuel →
      quotedText single fuel (cellsFrom line (column + 1) (body ++ (if single then '\'' else '"') :: z)) =
        some (text.toList, cellsFrom line (column + 1 + body.length + 1) z)) :
    Reaches (inBlock ts indent outer none true
        (cellsFrom line column ((if single then '\'' else '"') :: body ++ [if single then '\'' else '"'] ++ z)))
      (inBlock (.scalar .quoted text :: ts) indent outer (some ⟨ts.length, line, column, indent == column + 1⟩) false
        (cellsFrom line
          (column + ((if single then '\'' else '"') :: body ++ [if single then '\'' else '"']).length) z)) := by
  have hquote : isBreak (if single then '\'' else '"') = false := by cases single <;> decide
  have hassoc : (if single then '\'' else '"') :: body ++ [if single then '\'' else '"'] ++ z =
      (if single then '\'' else '"') :: (body ++ (if single then '\'' else '"') :: z) := by simp
  have hplace : column + ((if single then '\'' else '"') :: body ++ [if single then '\'' else '"']).length =
      column + 1 + body.length + 1 := by
    simp
    omega
  have hlength : (cellsFrom line (column + 1) (body ++ (if single then '\'' else '"') :: z)).length =
      body.length + ((cellsFrom line (column + 1 + body.length + 1) z).length + 1) := by
    rw [length_cellsFrom_append hbody.kept _ _ line (column + 1 + body.length), cellsFrom_inline hquote,
      List.length_cons]
  rw [hassoc, cellsFrom_inline hquote, hplace]
  exact reaches_quoted h single (fun fuel hfuel => hread fuel (by omega)) (by omega)

/-- A simple key is one token, and its colon comes. -/
theorem reaches_keyText (h : indent ≤ column + 1) {s : String} (hs : isSimpleKey s = true)
    (hz : z.head?.all isGapChar = true) :
    Reaches (inBlock ts indent outer none true (cellsFrom line column (keyChars (column + 2) s ++ ':' :: z)))
      (inBlock (textToken s :: ts) indent outer (some ⟨ts.length, line, column, indent == column + 1⟩) false
        (cellsFrom line (column + (keyChars (column + 2) s).length) (':' :: z))) := by
  unfold textToken
  cases keyBody hs (column + 2) with
  | plain hstyle hplain hstart hchars =>
    rw [hchars, hstyle]
    refine reaches_plain h hplain hstart (.inl rfl) (fun fuel hfuel => plainText_key indent line hplain h hfuel hz) ?_
    rw [length_cellsFrom_append hplain.inline.kept _ _ line (column + s.toList.length)]
    have hne := List.length_pos_of_ne_nil hplain.ne_nil
    omega
  | single hstyle hsingle hinline _ hchars =>
    rw [hchars, hstyle]
    refine reaches_quotedKey h true hinline fun fuel hfuel => ?_
    have hcolon : (':' :: z).head? ≠ some '\'' := by simp
    have hread := quotedText_singleBody (Nat.succ_ne_zero (column + 1)) hcolon hsingle fuel line
      (Nat.succ_ne_zero column) hfuel
    rwa [hinline.lineAfter, hinline.columnAfter] at hread
  | double hstyle _ hchars =>
    rw [hchars, hstyle]
    refine reaches_quotedKey h false (inline_doubleBody s.toList) fun fuel hfuel => ?_
    exact quotedText_doubleBody line s.toList _ (by omega) hfuel

end Scan

end ApiDocs.Yaml
