import ApiDocs.Proofs.Yaml.Cells
import ApiDocs.Yaml.Token.Scan

/-!
# Runs of the scanner

A text is scanned piece by piece. A state reaches another one when scanning from the first gives what
scanning from the second gives, with fuel for the characters that are left in both. One token, a gap, a
place of a key that is out of date and the end of a block are a step each.
-/

namespace ApiDocs.Yaml

/-- How many cells there are does not depend on where they begin. -/
theorem length_cellsFrom_eq (l k l' k' : Nat) (cs : List Char) :
    (cellsFrom l k cs).length = (cellsFrom l' k' cs).length := by
  fun_induction cellsFrom l k cs generalizing l' k' with
  | case1 line column cs ih => simp [cellsFrom, ih (l' + 1) 0]
  | case2 line column c cs hcr hb ih =>
    rw [cellsFrom, if_pos hb]
    · simp [ih (l' + 1) 0]
    · exact hcr
  | case3 line column c cs hcr hb ih =>
    rw [cellsFrom, if_neg hb]
    · simp [ih l' (k' + 1)]
    · exact hcr
  | case4 => simp [cellsFrom]

theorem length_cellsFrom_append {a : List Char} (ha : Kept a) (l k l' k' : Nat) (b : List Char) :
    (cellsFrom l k (a ++ b)).length = a.length + (cellsFrom l' k' b).length := by
  rw [cellsFrom_append ha, List.length_append, length_cellsFrom ha]
  exact congrArg (a.length + ·) (length_cellsFrom_eq ..)

theorem length_lineCells_le (line l k : Nat) (cs : List Char) :
    (lineCells line cs).length ≤ (cellsFrom l k cs).length := by
  rw [length_cellsFrom_eq l k line 0]
  exact (List.dropWhile_sublist _).length_le

namespace Scan

/-! ## Reaching -/

def Reaches (s s' : Scan) : Prop :=
  ∀ fuel, s.rest.length < fuel → ∃ fuel', s'.rest.length < fuel' ∧ all? fuel s = all? fuel' s'

theorem Reaches.refl (s : Scan) : Reaches s s := fun fuel h => ⟨fuel, h, rfl⟩

theorem Reaches.trans {a b c : Scan} (h : Reaches a b) (h' : Reaches b c) : Reaches a c := by
  intro fuel hfuel
  obtain ⟨fuel₁, hfuel₁, h₁⟩ := h fuel hfuel
  obtain ⟨fuel₂, hfuel₂, h₂⟩ := h' fuel₁ hfuel₁
  exact ⟨fuel₂, hfuel₂, h₁.trans h₂⟩

/-- Scanning goes on alike from states that differ in a gap in front. -/
theorem reaches_gap {s : Scan} (keyAllowed : Bool) {rest : List Cell}
    (h : skipGaps s.inFlow s.keyAllowed false s.rest = skipGaps s.inFlow keyAllowed false rest)
    (hlength : rest.length ≤ s.rest.length) : Reaches s { s with keyAllowed, rest } := by
  intro fuel hfuel
  refine ⟨fuel, Nat.lt_of_le_of_lt hlength hfuel, ?_⟩
  cases fuel with
  | zero => rfl
  | succ fuel =>
    rw [all?, all?, h]
    rfl

theorem all?_nil (fuel : Nat) {s : Scan} (h : s.rest = []) :
    all? (fuel + 1) s = (s.closeBlocks 0).dropKey?.map (·.tokens.reverse) := by
  obtain ⟨rest, tokens, count, flowLevel, indent, outerIndents, keys, keyAllowed⟩ := s
  subst h
  rw [all?]
  simp only [skipGaps]
  exact Option.map_eq_bind.symm

theorem all?_cons (fuel : Nat) {s : Scan} {c : Cell} {next : List Cell} (hrest : s.rest = c :: next)
    (hgap : isGapChar c.char = false) (hhash : c.char ≠ '#') :
    all? (fuel + 1) s = s.dropStaleKeys?.bind fun s =>
      ((s.closeBlocks (c.column + 1)).token? (fuel + 1) c next).bind (all? fuel) := by
  obtain ⟨hspace, htab, hbreak⟩ := isGapChar_eq_false_iff.mp hgap
  obtain ⟨rest, tokens, count, flowLevel, indent, outerIndents, keys, keyAllowed⟩ := s
  subst hrest
  rw [all?]
  simp [skipGaps, hbreak, hspace, htab, hhash]

theorem reaches_token {s s' : Scan} {c : Cell} {next : List Cell} (hrest : s.rest = c :: next)
    (hgap : isGapChar c.char = false) (hhash : c.char ≠ '#') (hkeys : s.dropStaleKeys? = some s)
    (hblocks : s.closeBlocks (c.column + 1) = s)
    (htoken : ∀ fuel, s.rest.length < fuel → s.token? fuel c next = some s')
    (hlength : s'.rest.length < s.rest.length) : Reaches s s' := by
  intro fuel hfuel
  obtain ⟨fuel, rfl⟩ : ∃ k, fuel = k + 1 := ⟨fuel - 1, by omega⟩
  refine ⟨fuel, by omega, ?_⟩
  rw [all?_cons fuel hrest hgap hhash, hkeys, Option.bind_some, hblocks, htoken _ hfuel, Option.bind_some]

/-! ## States in blocks -/

def inBlock (ts : List Token) (indent : Nat) (outer : List Nat) (key : Option KeyPlace) (keyAllowed : Bool)
    (rest : List Cell) : Scan where
  rest := rest
  tokens := ts
  count := ts.length
  indent := indent
  outerIndents := outer
  keys := [key]
  keyAllowed := keyAllowed

section
variable {ts : List Token} {indent : Nat} {outer : List Nat} {key : Option KeyPlace} {keyAllowed : Bool}
  {rest : List Cell}

theorem closeBlocks_self {n : Nat} (h : indent ≤ n) :
    (inBlock ts indent outer key keyAllowed rest).closeBlocks n =
      inBlock ts indent outer key keyAllowed rest := by
  unfold closeBlocks inBlock
  cases outer with
  | nil => simp [inFlow, closeBlocks.go]
  | cons o outer => simp [inFlow, closeBlocks.go, Nat.not_lt.mpr h]

theorem closeBlocks_cons {n o : Nat} (h : n < indent) :
    (inBlock ts indent (o :: outer) key keyAllowed rest).closeBlocks n =
      (inBlock (.blockEnd :: ts) o outer key keyAllowed rest).closeBlocks n := by
  unfold closeBlocks inBlock
  simp [inFlow, closeBlocks.go, h, emit]

variable (ts indent outer keyAllowed rest) in
theorem closeBlocks_exists (n : Nat) : ∃ ts' indent' outer', ∀ key,
    (inBlock ts indent outer key keyAllowed rest).closeBlocks n =
      inBlock ts' indent' outer' key keyAllowed rest := by
  induction outer generalizing ts indent with
  | nil => exact ⟨ts, indent, [], fun key => by simp [closeBlocks, inBlock, inFlow, closeBlocks.go]⟩
  | cons o outer ih =>
    by_cases h : n < indent
    · obtain ⟨ts', indent', outer', ih⟩ := ih (.blockEnd :: ts) o
      exact ⟨ts', indent', outer', fun key => (closeBlocks_cons h).trans (ih key)⟩
    · exact ⟨ts, indent, o :: outer, fun key => closeBlocks_self (Nat.not_lt.mp h)⟩

theorem dropStaleKeys?_none : (inBlock ts indent outer none keyAllowed rest).dropStaleKeys? =
    some (inBlock ts indent outer none keyAllowed rest) := by
  unfold dropStaleKeys? inBlock
  cases rest <;> simp

end

section
variable {ts : List Token} {indent n : Nat} {outer : List Nat} {keyAllowed : Bool} {tail : List Char}
  (htail : Below n tail)
include htail

/-- The place of a key on a line above is out of date. -/
theorem reaches_forget {k : KeyPlace} {line : Nat} (hk : k.required = false) (hline : k.line < line) :
    Reaches (inBlock ts indent outer (some k) keyAllowed (lineCells line tail))
      (inBlock ts indent outer none keyAllowed (lineCells line tail)) := by
  intro fuel hfuel
  refine ⟨fuel, hfuel, ?_⟩
  cases fuel with
  | zero => rfl
  | succ fuel =>
    rcases htail.lineCells line with h | ⟨m, c, rest, h, -, hgap, hhash⟩
    · obtain ⟨ts', indent', outer', hclose⟩ := closeBlocks_exists ts indent outer keyAllowed [] 0
      rw [h, all?_nil fuel rfl, all?_nil fuel rfl, hclose, hclose]
      simp [dropKey?, inBlock, hk]
    · have hstale : KeyPlace.isStale k ⟨c, line, m⟩ = true := by
        simp [KeyPlace.isStale, hline]
      rw [h, all?_cons fuel rfl hgap hhash, all?_cons fuel rfl hgap hhash, dropStaleKeys?_none]
      simp [dropStaleKeys?, inBlock, hstale, hk]

/-- A block ends where something begins further left. -/
theorem reaches_close {o line : Nat} (h : n < indent) :
    Reaches (inBlock ts indent (o :: outer) none keyAllowed (lineCells line tail))
      (inBlock (.blockEnd :: ts) o outer none keyAllowed (lineCells line tail)) := by
  intro fuel hfuel
  refine ⟨fuel, hfuel, ?_⟩
  cases fuel with
  | zero => rfl
  | succ fuel =>
    rcases htail.lineCells line with hcells | ⟨m, c, rest, hcells, hm, hgap, hhash⟩
    · rw [hcells, all?_nil fuel rfl, all?_nil fuel rfl, closeBlocks_cons (by omega)]
    · rw [hcells, all?_cons fuel rfl hgap hhash, all?_cons fuel rfl hgap hhash, dropStaleKeys?_none,
        dropStaleKeys?_none, Option.bind_some, Option.bind_some, closeBlocks_cons (by simp; omega)]

end

/-! ## Gaps -/

theorem skipGaps_spaces (flow keyAllowed : Bool) (cs : List Cell) :
    skipGaps flow keyAllowed false (cs.dropWhile fun c => c.char == ' ') =
      skipGaps flow keyAllowed false cs := by
  induction cs with
  | nil => rfl
  | cons c cs ih =>
    by_cases hc : c.char = ' '
    · have hbreak : isBreak c.char = false := by
        rw [hc]
        decide
      rw [List.dropWhile_cons_of_pos (by simp [hc]), ih, skipGaps.eq_2, hbreak]
      simp [hc]
    · rw [List.dropWhile_cons_of_neg (by simp [hc])]

section
variable {ts : List Token} {indent : Nat} {outer : List Nat} {key : Option KeyPlace} {keyAllowed : Bool}
  {line column : Nat}

theorem reaches_blank (cs : List Char) :
    Reaches (inBlock ts indent outer key keyAllowed (cellsFrom line column (' ' :: cs)))
      (inBlock ts indent outer key keyAllowed (cellsFrom line (column + 1) cs)) := by
  refine reaches_gap keyAllowed ?_ ?_
  · simp only [inBlock]
    rw [cellsFrom_inline (by decide), skipGaps.eq_2]
    simp [isBreak]
  · simp only [inBlock]
    rw [cellsFrom_inline (by decide)]
    simp

theorem reaches_newline (cs : List Char) :
    Reaches (inBlock ts indent outer key keyAllowed (cellsFrom line column ('\n' :: cs)))
      (inBlock ts indent outer key true (lineCells (line + 1) cs)) := by
  have hlength := length_lineCells_le (line + 1) (line + 1) 0 cs
  refine reaches_gap true ?_ ?_
  · simp only [inBlock]
    rw [lineCells, skipGaps_spaces, cellsFrom_break (by decide), skipGaps.eq_2]
    simp [isBreak, inFlow]
  · simp only [inBlock]
    rw [cellsFrom_break (by decide), List.length_cons]
    omega

end

/-! ## Tokens of collections -/

/-- The tokens before a token of a block that begins at a column, and the indentations around it. -/
def opened (indent column : Nat) (t : Token) (ts : List Token) : List Token :=
  if indent < column + 1 then t :: ts else ts

def enclosing (indent column : Nat) (outer : List Nat) : List Nat :=
  if indent < column + 1 then indent :: outer else outer

section
variable {ts : List Token} {indent : Nat} {outer : List Nat} {line column : Nat} (h : indent ≤ column + 1)
include h

theorem openBlock_inBlock {key : Option KeyPlace} {keyAllowed : Bool} {rest : List Cell} (t : Token) :
    (inBlock ts indent outer key keyAllowed rest).openBlock column (·.emit t) =
      inBlock (opened indent column t ts) (column + 1) (enclosing indent column outer) key keyAllowed rest := by
  unfold openBlock opened enclosing
  by_cases hi : indent < column + 1
  · simp [inFlow, inBlock, hi, emit]
  · obtain rfl : indent = column + 1 := by omega
    simp [inFlow, inBlock]

/-- The next token in a block. -/
theorem reaches_inBlock {keyAllowed : Bool} {c : Char} (hgap : isGapChar c = false) (hhash : c ≠ '#')
    {next : List Cell} {s' : Scan}
    (htoken : ∀ fuel, next.length < fuel →
      (inBlock ts indent outer none keyAllowed (⟨c, line, column⟩ :: next)).token? fuel ⟨c, line, column⟩ next =
        some s')
    (hlength : s'.rest.length ≤ next.length) :
    Reaches (inBlock ts indent outer none keyAllowed (⟨c, line, column⟩ :: next)) s' := by
  refine reaches_token rfl hgap hhash dropStaleKeys?_none (closeBlocks_self h) ?_ (Nat.lt_succ_of_le hlength)
  intro fuel hfuel
  exact htoken fuel (Nat.lt_of_succ_lt hfuel)

/-- A mark of a block, with a blank after it. -/
theorem reaches_mark {c : Char} (hgap : isGapChar c = false) (hhash : c ≠ '#') {ts' : List Token}
    {indent' : Nat} {outer' : List Nat}
    (htoken : ∀ fuel next, atGap next = true →
      (inBlock ts indent outer none true (⟨c, line, column⟩ :: next)).token? fuel ⟨c, line, column⟩ next =
        some (inBlock ts' indent' outer' none true next)) (cs : List Char) :
    Reaches (inBlock ts indent outer none true (cellsFrom line column (c :: ' ' :: cs)))
      (inBlock ts' indent' outer' none true (cellsFrom line (column + 2) cs)) := by
  refine Reaches.trans ?_ (reaches_blank cs)
  rw [cellsFrom_inline (isGapChar_eq_false_iff.mp hgap).2.2]
  exact reaches_inBlock h hgap hhash (fun fuel _ => htoken fuel _ (atGap_cellsFrom ..)) (Nat.le_refl _)

theorem reaches_item (cs : List Char) :
    Reaches (inBlock ts indent outer none true (cellsFrom line column ('-' :: ' ' :: cs)))
      (inBlock (.item :: opened indent column .blockSequence ts) (column + 1) (enclosing indent column outer)
        none true (cellsFrom line (column + 2) cs)) := by
  refine reaches_mark h (by decide) (by decide) (fun fuel next hgap => ?_) cs
  have hitem : (inBlock ts indent outer none true (⟨'-', line, column⟩ :: next)).item? =
      some (inBlock (.item :: opened indent column .blockSequence ts) (column + 1)
        (enclosing indent column outer) none true next) := by
    have hcolumn : (inBlock ts indent outer none true (⟨'-', line, column⟩ :: next)).column = column := rfl
    rw [item?, hcolumn, openBlock_inBlock h]
    simp [inBlock, inFlow, dropKey?, skip, emit]
  rw [← hitem]
  unfold token?
  have hdash : isGapChar '-' = false := by decide
  have hdot : isGapChar '.' = false := by decide
  simp [inBlock, hgap, atDocumentMark_of_gap hdash hgap, atDocumentMark_of_gap hdot hgap]

/-- A key on lines of its own. -/
theorem reaches_questionMark (cs : List Char) :
    Reaches (inBlock ts indent outer none true (cellsFrom line column ('?' :: ' ' :: cs)))
      (inBlock (.key :: opened indent column .blockMapping ts) (column + 1) (enclosing indent column outer)
        none true (cellsFrom line (column + 2) cs)) := by
  refine reaches_mark h (by decide) (by decide) (fun fuel next hgap => ?_) cs
  have hkey : (inBlock ts indent outer none true (⟨'?', line, column⟩ :: next)).key? =
      some (inBlock (.key :: opened indent column .blockMapping ts) (column + 1)
        (enclosing indent column outer) none true next) := by
    have hcolumn : (inBlock ts indent outer none true (⟨'?', line, column⟩ :: next)).column = column := rfl
    rw [key?, hcolumn, openBlock_inBlock h]
    simp [inBlock, inFlow, dropKey?, skip, emit]
  rw [← hkey]
  unfold token?
  simp [inBlock, hgap, atDocumentMark_of_ne]

/-- The colon of a key that has just been read. -/
theorem reaches_colon {t : Token} {required : Bool} {k : Nat} (hk : column ≤ k) (hk' : k ≤ column + 1024)
    {cs : List Char} (hcs : cs.head?.all isGapChar = true) :
    Reaches
      (inBlock (t :: ts) indent outer (some ⟨ts.length, line, column, required⟩) false
        (cellsFrom line k (':' :: cs)))
      (inBlock (.value :: t :: .key :: opened indent column .blockMapping ts) (column + 1)
        (enclosing indent column outer) none false (cellsFrom line (k + 1) cs)) := by
  rw [cellsFrom_inline (by decide)]
  have hgap : atGap (cellsFrom line (k + 1) cs) = true := (atGap_cellsFrom ..).trans hcs
  refine reaches_token (c := ⟨':', line, k⟩) rfl (by simp; decide) (by simp) ?_
    (closeBlocks_self (by simp; omega)) ?_ (Nat.lt_succ_self _)
  · have hstale : KeyPlace.isStale ⟨ts.length, line, column, required⟩ ⟨':', line, k⟩ = false := by
      simp [KeyPlace.isStale]
      omega
    simp [dropStaleKeys?, inBlock, hstale]
  · intro fuel _
    -- the mark of the key goes before its token, and the mark of the mapping before both
    have hlater' : ts.length + 1 + 1 - ts.length = 2 := by omega
    unfold token?
    simp only [inBlock, hgap]
    by_cases hi : indent < column + 1
    · simp [atDocumentMark_of_ne, value?, insertAt, openBlock, inFlow, skip, emit, opened, enclosing, hi,
        hlater']
    · obtain rfl : indent = column + 1 := by omega
      simp [atDocumentMark_of_ne, value?, insertAt, openBlock, inFlow, skip, emit, opened, enclosing]

end

/-- The colon on a line of its own. -/
theorem reaches_ownColon {ts : List Token} {outer : List Nat} {line column : Nat} (cs : List Char) :
    Reaches (inBlock ts (column + 1) outer none true (cellsFrom line column (':' :: ' ' :: cs)))
      (inBlock (.value :: ts) (column + 1) outer none true (cellsFrom line (column + 2) cs)) := by
  refine reaches_mark (Nat.le_refl _) (by decide) (by decide) (fun fuel next hgap => ?_) cs
  unfold token?
  simp [inBlock, hgap, atDocumentMark_of_ne, value?, inFlow, openBlock, Scan.column, skip, emit]

end Scan

end ApiDocs.Yaml
