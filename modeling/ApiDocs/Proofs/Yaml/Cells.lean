import ApiDocs.Yaml.Cell
import ApiDocs.Yaml.Write
import Mathlib.Data.List.Basic

/-!
# Characters of a written text in their places

A written text holds no carriage return and no next-line character, so every character is read as it
is, and the cells of two texts one after the other are the cells of the first and those of the second
at the place where the first ends.
-/

namespace ApiDocs.Yaml

/-! ## Classes -/

theorem isBreak_iff {c : Char} : isBreak c = true ↔
    c = '\n' ∨ c = '\r' ∨ c.toNat = 0x85 ∨ c.toNat = 0x2028 ∨ c.toNat = 0x2029 := by
  simp [isBreak, or_assoc]

theorem isPrintedBreak_iff {c : Char} :
    isPrintedBreak c = true ↔ c = '\n' ∨ c.toNat = 0x2028 ∨ c.toNat = 0x2029 := by
  simp [isPrintedBreak, or_assoc]

theorem breakChar_eq_self_iff {c : Char} : breakChar c = c ↔ c ≠ '\r' ∧ c.toNat ≠ 0x85 := by
  unfold breakChar
  constructor
  · intro h
    split at h
    · subst h
      decide
    · rename_i hc
      simpa [not_or] using hc
  · rintro ⟨hr, hn⟩
    simp [hr, hn]

theorem isBreak_of_isPrintedBreak {c : Char} (h : isPrintedBreak c = true) : isBreak c = true := by
  rw [isBreak_iff]
  rw [isPrintedBreak_iff] at h
  tauto

theorem breakChar_of_isPrintedBreak {c : Char} (h : isPrintedBreak c = true) : breakChar c = c := by
  rw [breakChar_eq_self_iff]
  rw [isPrintedBreak_iff] at h
  rcases h with rfl | h | h
  · decide
  · exact ⟨by rintro rfl; revert h; decide, by omega⟩
  · exact ⟨by rintro rfl; revert h; decide, by omega⟩

theorem breakChar_of_not_isBreak {c : Char} (h : isBreak c = false) : breakChar c = c := by
  rw [breakChar_eq_self_iff]
  rw [Bool.eq_false_iff, Ne, isBreak_iff] at h
  tauto

theorem isGapChar_eq_false_iff {c : Char} :
    isGapChar c = false ↔ c ≠ ' ' ∧ c ≠ '\t' ∧ isBreak c = false := by
  simp [isGapChar, isSpaceOrTab, and_assoc]

theorem isGapChar_of_isBreak {c : Char} (h : isBreak c = true) : isGapChar c = true := by
  simp [isGapChar, h]

theorem isBreak_of_isPrintable {c : Char} (h : isPrintable c = true) : isBreak c = isPrintedBreak c := by
  have hr : c ≠ '\r' := by rintro rfl; revert h; decide
  have hn : c.toNat ≠ 0x85 := by
    intro hn
    simp [isPrintable, hn] at h
  rw [Bool.eq_iff_iff, isBreak_iff, isPrintedBreak_iff]
  tauto

theorem breakChar_of_isPrintable {c : Char} (h : isPrintable c = true) : breakChar c = c := by
  by_cases hb : isBreak c = true
  · exact breakChar_of_isPrintedBreak (isBreak_of_isPrintable h ▸ hb)
  · exact breakChar_of_not_isBreak (Bool.eq_false_iff.mpr hb)

theorem ne_tab_of_isPrintable {c : Char} (h : isPrintable c = true) : c ≠ '\t' := by
  rintro rfl
  revert h
  decide

theorem isAdmitted_of_isPrintable {c : Char} (h : isPrintable c = true) : isAdmitted c = true := by
  simp only [isPrintable, isAdmitted, Bool.or_eq_true, Bool.and_eq_true, beq_iff_eq, bne_iff_ne,
    decide_eq_true_eq] at h ⊢
  tauto

/-! ## Places -/

def nextLine (line : Nat) (c : Char) : Nat := if isBreak c then line + 1 else line

def nextColumn (column : Nat) (c : Char) : Nat := if isBreak c then 0 else column + 1

def lineAfter (line : Nat) (cs : List Char) : Nat := cs.foldl nextLine line

def columnAfter (column : Nat) (cs : List Char) : Nat := cs.foldl nextColumn column

def Kept (cs : List Char) : Prop := ∀ c ∈ cs, breakChar c = c

def Inline (cs : List Char) : Prop := ∀ c ∈ cs, isBreak c = false

instance : DecidablePred Inline := fun cs =>
  decidable_of_iff (cs.all (!isBreak ·) = true) (by simp [Inline])

theorem Inline.kept {cs : List Char} (h : Inline cs) : Kept cs :=
  fun c hc => breakChar_of_not_isBreak (h c hc)

theorem Inline.append {a b : List Char} (ha : Inline a) (hb : Inline b) : Inline (a ++ b) := by
  intro c hc
  rcases List.mem_append.mp hc with h | h
  · exact ha c h
  · exact hb c h

theorem inline_spaces (n : Nat) : Inline (spaces n) := by
  intro c hc
  rw [List.eq_of_mem_replicate hc]
  decide

@[simp] theorem length_spaces (n : Nat) : (spaces n).length = n := List.length_replicate

theorem lineAfter_append (line : Nat) (a b : List Char) :
    lineAfter line (a ++ b) = lineAfter (lineAfter line a) b := List.foldl_append

theorem columnAfter_append (column : Nat) (a b : List Char) :
    columnAfter column (a ++ b) = columnAfter (columnAfter column a) b := List.foldl_append

theorem lineAfter_cons {c : Char} (h : isBreak c = false) (line : Nat) (cs : List Char) :
    lineAfter line (c :: cs) = lineAfter line cs := by
  simp [lineAfter, nextLine, h]

theorem columnAfter_cons {c : Char} (h : isBreak c = false) (column : Nat) (cs : List Char) :
    columnAfter column (c :: cs) = columnAfter (column + 1) cs := by
  simp [columnAfter, nextColumn, h]

theorem columnAfter_breaks {bs : List Char} (hne : bs ≠ []) (h : ∀ b ∈ bs, isBreak b = true)
    (column : Nat) : columnAfter column bs = 0 := by
  induction bs generalizing column with
  | nil => exact absurd rfl hne
  | cons b bs ih =>
    have hb : nextColumn column b = 0 := by simp [nextColumn, h b (List.mem_cons_self ..)]
    by_cases hbs : bs = []
    · simp [columnAfter, hbs, hb]
    · exact ih hbs (fun c hc => h c (List.mem_cons_of_mem _ hc)) _

theorem lineAfter_breaks {bs : List Char} (h : ∀ b ∈ bs, isBreak b = true) (line : Nat) :
    lineAfter line bs = line + bs.length := by
  induction bs generalizing line with
  | nil => rfl
  | cons b bs ih =>
    have hb : nextLine line b = line + 1 := by simp [nextLine, h b (List.mem_cons_self ..)]
    change lineAfter (nextLine line b) bs = _
    rw [hb, ih fun c hc => h c (List.mem_cons_of_mem _ hc), List.length_cons]
    omega

theorem le_lineAfter (line : Nat) (cs : List Char) : line ≤ lineAfter line cs := by
  induction cs generalizing line with
  | nil => exact Nat.le_refl line
  | cons c cs ih =>
    have hc : line ≤ nextLine line c := by
      unfold nextLine
      split <;> omega
    exact Nat.le_trans hc (ih (nextLine line c))

theorem Inline.lineAfter {cs : List Char} (h : Inline cs) (line : Nat) : lineAfter line cs = line := by
  induction cs generalizing line with
  | nil => rfl
  | cons c cs ih =>
    have hc : nextLine line c = line := by simp [nextLine, h c (by simp)]
    change Yaml.lineAfter (nextLine line c) cs = line
    rw [hc, ih fun d hd => h d (List.mem_cons_of_mem _ hd)]

theorem Inline.columnAfter {cs : List Char} (h : Inline cs) (column : Nat) :
    columnAfter column cs = column + cs.length := by
  induction cs generalizing column with
  | nil => rfl
  | cons c cs ih =>
    have hc : nextColumn column c = column + 1 := by simp [nextColumn, h c (by simp)]
    change Yaml.columnAfter (nextColumn column c) cs = _
    rw [hc, ih fun d hd => h d (List.mem_cons_of_mem _ hd), List.length_cons]
    omega

/-! ## Printed characters -/

def Printable (cs : List Char) : Prop := ∀ c ∈ cs, isPrintable c = true

instance : DecidablePred Printable := fun cs =>
  decidable_of_iff (cs.all isPrintable = true) List.all_eq_true

theorem Printable.kept {cs : List Char} (h : Printable cs) : Kept cs :=
  fun c hc => breakChar_of_isPrintable (h c hc)

theorem printable_nil : Printable [] := fun _ hc => absurd hc List.not_mem_nil

theorem printable_append {a b : List Char} : Printable (a ++ b) ↔ Printable a ∧ Printable b :=
  List.forall_mem_append

theorem printable_cons {c : Char} {cs : List Char} : Printable (c :: cs) ↔ isPrintable c = true ∧ Printable cs :=
  List.forall_mem_cons

theorem printable_spaces (n : Nat) : Printable (spaces n) := by
  intro c hc
  rw [List.eq_of_mem_replicate hc]
  decide

/-! ## Cells -/

@[simp] theorem cellsFrom_nil (line column : Nat) : cellsFrom line column [] = [] := rfl

theorem cellsFrom_cons {c : Char} (h : breakChar c = c) (line column : Nat) (cs : List Char) :
    cellsFrom line column (c :: cs) =
      ⟨c, line, column⟩ :: cellsFrom (nextLine line c) (nextColumn column c) cs := by
  have hr : c ≠ '\r' := (breakChar_eq_self_iff.mp h).1
  rw [cellsFrom]
  · by_cases hb : isBreak c = true
    · simp [hb, h, nextLine, nextColumn]
    · simp [hb, nextLine, nextColumn]
  · intro _ hc
    exact absurd hc hr

theorem cellsFrom_inline {c : Char} (h : isBreak c = false) (line column : Nat) (cs : List Char) :
    cellsFrom line column (c :: cs) = ⟨c, line, column⟩ :: cellsFrom line (column + 1) cs := by
  rw [cellsFrom_cons (breakChar_of_not_isBreak h)]
  simp [nextLine, nextColumn, h]

theorem cellsFrom_break {c : Char} (h : isPrintedBreak c = true) (line column : Nat) (cs : List Char) :
    cellsFrom line column (c :: cs) = ⟨c, line, column⟩ :: cellsFrom (line + 1) 0 cs := by
  rw [cellsFrom_cons (breakChar_of_isPrintedBreak h)]
  simp [nextLine, nextColumn, isBreak_of_isPrintedBreak h]

theorem cellsFrom_append {a : List Char} (ha : Kept a) (line column : Nat) (b : List Char) :
    cellsFrom line column (a ++ b) =
      cellsFrom line column a ++ cellsFrom (lineAfter line a) (columnAfter column a) b := by
  induction a generalizing line column with
  | nil => rfl
  | cons c a ih =>
    have hc : breakChar c = c := ha c (List.mem_cons_self ..)
    rw [List.cons_append, cellsFrom_cons hc, cellsFrom_cons hc, List.cons_append,
      ih fun d hd => ha d (List.mem_cons_of_mem _ hd)]
    rfl

theorem cellsFrom_inline_append {a : List Char} (ha : Inline a) (line column : Nat) (b : List Char) :
    cellsFrom line column (a ++ b) =
      cellsFrom line column a ++ cellsFrom line (column + a.length) b := by
  rw [cellsFrom_append ha.kept, ha.lineAfter, ha.columnAfter]

theorem chars_cellsFrom {cs : List Char} (h : Kept cs) (line column : Nat) :
    chars (cellsFrom line column cs) = cs := by
  induction cs generalizing line column with
  | nil => rfl
  | cons c cs ih =>
    rw [cellsFrom_cons (h c (List.mem_cons_self ..))]
    exact congrArg (c :: ·) (ih (fun d hd => h d (List.mem_cons_of_mem _ hd)) _ _)

theorem length_cellsFrom {cs : List Char} (h : Kept cs) (line column : Nat) :
    (cellsFrom line column cs).length = cs.length := by
  rw [← List.length_map (f := (·.char))]
  exact congrArg List.length (chars_cellsFrom h line column)

theorem char_of_mem_cellsFrom {cs : List Char} (h : Kept cs) {line column : Nat} {c : Cell}
    (hc : c ∈ cellsFrom line column cs) : c.char ∈ cs := by
  rw [← chars_cellsFrom h line column]
  exact List.mem_map.mpr ⟨c, hc, rfl⟩

/-- The first cell of characters, whatever comes after it. -/
theorem cellsFrom_cons_exists (line column : Nat) (c : Char) (cs : List Char) :
    ∃ d l k rest, cellsFrom line column (c :: cs) = ⟨d, line, column⟩ :: cellsFrom l k rest ∧
      (isBreak c = false → d = c) ∧ (isBreak c = true → isBreak d = true) := by
  by_cases hr : c = '\r'
  · subst hr
    cases cs with
    | nil => exact ⟨'\n', line + 1, 0, [], by simp [cellsFrom, isBreak, breakChar], by decide, by decide⟩
    | cons d cs =>
      by_cases hd : d = '\n'
      · subst hd
        exact ⟨'\n', line + 1, 0, cs, by simp [cellsFrom], by decide, by decide⟩
      · refine ⟨'\n', line + 1, 0, d :: cs, ?_, by decide, by decide⟩
        rw [cellsFrom]
        · rfl
        · intro cs' _ he
          exact hd (List.cons.inj he).1
  · by_cases hb : isBreak c = true
    · refine ⟨breakChar c, line + 1, 0, cs, ?_, by simp [hb], fun _ => ?_⟩
      · rw [cellsFrom]
        · simp [hb]
        · exact fun _ h => absurd h hr
      · unfold breakChar
        split
        · decide
        · exact hb
    · have hb := Bool.eq_false_iff.mpr hb
      exact ⟨c, line, column + 1, cs, cellsFrom_inline hb .., fun _ => rfl, by simp [hb]⟩

theorem head?_cellsFrom_any {q : Char} (hq : isBreak q = false) (line column : Nat) (cs : List Char) :
    (cellsFrom line column cs).head?.any (fun c => c.char == q) = (cs.head? == some q) := by
  cases cs with
  | nil => rfl
  | cons c cs =>
    obtain ⟨d, l, k, rest, hcells, hinline, hbreak⟩ := cellsFrom_cons_exists line column c cs
    rw [hcells]
    by_cases hb : isBreak c = true
    · have hd : d ≠ q := by
        rintro rfl
        simp [hbreak hb] at hq
      have hc : c ≠ q := by
        rintro rfl
        simp [hb] at hq
      simp [hd, hc]
    · simp [hinline (Bool.eq_false_iff.mpr hb)]

theorem atGap_cellsFrom (line column : Nat) (cs : List Char) :
    atGap (cellsFrom line column cs) = cs.head?.all isGapChar := by
  cases cs with
  | nil => rfl
  | cons c cs =>
    obtain ⟨d, l, k, rest, hcells, hinline, hbreak⟩ := cellsFrom_cons_exists line column c cs
    rw [hcells, atGap]
    by_cases hb : isBreak c = true
    · simp [isGapChar, hbreak hb, hb]
    · simp [hinline (Bool.eq_false_iff.mpr hb)]

/-- No line begins here, so no document begins or ends. -/
theorem atAnyDocumentMark_of_column {column : Nat} (h : column ≠ 0) (c : Char) (line : Nat)
    (cs : List Cell) : atAnyDocumentMark (⟨c, line, column⟩ :: cs) = false := by
  have hmark : ∀ mark, atDocumentMark mark (⟨c, line, column⟩ :: cs) = false := by
    intro mark
    unfold atDocumentMark
    split
    · rename_i he
      cases he
      simp [h]
    · rfl
  simp [atAnyDocumentMark, hmark]

theorem atDocumentMark_of_ne {mark : Char} {c : Cell} (h : c.char ≠ mark) (cs : List Cell) :
    atDocumentMark mark (c :: cs) = false := by
  unfold atDocumentMark
  split
  · rename_i he
    cases he
    simp [h]
  · rfl

theorem atDocumentMark_of_gap {mark : Char} (hmark : isGapChar mark = false) {c : Cell} {cs : List Cell}
    (h : atGap cs = true) : atDocumentMark mark (c :: cs) = false := by
  unfold atDocumentMark
  split
  · rename_i b _ _ he
    cases he
    have hb : b.char ≠ mark := by
      rintro rfl
      rw [atGap, hmark] at h
      exact absurd h (by decide)
    simp [hb]
  · rfl

theorem takeWhile_gap {g : List Char} (hg : ∀ c ∈ g, isGapChar c = true) (hk : Kept g) {x : Char}
    (hx : isGapChar x = false) (line column : Nat) (cs : List Char) :
    (cellsFrom line column (g ++ x :: cs)).takeWhile (fun c => isGapChar c.char) =
        cellsFrom line column g ∧
      (cellsFrom line column (g ++ x :: cs)).dropWhile (fun c => isGapChar c.char) =
        cellsFrom (lineAfter line g) (columnAfter column g) (x :: cs) := by
  have hall : ∀ c ∈ cellsFrom line column g, isGapChar c.char = true :=
    fun c hc => hg c.char (char_of_mem_cellsFrom hk hc)
  have hxb : isBreak x = false := (isGapChar_eq_false_iff.mp hx).2.2
  rw [cellsFrom_append hk, List.takeWhile_append_of_pos hall, List.dropWhile_append_of_pos hall,
    cellsFrom_inline hxb]
  simp [hx]

/-! ## Lines -/

theorem isGapChar_of_mem_spaces {n : Nat} : ∀ c ∈ spaces n, isGapChar c = true := by
  intro c hc
  rw [List.eq_of_mem_replicate hc]
  decide

/-- What comes next begins further left than `n`, if anything comes. -/
def Below (n : Nat) (cs : List Char) : Prop :=
  cs = [] ∨ ∃ m c rest, cs = spaces m ++ c :: rest ∧ m < n ∧ isGapChar c = false ∧ c ≠ '#'

theorem Below.mono {n n' : Nat} {cs : List Char} (h : Below n cs) (hn : n ≤ n') : Below n' cs := by
  rcases h with h | ⟨m, c, rest, hcs, hm, hc⟩
  · exact .inl h
  · exact .inr ⟨m, c, rest, hcs, by omega, hc⟩

/-- The cells of a line and of those after it, without the indentation of the line. -/
def lineCells (line : Nat) (cs : List Char) : List Cell :=
  (cellsFrom line 0 cs).dropWhile fun c => c.char == ' '

@[simp] theorem lineCells_nil (line : Nat) : lineCells line [] = [] := by
  simp [lineCells]

theorem lineCells_spaces {c : Char} (hc : isGapChar c = false) (line m : Nat) (cs : List Char) :
    lineCells line (spaces m ++ c :: cs) = cellsFrom line m (c :: cs) := by
  obtain ⟨hspace, -, hbreak⟩ := isGapChar_eq_false_iff.mp hc
  have hall : ∀ d ∈ cellsFrom line 0 (spaces m), (d.char == ' ') = true := by
    intro d hd
    simpa using List.eq_of_mem_replicate (char_of_mem_cellsFrom (inline_spaces m).kept hd)
  rw [lineCells, cellsFrom_inline_append (inline_spaces m), List.dropWhile_append_of_pos hall,
    length_spaces, Nat.zero_add, cellsFrom_inline hbreak]
  simp [hspace]

theorem Below.lineCells {n : Nat} {cs : List Char} (h : Below n cs) (line : Nat) :
    lineCells line cs = [] ∨ ∃ m c rest, lineCells line cs = ⟨c, line, m⟩ :: rest ∧ m < n ∧
      isGapChar c = false ∧ c ≠ '#' := by
  rcases h with rfl | ⟨m, c, rest, rfl, hm, hgap, hhash⟩
  · exact .inl (lineCells_nil line)
  · refine .inr ⟨m, c, cellsFrom line (m + 1) rest, ?_, hm, hgap, hhash⟩
    rw [lineCells_spaces hgap, cellsFrom_inline (isGapChar_eq_false_iff.mp hgap).2.2]

theorem kept_newline_spaces (m : Nat) : Kept ('\n' :: spaces m) := by
  intro d hd
  rcases List.mem_cons.mp hd with rfl | hd
  · decide
  · exact (inline_spaces m).kept d hd

/-- The gap at the end of a line is the break and the indentation of the next line. -/
theorem takeWhile_gap_line {n : Nat} {tail : List Char} (h : Below n tail) (line column : Nat) :
    ∃ m, (cellsFrom line column ('\n' :: tail)).takeWhile (fun c => isGapChar c.char) =
        cellsFrom line column ('\n' :: spaces m) ∧
      (cellsFrom line column ('\n' :: tail)).dropWhile (fun c => isGapChar c.char) =
        lineCells (line + 1) tail := by
  rcases h with rfl | ⟨m, c, rest, rfl, -, hgap, -⟩
  · refine ⟨0, ?_⟩
    rw [spaces, List.replicate_zero, cellsFrom_break (by decide), lineCells_nil]
    simp [show isGapChar '\n' = true by decide]
  · refine ⟨m, ?_⟩
    have hg : ∀ d ∈ '\n' :: spaces m, isGapChar d = true := by
      intro d hd
      rcases List.mem_cons.mp hd with rfl | hd
      · decide
      · exact isGapChar_of_mem_spaces d hd
    have hsplit := takeWhile_gap hg (kept_newline_spaces m) hgap line column rest
    have hline : lineAfter line ('\n' :: spaces m) = line + 1 := (inline_spaces m).lineAfter (line + 1)
    have hcolumn : columnAfter column ('\n' :: spaces m) = m := by
      have := (inline_spaces m).columnAfter 0
      rwa [length_spaces, Nat.zero_add] at this
    rw [hline, hcolumn] at hsplit
    rwa [lineCells_spaces hgap]

end ApiDocs.Yaml
