import ApiDocs.Proofs.Yaml.Quoted

/-!
# Literal blocks read back

The lines of a literal block begin at its indentation, which is found from the first line or given by a
mark. Breaks between lines stay what they are; those at the end stay as another mark says, and the
marks that are written say what the text ends with.
-/

namespace ApiDocs.Yaml

/-! ## Empty lines -/

theorem emptyLines?_spaces {indent : Nat} (line m k : Nat) (h : indent = 0 ∨ k + m ≤ indent)
    (more : List Char) :
    emptyLines? indent k (cellsFrom line k (spaces m ++ more)) =
      emptyLines? indent (k + m) (cellsFrom line (k + m) more) := by
  induction m generalizing k with
  | zero => rfl
  | succ m ih =>
    have hindenting : (indent == 0 || decide (k < indent)) = true := by
      rcases h with h | h
      · simp [h]
      · simp
        omega
    have hmax : max k (k + 1) = k + 1 := by omega
    have hplace : k + (m + 1) = k + 1 + m := by omega
    change emptyLines? indent k (cellsFrom line k (' ' :: (spaces m ++ more))) = _
    rw [cellsFrom_inline (by decide), emptyLines?]
    simp only [hindenting, beq_self_eq_true, Bool.and_self, if_true, hmax]
    rw [ih (k + 1) (by omega), hplace]

theorem emptyLines?_breaks (indent line : Nat) {bs : List Char} (hb : ∀ b ∈ bs, isPrintedBreak b = true)
    (more : List Char) :
    emptyLines? indent 0 (cellsFrom line 0 (bs ++ more)) =
      (emptyLines? indent 0 (cellsFrom (line + bs.length) 0 more)).map fun r => (r.1, bs ++ r.2.1, r.2.2) := by
  induction bs generalizing line with
  | nil => simp
  | cons b bs ih =>
    have hbreak := hb b (List.mem_cons_self ..)
    have hspace : b ≠ ' ' := by
      rintro rfl
      exact absurd hbreak (by decide)
    have htab : b ≠ '\t' := by
      rintro rfl
      exact absurd hbreak (by decide)
    rw [List.cons_append, cellsFrom_break hbreak, emptyLines?]
    simp only [isBreak_of_isPrintedBreak hbreak, beq_eq_false_iff_ne.mpr hspace, beq_eq_false_iff_ne.mpr htab,
      Bool.and_false, Bool.false_eq_true, if_false, if_true, Nat.max_self, List.length_cons,
      ih (line + 1) fun c hc => hb c (List.mem_cons_of_mem _ hc), Option.map_map]
    rw [Nat.add_right_comm, Nat.add_assoc]
    rfl

theorem emptyLines?_stop {indent : Nat} (line : Nat) {k : Nat} {x : Char} (hbreak : isBreak x = false)
    (h : x ≠ ' ' ∧ x ≠ '\t' ∨ indent ≠ 0 ∧ indent ≤ k) (more : List Char) :
    emptyLines? indent k (cellsFrom line k (x :: more)) = some (k, [], cellsFrom line k (x :: more)) := by
  rw [cellsFrom_inline hbreak, emptyLines?]
  rcases h with ⟨hspace, htab⟩ | ⟨hne, hle⟩
  · simp [hspace, htab, hbreak]
  · simp [hne, Nat.not_lt.mpr hle, hbreak]

/-- Empty lines in front of a line with text. -/
theorem emptyLines?_line {indent : Nat} (h : indent ≠ 0) (line : Nat) {bs : List Char}
    (hb : ∀ b ∈ bs, isPrintedBreak b = true) {x : Char} (hx : isBreak x = false) (more : List Char) :
    emptyLines? indent 0 (cellsFrom line 0 (bs ++ (spaces indent ++ x :: more))) =
      some (indent, bs, cellsFrom (line + bs.length) indent (x :: more)) := by
  rw [emptyLines?_breaks indent line hb, emptyLines?_spaces _ _ _ (.inr (by omega)), Nat.zero_add,
    emptyLines?_stop _ hx (.inr ⟨h, Nat.le_refl _⟩)]
  simp

/-- Empty lines in front of what does not belong to the block. -/
theorem emptyLines?_below {indent : Nat} (line : Nat) {bs : List Char}
    (hb : ∀ b ∈ bs, isPrintedBreak b = true) {tail : List Char} (htail : Below indent tail) :
    ∃ widest, emptyLines? indent 0 (cellsFrom line 0 (bs ++ tail)) =
      some (widest, bs, lineCells (line + bs.length) tail) := by
  rw [emptyLines?_breaks indent line hb]
  rcases htail with rfl | ⟨m, c, rest, rfl, hm, hgap, -⟩
  · exact ⟨0, by simp [emptyLines?]⟩
  · obtain ⟨hspace, htab, hbreak⟩ := isGapChar_eq_false_iff.mp hgap
    refine ⟨m, ?_⟩
    rw [emptyLines?_spaces _ _ _ (.inr (by omega)), Nat.zero_add, emptyLines?_stop _ hbreak (.inl ⟨hspace, htab⟩),
      lineCells_spaces hgap]
    simp

/-! ## Endings -/

def chompingOf (cs : List Char) : Chomping :=
  match cs.reverse with
  | [] => .strip
  | [c] => if isPrintedBreak c then .keep else .strip
  | c :: d :: _ => if !isPrintedBreak c then .strip else if isPrintedBreak d then .keep else .clip

def Chomping.ending (ended empty : List Char) : Chomping → List Char
  | .strip => []
  | .clip => ended
  | .keep => ended ++ empty

theorem chompingOf_append {y : Char} (hy : isPrintedBreak y = false) (a cs : List Char) :
    chompingOf (a ++ y :: cs) = chompingOf (y :: cs) := by
  unfold chompingOf
  rw [List.reverse_append, List.reverse_cons]
  match cs.reverse, a.reverse with
  | [], [] => rfl
  | [], d :: _ => simp [hy]
  | [c], _ => rfl
  | c :: d :: _, _ => rfl

theorem chompingOf_line {cs : List Char} (h : ∀ c ∈ cs, isPrintedBreak c = false) : chompingOf cs = .strip := by
  unfold chompingOf
  split
  · rfl
  · rename_i c hc
    have : c ∈ cs := List.mem_reverse.mp (hc ▸ List.mem_singleton_self c)
    simp [h c this]
  · rename_i c d more hc
    have : c ∈ cs := List.mem_reverse.mp (hc ▸ List.mem_cons_self ..)
    simp [h c this]

theorem chompingOf_breaks {bs : List Char} (hne : bs ≠ []) (h : ∀ b ∈ bs, isPrintedBreak b = true) :
    chompingOf bs = .keep := by
  unfold chompingOf
  split
  · rename_i hnil
    exact absurd (List.reverse_eq_nil_iff.mp hnil) hne
  · rename_i c hc
    have : c ∈ bs := List.mem_reverse.mp (hc ▸ List.mem_singleton_self c)
    simp [h c this]
  · rename_i c d more hc
    have hmem : ∀ x ∈ c :: d :: more, isPrintedBreak x = true := fun x hx => h x (List.mem_reverse.mp (hc ▸ hx))
    simp [hmem c (by simp), hmem d (by simp)]

/-- After the last line with text the breaks stay. -/
theorem chompingOf_line_breaks {x b : Char} (hx : isPrintedBreak x = false) (hb : isPrintedBreak b = true)
    {bs : List Char} (h : ∀ b ∈ bs, isPrintedBreak b = true) :
    chompingOf (x :: b :: bs) = if bs.isEmpty then .clip else .keep := by
  unfold chompingOf
  rw [List.reverse_cons, List.reverse_cons]
  have hmem : ∀ c ∈ bs.reverse, isPrintedBreak c = true := fun c hc => h c (List.mem_reverse.mp hc)
  cases hbs : bs.reverse with
  | nil =>
    obtain rfl := List.reverse_eq_nil_iff.mp hbs
    simp [hx, hb]
  | cons c cs =>
    rw [hbs] at hmem
    have hne : bs ≠ [] := by
      rintro rfl
      cases hbs
    cases cs with
    | nil => simp [hmem c (by simp), hb, hne]
    | cons d cs => simp [hmem c (by simp), hmem d (by simp), hne]

/-! ## Lines -/

section
variable {chomping : Chomping} {indent fuel : Nat} {ended empty : List Char} {indented : Bool}

theorem blockLines_end {cs : List Cell} (h : cs.head?.any (fun c => c.column == indent) = false) :
    blockLines true chomping indent (fuel + 1) ended empty indented cs =
      some (chomping.ending ended empty, cs) := by
  rw [blockLines.eq_def]
  cases chomping <;> simp [h, Chomping.ending]

variable (chomping fuel ended empty indented) in
theorem blockLines_line {line : Nat} {l : List Char} (hne : l ≠ []) (hl : Inline l) {b : Char}
    (hb : isPrintedBreak b = true) (more : List Char) {widest : Nat} {breaks : List Char} {after : List Cell}
    (hempty : emptyLines? indent 0 (cellsFrom (line + 1) 0 more) = some (widest, breaks, after)) :
    ∃ blank, blockLines true chomping indent (fuel + 1) ended empty indented
        (cellsFrom line indent (l ++ b :: more)) =
      (blockLines true chomping indent fuel [b] breaks blank after).map
        fun r => (ended ++ empty ++ l ++ r.1, r.2) := by
  have hcells : cellsFrom line indent (l ++ b :: more) =
      cellsFrom line indent l ++ ⟨b, line, indent + l.length⟩ :: cellsFrom (line + 1) 0 more := by
    rw [cellsFrom_inline_append hl, cellsFrom_break hb]
  have hnot : ∀ c ∈ cellsFrom line indent l, (!isBreak c.char) = true := by
    intro c hc
    simp [hl _ (char_of_mem_cellsFrom hl.kept hc)]
  have hhead : (cellsFrom line indent (l ++ b :: more)).head?.any (fun c => c.column == indent) = true := by
    obtain ⟨x, l, rfl⟩ := List.exists_cons_of_ne_nil hne
    rw [List.cons_append, cellsFrom_inline (hl x (List.mem_cons_self ..))]
    simp
  refine ⟨(cellsFrom line indent (l ++ b :: more)).head?.any fun c => isSpaceOrTab c.char, ?_⟩
  rw [blockLines.eq_def]
  simp only [hhead, if_true]
  simp [hcells, List.takeWhile_append_of_pos hnot, List.dropWhile_append_of_pos hnot,
    isBreak_of_isPrintedBreak hb, hempty, chars_cellsFrom hl.kept, Option.map_eq_bind]
  rfl

end

/-! ## Bodies -/

theorem literalBody_line (indent : Nat) {l : List Char} (hl : ∀ c ∈ l, isPrintedBreak c = false) (cs : List Char) :
    literalBody indent false (l ++ cs) = l ++ literalBody indent false cs := by
  induction l with
  | nil => rfl
  | cons c l ih =>
    have hc := hl c (List.mem_cons_self ..)
    rw [List.cons_append, literalBody]
    simp [hc, ih fun d hd => hl d (List.mem_cons_of_mem _ hd)]

theorem literalBody_breaks (indent : Nat) {bs : List Char} (hb : ∀ b ∈ bs, isPrintedBreak b = true)
    (cs : List Char) : literalBody indent true (bs ++ cs) = bs ++ literalBody indent true cs := by
  induction bs with
  | nil => rfl
  | cons b bs ih =>
    have hbreak := hb b (List.mem_cons_self ..)
    rw [List.cons_append, literalBody]
    simp [hbreak, ih fun d hd => hb d (List.mem_cons_of_mem _ hd)]

theorem literalBody_indented (indent : Nat) {x : Char} (hx : isPrintedBreak x = false) (cs : List Char) :
    literalBody indent true (x :: cs) = spaces indent ++ literalBody indent false (x :: cs) := by
  simp [literalBody, hx]

theorem printable_literalBody (indent : Nat) (broken : Bool) {cs : List Char} (h : Printable cs) :
    Printable (literalBody indent broken cs) := by
  induction cs generalizing broken with
  | nil =>
    cases broken
    · exact printable_cons.mpr ⟨by decide, printable_nil⟩
    · exact printable_nil
  | cons c cs ih =>
    rw [printable_cons] at h
    rw [literalBody]
    split
    · exact printable_cons.mpr ⟨h.1, ih true h.2⟩
    · refine printable_append.mpr ⟨?_, printable_cons.mpr ⟨h.1, ih false h.2⟩⟩
      cases broken
      · exact printable_nil
      · exact printable_spaces indent

theorem length_le_literalBody (indent : Nat) (broken : Bool) (cs : List Char) :
    cs.length ≤ (literalBody indent broken cs).length := by
  induction cs generalizing broken with
  | nil => exact Nat.zero_le _
  | cons c cs ih =>
    rw [literalBody]
    split
    · exact Nat.succ_le_succ (ih true)
    · rw [List.length_append, List.length_cons, List.length_cons]
      have := ih false
      omega

/-- The line that a text begins with, without its end. -/
theorem exists_eq_line_append (cs : List Char) : ∃ l rest, cs = l ++ rest ∧
    (∀ c ∈ l, isPrintedBreak c = false) ∧ ∀ c ∈ rest.head?, isPrintedBreak c = true := by
  refine ⟨cs.takeWhile fun c => !isPrintedBreak c, cs.dropWhile fun c => !isPrintedBreak c,
    List.takeWhile_append_dropWhile.symm, fun c hc => by simpa using List.mem_takeWhile_imp hc, ?_⟩
  intro c hc
  have := List.head?_dropWhile_not (fun c => !isPrintedBreak c) cs
  rw [hc] at this
  simpa using this

section
variable {indent : Nat} {tail : List Char} (htail : Below indent tail)
include htail

theorem head?_lineCells_of_below (line : Nat) : (lineCells line tail).head?.any (fun c => c.column == indent) = false := by
  rcases htail.lineCells line with h | ⟨m, c, rest, h, hm, -⟩
  · simp [h]
  · simp [h]
    omega

section
variable {l : List Char} (hne : l ≠ []) (hl : ∀ c ∈ l, isPrintedBreak c = false) (hinline : Inline l)
  (fuel line : Nat) (ended empty : List Char) (indented : Bool)
include hne hl hinline

/-- The last line of a text that does not end it. -/
theorem blockLines_lastLine :
    blockLines true (chompingOf l) indent (fuel + 2) ended empty indented (cellsFrom line indent (l ++ '\n' :: tail)) =
      some (ended ++ empty ++ l, lineCells (line + 1) tail) := by
  have hnone : ∀ b ∈ ([] : List Char), isPrintedBreak b = true := by simp
  obtain ⟨widest, hempty⟩ := emptyLines?_below (line + 1) hnone htail
  obtain ⟨blank, hstep⟩ := blockLines_line .strip (fuel + 1) ended empty indented hne hinline (b := '\n')
    (by decide) tail
    hempty
  rw [chompingOf_line hl, hstep, blockLines_end (head?_lineCells_of_below htail _)]
  simp [Chomping.ending]

/-- The last line of a text with the breaks that it ends with. -/
theorem blockLines_lastBreaks {b : Char} (hb : isPrintedBreak b = true) {bs : List Char}
    (hbs : ∀ b ∈ bs, isPrintedBreak b = true) :
    blockLines true (chompingOf (l ++ b :: bs)) indent (fuel + 2) ended empty indented
        (cellsFrom line indent (l ++ b :: (bs ++ tail))) =
      some (ended ++ empty ++ (l ++ b :: bs), lineCells (line + 1 + bs.length) tail) := by
  obtain ⟨widest, hempty⟩ := emptyLines?_below (line + 1) hbs htail
  obtain ⟨blank, hstep⟩ := blockLines_line (chompingOf (l ++ b :: bs)) (fuel + 1) ended empty indented hne hinline hb
    (bs ++ tail) hempty
  have hlast := hl _ (List.getLast_mem hne)
  have hchomping : (chompingOf (l ++ b :: bs)).ending [b] bs = b :: bs := by
    rw [← List.dropLast_append_getLast hne, List.append_assoc, List.singleton_append, chompingOf_append hlast,
      chompingOf_line_breaks hlast hb hbs]
    cases bs with
    | nil => rfl
    | cons c bs => rfl
  rw [hstep, blockLines_end (head?_lineCells_of_below htail _), hchomping]
  simp

end

variable (hindent : indent ≠ 0)
include hindent

omit htail in
/-- A line, the breaks after it and a text that begins with a character of a line. -/
theorem blockLines_innerLine {l : List Char} (hne : l ≠ []) (hinline : Inline l) {b : Char}
    (hb : isPrintedBreak b = true) {bs : List Char} (hbs : ∀ b ∈ bs, isPrintedBreak b = true) {y : Char}
    {S : List Char} (hy : isPrintedBreak y = false) (hS : Printable (y :: S)) {fuel line : Nat} {rest : List Cell}
    (hmore : ∀ blank, blockLines true (chompingOf (y :: S)) indent fuel [b] bs blank
      (cellsFrom (line + 1 + bs.length) indent (literalBody indent false (y :: S) ++ tail)) =
        some ([b] ++ bs ++ y :: S, rest)) (ended empty : List Char) (indented : Bool) :
    blockLines true (chompingOf (l ++ b :: (bs ++ y :: S))) indent (fuel + 1) ended empty indented
        (cellsFrom line indent (l ++ b :: (bs ++ (spaces indent ++ (literalBody indent false (y :: S) ++ tail))))) =
      some (ended ++ empty ++ (l ++ b :: (bs ++ y :: S)), rest) := by
  have hybreak := (isBreak_of_isPrintable (hS y (List.mem_cons_self ..))).trans hy
  have hbody : literalBody indent false (y :: S) = y :: literalBody indent false S := by
    simp [literalBody, hy]
  have hempty := emptyLines?_line hindent (line + 1) hbs hybreak (literalBody indent false S ++ tail)
  obtain ⟨blank, hstep⟩ := blockLines_line (chompingOf (y :: S)) fuel ended empty indented hne hinline hb _ hempty
  have hchomping : chompingOf (l ++ b :: (bs ++ y :: S)) = chompingOf (y :: S) := by
    have := chompingOf_append hy (l ++ b :: bs) S
    simpa using this
  have hafter := hmore blank
  rw [hbody, List.cons_append] at hafter ⊢
  rw [hchomping, hstep, hafter]
  simp

theorem blockLines_literalBody {fuel : Nat} {x : Char} {cs : List Char} (hx : isPrintedBreak x = false)
    (hcs : Printable (x :: cs)) (hfuel : (x :: cs).length < fuel) (line : Nat)
    (ended empty : List Char) (indented : Bool) :
    blockLines true (chompingOf (x :: cs)) indent fuel ended empty indented
        (cellsFrom line indent (literalBody indent false (x :: cs) ++ tail)) =
      some (ended ++ empty ++ x :: cs, lineCells (lineAfter line (literalBody indent false (x :: cs))) tail) := by
  induction fuel generalizing x cs line ended empty indented with
  | zero => exact absurd hfuel (Nat.not_lt_zero _)
  | succ fuel ih =>
    obtain ⟨l, rest, hsplit, hl, hrest⟩ := exists_eq_line_append (x :: cs)
    have hne : l ≠ [] := by
      rintro rfl
      rw [List.nil_append] at hsplit
      rw [hrest x (by simp [← hsplit])] at hx
      exact absurd hx (by decide)
    rw [hsplit] at hcs hfuel ⊢
    rw [List.length_append] at hfuel
    have hlength := List.length_pos_of_ne_nil hne
    have hinline : Inline l := fun c hc =>
      (isBreak_of_isPrintable (hcs c (List.mem_append_left _ hc))).trans (hl c hc)
    rw [literalBody_line indent hl]
    cases rest with
    | nil =>
      have hline : lineAfter line (l ++ ['\n']) = line + 1 := by
        rw [lineAfter_append, hinline.lineAfter]
        rfl
      obtain ⟨fuel, rfl⟩ : ∃ k, fuel = k + 1 := ⟨fuel - 1, by omega⟩
      rw [List.append_nil, literalBody, if_neg Bool.false_ne_true, List.append_assoc, hline]
      exact blockLines_lastLine htail hne hl hinline fuel line ended empty indented
    | cons b rest =>
      have hb : isPrintedBreak b = true := hrest b rfl
      obtain ⟨bs, S, rfl, hbs, hS⟩ := exists_eq_breaks_append rest
      have hstart : lineAfter line (l ++ b :: bs) = line + 1 + bs.length := by
        have hline : nextLine line b = line + 1 := by simp [nextLine, isBreak_of_isPrintedBreak hb]
        rw [lineAfter_append, hinline.lineAfter, ← hline]
        exact lineAfter_breaks (fun c hc => isBreak_of_isPrintedBreak (hbs c hc)) _
      rw [literalBody, if_pos hb, literalBody_breaks indent hbs]
      cases S with
      | nil =>
        obtain ⟨fuel, rfl⟩ : ∃ k, fuel = k + 1 := ⟨fuel - 1, by omega⟩
        simp only [literalBody, if_true, List.append_nil, List.append_assoc, List.cons_append, hstart]
        exact (blockLines_lastBreaks htail hne hl hinline fuel line ended empty indented hb hbs).trans (by simp)
      | cons y S =>
        have hy : isPrintedBreak y = false := hS y rfl
        have hmem : Printable (y :: S) := fun c hc =>
          hcs c (List.mem_append_right _ (List.mem_cons_of_mem _ (List.mem_append_right _ hc)))
        have hend : lineAfter line (l ++ b :: (bs ++ (spaces indent ++ literalBody indent false (y :: S)))) =
            lineAfter (line + 1 + bs.length) (literalBody indent false (y :: S)) := by
          rw [← hstart, ← (inline_spaces indent).lineAfter (lineAfter line (l ++ b :: bs)),
            ← lineAfter_append, ← lineAfter_append]
          simp
        have hinner := blockLines_innerLine hindent hne hinline hb hbs hy hmem
          (fun blank => ih hy hmem (by simp at hfuel ⊢; omega) (line + 1 + bs.length) [b] bs blank)
          ended empty indented
        rw [literalBody_indented indent hy, hend]
        simpa only [List.append_assoc, List.cons_append] using hinner

end

/-! ## Marks -/

/-- The indentation has to be written, because the text does not begin with a character of a line. -/
def hinted (cs : List Char) : Bool := cs.head?.any fun c => c == ' ' || isPrintedBreak c

def Chomping.mark : Chomping → List Char
  | .strip => ['-']
  | .clip => []
  | .keep => ['+']

theorem literalHints_eq (cs : List Char) :
    literalHints cs = (if hinted cs then ['2'] else []) ++ (chompingOf cs).mark := by
  unfold literalHints
  refine congrArg₂ (· ++ ·) ?_ ?_
  · cases cs <;> rfl
  · unfold chompingOf
    match cs.reverse with
    | [] => rfl
    | [c] => by_cases hc : isPrintedBreak c = true <;> simp [hc, Chomping.mark]
    | c :: d :: _ =>
      by_cases hc : isPrintedBreak c = true <;> by_cases hd : isPrintedBreak d = true <;>
        simp [hc, hd, Chomping.mark]

theorem inline_literalHints (cs : List Char) : Inline (literalHints cs) := by
  rw [literalHints_eq]
  cases hinted cs <;> cases chompingOf cs <;> decide

theorem blockMarks?_literalHints (line column : Nat) (cs more : List Char) :
    blockMarks? (cellsFrom line column (literalHints cs ++ '\n' :: more)) =
      some (chompingOf cs, if hinted cs then 2 else 0,
        cellsFrom line (column + (literalHints cs).length) ('\n' :: more)) := by
  rw [cellsFrom_inline_append (inline_literalHints cs), literalHints_eq, cellsFrom_break (by decide)]
  cases hinted cs <;> cases chompingOf cs <;>
    simp [Chomping.mark, cellsFrom, isBreak, blockMarks?, chomping?, indentDigit?]

theorem endOfLine?_newline (line column : Nat) (more : List Char) :
    endOfLine? (cellsFrom line column ('\n' :: more)) = some (cellsFrom (line + 1) 0 more) := by
  rw [cellsFrom_break (by decide)]
  simp [endOfLine?, skipSpaces, isSpaceOrTab, isBreak]

theorem blockText_eq {outer fuel line column : Nat} (houter : outer ≠ 0) {cs more breaks : List Char}
    {widest : Nat} {rest : List Cell}
    (hempty : emptyLines? (if hinted cs then outer + 1 else 0) 0 (cellsFrom (line + 1) 0 more) =
      some (widest, breaks, rest)) (hwidest : hinted cs = false → widest = outer + 1) :
    blockText true outer fuel (cellsFrom line column (literalHints cs ++ '\n' :: more)) =
      blockLines true (chompingOf cs) (outer + 1) fuel [] breaks false rest := by
  rw [blockText, blockMarks?_literalHints]
  simp only [Option.bind_eq_bind, Option.bind_some, endOfLine?_newline]
  cases hhint : hinted cs with
  | true =>
    have hgiven : outer - 1 + 2 = outer + 1 := by omega
    simp only [hhint, if_true] at hempty
    simp [hgiven, hempty, houter]
  | false =>
    have hindent : max widest (max outer 1) = outer + 1 := by
      rw [hwidest hhint]
      omega
    simp only [hhint, Bool.false_eq_true, if_false] at hempty
    simp [hempty, hindent]

/-- The empty lines before the first line of a text. Where the indentation is not written there are none,
and the first line tells it. -/
theorem emptyLines?_hinted {indent : Nat} (hindent : indent ≠ 0) (line : Nat) {bs : List Char}
    (hbs : ∀ b ∈ bs, isPrintedBreak b = true) {y : Char} (hy : isPrintedBreak y = false)
    (hprintable : isPrintable y = true) (S more : List Char) :
    emptyLines? (if hinted (bs ++ y :: S) then indent else 0) 0
        (cellsFrom line 0 (bs ++ (spaces indent ++ y :: more))) =
      some (indent, bs, cellsFrom (line + bs.length) indent (y :: more)) := by
  have hbreak := (isBreak_of_isPrintable hprintable).trans hy
  cases hhint : hinted (bs ++ y :: S) with
  | true => exact emptyLines?_line hindent line hbs hbreak more
  | false =>
    obtain rfl : bs = [] := by
      cases bs with
      | nil => rfl
      | cons b bs => simp [hinted, hbs b (List.mem_cons_self ..)] at hhint
    have hspace : y ≠ ' ' := by
      rintro rfl
      simp [hinted] at hhint
    have hfound := emptyLines?_spaces line indent 0 (.inl rfl) (y :: more)
    rw [Nat.zero_add, emptyLines?_stop _ hbreak (.inl ⟨hspace, ne_tab_of_isPrintable hprintable⟩)] at hfound
    exact hfound

section
variable {outer fuel : Nat} (houter : outer ≠ 0) {tail : List Char} (htail : Below (outer + 1) tail)
  {bs : List Char} (hbs : ∀ b ∈ bs, isPrintedBreak b = true) (line column : Nat)
include houter htail hbs

/-- A text of breaks alone. -/
theorem blockText_breaks (hne : bs ≠ []) (hfuel : bs.length < fuel) :
    blockText true outer fuel
        (cellsFrom line column (literalHints bs ++ '\n' :: (literalBody (outer + 1) true bs ++ tail))) =
      some (bs, lineCells (lineAfter (line + 1) (literalBody (outer + 1) true bs)) tail) := by
  have hkept : ∀ b ∈ bs, isBreak b = true := fun b hb => isBreak_of_isPrintedBreak (hbs b hb)
  have hhint : hinted bs = true := by
    obtain ⟨b, bs, rfl⟩ := List.exists_cons_of_ne_nil hne
    simp [hinted, hbs b (List.mem_cons_self ..)]
  have hbody : literalBody (outer + 1) true bs = bs := by
    have := literalBody_breaks (outer + 1) hbs []
    simpa [literalBody] using this
  obtain ⟨widest, hempty⟩ := emptyLines?_below (line + 1) hbs htail
  obtain ⟨fuel, rfl⟩ : ∃ k, fuel = k + 1 := ⟨fuel - 1, by omega⟩
  rw [hbody, blockText_eq houter (by rw [hhint]; exact hempty) (by simp [hhint]),
    blockLines_end (head?_lineCells_of_below htail _), chompingOf_breaks hne hbs, lineAfter_breaks hkept]
  rfl

/-- Breaks before a text that begins with a character of a line. -/
theorem blockText_breaks_line {y : Char} {S : List Char} (hy : isPrintedBreak y = false) (hS : Printable (y :: S))
    (hfuel : (y :: S).length < fuel) :
    blockText true outer fuel (cellsFrom line column
        (literalHints (bs ++ y :: S) ++ '\n' :: (literalBody (outer + 1) true (bs ++ y :: S) ++ tail))) =
      some (bs ++ y :: S, lineCells (lineAfter (line + 1) (literalBody (outer + 1) true (bs ++ y :: S))) tail) := by
  have hkept : ∀ b ∈ bs, isBreak b = true := fun b hb => isBreak_of_isPrintedBreak (hbs b hb)
  have hinner : literalBody (outer + 1) false (y :: S) = y :: literalBody (outer + 1) false S := by
    simp [literalBody, hy]
  have hbody : literalBody (outer + 1) true (bs ++ y :: S) =
      bs ++ (spaces (outer + 1) ++ literalBody (outer + 1) false (y :: S)) := by
    rw [literalBody_breaks _ hbs, literalBody_indented _ hy]
  have hend : lineAfter (line + 1) (literalBody (outer + 1) true (bs ++ y :: S)) =
      lineAfter (line + 1 + bs.length) (literalBody (outer + 1) false (y :: S)) := by
    rw [hbody, lineAfter_append, lineAfter_append, lineAfter_breaks hkept, (inline_spaces _).lineAfter]
  have hempty : emptyLines? (if hinted (bs ++ y :: S) then outer + 1 else 0) 0
      (cellsFrom (line + 1) 0 (literalBody (outer + 1) true (bs ++ y :: S) ++ tail)) =
      some (outer + 1, bs, cellsFrom (line + 1 + bs.length) (outer + 1)
        (literalBody (outer + 1) false (y :: S) ++ tail)) := by
    have hfirst := emptyLines?_hinted (Nat.succ_ne_zero outer) (line + 1) hbs hy
      (hS y (List.mem_cons_self ..)) S (literalBody (outer + 1) false S ++ tail)
    rw [hbody, hinner]
    simpa only [List.append_assoc, List.cons_append] using hfirst
  rw [blockText_eq houter hempty fun _ => rfl, hend, chompingOf_append hy,
    blockLines_literalBody htail (Nat.succ_ne_zero outer) hy hS hfuel]
  rfl

end

theorem blockText_literal {outer fuel : Nat} (houter : outer ≠ 0) {tail : List Char}
    (htail : Below (outer + 1) tail) {cs : List Char} (hne : cs ≠ []) (hcs : Printable cs)
    (hfuel : cs.length < fuel) (line column : Nat) :
    blockText true outer fuel
        (cellsFrom line column (literalHints cs ++ '\n' :: (literalBody (outer + 1) true cs ++ tail))) =
      some (cs, lineCells (lineAfter (line + 1) (literalBody (outer + 1) true cs)) tail) := by
  obtain ⟨bs, S, rfl, hbs, hS⟩ := exists_eq_breaks_append cs
  cases S with
  | nil =>
    rw [List.append_nil] at hne hfuel ⊢
    exact blockText_breaks houter htail hbs line column hne hfuel
  | cons y S =>
    have hprintable : Printable (y :: S) := fun c hc => hcs c (List.mem_append_right _ hc)
    rw [List.length_append] at hfuel
    exact blockText_breaks_line houter htail hbs line column (hS y rfl) hprintable (by omega)

end ApiDocs.Yaml
