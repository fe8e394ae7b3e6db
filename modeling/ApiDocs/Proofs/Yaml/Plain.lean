import ApiDocs.Proofs.Yaml.Quoted

/-!
# Plain scalars read back

A plain scalar is read word by word. It ends before the colon of a key, or with its line when the next
line does not belong to it.
-/

namespace ApiDocs.Yaml

theorem isGap_of_isGapChar {c : Char} (h : isGapChar c = true) : isGap (some c) = true := by
  simp only [isGapChar, isSpaceOrTab, Bool.or_eq_true, beq_iff_eq, isBreak_iff] at h
  simp only [isGap, Bool.or_eq_true, beq_iff_eq, isPrintedBreak_iff]
  tauto

theorem atGap_of_isGap {line column : Nat} {cs : List Char} (h : isGap cs.head? = false) (z : List Char) :
    atGap (cellsFrom line column (cs ++ z)) = false := by
  cases cs with
  | nil => simp [isGap] at h
  | cons c cs =>
    rw [List.cons_append, atGap_cellsFrom]
    by_contra hc
    have hc : isGapChar c = true := by simpa using hc
    rw [List.head?_cons, isGap_of_isGapChar hc] at h
    exact absurd h (by decide)

/-! ## Words -/

theorem plainWord_word (line column : Nat) {before : Char} {w y : List Char}
    (hw : ∀ c ∈ w, isGapChar c = false) (hmarkup : holdsMarkup before (w ++ y) = false) (z : List Char) :
    plainWord false (cellsFrom line column (w ++ y ++ z)) =
      (plainWord false (cellsFrom line (column + w.length) (y ++ z))).map fun r => (w ++ r.1, r.2) := by
  induction w generalizing before column with
  | nil => simp
  | cons c w ih =>
    have hc : isGapChar c = false := hw c (List.mem_cons_self ..)
    rw [List.cons_append, holdsMarkup, Bool.or_eq_false_iff, Bool.or_eq_false_iff] at hmarkup
    obtain ⟨⟨hcolon, -⟩, hmarkup⟩ := hmarkup
    have hstop : (c == ':' && atGap (cellsFrom line (column + 1) (w ++ y ++ z))) = false := by
      by_cases h : c = ':'
      · rw [Bool.and_eq_false_iff] at hcolon ⊢
        exact hcolon.imp id fun h => atGap_of_isGap h z
      · simp [h]
    have htail := ih (column + 1) (fun d hd => hw d (List.mem_cons_of_mem _ hd)) hmarkup
    rw [List.cons_append, List.cons_append, cellsFrom_inline (isGapChar_eq_false_iff.mp hc).2.2, plainWord]
    simp only [hc, hstop, Bool.false_and, Bool.or_false, Bool.false_eq_true, if_false, htail,
      Option.map_map, List.length_cons]
    rw [Nat.add_right_comm, Nat.add_assoc]
    rfl

theorem plainWord_gap {flow : Bool} {c : Char} (h : isGapChar c = true) (line column : Nat) (cs : List Char) :
    plainWord flow (cellsFrom line column (c :: cs)) = some ([], cellsFrom line column (c :: cs)) := by
  have hgap := atGap_cellsFrom line column (c :: cs)
  rw [List.head?_cons, Option.all_some, h] at hgap
  cases hcells : cellsFrom line column (c :: cs) with
  | nil => rfl
  | cons d rest =>
    rw [hcells, atGap] at hgap
    rw [plainWord, if_pos hgap]

theorem plainWord_colon {z : List Char} (h : z.head?.all isGapChar = true) (line column : Nat) :
    plainWord false (cellsFrom line column (':' :: z)) = some ([], cellsFrom line column (':' :: z)) := by
  have hgap : atGap (cellsFrom line (column + 1) z) = true := (atGap_cellsFrom ..).trans h
  rw [cellsFrom_inline (by decide), plainWord]
  simp [hgap, show isGapChar ':' = false by decide]

/-! ## Ends -/

theorem plainText_colon (indent fuel line : Nat) {before : Char} {w : List Char} {column : Nat}
    (hw : ∀ c ∈ w, isGapChar c = false) (hmarkup : holdsMarkup before w = false) {z : List Char}
    (hz : z.head?.all isGapChar = true) :
    plainText false indent (fuel + 1) (cellsFrom line column (w ++ ':' :: z)) =
      some (w, false, cellsFrom line (column + w.length) (':' :: z)) := by
  have hword := plainWord_word line column (y := []) hw (by simpa using hmarkup) (':' :: z)
  rw [List.append_nil, List.nil_append, plainWord_colon hz] at hword
  rw [plainText, hword, cellsFrom_inline (by decide)]
  simp [tabInIndentation, show isGapChar ':' = false by decide]

theorem plainText_line {indent : Nat} (fuel line : Nat) {before : Char} {w : List Char} {column : Nat}
    (hw : ∀ c ∈ w, isGapChar c = false) (hmarkup : holdsMarkup before w = false) {tail : List Char}
    (htail : Below indent tail) :
    plainText false indent (fuel + 1) (cellsFrom line column (w ++ '\n' :: tail)) =
      some (w, true, lineCells (line + 1) tail) := by
  have hword := plainWord_word line column (y := []) hw (by simpa using hmarkup) ('\n' :: tail)
  rw [List.append_nil, List.nil_append, plainWord_gap (by decide)] at hword
  rw [plainText, hword]
  obtain ⟨m, htake, hdrop⟩ := takeWhile_gap_line htail line (column + w.length)
  have htab : tabInIndentation indent (cellsFrom line (column + w.length) ('\n' :: spaces m)) = false := by
    rw [tabInIndentation, List.any_eq_false]
    intro c hc
    have hmem := char_of_mem_cellsFrom (kept_newline_spaces m) ((List.dropWhile_sublist _).subset hc)
    rcases List.mem_cons.mp hmem with h | h
    · simp [h]
    · simp [List.eq_of_mem_replicate h]
  have hstop : plainGoesOn false indent (lineCells (line + 1) tail) = false := by
    rcases htail.lineCells (line + 1) with h | ⟨k, c, rest, h, hk, -⟩
    · rw [h, plainGoesOn]
    · rw [h, plainGoesOn]
      simp [Nat.not_le.mpr hk]
  have hbroken : (cellsFrom line (column + w.length) ('\n' :: spaces m)).any (fun c => isBreak c.char) = true := by
    rw [cellsFrom_break (by decide)]
    rfl
  simp [htake, hdrop, htab, hstop, hbroken]

/-! ## Texts of several words -/

/-- What a plain text consists of: it can be printed on one line, nothing in it is markup, and it
neither begins nor ends with a blank. -/
structure PlainText (cs : List Char) : Prop where
  printable : Printable cs
  unbroken : ∀ c ∈ cs, isPrintedBreak c = false
  markup : holdsMarkup ' ' cs = false
  ne_nil : cs ≠ []
  head : cs.head? ≠ some ' '
  last : cs.getLast? ≠ some ' '

theorem PlainText.isGapChar {cs : List Char} (h : PlainText cs) {c : Char} (hc : c ∈ cs) (hs : c ≠ ' ') :
    isGapChar c = false := by
  have hp := h.printable c hc
  exact isGapChar_eq_false_iff.mpr
    ⟨hs, ne_tab_of_isPrintable hp, (isBreak_of_isPrintable hp).trans (h.unbroken c hc)⟩

theorem PlainText.inline {cs : List Char} (h : PlainText cs) : Inline cs :=
  fun c hc => (isBreak_of_isPrintable (h.printable c hc)).trans (h.unbroken c hc)

theorem holdsMarkup_after_space {before : Char} {w cs : List Char}
    (h : holdsMarkup before (w ++ ' ' :: cs) = false) : holdsMarkup ' ' cs = false := by
  induction w generalizing before with
  | nil =>
    rw [List.nil_append, holdsMarkup, Bool.or_eq_false_iff] at h
    exact h.2
  | cons c w ih =>
    rw [List.cons_append, holdsMarkup, Bool.or_eq_false_iff] at h
    exact ih h.2

/-- The first word, and the words after it if there are any. -/
theorem PlainText.split {cs : List Char} (h : PlainText cs) : (∀ c ∈ cs, Yaml.isGapChar c = false) ∨
    ∃ w n cs', cs = w ++ (spaces (n + 1) ++ cs') ∧ (∀ c ∈ w, Yaml.isGapChar c = false) ∧ PlainText cs' := by
  by_cases hspace : ' ' ∈ cs
  · right
    obtain ⟨w, y, rfl, hw⟩ := List.eq_append_cons_of_mem hspace
    obtain ⟨n, cs', rfl, hhead⟩ := exists_eq_spaces_append y
    have hsplit : w ++ ' ' :: (spaces n ++ cs') = w ++ (spaces (n + 1) ++ cs') := rfl
    have hblank : w ++ ' ' :: (spaces n ++ cs') = (w ++ spaces n) ++ ' ' :: cs' := by
      rw [hsplit, spaces, List.replicate_succ', List.append_assoc, List.append_assoc]
      rfl
    have hne : cs' ≠ [] := by
      rintro rfl
      have := h.last
      rw [hblank, List.getLast?_append_of_ne_nil _ (by simp)] at this
      exact this rfl
    have hmem : ∀ c ∈ cs', c ∈ w ++ ' ' :: (spaces n ++ cs') := by
      intro c hc
      rw [hblank]
      exact List.mem_append_right _ (List.mem_cons_of_mem _ hc)
    refine ⟨w, n, cs', rfl, fun c hc => h.isGapChar (List.mem_append_left _ hc) fun hs => hw (hs ▸ hc), ?_⟩
    exact {
      printable := fun c hc => h.printable c (hmem c hc)
      unbroken := fun c hc => h.unbroken c (hmem c hc)
      markup := holdsMarkup_after_space (hblank ▸ h.markup)
      ne_nil := hne
      head := hhead
      last := by
        have := h.last
        rwa [hsplit, ← List.append_assoc, List.getLast?_append_of_ne_nil _ hne] at this }
  · left
    intro c hc
    exact h.isGapChar hc fun hs => hspace (hs ▸ hc)

/-- A word and the spaces after it are read, and then the word that comes next on the line. -/
theorem plainText_word {indent line column fuel n : Nat} (hindent : indent ≤ column + 1) {w : List Char} {x : Char}
    {xs : List Char} (hword : plainWord false (cellsFrom line column (w ++ (spaces (n + 1) ++ x :: xs))) =
      some (w, cellsFrom line (column + w.length) (spaces (n + 1) ++ x :: xs)))
    (hx : isGapChar x = false) (hhash : x ≠ '#') {text : List Char} (hne : text ≠ []) {broken : Bool}
    {rest : List Cell}
    (hmore : plainText false indent fuel (cellsFrom line (column + w.length + (n + 1)) (x :: xs)) =
      some (text, broken, rest)) :
    plainText false indent (fuel + 1) (cellsFrom line column (w ++ (spaces (n + 1) ++ x :: xs))) =
      some (w ++ (spaces (n + 1) ++ text), broken, rest) := by
  obtain ⟨htake, hdrop⟩ := takeWhile_gap isGapChar_of_mem_spaces (inline_spaces (n + 1)).kept hx line
    (column + w.length) xs
  rw [(inline_spaces _).lineAfter, (inline_spaces _).columnAfter, length_spaces] at hdrop
  have htab : tabInIndentation indent (cellsFrom line (column + w.length) (spaces (n + 1))) = false := by
    rw [tabInIndentation, List.any_eq_false]
    intro c hc
    have hmem := char_of_mem_cellsFrom (inline_spaces _).kept ((List.dropWhile_sublist _).subset hc)
    simp [List.eq_of_mem_replicate hmem]
  have hgoes : plainGoesOn false indent (cellsFrom line (column + w.length + (n + 1)) (x :: xs)) = true := by
    rw [cellsFrom_inline (isGapChar_eq_false_iff.mp hx).2.2, plainGoesOn,
      atAnyDocumentMark_of_column (by omega)]
    simp [hhash]
    omega
  have hgap : (cellsFrom line (column + w.length) (spaces (n + 1))).isEmpty = false := by
    rw [List.isEmpty_eq_false_iff, ← List.length_pos_iff, length_cellsFrom (inline_spaces _).kept,
      length_spaces]
    omega
  rw [plainText, hword]
  simp only [Option.bind_eq_bind, Option.bind_some, htake, hdrop, htab, hgoes, hgap, hmore, Bool.not_true,
    Bool.or_false, Bool.false_eq_true, if_false, List.isEmpty_eq_false_iff.mpr hne,
    chars_cellsFrom (inline_spaces _).kept, foldGap_spaces, List.append_assoc]

theorem plainText_words {indent line : Nat} {stop : List Char} {broken : Bool} (after : Nat → List Cell)
    (hlast : ∀ {before : Char} {w : List Char} {column : Nat} (fuel : Nat), (∀ c ∈ w, isGapChar c = false) →
      holdsMarkup before w = false → plainText false indent (fuel + 1) (cellsFrom line column (w ++ stop)) =
        some (w, broken, after (column + w.length)))
    {cs : List Char} (column : Nat) {fuel : Nat} (h : PlainText cs) (hindent : indent ≤ column + 1)
    (hfuel : cs.length < fuel) :
    plainText false indent fuel (cellsFrom line column (cs ++ stop)) =
      some (cs, broken, after (column + cs.length)) := by
  induction fuel generalizing cs column with
  | zero => exact absurd hfuel (Nat.not_lt_zero _)
  | succ fuel ih =>
    rcases h.split with hword | ⟨w, n, cs', rfl, hw, h'⟩
    · exact hlast fuel hword h.markup
    · simp only [List.length_append, length_spaces] at hfuel
      have hmore := ih (column + w.length + (n + 1)) h' (by omega) (by omega)
      obtain ⟨x, xs, rfl⟩ : ∃ x xs, cs' = x :: xs := List.exists_cons_of_ne_nil h'.ne_nil
      have hx : isGapChar x = false := h'.isGapChar (List.mem_cons_self ..) (by simpa using h'.head)
      have hhash : x ≠ '#' := by
        rintro rfl
        have := h'.markup
        simp [holdsMarkup, isGap] at this
      -- the text holds no markup, so the word ends at the blank
      have hcells := plainWord_word line column hw h.markup stop
      have hstart : plainWord false (cellsFrom line (column + w.length) (spaces (n + 1) ++ x :: xs ++ stop)) =
          some ([], cellsFrom line (column + w.length) (spaces (n + 1) ++ x :: xs ++ stop)) :=
        plainWord_gap (by decide) ..
      rw [hstart, Option.map_some, List.append_nil] at hcells
      simp only [List.append_assoc, List.cons_append] at hcells hmore ⊢
      rw [plainText_word hindent hcells hx hhash (List.cons_ne_nil _ _) hmore]
      simp only [List.length_append, length_spaces, Nat.add_assoc]

theorem plainText_key (indent line : Nat) {cs : List Char} {column fuel : Nat} (h : PlainText cs)
    (hindent : indent ≤ column + 1) (hfuel : cs.length < fuel) {z : List Char}
    (hz : z.head?.all isGapChar = true) :
    plainText false indent fuel (cellsFrom line column (cs ++ ':' :: z)) =
      some (cs, false, cellsFrom line (column + cs.length) (':' :: z)) :=
  plainText_words (fun k => cellsFrom line k (':' :: z))
    (fun fuel hw hmarkup => plainText_colon indent fuel line hw hmarkup hz) column h hindent hfuel

theorem plainText_value {indent : Nat} (line : Nat) {cs : List Char} {column fuel : Nat} (h : PlainText cs)
    (hindent : indent ≤ column + 1) (hfuel : cs.length < fuel) {tail : List Char}
    (htail : Below indent tail) :
    plainText false indent fuel (cellsFrom line column (cs ++ '\n' :: tail)) =
      some (cs, true, lineCells (line + 1) tail) :=
  plainText_words (fun _ => lineCells (line + 1) tail)
    (fun fuel hw hmarkup => plainText_line fuel line hw hmarkup htail) column h hindent hfuel

/-! ## Which texts are plain -/

theorem holdsMarkup_of_start {c : Char} {cs : List Char} (hstart : startsAsMarkup (c :: cs) = false)
    (h : holdsMarkup c cs = false) : holdsMarkup ' ' (c :: cs) = false := by
  have hhash : c ≠ '#' := by
    rintro rfl
    simp [startsAsMarkup, openers] at hstart
  have hcolon : (c == ':' && isGap cs.head?) = false := by
    by_cases hc : c = ':'
    · subst hc
      simpa [startsAsMarkup, openers] using hstart
    · simp [hc]
  simp [holdsMarkup, hcolon, hhash, h]

theorem plainText_of_manner {cs : List Char} (hne : cs ≠ []) (h : (manner cs).plain = true) :
    PlainText cs ∧ startsAsMarkup cs = false := by
  obtain ⟨c, cs, rfl⟩ := List.exists_cons_of_ne_nil hne
  simp only [manner, Bool.not_eq_true', Bool.or_eq_false_iff] at h
  obtain ⟨⟨⟨⟨⟨hstart, hmarkup⟩, hbreaks, -⟩, hfirst⟩, hlast⟩, hspecial⟩ := h
  refine ⟨?_, hstart⟩
  exact {
    printable := by simpa [Printable] using hspecial
    unbroken := by simpa using hbreaks
    markup := holdsMarkup_of_start hstart hmarkup
    ne_nil := hne
    head := by simpa using hfirst
    last := by simpa using hlast }

theorem toNat_of_isNameChar {c : Char} (h : isNameChar c = true) : 0x20 ≤ c.toNat ∧ c.toNat ≤ 0x7E := by
  have hle : ∀ {a b : Char}, a ≤ b → a.toNat ≤ b.toNat := fun h => h
  simp only [isNameChar, Bool.or_eq_true, Bool.and_eq_true, decide_eq_true_eq, beq_iff_eq] at h
  rcases h with (((⟨h₁, h₂⟩ | ⟨h₁, h₂⟩) | ⟨h₁, h₂⟩) | rfl) | rfl
  · exact ⟨Nat.le_trans (by decide) (hle h₁), Nat.le_trans (hle h₂) (by decide)⟩
  · exact ⟨Nat.le_trans (by decide) (hle h₁), Nat.le_trans (hle h₂) (by decide)⟩
  · exact ⟨Nat.le_trans (by decide) (hle h₁), Nat.le_trans (hle h₂) (by decide)⟩
  · decide
  · decide

theorem ne_of_isNameChar {c d : Char} (h : isNameChar c = true) (hd : isNameChar d = false) : c ≠ d := by
  rintro rfl
  simp [h] at hd

theorem plainText_of_isNameChar {cs : List Char} (hne : cs ≠ []) (h : ∀ c ∈ cs, isNameChar c = true) :
    PlainText cs := by
  have hmarkup : ∀ (before : Char) (cs : List Char), (∀ c ∈ cs, isNameChar c = true) →
      holdsMarkup before cs = false := by
    intro before cs h
    induction cs generalizing before with
    | nil => rfl
    | cons c cs ih =>
      have hc := h c (List.mem_cons_self ..)
      simp [holdsMarkup, ne_of_isNameChar hc (d := ':') (by decide), ne_of_isNameChar hc (d := '#') (by decide),
        ih c fun d hd => h d (List.mem_cons_of_mem _ hd)]
  exact {
    printable := fun c hc => by simp [isPrintable, toNat_of_isNameChar (h c hc)]
    unbroken := by
      intro c hc
      obtain ⟨hlow, hhigh⟩ := toNat_of_isNameChar (h c hc)
      rw [Bool.eq_false_iff, Ne, isPrintedBreak_iff]
      rintro (rfl | hn | hn)
      · exact absurd hlow (by decide)
      · omega
      · omega
    markup := hmarkup ' ' cs h
    ne_nil := hne
    head := fun hs => ne_of_isNameChar (h ' ' (List.mem_of_mem_head? hs)) (d := ' ') (by decide) rfl
    last := fun hs => ne_of_isNameChar (h ' ' (List.mem_of_mem_getLast? hs)) (d := ' ') (by decide) rfl }

end ApiDocs.Yaml
