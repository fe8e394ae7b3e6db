import ApiDocs.Proofs.Keyed
import ApiDocs.Proofs.Yaml.Cells
import ApiDocs.Yaml.Token.Scalar
import Mathlib.Algebra.Group.Nat.Defs
import Mathlib.Data.List.TakeWhile

/-!
# Quoted scalars read back

Between double quotes a character stands for itself or is escaped; between single quotes only a quote
is doubled, and a line that ends goes on at the indentation. Gaps are read as a whole, so the texts are
taken apart into gaps and single characters.
-/

namespace ApiDocs.Yaml

/-! ## Runs -/

theorem exists_eq_spaces_append (cs : List Char) :
    ∃ n rest, cs = spaces n ++ rest ∧ rest.head? ≠ some ' ' := by
  induction cs with
  | nil => exact ⟨0, [], rfl, by simp⟩
  | cons c cs ih =>
    by_cases hc : c = ' '
    · subst hc
      obtain ⟨n, rest, rfl, hrest⟩ := ih
      exact ⟨n + 1, rest, rfl, hrest⟩
    · exact ⟨0, c :: cs, rfl, by simpa using hc⟩

theorem exists_eq_breaks_append (cs : List Char) : ∃ bs rest, cs = bs ++ rest ∧
    (∀ b ∈ bs, isPrintedBreak b = true) ∧ ∀ c ∈ rest.head?, isPrintedBreak c = false := by
  refine ⟨cs.takeWhile isPrintedBreak, cs.dropWhile isPrintedBreak,
    List.takeWhile_append_dropWhile.symm, fun b hb => List.mem_takeWhile_imp hb, ?_⟩
  intro c hc
  have := List.head?_dropWhile_not isPrintedBreak cs
  rw [hc] at this
  simpa using this

theorem filter_isBreak_spaces (n : Nat) : (spaces n).filter isBreak = [] := by
  refine List.filter_eq_nil_iff.mpr fun c hc => ?_
  rw [inline_spaces n c hc]
  decide

theorem foldGap_spaces (n : Nat) : foldGap (spaces n) = spaces n := by
  rw [foldGap, filter_isBreak_spaces]

/-- Separators are not folded, and what indents the line after them vanishes. -/
theorem foldGap_breaks {bs : List Char} (hne : bs ≠ []) (hb : ∀ b ∈ bs, isPrintedBreak b = true)
    (hn : '\n' ∉ bs) (n : Nat) : foldGap (bs ++ spaces n) = bs := by
  have hfilter : (bs ++ spaces n).filter isBreak = bs := by
    rw [List.filter_append, filter_isBreak_spaces, List.append_nil, List.filter_eq_self]
    exact fun b h => isBreak_of_isPrintedBreak (hb b h)
  rw [foldGap, hfilter]
  cases bs with
  | nil => exact absurd rfl hne
  | cons b bs =>
    have hb : b ≠ '\n' := fun h => hn (by simp [h])
    simp [hb]

/-! ## One step -/

section
variable {fuel line column : Nat} (hcolumn : column ≠ 0)
include hcolumn

theorem quotedText_gap (single : Bool) {g : List Char} (hne : g ≠ [])
    (hg : ∀ c ∈ g, isGapChar c = true) (hk : Kept g) {x : Char} (hx : isGapChar x = false)
    (cs : List Char) :
    quotedText single (fuel + 1) (cellsFrom line column (g ++ x :: cs)) =
      (quotedText single fuel (cellsFrom (lineAfter line g) (columnAfter column g) (x :: cs))).map
        fun r => (foldGap g ++ r.1, r.2) := by
  obtain ⟨htake, hdrop⟩ := takeWhile_gap hg hk hx line column cs
  cases g with
  | nil => exact absurd rfl hne
  | cons c g =>
    have hc : isGapChar c = true := hg c (List.mem_cons_self ..)
    rw [List.cons_append, cellsFrom_cons (hk c (List.mem_cons_self ..))] at htake hdrop ⊢
    rw [quotedText.eq_def]
    simp [atAnyDocumentMark_of_column hcolumn, htake, hdrop, chars_cellsFrom hk, hc]

theorem quotedText_raw {c : Char} (hgap : isGapChar c = false) (hq : c ≠ '"') (hs : c ≠ '\\')
    (rest : List Cell) :
    quotedText false (fuel + 1) (⟨c, line, column⟩ :: rest) =
      (quotedText false fuel rest).map fun r => (c :: r.1, r.2) := by
  rw [quotedText.eq_def]
  simp [atAnyDocumentMark_of_column hcolumn, hgap, hq, hs]

theorem quotedText_close (rest : List Cell) :
    quotedText false (fuel + 1) (⟨'"', line, column⟩ :: rest) = some ([], rest) := by
  rw [quotedText.eq_def]
  simp [atAnyDocumentMark_of_column hcolumn, show isGapChar '"' = false by decide]

theorem quotedText_escape {d : Char} {rest after : List Cell}
    (hbreak : rest.head?.any (fun c => isBreak c.char) = false) (h : escape? rest = some (d, after)) :
    quotedText false (fuel + 1) (⟨'\\', line, column⟩ :: rest) =
      (quotedText false fuel after).map fun r => (d :: r.1, r.2) := by
  rw [quotedText.eq_def]
  simp [atAnyDocumentMark_of_column hcolumn, show isGapChar '\\' = false by decide, hbreak, h]

theorem quotedText_single_raw {c : Char} (hgap : isGapChar c = false) (hq : c ≠ '\'')
    (rest : List Cell) :
    quotedText true (fuel + 1) (⟨c, line, column⟩ :: rest) =
      (quotedText true fuel rest).map fun r => (c :: r.1, r.2) := by
  rw [quotedText.eq_def]
  simp [atAnyDocumentMark_of_column hcolumn, hgap, hq]

theorem quotedText_single_quote (l k : Nat) (rest : List Cell) :
    quotedText true (fuel + 1) (⟨'\'', line, column⟩ :: ⟨'\'', l, k⟩ :: rest) =
      (quotedText true fuel rest).map fun r => ('\'' :: r.1, r.2) := by
  rw [quotedText.eq_def]
  simp [atAnyDocumentMark_of_column hcolumn, show isGapChar '\'' = false by decide]

theorem quotedText_single_close {rest : List Cell} (h : rest.head?.any (fun c => c.char == '\'') = false) :
    quotedText true (fuel + 1) (⟨'\'', line, column⟩ :: rest) = some ([], rest) := by
  rw [quotedText.eq_def]
  cases rest with
  | nil => simp [atAnyDocumentMark_of_column hcolumn, show isGapChar '\'' = false by decide]
  | cons d rest =>
    have hd : ¬d.char = '\'' := by simpa using h
    simp [atAnyDocumentMark_of_column hcolumn, show isGapChar '\'' = false by decide, hd]

end

/-! ## Double quotes -/

/-- What a character can be written as between double quotes. -/
inductive DoubleCode : Char → List Char → Prop
  | raw {c : Char} (hbreak : isBreak c = false) (htab : c ≠ '\t') (hquote : c ≠ '"')
      (hslash : c ≠ '\\') : DoubleCode c [c]
  | escaped {c e : Char} {code : List Char} (hcode : Inline (e :: code))
      (h : ∀ line column rest, escape? (cellsFrom line column (e :: code ++ rest)) =
        some (c, cellsFrom line (column + (e :: code).length) rest)) : DoubleCode c ('\\' :: e :: code)

theorem DoubleCode.inline {c : Char} {code : List Char} (h : DoubleCode c code) : Inline code := by
  cases h with
  | raw hbreak => simpa [Inline] using hbreak
  | escaped hcode =>
    intro d hd
    rcases List.mem_cons.mp hd with rfl | hd
    · decide
    · exact hcode d hd

theorem DoubleCode.head {c : Char} {code : List Char} (h : DoubleCode c code) (hc : c ≠ ' ') :
    ∃ x xs, code = x :: xs ∧ isGapChar x = false := by
  cases h with
  | raw hbreak htab => exact ⟨c, [], rfl, isGapChar_eq_false_iff.mpr ⟨hc, htab, hbreak⟩⟩
  | escaped => exact ⟨'\\', _, rfl, by decide⟩

theorem quotedText_code {c : Char} {code : List Char} (h : DoubleCode c code) (hc : c ≠ ' ')
    {column : Nat} (hcolumn : column ≠ 0) (fuel line : Nat) (rest : List Char) :
    quotedText false (fuel + 1) (cellsFrom line column (code ++ rest)) =
      (quotedText false fuel (cellsFrom line (column + code.length) rest)).map
        fun r => (c :: r.1, r.2) := by
  cases h with
  | raw hbreak htab hquote hslash =>
    rw [List.cons_append, cellsFrom_inline hbreak]
    exact quotedText_raw hcolumn (isGapChar_eq_false_iff.mpr ⟨hc, htab, hbreak⟩) hquote hslash _
  | @escaped e code hcode hescape =>
    have he : isBreak e = false := hcode e (List.mem_cons_self ..)
    have hbreak : (cellsFrom line (column + 1) (e :: code ++ rest)).head?.any
        (fun c => isBreak c.char) = false := by
      rw [List.cons_append, cellsFrom_inline he]
      simpa using he
    have hplace : column + ('\\' :: e :: code).length = column + 1 + (e :: code).length := by
      simp only [List.length_cons]
      omega
    rw [List.cons_append, cellsFrom_inline (by decide), quotedText_escape hcolumn hbreak (hescape ..),
      hplace]

section
variable {enc : Char → List Char} (hblank : enc ' ' = [' '])
include hblank

theorem flatMap_spaces (n : Nat) : (spaces n).flatMap enc = spaces n := by
  induction n with
  | zero => rfl
  | succ n ih =>
    change enc ' ' ++ (spaces n).flatMap enc = ' ' :: spaces n
    rw [hblank, ih]
    rfl

theorem quotedText_double (line column : Nat) (rest : List Char) {cs : List Char} {fuel : Nat}
    (hcs : ∀ c ∈ cs, DoubleCode c (enc c)) (hcolumn : column ≠ 0) (hfuel : (cs.flatMap enc).length < fuel) :
    quotedText false fuel (cellsFrom line column (cs.flatMap enc ++ '"' :: rest)) =
      some (cs, cellsFrom line (column + (cs.flatMap enc).length + 1) rest) := by
  induction fuel generalizing cs column with
  | zero => exact absurd hfuel (Nat.not_lt_zero _)
  | succ fuel ih =>
    obtain ⟨n, cs', rfl, hhead⟩ := exists_eq_spaces_append cs
    have hcs' : ∀ d ∈ cs', DoubleCode d (enc d) := fun d hd => hcs d (List.mem_append_right _ hd)
    rw [List.flatMap_append, flatMap_spaces hblank] at hfuel ⊢
    rw [List.length_append, length_spaces] at hfuel ⊢
    match n, cs' with
    | 0, [] =>
      rw [List.flatMap_nil, List.append_nil, spaces, List.replicate_zero, List.nil_append,
        cellsFrom_inline (by decide), quotedText_close hcolumn]
      rfl
    | 0, c :: cs' =>
      have hcode := hcs' c (List.mem_cons_self ..)
      rw [List.flatMap_cons, List.length_append] at hfuel ⊢
      have hlength : 0 < (enc c).length := by
        obtain ⟨x, xs, hx, _⟩ := hcode.head (by simpa using hhead)
        simp [hx]
      have htail := ih (column + (enc c).length)
        (fun d hd => hcs' d (List.mem_cons_of_mem _ hd)) (by omega) (by omega)
      simp only [spaces, List.replicate_zero, List.nil_append, List.append_assoc, Nat.zero_add]
      rw [quotedText_code hcode (by simpa using hhead) hcolumn, htail, Option.map_some]
      refine congrArg (fun k => some (c :: cs', cellsFrom line k rest)) ?_
      omega
    | n + 1, cs' =>
      have htail := ih (column + (n + 1)) hcs' (by omega) (by omega)
      -- the gap ends at the closing quote or at what a character other than a blank is written as
      obtain ⟨x, xs, hx, hgap⟩ : ∃ x xs, cs'.flatMap enc ++ '"' :: rest = x :: xs ∧ isGapChar x = false := by
        cases cs' with
        | nil => exact ⟨'"', rest, rfl, by decide⟩
        | cons c cs' =>
          obtain ⟨x, xs, hx, hgap⟩ := (hcs' c (List.mem_cons_self ..)).head (by simpa using hhead)
          exact ⟨x, xs ++ (cs'.flatMap enc ++ '"' :: rest), by simp [hx], hgap⟩
      rw [List.append_assoc, hx]
      rw [hx] at htail
      rw [quotedText_gap hcolumn false (by simp [spaces]) isGapChar_of_mem_spaces (inline_spaces _).kept
        hgap, (inline_spaces _).lineAfter, (inline_spaces _).columnAfter, length_spaces, htail,
        foldGap_spaces, Option.map_some]
      refine congrArg (fun k => some (spaces (n + 1) ++ cs', cellsFrom line k rest)) ?_
      omega

end

/-! ## Escapes -/

theorem hexDigit?_hexDigit : ∀ d, d < 16 → hexDigit? (hexDigit d) = some d ∧ isBreak (hexDigit d) = false := by
  decide

theorem length_hexDigits (width n : Nat) : (hexDigits width n).length = width := by
  induction width generalizing n with
  | zero => rfl
  | succ width ih => simp [hexDigits, ih]

theorem inline_hexDigits (width n : Nat) : Inline (hexDigits width n) := by
  induction width generalizing n with
  | zero => simp [hexDigits, Inline]
  | succ width ih =>
    refine (ih _).append fun c hc => ?_
    rw [List.mem_singleton.mp hc]
    exact (hexDigit?_hexDigit _ (Nat.mod_lt n (by decide))).2

theorem hexNumber?_hexDigits {width n : Nat} (h : n < 16 ^ width) :
    hexNumber? (hexDigits width n) = some n := by
  induction width generalizing n with
  | zero =>
    obtain rfl : n = 0 := by simpa using h
    rfl
  | succ width ih =>
    have hdiv : n / 16 < 16 ^ width := by
      rw [Nat.div_lt_iff_lt_mul (by decide)]
      rwa [Nat.pow_succ] at h
    have hdigit := (hexDigit?_hexDigit (n % 16) (Nat.mod_lt n (by decide))).1
    have hmore := ih hdiv
    unfold hexNumber? at hmore ⊢
    rw [hexDigits, List.foldlM_append, hmore]
    simp [hdigit, Nat.div_add_mod]

theorem codedChar?_of_hexNumber? {ds : List Char} {c : Char} (hinline : Inline ds)
    (h : hexNumber? ds = some c.toNat) (line column : Nat) (rest : List Char) :
    codedChar? ds.length (cellsFrom line column (ds ++ rest)) =
      some (c, cellsFrom line (column + ds.length) rest) := by
  have hlength : (cellsFrom line column ds).length = ds.length := length_cellsFrom hinline.kept ..
  have hvalid : c.toNat < 0xD800 ∨ 0xE000 ≤ c.toNat ∧ c.toNat ≤ 0x10FFFF := by
    have hval : c.toNat = c.val.toNat := rfl
    rcases c.valid with h | ⟨h, h'⟩
    · exact .inl h
    · exact .inr ⟨by omega, by omega⟩
  rw [cellsFrom_inline_append hinline]
  simp [codedChar?, List.take_append_of_le_length (Nat.le_of_eq hlength.symm),
    List.take_of_length_le (Nat.le_of_eq hlength), chars_cellsFrom hinline.kept, h, hlength, hvalid,
    Char.ofNat_toNat]

theorem escape?_of_mem {c letter : Char} (h : (c, letter) ∈ letterEscapes) (l k : Nat) (rest : List Cell) :
    isBreak letter = false ∧ escape? (⟨letter, l, k⟩ :: rest) = some (c, rest) := by
  have hall : ∀ p ∈ letterEscapes, isBreak p.2 = false ∧ escape? (⟨p.2, l, k⟩ :: rest) = some (p.1, rest) := by
    simp [letterEscapes, escape?, isBreak]
  exact hall _ h

theorem doubleCode_letter {c letter : Char} (h : (c, letter) ∈ letterEscapes) : DoubleCode c ['\\', letter] := by
  have hbreak := (escape?_of_mem h 0 0 []).1
  refine .escaped (by simpa [Inline] using hbreak) fun line column rest => ?_
  rw [List.singleton_append, cellsFrom_inline hbreak, (escape?_of_mem h _ _ _).2]
  rfl

theorem doubleCode_hex {e c : Char} {ds : List Char} (hbreak : isBreak e = false)
    (h : ∀ l k rest, escape? (⟨e, l, k⟩ :: rest) = codedChar? ds.length rest) (hinline : Inline ds)
    (hc : hexNumber? ds = some c.toNat) : DoubleCode c ('\\' :: e :: ds) := by
  refine .escaped ?_ fun line column rest => ?_
  · intro d hd
    rcases List.mem_cons.mp hd with rfl | hd
    · exact hbreak
    · exact hinline d hd
  · rw [List.cons_append, cellsFrom_inline hbreak, h, codedChar?_of_hexNumber? hinline hc, List.length_cons,
      Nat.add_right_comm, Nat.add_assoc]

theorem doubleCode_hexDigits {e c : Char} {width : Nat} (hbreak : isBreak e = false)
    (h : ∀ l k rest, escape? (⟨e, l, k⟩ :: rest) = codedChar? width rest) (hc : c.toNat < 16 ^ width) :
    DoubleCode c ('\\' :: e :: hexDigits width c.toNat) :=
  doubleCode_hex hbreak (by rwa [length_hexDigits]) (inline_hexDigits width _) (hexNumber?_hexDigits hc)

theorem doubleCode_escapeCode (c : Char) : DoubleCode c ('\\' :: escapeCode c) := by
  unfold escapeCode
  cases hletter : letterEscapes.lookup c with
  | some letter => exact doubleCode_letter (mem_of_lookup hletter)
  | none =>
    have hmax : c.toNat < 0x110000 := by
      have hval : c.toNat = c.val.toNat := rfl
      rcases c.valid with h | ⟨h, h'⟩ <;> omega
    dsimp only
    split
    · exact doubleCode_hexDigits (by decide) (fun _ _ _ => rfl) (by omega)
    · split
      · exact doubleCode_hexDigits (by decide) (fun _ _ _ => rfl) (by omega)
      · exact doubleCode_hexDigits (by decide) (fun _ _ _ => rfl) (by omega)

theorem doubleCode_double (c : Char) : DoubleCode c
    (if !isPrintable c || isPrintedBreak c || c == '"' || c == '\\' then '\\' :: escapeCode c else [c]) := by
  split
  · exact doubleCode_escapeCode c
  · rename_i h
    simp only [Bool.or_eq_true, Bool.not_eq_true', beq_iff_eq, not_or, Bool.not_eq_false,
      Bool.not_eq_true] at h
    obtain ⟨⟨⟨hprintable, hbreak⟩, hquote⟩, hslash⟩ := h
    exact .raw (isBreak_of_isPrintable hprintable ▸ hbreak) (ne_tab_of_isPrintable hprintable) hquote hslash

theorem inline_doubleBody (cs : List Char) : Inline (doubleBody cs) := by
  intro d hd
  obtain ⟨c, _, hd⟩ := List.mem_flatMap.mp hd
  exact (doubleCode_double c).inline d hd

theorem quotedText_doubleBody (line : Nat) (cs rest : List Char) {column fuel : Nat} (hcolumn : column ≠ 0)
    (hfuel : (doubleBody cs).length < fuel) :
    quotedText false fuel (cellsFrom line column (doubleBody cs ++ '"' :: rest)) =
      some (cs, cellsFrom line (column + (doubleBody cs).length + 1) rest) :=
  quotedText_double rfl line column rest (fun c _ => doubleCode_double c) hcolumn hfuel

/-! ## Single quotes -/

theorem anyPair_append {p : Char → Char → Bool} {a b : List Char} (h : anyPair p (a ++ b) = false) :
    anyPair p b = false := by
  induction a with
  | nil => exact h
  | cons c a ih =>
    refine ih ?_
    cases hab : a ++ b with
    | nil => rfl
    | cons d cs =>
      rw [List.cons_append, hab, anyPair, Bool.or_eq_false_iff] at h
      exact h.2

theorem pair_of_anyPair {p : Char → Char → Bool} {a b : List Char} {x y : Char}
    (h : anyPair p (a ++ x :: y :: b) = false) : p x y = false := by
  have hxy := anyPair_append h
  rw [anyPair, Bool.or_eq_false_iff] at hxy
  exact hxy.1

/-- What a text between single quotes consists of: it can be printed, its lines are ended by separators
alone, and no blank stands beside them. -/
structure SingleText (cs : List Char) : Prop where
  printable : Printable cs
  noNewline : '\n' ∉ cs
  breakSpace : anyPair (fun a b => isPrintedBreak a && b == ' ') cs = false
  spaceBreak : anyPair (fun a b => a == ' ' && isPrintedBreak b) cs = false

theorem SingleText.of_append {a b : List Char} (h : SingleText (a ++ b)) : SingleText b where
  printable c hc := h.printable c (List.mem_append_right _ hc)
  noNewline hn := h.noNewline (List.mem_append_right _ hn)
  breakSpace := anyPair_append h.breakSpace
  spaceBreak := anyPair_append h.spaceBreak

theorem singleBody_breaks (indent : Nat) {bs : List Char} (hb : ∀ b ∈ bs, isPrintedBreak b = true)
    {rest : List Char} (hrest : ∀ c ∈ rest.head?, isPrintedBreak c = false) :
    singleBody indent true (bs ++ rest) = bs ++ (spaces indent ++ singleBody indent false rest) := by
  induction bs with
  | nil =>
    cases rest with
    | nil => simp [singleBody]
    | cons c rest =>
      have hc : isPrintedBreak c = false := hrest c rfl
      simp [singleBody, hc]
  | cons b bs ih =>
    have hbreak := hb b (List.mem_cons_self ..)
    rw [List.cons_append, singleBody, if_pos hbreak, ih fun x hx => hb x (List.mem_cons_of_mem _ hx)]
    rfl

theorem singleBody_spaces (indent n : Nat) (rest : List Char) :
    singleBody indent false (spaces n ++ rest) = spaces n ++ singleBody indent false rest := by
  induction n with
  | zero => rfl
  | succ n ih =>
    change singleBody indent false (' ' :: (spaces n ++ rest)) = ' ' :: (spaces n ++ _)
    rw [singleBody, ih]
    rfl

theorem printable_singleBody (indent : Nat) (broken : Bool) {cs : List Char} (h : Printable cs) :
    Printable (singleBody indent broken cs) := by
  have hindent : ∀ broken : Bool, Printable (if broken then spaces indent else []) := by
    intro broken
    cases broken
    · exact printable_nil
    · exact printable_spaces indent
  induction cs generalizing broken with
  | nil => exact hindent broken
  | cons c cs ih =>
    rw [printable_cons] at h
    rw [singleBody]
    split
    · exact printable_cons.mpr ⟨h.1, ih true h.2⟩
    · refine printable_append.mpr ⟨printable_append.mpr ⟨hindent broken, ?_⟩, ih false h.2⟩
      split
      · decide
      · exact printable_cons.mpr ⟨h.1, printable_nil⟩

/-- After a gap comes what the next character is written as, or the closing quote. -/
theorem singleBody_next (indent : Nat) (rest : List Char) {cs : List Char} (h : SingleText cs)
    (hnext : ∀ c ∈ cs.head?, c ≠ ' ' ∧ isPrintedBreak c = false) :
    ∃ x xs, singleBody indent false cs ++ '\'' :: rest = x :: xs ∧ isGapChar x = false := by
  cases cs with
  | nil => exact ⟨'\'', rest, rfl, by decide⟩
  | cons c cs =>
    have hprintable := h.printable c (List.mem_cons_self ..)
    obtain ⟨hspace, hb⟩ := hnext c rfl
    have hgap : isGapChar c = false := isGapChar_eq_false_iff.mpr
      ⟨hspace, ne_tab_of_isPrintable hprintable, isBreak_of_isPrintable hprintable ▸ hb⟩
    by_cases hq : c = '\''
    · exact ⟨'\'', _, by simp [singleBody, hq, show isPrintedBreak '\'' = false by decide]; rfl, by decide⟩
    · exact ⟨c, _, by simp [singleBody, hq, hb]; rfl, hgap⟩

/-- A text between single quotes that is written with the gap `g` in front, and goes on as `b`. -/
structure SingleGap (indent : Nat) (g b cs : List Char) : Prop where
  body : singleBody indent false cs = g ++ singleBody indent false b
  text : cs = foldGap g ++ b
  after : SingleText b
  next : ∀ c ∈ b.head?, c ≠ ' ' ∧ isPrintedBreak c = false
  ne_nil : g ≠ []
  gap : ∀ c ∈ g, isGapChar c = true
  kept : Kept g
  column : ∀ {column}, column ≠ 0 → columnAfter column g ≠ 0

theorem singleGap_spaces (indent : Nat) {n : Nat} {b : List Char} (hn : n ≠ 0) (h : SingleText (spaces n ++ b))
    (hspace : b.head? ≠ some ' ') : SingleGap indent (spaces n) b (spaces n ++ b) where
  body := singleBody_spaces indent n b
  text := by rw [foldGap_spaces]
  after := h.of_append
  next := by
    intro c hc
    obtain ⟨b', rfl⟩ := List.head?_eq_some_iff.mp hc
    obtain ⟨n, rfl⟩ := Nat.exists_eq_succ_of_ne_zero hn
    have hpair := h.spaceBreak
    rw [spaces, List.replicate_succ', List.append_assoc] at hpair
    exact ⟨by simpa using hspace, by simpa using pair_of_anyPair hpair⟩
  ne_nil := by simpa [spaces] using hn
  gap := isGapChar_of_mem_spaces
  kept := (inline_spaces n).kept
  column := by
    intro column hcolumn
    rw [(inline_spaces n).columnAfter]
    omega

/-- No blank follows a break, so the gap is the breaks and the indentation. -/
theorem singleGap_breaks {indent : Nat} (hindent : indent ≠ 0) {bs b : List Char} (hne : bs ≠ [])
    (hbs : ∀ c ∈ bs, isPrintedBreak c = true) (h : SingleText (bs ++ b))
    (hbreak : ∀ c ∈ b.head?, isPrintedBreak c = false) : SingleGap indent (bs ++ spaces indent) b (bs ++ b) where
  body := by
    rw [List.append_assoc, ← singleBody_breaks indent hbs hbreak]
    cases bs with
    | nil => exact absurd rfl hne
    | cons c bs => simp [singleBody, hbs c (List.mem_cons_self ..)]
  text := by rw [foldGap_breaks hne hbs fun hn => h.noNewline (List.mem_append_left _ hn)]
  after := h.of_append
  next := by
    intro c hc
    refine ⟨?_, hbreak c hc⟩
    rintro rfl
    obtain ⟨b', rfl⟩ := List.head?_eq_some_iff.mp hc
    have hpair := h.breakSpace
    rw [← List.dropLast_append_getLast hne, List.append_assoc] at hpair
    have hnot := pair_of_anyPair hpair
    simp [hbs _ (List.getLast_mem hne)] at hnot
  ne_nil := by simp [hne]
  gap := by
    intro c hc
    rcases List.mem_append.mp hc with hc | hc
    · exact isGapChar_of_isBreak (isBreak_of_isPrintedBreak (hbs c hc))
    · exact isGapChar_of_mem_spaces c hc
  kept := by
    intro c hc
    rcases List.mem_append.mp hc with hc | hc
    · exact breakChar_of_isPrintedBreak (hbs c hc)
    · exact (inline_spaces indent).kept c hc
  column := by
    intro column _
    rw [columnAfter_append, columnAfter_breaks hne fun c hc => isBreak_of_isPrintedBreak (hbs c hc),
      (inline_spaces indent).columnAfter, length_spaces]
    omega

/-- What is written for a text between single quotes is read as the text, up to the closing quote. -/
def SingleReads (indent : Nat) (rest : List Char) (fuel : Nat) (cs : List Char) : Prop :=
  ∀ (line : Nat) {column : Nat}, column ≠ 0 → (singleBody indent false cs).length < fuel →
    quotedText true fuel (cellsFrom line column (singleBody indent false cs ++ '\'' :: rest)) =
      some (cs, cellsFrom (lineAfter line (singleBody indent false cs))
        (columnAfter column (singleBody indent false cs) + 1) rest)

namespace SingleReads
variable {indent fuel : Nat} {rest : List Char}

theorem nil (hrest : rest.head? ≠ some '\'') : SingleReads indent rest (fuel + 1) [] := by
  intro line column hcolumn _
  have hnext : (cellsFrom line (column + 1) rest).head?.any (fun c => c.char == '\'') = false := by
    rw [head?_cellsFrom_any (by decide)]
    simpa using hrest
  change quotedText true (fuel + 1) (cellsFrom line column ('\'' :: rest)) = _
  rw [cellsFrom_inline (by decide), quotedText_single_close hcolumn hnext]
  rfl

theorem quote {cs : List Char} (h : SingleReads indent rest fuel cs) :
    SingleReads indent rest (fuel + 1) ('\'' :: cs) := by
  intro line column hcolumn hfuel
  have hline : isBreak '\'' = false := by decide
  have hbody : singleBody indent false ('\'' :: cs) = '\'' :: '\'' :: singleBody indent false cs := by
    simp [singleBody, show isPrintedBreak '\'' = false by decide]
  rw [hbody] at hfuel ⊢
  rw [List.length_cons, List.length_cons] at hfuel
  rw [List.cons_append, List.cons_append, cellsFrom_inline hline, cellsFrom_inline hline,
    quotedText_single_quote hcolumn, h line (by omega) (by omega)]
  rfl

theorem raw {c : Char} {cs : List Char} (hgap : isGapChar c = false) (hq : c ≠ '\'')
    (h : SingleReads indent rest fuel cs) : SingleReads indent rest (fuel + 1) (c :: cs) := by
  intro line column hcolumn hfuel
  have hline : isBreak c = false := (isGapChar_eq_false_iff.mp hgap).2.2
  have hbody : singleBody indent false (c :: cs) = c :: singleBody indent false cs := by
    have hb : isPrintedBreak c = false := Bool.eq_false_iff.mpr fun hb => by
      rw [isBreak_of_isPrintedBreak hb] at hline
      cases hline
    simp [singleBody, hb, hq]
  rw [hbody] at hfuel ⊢
  rw [List.length_cons] at hfuel
  rw [List.cons_append, cellsFrom_inline hline, quotedText_single_raw hcolumn hgap hq,
    h line (by omega) (by omega), lineAfter_cons hline, columnAfter_cons hline]
  rfl

theorem gap {g b cs : List Char} (hg : SingleGap indent g b cs) (h : SingleReads indent rest fuel b) :
    SingleReads indent rest (fuel + 1) cs := by
  intro line column hcolumn hfuel
  rw [hg.body, List.length_append] at hfuel
  have hlength := List.length_pos_of_ne_nil hg.ne_nil
  have htail := h (lineAfter line g) (hg.column hcolumn) (by omega)
  obtain ⟨x, xs, hx, hxgap⟩ := singleBody_next indent rest hg.after hg.next
  rw [hx] at htail
  rw [hg.body, List.append_assoc, hx, quotedText_gap hcolumn true hg.ne_nil hg.gap hg.kept hxgap, htail,
    lineAfter_append, columnAfter_append, Option.map_some, ← hg.text]

end SingleReads

theorem quotedText_singleBody {indent : Nat} (hindent : indent ≠ 0) {rest : List Char}
    (hrest : rest.head? ≠ some '\'') {cs : List Char} (h : SingleText cs) (fuel : Nat) :
    SingleReads indent rest fuel cs := by
  induction fuel generalizing cs with
  | zero => exact fun _ _ _ hfuel => absurd hfuel (Nat.not_lt_zero _)
  | succ fuel ih =>
    -- a gap of spaces or of breaks comes first, or else a character, a quote or the end
    obtain ⟨n, b, hspaces, hspace⟩ := exists_eq_spaces_append cs
    obtain ⟨bs, b', hbreaks, hbs, hbreak⟩ := exists_eq_breaks_append cs
    by_cases hn : n = 0
    · by_cases hne : bs = []
      · subst hn hne
        obtain rfl : cs = b := hspaces
        obtain rfl : cs = b' := hbreaks
        cases cs with
        | nil => exact .nil hrest
        | cons c cs =>
          have hreads := ih (SingleText.of_append (a := [c]) h)
          have hprintable := h.printable c (List.mem_cons_self ..)
          by_cases hq : c = '\''
          · exact hq ▸ hreads.quote
          · refine hreads.raw (isGapChar_eq_false_iff.mpr ⟨by simpa using hspace, ?_, ?_⟩) hq
            · exact ne_tab_of_isPrintable hprintable
            · exact isBreak_of_isPrintable hprintable ▸ hbreak c rfl
      · have hgap := singleGap_breaks hindent hne hbs (hbreaks ▸ h) hbreak
        exact hbreaks ▸ .gap hgap (ih hgap.after)
    · have hgap := singleGap_spaces indent hn (hspaces ▸ h) hspace
      exact hspaces ▸ .gap hgap (ih hgap.after)

end ApiDocs.Yaml
