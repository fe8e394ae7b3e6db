import ApiDocs.Directive.Key
import Mathlib.Data.List.TakeWhile

/-!
# Keys of a text

The lines of a block are joined to one. A key begins with its only `@` and ends with its only colon. So
two keys of a text never overlap, and a text is cut at its keys in exactly one way, which is the one that
`pieces` finds.
-/

namespace ApiDocs

namespace Text

/-! ## Classes of characters -/

theorem toNat_of_isLetter {c : Char} (h : isLetter c = true) :
    65 ≤ c.toNat ∧ c.toNat ≤ 90 ∨ 97 ≤ c.toNat ∧ c.toNat ≤ 122 := by
  simp only [isLetter, Bool.or_eq_true, Bool.and_eq_true, decide_eq_true_eq, Char.le_def,
    UInt32.le_iff_toNat_le] at h
  rcases h with h | h
  · exact Or.inr h
  · exact Or.inl h

theorem isBlank_of_isLetter {c : Char} (h : isLetter c = true) : isBlank c = false := by
  have := toNat_of_isLetter h
  simp [isBlank]
  omega

/-- The digits of the scripts stand apart from letters, blanks and the marks of a key. -/
theorem zeros_apart : ∀ z ∈ zeros, ∀ i < 10, isLetter (Char.ofNat (z + i)) = false ∧
    isBlank (Char.ofNat (z + i)) = false ∧ Char.ofNat (z + i) ∉ ['@', ':', '*'] := by
  decide +kernel

theorem apart_of_isDecimal {c : Char} (h : isDecimal c = true) :
    isLetter c = false ∧ isBlank c = false ∧ c ∉ ['@', ':', '*'] := by
  simp only [isDecimal, List.any_eq_true, Bool.and_eq_true, decide_eq_true_eq] at h
  obtain ⟨z, hz, hle, hlt⟩ := h
  have hc := zeros_apart z hz (c.toNat - z) (by omega)
  rw [show z + (c.toNat - z) = c.toNat by omega, Char.ofNat_toNat] at hc
  exact hc

theorem takeWhile_append_stop {p : Char → Bool} {l r : List Char} (hl : ∀ c ∈ l, p c = true)
    (hr : ∀ c, r.head? = some c → p c = false) : (l ++ r).takeWhile p = l := by
  rw [List.takeWhile_append_of_pos hl]
  cases r with
  | nil => simp
  | cons c r => simp [hr c rfl]

theorem dropWhile_append_stop {p : Char → Bool} {l r : List Char} (hl : ∀ c ∈ l, p c = true)
    (hr : ∀ c, r.head? = some c → p c = false) : (l ++ r).dropWhile p = r := by
  rw [List.dropWhile_append_of_pos hl]
  cases r with
  | nil => simp
  | cons c r => simp [hr c rfl]

end Text

namespace Directive

open Text

/-! ## The line of a block -/

theorem joinLines_cons {c : Char} {cs : List Char} (h : ¬(c = '\r' ∧ cs.head? = some '\n')) :
    joinLines (c :: cs) = (if c = '\n' ∨ c = '\r' then ' ' else c) :: joinLines cs := by
  rw [joinLines]
  intro cs' hc hcs
  exact h ⟨hc, by rw [hcs]; rfl⟩

theorem joinLines_cons_of_ne {c : Char} (hn : c ≠ '\n') (hr : c ≠ '\r') (cs : List Char) :
    joinLines (c :: cs) = c :: joinLines cs := by
  rw [joinLines_cons (fun h => hr h.1), if_neg]
  simp [hn, hr]

def IsLine (cs : List Char) : Prop := '\n' ∉ cs ∧ '\r' ∉ cs

/-- The text is these lines with an end between any two. A carriage return and the line feed behind it are
one end. -/
inductive IsLines : List Char → List (List Char) → Prop
  | last {line : List Char} (h : IsLine line) : IsLines line [line]
  | feed {line text : List Char} {lines : List (List Char)} (h : IsLine line) (hrest : IsLines text lines) :
      IsLines (line ++ '\n' :: text) (line :: lines)
  | pair {line text : List Char} {lines : List (List Char)} (h : IsLine line) (hrest : IsLines text lines) :
      IsLines (line ++ '\r' :: '\n' :: text) (line :: lines)
  | lone {line text : List Char} {lines : List (List Char)} (h : IsLine line)
      (hfeed : text.head? ≠ some '\n') (hrest : IsLines text lines) :
      IsLines (line ++ '\r' :: text) (line :: lines)

theorem isLine_nil : IsLine [] := by simp [IsLine]

theorem IsLine.cons {c : Char} {line : List Char} (hn : c ≠ '\n') (hr : c ≠ '\r') (h : IsLine line) :
    IsLine (c :: line) := by
  simpa [IsLine, hn.symm, hr.symm] using h

theorem IsLines.exists_cons {c : Char} {text : List Char} {lines : List (List Char)} (hn : c ≠ '\n')
    (hr : c ≠ '\r') (h : IsLines text lines) : ∃ lines', IsLines (c :: text) lines' := by
  cases h with
  | last h => exact ⟨_, .last (h.cons hn hr)⟩
  | feed h hrest => exact ⟨_, .feed (h.cons hn hr) hrest⟩
  | pair h hrest => exact ⟨_, .pair (h.cons hn hr) hrest⟩
  | lone h hfeed hrest => exact ⟨_, .lone (h.cons hn hr) hfeed hrest⟩

theorem exists_isLines (text : List Char) : ∃ lines, IsLines text lines := by
  fun_induction joinLines text with
  | case1 => exact ⟨_, .last isLine_nil⟩
  | case2 cs ih =>
    obtain ⟨lines, hlines⟩ := ih
    exact ⟨_, .pair isLine_nil hlines⟩
  | case3 c cs h ih =>
    obtain ⟨lines, hlines⟩ := ih
    by_cases hn : c = '\n'
    · subst hn
      exact ⟨_, .feed isLine_nil hlines⟩
    · by_cases hr : c = '\r'
      · subst hr
        have hfeed : cs.head? ≠ some '\n' := by
          intro hhead
          obtain ⟨cs', hcs⟩ := List.head?_eq_some_iff.mp hhead
          exact h cs' rfl hcs
        exact ⟨_, .lone isLine_nil hfeed hlines⟩
      · exact hlines.exists_cons hn hr

theorem IsLine.joinLines_append {line : List Char} (h : IsLine line) (text : List Char) :
    joinLines (line ++ text) = line ++ joinLines text := by
  induction line with
  | nil => rfl
  | cons c line ih =>
    simp only [IsLine, List.mem_cons, not_or] at h
    rw [List.cons_append, joinLines_cons_of_ne (Ne.symm h.1.1) (Ne.symm h.2.1), ih ⟨h.1.2, h.2.2⟩,
      List.cons_append]

theorem IsLines.ne_nil {text : List Char} {lines : List (List Char)} (h : IsLines text lines) : lines ≠ [] := by
  cases h <;> simp

theorem IsLines.joinLines_eq {text : List Char} {lines : List (List Char)} (h : IsLines text lines) :
    joinLines text = [' '].intercalate lines := by
  induction h with
  | @last line h =>
    have hline := h.joinLines_append []
    simpa [joinLines] using hline
  | feed h hrest ih =>
    rw [h.joinLines_append, joinLines_cons (by simp), ih, List.intercalate_cons_of_ne_nil hrest.ne_nil]
    simp
  | pair h hrest ih =>
    rw [h.joinLines_append, joinLines, ih, List.intercalate_cons_of_ne_nil hrest.ne_nil]
    simp
  | lone h hfeed hrest ih =>
    rw [h.joinLines_append, joinLines_cons (by simp [hfeed]), ih,
      List.intercalate_cons_of_ne_nil hrest.ne_nil]
    simp

theorem normalize_of_isLines {block : String} {lines : List (List Char)} (h : IsLines block.toList lines) :
    normalize block = trim (" ".intercalate (lines.map String.ofList)) := by
  have htext : (" ".intercalate (lines.map String.ofList)).toList = [' '].intercalate lines := by
    simp [String.toList_intercalate, Function.comp_def]
  rw [normalize, h.joinLines_eq, ← htext, String.ofList_toList]

/-- The line of a block is its lines with one blank between any two, trimmed. -/
theorem normalize_lines (block : String) : ∃ lines, IsLines block.toList lines ∧
    normalize block = trim (" ".intercalate (lines.map String.ofList)) := by
  obtain ⟨lines, hlines⟩ := exists_isLines block.toList
  exact ⟨lines, hlines, normalize_of_isLines hlines⟩

example : normalize "\n@apiPath: /a\r\n  @apiMethod: GET\r" = "@apiPath: /a   @apiMethod: GET" := by decide

/-- A block on one line is only trimmed, so one without blanks around it is left as it is. -/
theorem normalize_of_isLine {block : String} (h : IsLine block.toList) : normalize block = trim block := by
  rw [normalize_of_isLines (.last h)]
  simp

/-! ## Keys as they are written -/

@[ext]
structure Spelling where
  letters : List Char
  digits : List Char
  blanks : List Char
  letters_ne_nil : letters ≠ []
  letters_isLetter : ∀ c ∈ letters, isLetter c = true
  digits_isDecimal : ∀ c ∈ digits, isDecimal c = true
  blanks_isBlank : ∀ c ∈ blanks, isBlank c = true

namespace Spelling

variable (s : Spelling)

def key : Key := ⟨s.letters, s.digits⟩

def afterLetters : List Char := s.digits ++ (s.blanks ++ [':'])

def tail : List Char := 'a' :: 'p' :: 'i' :: (s.letters ++ s.afterLetters)

def chars : List Char := '@' :: s.tail

theorem head?_blanks (rest : List Char) {c : Char} (h : (s.blanks ++ ':' :: rest).head? = some c) :
    isLetter c = false ∧ isDecimal c = false := by
  have hc : c ∈ s.blanks ∨ c = ':' := by
    cases hb : s.blanks with
    | nil => simp [hb] at h; exact Or.inr h.symm
    | cons b bs => simp [hb] at h; simp [h]
  rcases hc with hc | rfl
  · have hblank := s.blanks_isBlank c hc
    constructor
    · by_contra hl
      simp [isBlank_of_isLetter (eq_true_of_ne_false hl)] at hblank
    · by_contra hd
      simp [(apart_of_isDecimal (eq_true_of_ne_false hd)).2.1] at hblank
  · decide

theorem head?_digits (rest : List Char) {c : Char}
    (h : (s.digits ++ (s.blanks ++ ':' :: rest)).head? = some c) : isLetter c = false := by
  cases hd : s.digits with
  | nil =>
    rw [hd, List.nil_append] at h
    exact (s.head?_blanks rest h).1
  | cons d ds =>
    have : d = c := by simpa [hd] using h
    subst this
    exact (apart_of_isDecimal (s.digits_isDecimal d (by simp [hd]))).1

theorem read?_chars (rest : List Char) : Key.read? (s.chars ++ rest) = some (s.key, rest) := by
  have hletters := takeWhile_append_stop s.letters_isLetter fun _ => s.head?_digits rest
  have hafter := dropWhile_append_stop s.letters_isLetter fun _ => s.head?_digits rest
  have hdigits := takeWhile_append_stop s.digits_isDecimal fun _ h => (s.head?_blanks rest h).2
  have hrest := dropWhile_append_stop s.digits_isDecimal fun _ h => (s.head?_blanks rest h).2
  have hblanks : dropBlank (s.blanks ++ ':' :: rest) = ':' :: rest :=
    dropWhile_append_stop s.blanks_isBlank (by simp; decide)
  have hne : s.letters.isEmpty = false := by
    rw [List.isEmpty_eq_false_iff]
    exact s.letters_ne_nil
  simp only [chars, tail, afterLetters, List.cons_append, List.append_assoc, List.nil_append, Key.read?]
  rw [hafter, hrest, hblanks, hletters, hdigits, hne]
  rfl

end Spelling

theorem exists_spelling_of_read? {cs rest : List Char} {k : Key} (h : Key.read? cs = some (k, rest)) :
    ∃ s : Spelling, s.key = k ∧ cs = s.chars ++ rest := by
  unfold Key.read? at h
  split at h
  · rename_i cs
    simp only at h
    split at h
    · rename_i r hr
      split at h
      · simp at h
      · rename_i hne
        simp only [Option.some.injEq, Prod.mk.injEq] at h
        obtain ⟨rfl, rfl⟩ := h
        refine ⟨⟨cs.takeWhile isLetter, (cs.dropWhile isLetter).takeWhile isDecimal,
          ((cs.dropWhile isLetter).dropWhile isDecimal).takeWhile isBlank, by simpa using hne,
          fun c hc => List.mem_takeWhile_imp hc, fun c hc => List.mem_takeWhile_imp hc,
          fun c hc => List.mem_takeWhile_imp hc⟩, rfl, ?_⟩
        have hblank : ((cs.dropWhile isLetter).dropWhile isDecimal).takeWhile isBlank ++ ':' :: r =
            (cs.dropWhile isLetter).dropWhile isDecimal := by
          rw [← hr]
          exact List.takeWhile_append_dropWhile
        simp only [Spelling.chars, Spelling.tail, Spelling.afterLetters, List.cons_append,
          List.append_assoc, List.nil_append]
        rw [hblank, List.takeWhile_append_dropWhile, List.takeWhile_append_dropWhile]
    · simp at h
  · simp at h

namespace Spelling

theorem eq_of_chars_append {s s' : Spelling} {r r' : List Char} (h : s.chars ++ r = s'.chars ++ r') :
    s = s' ∧ r = r' := by
  have hread := s.read?_chars r
  rw [h, s'.read?_chars r'] at hread
  simp only [Option.some.injEq, Prod.mk.injEq, key, Key.mk.injEq] at hread
  obtain ⟨⟨hletters, hdigits⟩, rfl⟩ := hread
  refine ⟨?_, rfl⟩
  apply Spelling.ext hletters.symm hdigits.symm
  have hchars := List.append_cancel_right h
  simpa [chars, tail, afterLetters, hletters, hdigits] using hchars

variable (s : Spelling)

/-- Only letters, digits, blanks and the colon follow the `@`. -/
theorem mem_tail {c : Char} (h : c ∈ s.tail) :
    isLetter c = true ∨ isDecimal c = true ∨ isBlank c = true ∨ c = ':' := by
  simp only [tail, afterLetters, List.mem_cons, List.mem_append, List.not_mem_nil, or_false] at h
  rcases h with rfl | rfl | rfl | h | h | h | h
  · decide
  · decide
  · decide
  · exact Or.inl (s.letters_isLetter c h)
  · exact Or.inr (Or.inl (s.digits_isDecimal c h))
  · exact Or.inr (Or.inr (Or.inl (s.blanks_isBlank c h)))
  · exact Or.inr (Or.inr (Or.inr h))

theorem not_mem_tail {c : Char} (hc : c = '@' ∨ c = '*') : c ∉ s.tail := by
  intro h
  have hmem := s.mem_tail h
  rcases hc with rfl | rfl
  · exact absurd hmem (by decide +kernel)
  · exact absurd hmem (by decide +kernel)

end Spelling

/-! ## Cuts -/

def Keyless (cs : List Char) : Prop := ∀ s : Spelling, ¬s.chars <:+: cs

theorem Keyless.mono {cs ds : List Char} (h : Keyless cs) (hd : ds <:+: cs) : Keyless ds :=
  fun s hs => h s (hs.trans hd)

theorem keyless_nil : Keyless [] := by
  intro s h
  have := List.infix_nil.mp h
  simp [Spelling.chars] at this

def spelled (parts : List (Spelling × List Char)) : List Char := parts.flatMap fun p => p.1.chars ++ p.2

@[simp] theorem spelled_nil : spelled [] = [] := rfl

@[simp] theorem spelled_cons (p : Spelling × List Char) (ps : List (Spelling × List Char)) :
    spelled (p :: ps) = p.1.chars ++ (p.2 ++ spelled ps) := by
  simp [spelled]

@[simp] theorem spelled_append (ps qs : List (Spelling × List Char)) :
    spelled (ps ++ qs) = spelled ps ++ spelled qs := List.flatMap_append

/-- A text cut at all its keys. -/
@[ext]
structure Cut (text : List Char) where
  lead : List Char
  parts : List (Spelling × List Char)
  text_eq : text = lead ++ spelled parts
  lead_keyless : Keyless lead
  raw_keyless : ∀ p ∈ parts, Keyless p.2

theorem head?_spelled {parts : List (Spelling × List Char)} {c : Char}
    (h : (spelled parts).head? = some c) : c = '@' := by
  cases parts with
  | nil => simp at h
  | cons p parts =>
    simp [Spelling.chars] at h
    exact h.symm

/-- The text before the first key ends where that key begins. -/
theorem eq_nil_of_spelled_eq {a x : List Char} {ps qs : List (Spelling × List Char)}
    (ha : Keyless (a ++ x)) (h : spelled ps = x ++ spelled qs) : x = [] := by
  by_contra hx
  cases ps with
  | nil =>
    simp at h
    exact hx h.1
  | cons p ps =>
    rw [spelled_cons] at h
    rcases List.append_eq_append_iff.mp h with ⟨y, rfl, -⟩ | ⟨y, hy, hq⟩
    · exact ha p.1 ⟨a, y, by simp⟩
    · cases y with
      | nil => exact ha p.1 ⟨a, [], by simp [hy]⟩
      | cons c y =>
        -- the next `@` would stand inside this key
        have hc : c = '@' := head?_spelled (by rw [hq]; rfl)
        obtain ⟨d, x, rfl⟩ := List.exists_cons_of_ne_nil hx
        have htail : p.1.tail = x ++ c :: y := (List.cons.inj hy).2
        exact p.1.not_mem_tail (Or.inl hc) (by simp [htail])

theorem lead_unique {a b : List Char} {ps qs : List (Spelling × List Char)} (ha : Keyless a)
    (hb : Keyless b) (h : a ++ spelled ps = b ++ spelled qs) : a = b := by
  rcases List.append_eq_append_iff.mp h with ⟨x, rfl, hx⟩ | ⟨x, rfl, hx⟩
  · simp [eq_nil_of_spelled_eq hb hx]
  · simp [eq_nil_of_spelled_eq ha hx]

theorem parts_unique : ∀ {ps qs : List (Spelling × List Char)}, (∀ p ∈ ps, Keyless p.2) →
    (∀ q ∈ qs, Keyless q.2) → spelled ps = spelled qs → ps = qs
  | [], [], _, _, _ => rfl
  | [], q :: qs, _, _, h => by simp [Spelling.chars] at h
  | p :: ps, [], _, _, h => by simp [Spelling.chars] at h
  | p :: ps, q :: qs, hp, hq, h => by
    rw [spelled_cons, spelled_cons] at h
    obtain ⟨hkey, hraw⟩ := Spelling.eq_of_chars_append h
    have hlead : p.2 = q.2 := lead_unique (hp p (by simp)) (hq q (by simp)) hraw
    rw [hlead] at hraw
    have ih := parts_unique (fun x hx => hp x (by simp [hx])) (fun x hx => hq x (by simp [hx]))
      (List.append_cancel_left hraw)
    rw [Prod.ext hkey hlead, ih]

theorem Cut.unique {text : List Char} (a b : Cut text) : a = b := by
  have h : a.lead ++ spelled a.parts = b.lead ++ spelled b.parts := by rw [← a.text_eq, ← b.text_eq]
  have hlead := lead_unique a.lead_keyless b.lead_keyless h
  rw [hlead] at h
  exact Cut.ext hlead (parts_unique a.raw_keyless b.raw_keyless (List.append_cancel_left h))

def Cut.pieces {text : List Char} (cut : Cut text) : Pieces :=
  ⟨cut.lead, cut.parts.map fun p => (p.1.key, p.2)⟩

theorem exists_cut (cs : List Char) : ∃ cut : Cut cs, cut.pieces = pieces cs := by
  fun_induction pieces cs with
  | case1 => exact ⟨⟨[], [], rfl, keyless_nil, by simp⟩, rfl⟩
  | case2 c cs k rest h next ih =>
    obtain ⟨s, rfl, hs⟩ := exists_spelling_of_read? h
    obtain ⟨cut, hcut⟩ := ih
    refine ⟨⟨[], (s, cut.lead) :: cut.parts, ?_, keyless_nil, ?_⟩, ?_⟩
    · rw [hs, List.nil_append, spelled_cons]
      exact congrArg (s.chars ++ ·) cut.text_eq
    · intro p hp
      rcases List.mem_cons.mp hp with rfl | hp
      · exact cut.lead_keyless
      · exact cut.raw_keyless p hp
    · simp [Cut.pieces, ← hcut, next]
  | case3 c cs h next ih =>
    obtain ⟨cut, hcut⟩ := ih
    refine ⟨⟨c :: cut.lead, cut.parts, ?_, ?_, cut.raw_keyless⟩, ?_⟩
    · exact congrArg (c :: ·) cut.text_eq
    · intro s hs
      -- a key at the front would have been read
      rcases List.infix_cons_iff.mp hs with ⟨x, hx⟩ | hs
      · have hcs : c :: cs = s.chars ++ (x ++ spelled cut.parts) := by
          rw [← List.append_assoc, hx, List.cons_append]
          exact congrArg (c :: ·) cut.text_eq
        rw [hcs, s.read?_chars] at h
        simp at h
      · exact cut.lead_keyless s hs
    · simp [Cut.pieces, ← hcut, next]

/-- Every key of the text is one of its cut, at the place where it stands. -/
theorem Cut.finds {before after : List Char} {s : Spelling} (cut : Cut (before ++ (s.chars ++ after))) :
    ∃ ps raw qs, cut.parts = ps ++ (s, raw) :: qs ∧ before = cut.lead ++ spelled ps ∧
      after = raw ++ spelled qs := by
  obtain ⟨first, -⟩ := exists_cut before
  obtain ⟨last, -⟩ := exists_cut after
  have hraw : ∀ p ∈ first.parts ++ (s, last.lead) :: last.parts, Keyless p.2 := by
    intro p hp
    rcases List.mem_append.mp hp with hp | hp
    · exact first.raw_keyless p hp
    · rcases List.mem_cons.mp hp with rfl | hp
      · exact last.lead_keyless
      · exact last.raw_keyless p hp
  have htext : before ++ (s.chars ++ after) =
      first.lead ++ spelled (first.parts ++ (s, last.lead) :: last.parts) := by
    rw [spelled_append, spelled_cons, ← List.append_assoc first.lead, ← first.text_eq, ← last.text_eq]
  have hcut := cut.unique ⟨first.lead, _, htext, first.lead_keyless, hraw⟩
  rw [hcut]
  exact ⟨first.parts, last.lead, last.parts, rfl, first.text_eq, last.text_eq⟩

theorem trimChars_isInfix (cs : List Char) : trimChars cs <:+: cs := by
  have hback : trimChars cs <+: dropBlank cs := by
    rw [← List.reverse_suffix, trimChars, List.reverse_reverse]
    exact List.dropWhile_suffix isBlank
  exact hback.isInfix.trans (List.dropWhile_suffix isBlank).isInfix

/-- The line of a block is cut at its keys in exactly one way, and its directives are the keys of that
cut with the trimmed texts between them. No key of the line is left out, and no value holds a key. -/
theorem ofBlock_of_cut (block : String) :
    ∃ cut : Cut (normalize block).toList, (∀ other : Cut (normalize block).toList, other = cut) ∧
      ofBlock block = cut.parts.map (fun p => {
        name := String.ofList p.1.letters
        code := String.ofList p.1.digits
        value := trim (String.ofList p.2) }) ∧
      (∀ before s after, (normalize block).toList = before ++ (Spelling.chars s ++ after) →
        ∃ ps raw qs, cut.parts = ps ++ (s, raw) :: qs ∧ before = cut.lead ++ spelled ps) ∧
      ∀ d ∈ ofBlock block, Keyless d.value.toList := by
  obtain ⟨cut, hcut⟩ := exists_cut (normalize block).toList
  have hblock : ofBlock block = cut.parts.map (fun p => {
      name := String.ofList p.1.letters
      code := String.ofList p.1.digits
      value := trim (String.ofList p.2) }) := by
    unfold ofBlock
    rw [← hcut]
    simp [Cut.pieces, ofPiece, trim, Spelling.key]
  refine ⟨cut, fun other => other.unique cut, hblock, ?_, ?_⟩
  · intro before s after htext
    revert cut
    rw [htext]
    intro cut _ _
    obtain ⟨ps, raw, qs, hparts, hbefore, -⟩ := cut.finds
    exact ⟨ps, raw, qs, hparts, hbefore⟩
  · intro d hd
    rw [hblock] at hd
    obtain ⟨p, hp, rfl⟩ := List.mem_map.mp hd
    have := (cut.raw_keyless p hp).mono (trimChars_isInfix p.2)
    simpa [trim] using this

end Directive

end ApiDocs
