import ApiDocs.Json.Read
import ApiDocs.Json.Write
import ApiDocs.Proofs.Reading

/-!
# JSON texts of trees

A tree that is written as JSON is read back with a type for every scalar. The statements about values,
items and entries are streaming: any text may follow, as long as it cannot go on with a number.
-/

namespace ApiDocs.Json

/-! ## Texts -/

theorem hex4?_escape : ∀ n, n < 32 → hex4? '0' '0' (hexDigit (n / 16)) (hexDigit (n % 16)) = some n := by
  decide

theorem units_letter {e d : Char} (hu : e ≠ 'u') (he : letterEscape? e = some d) (rest : List Char) :
    units ('\\' :: e :: rest) = (units rest).map fun r => (d.toNat :: r.1, r.2) := by
  rw [units.eq_3 e rest fun _ _ _ _ _ h _ => hu h, he]
  cases units rest <;> rfl

theorem units_plain {c : Char} (h₁ : c ≠ '"') (h₂ : c ≠ '\\') (h₃ : ¬c.toNat < 32) (rest : List Char) :
    units (c :: rest) = (units rest).map fun r => (c.toNat :: r.1, r.2) := by
  rw [units.eq_4 c rest h₁ (fun _ _ _ _ _ h _ => h₂ h) (fun _ _ h _ => h₂ h), if_neg h₃]

theorem letterEscape?_of_lookup {c letter : Char} (h : letterEscapes.lookup c = some letter) :
    letter ≠ 'u' ∧ letterEscape? letter = some c := by
  have hall : ∀ p ∈ letterEscapes, p.2 ≠ 'u' ∧ letterEscape? p.2 = some p.1 := by decide
  exact hall _ (mem_of_lookup h)

/-- A character without a letter is no quote, no backslash and no tab. -/
theorem ne_of_lookup_eq_none {c : Char} (h : letterEscapes.lookup c = none) : c ≠ '"' ∧ c ≠ '\\' ∧ c ≠ '\t' := by
  refine ⟨?_, ?_, ?_⟩ <;>
  · rintro rfl
    cases h

theorem units_escape (c : Char) (rest : List Char) :
    units (escape c ++ rest) = (units rest).map fun r => (c.toNat :: r.1, r.2) := by
  unfold escape
  cases hletter : letterEscapes.lookup c with
  | some letter =>
    obtain ⟨hu, hread⟩ := letterEscape?_of_lookup hletter
    exact units_letter hu hread rest
  | none =>
    obtain ⟨hquote, hslash, -⟩ := ne_of_lookup_eq_none hletter
    dsimp only
    split
    · rename_i h
      simp only [List.cons_append, List.nil_append]
      rw [units, hex4?_escape _ h]
      cases units rest <;> rfl
    · rename_i h
      exact units_plain hquote hslash h rest

theorem units_flatMap_escape (rest : List Char) : ∀ cs : List Char,
    units (cs.flatMap escape ++ '"' :: rest) = some (cs.map Char.toNat, rest)
  | [] => by simp [units]
  | c :: cs => by
    rw [List.flatMap_cons, List.append_assoc, units_escape, units_flatMap_escape rest cs]
    rfl

theorem joinSurrogates_toNat : ∀ cs : List Char, joinSurrogates (cs.map Char.toNat) = some cs
  | [] => rfl
  | c :: cs => by
    have hc : c.toNat < 0xD800 ∨ 0xE000 ≤ c.toNat := by
      have hv : c.toNat < 55296 ∨ 57343 < c.toNat ∧ c.toNat < 1114112 := c.valid
      omega
    rw [List.map_cons, joinSurrogates.eq_def]
    simp only [hc, if_true, joinSurrogates_toNat cs, Char.ofNat_toNat]
    rfl

theorem text_quote (s : String) (rest : List Char) :
    text (s.toList.flatMap escape ++ '"' :: rest) = some (.text s, rest) := by
  simp [text, units_flatMap_escape, joinSurrogates_toNat, String.ofList_toList]

/-! ## Numbers -/

/-- A text that follows a value. -/
def Ends (rest : List Char) : Prop := ∀ c ∈ rest.head?, c = ',' ∨ c = '\n'

theorem ends_nil : Ends [] := by
  intro c h
  cases h

theorem ends_comma (rest : List Char) : Ends (',' :: rest) := by
  intro c h
  cases h
  exact Or.inl rfl

theorem ends_newline (n : Nat) (rest : List Char) : Ends (newline n ++ rest) := by
  intro c h
  cases h
  exact Or.inr rfl

section
variable {rest : List Char} (hr : Ends rest)
include hr

theorem takeWhile_digits : rest.takeWhile isDigit = [] ∧ rest.dropWhile isDigit = rest := by
  cases rest with
  | nil => exact ⟨rfl, rfl⟩
  | cons c rest => obtain rfl | rfl := hr c rfl <;> exact ⟨rfl, rfl⟩

theorem fraction_of_ends : fraction rest = some (false, rest) := by
  cases rest with
  | nil => rfl
  | cons c rest => obtain rfl | rfl := hr c rfl <;> rfl

theorem exponent_of_ends : exponent rest = some (false, rest) := by
  cases rest with
  | nil => rfl
  | cons c rest => obtain rfl | rfl := hr c rfl <;> rfl

end

theorem isDigit_of_mem {n : Nat} {c : Char} (h : c ∈ Nat.toDigits 10 n) : isDigit c = true :=
  Nat.isDigit_of_mem_toDigits (by decide) (by decide) h

theorem toDigits_zero_head {n : Nat} {cs : List Char} (h : Nat.toDigits 10 n = '0' :: cs) : cs = [] := by
  induction n using Nat.strongRecOn generalizing cs with
  | ind n ih =>
    by_cases hn : n < 10
    · rw [Nat.toDigits_of_lt_base hn, List.cons.injEq] at h
      exact h.2.symm
    · rw [Nat.toDigits_of_base_le (by decide) (by omega)] at h
      obtain ⟨c, ds, hd⟩ := List.exists_cons_of_ne_nil (@Nat.toDigits_ne_nil (n / 10) 10)
      rw [hd, List.cons_append, List.cons.injEq] at h
      obtain ⟨rfl, -⟩ := h
      have hds := ih (n / 10) (by omega) hd
      have hv : n / 10 = 0 := by
        rw [← @Nat.ofDigitChars_ten_toDigits (n / 10), hd, hds]
        rfl
      omega

theorem toList_toString (n : Int) : (toString n).toList =
    if n < 0 then '-' :: Nat.toDigits 10 n.natAbs else Nat.toDigits 10 n.natAbs := by
  have hnat : ∀ m : Nat, (Nat.repr m).toList = Nat.toDigits 10 m := fun m => by
    rw [Nat.repr_eq_ofList_toDigits, String.toList_ofList]
  cases n with
  | ofNat m =>
    have hm : ¬Int.ofNat m < 0 := Int.not_lt.mpr (Int.natCast_nonneg m)
    rw [if_neg hm]
    exact hnat m
  | negSucc m =>
    change ("-" ++ Nat.repr (m + 1)).toList = _
    rw [if_pos (Int.negSucc_lt_zero m), String.toList_append, hnat]
    rfl

def numberDatum (negative : Bool) (n : Nat) : Datum :=
  if negative then if n ≠ 0 ∧ Word.Signed 64 (-(n : Int)) then .integer (-(n : Int)) else .real
  else if Word.Unsigned 64 n then .integer n else .real

theorem number_digits (negative : Bool) (n : Nat) {rest : List Char} (hr : Ends rest) :
    number ((if negative then ['-'] else []) ++ (Nat.toDigits 10 n ++ rest)) =
      some (numberDatum negative n, rest) := by
  have htake : (Nat.toDigits 10 n ++ rest).takeWhile isDigit = Nat.toDigits 10 n := by
    rw [List.takeWhile_append_of_pos fun c hc => isDigit_of_mem hc, (takeWhile_digits hr).1, List.append_nil]
  have hdrop : (Nat.toDigits 10 n ++ rest).dropWhile isDigit = rest := by
    rw [List.dropWhile_append_of_pos fun c hc => isDigit_of_mem hc, (takeWhile_digits hr).2]
  have hvalue : digitsValue (Nat.toDigits 10 n) = n := Nat.ofDigitChars_ten_toDigits
  unfold number
  split
  rename_i sign body hb
  have hbody : sign = negative ∧ body = Nat.toDigits 10 n ++ rest := by
    cases negative with
    | true =>
      cases hb
      exact ⟨rfl, rfl⟩
    | false =>
      split at hb
      · rename_i h
        obtain ⟨c, cs, hd⟩ := List.exists_cons_of_ne_nil (@Nat.toDigits_ne_nil n 10)
        have hdigit : isDigit c = true := isDigit_of_mem (hd ▸ List.mem_cons_self ..)
        rw [hd] at h
        cases h
        cases hdigit
      · cases hb
        exact ⟨rfl, rfl⟩
  obtain ⟨rfl, rfl⟩ := hbody
  simp only [htake, hdrop, hvalue]
  rw [if_neg]
  · rw [fraction_of_ends hr]
    simp [exponent_of_ends hr, numberDatum]
  · split
    · rename_i h
      exact absurd h Nat.toDigits_ne_nil
    · rename_i h
      rw [toDigits_zero_head h]
      decide
    · decide

theorem numberDatum_natAbs (n : Int) : numberDatum (n < 0) n.natAbs = (Tree.number n).datum := by
  rw [Tree.datum, numberDatum]
  have hs := Word.signed_64_iff n
  have hspan : (Word.span 64 : Int) = 18446744073709551616 := by decide
  by_cases hn : n < 0
  · have habs : (-(n.natAbs : Int)) = n := by omega
    have hfits : Word.Fits 64 n ↔ Word.Signed 64 n := by
      rw [Word.Fits, Word.Unsigned, hs, hspan]
      omega
    simp only [hn, decide_true, habs, hfits, if_true]
    have h0 : n.natAbs ≠ 0 := by omega
    simp [h0]
  · have habs : (n.natAbs : Int) = n := by omega
    have hfits : Word.Fits 64 n ↔ Word.Unsigned 64 n := by
      rw [Word.Fits, Word.Unsigned, hs, hspan]
      omega
    simp only [hn, decide_false, habs, hfits]
    rfl

theorem number_toString (n : Int) {rest : List Char} (hr : Ends rest) :
    number ((toString n).toList ++ rest) = some ((Tree.number n).datum, rest) := by
  have h := number_digits (n < 0) n.natAbs hr
  rw [numberDatum_natAbs] at h
  rw [← h, toList_toString]
  by_cases hn : n < 0 <;> simp [hn]

/-! ## Blanks -/

theorem skipSpace_newline (n : Nat) (cs : List Char) : skipSpace (newline n ++ cs) = skipSpace cs := by
  have hspace : ∀ c ∈ newline n, isSpace c = true := by
    intro c hc
    rcases List.mem_cons.mp hc with rfl | hc
    · decide
    · rw [List.eq_of_mem_replicate hc]
      decide
  exact List.dropWhile_append_of_pos hspace

theorem value_newline (fuel n : Nat) (cs : List Char) : value fuel (newline n ++ cs) = value fuel cs := by
  cases fuel with
  | zero => rfl
  | succ fuel => rw [value, value, skipSpace_newline]

theorem items_newline (fuel n : Nat) (cs : List Char) : items fuel (newline n ++ cs) = items fuel cs := by
  cases fuel with
  | zero => rfl
  | succ fuel => rw [items, items, value_newline]

theorem entries_newline (fuel n : Nat) (cs : List Char) :
    entries fuel (newline n ++ cs) = entries fuel cs := by
  cases fuel with
  | zero => rfl
  | succ fuel => rw [entries, entries, skipSpace_newline]

theorem skipSpace_of_not {c : Char} (h : isSpace c = false) (cs : List Char) :
    skipSpace (c :: cs) = c :: cs := by
  rw [skipSpace, List.dropWhile_cons, h]
  rfl

/-! ## Values -/

def StartsNumber (c : Char) : Prop := isDigit c = true ∨ c = '-'

theorem StartsNumber.not {c d : Char} (hc : StartsNumber c) (hd : isDigit d = false) (hm : d ≠ '-') :
    c ≠ d := by
  rintro rfl
  rcases hc with h | h
  · rw [h] at hd
    cases hd
  · exact hm h

theorem StartsNumber.isSpace {c : Char} (hc : StartsNumber c) : isSpace c = false := by
  unfold Json.isSpace
  simp [hc.not (d := ' ') rfl (by decide), hc.not (d := '\n') rfl (by decide),
    hc.not (d := '\t') rfl (by decide), hc.not (d := '\r') rfl (by decide)]

theorem toString_head (n : Int) : ∃ c cs, (toString n).toList = c :: cs ∧ StartsNumber c := by
  rw [toList_toString]
  obtain ⟨c, cs, hd⟩ := List.exists_cons_of_ne_nil (@Nat.toDigits_ne_nil n.natAbs 10)
  split
  · exact ⟨_, _, rfl, Or.inr rfl⟩
  · exact ⟨c, cs, hd, Or.inl (isDigit_of_mem (hd ▸ List.mem_cons_self ..))⟩

theorem value_number (fuel : Nat) (n : Int) {rest : List Char} (hr : Ends rest) :
    value (fuel + 1) ((toString n).toList ++ rest) = some ((Tree.number n).datum, rest) := by
  obtain ⟨c, cs, hcs, hc⟩ := toString_head n
  rw [← number_toString n hr, hcs, List.cons_append, value, skipSpace_of_not hc.isSpace]
  split
  · rename_i h
    cases h
    exact absurd rfl (hc.not (d := '"') rfl (by decide))
  · rename_i h
    cases h
    exact absurd rfl (hc.not (d := '[') rfl (by decide))
  · rename_i h
    cases h
    exact absurd rfl (hc.not (d := '{') rfl (by decide))
  · rename_i h
    cases h
    exact absurd rfl (hc.not (d := 'n') rfl (by decide))
  · rename_i h
    cases h
    exact absurd rfl (hc.not (d := 't') rfl (by decide))
  · rename_i h
    cases h
    exact absurd rfl (hc.not (d := 'f') rfl (by decide))
  · rfl

theorem value_quote (fuel : Nat) (s : String) (rest : List Char) :
    value (fuel + 1) (quote s ++ rest) = some (.text s, rest) := by
  have h : quote s ++ rest = '"' :: (s.toList.flatMap escape ++ '"' :: rest) := by
    simp [quote]
  rw [h, value, skipSpace_of_not (by decide), ← text_quote s rest]
  rfl

theorem value_list (fuel : Nat) {c : Char} {cs : List Char} (hs : isSpace c = false) (hc : c ≠ ']') (n : Nat) :
    value (fuel + 1) ('[' :: (newline n ++ c :: cs)) =
      (items fuel (c :: cs)).map fun r => (.list r.1, r.2) := by
  rw [value, skipSpace_of_not (by decide)]
  simp only [skipSpace_newline, skipSpace_of_not hs]
  split
  · rename_i h
    cases h
    exact absurd rfl hc
  · rfl

theorem value_object (fuel : Nat) (cs : List Char) (n : Nat) :
    value (fuel + 1) ('{' :: (newline n ++ '"' :: cs)) =
      (entries fuel ('"' :: cs)).map fun r => (.mapping r.1, r.2) := by
  rw [value, skipSpace_of_not (by decide)]
  simp only [skipSpace_newline, skipSpace_of_not (c := '"') (by decide)]
  rfl

theorem value_blank (fuel : Nat) (cs : List Char) : value fuel (' ' :: cs) = value fuel cs := by
  cases fuel with
  | zero => rfl
  | succ fuel =>
    rw [value, value]
    rfl

section
variable {fuel : Nat} (k : String) {cs rest after : List Char} {d : Datum}
  (h : value fuel cs = some (d, rest))
include h

theorem entries_last (hr : skipSpace rest = '}' :: after) :
    entries (fuel + 1) (quote k ++ ':' :: ' ' :: cs) = some ([(.text k, d)], after) := by
  have hq : quote k ++ ':' :: ' ' :: cs = '"' :: (k.toList.flatMap escape ++ '"' :: ':' :: ' ' :: cs) := by
    simp [quote]
  rw [hq, entries, skipSpace_of_not (by decide)]
  simp only [text_quote, skipSpace_of_not (c := ':') (by decide), value_blank, h, hr]

theorem entries_more (hr : skipSpace rest = ',' :: after) :
    entries (fuel + 1) (quote k ++ ':' :: ' ' :: cs) =
      (entries fuel after).map fun r => ((.text k, d) :: r.1, r.2) := by
  have hq : quote k ++ ':' :: ' ' :: cs = '"' :: (k.toList.flatMap escape ++ '"' :: ':' :: ' ' :: cs) := by
    simp [quote]
  rw [hq, entries, skipSpace_of_not (by decide)]
  simp only [text_quote, skipSpace_of_not (c := ':') (by decide), value_blank, h, hr]

end

/-- No value begins with a blank or a closing bracket. -/
theorem chars_head (indent : Nat) : ∀ t : Tree, ∃ c cs, chars indent t = c :: cs ∧
    isSpace c = false ∧ c ≠ ']'
  | .text _ => ⟨_, _, by rw [chars, quote, List.cons_append], by decide, by decide⟩
  | .flag true => ⟨_, _, by rw [chars]; rfl, by decide, by decide⟩
  | .flag false => ⟨_, _, by rw [chars]; rfl, by decide, by decide⟩
  | .number n => by
    obtain ⟨c, cs, hcs, hc⟩ := toString_head n
    exact ⟨c, cs, by rw [chars, hcs], hc.isSpace, hc.not rfl (by decide)⟩
  | .list [] => ⟨_, _, by rw [chars]; rfl, by decide, by decide⟩
  | .list (_ :: _) => ⟨_, _, by rw [chars]; rfl, by decide, by decide⟩
  | .object [] => ⟨_, _, by rw [chars], by decide, by decide⟩
  | .object (_ :: _) => ⟨_, _, by rw [chars]; rfl, by decide, by decide⟩

def itemChars (indent : Nat) : List Tree → List Char
  | [] => []
  | t :: ts => chars indent t ++ restChars indent ts

def entryChars (indent : Nat) : List (String × Tree) → List Char
  | [] => []
  | (k, t) :: fs => quote k ++ ':' :: ' ' :: (chars indent t ++ fieldChars indent fs)

theorem restChars_eq (indent : Nat) (t : Tree) (ts : List Tree) :
    restChars indent (t :: ts) = ',' :: (newline indent ++ itemChars indent (t :: ts)) := by
  simp [restChars, itemChars]

theorem fieldChars_eq (indent : Nat) (f : String × Tree) (fs : List (String × Tree)) :
    fieldChars indent (f :: fs) = ',' :: (newline indent ++ entryChars indent (f :: fs)) := by
  obtain ⟨k, t⟩ := f
  simp [fieldChars, entryChars]

theorem chars_list (indent : Nat) (t : Tree) (ts : List Tree) : chars indent (.list (t :: ts)) =
    '[' :: (newline (indent + 1) ++ (itemChars (indent + 1) (t :: ts) ++ (newline indent ++ [']']))) := by
  simp [chars, itemChars]

theorem chars_object (indent : Nat) (f : String × Tree) (fs : List (String × Tree)) :
    chars indent (.object (f :: fs)) =
      '{' :: (newline (indent + 1) ++ (entryChars (indent + 1) (f :: fs) ++ (newline indent ++ ['}']))) := by
  obtain ⟨k, t⟩ := f
  simp [chars, entryChars]

mutual
theorem value_chars : ∀ (t : Tree) (indent fuel : Nat) {rest : List Char}, Ends rest →
    (chars indent t).length ≤ fuel → value fuel (chars indent t ++ rest) = some (t.datum, rest)
  | t, indent, 0, _, _, h => by
    obtain ⟨c, cs, hcs, _⟩ := chars_head indent t
    rw [hcs] at h
    cases h
  | .text s, indent, fuel + 1, rest, _, _ => by
    rw [chars]
    exact value_quote fuel s rest
  | .flag true, indent, fuel + 1, rest, _, _ => by
    rw [chars, value]
    rfl
  | .flag false, indent, fuel + 1, rest, _, _ => by
    rw [chars, value]
    rfl
  | .number n, indent, fuel + 1, rest, hr, _ => by
    rw [chars]
    exact value_number fuel n hr
  | .list [], indent, fuel + 1, rest, _, _ => by
    rw [chars, value]
    rfl
  | .list (t :: ts), indent, fuel + 1, rest, _, h => by
    rw [chars_list] at h ⊢
    simp only [List.length_cons, List.length_append, newline] at h
    have hitems := items_chars (t :: ts) (indent + 1) indent fuel rest (by simp) (by omega)
    obtain ⟨c, cs, hcs, hs, hc⟩ := chars_head (indent + 1) t
    rw [itemChars, hcs] at hitems ⊢
    simp only [List.cons_append, List.append_assoc] at hitems ⊢
    rw [value_list fuel hs hc]
    simp only [List.nil_append]
    rw [hitems]
    rfl
  | .object [], indent, fuel + 1, rest, _, _ => by
    rw [chars, value]
    rfl
  | .object ((k, t) :: fs), indent, fuel + 1, rest, _, h => by
    rw [chars_object] at h ⊢
    simp only [List.length_cons, List.length_append, newline] at h
    have hentries := entries_chars ((k, t) :: fs) (indent + 1) indent fuel rest (by simp) (by omega)
    rw [entryChars, quote] at hentries ⊢
    simp only [List.cons_append, List.append_assoc] at hentries ⊢
    rw [value_object]
    simp only [List.nil_append] at hentries ⊢
    rw [hentries]
    rfl
theorem items_chars : ∀ (ts : List Tree) (indent outer fuel : Nat) (rest : List Char), ts ≠ [] →
    (itemChars indent ts).length < fuel →
      items fuel (itemChars indent ts ++ (newline outer ++ ']' :: rest)) = some (Tree.itemData ts, rest)
  | [], _, _, _, _, h, _ => absurd rfl h
  | _ :: _, _, _, 0, _, _, h => absurd h (Nat.not_lt_zero _)
  | [t], indent, outer, fuel + 1, rest, _, h => by
    rw [itemChars, restChars, List.append_nil] at h ⊢
    rw [items, value_chars t indent fuel (ends_newline outer _) (by omega)]
    simp only [skipSpace_newline, skipSpace_of_not (c := ']') (by decide)]
    rfl
  | t :: t' :: ts, indent, outer, fuel + 1, rest, _, h => by
    rw [itemChars, restChars_eq] at h ⊢
    simp only [List.length_cons, List.length_append] at h
    have hitems := items_chars (t' :: ts) indent outer fuel rest (by simp) (by omega)
    rw [List.append_assoc, List.cons_append, items, value_chars t indent fuel (ends_comma _) (by omega)]
    simp only [skipSpace_of_not (c := ',') (by decide), List.append_assoc, items_newline]
    rw [hitems]
    rfl
theorem entries_chars : ∀ (fs : List (String × Tree)) (indent outer fuel : Nat) (rest : List Char), fs ≠ [] →
    (entryChars indent fs).length < fuel →
      entries fuel (entryChars indent fs ++ (newline outer ++ '}' :: rest)) = some (Tree.fieldData fs, rest)
  | [], _, _, _, _, h, _ => absurd rfl h
  | _ :: _, _, _, 0, _, _, h => absurd h (Nat.not_lt_zero _)
  | [(k, t)], indent, outer, fuel + 1, rest, _, h => by
    rw [entryChars, fieldChars, List.append_nil] at h ⊢
    simp only [List.length_cons, List.length_append] at h
    have hvalue := value_chars t indent fuel (ends_newline outer ('}' :: rest)) (by omega)
    simp only [List.append_assoc, List.cons_append]
    have hend : skipSpace (newline outer ++ '}' :: rest) = '}' :: rest := by
      rw [skipSpace_newline, skipSpace_of_not (by decide)]
    exact entries_last k hvalue hend
  | (k, t) :: f :: fs, indent, outer, fuel + 1, rest, _, h => by
    rw [entryChars, fieldChars_eq] at h ⊢
    simp only [List.length_cons, List.length_append] at h
    have hentries := entries_chars (f :: fs) indent outer fuel rest (by simp) (by omega)
    simp only [List.append_assoc, List.cons_append]
    rw [entries_more k (value_chars t indent fuel (ends_comma _) (by omega))
      (skipSpace_of_not (by decide) _), entries_newline, hentries]
    rfl
end

/-- A written tree is read back with a type for every scalar. -/
theorem read?_render (t : Tree) : read? (render t) = some t.datum := by
  have h := value_chars t 0 (2 * (chars 0 t).length + 2) ends_nil (by omega)
  rw [List.append_nil] at h
  unfold read? render
  rw [String.toList_ofList]
  simp only [h]
  rfl

end ApiDocs.Json
