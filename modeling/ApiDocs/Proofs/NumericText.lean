import ApiDocs.Proofs.Bounds

/-!
# Integers in texts

What `numeric` reads of any text: an integer in decimal with blanks around it, if it is one of 64 bits,
and else zero. A number that is built digit by digit in 64 bits is the same number, since no sum on the
way is greater than the last one.
-/

namespace ApiDocs

open Text

/-! ## Texts of integers -/

namespace Text

theorem trimChars_of_not_blank {cs : List Char} (h : ∀ c ∈ cs, isBlank c = false) : trimChars cs = cs := by
  have hkept : ∀ {ds : List Char}, (∀ c ∈ ds, isBlank c = false) → dropBlank ds = ds := by
    intro ds hds
    cases ds with
    | nil => rfl
    | cons c ds => exact List.dropWhile_cons_of_neg (by simp [hds c (List.mem_cons_self ..)])
  have hback : ∀ c ∈ cs.reverse, isBlank c = false := fun c hc => h c (List.mem_reverse.mp hc)
  rw [trimChars, hkept h, hkept hback, List.reverse_reverse]

theorem trimChars_padded {before cs after : List Char} (hbefore : ∀ c ∈ before, isBlank c = true)
    (h : ∀ c ∈ cs, isBlank c = false) (hafter : ∀ c ∈ after, isBlank c = true) :
    trimChars (before ++ (cs ++ after)) = cs := by
  have hfront : trimChars (before ++ (cs ++ after)) = trimChars (cs ++ after) := by
    rw [trimChars, dropBlank_append_of_blank hbefore, trimChars]
  rw [hfront, trimChars_append_of_blank hafter, trimChars_of_not_blank h]

end Text

theorem Spells.not_blank {cs : List Char} {n : Int} (h : Spells cs n) : ∀ c ∈ cs, isBlank c = false := by
  have hdigit : ∀ {c : Char}, '0' ≤ c ∧ c ≤ '9' → isBlank c = false := by
    intro c hc
    have hlow : 48 ≤ c.toNat := hc.1
    have hhigh : c.toNat ≤ 57 := hc.2
    simp [isBlank]
    omega
  cases h with
  | digits _ hds => exact fun c hc => hdigit (hds c hc)
  | plus _ hds => exact List.forall_mem_cons.mpr ⟨by decide, fun c hc => hdigit (hds c hc)⟩
  | minus _ hds => exact List.forall_mem_cons.mpr ⟨by decide, fun c hc => hdigit (hds c hc)⟩

theorem Spells.unique {cs : List Char} {m n : Int} (hm : Spells cs m) (hn : Spells cs n) : m = n := by
  rw [← integerChars?_eq_some_iff] at hm hn
  exact Option.some.inj (hm.symm.trans hn)

/-- The text is an integer in decimal with blanks around it. -/
def Denotes (text : String) (n : Int) : Prop :=
  ∃ before cs after, text.toList = before ++ (cs ++ after) ∧ (∀ c ∈ before, isBlank c = true) ∧
    Spells cs n ∧ ∀ c ∈ after, isBlank c = true

theorem denotes_iff {text : String} {n : Int} : Denotes text n ↔ Spells (trim text).toList n := by
  rw [trim, String.toList_ofList]
  constructor
  · rintro ⟨before, cs, after, htext, hbefore, hspells, hafter⟩
    rwa [htext, trimChars_padded hbefore hspells.not_blank hafter]
  · intro h
    obtain ⟨before, after, htext, hbefore, hafter⟩ := exists_eq_trimChars text.toList
    exact ⟨before, _, after, htext, hbefore, h, hafter⟩

theorem Denotes.unique {text : String} {m n : Int} (hm : Denotes text m) (hn : Denotes text n) : m = n :=
  (denotes_iff.mp hm).unique (denotes_iff.mp hn)

theorem denotes_padded {before after : String} (hbefore : isBlankText before = true)
    (hafter : isBlankText after = true) (n : Int) : Denotes (before ++ toString n ++ after) n := by
  refine ⟨before.toList, (toString n).toList, after.toList, ?_, ?_, spells_toString n, ?_⟩
  · rw [String.toList_append, String.toList_append, List.append_assoc]
  · exact List.all_eq_true.mp hbefore
  · exact List.all_eq_true.mp hafter

/-! ## Texts of integers of 64 bits -/

theorem numeric_trim (text : String) : numeric (trim text) = numeric text := by
  unfold numeric
  rw [trim_trim]

theorem numeric_of_denotes {text : String} {n : Int} (h : Denotes text n) (hn : Word.Signed 64 n) :
    numeric text = n := by
  rw [← numeric_trim]
  exact numeric_of_spells (trim_trim text) (denotes_iff.mp h) hn

theorem numeric_of_not_denotes {text : String} (h : ∀ n, Denotes text n → ¬Word.Signed 64 n) :
    numeric text = 0 := by
  rw [← numeric_trim]
  exact numeric_eq_zero (trim_trim text) fun n hn => h n (denotes_iff.mpr hn)

theorem numeric_eq_iff {text : String} {n : Int} : numeric text = n ↔
    (Denotes text n ∧ Word.Signed 64 n) ∨ (n = 0 ∧ ¬∃ m, Denotes text m ∧ Word.Signed 64 m) := by
  by_cases h : ∃ m, Denotes text m ∧ Word.Signed 64 m
  · obtain ⟨m, hm, hsigned⟩ := h
    rw [numeric_of_denotes hm hsigned]
    constructor
    · rintro rfl
      exact .inl ⟨hm, hsigned⟩
    · rintro (⟨hn, -⟩ | ⟨-, hnone⟩)
      · exact hm.unique hn
      · exact absurd ⟨m, hm, hsigned⟩ hnone
  · rw [numeric_of_not_denotes fun m hm hsigned => h ⟨m, hm, hsigned⟩]
    constructor
    · rintro rfl
      exact .inr ⟨rfl, h⟩
    · rintro (hn | ⟨rfl, -⟩)
      · exact absurd ⟨n, hn⟩ h
      · rfl

theorem Word.signed_toInt (n : Int64) : Signed 64 n.toInt := by
  rw [signed_64_iff]
  have hlow := n.le_toInt
  have hhigh := n.toInt_lt
  omega

theorem signed_numeric (text : String) : Word.Signed 64 (numeric text) := by
  rcases numeric_eq_iff.mp (rfl : numeric text = numeric text) with ⟨-, h⟩ | ⟨h, -⟩
  · exact h
  · rw [h]
    decide

/-! ## Digit by digit -/

namespace Word

def checked (n : Int) : Option Int64 := if Signed 64 n then some (.ofInt n) else none

theorem map_toInt_checked (n : Int) : (checked n).map Int64.toInt = if Signed 64 n then some n else none := by
  unfold checked
  split
  · rename_i h
    rw [Option.map_some, toInt_ofInt_of_signed h]
  · rfl

theorem checked_toInt (n : Int64) : checked n.toInt = some n := by
  rw [checked, if_pos (signed_toInt n), Int64.ofInt_toInt]

def withSign (negative : Bool) (n : Nat) : Int := if negative then -(n : Int) else n

theorem checked_withSign_of_le {negative : Bool} {m n : Nat} (h : m ≤ n)
    (hm : ¬Signed 64 (withSign negative m)) : checked (withSign negative n) = none := by
  refine if_neg ?_
  rw [signed_64_iff] at hm ⊢
  unfold withSign at hm ⊢
  cases negative <;> simp only [if_true, Bool.false_eq_true, if_false] at hm ⊢ <;> omega

/-- A number with one more digit, added or taken away, unless a product or a sum does not fit. -/
def addDigit? (negative : Bool) (n : Int64) (c : Char) : Option Int64 :=
  (checked (10 * n.toInt)).bind fun tens => checked (tens.toInt + withSign negative (c.toNat - '0'.toNat))

theorem addDigit?_eq {negative : Bool} {n : Int64} {m : Nat} (hn : n.toInt = withSign negative m) (c : Char) :
    addDigit? negative n c = checked (withSign negative (10 * m + (c.toNat - '0'.toNat))) := by
  have htens : 10 * n.toInt = withSign negative (10 * m) := by
    rw [hn]
    unfold withSign
    split <;> omega
  have hsum : withSign negative (10 * m) + withSign negative (c.toNat - '0'.toNat) =
      withSign negative (10 * m + (c.toNat - '0'.toNat)) := by
    unfold withSign
    split <;> omega
  rw [addDigit?, htens]
  by_cases hfits : Signed 64 (withSign negative (10 * m))
  · rw [checked, if_pos hfits, Option.bind_some, toInt_ofInt_of_signed hfits, hsum]
  · rw [checked, if_neg hfits, checked_withSign_of_le (Nat.le_add_right ..) hfits]
    rfl

theorem le_ofDigitChars (cs : List Char) (n : Nat) : n ≤ Nat.ofDigitChars 10 cs n := by
  rw [Nat.ofDigitChars_eq_ofDigitChars_zero]
  have hpos : 0 < 10 ^ cs.length := Nat.pow_pos (by decide)
  have hle : n ≤ 10 ^ cs.length * n := Nat.le_mul_of_pos_left n hpos
  omega

theorem foldlM_addDigit? (negative : Bool) : ∀ (cs : List Char) (n : Int64) (m : Nat),
    n.toInt = withSign negative m →
      cs.foldlM (addDigit? negative) n = checked (withSign negative (Nat.ofDigitChars 10 cs m))
  | [], n, m, hn => by
    rw [Nat.ofDigitChars_nil, ← hn, checked_toInt]
    rfl
  | c :: cs, n, m, hn => by
    rw [List.foldlM_cons, addDigit?_eq hn, Nat.ofDigitChars_cons]
    generalize 10 * m + (c.toNat - '0'.toNat) = next
    by_cases hfits : Signed 64 (withSign negative next)
    · rw [checked, if_pos hfits]
      exact foldlM_addDigit? negative cs _ next (toInt_ofInt_of_signed hfits)
    · -- more digits only lead away from zero, so the whole number does not fit either
      rw [checked_withSign_of_le (le_ofDigitChars cs next) hfits, checked, if_neg hfits]
      rfl

def digits? (negative : Bool) (cs : List Char) : Option Int64 :=
  if !cs.isEmpty && cs.all (fun c => '0' ≤ c && c ≤ '9') then cs.foldlM (addDigit? negative) 0 else none

def read? : List Char → Option Int64
  | '-' :: cs => digits? true cs
  | '+' :: cs => digits? false cs
  | cs => digits? false cs

theorem digits?_eq (negative : Bool) (cs : List Char) :
    digits? negative cs = ((digitsValue? cs).map (withSign negative)).bind checked := by
  have hzero : (0 : Int64).toInt = withSign negative 0 := by cases negative <;> decide
  unfold digits? digitsValue?
  split
  · rw [foldlM_addDigit? negative cs 0 0 hzero, Nat.ofDigitChars, Option.map_some, Option.bind_some]
  · rfl

theorem withSign_false : withSign false = Int.ofNat := rfl

theorem withSign_true : withSign true = fun n => -Int.ofNat n := rfl

theorem read?_eq (cs : List Char) : read? cs = (integerChars? cs).bind checked := by
  unfold read?
  split
  · rw [integerChars?_minus, digits?_eq, withSign_true]
  · rw [integerChars?, digits?_eq, withSign_false]
  · rename_i hminus hplus
    rw [digits?_eq, withSign_false, integerChars?]
    · exact fun ds h => hminus ds h
    · exact fun ds h => hplus ds h

end Word

theorem numeric_eq_read? (text : String) :
    numeric text = ((Word.read? (trim text).toList).map Int64.toInt).getD 0 := by
  rw [Word.read?_eq, numeric]
  cases integerChars? (trim text).toList with
  | none => rfl
  | some n =>
    rw [Option.bind_some, Word.map_toInt_checked]
    by_cases hfits : Word.Signed 64 n
    · simp only [if_pos hfits, Option.getD_some]
    · simp only [if_neg hfits, Option.getD_none]

/-- A text stands for the integer that it is in decimal, blanks around it aside, if the integer is one of
64 bits, and any other text for zero. So the value fits into 64 bits without a change, the decimal text of
a number of 64 bits stands for it, whatever blanks surround it, and reading digit by digit with a check of
every product and sum comes to the same. -/
theorem numeric_by_spelling :
    (∀ text n, numeric text = n ↔
      (Denotes text n ∧ Word.Signed 64 n) ∨ (n = 0 ∧ ¬∃ m, Denotes text m ∧ Word.Signed 64 m)) ∧
    (∀ text, (Int64.ofInt (numeric text)).toInt = numeric text) ∧
    (∀ (n : Int64) (before after : String), isBlankText before = true → isBlankText after = true →
      numeric (before ++ toString n.toInt ++ after) = n.toInt) ∧
    ∀ text, numeric text = ((Word.read? (trim text).toList).map Int64.toInt).getD 0 := by
  refine ⟨fun text n => numeric_eq_iff, fun text => ?_, fun n before after hbefore hafter => ?_,
    numeric_eq_read?⟩
  · exact toInt_ofInt_of_signed (signed_numeric text)
  · exact numeric_of_denotes (denotes_padded hbefore hafter n.toInt) (Word.signed_toInt n)

/-- The least number of 64 bits between a tab, an ideographic space and a line break. -/
theorem numeric_by_spelling_least : isBlankText "\t\u3000" = true ∧ isBlankText "\n" = true ∧
    numeric ("\t\u3000" ++ toString Int64.minValue.toInt ++ "\n") = -9223372036854775808 := by
  obtain ⟨-, -, hpadded, -⟩ := numeric_by_spelling
  have hbefore : isBlankText "\t\u3000" = true := by decide
  have hafter : isBlankText "\n" = true := by decide
  exact ⟨hbefore, hafter, hpadded Int64.minValue _ _ hbefore hafter⟩

-- the bound is on the number, not on its digits
example : numeric "9223372036854775808" = 0 ∧ numeric "+09223372036854775807" = 9223372036854775807 := by
  decide +kernel

end ApiDocs
