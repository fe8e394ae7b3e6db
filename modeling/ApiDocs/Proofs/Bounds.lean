import ApiDocs.Proofs.JsonText
import ApiDocs.Proofs.MarkClauses
import ApiDocs.Proofs.RequiredNames

/-!
# Bounds of a property

A bound is a text in the marks of a field, an integer of 64 bits in the property, and a number of the
written document. Zero stands for no bound: what spells no such integer becomes zero, and zero is not
written.
-/

namespace ApiDocs

open Source Text

/-! ## Integers -/

/-- The characters are an integer in decimal: digits, at least one, and perhaps a sign. -/
inductive Spells : List Char → Int → Prop
  | digits {cs : List Char} (hne : cs ≠ []) (h : ∀ c ∈ cs, '0' ≤ c ∧ c ≤ '9') :
      Spells cs (Nat.ofDigitChars 10 cs 0)
  | plus {cs : List Char} (hne : cs ≠ []) (h : ∀ c ∈ cs, '0' ≤ c ∧ c ≤ '9') :
      Spells ('+' :: cs) (Nat.ofDigitChars 10 cs 0)
  | minus {cs : List Char} (hne : cs ≠ []) (h : ∀ c ∈ cs, '0' ≤ c ∧ c ≤ '9') :
      Spells ('-' :: cs) (-(Nat.ofDigitChars 10 cs 0 : Int))

theorem digitsValue?_eq_some_iff {cs : List Char} {n : Nat} : digitsValue? cs = some n ↔
    cs ≠ [] ∧ (∀ c ∈ cs, '0' ≤ c ∧ c ≤ '9') ∧ n = Nat.ofDigitChars 10 cs 0 := by
  unfold digitsValue?
  by_cases hne : cs = []
  · simp [hne]
  · by_cases h : ∀ c ∈ cs, '0' ≤ c ∧ c ≤ '9'
    · have hall : (!cs.isEmpty && cs.all fun c => decide ('0' ≤ c) && decide (c ≤ '9')) = true := by
        simpa [hne] using h
      rw [if_pos hall, Option.some.injEq, Nat.ofDigitChars]
      exact ⟨fun heq => ⟨hne, h, heq.symm⟩, fun hn => hn.2.2.symm⟩
    · have hall : ¬(!cs.isEmpty && cs.all fun c => decide ('0' ≤ c) && decide (c ≤ '9')) = true := by
        simpa [hne] using h
      rw [if_neg hall]
      simp [h]

theorem map_digitsValue?_eq_some {cs : List Char} {f : Nat → Int} {n : Int}
    (h : (digitsValue? cs).map f = some n) :
    cs ≠ [] ∧ (∀ c ∈ cs, '0' ≤ c ∧ c ≤ '9') ∧ n = f (Nat.ofDigitChars 10 cs 0) := by
  obtain ⟨m, hm, rfl⟩ := Option.map_eq_some_iff.mp h
  obtain ⟨hne, hdigits, rfl⟩ := digitsValue?_eq_some_iff.mp hm
  exact ⟨hne, hdigits, rfl⟩

theorem integerChars?_minus (cs : List Char) :
    integerChars? ('-' :: cs) = (digitsValue? cs).map fun n => -Int.ofNat n := by
  rw [integerChars?]
  cases digitsValue? cs <;> rfl

theorem integerChars?_eq_some_iff {cs : List Char} {n : Int} : integerChars? cs = some n ↔ Spells cs n := by
  constructor
  · intro h
    by_cases hminus : ∃ ds, cs = '-' :: ds
    · obtain ⟨ds, rfl⟩ := hminus
      rw [integerChars?_minus] at h
      obtain ⟨hne, hdigits, rfl⟩ := map_digitsValue?_eq_some h
      exact .minus hne hdigits
    · unfold integerChars? at h
      split at h
      · exact absurd ⟨_, rfl⟩ hminus
      · obtain ⟨hne, hdigits, rfl⟩ := map_digitsValue?_eq_some h
        exact .plus hne hdigits
      · obtain ⟨hne, hdigits, rfl⟩ := map_digitsValue?_eq_some h
        exact .digits hne hdigits
  · intro h
    cases h with
    | digits hne hdigits =>
      unfold integerChars?
      split
      · exact absurd (hdigits '-' (by simp)).1 (by decide)
      · exact absurd (hdigits '+' (by simp)).1 (by decide)
      · rw [digitsValue?_eq_some_iff.mpr ⟨hne, hdigits, rfl⟩]
        rfl
    | plus hne hdigits =>
      rw [integerChars?, digitsValue?_eq_some_iff.mpr ⟨hne, hdigits, rfl⟩]
      rfl
    | minus hne hdigits =>
      rw [integerChars?_minus, digitsValue?_eq_some_iff.mpr ⟨hne, hdigits, rfl⟩]
      rfl

theorem spells_toString (n : Int) : Spells (toString n).toList n := by
  have hne : Nat.toDigits 10 n.natAbs ≠ [] := Nat.toDigits_ne_nil
  have hdigits : ∀ c ∈ Nat.toDigits 10 n.natAbs, '0' ≤ c ∧ c ≤ '9' := by
    intro c hc
    simpa [Json.isDigit] using Json.isDigit_of_mem hc
  have hvalue : Nat.ofDigitChars 10 (Nat.toDigits 10 n.natAbs) 0 = n.natAbs := Nat.ofDigitChars_ten_toDigits
  rw [Json.toList_toString]
  by_cases hn : n < 0
  · have hspells := Spells.minus hne hdigits
    have habs : -(n.natAbs : Int) = n := by omega
    rw [hvalue, habs] at hspells
    rwa [if_pos hn]
  · have hspells := Spells.digits hne hdigits
    have habs : (n.natAbs : Int) = n := by omega
    rw [hvalue, habs] at hspells
    rwa [if_neg hn]

theorem numeric_of_spells {v : String} {n : Int} (hv : trim v = v) (h : Spells v.toList n)
    (hn : Word.Signed 64 n) : numeric v = n := by
  unfold numeric
  rw [hv, integerChars?_eq_some_iff.mpr h]
  exact if_pos hn

theorem numeric_eq_zero {v : String} (hv : trim v = v)
    (h : ∀ n, Spells v.toList n → ¬Word.Signed 64 n) : numeric v = 0 := by
  unfold numeric
  rw [hv]
  cases hn : integerChars? v.toList with
  | none => rfl
  | some n => exact if_neg (h n (integerChars?_eq_some_iff.mp hn))

theorem toInt_ofInt_of_signed {n : Int} (h : Word.Signed 64 n) : (Int64.ofInt n).toInt = n := by
  rw [Word.signed_64_iff] at h
  exact Int64.toInt_ofInt_of_le (by omega) (by omega)

/-! ## Written fields -/

namespace Tree

def fieldValues (key : String) (fs : List (String × Tree)) : List Tree := (fs.filter (·.1 = key)).map (·.2)

def valuesAt (key : String) : Tree → List Tree
  | .object fs => fieldValues key fs
  | _ => []

@[simp] theorem fieldValues_append (key : String) (a b : List (String × Tree)) :
    fieldValues key (a ++ b) = fieldValues key a ++ fieldValues key b := by
  simp [fieldValues]

@[simp] theorem fieldValues_optional (key k : String) (t : Option Tree) :
    fieldValues key (optional k t) = if k = key then t.toList else [] := by
  cases t with
  | none => simp [fieldValues, optional]
  | some t => by_cases h : k = key <;> simp [fieldValues, optional, h]

@[simp] theorem fieldValues_fieldIf (key k : String) (shown : Bool) (t : Tree) :
    fieldValues key (fieldIf shown k t) = if k = key ∧ shown = true then [t] else [] := by
  cases shown with
  | false => simp [fieldValues, fieldIf]
  | true => by_cases h : k = key <;> simp [fieldValues, fieldIf, h]

/-- An object written from a table has one field for each key. -/
theorem fieldValues_entries {α : Type} (t : Table α) (encode : α → Tree) (key : String) :
    fieldValues key (t.entries.map fun e => (e.1, encode e.2)) = ((t.get? key).map encode).toList := by
  obtain ⟨entries, hentries⟩ := t
  unfold Table.get?
  induction entries with
  | nil => rfl
  | cons e es ih =>
    obtain ⟨j, a⟩ := e
    rw [List.pairwise_cons] at hentries
    by_cases hj : key = j
    · subst hj
      have hrest : fieldValues key (es.map fun e => (e.1, encode e.2)) = [] := by
        simp only [fieldValues, List.map_eq_nil_iff, List.filter_eq_nil_iff, List.forall_mem_map, decide_eq_true_eq]
        exact fun x hx => Ne.symm (hentries.1 x hx)
      rw [fieldValues] at hrest
      simp [fieldValues, Table.lookup, hrest]
    · have hrest := ih hentries.2
      rw [fieldValues] at hrest
      simp [fieldValues, Table.lookup, hj, Ne.symm hj, hrest]

end Tree

open ApiDocs.Tree

inductive BoundKey where
  | maxLength | minLength | maximum | minimum
deriving DecidableEq

namespace BoundKey

def mark : BoundKey → MarkKey
  | maxLength => .maxLength
  | minLength => .minLength
  | maximum => .maximum
  | minimum => .minimum

def word (k : BoundKey) : String := k.mark.word

end BoundKey

def Property.boundAt (p : Property) : BoundKey → Int64
  | .maxLength => p.maxLength
  | .minLength => p.minLength
  | .maximum => p.maximum
  | .minimum => p.minimum

theorem Property.valuesAt_encode (p : Property) (k : BoundKey) :
    p.encode.valuesAt k.word = if p.boundAt k = 0 then [] else [.number (p.boundAt k).toInt] := by
  by_cases h : p.boundAt k = 0
  · rw [if_pos h]
    cases k <;> simp only [boundAt] at h <;>
      simp [encode, valuesAt, optionalText, bound, BoundKey.word, BoundKey.mark, MarkKey.word, h]
  · rw [if_neg h]
    cases k <;> simp only [boundAt] at h ⊢ <;>
      simp [encode, valuesAt, optionalText, bound, BoundKey.word, BoundKey.mark, MarkKey.word, h]

/-! ## Marked fields -/

def markText (attributes : List Attribute) : String :=
  ((attributes.find? fun a => a.name = some "openapi").map fun a => marksText a.body).getD ""

theorem marksOf?_getD (attributes : List Attribute) :
    (marksOf? attributes).getD {} = FieldMarks.ofText (markText attributes) := by
  unfold marksOf? markText
  cases attributes.find? fun a => a.name = some "openapi" with
  | none => rfl
  | some a => rfl

theorem FieldMarks.LastAssigns.trim_eq {clauses : List String} {key value : String}
    (h : LastAssigns clauses key value) : trim value = value := by
  obtain ⟨before, c, after, -, ⟨k, v, -, -, -, hvalue⟩, -⟩ := h
  rw [← hvalue, trim_trim]

theorem FieldMarks.lastAssigns_singleton {c key value : String} (h : Assigns c key value) :
    LastAssigns [c] key value :=
  ⟨[], c, [], rfl, h, by simp⟩

namespace DeclaredField

/-- A field of the source, with what is declared of it, that can have bounds: it is not ignored, and it is
described by a primitive or as a sequence of references. -/
structure Bounded (field : Field) (f : DeclaredField) : Prop where
  declared : ofField? field = some f
  used : "ignored" ∉ FieldMarks.clauses (markText field.attributes)
  described : ∃ name,
    classify field.type (FieldMarks.ofText (markText field.attributes)).reference = some (.primitive name) ∨
    classify field.type (FieldMarks.ofText (markText field.attributes)).reference = some (.arrayOfReference name)

variable {field : Field} {f : DeclaredField} {p : Property} {k : BoundKey}

theorem ofField?_eq_some (h : ofField? field = some f) :
    f.marks = FieldMarks.ofText (markText field.attributes) ∧
      f.type = classify field.type (FieldMarks.ofText (markText field.attributes)).reference := by
  rw [← marksOf?_getD]
  unfold ofField? at h
  dsimp only at h
  split at h
  · cases h
  · cases h
    exact ⟨rfl, rfl⟩

theorem Bounded.exists_property (h : Bounded field f) : ∃ p, Property.ofField? f = some p ∧
    ∀ k, p.boundAt k = .ofInt (numeric (f.marks.text k.mark)) := by
  obtain ⟨hmarks, htype⟩ := ofField?_eq_some h.declared
  have hused : ¬f.marks.ignored = true := by
    rw [hmarks, FieldMarks.ignored_ofText h.used]
    exact Bool.false_ne_true
  obtain ⟨name, hname | hname⟩ := h.described
  all_goals
    rw [hname] at htype
    refine ⟨_, by rw [Property.ofField?, if_neg hused, htype], ?_⟩
    intro k
    cases k <;> rfl

theorem Bounded.boundAt (h : Bounded field f) (hp : Property.ofField? f = some p) (k : BoundKey) :
    p.boundAt k = .ofInt (numeric (f.marks.text k.mark)) := by
  obtain ⟨q, hq, hbound⟩ := h.exists_property
  rw [hp] at hq
  cases hq
  exact hbound k

/-! ## Bounds that are given -/

/-- The last clause of the text with the key of the bound gives the integer. -/
def GivesBound (text : String) (k : BoundKey) (n : Int) : Prop :=
  ∃ v, FieldMarks.LastAssigns (FieldMarks.clauses text) k.word v ∧ Spells v.toList n ∧ Word.Signed 64 n

theorem givesBound_toString {text : String} {n : Int} (hn : Word.Signed 64 n)
    (h : FieldMarks.LastAssigns (FieldMarks.clauses text) k.word (toString n)) : GivesBound text k n :=
  ⟨toString n, h, spells_toString n, hn⟩

theorem GivesBound.signed {text : String} {n : Int} (h : GivesBound text k n) : Word.Signed 64 n := by
  obtain ⟨v, -, -, hsigned⟩ := h
  exact hsigned

theorem Bounded.tells (h : Bounded field f) :
    FieldMarks.Tells (FieldMarks.clauses (markText field.attributes)) f.marks := by
  rw [(ofField?_eq_some h.declared).1]
  exact FieldMarks.tells_ofText h.used

theorem Bounded.numeric_of_gives (h : Bounded field f) {n : Int} (hn : GivesBound (markText field.attributes) k n) :
    numeric (f.marks.text k.mark) = n := by
  obtain ⟨v, hv, hspells, hsigned⟩ := hn
  rw [(h.tells.text k.mark v).mpr (.inl hv)]
  exact numeric_of_spells hv.trim_eq hspells hsigned

theorem Bounded.numeric_of_not_gives (h : Bounded field f)
    (hn : ∀ n, ¬GivesBound (markText field.attributes) k n) : numeric (f.marks.text k.mark) = 0 := by
  rcases (h.tells.text k.mark _).mp rfl with hv | ⟨hempty, -⟩
  · exact numeric_eq_zero hv.trim_eq fun n hspells hsigned => hn n ⟨_, hv, hspells, hsigned⟩
  · rw [hempty]
    rfl

theorem Bounded.valuesAt_of_gives (h : Bounded field f) (hp : Property.ofField? f = some p) {n : Int}
    (hn : GivesBound (markText field.attributes) k n) :
    p.encode.valuesAt k.word = if n = 0 then [] else [.number n] := by
  have hbound : (p.boundAt k).toInt = n := by
    rw [h.boundAt hp, h.numeric_of_gives hn, toInt_ofInt_of_signed hn.signed]
  have hzero : p.boundAt k = 0 ↔ n = 0 := by
    rw [← Int64.toInt_inj, hbound, Int64.toInt_zero]
  simp only [Property.valuesAt_encode, hzero, hbound]

theorem Bounded.valuesAt_of_not_gives (h : Bounded field f) (hp : Property.ofField? f = some p)
    (hn : ∀ n, ¬GivesBound (markText field.attributes) k n) : p.encode.valuesAt k.word = [] := by
  have hbound : p.boundAt k = 0 := by
    rw [h.boundAt hp, h.numeric_of_not_gives hn]
    rfl
  rw [Property.valuesAt_encode, if_pos hbound]

end DeclaredField

theorem Schema.valuesAt_properties {d : Declaration} {name : String} {f : DeclaredField} {p : Property}
    (h : origin? d name = some (f, p)) : ∃ properties,
      (ofStruct d).encode.valuesAt "properties" = [properties] ∧ properties.valuesAt name = [p.encode] := by
  have hget : (ofStruct d).properties.get? name = some p := by rw [get?_properties, h, Option.map_some]
  have hshown : (!(ofStruct d).properties.isEmpty) = true := by
    cases hentries : (ofStruct d).properties.entries with
    | nil => simp [Table.get?, hentries, Table.lookup] at hget
    | cons e es => simp [Table.isEmpty, hentries]
  refine ⟨.object ((ofStruct d).properties.entries.map fun e => (e.1, e.2.encode)), ?_, ?_⟩
  · simp [encode, valuesAt, optionalText, hshown]
  · rw [valuesAt, fieldValues_entries, hget]
    rfl

open DeclaredField in
/-- Bounds from the marks to the document. A field that can have bounds has a property, which stands in the
schema under its name unless a later field takes it. A bound that is given is written with its value if
that is not zero; one that is zero, that spells no integer of 64 bits or that is absent is not written. So
a property tells apart two values, and a value that is not zero from none. -/
theorem bounds_written {field : Field} {f : DeclaredField} (h : Bounded field f) :
    ∃ p, Property.ofField? f = some p ∧
      (∀ d, Schema.origin? d f.name = some (f, p) → ∃ properties,
        (Schema.ofStruct d).encode.valuesAt "properties" = [properties] ∧
          properties.valuesAt f.name = [p.encode]) ∧
      ∀ k : BoundKey,
        (∀ n, Word.Signed 64 n →
          FieldMarks.LastAssigns (FieldMarks.clauses (markText field.attributes)) k.word (toString n) →
            GivesBound (markText field.attributes) k n) ∧
        (∀ n, GivesBound (markText field.attributes) k n →
          p.encode.valuesAt k.word = if n = 0 then [] else [.number n]) ∧
        ((∀ n, ¬GivesBound (markText field.attributes) k n) → p.encode.valuesAt k.word = []) ∧
        ∀ {other : Field} {g : DeclaredField} {q : Property}, Bounded other g → Property.ofField? g = some q →
          (∀ n m, GivesBound (markText field.attributes) k n → GivesBound (markText other.attributes) k m →
            n ≠ m → p.encode ≠ q.encode) ∧
          ∀ n, GivesBound (markText field.attributes) k n → n ≠ 0 →
            (∀ m, ¬GivesBound (markText other.attributes) k m) → p.encode ≠ q.encode := by
  obtain ⟨p, hp, -⟩ := h.exists_property
  refine ⟨p, hp, fun d hd => Schema.valuesAt_properties hd, fun k => ⟨?_, ?_, ?_, ?_⟩⟩
  · intro n hsigned hlast
    exact givesBound_toString hsigned hlast
  · intro n hn
    exact h.valuesAt_of_gives hp hn
  · intro hn
    exact h.valuesAt_of_not_gives hp hn
  · intro other g q hother hq
    constructor
    · intro n m hn hm hne heq
      have hvalues := hother.valuesAt_of_gives hq hm
      rw [← heq, h.valuesAt_of_gives hp hn] at hvalues
      by_cases hzero : n = 0 <;> by_cases hzero' : m = 0 <;> simp_all
    · intro n hn hzero hm heq
      have hvalues := hother.valuesAt_of_not_gives hq hm
      rw [← heq, h.valuesAt_of_gives hp hn, if_neg hzero] at hvalues
      cases hvalues

/-! ## A field with one bound -/

def ageField (text : String) : Field where
  attributes := [⟨false, some "openapi", .list [.literal (.text text)]⟩]
  name := "age"
  type := .named false "u32" false []

def ageMarked (marks : FieldMarks) : DeclaredField where
  name := "age"
  marks := marks
  marked := true
  type := some (.primitive "u32")

namespace DeclaredField

theorem bounded_age {text : String} {m : FieldMarks} (htext : FieldMarks.ofText text = m) (href : m.reference = "")
    (hused : "ignored" ∉ FieldMarks.clauses text) : Bounded (ageField text) (ageMarked m) := by
  subst htext
  have hmarks : markText (ageField text).attributes = text := rfl
  have htype : classify (ageField text).type "" = some (.primitive "u32") := by
    change classify (.named false "u32" false []) "" = _
    decide
  have hdeclared : ofField? (ageField text) = some { ageMarked (.ofText text) with
    type := classify (ageField text).type (FieldMarks.ofText text).reference } := rfl
  rw [href, htype] at hdeclared
  exact ⟨hdeclared, hused, "u32", .inl (by rw [hmarks, href, htype])⟩

theorem lastAssigns_seven :
    FieldMarks.LastAssigns (FieldMarks.clauses "minimum:7") BoundKey.minimum.word (toString (7 : Int)) :=
  FieldMarks.lastAssigns_singleton ⟨"minimum", "7", by decide⟩

theorem lastAssigns_zero :
    FieldMarks.LastAssigns (FieldMarks.clauses "minimum:0") BoundKey.minimum.word (toString (0 : Int)) :=
  FieldMarks.lastAssigns_singleton ⟨"minimum", "0", by decide⟩

theorem not_givesBound_empty (k : BoundKey) (n : Int) : ¬GivesBound "" k n := by
  intro h
  obtain ⟨v, ⟨before, c, after, hclauses, hassigns, -⟩, -⟩ := h
  have hc : c ∈ FieldMarks.clauses "" := by simp [hclauses]
  have hempty : FieldMarks.clauses "" = [""] := by decide
  rw [hempty, List.mem_singleton] at hc
  subst hc
  exact FieldMarks.not_assigns_of_not_mem (by simp) _ _ hassigns

theorem bounded_seven : Bounded (ageField "minimum:7") (ageMarked { minimum := "7" }) :=
  bounded_age (by decide) rfl (by decide)

theorem bounded_zero : Bounded (ageField "minimum:0") (ageMarked { minimum := "0" }) :=
  bounded_age (by decide) rfl (by decide)

theorem bounded_empty : Bounded (ageField "") (ageMarked {}) :=
  bounded_age (by decide) rfl (by decide)

end DeclaredField

open DeclaredField in
theorem bounds_written_seven : Bounded (ageField "minimum:7") (ageMarked { minimum := "7" }) ∧
    ∃ p q properties,
      Property.ofField? (ageMarked { minimum := "7" }) = some p ∧ Property.ofField? (ageMarked {}) = some q ∧
      (Schema.ofStruct ⟨"Person", [ageMarked { minimum := "7" }]⟩).encode.valuesAt "properties" = [properties] ∧
      properties.valuesAt "age" = [p.encode] ∧
      p.encode.valuesAt "minimum" = [.number 7] ∧ q.encode.valuesAt "minimum" = [] ∧ p.encode ≠ q.encode := by
  obtain ⟨p, hp, hschema, hseven⟩ := bounds_written bounded_seven
  obtain ⟨q, hq, -, hempty⟩ := bounds_written bounded_empty
  have horigin : Schema.origin? ⟨"Person", [ageMarked { minimum := "7" }]⟩ "age" =
      some (ageMarked { minimum := "7" }, p) := by
    have hname : (ageMarked { minimum := "7" }).name = "age" := rfl
    simp [Schema.origin?, Schema.described, hp, hname]
  obtain ⟨properties, hproperties, hage⟩ := hschema _ horigin
  have hgives := (hseven .minimum).1 7 (by decide) lastAssigns_seven
  have hnone := not_givesBound_empty .minimum
  exact ⟨bounded_seven, p, q, properties, hp, hq, hproperties, hage, (hseven .minimum).2.1 7 hgives,
    (hempty .minimum).2.2.1 hnone, ((hseven .minimum).2.2.2 bounded_empty hq).2 7 hgives (by decide) hnone⟩

open DeclaredField in
/-- A bound of zero is given as any other, but nothing is written for it. -/
theorem zero_bound_not_written :
    (¬∀ (field : Field) (f : DeclaredField) (p : Property) (k : BoundKey) (n : Int),
      Bounded field f → Property.ofField? f = some p → Word.Signed 64 n →
      FieldMarks.LastAssigns (FieldMarks.clauses (markText field.attributes)) k.word (toString n) →
        p.encode.valuesAt k.word = [.number n]) ∧
    ¬∀ (field other : Field) (f g : DeclaredField) (p q : Property) (k : BoundKey) (n : Int),
      Bounded field f → Bounded other g → Property.ofField? f = some p → Property.ofField? g = some q →
      GivesBound (markText field.attributes) k n → (∀ m, ¬GivesBound (markText other.attributes) k m) →
        p.encode ≠ q.encode := by
  have hsigned : Word.Signed 64 0 := by decide
  have hgives := givesBound_toString hsigned lastAssigns_zero
  have hnumeric : numeric "0" = numeric "" := by decide
  have hsame : Property.ofField? (ageMarked { minimum := "0" }) = Property.ofField? (ageMarked {}) := by
    simp [Property.ofField?, Property.constrained, FieldMarks.locationOrQuery, ageMarked, hnumeric]
  obtain ⟨p, hp, -⟩ := bounded_zero.exists_property
  constructor
  · intro h
    have hvalues := h _ _ p .minimum 0 bounded_zero hp hsigned lastAssigns_zero
    rw [bounded_zero.valuesAt_of_gives hp hgives] at hvalues
    cases hvalues
  · intro h
    exact h _ _ _ _ p p .minimum 0 bounded_zero bounded_empty hp (hsame ▸ hp) hgives
      (not_givesBound_empty .minimum) rfl

end ApiDocs
