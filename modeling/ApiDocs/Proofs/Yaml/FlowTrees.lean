import ApiDocs.Proofs.Yaml.Flow
import ApiDocs.Proofs.Yaml.Nodes

/-!
# JSON texts of trees read as YAML

A tree that is written as JSON is one flow collection. It reads back as the tree if its texts and keys
are portable.
-/

namespace ApiDocs

namespace Yaml

/-- A key that JSON and YAML share has to end near its beginning as well. -/
def isPortableKey (k : String) : Bool := k.toList.all isPortable && (Json.quote k).length ≤ 1024

theorem isPortableKey_iff {k : String} :
    isPortableKey k = true ↔ k.toList.all isPortable = true ∧ (Json.quote k).length ≤ 1024 := by
  rw [isPortableKey, Bool.and_eq_true, decide_eq_true_eq]

/-! ## Tokens -/

mutual
def flowTokens : Tree → List Token
  | .text s => [.scalar .quoted s]
  | .flag b => [.scalar .plain (if b then "true" else "false")]
  | .number n => [.scalar .plain (toString n)]
  | .list ts => .flowSequence :: flowItemTokens true ts ++ [.flowSequenceEnd]
  | .object fs => .flowMapping :: flowEntryTokens true fs ++ [.flowMappingEnd]
/-- The items of a list; a comma stands in front of all but the first. -/
def flowItemTokens : (first : Bool) → List Tree → List Token
  | _, [] => []
  | first, t :: ts => (if first then [] else [.comma]) ++ (flowTokens t ++ flowItemTokens false ts)
def flowEntryTokens : (first : Bool) → List (String × Tree) → List Token
  | _, [] => []
  | first, (k, t) :: fs => (if first then [] else [.comma]) ++
    (.key :: .scalar .quoted k :: .value :: (flowTokens t ++ flowEntryTokens false fs))
end

theorem flowItemTokens_cons (t : Tree) (ts : List Tree) :
    flowItemTokens false (t :: ts) = .comma :: flowItemTokens true (t :: ts) := by
  simp [flowItemTokens]

theorem flowEntryTokens_cons (f : String × Tree) (fs : List (String × Tree)) :
    flowEntryTokens false (f :: fs) = .comma :: flowEntryTokens true (f :: fs) := by
  simp [flowEntryTokens]

end Yaml

def Tree.isPortable (t : Tree) : Bool :=
  t.every Yaml.isPortableKey (fun s => s.toList.all Yaml.isPortable) fun _ => true

namespace Yaml

namespace Scan

theorem spacing_newline (n : Nat) : Spacing (Json.newline n) := .inr ⟨2 * n, rfl⟩

theorem passes_field {k : String} (hk : isPortableKey k = true) (depth : Nat) (acc : List Token) (cs : List Char) :
    Passes (Flows (depth + 1) true acc (Json.quote k ++ ':' :: ' ' :: cs))
      (Flows (depth + 1) false (.value :: .scalar .quoted k :: .key :: acc) cs) := by
  rw [isPortableKey_iff] at hk
  exact (passes_key hk.1 hk.2 (' ' :: cs)).trans (passes_blank cs)

/-- What stands between brackets, on lines of its own. -/
theorem passes_brackets (allowed : Bool) {opening closing : Char} {t t' : Token}
    (hb : opening = '{' ∧ closing = '}' ∧ t = .flowMapping ∧ t' = .flowMappingEnd ∨
      opening = '[' ∧ closing = ']' ∧ t = .flowSequence ∧ t' = .flowSequenceEnd)
    {depth i : Nat} {acc ts : List Token} {inner cs : List Char}
    (h : Passes (Flows (depth + 1) true (t :: acc) (inner ++ (Json.newline i ++ closing :: cs)))
      (Flows (depth + 1) false (ts.reverse ++ t :: acc) (closing :: cs))) :
    Passes (Flows depth allowed acc (opening :: (Json.newline (i + 1) ++ (inner ++ (Json.newline i ++ closing :: cs)))))
      (Flows depth false ((t :: ts ++ [t']).reverse ++ acc) cs) := by
  have hopen : opening = '{' ∧ t = .flowMapping ∨ opening = '[' ∧ t = .flowSequence :=
    hb.imp (fun h => ⟨h.1, h.2.2.1⟩) fun h => ⟨h.1, h.2.2.1⟩
  have hclose : closing = '}' ∧ t' = .flowMappingEnd ∨ closing = ']' ∧ t' = .flowSequenceEnd :=
    hb.imp (fun h => ⟨h.2.1, h.2.2.2⟩) fun h => ⟨h.2.1, h.2.2.2⟩
  have hinner := (passes_spacing (spacing_newline (i + 1)) _).trans h
  rw [Scan.reverse_block]
  exact ((passes_open hopen _).trans hinner).trans (passes_close hclose cs)

mutual
/-- A value with the gap behind it. -/
theorem passes_value : ∀ (t : Tree) (i depth : Nat) (allowed : Bool) (acc : List Token) (g cs : List Char) (x : Char),
    t.isPortable = true → Spacing g → x ∈ flowMarks →
      Passes (Flows (depth + 1) allowed acc (Json.chars i t ++ (g ++ x :: cs)))
        (Flows (depth + 1) false ((flowTokens t).reverse ++ acc) (x :: cs))
  | .text s, i, depth, allowed, acc, g, cs, x, ht, hg, _ => by
    rw [Json.chars, flowTokens]
    exact (passes_text ht _).trans (passes_spacing hg _)
  | .flag b, i, depth, allowed, acc, g, cs, x, _, hg, hx => by
    rw [Json.chars, flowTokens, flagChars]
    exact passes_word (isWord_flag b) hg hx
  | .number n, i, depth, allowed, acc, g, cs, x, _, hg, hx => by
    rw [Json.chars, flowTokens]
    exact passes_word (isWord_toString n) hg hx
  | .list [], i, depth, allowed, acc, g, cs, x, _, hg, _ => by
    rw [Json.chars, flowTokens]
    exact ((passes_open (.inr ⟨rfl, rfl⟩) _).trans (passes_close (.inr ⟨rfl, rfl⟩) _)).trans (passes_spacing hg _)
  | .object [], i, depth, allowed, acc, g, cs, x, _, hg, _ => by
    rw [Json.chars, flowTokens]
    exact ((passes_open (.inl ⟨rfl, rfl⟩) _).trans (passes_close (.inl ⟨rfl, rfl⟩) _)).trans (passes_spacing hg _)
  | .list (t :: ts), i, depth, allowed, acc, g, cs, x, ht, hg, _ => by
    have hchars : Json.chars i (.list (t :: ts)) ++ (g ++ x :: cs) = '[' :: (Json.newline (i + 1) ++
        (Json.itemChars (i + 1) (t :: ts) ++ (Json.newline i ++ ']' :: (g ++ x :: cs)))) := by
      simp [Json.chars_list]
    have hitems := passes_items (t :: ts) (i + 1) i (depth + 1) true (.flowSequence :: acc) (g ++ x :: cs) (by simp) ht
    rw [hchars, flowTokens]
    exact (passes_brackets allowed (.inr ⟨rfl, rfl, rfl, rfl⟩) hitems).trans (passes_spacing hg _)
  | .object (f :: fs), i, depth, allowed, acc, g, cs, x, ht, hg, _ => by
    have hchars : Json.chars i (.object (f :: fs)) ++ (g ++ x :: cs) = '{' :: (Json.newline (i + 1) ++
        (Json.entryChars (i + 1) (f :: fs) ++ (Json.newline i ++ '}' :: (g ++ x :: cs)))) := by
      simp [Json.chars_object]
    have hentries := passes_entries (f :: fs) (i + 1) i (depth + 1) (.flowMapping :: acc) (g ++ x :: cs) (by simp) ht
    rw [hchars, flowTokens]
    exact (passes_brackets allowed (.inl ⟨rfl, rfl, rfl, rfl⟩) hentries).trans (passes_spacing hg _)
theorem passes_items : ∀ (ts : List Tree) (i outer depth : Nat) (allowed : Bool) (acc : List Token) (cs : List Char),
    ts ≠ [] → Tree.everyItem isPortableKey (fun s => s.toList.all isPortable) (fun _ => true) ts = true →
      Passes (Flows (depth + 1) allowed acc (Json.itemChars i ts ++ (Json.newline outer ++ ']' :: cs)))
        (Flows (depth + 1) false ((flowItemTokens true ts).reverse ++ acc) (']' :: cs))
  | [], _, _, _, _, _, _, hne, _ => absurd rfl hne
  | [t], i, outer, depth, allowed, acc, cs, _, hts => by
    rw [Tree.everyItem, Bool.and_eq_true] at hts
    have hvalue := passes_value t i depth allowed acc (Json.newline outer) cs ']' hts.1 (spacing_newline outer) (by decide)
    simpa [Json.itemChars, Json.restChars, flowItemTokens] using hvalue
  | t :: t' :: ts, i, outer, depth, allowed, acc, cs, _, hts => by
    rw [Tree.everyItem, Bool.and_eq_true] at hts
    have hvalue := passes_value t i depth allowed acc [] (Json.newline i ++ (Json.itemChars i (t' :: ts) ++
      (Json.newline outer ++ ']' :: cs))) ',' hts.1 (.inl rfl) (by decide)
    have hitems := passes_items (t' :: ts) i outer depth true (.comma :: ((flowTokens t).reverse ++ acc)) cs
      (by simp) hts.2
    have hmore := (passes_spacing (spacing_newline i) _).trans hitems
    rw [flowItemTokens, flowItemTokens_cons, Json.itemChars, Json.restChars_eq]
    simpa using (hvalue.trans (passes_comma _)).trans hmore
theorem passes_entries : ∀ (fs : List (String × Tree)) (i outer depth : Nat) (acc : List Token) (cs : List Char),
    fs ≠ [] → Tree.everyField isPortableKey (fun s => s.toList.all isPortable) (fun _ => true) fs = true →
      Passes (Flows (depth + 1) true acc (Json.entryChars i fs ++ (Json.newline outer ++ '}' :: cs)))
        (Flows (depth + 1) false ((flowEntryTokens true fs).reverse ++ acc) ('}' :: cs))
  | [], _, _, _, _, _, hne, _ => absurd rfl hne
  | [(k, t)], i, outer, depth, acc, cs, _, hfs => by
    simp only [Tree.everyField, Bool.and_eq_true, Bool.and_true] at hfs
    have hkey := passes_field hfs.1 depth acc (Json.chars i t ++ (Json.newline outer ++ '}' :: cs))
    have hvalue := passes_value t i depth false (.value :: .scalar .quoted k :: .key :: acc) (Json.newline outer) cs
      '}' hfs.2 (spacing_newline outer) (by decide)
    simpa [Json.entryChars, Json.fieldChars, flowEntryTokens] using hkey.trans hvalue
  | (k, t) :: f :: fs, i, outer, depth, acc, cs, _, hfs => by
    rw [Tree.everyField, Bool.and_eq_true, Bool.and_eq_true] at hfs
    have hkey := passes_field hfs.1.1 depth acc (Json.chars i t ++ ([] ++ ',' :: (Json.newline i ++
      (Json.entryChars i (f :: fs) ++ (Json.newline outer ++ '}' :: cs)))))
    have hvalue := passes_value t i depth false (.value :: .scalar .quoted k :: .key :: acc) []
      (Json.newline i ++ (Json.entryChars i (f :: fs) ++ (Json.newline outer ++ '}' :: cs))) ',' hfs.1.2 (.inl rfl)
      (by decide)
    have hentries := passes_entries (f :: fs) i outer depth
      (.comma :: ((flowTokens t).reverse ++ .value :: .scalar .quoted k :: .key :: acc)) cs (by simp) hfs.2
    have hmore := (passes_spacing (spacing_newline i) _).trans hentries
    rw [flowEntryTokens, flowEntryTokens_cons, Json.entryChars, Json.fieldChars_eq]
    simpa using ((hkey.trans hvalue).trans (passes_comma _)).trans hmore
end

end Scan

/-! ## Nodes -/

section
variable {handles : Handles} {fuel : Nat} {t : Token} {n : Node} {more : List Token} {anchors : Anchors} {r : Reading}

theorem flowItems?_item (first : Bool) (ht : t.opensNode = true)
    (hnode : node? handles .flow fuel ⟨t :: more, anchors⟩ = some (n, r)) :
    flowItems? handles (fuel + 1) first ⟨(if first then [] else [.comma]) ++ t :: more, anchors⟩ =
      (flowItems? handles fuel false r).map fun x => (n :: x.1, x.2) := by
  have hend : t ≠ .flowSequenceEnd := by
    rintro rfl
    cases ht
  have hkey : t ≠ .key := by
    rintro rfl
    cases ht
  rw [flowItems?]
  cases hitems : flowItems? handles fuel false r <;> cases first <;> simp [hend, hkey, hnode, hitems]

theorem flowItems?_end (first : Bool) :
    flowItems? handles (fuel + 1) first ⟨.flowSequenceEnd :: more, anchors⟩ = some ([], ⟨more, anchors⟩) := by
  rw [flowItems?]

theorem flowEntries?_entry (first : Bool) {k : String} (ht : t.opensNode = true)
    (hnode : node? handles .flow (fuel + 2) ⟨t :: more, anchors⟩ = some (n, r)) :
    flowEntries? handles (fuel + 3) first
        ⟨(if first then [] else [.comma]) ++ .key :: .scalar .quoted k :: .value :: t :: more, anchors⟩ =
      (flowEntries? handles (fuel + 2) false r).map fun x => ((.scalar .quoted none k, n) :: x.1, x.2) := by
  have hcomma : t ≠ .comma := by
    rintro rfl
    cases ht
  have hend : t ≠ .flowMappingEnd := by
    rintro rfl
    cases ht
  have hkey : node? handles .flow (fuel + 2) ⟨.scalar .quoted k :: .value :: t :: more, anchors⟩ =
      some (.scalar .quoted none k, ⟨.value :: t :: more, anchors⟩) := node?_scalar
  rw [flowEntries?]
  cases hentries : flowEntries? handles (fuel + 2) false r <;> cases first <;>
    simp [hcomma, hend, hkey, hnode, hentries]

theorem flowEntries?_end (first : Bool) :
    flowEntries? handles (fuel + 1) first ⟨.flowMappingEnd :: more, anchors⟩ = some ([], ⟨more, anchors⟩) := by
  rw [flowEntries?]

end

theorem flowTokens_head (t : Tree) : ∃ u more, flowTokens t = u :: more ∧ u.opensNode = true := by
  cases t with
  | text | flag | number =>
    rw [flowTokens]
    exact ⟨_, _, rfl, rfl⟩
  | list ts =>
    rw [flowTokens]
    exact ⟨_, _, rfl, rfl⟩
  | object fs =>
    rw [flowTokens]
    exact ⟨_, _, rfl, rfl⟩

section
variable (handles : Handles) (anchors : Anchors)

mutual
theorem node?_flow : ∀ (t : Tree) (setting : Setting) (fuel : Nat) (rest : List Token), t.Bounded →
    4 * (flowTokens t).length ≤ fuel → ∃ n, node? handles setting fuel ⟨flowTokens t ++ rest, anchors⟩ =
      some (n, ⟨rest, anchors⟩) ∧ n.shows t = true
  | .text s, setting, fuel, rest, _, hfuel => by
    rw [flowTokens] at *
    obtain ⟨fuel, rfl⟩ : ∃ k, fuel = k + 2 := ⟨fuel - 2, by simp at hfuel; omega⟩
    exact ⟨_, node?_scalar, shows_text (scalar?_quoted s)⟩
  | .flag b, setting, fuel, rest, _, hfuel => by
    rw [flowTokens] at *
    obtain ⟨fuel, rfl⟩ : ∃ k, fuel = k + 2 := ⟨fuel - 2, by simp at hfuel; omega⟩
    exact ⟨_, node?_scalar, shows_flag b⟩
  | .number n, setting, fuel, rest, hbounded, hfuel => by
    rw [Tree.bounded_number] at hbounded
    rw [flowTokens] at *
    obtain ⟨fuel, rfl⟩ : ∃ k, fuel = k + 2 := ⟨fuel - 2, by simp at hfuel; omega⟩
    exact ⟨_, node?_scalar, shows_number hbounded⟩
  | .list ts, setting, fuel, rest, hbounded, hfuel => by
    rw [Tree.bounded_list] at hbounded
    rw [flowTokens] at hfuel ⊢
    simp only [List.length_append, List.length_cons, List.length_nil] at hfuel
    obtain ⟨fuel, rfl⟩ : ∃ k, fuel = k + 2 := ⟨fuel - 2, by omega⟩
    obtain ⟨ns, hitems, hshows⟩ := flowItems?_trees ts true fuel rest hbounded (by omega)
    refine ⟨.sequence none ns, ?_, by rwa [Node.shows]⟩
    rw [List.cons_append, List.cons_append, List.append_assoc, List.singleton_append, node?_of_opensNode rfl,
      content?.eq_def]
    simp [hitems]
  | .object fs, setting, fuel, rest, hbounded, hfuel => by
    rw [Tree.bounded_object] at hbounded
    rw [flowTokens] at hfuel ⊢
    simp only [List.length_append, List.length_cons, List.length_nil] at hfuel
    obtain ⟨fuel, rfl⟩ : ∃ k, fuel = k + 2 := ⟨fuel - 2, by omega⟩
    obtain ⟨es, hentries, hshows⟩ := flowEntries?_trees fs true fuel rest hbounded (by omega)
    refine ⟨.mapping none es, ?_, by rwa [Node.shows]⟩
    rw [List.cons_append, List.cons_append, List.append_assoc, List.singleton_append, node?_of_opensNode rfl,
      content?.eq_def]
    simp [hentries]
theorem flowItems?_trees : ∀ (ts : List Tree) (first : Bool) (fuel : Nat) (rest : List Token),
    (∀ t ∈ ts, t.Bounded) →
    4 * (flowItemTokens first ts).length < fuel →
      ∃ ns, flowItems? handles fuel first ⟨flowItemTokens first ts ++ .flowSequenceEnd :: rest, anchors⟩ =
        some (ns, ⟨rest, anchors⟩) ∧ Node.showsItems ns ts = true
  | _, _, 0, _, _, hfuel => absurd hfuel (Nat.not_lt_zero _)
  | [], first, fuel + 1, rest, _, _ => by
    rw [flowItemTokens, List.nil_append, flowItems?_end]
    exact ⟨[], rfl, rfl⟩
  | t :: ts, first, fuel + 1, rest, hbounded, hfuel => by
    obtain ⟨u, more, htokens, hu⟩ := flowTokens_head t
    rw [flowItemTokens] at hfuel ⊢
    have hpos : 0 < (flowTokens t).length := by simp [htokens]
    simp only [List.length_append] at hfuel
    obtain ⟨n, hnode, hn⟩ := node?_flow t .flow fuel (flowItemTokens false ts ++ .flowSequenceEnd :: rest)
      (hbounded t (List.mem_cons_self ..)) (by omega)
    obtain ⟨ns, hitems, hns⟩ := flowItems?_trees ts false fuel rest
      (fun u hu => hbounded u (List.mem_cons_of_mem _ hu)) (by omega)
    refine ⟨n :: ns, ?_, by simp [Node.showsItems, hn, hns]⟩
    rw [htokens, List.cons_append] at hnode
    rw [List.append_assoc, List.append_assoc, htokens, List.cons_append, flowItems?_item first hu hnode, hitems]
    rfl
theorem flowEntries?_trees : ∀ (fs : List (String × Tree)) (first : Bool) (fuel : Nat) (rest : List Token),
    Tree.FieldsBounded fs → 4 * (flowEntryTokens first fs).length < fuel →
      ∃ es, flowEntries? handles fuel first ⟨flowEntryTokens first fs ++ .flowMappingEnd :: rest, anchors⟩ =
        some (es, ⟨rest, anchors⟩) ∧ Node.showsFields es fs = true
  | _, _, 0, _, _, hfuel => absurd hfuel (Nat.not_lt_zero _)
  | [], first, fuel + 1, rest, _, _ => by
    rw [flowEntryTokens, List.nil_append, flowEntries?_end]
    exact ⟨[], rfl, rfl⟩
  | (k, t) :: fs, first, fuel + 1, rest, hbounded, hfuel => by
    obtain ⟨u, more, htokens, hu⟩ := flowTokens_head t
    rw [flowEntryTokens] at hfuel ⊢
    simp only [List.length_append, List.length_cons] at hfuel
    obtain ⟨fuel, rfl⟩ : ∃ k, fuel = k + 2 := ⟨fuel - 2, by omega⟩
    obtain ⟨n, hnode, hn⟩ := node?_flow t .flow (fuel + 2) (flowEntryTokens false fs ++ .flowMappingEnd :: rest)
      (hbounded _ (List.mem_cons_self ..)) (by omega)
    obtain ⟨es, hentries, hes⟩ := flowEntries?_trees fs false (fuel + 2) rest
      (fun u hu => hbounded u (List.mem_cons_of_mem _ hu)) (by omega)
    refine ⟨(.scalar .quoted none k, n) :: es, ?_, ?_⟩
    · rw [htokens, List.cons_append] at hnode
      simp only [List.append_assoc, List.cons_append, htokens]
      rw [flowEntries?_entry first hu hnode, hentries]
      rfl
    · simp [Node.showsFields, scalar?_quoted, hn, hes, Readable.text?]
end

end

/-! ## Texts -/

theorem admitted_escape {c : Char} (h : isPortable c = true) : (Json.escape c).all isAdmitted = true := by
  have hcoded : ∀ n, n < 32 →
      ['\\', 'u', '0', '0', Json.hexDigit (n / 16), Json.hexDigit (n % 16)].all isAdmitted = true := by
    decide
  unfold Json.escape
  cases hletter : Json.letterEscapes.lookup c with
  | some letter =>
    have hall : ∀ p ∈ Json.letterEscapes, ['\\', p.2].all isAdmitted = true := by decide
    exact hall _ (mem_of_lookup hletter)
  | none =>
    dsimp only
    split
    · rename_i hlow
      exact hcoded c.toNat hlow
    · rename_i hlow
      simp only [isPortable, hlow, decide_false, Bool.false_or, Bool.and_eq_true] at h
      simp [h.1]

theorem admitted_quote {s : String} (h : s.toList.all isPortable = true) : (Json.quote s).all isAdmitted = true := by
  have hquote : isAdmitted '"' = true := by decide
  have hbody : (s.toList.flatMap Json.escape).all isAdmitted = true := by
    rw [List.all_flatMap, List.all_eq_true]
    exact fun c hc => admitted_escape (List.all_eq_true.mp h c hc)
  simp only [Json.quote, List.cons_append, List.all_cons, List.all_append, List.all_nil, hquote, hbody, Bool.and_self]

theorem admitted_word {s : String} (h : IsWord s.toList) : s.toList.all isAdmitted = true :=
  List.all_eq_true.mpr fun c hc => isAdmitted_of_isPrintable (h.plainText.printable c hc)

theorem admitted_newline (i : Nat) : (Json.newline i).all isAdmitted = true := by
  have hblank : isAdmitted ' ' = true := by decide
  have hbreak : isAdmitted '\n' = true := by decide
  simp [Json.newline, hblank, hbreak]

theorem admitted_mark : ∀ c ∈ [',', '[', ']', '{', '}', ':', ' '], isAdmitted c = true :=
  List.all_eq_true.mp (by decide)

mutual
theorem admitted_chars : ∀ (t : Tree) (i : Nat), t.isPortable = true → (Json.chars i t).all isAdmitted = true
  | .text s, i, ht => by
    rw [Json.chars]
    exact admitted_quote ht
  | .flag b, i, _ => by
    rw [Json.chars, Scan.flagChars]
    exact admitted_word (isWord_flag b)
  | .number n, i, _ => by
    rw [Json.chars]
    exact admitted_word (isWord_toString n)
  | .list [], i, _ => by
    rw [Json.chars]
    decide
  | .object [], i, _ => by
    rw [Json.chars]
    decide
  | .list (t :: ts), i, ht => by
    obtain ⟨ht, hts⟩ := Bool.and_eq_true_iff.mp ht
    rw [Json.chars]
    simp [List.all_append, -List.all_eq_true, admitted_mark, admitted_newline,
      admitted_chars t (i + 1) ht, admitted_items ts (i + 1) hts]
  | .object ((k, t) :: fs), i, ht => by
    obtain ⟨ht, hfs⟩ := Bool.and_eq_true_iff.mp ht
    obtain ⟨hk, ht⟩ := Bool.and_eq_true_iff.mp ht
    rw [Json.chars]
    simp [List.all_append, -List.all_eq_true, admitted_mark, admitted_newline,
      admitted_chars t (i + 1) ht, admitted_fields fs (i + 1) hfs,
      admitted_quote (isPortableKey_iff.mp hk).1]
theorem admitted_items : ∀ (ts : List Tree) (i : Nat),
    Tree.everyItem isPortableKey (fun s => s.toList.all isPortable) (fun _ => true) ts = true →
      (Json.restChars i ts).all isAdmitted = true
  | [], _, _ => by
    rw [Json.restChars]
    rfl
  | t :: ts, i, hts => by
    obtain ⟨ht, hts⟩ := Bool.and_eq_true_iff.mp hts
    rw [Json.restChars]
    simp [List.all_append, -List.all_eq_true, admitted_mark, admitted_newline,
      admitted_chars t i ht, admitted_items ts i hts]
theorem admitted_fields : ∀ (fs : List (String × Tree)) (i : Nat),
    Tree.everyField isPortableKey (fun s => s.toList.all isPortable) (fun _ => true) fs = true →
      (Json.fieldChars i fs).all isAdmitted = true
  | [], _, _ => by
    rw [Json.fieldChars]
    rfl
  | (k, t) :: fs, i, hfs => by
    obtain ⟨ht, hfs⟩ := Bool.and_eq_true_iff.mp hfs
    obtain ⟨hk, ht⟩ := Bool.and_eq_true_iff.mp ht
    rw [Json.fieldChars]
    simp [List.all_append, -List.all_eq_true, admitted_mark, admitted_newline,
      admitted_chars t i ht, admitted_fields fs i hfs,
      admitted_quote (isPortableKey_iff.mp hk).1]
end

theorem Scan.all?_flow {fuel : Nat} {allowed : Bool} {acc : List Token} {s : Scan}
    (h : Scan.Flows 0 allowed acc [] s) : Scan.all? (fuel + 1) s = some acc.reverse := by
  obtain ⟨line, column, h⟩ := h
  obtain ⟨dropped, hdrop, hdropped⟩ := h.dropKey?
  have hrest : s.rest = [] := by simpa using h.rest_eq
  rw [Scan.all?_nil fuel hrest, h.closeBlocks, hdrop, Option.map_some, hdropped.tokens_eq]

theorem tokenChars?_json {f : String × Tree} {fs : List (String × Tree)} (h : (Tree.object (f :: fs)).isPortable = true) :
    tokenChars? (Json.chars 0 (.object (f :: fs))) = some (flowTokens (.object (f :: fs))) := by
  have hadmitted := admitted_chars (.object (f :: fs)) 0 h
  have hentries := Scan.passes_entries (f :: fs) 1 0 0 [.flowMapping] [] (by simp) h
  have hpasses := Scan.passes_brackets true (.inl ⟨rfl, rfl, rfl, rfl⟩) hentries
  have hstart : Scan.Flows 0 true [] (Json.chars 0 (.object (f :: fs)))
      { rest := cellsFrom 0 0 (Json.chars 0 (.object (f :: fs))) } := by
    exact ⟨0, 0, rfl, rfl, rfl, rfl, rfl, rfl, rfl, by simp, fun _ => rfl⟩
  rw [← Json.chars_object] at hpasses
  obtain ⟨s, hs, hreach⟩ := hpasses _ hstart
  obtain ⟨fuel, hfuel, hall⟩ := hreach _ (Nat.lt_succ_self _)
  obtain ⟨fuel, rfl⟩ : ∃ k, fuel = k + 1 := ⟨fuel - 1, by omega⟩
  have hmark : (cellsFrom 0 0 (Json.chars 0 (.object (f :: fs)))).head?.any (fun c => c.char.toNat == 0xFEFF) = false := by
    rw [Json.chars_object, cellsFrom_inline (by decide)]
    rfl
  rw [tokenChars?, if_pos hadmitted]
  simp only [hmark, Bool.false_eq_true, if_false]
  rw [hall, Scan.all?_flow hs, flowTokens]
  simp

theorem recovers_json {f : String × Tree} {fs : List (String × Tree)} (hbounded : (Tree.object (f :: fs)).Bounded)
    (h : (Tree.object (f :: fs)).isPortable = true) :
    Recovers (Json.render (.object (f :: fs))) (.object (f :: fs)) := by
  obtain ⟨n, hnode, hn⟩ := node?_flow standardHandles {} (.object (f :: fs)) .block
    (4 * (flowTokens (.object (f :: fs))).length + 4) [] hbounded (by omega)
  have htokens : Document.ofTokens? (flowTokens (.object (f :: fs))) = some ⟨n, {}⟩ := by
    rw [List.append_nil] at hnode
    rw [flowTokens, List.cons_append] at hnode ⊢
    exact ofTokens?_node rfl hnode
  refine ⟨⟨{}, n⟩, ?_, hn⟩
  rw [read?, Json.render, tokens?_ofList, tokenChars?_json h]
  simp [htokens]

end Yaml

end ApiDocs
