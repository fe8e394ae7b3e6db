import ApiDocs.Proofs.Leaves
import ApiDocs.Proofs.Recovery
import ApiDocs.Proofs.Yaml.Blocks

/-!
# Tokens of a tree as nodes

The tokens of a tree make a node that is the tree. A scalar stands for the text, the truth value or the
number that it was written for, because a text that could stand for anything else is written between
quotes.
-/

namespace ApiDocs.Yaml

/-! ## Numbers -/

theorem digitValue?_of_isDigit {c : Char} (h : Json.isDigit c = true) :
    digitValue? c = some (c.toNat - '0'.toNat) ∧ c.toNat - '0'.toNat < 10 := by
  have h' : '0' ≤ c ∧ c ≤ '9' := by simpa [Json.isDigit] using h
  have hhigh : c.toNat ≤ '9'.toNat := h'.2
  have hnine : '9'.toNat = 57 := by decide
  have hzero : '0'.toNat = 48 := by decide
  exact ⟨by simp [digitValue?, h'], by omega⟩

theorem digits?_toDigits (n : Nat) : digits? 10 (Nat.toDigits 10 n) = some n := by
  have hfold : ∀ (cs : List Char) (a : Nat), (∀ c ∈ cs, Json.isDigit c = true) →
      cs.foldlM (fun n c => do
        let d ← digitValue? c
        if d < 10 then some (10 * n + d) else none) a =
      some (cs.foldl (fun n c => 10 * n + (c.toNat - '0'.toNat)) a) := by
    intro cs
    induction cs with
    | nil => exact fun _ _ => rfl
    | cons c cs ih =>
      intro a h
      obtain ⟨hvalue, hlt⟩ := digitValue?_of_isDigit (h c (List.mem_cons_self ..))
      rw [List.foldlM_cons, hvalue]
      simp only [Option.bind_eq_bind, Option.bind_some, hlt, if_true, List.foldl_cons]
      exact ih _ fun d hd => h d (List.mem_cons_of_mem _ hd)
  have hne : (Nat.toDigits 10 n).isEmpty = false := by simp [Nat.toDigits_ne_nil]
  rw [digits?, hne, if_neg (by decide), hfold _ _ fun c hc => Json.isDigit_of_mem hc]
  exact congrArg some Nat.ofDigitChars_ten_toDigits

/-- Digits begin with zero only if that is all, so they have no mark of a base. -/
theorem based?_toDigits (n : Nat) : based? (Nat.toDigits 10 n) = none := by
  rw [based?.eq_def]
  split
  · rename_i h
    cases Json.toDigits_zero_head h
  · rename_i h
    cases Json.toDigits_zero_head h
  · rename_i h
    cases Json.toDigits_zero_head h
  · rfl

theorem leadingZero_toDigits (n : Nat) : leadingZero (Nat.toDigits 10 n) = false ∧
    leadingZero ('-' :: Nat.toDigits 10 n) = false := by
  obtain ⟨d, ds, hd⟩ := List.exists_cons_of_ne_nil (@Nat.toDigits_ne_nil n 10)
  have hdigit : Json.isDigit d = true := Json.isDigit_of_mem (hd ▸ List.mem_cons_self ..)
  by_cases hzero : d = '0'
  · subst hzero
    obtain rfl := Json.toDigits_zero_head hd
    rw [hd]
    decide
  · have hsign : isSign d = false := by
      by_contra hs
      rw [Bool.not_eq_false, isSign, Bool.or_eq_true, beq_iff_eq, beq_iff_eq] at hs
      rcases hs with rfl | rfl <;> exact absurd hdigit (by decide)
    rw [hd]
    constructor
    · simp [leadingZero, hsign, hzero]
    · simp [leadingZero, isSign, hzero]

theorem integerChars?_toString (n : Int) : integerChars? (toString n).toList = some n := by
  obtain ⟨hzero, hzero'⟩ := leadingZero_toDigits n.natAbs
  obtain ⟨d, ds, hd⟩ := List.exists_cons_of_ne_nil (@Nat.toDigits_ne_nil n.natAbs 10)
  have hdigit : Json.isDigit d = true := Json.isDigit_of_mem (hd ▸ List.mem_cons_self ..)
  have hminus : ∀ c, Json.isDigit c = false → d ≠ c := by
    rintro c hc rfl
    simp [hc] at hdigit
  rw [Json.toList_toString]
  split
  · rename_i hneg
    have habs : -(n.natAbs : Int) = n := by omega
    rw [integerChars?]
    simp only [based?_toDigits, hzero', digits?_toDigits, Option.none_or, Bool.false_eq_true, if_false]
    exact congrArg some habs
  · rename_i hneg
    have habs : Int.ofNat n.natAbs = n := Int.natAbs_of_nonneg (by omega)
    have hnatural : natural? (Nat.toDigits 10 n.natAbs) = some n.natAbs := by
      unfold natural?
      split
      · rename_i h
        rw [hd] at h
        exact absurd (List.cons.inj h).1 (hminus '+' (by decide))
      · simp only [based?_toDigits, hzero, digits?_toDigits, Option.none_or, Bool.false_eq_true, if_false]
    unfold integerChars?
    split
    · rename_i h
      rw [hd] at h
      exact absurd (List.cons.inj h).1 (hminus '-' (by decide))
    · rw [hnatural, Option.map_some, habs]

theorem resolve?_toString {n : Int} (h : Word.Fits 64 n) : resolve? (toString n) = some (.integer n) := by
  obtain ⟨c, cs, hcs, hc⟩ := Json.toString_head n
  -- no word for nothing or for a truth value begins with a digit or a minus sign
  have hne : ∀ s : String, s.toList.head?.all (fun d => !Json.isDigit d && d != '-') = true →
      (toString n == s) = false := by
    intro s hs
    rw [beq_eq_false_iff_ne]
    rintro rfl
    rw [hcs, List.head?_cons] at hs
    obtain ⟨hd, hm⟩ : Json.isDigit c = false ∧ c ≠ '-' := by simpa using hs
    exact hc.not hd hm rfl
  have hempty : (toString n).isEmpty = false := by
    have := hne "" (by decide)
    rw [beq_eq_false_iff_ne] at this
    simpa using this
  have hnull : isNullWord (toString n) = false := by
    simp only [isNullWord]
    rw [hne "null" (by decide), hne "Null" (by decide), hne "NULL" (by decide), hne "~" (by decide)]
    rfl
  have hflag : flag? (toString n) = none := by
    simp only [flag?]
    rw [hne "true" (by decide), hne "True" (by decide), hne "TRUE" (by decide), hne "false" (by decide),
      hne "False" (by decide), hne "FALSE" (by decide)]
    rfl
  simp only [resolve?, hempty, hnull, hflag, integerChars?_toString, h]
  rfl

/-! ## Scalars -/

theorem resolve?_of_needsQuotes {s : String} (h : needsQuotes s = false) : resolve? s = some (.text s) := by
  rw [needsQuotes, Bool.or_eq_false_iff] at h
  have htext := h.2
  split at htext
  · rename_i text hs
    rcases resolve?_cases hs with h0 | ⟨_, h0 | h0 | ⟨b, h0, _⟩ | ⟨k, h0, _⟩⟩ <;> cases h0
    exact hs
  · cases htext

/-- The node of a text. -/
theorem scalar?_textToken (s : String) : ∃ style, textToken s = .scalar style s ∧
    (Node.scalar style none s).scalar? = some (.text s) := by
  have hstyled := styled s
  refine ⟨_, rfl, ?_⟩
  generalize style s = st at hstyled
  cases hstyled with
  | plain _ _ hquotes => exact resolve?_of_needsQuotes hquotes
  | single => rfl
  | double => rfl
  | literal => rfl

theorem scalar?_quoted (s : String) : (Node.scalar .quoted none s).scalar? = some (.text s) := rfl

theorem shows_text {style : ScalarStyle} {s : String} (h : (Node.scalar style none s).scalar? = some (.text s)) :
    (Node.scalar style none s).shows (.text s) = true := by
  simp [Node.shows, h, Readable.text?]

theorem shows_flag (b : Bool) : (Node.scalar .plain none (if b then "true" else "false")).shows (.flag b) = true := by
  rw [Node.shows]
  cases b <;> decide

theorem shows_number {n : Int} (h : Word.Fits 64 n) :
    (Node.scalar .plain none (toString n)).shows (.number n) = true := by
  have hscalar : (Node.scalar .plain none (toString n)).scalar? = some (.integer n) := resolve?_toString h
  rw [Node.shows, hscalar]
  simp [Readable.integer?]

/-! ## One node -/

def Token.opensNode : Token → Bool
  | .scalar .. | .flowSequence | .flowMapping | .item | .blockSequence | .blockMapping => true
  | _ => false

section
variable {handles : Handles} {setting : Setting} {fuel : Nat} {t : Token} {n : Node} {more : List Token}
  {anchors : Anchors} {r : Reading}

theorem node?_of_opensNode (ht : t.opensNode = true) :
    node? handles setting (fuel + 1) ⟨t :: more, anchors⟩ =
      content? handles setting fuel none false ⟨t :: more, anchors⟩ := by
  rw [node?]
  cases t <;> simp_all [Token.opensNode, properties, fullTag?]

theorem node?_scalar {style : ScalarStyle} {s : String} :
    node? handles setting (fuel + 2) ⟨.scalar style s :: more, anchors⟩ =
      some (.scalar style none s, ⟨more, anchors⟩) := by
  rw [node?_of_opensNode rfl, content?.eq_def]
  rfl

/-- The items are read one by one up to what comes behind them. -/
structure ReadsItems (handles : Handles) (anchors : Anchors) (items? : Nat → Reading → Option (List Node × Reading))
    (rest after : List Token) : Prop where
  item : ∀ {fuel t more n r}, t.opensNode = true → t ≠ .item →
    node? handles .block fuel ⟨t :: more, anchors⟩ = some (n, r) →
      items? (fuel + 1) ⟨.item :: t :: more, anchors⟩ = (items? fuel r).map fun x => (n :: x.1, x.2)
  last : ∀ fuel, items? (fuel + 1) ⟨rest, anchors⟩ = some ([], ⟨after, anchors⟩)

theorem readsItems_block : ReadsItems handles anchors (blockItems? handles) (.blockEnd :: more) more where
  item := by
    intro fuel t more n r ht hi hnode
    rw [blockItems?]
    cases hitems : blockItems? handles fuel r <;> cases t <;> simp_all [Token.opensNode]
  last fuel := by rw [blockItems?]

theorem readsItems_loose (h : more.head? ≠ some .item) :
    ReadsItems handles anchors (looseItems? handles) more more where
  item := by
    intro fuel t more n r ht hi hnode
    rw [looseItems?]
    cases hitems : looseItems? handles fuel r <;> cases t <;> simp_all [Token.opensNode]
  last fuel := by
    rw [looseItems?.eq_def]
    cases more with
    | nil => rfl
    | cons t more => cases t <;> simp_all

theorem blockEntries?_entry {style : ScalarStyle} {k : String} (ht : t.opensNode = true)
    (hnode : node? handles .blockValue (fuel + 2) ⟨t :: more, anchors⟩ = some (n, r)) :
    blockEntries? handles (fuel + 4) ⟨.key :: .scalar style k :: .value :: t :: more, anchors⟩ =
      (blockEntries? handles (fuel + 3) r).map fun x => ((.scalar style none k, n) :: x.1, x.2) := by
  have hkey : blockPart? handles (fuel + 3) ⟨.scalar style k :: .value :: t :: more, anchors⟩ =
      some (.scalar style none k, ⟨.value :: t :: more, anchors⟩) := by
    rw [blockPart?.eq_def]
    exact node?_scalar
  have hvalue : blockPart? handles (fuel + 3) ⟨t :: more, anchors⟩ = some (n, r) := by
    rw [blockPart?.eq_def, ← hnode]
    cases t <;> simp_all [Token.opensNode]
  rw [blockEntries?.eq_def]
  cases hentries : blockEntries? handles (fuel + 3) r <;> simp [hkey, hvalue, hentries]

theorem content?_scalar {style : ScalarStyle} {s : String} :
    content? handles setting (fuel + 1) none false ⟨.scalar style s :: more, anchors⟩ =
      some (.scalar style none s, ⟨more, anchors⟩) := by
  rw [content?.eq_def]
  rfl

theorem content?_emptySequence : content? handles setting (fuel + 2) none false
    ⟨.flowSequence :: .flowSequenceEnd :: more, anchors⟩ = some (.sequence none [], ⟨more, anchors⟩) := by
  rw [content?.eq_def]
  simp [flowItems?]

theorem content?_emptyMapping : content? handles setting (fuel + 2) none false
    ⟨.flowMapping :: .flowMappingEnd :: more, anchors⟩ = some (.mapping none [], ⟨more, anchors⟩) := by
  rw [content?.eq_def]
  simp [flowEntries?]

theorem content?_blockSequence (hsetting : setting ≠ .flow) :
    content? handles setting (fuel + 1) none false ⟨.blockSequence :: more, anchors⟩ =
      (blockItems? handles fuel ⟨more, anchors⟩).map fun x => (.sequence none x.1, x.2) := by
  rw [content?.eq_def]
  cases hitems : blockItems? handles fuel ⟨more, anchors⟩ <;> cases setting <;> simp_all

theorem content?_blockMapping (hsetting : setting ≠ .flow) :
    content? handles setting (fuel + 1) none false ⟨.blockMapping :: more, anchors⟩ =
      (blockEntries? handles fuel ⟨more, anchors⟩).map fun x => (.mapping none x.1, x.2) := by
  rw [content?.eq_def]
  cases hentries : blockEntries? handles fuel ⟨more, anchors⟩ <;> cases setting <;> simp_all

theorem content?_items :
    content? handles .blockValue (fuel + 1) none false ⟨.item :: more, anchors⟩ =
      (looseItems? handles fuel ⟨.item :: more, anchors⟩).map fun x => (.sequence none x.1, x.2) := by
  rw [content?.eq_def]
  cases hitems : looseItems? handles fuel ⟨.item :: more, anchors⟩ <;> simp [hitems]

end

/-! ## Trees -/

theorem treeTokens_head (loose : Bool) (t : Tree) : ∃ u more, treeTokens loose t = u :: more ∧
    u.opensNode = true ∧ (loose = false → u ≠ .item) := by
  match t with
  | .text s =>
    rw [treeTokens]
    exact ⟨_, _, rfl, rfl, nofun⟩
  | .flag b =>
    rw [treeTokens]
    exact ⟨_, _, rfl, rfl, nofun⟩
  | .number n =>
    rw [treeTokens]
    exact ⟨_, _, rfl, rfl, nofun⟩
  | .list [] =>
    rw [treeTokens]
    exact ⟨_, _, rfl, rfl, nofun⟩
  | .object [] =>
    rw [treeTokens]
    exact ⟨_, _, rfl, rfl, nofun⟩
  | .object (f :: fs) =>
    rw [treeTokens]
    exact ⟨_, _, rfl, rfl, nofun⟩
  | .list (t :: ts) =>
    rw [treeTokens, itemTokens]
    cases loose
    · exact ⟨_, _, rfl, rfl, nofun⟩
    · exact ⟨_, _, rfl, rfl, nofun⟩

theorem node?_treeTokens (handles : Handles) (setting : Setting) (fuel : Nat) (loose : Bool) (t : Tree)
    (rest : List Token) (anchors : Anchors) :
    node? handles setting (fuel + 1) ⟨treeTokens loose t ++ rest, anchors⟩ =
      content? handles setting fuel none false ⟨treeTokens loose t ++ rest, anchors⟩ := by
  obtain ⟨u, more, htokens, hu, -⟩ := treeTokens_head loose t
  rw [htokens]
  exact node?_of_opensNode hu

section
variable (handles : Handles) (anchors : Anchors)

mutual
theorem content?_tree : ∀ (t : Tree) (loose : Bool) (setting : Setting) (fuel : Nat) (rest : List Token),
    t.Bounded → setting ≠ .flow → (loose = true → setting = .blockValue ∧ rest.head? ≠ some .item) →
      4 * (treeTokens loose t).length ≤ fuel + 1 →
        ∃ n, content? handles setting fuel none false ⟨treeTokens loose t ++ rest, anchors⟩ =
          some (n, ⟨rest, anchors⟩) ∧ n.shows t = true
  | .text s, loose, setting, fuel, rest, _, _, _, hfuel => by
    obtain ⟨style, htoken, hscalar⟩ := scalar?_textToken s
    rw [treeTokens, htoken] at *
    obtain ⟨fuel, rfl⟩ : ∃ k, fuel = k + 1 := ⟨fuel - 1, by simp at hfuel; omega⟩
    exact ⟨_, content?_scalar, shows_text hscalar⟩
  | .flag b, loose, setting, fuel, rest, _, _, _, hfuel => by
    rw [treeTokens] at *
    obtain ⟨fuel, rfl⟩ : ∃ k, fuel = k + 1 := ⟨fuel - 1, by simp at hfuel; omega⟩
    exact ⟨_, content?_scalar, shows_flag b⟩
  | .number n, loose, setting, fuel, rest, hbounded, _, _, hfuel => by
    rw [Tree.bounded_number] at hbounded
    rw [treeTokens] at *
    obtain ⟨fuel, rfl⟩ : ∃ k, fuel = k + 1 := ⟨fuel - 1, by simp at hfuel; omega⟩
    exact ⟨_, content?_scalar, shows_number hbounded⟩
  | .list [], loose, setting, fuel, rest, _, _, _, hfuel => by
    rw [treeTokens] at *
    obtain ⟨fuel, rfl⟩ : ∃ k, fuel = k + 2 := ⟨fuel - 2, by simp at hfuel; omega⟩
    exact ⟨_, content?_emptySequence, by rw [Node.shows]; rfl⟩
  | .object [], loose, setting, fuel, rest, _, _, _, hfuel => by
    rw [treeTokens] at *
    obtain ⟨fuel, rfl⟩ : ∃ k, fuel = k + 2 := ⟨fuel - 2, by simp at hfuel; omega⟩
    exact ⟨_, content?_emptyMapping, by rw [Node.shows]; rfl⟩
  | .list (t :: ts), true, setting, fuel, rest, hbounded, _, hloose, hfuel => by
    obtain ⟨rfl, hrest⟩ := hloose rfl
    rw [Tree.bounded_list] at hbounded
    rw [treeTokens] at hfuel ⊢
    simp only [if_true] at hfuel ⊢
    have hlength : 0 < (itemTokens (t :: ts)).length := by simp [itemTokens]
    obtain ⟨fuel, rfl⟩ : ∃ k, fuel = k + 1 := ⟨fuel - 1, by omega⟩
    obtain ⟨ns, hitems, hshows⟩ := items?_trees (t :: ts) (looseItems? handles) fuel rest rest (readsItems_loose hrest)
      hbounded (by omega) (by omega)
    refine ⟨.sequence none ns, ?_, by rwa [Node.shows]⟩
    rw [itemTokens] at hitems ⊢
    rw [List.cons_append, List.cons_append] at hitems ⊢
    rw [content?_items, hitems]
    rfl
  | .list (t :: ts), false, setting, fuel, rest, hbounded, hsetting, _, hfuel => by
    rw [Tree.bounded_list] at hbounded
    rw [treeTokens] at hfuel ⊢
    simp only [Bool.false_eq_true, if_false] at hfuel ⊢
    simp only [List.length_append, List.length_cons, List.length_nil] at hfuel
    obtain ⟨fuel, rfl⟩ : ∃ k, fuel = k + 1 := ⟨fuel - 1, by omega⟩
    obtain ⟨ns, hitems, hshows⟩ := items?_trees (t :: ts) (blockItems? handles) fuel (.blockEnd :: rest) rest
      readsItems_block hbounded (by omega) (by omega)
    refine ⟨.sequence none ns, ?_, by rwa [Node.shows]⟩
    rw [List.cons_append, List.cons_append, List.append_assoc, List.singleton_append,
      content?_blockSequence hsetting, hitems]
    rfl
  | .object (f :: fs), loose, setting, fuel, rest, hbounded, hsetting, _, hfuel => by
    rw [Tree.bounded_object] at hbounded
    rw [treeTokens] at hfuel ⊢
    simp only [List.length_append, List.length_cons, List.length_nil] at hfuel
    obtain ⟨fuel, rfl⟩ : ∃ k, fuel = k + 1 := ⟨fuel - 1, by omega⟩
    obtain ⟨ns, hentries, hshows⟩ := blockEntries?_trees (f :: fs) fuel rest hbounded (by omega) (by omega)
    refine ⟨.mapping none ns, ?_, by rwa [Node.shows]⟩
    rw [List.cons_append, List.cons_append, List.append_assoc, List.singleton_append,
      content?_blockMapping hsetting, hentries]
    rfl
theorem items?_trees : ∀ (ts : List Tree) (items? : Nat → Reading → Option (List Node × Reading)) (fuel : Nat)
    (rest after : List Token), ReadsItems handles anchors items? rest after → (∀ t ∈ ts, t.Bounded) →
      4 * (itemTokens ts).length < fuel + 3 → 0 < fuel →
        ∃ ns, items? fuel ⟨itemTokens ts ++ rest, anchors⟩ = some (ns, ⟨after, anchors⟩) ∧
          Node.showsItems ns ts = true
  | _, _, 0, _, _, _, _, _, hpos => absurd hpos (Nat.lt_irrefl 0)
  | [], items?, fuel + 1, rest, after, hreads, _, _, _ => by
    rw [itemTokens, List.nil_append, hreads.last]
    exact ⟨[], rfl, rfl⟩
  | t :: ts, items?, fuel + 1, rest, after, hreads, hbounded, hfuel, _ => by
    rw [itemTokens] at hfuel ⊢
    simp only [List.length_append, List.length_cons] at hfuel
    obtain ⟨fuel, rfl⟩ : ∃ k, fuel = k + 1 := ⟨fuel - 1, by omega⟩
    obtain ⟨n, hnode, hn⟩ := content?_tree t false .block fuel (itemTokens ts ++ rest)
      (hbounded t (List.mem_cons_self ..)) nofun nofun (by omega)
    obtain ⟨ns, hitems, hns⟩ := items?_trees ts items? (fuel + 1) rest after hreads
      (fun u hu => hbounded u (List.mem_cons_of_mem _ hu)) (by omega) (by omega)
    refine ⟨n :: ns, ?_, by simp [Node.showsItems, hn, hns]⟩
    rw [← node?_treeTokens] at hnode
    obtain ⟨u, more, htokens, hu, hi⟩ := treeTokens_head false t
    rw [htokens, List.cons_append] at hnode
    rw [List.cons_append, List.cons_append, htokens, List.append_assoc, List.cons_append,
      hreads.item hu (hi rfl) hnode, hitems]
    rfl
theorem blockEntries?_trees : ∀ (fs : List (String × Tree)) (fuel : Nat) (rest : List Token),
    Tree.FieldsBounded fs → 4 * (entryTokens fs).length < fuel + 3 → 0 < fuel →
      ∃ es, blockEntries? handles fuel ⟨entryTokens fs ++ .blockEnd :: rest, anchors⟩ =
        some (es, ⟨rest, anchors⟩) ∧ Node.showsFields es fs = true
  | _, 0, _, _, _, hpos => absurd hpos (Nat.lt_irrefl 0)
  | [], fuel + 1, rest, _, _, _ => by
    rw [entryTokens, List.nil_append, blockEntries?]
    exact ⟨[], rfl, rfl⟩
  | (k, t) :: fs, fuel + 1, rest, hbounded, hfuel, _ => by
    have hnext : (entryTokens fs ++ .blockEnd :: rest).head? ≠ some .item := by
      cases fs with
      | nil => simp [entryTokens]
      | cons f fs => simp [entryTokens]
    rw [entryTokens] at hfuel ⊢
    simp only [List.length_append, List.length_cons] at hfuel
    obtain ⟨fuel, rfl⟩ : ∃ k, fuel = k + 3 := ⟨fuel - 3, by omega⟩
    obtain ⟨n, hnode, hn⟩ := content?_tree t (isSimpleKey k) .blockValue (fuel + 1)
      (entryTokens fs ++ .blockEnd :: rest) (hbounded _ (List.mem_cons_self ..)) nofun (fun _ => ⟨rfl, hnext⟩) (by omega)
    obtain ⟨es, hentries, hes⟩ := blockEntries?_trees fs (fuel + 3) rest
      (fun u hu => hbounded u (List.mem_cons_of_mem _ hu)) (by omega) (by omega)
    obtain ⟨style, htoken, hscalar⟩ := scalar?_textToken k
    refine ⟨(.scalar style none k, n) :: es, ?_, ?_⟩
    · rw [← node?_treeTokens] at hnode
      obtain ⟨u, more, htokens, hu, -⟩ := treeTokens_head (isSimpleKey k) t
      rw [htokens, List.cons_append] at hnode
      simp only [List.cons_append, htokens, List.append_assoc, htoken]
      rw [blockEntries?_entry hu hnode, hentries]
      rfl
    · simp [Node.showsFields, hscalar, hn, hes, Readable.text?]
end

end

/-! ## Documents -/

/-- A node that all tokens make is the whole document. -/
theorem ofTokens?_node {t : Token} {more : List Token} {n : Node} (ht : t.opensNode = true)
    (hnode : node? standardHandles .block (4 * (t :: more).length + 4) ⟨t :: more, {}⟩ = some (n, ⟨[], {}⟩)) :
    Document.ofTokens? (t :: more) = some ⟨n, {}⟩ := by
  rw [Document.ofTokens?]
  cases t <;> simp_all [Token.opensNode, directives?]

end ApiDocs.Yaml
