import ApiDocs.Proofs.JsonText
import ApiDocs.Proofs.Yaml.Scalars

/-!
# Written trees as tokens

The tokens of a tree in block style, and that the scanner reads them from its text: fields and items
at their indentation, and a block closed where the text goes on further left.
-/

namespace ApiDocs.Yaml

/-! ## Tokens of a tree -/

mutual
/-- The tokens of a tree. A list that follows the colon of its key on the same line is indented no more
than the key, and opens no block. -/
def treeTokens (loose : Bool) : Tree → List Token
  | .text s => [textToken s]
  | .flag b => [.scalar .plain (if b then "true" else "false")]
  | .number n => [.scalar .plain (toString n)]
  | .list [] => [.flowSequence, .flowSequenceEnd]
  | .list (t :: ts) =>
    if loose then itemTokens (t :: ts) else .blockSequence :: itemTokens (t :: ts) ++ [.blockEnd]
  | .object [] => [.flowMapping, .flowMappingEnd]
  | .object (f :: fs) => .blockMapping :: entryTokens (f :: fs) ++ [.blockEnd]
def itemTokens : List Tree → List Token
  | [] => []
  | t :: ts => .item :: treeTokens false t ++ itemTokens ts
def entryTokens : List (String × Tree) → List Token
  | [] => []
  | (k, t) :: fs => .key :: textToken k :: .value :: treeTokens (isSimpleKey k) t ++ entryTokens fs
end

/-! ## Beginnings -/

def Begins (c : Char) : Prop := isGapChar c = false ∧ c ≠ '#'

theorem begins_keyChars {k : String} (hk : isSimpleKey k = true) (indent : Nat) :
    ∃ c cs, keyChars indent k = c :: cs ∧ Begins c := by
  cases keyBody hk indent with
  | plain _ h hstart hchars =>
    obtain ⟨c, cs, hcs⟩ := List.exists_cons_of_ne_nil h.ne_nil
    rw [hcs] at h hstart hchars
    refine ⟨c, cs, hchars, h.isGapChar (List.mem_cons_self ..) (by simpa using h.head), ?_⟩
    rintro rfl
    exact absurd (startsAsMarkup_cons hstart).1 (by decide)
  | single _ _ _ _ hchars => exact ⟨_, _, hchars, by decide, by decide⟩
  | double _ _ hchars => exact ⟨_, _, hchars, by decide, by decide⟩

theorem objectChars_cons (indent : Nat) (f : String × Tree) (fs : List (String × Tree)) :
    objectChars indent false (f :: fs) = spaces indent ++ objectChars indent true (f :: fs) := by
  obtain ⟨k, t⟩ := f
  rw [objectChars, objectChars]
  simp

theorem listChars_cons (indent : Nat) (t : Tree) (ts : List Tree) :
    listChars indent false (t :: ts) = spaces indent ++ listChars indent true (t :: ts) := by
  rw [listChars, listChars]
  simp

theorem begins_objectChars (indent : Nat) (f : String × Tree) (fs : List (String × Tree)) :
    ∃ c cs, objectChars indent true (f :: fs) = c :: cs ∧ Begins c := by
  obtain ⟨k, t⟩ := f
  rw [objectChars]
  by_cases hk : isSimpleKey k = true
  · obtain ⟨c, cs, hcs, hc⟩ := begins_keyChars hk (indent + 2)
    rw [if_pos hk, hcs]
    exact ⟨c, _, rfl, hc⟩
  · rw [if_neg hk]
    exact ⟨'?', _, rfl, by decide, by decide⟩

theorem begins_listChars (indent : Nat) (t : Tree) (ts : List Tree) :
    ∃ c cs, listChars indent true (t :: ts) = c :: cs ∧ Begins c := by
  rw [listChars]
  exact ⟨'-', _, rfl, by decide, by decide⟩

/-- What begins at an indentation is further left than what is indented more. -/
theorem below_of_begins {n m : Nat} {cs tail : List Char} (h : ∃ c rest, cs = c :: rest ∧ Begins c) (hm : m < n) :
    Below n (spaces m ++ cs ++ tail) := by
  obtain ⟨c, rest, rfl, hc⟩ := h
  exact .inr ⟨m, c, rest ++ tail, by simp, hm, hc⟩

theorem lineCells_of_begins {m line : Nat} {cs tail : List Char} (h : ∃ c rest, cs = c :: rest ∧ Begins c) :
    lineCells line (spaces m ++ cs ++ tail) = cellsFrom line m (cs ++ tail) := by
  obtain ⟨c, rest, rfl, hc⟩ := h
  rw [List.append_assoc]
  exact lineCells_spaces hc.1 ..

theorem lineCells_objectChars (line indent : Nat) (f : String × Tree) (fs : List (String × Tree)) (tail : List Char) :
    lineCells line (objectChars indent false (f :: fs) ++ tail) =
      cellsFrom line indent (objectChars indent true (f :: fs) ++ tail) := by
  rw [objectChars_cons, lineCells_of_begins (begins_objectChars indent f fs)]

theorem lineCells_listChars (line indent : Nat) (t : Tree) (ts : List Tree) (tail : List Char) :
    lineCells line (listChars indent false (t :: ts) ++ tail) =
      cellsFrom line indent (listChars indent true (t :: ts) ++ tail) := by
  rw [listChars_cons, lineCells_of_begins (begins_listChars indent t ts)]

theorem below_objectChars {j n : Nat} (hj : j < n) {tail : List Char} (htail : Below n tail)
    (fs : List (String × Tree)) : Below n (objectChars j false fs ++ tail) := by
  cases fs with
  | nil => rwa [objectChars]
  | cons f fs =>
    rw [objectChars_cons]
    exact below_of_begins (begins_objectChars j f fs) hj

theorem below_listChars {j n : Nat} (hj : j < n) {tail : List Char} (htail : Below n tail)
    (ts : List Tree) : Below n (listChars j false ts ++ tail) := by
  cases ts with
  | nil => rwa [listChars]
  | cons t ts =>
    rw [listChars_cons]
    exact below_of_begins (begins_listChars j t ts) hj

/-! ## Numbers and truth values -/

theorem isNameChar_of_isDigit {c : Char} (h : Json.isDigit c = true) : isNameChar c = true := by
  have h' : ('0' ≤ c && c ≤ '9') = true := h
  simp [isNameChar, h']

theorem isGap_of_isNameChar {c : Char} (h : isNameChar c = true) : isGap (some c) = false := by
  obtain ⟨hlow, hhigh⟩ := toNat_of_isNameChar h
  have hspace := ne_of_isNameChar h (d := ' ') (by decide)
  have htab := ne_of_isNameChar h (d := '\t') (by decide)
  have hreturn := ne_of_isNameChar h (d := '\r') (by decide)
  have hnewline := ne_of_isNameChar h (d := '\n') (by decide)
  simp [isGap, isPrintedBreak, hspace, htab, hreturn, hnewline]
  omega

theorem startsAsMarkup_of_isNameChar {c : Char} {w : List Char} (hc : isNameChar c = true)
    (hw : c = '-' → ∃ d ds, w = d :: ds ∧ Json.isDigit d = true) : startsAsMarkup (c :: w) = false := by
  have hopener : c ∉ openers := by
    have hnone : ∀ d ∈ openers, isNameChar d = false := by simp [openers, isNameChar]
    intro hmem
    rw [hnone c hmem] at hc
    exact absurd hc (by decide)
  rw [startsAsMarkup.eq_def]
  split
  · rename_i he
    cases he
    obtain ⟨d, ds, hds, hd⟩ := hw rfl
    cases hds
    exact absurd hd (by decide)
  · rename_i he
    cases he
    exact absurd hc (by decide)
  · rename_i he
    cases he
    by_cases hdash : c = '-'
    · obtain ⟨d, ds, rfl, hd⟩ := hw hdash
      simp [hopener, isGap_of_isNameChar (isNameChar_of_isDigit hd)]
    · simp [hopener, hdash, ne_of_isNameChar hc (d := '?') (by decide), ne_of_isNameChar hc (d := ':') (by decide)]
  · rename_i he
    cases he

structure IsWord (cs : List Char) : Prop where
  ne_nil : cs ≠ []
  name : ∀ c ∈ cs, isNameChar c = true
  start : startsAsMarkup cs = false

theorem IsWord.plainText {cs : List Char} (h : IsWord cs) : PlainText cs :=
  plainText_of_isNameChar h.ne_nil h.name

theorem isWord_toString (n : Int) : IsWord (toString n).toList := by
  obtain ⟨d, ds, hdigits⟩ := List.exists_cons_of_ne_nil (@Nat.toDigits_ne_nil n.natAbs 10)
  have hd : Json.isDigit d = true := Json.isDigit_of_mem (hdigits ▸ List.mem_cons_self ..)
  have hname : ∀ c ∈ Nat.toDigits 10 n.natAbs, isNameChar c = true := fun c hc =>
    isNameChar_of_isDigit (Json.isDigit_of_mem hc)
  rw [Json.toList_toString]
  split
  · refine ⟨by simp, ?_, startsAsMarkup_of_isNameChar (by decide) fun _ => ⟨d, ds, hdigits, hd⟩⟩
    intro c hc
    rcases List.mem_cons.mp hc with rfl | hc
    · decide
    · exact hname c hc
  · refine ⟨by simp [hdigits], hname, ?_⟩
    rw [hdigits]
    refine startsAsMarkup_of_isNameChar (isNameChar_of_isDigit hd) ?_
    rintro rfl
    exact absurd hd (by decide)

theorem isWord_flag (b : Bool) : IsWord (if b then "true" else "false").toList := by
  cases b <;> exact ⟨by decide, by simp [isNameChar], by decide⟩

/-! ## Empty collections -/

namespace Scan

section
variable {acc : List Token} {i k : Nat} {outer : List Nat} {keyAllowed : Bool} {line : Nat} {tail : List Char}
  (hk : i < k) (htail : Below (i + 1) tail)
include hk htail

def inBrackets (t : Token) (acc : List Token) (i : Nat) (outer : List Nat) (key : Option KeyPlace)
    (rest : List Cell) : Scan where
  rest := rest
  tokens := t :: acc
  count := acc.length + 1
  flowLevel := 1
  indent := i + 1
  outerIndents := outer
  keys := [none, key]
  keyAllowed := true

theorem reaches_brackets {opening closing : Char} {t t' : Token}
    (hb : opening = '{' ∧ closing = '}' ∧ t = .flowMapping ∧ t' = .flowMappingEnd ∨
      opening = '[' ∧ closing = ']' ∧ t = .flowSequence ∧ t' = .flowSequenceEnd) :
    Reaches (inBlock acc (i + 1) outer none keyAllowed (cellsFrom line k (opening :: closing :: '\n' :: tail)))
      (inBlock (t' :: t :: acc) (i + 1) outer none true (lineCells (line + 1) tail)) := by
  have hinline : isBreak opening = false ∧ isBreak closing = false := by
    rcases hb with ⟨rfl, rfl, -⟩ | ⟨rfl, rfl, -⟩ <;> decide
  refine Reaches.trans (b := inBrackets t acc i outer (placed keyAllowed acc (i + 1) line k)
    (cellsFrom line (k + 1) (closing :: '\n' :: tail))) ?_
    (Reaches.trans (b := inBlock (t' :: t :: acc) (i + 1) outer (placed keyAllowed acc (i + 1) line k) false
      (cellsFrom line (k + 1 + 1) ('\n' :: tail))) ?_ (reaches_lineEnd htail fun key hkey => ?_))
  · rw [cellsFrom_inline hinline.1]
    refine reaches_inBlock (by omega) ?_ ?_ (fun fuel _ => ?_) (Nat.le_refl _)
    · rcases hb with ⟨rfl, -⟩ | ⟨rfl, -⟩ <;> decide
    · rcases hb with ⟨rfl, -⟩ | ⟨rfl, -⟩ <;> decide
    · have hopen : ∀ c next, (inBlock acc (i + 1) outer none keyAllowed (⟨c, line, k⟩ :: next)).openFlow? t =
          some (inBrackets t acc i outer (placed keyAllowed acc (i + 1) line k) next) := by
        intro c next
        rw [openFlow?, markKey?_inBlock]
        simp [inBlock, inBrackets, skip, emit]
      rw [← hopen opening]
      unfold token?
      rcases hb with ⟨rfl, rfl, rfl, rfl⟩ | ⟨rfl, rfl, rfl, rfl⟩ <;> simp [inBlock, atDocumentMark_of_ne]
  · rw [cellsFrom_inline hinline.2]
    refine reaches_token (c := ⟨closing, line, k + 1⟩) rfl ?_ ?_ ?_ rfl (fun fuel _ => ?_) (Nat.lt_succ_self _)
    · rcases hb with ⟨rfl, rfl, -⟩ | ⟨rfl, rfl, -⟩ <;> simp <;> decide
    · rcases hb with ⟨rfl, rfl, -⟩ | ⟨rfl, rfl, -⟩ <;> simp
    · cases keyAllowed <;> simp [dropStaleKeys?, inBrackets, placed, KeyPlace.isStale]
    · unfold token?
      rcases hb with ⟨rfl, rfl, rfl, rfl⟩ | ⟨rfl, rfl, rfl, rfl⟩ <;>
        simp [inBrackets, inBlock, atDocumentMark_of_ne, closeFlow?, dropKey?, inFlow, skip, emit]
  · obtain ⟨hrequired, hline⟩ := placed_of_lt hk hkey
    exact ⟨hrequired, by omega⟩

end

/-! ## Trees -/

theorem head_fieldChars (indent : Nat) (t : Tree) (cs : List Char) :
    (fieldChars indent t ++ cs).head?.all isGapChar = true := by
  obtain _ | _ | _ | ⟨_ | _⟩ | ⟨_ | _⟩ := t <;> rw [fieldChars] <;> rfl

@[simp] theorem opened_self (column : Nat) (t : Token) (acc : List Token) : opened (column + 1) column t acc = acc := by
  simp [opened]

@[simp] theorem enclosing_self (column : Nat) (outer : List Nat) : enclosing (column + 1) column outer = outer := by
  simp [enclosing]

@[simp] theorem opened_of_lt (i : Nat) (t : Token) (acc : List Token) : opened (i + 1) (i + 2) t acc = t :: acc := by
  simp [opened]

@[simp] theorem enclosing_of_lt (i : Nat) (outer : List Nat) : enclosing (i + 1) (i + 2) outer = (i + 1) :: outer := by
  simp [enclosing]

theorem reverse_block (t e : Token) (ts acc : List Token) :
    (t :: ts ++ [e]).reverse ++ acc = e :: (ts.reverse ++ t :: acc) := by
  simp

theorem reaches_word {acc : List Token} {i k : Nat} {outer : List Nat} {keyAllowed : Bool} {line : Nat}
    {tail : List Char} (hk : i < k) (htail : Below (i + 1) tail) {s : String}
    (h : IsWord s.toList) :
    Reaches (inBlock acc (i + 1) outer none keyAllowed (cellsFrom line k (s.toList ++ ['\n'] ++ tail)))
      (inBlock (.scalar .plain s :: acc) (i + 1) outer none true (lineCells (line + 1) tail)) :=
  reaches_plainValue hk htail h.plainText h.start

theorem flagChars (b : Bool) :
    (if b then "true".toList else "false".toList) = (if b then "true" else "false").toList := by
  cases b <;> rfl

mutual
theorem reaches_field : ∀ (t : Tree) (i line column : Nat) (acc : List Token) (outer : List Nat) (tail : List Char),
    i < column → Below (i + 1) tail → ∃ line',
      Reaches (inBlock acc (i + 1) outer none false (cellsFrom line column (fieldChars i t ++ tail)))
        (inBlock ((treeTokens true t).reverse ++ acc) (i + 1) outer none true (lineCells line' tail))
  | .text s, i, line, column, acc, outer, tail, hcolumn, htail => by
    rw [fieldChars, treeTokens]
    exact ⟨_, (reaches_blank _).trans (reaches_text (by omega) htail s)⟩
  | .flag b, i, line, column, acc, outer, tail, hcolumn, htail => by
    rw [fieldChars, treeTokens, flagChars]
    exact ⟨_, (reaches_blank _).trans (reaches_word (by omega) htail (isWord_flag b))⟩
  | .number n, i, line, column, acc, outer, tail, hcolumn, htail => by
    rw [fieldChars, treeTokens]
    exact ⟨_, (reaches_blank _).trans (reaches_word (by omega) htail (isWord_toString n))⟩
  | .list [], i, line, column, acc, outer, tail, hcolumn, htail => by
    rw [fieldChars, treeTokens]
    exact ⟨_, (reaches_blank _).trans (reaches_brackets (by omega) htail (.inr ⟨rfl, rfl, rfl, rfl⟩))⟩
  | .object [], i, line, column, acc, outer, tail, hcolumn, htail => by
    rw [fieldChars, treeTokens]
    exact ⟨_, (reaches_blank _).trans (reaches_brackets (by omega) htail (.inl ⟨rfl, rfl, rfl, rfl⟩))⟩
  | .list (t :: ts), i, line, column, acc, outer, tail, hcolumn, htail => by
    obtain ⟨line', hitems⟩ := reaches_items (t :: ts) i (i + 1) (line + 1) acc outer tail (by simp) (by omega) htail
    rw [opened_self, enclosing_self] at hitems
    refine ⟨line', Reaches.trans ?_ hitems⟩
    rw [fieldChars, List.cons_append, ← lineCells_listChars]
    exact reaches_newline _
  | .object (f :: fs), i, line, column, acc, outer, tail, hcolumn, htail => by
    obtain ⟨line', hfields⟩ := reaches_fields (f :: fs) (i + 2) (i + 1) (line + 1) acc outer tail (by simp)
      (by omega) (htail.mono (by omega))
    rw [opened_of_lt, enclosing_of_lt] at hfields
    refine ⟨line', Reaches.trans (Reaches.trans ?_ hfields) ?_⟩
    · rw [fieldChars, List.cons_append, ← lineCells_objectChars]
      exact reaches_newline _
    · rw [treeTokens, reverse_block]
      exact reaches_close htail (by omega)
theorem reaches_entry : ∀ (t : Tree) (i line : Nat) (acc : List Token) (outer : List Nat) (tail : List Char),
    Below (i + 1) tail → ∃ line',
      Reaches (inBlock acc (i + 1) outer none true (cellsFrom line (i + 2) (entryChars i t ++ tail)))
        (inBlock ((treeTokens false t).reverse ++ acc) (i + 1) outer none true (lineCells line' tail))
  | .text s, i, line, acc, outer, tail, htail => by
    rw [entryChars, treeTokens]
    exact ⟨_, reaches_text (by omega) htail s⟩
  | .flag b, i, line, acc, outer, tail, htail => by
    rw [entryChars, treeTokens, flagChars]
    exact ⟨_, reaches_word (by omega) htail (isWord_flag b)⟩
  | .number n, i, line, acc, outer, tail, htail => by
    rw [entryChars, treeTokens]
    exact ⟨_, reaches_word (by omega) htail (isWord_toString n)⟩
  | .list [], i, line, acc, outer, tail, htail => by
    rw [entryChars, treeTokens]
    exact ⟨_, reaches_brackets (by omega) htail (.inr ⟨rfl, rfl, rfl, rfl⟩)⟩
  | .object [], i, line, acc, outer, tail, htail => by
    rw [entryChars, treeTokens]
    exact ⟨_, reaches_brackets (by omega) htail (.inl ⟨rfl, rfl, rfl, rfl⟩)⟩
  | .list (t :: ts), i, line, acc, outer, tail, htail => by
    obtain ⟨line', hitems⟩ := reaches_items (t :: ts) (i + 2) (i + 1) line acc outer tail (by simp) (by omega)
      (htail.mono (by omega))
    rw [opened_of_lt, enclosing_of_lt] at hitems
    rw [entryChars, treeTokens, if_neg Bool.false_ne_true, reverse_block]
    refine ⟨line', hitems.trans ?_⟩
    exact reaches_close htail (by omega)
  | .object (f :: fs), i, line, acc, outer, tail, htail => by
    obtain ⟨line', hfields⟩ := reaches_fields (f :: fs) (i + 2) (i + 1) line acc outer tail (by simp)
      (by omega) (htail.mono (by omega))
    rw [opened_of_lt, enclosing_of_lt] at hfields
    rw [entryChars, treeTokens, reverse_block]
    refine ⟨line', hfields.trans ?_⟩
    exact reaches_close htail (by omega)
theorem reaches_items : ∀ (ts : List Tree) (i indent line : Nat) (acc : List Token) (outer : List Nat)
    (tail : List Char), ts ≠ [] → indent ≤ i + 1 → Below (i + 1) tail → ∃ line',
      Reaches (inBlock acc indent outer none true (cellsFrom line i (listChars i true ts ++ tail)))
        (inBlock ((itemTokens ts).reverse ++ opened indent i .blockSequence acc) (i + 1)
          (enclosing indent i outer) none true (lineCells line' tail))
  | [], _, _, _, _, _, _, hne, _, _ => absurd rfl hne
  | t :: ts, i, indent, line, acc, outer, tail, _, hindent, htail => by
    have hbelow := below_listChars (Nat.lt_succ_self i) htail ts
    obtain ⟨line₁, hentry⟩ := reaches_entry t i line (.item :: opened indent i .blockSequence acc)
      (enclosing indent i outer) (listChars i false ts ++ tail) hbelow
    have hstart : listChars i true (t :: ts) ++ tail =
        '-' :: ' ' :: (entryChars i t ++ (listChars i false ts ++ tail)) := by
      rw [listChars]
      simp
    rw [hstart]
    by_cases hts : ts = []
    · subst hts
      refine ⟨line₁, (reaches_item hindent _).trans ?_⟩
      simpa [itemTokens, listChars] using hentry
    · obtain ⟨line', hmore⟩ := reaches_items ts i (i + 1) line₁
        ((treeTokens false t).reverse ++ .item :: opened indent i .blockSequence acc) (enclosing indent i outer)
        tail hts (Nat.le_refl _) htail
      rw [opened_self, enclosing_self] at hmore
      obtain ⟨t', ts, rfl⟩ := List.exists_cons_of_ne_nil hts
      rw [lineCells_listChars] at hentry
      refine ⟨line', ((reaches_item hindent _).trans hentry).trans ?_⟩
      simpa [itemTokens] using hmore
theorem reaches_fields : ∀ (fs : List (String × Tree)) (i indent line : Nat) (acc : List Token) (outer : List Nat)
    (tail : List Char), fs ≠ [] → indent ≤ i + 1 → Below (i + 1) tail → ∃ line',
      Reaches (inBlock acc indent outer none true (cellsFrom line i (objectChars i true fs ++ tail)))
        (inBlock ((entryTokens fs).reverse ++ opened indent i .blockMapping acc) (i + 1)
          (enclosing indent i outer) none true (lineCells line' tail))
  | [], _, _, _, _, _, _, hne, _, _ => absurd rfl hne
  | (k, t) :: fs, i, indent, line, acc, outer, tail, _, hindent, htail => by
    have hbelow := below_objectChars (Nat.lt_succ_self i) htail fs
    -- the first field, and then the fields after it
    obtain ⟨line₁, hfirst⟩ : ∃ line₁,
        Reaches (inBlock acc indent outer none true (cellsFrom line i (objectChars i true ((k, t) :: fs) ++ tail)))
          (inBlock ((treeTokens (isSimpleKey k) t).reverse ++
              .value :: textToken k :: .key :: opened indent i .blockMapping acc) (i + 1)
            (enclosing indent i outer) none true (lineCells line₁ (objectChars i false fs ++ tail))) := by
      by_cases hk : isSimpleKey k = true
      · have hstart : objectChars i true ((k, t) :: fs) ++ tail =
            keyChars (i + 2) k ++ ':' :: (fieldChars i t ++ (objectChars i false fs ++ tail)) := by
          rw [objectChars]
          simp [hk]
        have hgap := head_fieldChars i t (objectChars i false fs ++ tail)
        have hlength := length_keyChars_le hk (i + 2)
        obtain ⟨line₁, hfield⟩ := reaches_field t i line (i + (keyChars (i + 2) k).length + 1)
          (.value :: textToken k :: .key :: opened indent i .blockMapping acc) (enclosing indent i outer)
          (objectChars i false fs ++ tail) (by omega) hbelow
        rw [hstart, hk]
        exact ⟨line₁, ((reaches_keyText hindent hk hgap).trans
          (reaches_colon hindent (by omega) (by omega) hgap)).trans hfield⟩
      · have hstart : objectChars i true ((k, t) :: fs) ++ tail =
            '?' :: ' ' :: (scalarChars (i + 2) k ++ (spaces i ++ ':' :: ' ' ::
              (entryChars i t ++ (objectChars i false fs ++ tail)))) := by
          rw [objectChars]
          simp [hk]
        have hcolon : isGapChar ':' = false := by decide
        have hvalue : Below (i + 1) (spaces i ++ ':' :: ' ' ::
            (entryChars i t ++ (objectChars i false fs ++ tail))) :=
          .inr ⟨i, ':', _, rfl, Nat.lt_succ_self i, hcolon, by decide⟩
        obtain ⟨line₁, hentry⟩ := reaches_entry t i (lineAfter line (scalarChars (i + 2) k))
          (.value :: textToken k :: .key :: opened indent i .blockMapping acc) (enclosing indent i outer)
          (objectChars i false fs ++ tail) hbelow
        rw [hstart, Bool.eq_false_iff.mpr hk]
        refine ⟨line₁, (reaches_questionMark hindent _).trans (Reaches.trans (reaches_text (by omega) hvalue k) ?_)⟩
        rw [lineCells_spaces hcolon]
        exact (reaches_ownColon _).trans hentry
    by_cases hfs : fs = []
    · subst hfs
      refine ⟨line₁, ?_⟩
      simpa [entryTokens, objectChars] using hfirst
    · obtain ⟨line', hmore⟩ := reaches_fields fs i (i + 1) line₁
        ((treeTokens (isSimpleKey k) t).reverse ++ .value :: textToken k :: .key :: opened indent i .blockMapping acc)
        (enclosing indent i outer) tail hfs (Nat.le_refl _) htail
      rw [opened_self, enclosing_self] at hmore
      obtain ⟨f, fs, rfl⟩ := List.exists_cons_of_ne_nil hfs
      rw [lineCells_objectChars] at hfirst
      refine ⟨line', hfirst.trans ?_⟩
      simpa [entryTokens] using hmore
end

end Scan

end ApiDocs.Yaml
