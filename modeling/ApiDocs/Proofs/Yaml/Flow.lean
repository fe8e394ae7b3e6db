import ApiDocs.Proofs.Yaml.Blocks

/-!
# JSON texts as tokens of YAML

JSON is flow style. Inside of brackets no block is opened or closed and no key is required, so the
scanner only has to keep the places of keys until their colons come: a key must end on its line, not too
far right. What JSON writes between quotes is read back if YAML admits the characters that JSON leaves
as they are, and none of them is a line break.
-/

namespace ApiDocs.Yaml

/-! ## Texts -/

/-- A character of a text that reads the same from both formats: JSON escapes it, or YAML takes it as it
is. -/
def isPortable (c : Char) : Bool := c.toNat < 0x20 || (isAdmitted c && !isBreak c)

theorem hexNumber?_json : ∀ n, n < 0x20 →
    hexNumber? ['0', '0', Json.hexDigit (n / 16), Json.hexDigit (n % 16)] = some n ∧
      Inline ['0', '0', Json.hexDigit (n / 16), Json.hexDigit (n % 16)] := by
  decide

theorem doubleCode_json {c : Char} (h : isPortable c = true) : DoubleCode c (Json.escape c) := by
  unfold Json.escape
  cases hletter : Json.letterEscapes.lookup c with
  | some letter =>
    -- YAML has the letters of JSON, for the same characters
    have hsame : ∀ p ∈ Json.letterEscapes, p ∈ letterEscapes := by decide
    exact doubleCode_letter (hsame _ (mem_of_lookup hletter))
  | none =>
    obtain ⟨hquote, hslash, htab⟩ := Json.ne_of_lookup_eq_none hletter
    dsimp only
    split
    · rename_i hlow
      obtain ⟨hnumber, hinline⟩ := hexNumber?_json c.toNat hlow
      exact doubleCode_hex (by decide) (fun _ _ _ => rfl) hinline hnumber
    · rename_i hlow
      have hbreak : isBreak c = false := by
        simp only [isPortable, hlow, decide_false, Bool.false_or, Bool.and_eq_true, Bool.not_eq_true'] at h
        exact h.2
      exact .raw hbreak htab hquote hslash

theorem quotedText_json (line column : Nat) (rest : List Char) {s : String} (hs : s.toList.all isPortable = true)
    {fuel : Nat} (hcolumn : column ≠ 0) (hfuel : (s.toList.flatMap Json.escape).length < fuel) :
    quotedText false fuel (cellsFrom line column (s.toList.flatMap Json.escape ++ '"' :: rest)) =
      some (s.toList, cellsFrom line (column + (s.toList.flatMap Json.escape).length + 1) rest) := by
  refine quotedText_double (by decide) line column rest (fun c hc => ?_) hcolumn hfuel
  exact doubleCode_json (List.all_eq_true.mp hs c hc)

theorem inline_json {s : String} (hs : s.toList.all isPortable = true) : Inline (s.toList.flatMap Json.escape) := by
  intro d hd
  obtain ⟨c, hc, hd⟩ := List.mem_flatMap.mp hd
  exact (doubleCode_json (List.all_eq_true.mp hs c hc)).inline d hd

/-! ## Words -/

theorem isGapChar_of_isNameChar {c : Char} (h : isNameChar c = true) : isGapChar c = false := by
  have hplain : PlainText [c] := plainText_of_isNameChar (by simp) (by simpa using h)
  exact hplain.isGapChar (List.mem_singleton_self c) (ne_of_isNameChar h (by decide))

theorem inline_flowMark : ∀ x ∈ flowMarks, isBreak x = false ∧ isGapChar x = false ∧
    x ≠ ':' ∧ x ≠ '#' ∧ x ≠ '-' ∧ x ≠ '.' := by
  intro x hx
  simp only [flowMarks, List.mem_cons, List.not_mem_nil, or_false] at hx
  rcases hx with rfl | rfl | rfl | rfl | rfl <;> decide

theorem plainWord_flowMark {x : Char} (hx : x ∈ flowMarks) (line column : Nat) (z : List Char) :
    plainWord true (cellsFrom line column (x :: z)) = some ([], cellsFrom line column (x :: z)) := by
  obtain ⟨hbreak, hgap, hcolon, -⟩ := inline_flowMark x hx
  rw [cellsFrom_inline hbreak, plainWord]
  simp [hgap, hcolon, hx]

theorem plainWord_flow (line column : Nat) {w y : List Char} (hw : ∀ c ∈ w, isNameChar c = true)
    (hy : plainWord true (cellsFrom line (column + w.length) y) =
      some ([], cellsFrom line (column + w.length) y)) :
    plainWord true (cellsFrom line column (w ++ y)) = some (w, cellsFrom line (column + w.length) y) := by
  induction w generalizing column with
  | nil => exact hy
  | cons c w ih =>
    have hc := hw c (List.mem_cons_self ..)
    have hmark : c ∉ flowMarks ∧ c ≠ ':' := by
      have hnot : ∀ d ∈ flowMarks, isNameChar d = false := by simp [flowMarks, isNameChar]
      exact ⟨fun h => ne_of_isNameChar hc (hnot c h) rfl, ne_of_isNameChar hc (by decide)⟩
    have hgap := isGapChar_of_isNameChar hc
    rw [List.length_cons, Nat.add_comm w.length, ← Nat.add_assoc] at hy ⊢
    rw [List.cons_append, cellsFrom_inline (isGapChar_eq_false_iff.mp hgap).2.2, plainWord,
      ih (column + 1) (fun d hd => hw d (List.mem_cons_of_mem _ hd)) hy]
    simp [hgap, hmark]

/-- What stands between a value and the comma or bracket after it. -/
def Spacing (g : List Char) : Prop := g = [] ∨ ∃ n, g = '\n' :: spaces n

theorem Spacing.kept {g : List Char} (h : Spacing g) : Kept g := by
  obtain rfl | ⟨n, rfl⟩ := h
  · exact fun c hc => absurd hc List.not_mem_nil
  · exact kept_newline_spaces n

theorem plainText_flow {w g z : List Char} {x : Char} (hw : ∀ c ∈ w, isNameChar c = true) (hg : Spacing g)
    (hx : x ∈ flowMarks) (line column fuel : Nat) :
    plainText true 0 (fuel + 2) (cellsFrom line column (w ++ (g ++ x :: z))) =
      some (w, !g.isEmpty, cellsFrom (lineAfter line g) (columnAfter (column + w.length) g) (x :: z)) := by
  obtain ⟨hbreak, hgap, -, hhash, hdash, hdot⟩ := inline_flowMark x hx
  have htab : ∀ gap, tabInIndentation 0 gap = false := by simp [tabInIndentation]
  obtain rfl | ⟨n, rfl⟩ := hg
  · have hword := plainWord_flow line column hw (plainWord_flowMark hx line _ z)
    rw [plainText, List.nil_append, hword]
    simp [hgap, htab, lineAfter, columnAfter, cellsFrom_inline hbreak]
  · have hgaps : ∀ c ∈ '\n' :: spaces n, isGapChar c = true := by
      intro c hc
      rcases List.mem_cons.mp hc with rfl | hc
      · decide
      · exact isGapChar_of_mem_spaces c hc
    have hword := plainWord_flow line column (y := '\n' :: (spaces n ++ x :: z)) hw
      (plainWord_gap (by decide) ..)
    obtain ⟨htake, hdrop⟩ := takeWhile_gap hgaps (kept_newline_spaces n) hgap line (column + w.length) z
    rw [List.cons_append] at htake hdrop
    have hmore := plainWord_flowMark hx (lineAfter line ('\n' :: spaces n))
      (columnAfter (column + w.length) ('\n' :: spaces n)) z
    rw [plainText, List.cons_append, hword]
    simp only [Option.bind_eq_bind, Option.bind_some, htake, hdrop, htab]
    rw [cellsFrom_inline hbreak] at hmore ⊢
    rw [plainText]
    simp [hmore, htab, hgap, hhash, hdash, hdot, plainGoesOn, atAnyDocumentMark, atDocumentMark_of_ne,
      cellsFrom_break, isPrintedBreak, isBreak]

/-! ## States in flow collections -/

namespace Scan

/-- A state in so many flow collections, outside of all blocks. No key is required there. -/
structure Flowing (depth : Nat) (allowed : Bool) (acc : List Token) (rest : List Cell) (s : Scan) : Prop where
  rest_eq : s.rest = rest
  tokens_eq : s.tokens = acc
  count_eq : s.count = acc.length
  flowLevel_eq : s.flowLevel = depth
  indent_eq : s.indent = 0
  outerIndents_eq : s.outerIndents = []
  length_keys : s.keys.length = depth + 1
  required : ∀ k, some k ∈ s.keys → k.required = false
  keyAllowed : allowed = true → s.keyAllowed = true

/-- From every state of one kind a state of another kind is reached. -/
def Passes (P Q : Scan → Prop) : Prop := ∀ s, P s → ∃ s', Q s' ∧ Reaches s s'

theorem Passes.trans {P Q R : Scan → Prop} (h : Passes P Q) (h' : Passes Q R) : Passes P R := by
  intro s hs
  obtain ⟨s', hs', hreach⟩ := h s hs
  obtain ⟨s'', hs'', hreach'⟩ := h' s' hs'
  exact ⟨s'', hs'', hreach.trans hreach'⟩

/-- The state without the places of keys that are out of date when the text has come to a cell. -/
def refresh (s : Scan) (c : Cell) : Scan :=
  { s with keys := s.keys.map (Option.filter fun k => !KeyPlace.isStale k c) }

section
variable {depth : Nat} {allowed : Bool} {acc : List Token} {rest : List Cell} {s : Scan}

theorem Flowing.closeBlocks (h : Flowing depth allowed acc rest s) (n : Nat) : s.closeBlocks n = s := by
  rw [Scan.closeBlocks, h.outerIndents_eq, closeBlocks.go]
  simp

theorem Flowing.refresh (h : Flowing depth allowed acc rest s) (c : Cell) :
    Flowing depth allowed acc rest (s.refresh c) := by
  refine { h with length_keys := ?_, required := ?_ }
  · rw [Scan.refresh, List.length_map]
    exact h.length_keys
  · intro k hk
    obtain ⟨key, hkey, hk⟩ := List.mem_map.mp hk
    rw [Option.filter_eq_some_iff] at hk
    exact h.required k (hk.1 ▸ hkey)

theorem mapM_eq_some_map {α β : Type} {f : α → Option β} {g : α → β} {l : List α}
    (h : ∀ a ∈ l, f a = some (g a)) : l.mapM f = some (l.map g) := by
  induction l with
  | nil => rfl
  | cons a l ih =>
    rw [List.mapM_cons, h a (List.mem_cons_self ..), ih fun b hb => h b (List.mem_cons_of_mem a hb)]
    rfl

theorem Flowing.dropStaleKeys? {c : Cell} {next : List Cell} (h : Flowing depth allowed acc (c :: next) s) :
    s.dropStaleKeys? = some (s.refresh c) := by
  simp only [Scan.dropStaleKeys?, h.rest_eq]
  rw [mapM_eq_some_map (g := Option.filter fun k => !KeyPlace.isStale k c)]
  · simp only [Option.bind_eq_bind, Option.bind_some, Scan.refresh, h.rest_eq]
  · intro key hkey
    cases key with
    | none => rfl
    | some k =>
      by_cases hstale : KeyPlace.isStale k c = true
      · simp [hstale, h.required k hkey, Option.filter_some]
      · simp [hstale, Option.filter_some]

/-- The next token in a flow collection. -/
theorem Flowing.reaches {c : Char} {line column : Nat} {next : List Cell} {s' : Scan}
    (h : Flowing depth allowed acc (⟨c, line, column⟩ :: next) s) (hgap : isGapChar c = false) (hhash : c ≠ '#')
    (htoken : ∀ fuel, next.length < fuel →
      (s.refresh ⟨c, line, column⟩).token? fuel ⟨c, line, column⟩ next = some s')
    (hlength : s'.rest.length ≤ next.length) : Reaches s s' := by
  intro fuel hfuel
  obtain ⟨fuel, rfl⟩ : ∃ k, fuel = k + 1 := ⟨fuel - 1, by omega⟩
  rw [h.rest_eq, List.length_cons] at hfuel
  refine ⟨fuel, by omega, ?_⟩
  rw [all?_cons fuel h.rest_eq hgap hhash, h.dropStaleKeys?, Option.bind_some, (h.refresh _).closeBlocks,
    htoken _ (by omega), Option.bind_some]

/-! ## Steps -/

theorem Flowing.emit (h : Flowing depth allowed acc rest s) (t : Token) :
    Flowing depth allowed (t :: acc) rest (s.emit t) where
  rest_eq := h.rest_eq
  tokens_eq := congrArg (t :: ·) h.tokens_eq
  count_eq := congrArg (· + 1) h.count_eq
  flowLevel_eq := h.flowLevel_eq
  indent_eq := h.indent_eq
  outerIndents_eq := h.outerIndents_eq
  length_keys := h.length_keys
  required := h.required
  keyAllowed := h.keyAllowed

theorem Flowing.skip {c : Cell} (h : Flowing depth allowed acc (c :: rest) s) :
    Flowing depth allowed acc rest (s.skip 1) :=
  { h with rest_eq := by simp [Scan.skip, h.rest_eq] }

theorem Flowing.goOn (h : Flowing depth allowed acc rest s) (rest' : List Cell) :
    Flowing depth allowed acc rest' { s with rest := rest' } :=
  { h with rest_eq := rfl }

theorem Flowing.allow (h : Flowing depth allowed acc rest s) (allowed' : Bool) :
    Flowing depth allowed' acc rest { s with keyAllowed := allowed' } :=
  { h with keyAllowed := fun ha => ha }

theorem Flowing.forget (h : Flowing depth allowed acc rest s) : Flowing depth false acc rest s :=
  { h with keyAllowed := nofun }

theorem Flowing.inner (h : Flowing depth allowed acc rest s) :
    Flowing (depth + 1) allowed acc rest { s with flowLevel := s.flowLevel + 1, keys := none :: s.keys } :=
  { h with
    flowLevel_eq := congrArg (· + 1) h.flowLevel_eq
    length_keys := congrArg (· + 1) h.length_keys
    required := fun k hk => h.required k (by simpa using hk) }

theorem Flowing.outer (h : Flowing (depth + 1) allowed acc rest s) :
    Flowing depth allowed acc rest { s with flowLevel := s.flowLevel - 1, keys := s.keys.tail } :=
  { h with
    flowLevel_eq := congrArg (· - 1) h.flowLevel_eq
    length_keys := by simp [h.length_keys]
    required := fun k hk => h.required k (List.mem_of_mem_tail hk) }

theorem Flowing.dropKey? (h : Flowing depth allowed acc rest s) :
    ∃ s', s.dropKey? = some s' ∧ Flowing depth allowed acc rest s' := by
  rw [Scan.dropKey?]
  split
  · rename_i k keys hkeys
    have hk := h.required k (hkeys ▸ List.mem_cons_self ..)
    refine ⟨{ s with keys := none :: keys }, by rw [hk]; rfl, { h with length_keys := ?_, required := ?_ }⟩
    · have := h.length_keys
      rwa [hkeys] at this
    · intro k' hk'
      exact h.required k' (hkeys ▸ List.mem_cons_of_mem _ (by simpa using hk'))
  · exact ⟨s, rfl, h⟩

/-- The place of the next token is kept where a key may begin. -/
theorem Flowing.markKey? {c : Cell} {next : List Cell} (h : Flowing depth allowed acc (c :: next) s) :
    ∃ s', s.markKey? = some s' ∧ Flowing depth allowed acc (c :: next) s' ∧
      (allowed = true → s'.keys.head? = some (some ⟨acc.length, c.line, c.column, false⟩)) := by
  by_cases hallowed : s.keyAllowed = true
  · obtain ⟨dropped, hdrop, hdropped⟩ := h.dropKey?
    have hkeys := hdropped.length_keys
    refine ⟨{ dropped with keys := some ⟨acc.length, c.line, c.column, false⟩ :: dropped.keys.tail }, ?_, ?_,
      fun _ => rfl⟩
    · simp [Scan.markKey?, hallowed, h.rest_eq, hdrop, h.count_eq, h.indent_eq]
    · refine { hdropped with length_keys := ?_, required := ?_ }
      · simp only [List.length_cons, List.length_tail]
        omega
      · intro k hk
        rcases List.mem_cons.mp hk with hk | hk
        · cases hk
          rfl
        · exact hdropped.required k (List.mem_of_mem_tail hk)
  · refine ⟨s, ?_, h, fun ha => absurd (h.keyAllowed ha) hallowed⟩
    simp [Scan.markKey?, hallowed]

theorem Flowing.openFlow? {c : Cell} (h : Flowing depth allowed acc (c :: rest) s) (t : Token) :
    ∃ s', s.openFlow? t = some s' ∧ Flowing (depth + 1) true (t :: acc) rest s' := by
  obtain ⟨marked, hmark, hmarked, -⟩ := h.markKey?
  refine ⟨_, ?_, ((hmarked.inner.allow true).skip).emit t⟩
  rw [Scan.openFlow?, hmark]
  rfl

theorem Flowing.closeFlow? {c : Cell} (h : Flowing (depth + 1) allowed acc (c :: rest) s) (t : Token) :
    ∃ s', s.closeFlow? t = some s' ∧ Flowing depth false (t :: acc) rest s' := by
  obtain ⟨dropped, hdrop, hdropped⟩ := h.dropKey?
  have hflow : dropped.inFlow = true := by simp [inFlow, hdropped.flowLevel_eq]
  refine ⟨_, ?_, ((hdropped.outer.allow false).skip).emit t⟩
  rw [Scan.closeFlow?, hdrop]
  simp [hflow]

theorem Flowing.comma? {c : Cell} (h : Flowing depth allowed acc (c :: rest) s) :
    ∃ s', s.comma? = some s' ∧ Flowing depth true (.comma :: acc) rest s' := by
  obtain ⟨dropped, hdrop, hdropped⟩ := h.dropKey?
  refine ⟨_, ?_, ((hdropped.allow true).skip).emit .comma⟩
  rw [Scan.comma?, hdrop]
  rfl

/-- The mark of a key goes in front of the token before the colon. -/
theorem Flowing.value? {c : Cell} {t : Token} {line column : Nat}
    (h : Flowing (depth + 1) allowed (t :: acc) (c :: rest) s)
    (hplace : s.keys.head? = some (some ⟨acc.length, line, column, false⟩)) :
    ∃ s', s.value? = some s' ∧ Flowing (depth + 1) false (.value :: t :: .key :: acc) rest s' := by
  obtain ⟨keys, hkeys⟩ := List.head?_eq_some_iff.mp hplace
  have hinsert : Flowing (depth + 1) allowed (t :: .key :: acc) (c :: rest)
      { s.insertAt acc.length .key with keys := none :: keys } :=
    { h with
      tokens_eq := by simp [insertAt, h.count_eq, h.tokens_eq]
      count_eq := by simp [insertAt, h.count_eq]
      length_keys := by simpa [hkeys] using h.length_keys
      required := fun k hk => h.required k (by simp_all) }
  refine ⟨_, ?_, ((hinsert.allow false).skip).emit .value⟩
  have hflow : (s.insertAt acc.length .key).inFlow = true := by simp [inFlow, insertAt, h.flowLevel_eq]
  rw [Scan.value?, hkeys]
  simp [openBlock, hflow]

/-! ## Marks and gaps -/

def Flows (depth : Nat) (allowed : Bool) (acc : List Token) (cs : List Char) (s : Scan) : Prop :=
  ∃ line column, Flowing depth allowed acc (cellsFrom line column cs) s

section
variable {depth' : Nat} {allowed' : Bool} {t : Token} {c : Char}

theorem passes_mark (step? : Scan → Option Scan) (hc : isBreak c = false ∧ isGapChar c = false ∧ c ≠ '#')
    (hstep : ∀ s d rest, Flowing depth allowed acc (d :: rest) s →
      ∃ s', step? s = some s' ∧ Flowing depth' allowed' (t :: acc) rest s')
    (htoken : ∀ s fuel line column next, s.rest = ⟨c, line, column⟩ :: next →
      s.token? fuel ⟨c, line, column⟩ next = step? s) (cs : List Char) :
    Passes (Flows depth allowed acc (c :: cs)) (Flows depth' allowed' (t :: acc) cs) := by
  rintro s ⟨line, column, h⟩
  rw [cellsFrom_inline hc.1] at h
  obtain ⟨s', hs', hnext⟩ := hstep _ _ _ (h.refresh ⟨c, line, column⟩)
  refine ⟨s', ⟨_, _, hnext⟩, h.reaches hc.2.1 hc.2.2 (fun fuel _ => ?_) ?_⟩
  · exact (htoken _ fuel _ _ _ (h.refresh _).rest_eq).trans hs'
  · rw [hnext.rest_eq]

theorem passes_open (ht : c = '{' ∧ t = .flowMapping ∨ c = '[' ∧ t = .flowSequence) (cs : List Char) :
    Passes (Flows depth allowed acc (c :: cs)) (Flows (depth + 1) true (t :: acc) cs) := by
  refine passes_mark (·.openFlow? t) ?_ (fun s d rest h => h.openFlow? t) ?_ cs
  · rcases ht with ⟨rfl, -⟩ | ⟨rfl, -⟩ <;> decide
  · intro s fuel line column next hrest
    unfold token?
    rcases ht with ⟨rfl, rfl⟩ | ⟨rfl, rfl⟩ <;> simp [hrest, atDocumentMark_of_ne]

theorem passes_close (ht : c = '}' ∧ t = .flowMappingEnd ∨ c = ']' ∧ t = .flowSequenceEnd) (cs : List Char) :
    Passes (Flows (depth + 1) allowed acc (c :: cs)) (Flows depth false (t :: acc) cs) := by
  refine passes_mark (·.closeFlow? t) ?_ (fun s d rest h => h.closeFlow? t) ?_ cs
  · rcases ht with ⟨rfl, -⟩ | ⟨rfl, -⟩ <;> decide
  · intro s fuel line column next hrest
    unfold token?
    rcases ht with ⟨rfl, rfl⟩ | ⟨rfl, rfl⟩ <;> simp [hrest, atDocumentMark_of_ne]

theorem passes_comma (cs : List Char) :
    Passes (Flows depth allowed acc (',' :: cs)) (Flows depth true (.comma :: acc) cs) := by
  refine passes_mark Scan.comma? (by decide) (fun s d rest h => h.comma?) ?_ cs
  intro s fuel line column next hrest
  unfold token?
  simp [hrest, atDocumentMark_of_ne]

theorem passes_blank (cs : List Char) :
    Passes (Flows depth allowed acc (' ' :: cs)) (Flows depth allowed acc cs) := by
  rintro s ⟨line, column, h⟩
  rw [cellsFrom_inline (by decide)] at h
  refine ⟨_, ⟨line, column + 1, h.goOn _⟩, reaches_gap s.keyAllowed ?_ ?_⟩
  · rw [h.rest_eq, skipGaps.eq_2]
    simp [isBreak]
  · rw [h.rest_eq]
    simp

theorem passes_spaces (n : Nat) (cs : List Char) :
    Passes (Flows depth allowed acc (spaces n ++ cs)) (Flows depth allowed acc cs) := by
  induction n with
  | zero => exact fun s h => ⟨s, h, .refl s⟩
  | succ n ih => exact (passes_blank (spaces n ++ cs)).trans ih

theorem passes_newline (cs : List Char) :
    Passes (Flows (depth + 1) allowed acc ('\n' :: cs)) (Flows (depth + 1) allowed acc cs) := by
  rintro s ⟨line, column, h⟩
  rw [cellsFrom_break (by decide)] at h
  refine ⟨_, ⟨line + 1, 0, h.goOn _⟩, reaches_gap s.keyAllowed ?_ ?_⟩
  · rw [h.rest_eq, skipGaps.eq_2]
    simp [isBreak, inFlow, h.flowLevel_eq]
  · rw [h.rest_eq]
    simp

theorem passes_spacing {g : List Char} (hg : Spacing g) (cs : List Char) :
    Passes (Flows (depth + 1) allowed acc (g ++ cs)) (Flows (depth + 1) allowed acc cs) := by
  obtain rfl | ⟨n, rfl⟩ := hg
  · exact fun s h => ⟨s, h, .refl s⟩
  · exact (passes_newline _).trans (passes_spaces n cs)

end

/-! ## Scalars -/

theorem passes_word {w : String} (hw : IsWord w.toList) {g cs : List Char} {x : Char} (hg : Spacing g)
    (hx : x ∈ flowMarks) :
    Passes (Flows (depth + 1) allowed acc (w.toList ++ (g ++ x :: cs)))
      (Flows (depth + 1) false (.scalar .plain w :: acc) (x :: cs)) := by
  have hplain := hw.plainText
  have hstart := hw.start
  obtain ⟨c, w', hcw⟩ := List.exists_cons_of_ne_nil hw.ne_nil
  have hc : isNameChar c = true := hw.name c (hcw ▸ List.mem_cons_self ..)
  have hgap := isGapChar_of_isNameChar hc
  -- a word ends with its line, or before a mark
  obtain ⟨y, z, hyz, hy, hdash, hdot⟩ : ∃ y z, g ++ x :: cs = y :: z ∧ breakChar y = y ∧ y ≠ '-' ∧
      y ≠ '.' := by
    obtain rfl | ⟨n, rfl⟩ := hg
    · obtain ⟨hbreak, -, -, -, hdash, hdot⟩ := inline_flowMark x hx
      exact ⟨x, cs, rfl, breakChar_of_not_isBreak hbreak, hdash, hdot⟩
    · exact ⟨'\n', _, rfl, by decide⟩
  have hcells : ∀ line column, cellsFrom line column (w.toList ++ (g ++ x :: cs)) =
      ⟨c, line, column⟩ :: cellsFrom line (column + 1) (w' ++ (g ++ x :: cs)) := by
    intro line column
    rw [hcw, List.cons_append, cellsFrom_inline (isGapChar_eq_false_iff.mp hgap).2.2]
  have hlength : ∀ line column, (cellsFrom line column (w' ++ (g ++ x :: cs))).length =
      w'.length + (g.length + ((cellsFrom line 1 cs).length + 1)) := by
    intro line column
    have hw' : Inline w' := fun d hd => hplain.inline d (hcw ▸ List.mem_cons_of_mem _ hd)
    rw [length_cellsFrom_append hw'.kept line column line 0, length_cellsFrom_append hg.kept line 0 line 0,
      cellsFrom_inline (inline_flowMark x hx).1, List.length_cons]
  rintro s ⟨line, column, h⟩
  rw [hcells] at h
  obtain ⟨marked, hmark, hmarked, -⟩ := (h.refresh ⟨c, line, column⟩).markKey?
  refine ⟨_, ⟨lineAfter line g, columnAfter (column + w.toList.length) g,
    (((hmarked.goOn _).allow !g.isEmpty).emit _).forget⟩,
    h.reaches hgap (ne_of_isNameChar hc (by decide)) ?_ ?_⟩
  · intro fuel hfuel
    have hlength' := hlength line (column + 1)
    have hread := plainText_flow (w := w.toList) (z := cs) hw.name hg hx line column (fuel - 2)
    rw [show fuel - 2 + 2 = fuel by omega, hcells] at hread
    have htoken : (s.refresh ⟨c, line, column⟩).token? fuel ⟨c, line, column⟩
        (cellsFrom line (column + 1) (w' ++ (g ++ x :: cs))) = (s.refresh ⟨c, line, column⟩).plain? fuel := by
      rw [hyz]
      rw [hcw] at hplain hstart
      refine token?_startsAsMarkup ?_ hplain hstart hy hdash hdot ?_ fuel
      · rintro (rfl | rfl) <;> exact absurd hc (by decide)
      · rw [(h.refresh _).rest_eq, ← hcells, hcw, hyz]
    rw [htoken, plain?, hmark]
    simp [hmarked.rest_eq, inFlow, hmarked.flowLevel_eq, hmarked.indent_eq, hread]
  · have hlength' := hlength line (column + 1)
    have hrest := length_cellsFrom_eq (lineAfter line g) (columnAfter (column + w.toList.length) g) line 0 (x :: cs)
    rw [cellsFrom_inline (inline_flowMark x hx).1 line 0, List.length_cons, Nat.zero_add] at hrest
    simp only [Scan.emit]
    omega

/-- A text between quotes. Its place is kept where a key may begin. -/
theorem reaches_flowText {k : String} (hk : k.toList.all isPortable = true) {line column : Nat} {cs : List Char}
    (h : Flowing depth allowed acc (cellsFrom line column (Json.quote k ++ cs)) s) :
    ∃ s', Flowing depth false (.scalar .quoted k :: acc) (cellsFrom line (column + (Json.quote k).length) cs) s' ∧
      (allowed = true → s'.keys.head? = some (some ⟨acc.length, line, column, false⟩)) ∧ Reaches s s' := by
  have hquote : Json.quote k ++ cs = '"' :: (k.toList.flatMap Json.escape ++ '"' :: cs) := by simp [Json.quote]
  have hend : column + (Json.quote k).length = column + 1 + (k.toList.flatMap Json.escape).length + 1 := by
    simp [Json.quote]
    omega
  have hlength := length_cellsFrom_append (inline_json hk).kept line (column + 1) line
    (column + 1 + (k.toList.flatMap Json.escape).length) ('"' :: cs)
  rw [cellsFrom_inline (c := '"') (by decide) line (column + 1 + _), List.length_cons] at hlength
  rw [hquote, cellsFrom_inline (by decide)] at h
  obtain ⟨marked, hmark, hmarked, hplace⟩ := (h.refresh ⟨'"', line, column⟩).markKey?
  refine ⟨_, ((hmarked.goOn _).allow false).emit _, hplace, h.reaches (by decide) (by decide) ?_ ?_⟩
  · intro fuel hfuel
    have htoken : ∀ (u : Scan) next, u.rest = ⟨'"', line, column⟩ :: next →
        u.token? fuel ⟨'"', line, column⟩ next = u.quoted? fuel false := by
      intro u next hu
      unfold token?
      simp [hu, atDocumentMark_of_ne]
    have hlast : (k.toList.flatMap Json.escape).length < fuel := by omega
    have hread := quotedText_json line (column + 1) cs hk (Nat.succ_ne_zero column) hlast
    rw [htoken _ _ (h.refresh _).rest_eq, quoted?, word?, hmark, hend]
    simp [hmarked.rest_eq, hread]
  · simp only [Scan.emit, hend]
    omega

theorem passes_text {k : String} (hk : k.toList.all isPortable = true) (cs : List Char) :
    Passes (Flows depth allowed acc (Json.quote k ++ cs)) (Flows depth false (.scalar .quoted k :: acc) cs) := by
  rintro s ⟨line, column, h⟩
  obtain ⟨s', hs', -, hreach⟩ := reaches_flowText hk h
  exact ⟨s', ⟨_, _, hs'⟩, hreach⟩

theorem passes_key {k : String} (hk : k.toList.all isPortable = true) (hlength : (Json.quote k).length ≤ 1024)
    (cs : List Char) : Passes (Flows (depth + 1) true acc (Json.quote k ++ ':' :: cs))
      (Flows (depth + 1) false (.value :: .scalar .quoted k :: .key :: acc) cs) := by
  rintro s ⟨line, column, h⟩
  obtain ⟨s₁, h₁, hplace, hreach⟩ := reaches_flowText hk h
  rw [cellsFrom_inline (by decide)] at h₁
  have hstale : KeyPlace.isStale ⟨acc.length, line, column, false⟩ ⟨':', line, column + (Json.quote k).length⟩ =
      false := by
    simp [KeyPlace.isStale]
    omega
  have hkept : (s₁.refresh ⟨':', line, column + (Json.quote k).length⟩).keys.head? =
      some (some ⟨acc.length, line, column, false⟩) := by
    simp [refresh, hplace rfl, Option.filter_some, hstale]
  obtain ⟨s₂, hvalue, h₂⟩ := (h₁.refresh _).value? hkept
  refine ⟨s₂, ⟨_, _, h₂⟩, hreach.trans (h₁.reaches (by decide) (by decide) (fun fuel _ => ?_) ?_)⟩
  · have hflow : (s₁.refresh ⟨':', line, column + (Json.quote k).length⟩).inFlow = true := by
      simp [inFlow, (h₁.refresh _).flowLevel_eq]
    rw [← hvalue]
    unfold token?
    simp [hflow, (h₁.refresh _).rest_eq, atDocumentMark_of_ne]
  · rw [h₂.rest_eq]

end

end Scan

end ApiDocs.Yaml
