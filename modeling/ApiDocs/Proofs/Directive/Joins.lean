import ApiDocs.Proofs.Directive.Keys

/-!
# Keys of joined texts

Where no key touches the text between two others, the pieces of the whole are the pieces of the two,
put together. Line ends and blanks around a text are such texts, so the directives of a block can be
read off the block as it stands, before its lines are joined.
-/

namespace ApiDocs

namespace Text

/-! ## First words -/

def wordChars (cs : List Char) : List Char := (dropBlank cs).takeWhile fun c => !isBlank c

theorem firstWord_ofList (cs : List Char) : firstWord (String.ofList cs) = String.ofList (wordChars cs) := by
  simp [firstWord, wordChars]

theorem dropBlank_append_of_blank {b : List Char} (hb : ∀ c ∈ b, isBlank c = true) (cs : List Char) :
    dropBlank (b ++ cs) = dropBlank cs := List.dropWhile_append_of_pos hb

theorem wordChars_append_of_blank {b : List Char} (hb : ∀ c ∈ b, isBlank c = true) (cs : List Char) :
    wordChars (b ++ cs) = wordChars cs := by
  rw [wordChars, dropBlank_append_of_blank hb, wordChars]

theorem dropBlank_of_blank {b : List Char} (hb : ∀ c ∈ b, isBlank c = true) : dropBlank b = [] :=
  List.dropWhile_eq_nil_iff.mpr hb

theorem wordChars_of_blank {b : List Char} (hb : ∀ c ∈ b, isBlank c = true) : wordChars b = [] := by
  rw [wordChars, dropBlank_of_blank hb]
  rfl

theorem dropBlank_append {w : List Char} (hw : ¬∀ c ∈ w, isBlank c = true) (cs : List Char) :
    dropBlank (w ++ cs) = dropBlank w ++ cs := by
  induction w with
  | nil => simp at hw
  | cons c w ih =>
    unfold dropBlank at ih ⊢
    by_cases hc : isBlank c = true
    · simp only [List.cons_append, List.dropWhile_cons_of_pos hc]
      apply ih
      intro h
      apply hw
      simpa [hc] using h
    · simp only [List.cons_append, List.dropWhile_cons_of_neg hc]

theorem takeWhile_append_of_head {p : Char → Bool} (l : List Char) {x : List Char}
    (hx : ∀ c, x.head? = some c → p c = false) : (l ++ x).takeWhile p = l.takeWhile p := by
  induction l with
  | nil =>
    cases x with
    | nil => rfl
    | cons c x => simp [hx c rfl]
  | cons c l ih =>
    by_cases hc : p c = true
    · simp [hc, ih]
    · simp [hc]

/-- A word ends at the first blank after it. -/
theorem wordChars_append {w x : List Char} (hw : ¬∀ c ∈ w, isBlank c = true)
    (hx : ∀ c, x.head? = some c → isBlank c = true) : wordChars (w ++ x) = wordChars w := by
  rw [wordChars, dropBlank_append hw, wordChars]
  apply takeWhile_append_of_head
  intro c hc
  simp [hx c hc]

theorem trimChars_of_blank {b : List Char} (hb : ∀ c ∈ b, isBlank c = true) : trimChars b = [] := by
  rw [trimChars, dropBlank_of_blank hb]
  rfl

theorem trimChars_append_of_blank {b : List Char} (hb : ∀ c ∈ b, isBlank c = true) (cs : List Char) :
    trimChars (cs ++ b) = trimChars cs := by
  by_cases hcs : ∀ c ∈ cs, isBlank c = true
  · rw [trimChars_of_blank hcs, trimChars_of_blank]
    intro c hc
    rcases List.mem_append.mp hc with hc | hc
    · exact hcs c hc
    · exact hb c hc
  · rw [trimChars, dropBlank_append hcs, List.reverse_append, dropBlank_append_of_blank, trimChars]
    simpa using hb

/-- The blanks that trimming takes away at the two ends. -/
theorem exists_eq_trimChars (cs : List Char) : ∃ before after, cs = before ++ (trimChars cs ++ after) ∧
    (∀ c ∈ before, isBlank c = true) ∧ ∀ c ∈ after, isBlank c = true := by
  refine ⟨cs.takeWhile isBlank, ((dropBlank cs).reverse.takeWhile isBlank).reverse, ?_, ?_, ?_⟩
  · have hback : trimChars cs ++ ((dropBlank cs).reverse.takeWhile isBlank).reverse = dropBlank cs := by
      rw [trimChars, ← List.reverse_append]
      unfold dropBlank
      rw [List.takeWhile_append_dropWhile, List.reverse_reverse]
    rw [hback]
    exact List.takeWhile_append_dropWhile.symm
  · exact fun c hc => List.mem_takeWhile_imp hc
  · exact fun c hc => List.mem_takeWhile_imp (List.mem_reverse.mp hc)

theorem wordChars_trimChars (cs : List Char) : wordChars (trimChars cs) = wordChars cs := by
  obtain ⟨before, after, hcs, hbefore, hafter⟩ := exists_eq_trimChars cs
  have hdrop := wordChars_append_of_blank hbefore (trimChars cs ++ after)
  rw [← hcs] at hdrop
  rw [hdrop]
  by_cases hblank : ∀ c ∈ trimChars cs, isBlank c = true
  · rw [wordChars_append_of_blank hblank, wordChars_of_blank hblank, wordChars_of_blank hafter]
  · exact (wordChars_append hblank fun c hc => hafter c (List.mem_of_head? hc)).symm

end Text

namespace Directive

open Text

/-! ## Texts between texts -/

/-- No key of `u ++ m ++ v` touches `m`. -/
def Clear (u m v : List Char) : Prop := ∀ (s : Spelling) (a b : List Char),
  u ++ (m ++ v) = a ++ (s.chars ++ b) → a ++ s.chars <+: u ∨ u ++ m <+: a

theorem Spelling.colon_mem {s : Spelling} {y z : List Char} (h : s.chars = y ++ z) (hz : z ≠ []) :
    ':' ∈ z := by
  have hlast : s.chars.getLast? = some ':' := by
    simp [chars, tail, afterLetters, List.getLast?_cons, List.getLast?_append]
  rw [h, List.getLast?_append, List.getLast?_eq_some_getLast hz, Option.some_or] at hlast
  rw [← Option.some.inj hlast]
  exact List.getLast_mem hz

/-- A text is clear if no key begins in it and none goes over into it. -/
theorem clear_of_not_crossed {u m v : List Char} (hat : '@' ∉ m)
    (h : ∀ (s : Spelling) (y z b : List Char), s.chars = y ++ z → y ≠ [] → z ≠ [] → y <:+ u →
      m ++ v ≠ z ++ b) : Clear u m v := by
  intro s a b htext
  have hafter : ∀ y, a = u ++ y → m ++ v = y ++ (s.chars ++ b) → u ++ m <+: a := by
    intro y ha hm
    rcases List.append_eq_append_iff.mp hm with ⟨z, hz, -⟩ | ⟨z, hz, hv⟩
    · exact ⟨z, by rw [ha, hz, List.append_assoc]⟩
    · cases z with
      | nil => exact ⟨[], by rw [ha, hz]; simp⟩
      | cons c z =>
        have hc : c = '@' := (List.cons.inj hv).1.symm
        exact absurd (by rw [hz]; simp [hc]) hat
  rcases List.append_eq_append_iff.mp htext with ⟨y, ha, hm⟩ | ⟨y, hu, hs⟩
  · exact Or.inr (hafter y ha hm)
  · by_cases hy : y = []
    · subst hy
      exact Or.inr (hafter [] (by simp [hu]) (by simpa using hs.symm))
    · left
      rcases List.append_eq_append_iff.mp hs with ⟨z, hz, -⟩ | ⟨z, hz, hmv⟩
      · exact ⟨z, by rw [hu, hz, List.append_assoc]⟩
      · by_cases hz' : z = []
        · exact ⟨[], by rw [hu, hz, hz']; simp⟩
        · exact absurd hmv (h s y z b hz hy hz' ⟨a, hu.symm⟩)

/-- A character that no key of the text goes over, with no colon before it, keeps the keys apart. -/
theorem clear_of_stop {u m v pre post : List Char} {x : Char} (hat : '@' ∉ m)
    (hmv : m ++ v = pre ++ x :: post) (hcolon : ':' ∉ pre)
    (hx : ∀ s : Spelling, s.chars <:+: u ++ (m ++ v) → x ∉ s.tail) : Clear u m v := by
  apply clear_of_not_crossed hat
  intro s y z b hs hy hz hu hzb
  have hmem : x ∈ z := by
    rcases List.append_eq_append_iff.mp (hmv.symm.trans hzb) with ⟨w, rfl, hw⟩ | ⟨w, hpre, -⟩
    · cases w with
      | nil =>
        -- the key would end before the character, with a colon
        rw [List.append_nil] at hs
        exact absurd (Spelling.colon_mem hs (by simpa using hz)) hcolon
      | cons c w =>
        have : x = c := (List.cons.inj hw).1
        simp [this]
    · exact absurd (by rw [hpre]; exact List.mem_append_left _ (Spelling.colon_mem hs hz)) hcolon
  obtain ⟨a, rfl⟩ := hu
  obtain ⟨c, y, rfl⟩ := List.exists_cons_of_ne_nil hy
  apply hx s
  · exact ⟨a, b, by rw [hs, hzb]; simp⟩
  · rw [(List.cons.inj hs).2]
    exact List.mem_append_right _ hmem

theorem clear_of_blank_left {m : List Char} (hm : ∀ c ∈ m, isBlank c = true) (v : List Char) :
    Clear [] m v := by
  apply clear_of_not_crossed
  · intro h
    exact absurd (hm _ h) (by decide)
  · intro s y z b _ hy _ hu
    exact absurd (List.suffix_nil.mp hu) hy

theorem clear_of_blank_right {m : List Char} (hm : ∀ c ∈ m, isBlank c = true) (u : List Char) :
    Clear u m [] := by
  apply clear_of_not_crossed
  · intro h
    exact absurd (hm _ h) (by decide)
  · intro s y z b hs _ hz _ hmz
    rw [List.append_nil] at hmz
    have hcolon : ':' ∈ m := by
      rw [hmz]
      exact List.mem_append_left _ (Spelling.colon_mem hs hz)
    exact absurd (hm _ hcolon) (by decide)

/-! ## Pieces of joined texts -/

theorem pieces_of_read?_some {cs rest : List Char} {k : Key} (h : Key.read? cs = some (k, rest)) :
    pieces cs = ⟨[], (k, (pieces rest).lead) :: (pieces rest).keyed⟩ := by
  cases cs with
  | nil => simp [Key.read?] at h
  | cons c cs =>
    rw [pieces]
    split
    · rename_i h'
      rw [h] at h'
      cases h'
      rfl
    · rename_i h'
      rw [h] at h'
      cases h'

theorem pieces_of_read?_none {c : Char} {cs : List Char} (h : Key.read? (c :: cs) = none) :
    pieces (c :: cs) = ⟨c :: (pieces cs).lead, (pieces cs).keyed⟩ := by
  rw [pieces]
  split
  · rename_i h'
    rw [h] at h'
    cases h'
  · rfl

/-- Puts pieces behind the text `lead` and the pieces `keyed` that follow it. -/
def appendTo (lead : List Char) : List (Key × List Char) → Pieces → Pieces
  | [], q => ⟨lead ++ q.lead, q.keyed⟩
  | (k, raw) :: keyed, q => ⟨lead, (k, (appendTo raw keyed q).lead) :: (appendTo raw keyed q).keyed⟩

def Pieces.append (p q : Pieces) : Pieces := appendTo p.lead p.keyed q

theorem appendTo_snoc (lead : List Char) (keyed : List (Key × List Char)) (k : Key) (raw : List Char)
    (q : Pieces) : appendTo lead (keyed ++ [(k, raw)]) q =
      ⟨lead, keyed ++ (k, raw ++ q.lead) :: q.keyed⟩ := by
  induction keyed generalizing lead with
  | nil => rfl
  | cons p keyed ih =>
    obtain ⟨j, raw'⟩ := p
    simp only [List.cons_append, appendTo, ih]

theorem Pieces.append_cons (c : Char) (lead : List Char) (keyed : List (Key × List Char)) (q : Pieces) :
    Pieces.append ⟨c :: lead, keyed⟩ q =
      ⟨c :: (Pieces.append ⟨lead, keyed⟩ q).lead, (Pieces.append ⟨lead, keyed⟩ q).keyed⟩ := by
  cases keyed <;> rfl

theorem pieces_clear_nil {m v : List Char} (h : Clear [] m v) :
    pieces (m ++ v) = ⟨m ++ (pieces v).lead, (pieces v).keyed⟩ := by
  induction m with
  | nil => rfl
  | cons c m ih =>
    have hread : Key.read? (c :: (m ++ v)) = none := by
      cases hk : Key.read? (c :: (m ++ v)) with
      | none => rfl
      | some r =>
        obtain ⟨s, -, hs⟩ := exists_spelling_of_read? hk
        rcases h s [] r.2 hs with hp | hp
        · simp [Spelling.chars] at hp
        · simp at hp
    have hclear : Clear [] m v := by
      intro s a b hab
      rcases h s (c :: a) b (congrArg (c :: ·) hab) with hp | hp
      · simp at hp
      · right
        simpa using hp
    rw [List.cons_append, pieces_of_read?_none hread, ih hclear]
    rfl

/-- The pieces on the two sides of a text that no key touches. -/
theorem pieces_clear {u m v : List Char} (h : Clear u m v) :
    pieces (u ++ (m ++ v)) = (pieces u).append ⟨m ++ (pieces v).lead, (pieces v).keyed⟩ := by
  fun_induction pieces u with
  | case1 => exact pieces_clear_nil h
  | case2 c cs k rest hread next ih =>
    obtain ⟨s, rfl, hs⟩ := exists_spelling_of_read? hread
    have hclear : Clear rest m v := by
      intro t a b hab
      rcases h t (s.chars ++ a) b (by rw [hs]; simp [hab]) with hp | hp
      · left
        rw [hs, List.append_assoc] at hp
        exact (List.prefix_append_right_inj _).mp hp
      · right
        rw [hs, List.append_assoc] at hp
        exact (List.prefix_append_right_inj _).mp hp
    have hwhole : Key.read? (c :: cs ++ (m ++ v)) = some (s.key, rest ++ (m ++ v)) := by
      rw [hs, List.append_assoc]
      exact s.read?_chars _
    rw [pieces_of_read?_some hwhole, ih hclear]
    rfl
  | case3 c cs hread next ih =>
    have hclear : Clear cs m v := by
      intro t a b hab
      rcases h t (c :: a) b (congrArg (c :: ·) hab) with hp | hp
      · exact Or.inl (by simpa using hp)
      · exact Or.inr (by simpa using hp)
    have hwhole : Key.read? (c :: (cs ++ (m ++ v))) = none := by
      cases hk : Key.read? (c :: (cs ++ (m ++ v))) with
      | none => rfl
      | some r =>
        obtain ⟨s, -, hs⟩ := exists_spelling_of_read? hk
        rcases h s [] r.2 hs with hp | hp
        · obtain ⟨x, hx⟩ := hp
          rw [← hx, List.nil_append, s.read?_chars] at hread
          cases hread
        · simp at hp
    rw [List.cons_append, pieces_of_read?_none hwhole, ih hclear, Pieces.append_cons]

/-! ## Joined lines -/

theorem takeWhile_joinLines {p : Char → Bool} (hp : p '\n' = false ∧ p '\r' = false ∧ p ' ' = false)
    (cs : List Char) : (joinLines cs).takeWhile p = cs.takeWhile p := by
  fun_induction joinLines cs with
  | case1 => rfl
  | case2 cs ih => simp [hp]
  | case3 c cs _ ih =>
    by_cases hc : c = '\n' ∨ c = '\r'
    · rcases hc with rfl | rfl <;> simp [hp]
    · by_cases hpc : p c = true <;> simp [hc, hpc, ih]

theorem dropWhile_joinLines {p : Char → Bool} (hp : p '\n' = false ∧ p '\r' = false ∧ p ' ' = false)
    (cs : List Char) : (joinLines cs).dropWhile p = joinLines (cs.dropWhile p) := by
  fun_induction joinLines cs with
  | case1 => rfl
  | case2 cs ih => simp [hp, joinLines]
  | case3 c cs h ih =>
    have hrn : ¬(c = '\r' ∧ cs.head? = some '\n') := by
      rintro ⟨rfl, hcs⟩
      obtain ⟨cs', rfl⟩ := List.head?_eq_some_iff.mp hcs
      exact h cs' rfl rfl
    have hcons := joinLines_cons hrn
    by_cases hc : c = '\n' ∨ c = '\r'
    · rcases hc with rfl | rfl <;> simp [hp, hcons]
    · by_cases hpc : p c = true <;> simp [hc, hpc, ih, hcons]

theorem dropBlank_joinLines (cs : List Char) : dropBlank (joinLines cs) = joinLines (dropBlank cs) := by
  unfold dropBlank
  fun_induction joinLines cs with
  | case1 => rfl
  | case2 cs ih =>
    rw [List.dropWhile_cons_of_pos (by decide), List.dropWhile_cons_of_pos (by decide),
      List.dropWhile_cons_of_pos (by decide), ih]
  | case3 c cs h ih =>
    by_cases hc : c = '\n' ∨ c = '\r'
    · have hblank : isBlank c = true := by
        rcases hc with rfl | rfl <;> decide
      rw [if_pos hc, List.dropWhile_cons_of_pos (by decide), List.dropWhile_cons_of_pos hblank, ih]
    · rw [if_neg hc]
      by_cases hb : isBlank c = true
      · rw [List.dropWhile_cons_of_pos hb, List.dropWhile_cons_of_pos hb, ih]
      · rw [not_or] at hc
        rw [List.dropWhile_cons_of_neg hb, List.dropWhile_cons_of_neg hb,
          joinLines_cons_of_ne hc.1 hc.2]

theorem wordChars_joinLines (cs : List Char) : wordChars (joinLines cs) = wordChars cs := by
  rw [wordChars, dropBlank_joinLines, takeWhile_joinLines (by decide), wordChars]

theorem exists_eq_cons_of_joinLines {c : Char} {cs t : List Char} (hc : c ≠ ' ')
    (h : joinLines cs = c :: t) : ∃ t', cs = c :: t' ∧ t = joinLines t' := by
  unfold joinLines at h
  split at h
  · cases h
  · exact absurd (List.cons.inj h).1.symm hc
  · rename_i d cs' _
    obtain ⟨hd, ht⟩ := List.cons.inj h
    split at hd
    · exact absurd hd.symm hc
    · exact ⟨cs', by rw [hd], ht.symm⟩

theorem joinLines_of_dropBlank {cs t : List Char} {c : Char} (h : dropBlank cs = c :: t) :
    joinLines (c :: t) = c :: joinLines t := by
  have hc := List.head?_dropWhile_not isBlank cs
  rw [← dropBlank, h, List.head?_cons] at hc
  apply joinLines_cons_of_ne
  · rintro rfl
    exact absurd hc (by decide)
  · rintro rfl
    exact absurd hc (by decide)

theorem read?_joinLines (cs : List Char) :
    Key.read? (joinLines cs) = (Key.read? cs).map fun r => (r.1, joinLines r.2) := by
  by_cases h : ∃ r, cs = '@' :: 'a' :: 'p' :: 'i' :: r
  · obtain ⟨r, rfl⟩ := h
    have hjoin : joinLines ('@' :: 'a' :: 'p' :: 'i' :: r) = '@' :: 'a' :: 'p' :: 'i' :: joinLines r := by
      simp [joinLines]
    rw [hjoin]
    simp only [Key.read?]
    rw [takeWhile_joinLines (by decide), dropWhile_joinLines (by decide),
      takeWhile_joinLines (by decide +kernel), dropWhile_joinLines (by decide +kernel), dropBlank_joinLines]
    cases hx : dropBlank ((r.dropWhile isLetter).dropWhile isDecimal) with
    | nil => rfl
    | cons x t =>
      rw [joinLines_of_dropBlank hx]
      by_cases hcolon : x = ':'
      · subst hcolon
        by_cases he : (r.takeWhile isLetter).isEmpty <;> simp [he]
      · simp [hcolon]
  · have hread : ∀ ds : List Char, (∀ r, ds ≠ '@' :: 'a' :: 'p' :: 'i' :: r) → Key.read? ds = none := by
      intro ds hds
      unfold Key.read?
      split
      · exact absurd rfl (hds _)
      · rfl
    rw [hread cs (fun r hr => h ⟨r, hr⟩), hread]
    · rfl
    · intro r hr
      obtain ⟨t₁, rfl, h₁⟩ := exists_eq_cons_of_joinLines (by decide) hr
      obtain ⟨t₂, rfl, h₂⟩ := exists_eq_cons_of_joinLines (by decide) h₁.symm
      obtain ⟨t₃, rfl, h₃⟩ := exists_eq_cons_of_joinLines (by decide) h₂.symm
      obtain ⟨t₄, rfl, -⟩ := exists_eq_cons_of_joinLines (by decide) h₃.symm
      exact h ⟨t₄, rfl⟩

def Pieces.map (f : List Char → List Char) (p : Pieces) : Pieces :=
  ⟨f p.lead, p.keyed.map fun q => (q.1, f q.2)⟩

theorem head?_lead {cs : List Char} {c : Char} (h : (pieces cs).lead.head? = some c) :
    cs.head? = some c := by
  obtain ⟨cut, hcut⟩ := exists_cut cs
  have hlead : (pieces cs).lead = cut.lead := by rw [← hcut]; rfl
  rw [cut.text_eq, List.head?_append, ← hlead, h]
  rfl

/-- Line ends can be joined before or after the text is cut. -/
theorem pieces_joinLines (cs : List Char) : pieces (joinLines cs) = (pieces cs).map joinLines := by
  fun_induction pieces cs with
  | case1 => simp [pieces, joinLines, Pieces.map]
  | case2 c cs k rest hread next ih =>
    have hjoined := read?_joinLines (c :: cs)
    rw [hread, Option.map_some] at hjoined
    rw [pieces_of_read?_some hjoined, ih]
    rfl
  | case3 c cs hread next ih =>
    by_cases hrn : c = '\r' ∧ cs.head? = some '\n'
    · -- the line feed after the carriage return has made the blank already
      obtain ⟨rfl, hcs⟩ := hrn
      obtain ⟨cs, rfl⟩ := List.head?_eq_some_iff.mp hcs
      have hnext : Key.read? ('\n' :: cs) = none := rfl
      have hn : ∀ ds, joinLines ('\n' :: ds) = ' ' :: joinLines ds := fun ds => by
        rw [joinLines_cons (by simp)]
        rfl
      have hlead : next = ⟨'\n' :: (pieces cs).lead, (pieces cs).keyed⟩ := pieces_of_read?_none hnext
      rw [joinLines, ← hn, ih]
      simp only [next] at hlead ⊢
      simp only [Pieces.map, hlead, joinLines, hn]
    · have hjoined := read?_joinLines (c :: cs)
      rw [hread, Option.map_none, joinLines_cons hrn] at hjoined
      rw [joinLines_cons hrn, pieces_of_read?_none hjoined, ih]
      have hlead : ¬(c = '\r' ∧ next.lead.head? = some '\n') := fun h => hrn ⟨h.1, head?_lead h.2⟩
      simp only [Pieces.map, joinLines_cons hlead]
      rfl

/-! ## Directives of a block as it stands -/

theorem map_ofPiece_appendTo {b : List Char} (hb : ∀ c ∈ b, isBlank c = true) (lead : List Char)
    (keyed : List (Key × List Char)) :
    (appendTo lead keyed ⟨b, []⟩).keyed.map ofPiece = keyed.map ofPiece := by
  induction keyed generalizing lead with
  | nil => rfl
  | cons p keyed ih =>
    obtain ⟨k, raw⟩ := p
    have hraw : trimChars (appendTo raw keyed ⟨b, []⟩).lead = trimChars raw := by
      cases keyed with
      | nil => exact trimChars_append_of_blank hb raw
      | cons q keyed => rfl
    simp only [appendTo, List.map_cons, ih, ofPiece, hraw]

/-- Blanks around a text are no part of its directives. -/
theorem map_ofPiece_trimChars (cs : List Char) :
    (pieces (trimChars cs)).keyed.map ofPiece = (pieces cs).keyed.map ofPiece := by
  obtain ⟨before, after, hcs, hbefore, hafter⟩ := exists_eq_trimChars cs
  have hright : pieces (trimChars cs ++ after) = (pieces (trimChars cs)).append ⟨after, []⟩ := by
    have h := pieces_clear (clear_of_blank_right hafter (trimChars cs))
    rw [List.append_nil] at h
    rw [h]
    simp [pieces]
  have hwhole : (pieces cs).keyed = (pieces (trimChars cs ++ after)).keyed := by
    have h := pieces_clear_nil (clear_of_blank_left hbefore (trimChars cs ++ after))
    rw [← hcs] at h
    rw [h]
  rw [hwhole, hright]
  exact (map_ofPiece_appendTo hafter _ _).symm

theorem firstWord_ofPiece (k : Key) (raw : List Char) :
    firstWord (ofPiece (k, joinLines raw)).value = String.ofList (wordChars raw) := by
  rw [ofPiece, firstWord_ofList, wordChars_trimChars, wordChars_joinLines]

theorem ofBlock_eq (block : String) : ofBlock block =
    (pieces block.toList).keyed.map fun p => ofPiece (p.1, joinLines p.2) := by
  have hnormal : (normalize block).toList = trimChars (joinLines block.toList) := by
    simp [normalize, trim]
  rw [ofBlock, hnormal, map_ofPiece_trimChars, pieces_joinLines, Pieces.map, List.map_map]
  rfl

end Directive

end ApiDocs
