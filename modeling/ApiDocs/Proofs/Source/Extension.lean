import ApiDocs.Source.Parse

/-!
# Reading before a comma

What is read to the end of some tokens is read in the same way if a comma and more tokens follow, and if
the grammar is deeper. Both are one relation between two readers, which is closed under the combinators.
-/

namespace ApiDocs.Source

variable {α β : Type}

/-! ## What follows -/

/-- What stands behind the tokens that are read: nothing, or a comma and more. -/
inductive Tail where
  | none
  | comma (joint : Bool) (rest : List Token)

def Tail.tokens : Tail → List Token
  | none => []
  | comma joint rest => .punct ',' joint :: rest

variable {tail : Tail}

@[simp] theorem Tail.tokens_none : Tail.none.tokens = [] := rfl

def ReaderState.before (s : ReaderState) (tail : Tail) : ReaderState := { s with rest := s.rest ++ tail.tokens }

@[simp] theorem ReaderState.rest_before (s : ReaderState) : (s.before tail).rest = s.rest ++ tail.tokens := rfl

@[simp] theorem ReaderState.before_none (s : ReaderState) : s.before .none = s := by
  simp [before]

/-! ## Looking ahead -/

namespace Look
variable {ts : List Token}

@[simp] theorem word_nil (w : String) : word w [] = false := rfl
@[simp] theorem anyWord_nil : anyWord [] = false := rfl
@[simp] theorem ident_nil : ident [] = false := rfl
@[simp] theorem oneOf_nil (ws : List String) : oneOf ws [] = false := rfl
@[simp] theorem lifetime_nil : lifetime [] = false := rfl
@[simp] theorem group_nil (d : Delimiter) : group d [] = false := rfl
@[simp] theorem anyGroup_nil : anyGroup [] = false := rfl
@[simp] theorem literal_nil : literal [] = false := rfl
@[simp] theorem textLiteral_nil : textLiteral [] = false := rfl

theorem opChars_nil {cs : List Char} (hcs : cs ≠ []) : opChars cs [] = false := by
  cases cs with
  | nil => exact absurd rfl hcs
  | cons c cs => rfl

@[simp] theorem op_nil {s : String} (hs : s.toList ≠ []) : op s [] = false := opChars_nil hs

/-- A look at the first token alone does not see what stands behind, unless it looks for a comma. -/
theorem append_of_first {p : Look} (hfirst : ∀ t ts us, p (t :: ts) = p (t :: us))
    (hcomma : ∀ joint, p [.punct ',' joint] = p []) : p (ts ++ tail.tokens) = p ts := by
  cases ts with
  | nil =>
    cases tail with
    | none => rfl
    | comma joint rest => exact (hfirst _ rest []).trans (hcomma joint)
  | cons t ts => exact hfirst t _ _

@[simp] theorem word_append (w : String) : word w (ts ++ tail.tokens) = word w ts :=
  append_of_first (fun t _ _ => by cases t <;> rfl) fun _ => rfl

@[simp] theorem anyWord_append : anyWord (ts ++ tail.tokens) = anyWord ts :=
  append_of_first (fun t _ _ => by cases t <;> rfl) fun _ => rfl

@[simp] theorem ident_append : ident (ts ++ tail.tokens) = ident ts :=
  append_of_first (fun t _ _ => by cases t <;> rfl) fun _ => rfl

@[simp] theorem oneOf_append (ws : List String) : oneOf ws (ts ++ tail.tokens) = oneOf ws ts :=
  append_of_first (fun t _ _ => by cases t <;> rfl) fun _ => rfl

@[simp] theorem lifetime_append : lifetime (ts ++ tail.tokens) = lifetime ts :=
  append_of_first (fun t _ _ => by cases t <;> rfl) fun _ => rfl

@[simp] theorem group_append (d : Delimiter) : group d (ts ++ tail.tokens) = group d ts :=
  append_of_first (fun t _ _ => by cases t <;> rfl) fun _ => rfl

@[simp] theorem anyGroup_append : anyGroup (ts ++ tail.tokens) = anyGroup ts :=
  append_of_first (fun t _ _ => by cases t <;> rfl) fun _ => rfl

@[simp] theorem textLiteral_append : textLiteral (ts ++ tail.tokens) = textLiteral ts := by
  refine append_of_first (fun t _ _ => ?_) fun _ => rfl
  cases t with
  | literal l => cases l <;> rfl
  | _ => rfl

@[simp] theorem literal_append : literal (ts ++ tail.tokens) = literal ts := by
  match ts with
  | [] => cases tail <;> rfl
  | [t] => cases tail <;> cases t <;> simp [Tail.tokens, literal]
  | .punct c joint :: u :: ts =>
    by_cases hc : c = '-'
    · subst hc
      cases u <;> rfl
    · simp [literal, hc]
  | .word _ :: u :: ts | .lifetime _ :: u :: ts | .literal _ :: u :: ts | .group .. :: u :: ts => rfl

theorem opChars_append {cs : List Char} (hcs : cs ≠ []) (hcomma : ',' ∉ cs) :
    opChars cs (ts ++ tail.tokens) = opChars cs ts := by
  induction cs generalizing ts with
  | nil => exact absurd rfl hcs
  | cons c cs ih =>
    obtain ⟨hc, hcomma⟩ := List.ne_and_not_mem_of_not_mem_cons hcomma
    cases ts with
    | nil => cases tail <;> simp [Tail.tokens, opChars, hc.symm]
    | cons t ts =>
      cases t with
      | punct d joint =>
        cases cs with
        | nil => simp [opChars]
        | cons c' cs => simp [opChars, ih (by simp) hcomma]
      | _ => rfl

@[simp] theorem op_append {s : String} (hs : s.toList ≠ []) (hcomma : ',' ∉ s.toList) :
    op s (ts ++ tail.tokens) = op s ts :=
  opChars_append hs hcomma

/-- Punctuation that is there is there with more tokens behind it. -/
theorem opChars_append_of {cs : List Char} (more : List Token) (h : opChars cs ts = true) :
    opChars cs (ts ++ more) = true := by
  induction cs generalizing ts with
  | nil => rfl
  | cons c cs ih =>
    match ts, h with
    | .punct d joint :: ts, h =>
      simp only [List.cons_append, opChars, Bool.and_eq_true] at h ⊢
      exact ⟨h.1, ih h.2⟩

theorem third_op_append_of {s : String} (more : List Token) (h : third (op s) ts = true) :
    third (op s) (ts ++ more) = true := by
  unfold third at h ⊢
  rw [List.drop_append]
  exact opChars_append_of _ h

theorem length_le_of_opChars {cs : List Char} (h : opChars cs ts = true) : cs.length ≤ ts.length := by
  induction cs generalizing ts with
  | nil => exact Nat.zero_le _
  | cons c cs ih =>
    match ts, h with
    | .punct d joint :: ts, h =>
      simp only [opChars, Bool.and_eq_true] at h
      exact Nat.succ_le_succ (ih h.2)

/-- A comma is seen in the tail if nothing stands before it. -/
@[simp] theorem comma_append : op "," (ts ++ tail.tokens) = (op "," ts || ts.isEmpty && !tail.tokens.isEmpty) := by
  have hop : ∀ t (us : List Token), op "," (t :: us) = op "," [t] := fun t us => by
    cases t <;> simp [op, opChars]
  cases ts with
  | nil => cases tail <;> rfl
  | cons t ts => simp [hop t]

@[simp] theorem atEnd_append : atEnd (ts ++ tail.tokens) = (ts.isEmpty && tail.tokens.isEmpty) := by
  cases ts <;> rfl

theorem one_le_length {p : Look} (hnil : p [] = false) (h : p ts = true) : 1 ≤ ts.length := by
  cases ts with
  | nil => simp [hnil] at h
  | cons t ts => simp

theorem two_le_length_of_second {p : Look} (hnil : p [] = false) (h : second p ts = true) : 2 ≤ ts.length := by
  have hlength := one_le_length hnil h
  rw [List.length_drop] at hlength
  omega

theorem two_le_length_of_literal (h : literal ts = true) (hop : op "-" ts = true) : 2 ≤ ts.length := by
  match ts with
  | [] => cases h
  | [t] => cases t <;> simp [literal, op, opChars] at h hop
  | _ :: _ :: _ => simp

theorem exists_of_colon (h : op ":" ts = true) : ∃ joint us, ts = .punct ':' joint :: us := by
  match ts with
  | .punct c joint :: us =>
    simp [op, opChars] at h
    exact ⟨joint, us, by rw [h]⟩

theorem op_dots_eq_false (h : ∀ joint us, ts ≠ .punct '.' joint :: us) : op "..." ts = false := by
  match ts with
  | [] | .word _ :: _ | .lifetime _ :: _ | .literal _ :: _ | .group .. :: _ => rfl
  | .punct c joint :: us =>
    have hc : '.' ≠ c := fun hc => h joint us (by rw [hc])
    simp [op, opChars, hc]

theorem length_le_of_op {s : String} (h : op s ts = true) : s.length ≤ ts.length := length_le_of_opChars h

theorem ne_nil {p : Look} (hnil : p [] = false) (h : p ts = true) : ts ≠ [] :=
  List.length_pos_iff.mp (one_le_length hnil h)

/-- A look past tokens that are there. -/
theorem second_append {p : Look} (hts : ts ≠ []) (hp : ∀ us, p (us ++ tail.tokens) = p us) :
    second p (ts ++ tail.tokens) = second p ts := by
  unfold second
  rw [List.drop_append_of_le_length (List.length_pos_iff.mpr hts), hp]

theorem third_append {p : Look} (hts : 2 ≤ ts.length) (hp : ∀ us, p (us ++ tail.tokens) = p us) :
    third p (ts ++ tail.tokens) = third p ts := by
  unfold third
  rw [List.drop_append_of_le_length hts, hp]

/-- A look past two tokens of which the second is seen. -/
@[simp] theorem second_and_third_append {p q : Look} (hnil : p [] = false)
    (hq : ∀ us, q (us ++ tail.tokens) = q us) :
    (second p ts && third q (ts ++ tail.tokens)) = (second p ts && third q ts) := by
  cases h : second p ts with
  | false => rfl
  | true => rw [third_append (two_le_length_of_second hnil h) hq]

theorem and_second_append {b : Bool} {p : Look} (hb : b = true → ts ≠ [])
    (hp : ∀ us, p (us ++ tail.tokens) = p us) :
    (b && second p (ts ++ tail.tokens)) = (b && second p ts) := by
  cases b with
  | false => rfl
  | true => rw [second_append (hb rfl) hp]

/-- A look past `::`. -/
@[simp] theorem path_and_third_append {p : Look} (hp : ∀ us, p (us ++ tail.tokens) = p us) :
    (op "::" ts && third p (ts ++ tail.tokens)) = (op "::" ts && third p ts) := by
  cases h : op "::" ts with
  | false => rfl
  | true => rw [third_append (length_le_of_op h) hp]

end Look

/-! ## Readers -/

namespace Reader

/-- What the first reader makes of a state, the second makes of it with more tokens behind. -/
def Extends (tail : Tail) (s : ReaderState) (p q : Reader α) : Prop :=
  ∀ a s', p s = some (a, s') → q (s.before tail) = some (a, s'.before tail)

theorem bind_apply (p : Reader α) (f : α → Reader β) (s : ReaderState) :
    (p >>= f) s = (p s).bind fun r => f r.1 r.2 := rfl

theorem bind_eq_some_iff {p : Reader α} {f : α → Reader β} {s : ReaderState} {r : β × ReaderState} :
    (p >>= f) s = some r ↔ ∃ a s', p s = some (a, s') ∧ f a s' = some r := by
  rw [bind_apply, Option.bind_eq_some_iff, Prod.exists]

/-- A reader goes on from where the first one has stopped. -/
theorem bind_apply_of {p : Reader α} {s s' : ReaderState} {a : α} (h : p s = some (a, s')) (f : α → Reader β) :
    (p >>= f) s = f a s' := by
  rw [bind_apply, h, Option.bind_some]

theorem pure_apply (a : α) (s : ReaderState) : (pure a : Reader α) s = some (a, s) := rfl

theorem ite_apply (c : Prop) [Decidable c] (p q : Reader α) (s : ReaderState) :
    (if c then p else q) s = if c then p s else q s := by
  split <;> rfl

theorem discard_apply (p : Reader α) (s : ReaderState) :
    (discard p : Reader Unit) s = (p s).map fun r => ((), r.2) := by
  change ((fun _ => ()) <$> p) s = _
  rw [map_eq_pure_bind, bind_apply]
  cases p s <;> rfl

theorem look_apply (l : Look) (s : ReaderState) : look l s = some (l s.rest, s) := rfl

theorem look_bind_apply (l : Look) (f : Bool → Reader β) (s : ReaderState) : (look l >>= f) s = f (l s.rest) s := rfl

theorem skip_apply (n : Nat) (s : ReaderState) : skip n s = some ((), { s with rest := s.rest.drop n }) := rfl

theorem require_apply (l : Look) (s : ReaderState) :
    require l s = if l s.rest = true then some ((), s) else none := by
  unfold require
  rw [bind_apply, look_apply]
  cases l s.rest <;> rfl

theorem attempt_of_some {p : Reader α} {s s' : ReaderState} {a : α} (h : p s = some (a, s')) :
    attempt p s = some (some a, s') := by
  rw [attempt, h]

theorem attempt_of_none {p : Reader α} {s : ReaderState} (h : p s = none) : attempt p s = some (none, s) := by
  rw [attempt, h]

theorem word_eq_some {w : String} {s s' : ReaderState} {u : Unit} (h : word w s = some (u, s')) :
    s = ⟨.word w :: s'.rest, s'.found⟩ := by
  unfold word at h
  rw [bind_apply, require_apply] at h
  match s with
  | ⟨[], found⟩ => cases h
  | ⟨t :: ts, found⟩ =>
    split at h
    · rename_i hw
      cases t with
      | word name =>
        cases h
        rw [beq_iff_eq.mp hw]
        rfl
      | _ => cases hw
    · cases h

theorem word?_eq_some {w : String} {s s' : ReaderState} {b : Bool} (h : word? w s = some (b, s')) :
    s' = s ∨ s = ⟨.word w :: s'.rest, s'.found⟩ := by
  unfold word? at h
  rw [bind_apply, look_apply, Option.bind_some] at h
  split at h
  · rename_i hw
    refine .inr (word_eq_some (u := ()) ?_)
    unfold word
    rw [bind_apply, require_apply, if_pos hw]
    cases h
    rfl
  · cases h
    exact .inl rfl

theorem op?_eq_some {w : String} {s s' : ReaderState} {b : Bool} (h : op? w s = some (b, s')) :
    b = Look.op w s.rest ∧ s' = if b then { s with rest := s.rest.drop w.length } else s := by
  unfold op? at h
  rw [bind_apply, look_apply, Option.bind_some] at h
  cases hw : Look.op w s.rest with
  | true =>
    rw [hw] at h
    cases h
    exact ⟨rfl, rfl⟩
  | false =>
    rw [hw] at h
    cases h
    exact ⟨rfl, rfl⟩

theorem within_apply (d : Delimiter) (p : Reader α) (body rest : List Token) (found : List Item) :
    within d p ⟨.group d body :: rest, found⟩ = (p ⟨body, found⟩).bind fun r =>
      if r.2.rest.isEmpty = true then some (r.1, ⟨rest, r.2.found⟩) else none := by
  unfold within
  simp only [if_true]
  cases p ⟨body, found⟩ <;> rfl

theorem within_eq_some_iff {d : Delimiter} {p : Reader α} {s s' : ReaderState} {a : α} :
    within d p s = some (a, s') ↔ ∃ body rest found, s.rest = .group d body :: rest ∧
      p ⟨body, s.found⟩ = some (a, ⟨[], found⟩) ∧ s' = ⟨rest, found⟩ := by
  unfold within
  constructor
  · intro h
    split at h
    · rename_i d' body rest hs
      split at h
      · rename_i hd
        split at h
        · rename_i b inside hp
          split at h
          · rename_i hempty
            cases h
            refine ⟨body, rest, inside.found, hd ▸ hs, ?_, rfl⟩
            rw [hp, ← List.isEmpty_iff.mp hempty]
          · cases h
        · cases h
      · cases h
    · cases h
  · intro h
    obtain ⟨body, rest, found, hs, hp, rfl⟩ := h
    simp [hs, hp]

namespace Extends
variable {s : ReaderState} {p q p' q' : Reader α} {f h : α → Reader β}

theorem refl (p : Reader α) : Extends .none s p p := by
  intro a s' hp
  rw [ReaderState.before_none, ReaderState.before_none]
  exact hp

theorem pure {a : α} : Extends tail s (Pure.pure a) (Pure.pure a) := by
  intro b s' hb
  cases hb
  rfl

theorem failure : Extends tail s failure q := by
  intro a s' ha
  cases ha

theorem failure_bind {f : α → Reader β} {q : Reader β} : Extends tail s (Alternative.failure >>= f) q := by
  intro a s' ha
  cases ha

theorem bind (hp : Extends tail s p q) (hf : ∀ a s', Extends tail s' (f a) (h a)) :
    Extends tail s (p >>= f) (q >>= h) := by
  intro b s'' hb
  obtain ⟨a, s', ha, hb⟩ := bind_eq_some_iff.mp hb
  exact bind_eq_some_iff.mpr ⟨a, _, hp a s' ha, hf a s' b s'' hb⟩

theorem iteIff {c c' : Prop} [Decidable c] [Decidable c'] (hc : c' ↔ c) (hp : c → Extends tail s p p')
    (hq : ¬c → Extends tail s q q') : Extends tail s (if c then p else q) (if c' then p' else q') := by
  by_cases h : c
  · rw [if_pos h, if_pos (hc.mpr h)]
    exact hp h
  · rw [if_neg h, if_neg (h ∘ hc.mp)]
    exact hq h

theorem ite {c : Prop} [Decidable c] (hp : c → Extends tail s p p') (hq : ¬c → Extends tail s q q') :
    Extends tail s (if c then p else q) (if c then p' else q') :=
  .iteIff Iff.rfl hp hq

/-- After a look the state is the same. -/
theorem look {l : Look} {f h : Bool → Reader β} (hl : l (s.rest ++ tail.tokens) = l s.rest)
    (hf : Extends tail s (f (l s.rest)) (h (l s.rest))) :
    Extends tail s (Reader.look l >>= f) (Reader.look l >>= h) := by
  intro a s' ha
  change h (l (s.rest ++ tail.tokens)) (s.before tail) = _
  rw [hl]
  exact hf a s' ha

theorem get {f h : ReaderState → Reader β} (hf : Extends tail s (f s) (h (s.before tail))) :
    Extends tail s (MonadState.get >>= f) (MonadState.get >>= h) := hf

theorem require {l : Look} (hl : l s.rest = true → l (s.rest ++ tail.tokens) = true) :
    Extends tail s (Reader.require l) (Reader.require l) := by
  intro a s' ha
  rw [require_apply] at ha ⊢
  by_cases hs : l s.rest = true
  · rw [if_pos hs] at ha
    cases ha
    exact if_pos (hl hs)
  · rw [if_neg hs] at ha
    cases ha

/-- What is required holds of the tokens after it. -/
theorem require_bind {l : Look} {f h : Unit → Reader β}
    (hl : l s.rest = true → l (s.rest ++ tail.tokens) = true)
    (hf : l s.rest = true → Extends tail s (f ()) (h ())) :
    Extends tail s (Reader.require l >>= f) (Reader.require l >>= h) := by
  intro a s' ha
  rw [bind_apply, require_apply] at ha ⊢
  by_cases hs : l s.rest = true
  · rw [if_pos hs] at ha
    rw [ReaderState.rest_before, if_pos (hl hs)]
    exact hf hs a s' ha
  · rw [if_neg hs] at ha
    cases ha

theorem skip {n : Nat} (hn : n ≤ s.rest.length) : Extends tail s (Reader.skip n) (Reader.skip n) := by
  intro a s' ha
  rw [skip_apply] at ha ⊢
  cases ha
  rw [ReaderState.rest_before, List.drop_append_of_le_length hn]
  rfl

/-! ## Single tokens -/

theorem op (w : String) : Extends tail s (Reader.op w) (Reader.op w) :=
  .require_bind (Look.opChars_append_of _) fun h => .skip (Look.length_le_of_op h)

theorem op? {w : String} (hw : w.toList ≠ [] ∧ ',' ∉ w.toList) :
    Extends tail s (Reader.op? w) (Reader.op? w) :=
  .look (Look.op_append hw.1 hw.2) (.ite (fun h => .bind (.skip (Look.length_le_of_op h)) fun _ _ => .pure)
    fun _ => .pure)

theorem word (w : String) : Extends tail s (Reader.word w) (Reader.word w) :=
  .require_bind (by simp) fun h => .skip (Look.one_le_length (by simp) h)

theorem word? (w : String) : Extends tail s (Reader.word? w) (Reader.word? w) :=
  .look (by simp) (.ite (fun h => .bind (.skip (Look.one_le_length (by simp) h)) fun _ _ => .pure)
    fun _ => .pure)

theorem anyWord : Extends tail s Reader.anyWord Reader.anyWord := by
  intro a s' ha
  match s with
  | ⟨.word name :: ts, found⟩ =>
    cases ha
    rfl

theorem ident : Extends tail s Reader.ident Reader.ident :=
  .require_bind (by simp) fun _ => .anyWord

theorem lifetime : Extends tail s Reader.lifetime Reader.lifetime :=
  .require_bind (by simp) fun h => .skip (Look.one_le_length (by simp) h)

theorem literal : Extends tail s Reader.literal Reader.literal := by
  refine .require_bind (by simp) fun h => .look (by simp) (.skip ?_)
  split
  · rename_i hop
    exact Look.two_le_length_of_literal h hop
  · exact Look.one_le_length (by simp) h

theorem anyGroup : Extends tail s Reader.anyGroup Reader.anyGroup := by
  intro a s' ha
  match s with
  | ⟨.group d body :: ts, found⟩ =>
    cases ha
    rfl

/-! ## Groups -/

/-- The tokens of a group end with it, whatever stands behind it. -/
theorem within {d : Delimiter} (hp : ∀ s, Extends .none s p q) :
    Extends tail s (Reader.within d p) (Reader.within d q) := by
  intro a s' ha
  obtain ⟨body, ts, found, hs, hbody, rfl⟩ := within_eq_some_iff.mp ha
  have hq := hp ⟨body, s.found⟩ a ⟨[], found⟩ hbody
  rw [ReaderState.before_none, ReaderState.before_none] at hq
  exact within_eq_some_iff.mpr ⟨body, ts ++ tail.tokens, found, by rw [ReaderState.rest_before, hs]; rfl, hq, rfl⟩

/-! ## Results and items -/

theorem map {f : α → β} (hp : Extends tail s p q) : Extends tail s (f <$> p) (f <$> q) := by
  rw [map_eq_pure_bind, map_eq_pure_bind]
  exact .bind hp fun _ _ => .pure

theorem discard (hp : Extends tail s p q) : Extends tail s (discard p) (discard q) := .map hp

theorem note (i : Item) : Extends tail s (Reader.note i) (Reader.note i) := by
  intro a s' ha
  cases ha
  rfl

theorem noteAll (items : List Item) : Extends tail s (Reader.noteAll items) (Reader.noteAll items) := by
  intro a s' ha
  cases ha
  rfl

theorem keepingIf {p q : Reader Bool} (hp : Extends tail s p q) :
    Extends tail s (Reader.keepingIf p) (Reader.keepingIf q) := by
  intro a s' ha
  obtain ⟨⟨b, t⟩, hpt, hb⟩ := Option.map_eq_some_iff.mp ha
  refine Option.map_eq_some_iff.mpr ⟨_, hp b t hpt, ?_⟩
  cases hb
  cases b <;> rfl

theorem collecting (hp : Extends tail { s with found := [] } p q) :
    Extends tail s (Reader.collecting p) (Reader.collecting q) := by
  intro a s' ha
  obtain ⟨⟨b, t⟩, hpt, hb⟩ := Option.map_eq_some_iff.mp ha
  refine Option.map_eq_some_iff.mpr ⟨_, hp b t hpt, ?_⟩
  cases hb
  rfl

theorem aside (hp : Extends tail { s with found := [] } p q) : Extends tail s (Reader.aside p) (Reader.aside q) :=
  .bind (.collecting hp) fun _ _ => .ite (fun _ => .bind (.note _) fun _ _ => .pure) fun _ => .pure

/-! ## Repetition -/

theorem repeatAux {p q : Reader (Step α)} (hp : ∀ s, Extends tail s p q) {n m : Nat} (hnm : n ≤ m) :
    Extends tail s (Reader.repeatAux p n) (Reader.repeatAux q m) := by
  induction n generalizing m s with
  | zero => exact .failure
  | succ n ih =>
    obtain ⟨m, rfl⟩ := Nat.exists_eq_add_of_le' hnm
    refine .bind (hp s) fun a s' => ?_
    cases a with
    | done => exact .pure
    | last a => exact .pure
    | next a => exact .bind (ih (Nat.le_of_succ_le_succ hnm)) fun _ _ => .pure

theorem repeated {p q : Reader (Step α)} (hp : ∀ s, Extends tail s p q) :
    Extends tail s (Reader.repeated p) (Reader.repeated q) :=
  .get (.repeatAux hp (by simp [ReaderState.before]))

theorem iterateAux {f h : α → Reader (Option α)} (hf : ∀ a s, Extends tail s (f a) (h a)) {n m : Nat}
    (hnm : n ≤ m) {a : α} : Extends tail s (Reader.iterateAux f n a) (Reader.iterateAux h m a) := by
  induction n generalizing m s a with
  | zero => exact .failure
  | succ n ih =>
    obtain ⟨m, rfl⟩ := Nat.exists_eq_add_of_le' hnm
    refine .bind (hf a s) fun b s' => ?_
    cases b with
    | none => exact .pure
    | some b => exact ih (Nat.le_of_succ_le_succ hnm)

theorem iterate {f h : α → Reader (Option α)} (hf : ∀ a s, Extends tail s (f a) (h a)) {a : α} :
    Extends tail s (Reader.iterate f a) (Reader.iterate h a) :=
  .get (.iterateAux hf (by simp [ReaderState.before]))

theorem many {start : Look} (hstart : ∀ ts, start (ts ++ tail.tokens) = start ts)
    (hp : ∀ s, Extends tail s p q) : Extends tail s (Reader.many start p) (Reader.many start q) :=
  .repeated fun s => .look (hstart s.rest) (.ite (fun _ => .bind (hp s) fun _ _ => .pure) fun _ => .pure)

theorem separated {separator : String} {stop : Look} (hstop : ∀ ts, stop (ts ++ tail.tokens) = stop ts)
    (hp : ∀ s, Extends tail s p q) :
    Extends tail s (Reader.separated separator stop p) (Reader.separated separator stop q) := by
  refine .repeated fun s => .look (hstop s.rest) (.ite (fun _ => .pure) fun _ => ?_)
  refine .bind (hp s) fun a s' => .look (hstop s'.rest) (.ite (fun _ => .pure) fun _ => ?_)
  exact .bind (.op separator) fun _ _ => .pure

theorem terminated {separator : String} (hp : ∀ s, Extends .none s p q) :
    Extends .none s (Reader.terminated separator p) (Reader.terminated separator q) :=
  .separated (by simp) hp

/-- A stop that is seen in the tail, but not where nothing is left, is in the place of something that cannot
be read. -/
theorem joined {separator : String}
    (hseparator : ∀ s, Extends tail s (Reader.op? separator) (Reader.op? separator)) {stop : Look}
    (hstop : ∀ ts, stop ts = true → stop (ts ++ tail.tokens) = true)
    (hread : ∀ s r, p s = some r → stop (s.rest ++ tail.tokens) = stop s.rest)
    (hp : ∀ s, Extends tail s p q) :
    Extends tail s (Reader.joined separator stop p) (Reader.joined separator stop q) := by
  have hlast : ∀ (a : α) s, Extends tail s (Reader.op? separator >>= fun b =>
        if b = true then Pure.pure (Step.next a) else Pure.pure (Step.last a))
      (Reader.op? separator >>= fun b => if b = true then Pure.pure (Step.next a) else Pure.pure (Step.last a)) :=
    fun a s => .bind (hseparator s) fun _ _ => .ite (fun _ => .pure) fun _ => .pure
  refine .repeated fun s => ?_
  by_cases hs : stop s.rest = true
  · refine .look ((hstop _ hs).trans hs.symm) ?_
    rw [hs]
    exact .pure
  · cases hr : p s with
    | none =>
      intro a s' ha
      rw [bind_apply, look_apply, Option.bind_some, if_neg hs, bind_apply, hr] at ha
      cases ha
    | some r => exact .look (hread s r hr) (.ite (fun _ => .pure) fun _ => .bind (hp s) fun a s' => hlast a s')

end Extends
end Reader

/-! ## Grammars -/

/-- What the first grammar reads, the second reads. What can stand before a comma is read there in the same
way; statements, items and imports go on to the end of a group or to a semicolon. -/
structure Grammar.Extends (g g' : Grammar) : Prop where
  path_nil (exprStyle : Bool) (found : List Item) : g.path exprStyle ⟨[], found⟩ = none
  path {tail s} (exprStyle : Bool) : Reader.Extends tail s (g.path exprStyle) (g'.path exprStyle)
  parameter {tail s} : Reader.Extends tail s g.parameter g'.parameter
  type_point (plus joint : Bool) (ts : List Token) (found : List Item) :
    g'.type plus ⟨.punct '.' joint :: ts, found⟩ = none
  type_colon (plus joint : Bool) (name : String) (ts : List Token) (found : List Item) :
    g'.type plus ⟨.punct ':' joint :: .word name :: ts, found⟩ = none
  type {tail s} (plus : Bool) : Reader.Extends tail s (g.type plus) (g'.type plus)
  expr {tail s} (structs : Bool) : Reader.Extends tail s (g.expr structs) (g'.expr structs)
  unary {tail s} (structs : Bool) : Reader.Extends tail s (g.unary structs) (g'.unary structs)
  binary {tail s} (lhs : Expr) (structs : Bool) (base : Precedence) :
    Reader.Extends tail s (g.binary lhs structs base) (g'.binary lhs structs base)
  statementExpr {s} : Reader.Extends .none s g.statementExpr g'.statementExpr
  /-- Where a colon and a type follow, `self` is a pattern that ends there. -/
  pattern_self {before joint ts found r} (hbefore : before = [] ∨ before = [.word "mut"])
    (hts : ∀ joint name us, ts ≠ .punct ':' joint :: .word name :: us)
    (h : g.pattern ⟨before ++ .word "self" :: .punct ':' joint :: ts, found⟩ = some r) :
    r.2 = ⟨.punct ':' joint :: ts, found⟩
  pattern {tail s} : Reader.Extends tail s g.pattern g'.pattern
  statements {s} : Reader.Extends .none s g.statements g'.statements
  item {s} (attributes : List Attribute × List Item) : Reader.Extends .none s (g.item attributes) (g'.item attributes)
  useTree {s} (crateRoot : Bool) : Reader.Extends .none s (g.useTree crateRoot) (g'.useTree crateRoot)

end ApiDocs.Source
