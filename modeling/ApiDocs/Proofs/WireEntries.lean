import ApiDocs.Proofs.Source.Extension.Depth
import ApiDocs.Source.WireName
import Mathlib.Data.List.Forall2
import Mathlib.Data.List.TakeWhile

/-!
# Marks from entries

What a list of attributes says of written data, read off their entries: `skip` is one of them, and the name
is the one that the last entry `rename` gives. What stands in another entry does not matter, unless there is
a list without entries in it: reading the attribute ends before such an entry.
-/

namespace ApiDocs.Source

open Reader

/-! ## Entries -/

/-- The key of an entry: words with `::` between them and perhaps before the first. -/
structure WireKey where
  leading : Bool := false
  first : String
  more : List String := []

def WireKey.word? (k : WireKey) : Option String := if !k.leading && k.more.isEmpty then some k.first else none

/-- An entry of an attribute: a key alone, a key with a value, or a key with a list of entries. -/
inductive WireEntry where
  | bare (key : WireKey)
  | value (key : WireKey) (tokens : List Token)
  | list (key : WireKey) (entries : List WireEntry)

namespace WireEntry

def key : WireEntry → WireKey
  | bare key | value key _ | list key _ => key

def isCalled (name : String) (e : WireEntry) : Bool := e.key.word? = some name

theorem isCalled_iff {name : String} {e : WireEntry} : e.isCalled name = true ↔ e.key.word? = some name :=
  decide_eq_true_iff

def text? : WireEntry → Option String
  | value _ [.literal (.text text)] => some text
  | _ => none

theorem exists_of_text? {e : WireEntry} (h : e.text?.isSome = true) :
    ∃ key text, e = value key [.literal (.text text)] := by
  unfold text? at h
  split at h
  · exact ⟨_, _, rfl⟩
  · cases h

def newName? (e : WireEntry) : Option String :=
  if e.isCalled "rename" then
    match e with
    | list _ es => ((es.filter (isCalled "serialize")).filterMap text?).getLast?
    | e => e.text?
  else none

mutual
/-- No list of entries in it is empty: reading such a list asks for a key. -/
def isFilled : WireEntry → Bool
  | list _ es => !es.isEmpty && areFilled es
  | _ => true
def areFilled : List WireEntry → Bool
  | [] => true
  | e :: es => e.isFilled && areFilled es
end

theorem areFilled_eq (es : List WireEntry) : areFilled es = es.all isFilled := by
  induction es with
  | nil => rfl
  | cons e es ih => rw [areFilled, ih, List.all_cons]

def isBare : WireEntry → Bool
  | bare _ => true
  | _ => false

/-- The entry has a text as its value, or every entry `serialize` in its list has. -/
def givesTexts : WireEntry → Bool
  | list _ es => es.all fun e => !e.isCalled "serialize" || e.text?.isSome
  | e => e.text?.isSome

/-- `skip` stands alone, and `rename` gives texts. -/
def IsProper (e : WireEntry) : Prop :=
  (e.isCalled "skip" = true → e.isBare = true) ∧ (e.isCalled "rename" = true → e.givesTexts = true)

instance (e : WireEntry) : Decidable e.IsProper := inferInstanceAs (Decidable (_ ∧ _))

end WireEntry

/-! ## Entries as tokens -/

@[simp] theorem Token.weights_append (ts us : List Token) :
    Token.weights (ts ++ us) = Token.weights ts + Token.weights us := by
  induction ts with
  | nil => simp [Token.weights]
  | cons t ts ih => simp [Token.weights, ih, Nat.add_assoc]

inductive SpelledWords : List String → List Token → Prop
  | nil : SpelledWords [] []
  | cons {name names joint ts} (h : SpelledWords names ts) :
    SpelledWords (name :: names) (.punct ':' true :: .punct ':' joint :: .word name :: ts)

inductive WireKey.Spelled : WireKey → List Token → Prop
  | plain {first more ts} (h : SpelledWords more ts) : Spelled ⟨false, first, more⟩ (.word first :: ts)
  | leading {first more ts} (h : SpelledWords (first :: more) ts) : Spelled ⟨true, first, more⟩ ts

/-- Entries with a comma between them and perhaps after the last; `spelled` says what stands after a key. -/
inductive SpelledEntries (spelled : WireEntry → List Token → Prop) : List WireEntry → List Token → Prop
  | nil : SpelledEntries spelled [] []
  | last {e ks ts} (hkey : e.key.Spelled ks) (hrest : spelled e ts) : SpelledEntries spelled [e] (ks ++ ts)
  | cons {e ks ts joint es us} (hkey : e.key.Spelled ks) (hrest : spelled e ts)
    (h : SpelledEntries spelled es us) : SpelledEntries spelled (e :: es) (ks ++ ts ++ .punct ',' joint :: us)

inductive WireEntry.SpelledRest : WireEntry → List Token → Prop
  | bare {key} : SpelledRest (.bare key) []
  | value {key joint ts} (h : IsExpression ts) : SpelledRest (.value key ts) (.punct '=' joint :: ts)
  | list {key es body} (h : SpelledEntries SpelledRest es body) : SpelledRest (.list key es) [.group .paren body]

/-- A key ends where the rest of its entry begins. -/
theorem WireEntry.SpelledRest.not_path {e : WireEntry} {ts : List Token} (h : e.SpelledRest ts) (tail : Tail) :
    Look.op "::" (ts ++ tail.tokens) = false := by
  cases h with
  | bare => cases tail <;> rfl
  | value => rfl
  | list => rfl

theorem WireKey.Spelled.ne_nil {k : WireKey} {ks : List Token} (h : k.Spelled ks) : ks ≠ [] := by
  cases h with
  | plain h => exact List.cons_ne_nil _ _
  | leading h =>
    cases h with
    | cons h => exact List.cons_ne_nil _ _

namespace SpelledEntries
variable {p q : WireEntry → List Token → Prop} {es : List WireEntry} {body : List Token}

theorem eq_nil_iff (h : SpelledEntries p es body) : es = [] ↔ body = [] := by
  cases h with
  | nil => simp
  | last hkey hrest => simp [hkey.ne_nil]
  | cons hkey hrest h => simp

/-- No entry has more tokens than the whole list. -/
theorem imp (h : SpelledEntries p es body)
    (hpq : ∀ e ∈ es, ∀ ts, Token.weights ts ≤ Token.weights body → p e ts → q e ts) :
    SpelledEntries q es body := by
  induction h with
  | nil => exact .nil
  | @last e ks ts hkey hrest =>
    exact .last hkey (hpq e (by simp) ts (by simp) hrest)
  | @cons e ks ts joint es us hkey hrest h ih =>
    refine .cons hkey (hpq e (by simp) ts (by simp; omega) hrest) (ih fun e he vs hvs => ?_)
    exact hpq e (by simp [he]) vs (by simp [Token.weights]; omega)

end SpelledEntries

/-! ## Reading a key -/

variable {α : Type}

theorem repeatAux_words {names : List String} {ts rest : List Token} (h : SpelledWords names ts)
    (hrest : Look.op "::" rest = false) {n : Nat} (hn : names.length < n) :
    repeatAux (do
      if ← look (Look.op "::") then return .next (← (op "::" >>= fun _ => anyWord))
      return .done) n ⟨ts ++ rest, []⟩ = some (names, ⟨rest, []⟩) := by
  induction h generalizing n with
  | nil =>
    obtain ⟨n, rfl⟩ := Nat.exists_eq_add_of_lt hn
    rw [List.nil_append, repeatAux, bind_apply, look_bind_apply, hrest]
    rfl
  | @cons name names joint ts h ih =>
    obtain ⟨n, rfl⟩ : ∃ m, n = m + 1 := ⟨n - 1, by omega⟩
    rw [repeatAux]
    refine (bind_apply_of (show _ = some (Step.next name, ReaderState.mk (ts ++ rest) []) from rfl) _).trans ?_
    refine (bind_apply_of (ih (by simpa using hn)) _).trans rfl

theorem many_words {names : List String} {ts rest : List Token} (h : SpelledWords names ts)
    (hrest : Look.op "::" rest = false) :
    many (Look.op "::") (do op "::"; anyWord) ⟨ts ++ rest, []⟩ = some (names, ⟨rest, []⟩) := by
  have hlength : names.length ≤ ts.length := by
    induction h with
    | nil => exact Nat.le_refl 0
    | cons h ih => simp only [List.length_cons]; omega
  have hfuel : names.length < (ts ++ rest).length + 1 := by rw [List.length_append]; omega
  exact repeatAux_words h hrest hfuel

namespace WireMarks

theorem entryKey_apply {k : WireKey} {ks rest : List Token} (h : k.Spelled ks)
    (hrest : Look.op "::" rest = false) : entryKey ⟨ks ++ rest, []⟩ = some (k.word?, ⟨rest, []⟩) := by
  unfold entryKey
  cases h with
  | plain h =>
    refine (bind_apply_of (a := false) rfl _).trans ?_
    refine (bind_apply_of rfl _).trans ?_
    exact bind_apply_of (many_words h hrest) _
  | leading h =>
    cases h with
    | cons h =>
      refine (bind_apply_of (a := true) rfl _).trans ?_
      refine (bind_apply_of rfl _).trans ?_
      exact bind_apply_of (many_words h hrest) _

/-! ## Reading entries -/

section
variable {f : Option String → Reader α} {out : WireEntry → α} {e : WireEntry} {es : List WireEntry}
  {ks ts body : List Token}

/-- The reader for what stands after the key reads the entry up to a comma, if the entry is filled. -/
def Reads (f : Option String → Reader α) (out : WireEntry → α) (e : WireEntry) (ts : List Token) : Prop :=
  ∀ tail : Tail, f e.key.word? ⟨ts ++ tail.tokens, []⟩ =
    if e.isFilled then some (out e, ⟨tail.tokens, []⟩) else none

theorem entryStep_apply (hkey : e.key.Spelled ks) (hrest : e.SpelledRest ts) (hf : Reads f out e ts) (tail : Tail) :
    entryStep f ⟨ks ++ (ts ++ tail.tokens), []⟩ =
      if e.isFilled then
        match tail with
        | .none => some (.last (out e), ⟨[], []⟩)
        | .comma _ rest => some (if rest.isEmpty then .last (out e) else .next (out e), ⟨rest, []⟩)
      else none := by
  unfold entryStep
  rw [bind_apply_of (entryKey_apply hkey (hrest.not_path tail)), bind_apply, hf tail]
  cases e.isFilled with
  | false => rfl
  | true =>
    cases tail with
    | none => rfl
    | comma joint rest => cases rest <;> rfl

theorem repeatAux_entryStep (h : SpelledEntries (fun e ts => e.SpelledRest ts ∧ Reads f out e ts) es body)
    (hes : es ≠ []) {n : Nat} (hn : body.length < n) :
    repeatAux (entryStep f) n ⟨body, []⟩ =
      if es.all WireEntry.isFilled then some (es.map out, ⟨[], []⟩) else none := by
  induction h generalizing n with
  | nil => exact absurd rfl hes
  | @last e ks ts hkey hrest =>
    obtain ⟨n, rfl⟩ : ∃ m, n = m + 1 := ⟨n - 1, by omega⟩
    have hstep := entryStep_apply hkey hrest.1 hrest.2 .none
    rw [Tail.tokens_none, List.append_nil] at hstep
    rw [repeatAux, bind_apply, hstep]
    cases hfilled : e.isFilled with
    | false => simp [hfilled]
    | true =>
      simp only [List.all_cons, hfilled, List.all_nil, Bool.and_self]
      rfl
  | @cons e ks ts joint es us hkey hrest h ih =>
    obtain ⟨n, rfl⟩ : ∃ m, n = m + 1 := ⟨n - 1, by omega⟩
    have hstep := entryStep_apply hkey hrest.1 hrest.2 (.comma joint us)
    rw [Tail.tokens, ← List.append_assoc] at hstep
    rw [repeatAux, bind_apply, hstep]
    cases hfilled : e.isFilled with
    | false => simp [hfilled]
    | true =>
      -- a comma may be the last token, and then there is no other step
      by_cases hmore : es = []
      · obtain rfl := h.eq_nil_iff.mp hmore
        simp only [hmore, List.all_cons, hfilled, List.all_nil, Bool.and_self]
        rfl
      · have hus : us ≠ [] := fun hus => hmore (h.eq_nil_iff.mpr hus)
        rw [List.all_cons, hfilled, Bool.true_and, if_pos rfl]
        simp only [List.isEmpty_eq_false_iff.mpr hus, Option.bind_some]
        change (repeatAux (entryStep f) n >>= fun as => pure (out e :: as)) ⟨us, []⟩ = _
        rw [bind_apply, ih hmore (by simp at hn; omega)]
        cases es.all WireEntry.isFilled <;> rfl

theorem entries_apply (h : SpelledEntries (fun e ts => e.SpelledRest ts ∧ Reads f out e ts) es body) :
    entries f ⟨body, []⟩ =
      if (!es.isEmpty && es.all WireEntry.isFilled) = true then some (es.map out, ⟨[], []⟩) else none := by
  by_cases hes : es = []
  · obtain rfl := h.eq_nil_iff.mp hes
    rw [hes]
    rfl
  · rw [List.isEmpty_eq_false_iff.mpr hes, Bool.not_false, Bool.true_and]
    exact repeatAux_entryStep h hes (Nat.lt_succ_self _)

end

theorem skipValue_reads {d depth : Nat} {e : WireEntry} {ts : List Token} (h : e.SpelledRest ts)
    (hd : 4 * Token.weights ts + 16 ≤ d) (hdepth : Token.weights ts < depth) :
    Reads (fun _ => skipValue (grammar d) depth) (fun _ => ()) e ts := by
  -- the depth goes down with every list, and so does what the entries in it weigh
  induction depth generalizing e ts with
  | zero => exact absurd hdepth (Nat.not_lt_zero _)
  | succ depth ih =>
    intro tail
    cases h with
    | bare => cases tail <;> rfl
    | @value key joint ts h =>
      obtain ⟨a, found, hread⟩ := h.read (d := d) (by simp only [Token.weights] at hd; omega) tail
      change forgetting (discard <| (grammar d).expr true) ⟨ts ++ tail.tokens, []⟩ = _
      rw [forgetting, discard_apply, hread]
      rfl
    | @list key es body h =>
      simp only [Token.weights, Token.weight, Nat.add_zero] at hd hdepth
      have hentries : entries (fun _ => skipValue (grammar d) depth) ⟨body, []⟩ =
          if (!es.isEmpty && es.all WireEntry.isFilled) = true then some (es.map fun _ => (), ⟨[], []⟩) else none :=
        entries_apply (h.imp fun e _ ts hts hrest => ⟨hrest, ih hrest (by omega) (by omega)⟩)
      change within .paren (discard <| entries fun _ => skipValue (grammar d) depth)
        ⟨.group .paren body :: tail.tokens, []⟩ = _
      rw [within_apply, discard_apply, hentries, WireEntry.isFilled, WireEntry.areFilled_eq]
      cases !es.isEmpty && es.all WireEntry.isFilled <;> rfl

/-! ## Reading names -/

/-- The name that an entry in a list after `rename` gives. -/
theorem serialized_reads {d depth : Nat} {e : WireEntry} {ts : List Token} (h : e.SpelledRest ts)
    (htext : e.isCalled "serialize" = true → e.text?.isSome = true)
    (hskip : Reads (fun _ => skipValue (grammar d) depth) (fun _ => ()) e ts) :
    Reads (fun key => do
        if key = some "serialize" then return some (← textValue)
        skipValue (grammar d) depth
        return none)
      (fun e => if e.isCalled "serialize" then e.text? else none) e ts := by
  intro tail
  by_cases hkey : e.key.word? = some "serialize"
  · obtain ⟨key, text, rfl⟩ := WireEntry.exists_of_text? (htext (WireEntry.isCalled_iff.mpr hkey))
    cases h with
    | value h =>
      simp only [hkey, if_true, WireEntry.isCalled_iff]
      rfl
  · simp only [hkey, if_false, WireEntry.isCalled_iff]
    have hread : skipValue (grammar d) depth ⟨ts ++ tail.tokens, []⟩ = _ := hskip tail
    rw [bind_apply, hread]
    cases e.isFilled <;> rfl

theorem renameValue_reads {d depth : Nat} {e : WireEntry} {ts : List Token} (h : e.SpelledRest ts) (he : e.IsProper)
    (hrename : e.isCalled "rename" = true) (hd : 4 * Token.weights ts + 16 ≤ d) (hdepth : Token.weights ts < depth) :
    Reads (fun _ => renameValue (grammar d) depth) WireEntry.newName? e ts := by
  intro tail
  simp only [WireEntry.newName?, hrename, if_true]
  have htexts := he.2 hrename
  cases h with
  | bare => cases htexts
  | value h =>
    obtain ⟨key, text, hvalue⟩ := WireEntry.exists_of_text? htexts
    cases hvalue
    rfl
  | @list key es body h =>
    replace htexts : ∀ e ∈ es, e.isCalled "serialize" = true → e.text?.isSome = true := by
      simpa [WireEntry.givesTexts, or_iff_not_imp_left] using htexts
    simp only [Token.weights, Token.weight, Nat.add_zero] at hd hdepth
    have hskip (e : WireEntry) (ts : List Token) (hts : Token.weights ts ≤ Token.weights body)
        (hrest : e.SpelledRest ts) : Reads (fun _ => skipValue (grammar d) depth) (fun _ => ()) e ts :=
      skipValue_reads hrest (by omega) (by omega)
    have hentries := entries_apply (h.imp fun e he ts hts hrest =>
      ⟨hrest, serialized_reads hrest (htexts e he) (hskip e ts hts hrest)⟩)
    have hnames : (es.map fun e => if e.isCalled "serialize" then e.text? else none).filterMap id =
        (es.filter (WireEntry.isCalled "serialize")).filterMap WireEntry.text? := by
      rw [List.filterMap_map, List.filterMap_filter]
      rfl
    unfold renameValue
    rw [look_bind_apply]
    change (within .paren (entries _) >>= _) ⟨.group .paren body :: tail.tokens, []⟩ = _
    rw [bind_apply, within_apply, hentries, WireEntry.isFilled, WireEntry.areFilled_eq]
    cases !es.isEmpty && es.all WireEntry.isFilled with
    | false => rfl
    | true => exact congrArg (fun names => some (names.getLast?, ReaderState.mk tail.tokens [])) hnames

/-! ## Marks -/

def ofEntries (es : List WireEntry) : WireMarks where
  rename := (es.filterMap WireEntry.newName?).getLast?
  skip := es.any (WireEntry.isCalled "skip")

def after (m : WireMarks) (es : List WireEntry) : WireMarks where
  rename := (ofEntries es).rename.or m.rename
  skip := m.skip || (ofEntries es).skip

@[simp] theorem after_nil (m : WireMarks) : m.after [] = m := by simp [after, ofEntries]

theorem after_append (m : WireMarks) (es fs : List WireEntry) : m.after (es ++ fs) = (m.after es).after fs := by
  simp [after, ofEntries, List.getLast?_append, Option.or_assoc, Bool.or_assoc]

theorem after_cons (m : WireMarks) (e : WireEntry) (es : List WireEntry) : m.after (e :: es) = (m.after [e]).after es :=
  after_append m [e] es

theorem after_singleton (m : WireMarks) (e : WireEntry) :
    m.after [e] = ⟨e.newName?.or m.rename, m.skip || e.isCalled "skip"⟩ := by
  cases h : e.newName? <;> simp [after, ofEntries, h]

theorem after_empty (es : List WireEntry) : after {} es = ofEntries es := by simp [after, ofEntries]

/-- One more entry is read up to a comma, if it is filled. -/
def Adds (g : Grammar) (depth : Nat) (e : WireEntry) (ts : List Token) : Prop :=
  ∀ (m : WireMarks) (ks : List Token) (tail : Tail), e.key.Spelled ks →
    addEntry g depth m ⟨ks ++ (ts ++ tail.tokens), []⟩ =
      if e.isFilled then some (m.after [e], ⟨tail.tokens, []⟩) else none

theorem addEntry_adds {d depth : Nat} {e : WireEntry} {ts : List Token} (h : e.SpelledRest ts) (he : e.IsProper)
    (hd : 4 * Token.weights ts + 16 ≤ d) (hdepth : Token.weights ts < depth) : Adds (grammar d) depth e ts := by
  intro m ks tail hkey
  unfold addEntry
  rw [bind_apply_of (entryKey_apply hkey (h.not_path tail)), after_singleton]
  by_cases hskip : e.key.word? = some "skip"
  · have hbare := he.1 (WireEntry.isCalled_iff.mpr hskip)
    have hnew : e.newName? = none := by simp [WireEntry.newName?, WireEntry.isCalled, hskip]
    rw [if_pos hskip, WireEntry.isCalled, hskip, hnew]
    cases h with
    | bare => simp [pure_apply, WireEntry.isFilled]
    | value => cases hbare
    | list => cases hbare
  · rw [if_neg hskip]
    by_cases hrename : e.key.word? = some "rename"
    · have hread : renameValue (grammar d) depth ⟨ts ++ tail.tokens, []⟩ = _ :=
        renameValue_reads h he (WireEntry.isCalled_iff.mpr hrename) hd hdepth tail
      rw [if_pos hrename, bind_apply, hread, WireEntry.isCalled, hrename]
      cases e.isFilled with
      | false => rfl
      | true => simp [pure_apply]
    · have hread : skipValue (grammar d) depth ⟨ts ++ tail.tokens, []⟩ = _ := skipValue_reads h hd hdepth tail
      have hnew : e.newName? = none := by simp [WireEntry.newName?, WireEntry.isCalled, hrename]
      rw [if_neg hrename, bind_apply, hread, WireEntry.isCalled, hnew]
      cases e.isFilled with
      | false => rfl
      | true => simp [hskip, pure_apply]

theorem addEntries_apply {g : Grammar} {depth fuel : Nat} {es : List WireEntry} {ts : List Token}
    (h : SpelledEntries (Adds g depth) es ts) (hfuel : ts.length < fuel) (m : WireMarks) :
    addEntries g depth fuel m ts = m.after (es.takeWhile WireEntry.isFilled) := by
  induction h generalizing fuel m with
  | nil =>
    cases fuel with
    | zero => exact (after_nil m).symm
    | succ fuel => exact (after_nil m).symm
  | @last e ks ts hkey hrest =>
    obtain ⟨fuel, rfl⟩ : ∃ n, fuel = n + 1 := ⟨fuel - 1, by omega⟩
    have hadd := hrest m ks .none hkey
    rw [Tail.tokens_none, List.append_nil] at hadd
    rw [addEntries, hadd]
    cases hfilled : e.isFilled with
    | false => simp [hfilled]
    | true => simp [hfilled]
  | @cons e ks ts joint es us hkey hrest h ih =>
    obtain ⟨fuel, rfl⟩ : ∃ n, fuel = n + 1 := ⟨fuel - 1, by omega⟩
    have hus : us.length < fuel := by simp at hfuel; omega
    have hadd := hrest m ks (.comma joint us) hkey
    rw [Tail.tokens, ← List.append_assoc] at hadd
    rw [addEntries, hadd]
    cases hfilled : e.isFilled with
    | false => simp [hfilled]
    | true =>
      rw [List.takeWhile_cons_of_pos hfilled, after_cons m e (es.takeWhile WireEntry.isFilled)]
      simp only [if_true, List.isEmpty_iff]
      split
      · rename_i hempty
        obtain rfl := h.eq_nil_iff.mpr hempty
        rw [List.takeWhile_nil, after_nil]
      · exact ih hus _

end WireMarks

/-! ## Attributes -/

inductive Attribute.HasEntries : Attribute → List WireEntry → Prop
  | serde {a ts es} (hname : a.name = some "serde") (hbody : a.body = .list ts)
    (h : SpelledEntries WireEntry.SpelledRest es ts) (hproper : ∀ e ∈ es, e.IsProper) : HasEntries a es
  | other {a} (hname : a.name ≠ some "serde") : HasEntries a []

namespace WireMarks

theorem addAttribute_of_hasEntries {a : Attribute} {es : List WireEntry} (h : a.HasEntries es) (m : WireMarks) :
    m.addAttribute a = m.after (es.takeWhile WireEntry.isFilled) := by
  unfold addAttribute
  cases h with
  | @serde ts es hname hbody h hproper =>
    simp only [hbody, hname, true_and]
    split
    · refine addEntries_apply (h.imp fun e he us hus hrest => ?_) (Nat.lt_succ_self _) m
      exact addEntry_adds hrest (hproper e he) (by omega) (Nat.lt_succ_of_le hus)
    · rename_i hempty
      obtain rfl := h.eq_nil_iff.mpr (by simpa using hempty)
      rw [List.takeWhile_nil, after_nil]
  | other hname =>
    rw [List.takeWhile_nil, after_nil]
    split
    · exact if_neg fun hserde => hname hserde.1
    · rfl

theorem foldl_addAttribute {attributes : List Attribute} {lists : List (List WireEntry)}
    (h : List.Forall₂ Attribute.HasEntries attributes lists) (m : WireMarks) :
    attributes.foldl addAttribute m = m.after (lists.flatMap (·.takeWhile WireEntry.isFilled)) := by
  induction h generalizing m with
  | nil => exact (after_nil m).symm
  | cons ha h ih =>
    rw [List.foldl_cons, addAttribute_of_hasEntries ha, ih, List.flatMap_cons, after_append]

/-- The entries that count are those before the first one, in each attribute, that is not filled. -/
theorem ofAttributes_of_entries {attributes : List Attribute} {lists : List (List WireEntry)}
    (h : List.Forall₂ Attribute.HasEntries attributes lists) :
    ofAttributes attributes = ofEntries (lists.flatMap (·.takeWhile WireEntry.isFilled)) ∧
    ((∀ es ∈ lists, es.all WireEntry.isFilled = true) → ofAttributes attributes = ofEntries lists.flatten) := by
  have hread : ofAttributes attributes = ofEntries (lists.flatMap (·.takeWhile WireEntry.isFilled)) :=
    (foldl_addAttribute h {}).trans (after_empty _)
  refine ⟨hread, fun hfilled => ?_⟩
  have htake : ∀ es ∈ lists, es.takeWhile WireEntry.isFilled = es := fun es hes =>
    List.takeWhile_eq_self_iff.mpr (List.all_eq_true.mp (hfilled es hes))
  rw [hread, List.flatMap_congr htake, List.flatMap_id']

end WireMarks

/-- `with = f(skip, 1)?, rename = "total", bound(skip, rename = "n"), rename(deserialize = "n"),` -/
def totalAttribute : Attribute where
  inner := false
  name := some "serde"
  body := .list [
    .word "with", .punct '=' false, .word "f",
    .group .paren [.word "skip", .punct ',' false, .literal (.integer "1")], .punct '?' false, .punct ',' false,
    .word "rename", .punct '=' false, .literal (.text "total"), .punct ',' false,
    .word "bound",
    .group .paren [.word "skip", .punct ',' false, .word "rename", .punct '=' false, .literal (.text "n")],
    .punct ',' false,
    .word "rename", .group .paren [.word "deserialize", .punct '=' false, .literal (.text "n")], .punct ',' false]

def totalEntries : List WireEntry := [
  .value { first := "with" }
    [.word "f", .group .paren [.word "skip", .punct ',' false, .literal (.integer "1")], .punct '?' false],
  .value { first := "rename" } [.literal (.text "total")],
  .list { first := "bound" } [.bare { first := "skip" }, .value { first := "rename" } [.literal (.text "n")]],
  .list { first := "rename" } [.value { first := "deserialize" } [.literal (.text "n")]]]

open WireEntry in
theorem totalAttribute_hasEntries : totalAttribute.HasEntries totalEntries := by
  have htext (text : String) : IsExpression [.literal (.text text)] := rfl
  have hbound : SpelledEntries SpelledRest
      [.bare { first := "skip" }, .value { first := "rename" } [.literal (.text "n")]]
      [.word "skip", .punct ',' false, .word "rename", .punct '=' false, .literal (.text "n")] :=
    .cons (e := bare { first := "skip" }) (.plain .nil) SpelledRest.bare <|
      .last (e := value { first := "rename" } _) (.plain .nil) (SpelledRest.value (htext "n"))
  have hrename : SpelledEntries SpelledRest [.value { first := "deserialize" } [.literal (.text "n")]]
      [.word "deserialize", .punct '=' false, .literal (.text "n")] :=
    .last (e := value { first := "deserialize" } _) (.plain .nil) (SpelledRest.value (htext "n"))
  have hwith : IsExpression
      [.word "f", .group .paren [.word "skip", .punct ',' false, .literal (.integer "1")], .punct '?' false] := rfl
  refine .serde rfl rfl ?_ (by decide)
  exact .cons (e := value { first := "with" } _) (.plain .nil) (SpelledRest.value hwith) <|
    .cons (e := value { first := "rename" } _) (.plain .nil) (SpelledRest.value (htext "total")) <|
    .cons (e := list { first := "bound" } _) (.plain .nil) (SpelledRest.list hbound) <|
    .cons (e := list { first := "rename" } _) (.plain .nil) (SpelledRest.list hrename) .nil

namespace WireMarks

def skipComment : Attribute := ⟨false, some "doc", .text "skip"⟩

theorem ofAttributes_of_entries_total :
    List.Forall₂ Attribute.HasEntries [skipComment, totalAttribute] [[], totalEntries] ∧
    (∀ es ∈ [[], totalEntries], es.all WireEntry.isFilled = true) ∧
    ofAttributes [skipComment, totalAttribute] = { rename := some "total", skip := false } := by
  have h : List.Forall₂ Attribute.HasEntries [skipComment, totalAttribute] [[], totalEntries] :=
    .cons (.other (by decide)) (.cons totalAttribute_hasEntries .nil)
  have hfilled : ∀ es ∈ [[], totalEntries], es.all WireEntry.isFilled = true := by decide
  exact ⟨h, hfilled, ((ofAttributes_of_entries h).2 hfilled).trans (by decide)⟩

/-- In `bound(), skip` the second entry is not read. -/
theorem skip_after_empty_list :
    let a : Attribute :=
      ⟨false, some "serde", .list [.word "bound", .group .paren [], .punct ',' false, .word "skip"]⟩
    let es : List WireEntry := [.list { first := "bound" } [], .bare { first := "skip" }]
    a.HasEntries es ∧ (ofEntries es).skip = true ∧ (ofAttributes [a]).skip = false := by
  intro a es
  refine ⟨.serde rfl rfl ?_ (by decide), by decide, by decide⟩
  exact .cons (e := .list { first := "bound" } []) (.plain .nil) (WireEntry.SpelledRest.list .nil)
    (.last (e := .bare { first := "skip" }) (.plain .nil) WireEntry.SpelledRest.bare)

end WireMarks
end ApiDocs.Source
