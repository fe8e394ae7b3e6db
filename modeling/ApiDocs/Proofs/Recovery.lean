import ApiDocs.Format
import ApiDocs.Proofs.Reading
import ApiDocs.Yaml.Read

/-!
# Recovered trees

Text recovers a tree when what is read from it is that tree, node by node: mappings and sequences with
the same entries, scalars that stand for the same texts, truth values and integers, and no tags and
aliases. The node of such a text holds the tree.
-/

namespace ApiDocs.Yaml

namespace Node

def scalar? : Node → Option Datum
  | .scalar style none text => Value.settleScalar? style none text
  | _ => none

mutual
/-- The node is the tree. -/
def shows (n : Node) : Tree → Bool
  | .text s => n.scalar?.bind Readable.text? == some s
  | .flag b => n.scalar?.bind Readable.flag? == some b
  | .number k => n.scalar?.bind Readable.integer? == some k
  | .list ts => match n with
    | .sequence none items => showsItems items ts
    | _ => false
  | .object fs => match n with
    | .mapping none entries => showsFields entries fs
    | _ => false
def showsItems (items : List Node) : List Tree → Bool
  | [] => items.isEmpty
  | t :: ts => match items with
    | n :: items => n.shows t && showsItems items ts
    | [] => false
def showsFields (entries : List (Node × Node)) : List (String × Tree) → Bool
  | [] => entries.isEmpty
  | (k, t) :: fs => match entries with
    | (j, n) :: entries => j.scalar?.bind Readable.text? == some k && n.shows t && showsFields entries fs
    | [] => false
end

end Node

def Recovers (text : String) (t : Tree) : Prop := ∃ v, read? text = some v ∧ v.node.shows t = true

/-! ## Scalars -/

/-- Everything that a plain scalar can stand for. -/
theorem resolve?_cases {s : String} {d : Datum} (h : resolve? s = some d) :
    d = .null ∨ Value.isNothing s = false ∧
      (d = .text s ∨ d = .real ∨ (∃ b, d = .flag b ∧ flag? s = some b) ∨
        ∃ n, d = .integer n ∧ integerChars? s.toList = some n ∧ Word.Fits 64 n) := by
  unfold resolve? at h
  split at h
  · exact .inl (Option.some.inj h).symm
  · rename_i hnull
    refine .inr ⟨by simpa [Value.isNothing] using hnull, ?_⟩
    split at h
    · rename_i b hb
      exact .inr (.inr (.inl ⟨b, (Option.some.inj h).symm, hb⟩))
    · split at h
      · rename_i n hn
        split at h
        · rename_i hfits
          exact .inr (.inr (.inr ⟨n, (Option.some.inj h).symm, hn, hfits⟩))
        · split at h
          · cases h
          · split at h
            · exact .inr (.inl (Option.some.inj h).symm)
            · exact .inl (Option.some.inj h).symm
      · split at h
        · exact .inr (.inl (Option.some.inj h).symm)
        · exact .inl (Option.some.inj h).symm

namespace Value
variable (anchors : Anchors) (depth : Nat)

-- `settle?` takes its depth apart only after its node, so its equations are proved by unfolding.

theorem settle?_scalar (style : ScalarStyle) (tag : Option String) (text : String) :
    settle? anchors depth (.scalar style tag text) = settleScalar? style tag text := by
  cases depth <;> (delta settle?; rfl)

theorem settle?_sequence (items : List Node) :
    settle? anchors (depth + 1) (.sequence none items) =
      (items.mapM (settle? anchors depth)).map .list := by
  delta settle?
  rfl

def settlePair? (e : Node × Node) : Option (Datum × Datum) := do
  some (← settle? anchors depth e.1, ← settle? anchors depth e.2)

theorem settle?_mapping (entries : List (Node × Node)) :
    settle? anchors (depth + 1) (.mapping none entries) =
      (entries.mapM (settlePair? anchors depth)).map .mapping := by
  delta settlePair? settle?
  rfl

end Value

namespace Node

theorem scalar?_cases {n : Node} {d : Datum} (h : n.scalar? = some d) :
    ∃ style text, n = .scalar style none text ∧ Value.settleScalar? style none text = some d ∧
      (d = .text text ∧ style ≠ .plain ∨ style = .plain ∧ resolve? text = some d) := by
  obtain ⟨style, tag, text⟩ | _ | _ | _ := n
  · cases tag with
    | some tag => cases h
    | none =>
      refine ⟨style, text, rfl, h, ?_⟩
      simp only [scalar?, Value.settleScalar?] at h
      split at h
      · exact .inr ⟨‹_›, h⟩
      · exact .inl ⟨(Option.some.inj h).symm, ‹_›⟩
  all_goals cases h

variable {n : Node} {anchors : Anchors}

theorem text_of_scalar? {s : String} (h : n.scalar?.bind Readable.text? = some s) :
    n.scalar? = some (.text s) := by
  obtain ⟨d, hd, hs⟩ := Option.bind_eq_some_iff.mp h
  cases d <;> cases hs
  exact hd

theorem flag_of_scalar? {b : Bool} (h : n.scalar?.bind Readable.flag? = some b) :
    n.scalar? = some (.flag b) := by
  obtain ⟨d, hd, hs⟩ := Option.bind_eq_some_iff.mp h
  cases d <;> cases hs
  exact hd

theorem integer_of_scalar? {k : Int} (h : n.scalar?.bind Readable.integer? = some k) :
    n.scalar? = some (.integer k) := by
  obtain ⟨d, hd, hs⟩ := Option.bind_eq_some_iff.mp h
  cases d <;> cases hs
  exact hd

theorem settle?_of_scalar? {d : Datum} (h : n.scalar? = some d) (depth : Nat) :
    Value.settle? anchors depth n = some d := by
  obtain ⟨style, text, rfl, hd, _⟩ := scalar?_cases h
  rw [Value.settle?_scalar, hd]

theorem isNull?_of_scalar? {d : Datum} (h : n.scalar? = some d) (hd : d ≠ .null) :
    Readable.isNull? (⟨anchors, n⟩ : Value) = some false := by
  obtain ⟨style, text, rfl, -, ⟨_, hstyle⟩ | ⟨rfl, hr⟩⟩ := scalar?_cases h
  · cases style <;> first | rfl | exact absurd rfl hstyle
  · obtain h0 | ⟨h0, _⟩ := resolve?_cases hr
    · exact absurd h0 hd
    · simp [Readable.isNull?, Value.isNull?, Value.target?, h0]

theorem text?_of_scalar? {s : String} (h : n.scalar? = some (.text s)) :
    Value.text? ⟨anchors, n⟩ = some s := by
  obtain ⟨style, text, rfl, -, ⟨he, _⟩ | ⟨rfl, hr⟩⟩ := scalar?_cases h
  · cases he
    rfl
  · have hs : s = text := by
      rcases resolve?_cases hr with h0 | ⟨_, h0 | h0 | ⟨b, h0, _⟩ | ⟨k, h0, _⟩⟩ <;> cases h0
      rfl
    rw [hs]
    rfl

theorem flag?_of_scalar? {b : Bool} (h : n.scalar? = some (.flag b)) :
    Readable.flag? (⟨anchors, n⟩ : Value) = some b := by
  obtain ⟨style, text, rfl, -, ⟨he, _⟩ | ⟨rfl, hr⟩⟩ := scalar?_cases h
  · cases he
  · rcases resolve?_cases hr with h0 | ⟨_, h0 | h0 | ⟨b, h0, hb⟩ | ⟨k, h0, _⟩⟩ <;> cases h0
    exact hb

theorem integer_cases {k : Int} (h : n.scalar? = some (.integer k)) :
    ∃ text, n = .scalar .plain none text ∧ integerChars? text.toList = some k ∧ Word.Fits 64 k := by
  obtain ⟨style, text, rfl, -, ⟨he, _⟩ | ⟨rfl, hr⟩⟩ := scalar?_cases h
  · cases he
  · rcases resolve?_cases hr with h0 | ⟨_, h0 | h0 | ⟨b, h0, _⟩ | ⟨k, h0, hk⟩⟩ <;> cases h0
    exact ⟨text, rfl, hk⟩

theorem integer?_of_scalar? {k : Int} (h : n.scalar? = some (.integer k)) :
    Readable.integer? (⟨anchors, n⟩ : Value) = some k := by
  obtain ⟨text, rfl, hk, _⟩ := integer_cases h
  exact hk

theorem fits_of_scalar? {k : Int} (h : n.scalar? = some (.integer k)) : Word.Fits 64 k := by
  obtain ⟨_, _, _, hfits⟩ := integer_cases h
  exact hfits

end Node

/-! ## Trees -/

namespace Node

theorem shows_list {n : Node} {ts : List Tree} (h : n.shows (.list ts) = true) :
    ∃ items, n = .sequence none items ∧ showsItems items ts = true := by
  rw [shows.eq_def] at h
  obtain _ | ⟨_ | _, items⟩ | _ | _ := n
  case sequence.none => exact ⟨items, rfl, h⟩
  all_goals cases h

theorem shows_object {n : Node} {fs : List (String × Tree)} (h : n.shows (.object fs) = true) :
    ∃ entries, n = .mapping none entries ∧ showsFields entries fs = true := by
  rw [shows.eq_def] at h
  obtain _ | _ | ⟨_ | _, entries⟩ | _ := n
  case mapping.none => exact ⟨entries, rfl, h⟩
  all_goals cases h

theorem showsItems_cons {items : List Node} {t : Tree} {ts : List Tree}
    (h : showsItems items (t :: ts) = true) :
    ∃ n rest, items = n :: rest ∧ n.shows t = true ∧ showsItems rest ts = true := by
  cases items with
  | nil => cases h
  | cons n rest =>
    rw [showsItems, Bool.and_eq_true] at h
    exact ⟨n, rest, rfl, h⟩

theorem showsFields_cons {entries : List (Node × Node)} {k : String} {t : Tree} {fs : List (String × Tree)}
    (h : showsFields entries ((k, t) :: fs) = true) :
    ∃ j n rest, entries = (j, n) :: rest ∧ j.scalar? = some (.text k) ∧ n.shows t = true ∧
      showsFields rest fs = true := by
  cases entries with
  | nil => cases h
  | cons e rest =>
    rw [showsFields, Bool.and_eq_true, Bool.and_eq_true, beq_iff_eq] at h
    exact ⟨e.1, e.2, rest, rfl, text_of_scalar? h.1.1, h.1.2, h.2⟩

end Node

section
variable (anchors : Anchors)

mutual
theorem settle?_of_shows : ∀ {t : Tree} {n : Node} {depth : Nat}, n.shows t = true →
    t.datum.depth ≤ depth → Value.settle? anchors depth n = some t.datum
  | .text s, n, depth, h, _ => by
    rw [Node.shows, beq_iff_eq] at h
    exact Node.settle?_of_scalar? (Node.text_of_scalar? h) depth
  | .flag b, n, depth, h, _ => by
    rw [Node.shows, beq_iff_eq] at h
    exact Node.settle?_of_scalar? (Node.flag_of_scalar? h) depth
  | .number k, n, depth, h, _ => by
    rw [Node.shows, beq_iff_eq] at h
    have hk := Node.integer_of_scalar? h
    rw [Tree.datum, if_pos (Node.fits_of_scalar? hk)]
    exact Node.settle?_of_scalar? hk depth
  | .list ts, n, depth, h, hd => by
    obtain ⟨items, rfl, hitems⟩ := Node.shows_list h
    rw [Tree.datum, Datum.depth] at hd
    obtain ⟨depth, rfl⟩ : ∃ k, depth = k + 1 := ⟨depth - 1, by omega⟩
    rw [Value.settle?_sequence, settle?_of_showsItems hitems (by omega)]
    rfl
  | .object fs, n, depth, h, hd => by
    obtain ⟨entries, rfl, hentries⟩ := Node.shows_object h
    rw [Tree.datum, Datum.depth] at hd
    obtain ⟨depth, rfl⟩ : ∃ k, depth = k + 1 := ⟨depth - 1, by omega⟩
    rw [Value.settle?_mapping, settle?_of_showsFields hentries (by omega)]
    rfl
theorem settle?_of_showsItems : ∀ {ts : List Tree} {items : List Node} {depth : Nat},
    Node.showsItems items ts = true → Datum.depthOfItems (Tree.itemData ts) ≤ depth →
      items.mapM (Value.settle? anchors depth) = some (Tree.itemData ts)
  | [], items, depth, h, _ => by
    rw [Node.showsItems, List.isEmpty_iff] at h
    subst h
    rfl
  | t :: ts, items, depth, h, hd => by
    obtain ⟨n, rest, rfl, hn, hrest⟩ := Node.showsItems_cons h
    rw [Tree.itemData, Datum.depthOfItems] at hd
    rw [List.mapM_cons, settle?_of_shows hn (by omega), settle?_of_showsItems hrest (by omega)]
    rfl
theorem settle?_of_showsFields : ∀ {fs : List (String × Tree)} {entries : List (Node × Node)} {depth : Nat},
    Node.showsFields entries fs = true → Datum.depthOfEntries (Tree.fieldData fs) ≤ depth →
      entries.mapM (Value.settlePair? anchors depth) = some (Tree.fieldData fs)
  | [], entries, depth, h, _ => by
    rw [Node.showsFields, List.isEmpty_iff] at h
    subst h
    rfl
  | (k, t) :: fs, entries, depth, h, hd => by
    obtain ⟨j, n, rest, rfl, hj, hn, hrest⟩ := Node.showsFields_cons h
    rw [Tree.fieldData, Datum.depthOfEntries] at hd
    have hentry : Value.settlePair? anchors depth (j, n) = some (.text k, t.datum) := by
      rw [Value.settlePair?, Node.settle?_of_scalar? hj, settle?_of_shows hn (by omega)]
      rfl
    rw [List.mapM_cons, hentry, settle?_of_showsFields hrest (by omega)]
    rfl
end

mutual
theorem holds_of_shows : ∀ {t : Tree} {n : Node}, n.shows t = true → Holds (⟨anchors, n⟩ : Value) t
  | .text s, n, h => by
    rw [Node.shows, beq_iff_eq] at h
    have hs := Node.text_of_scalar? h
    rw [Holds]
    exact ⟨Node.isNull?_of_scalar? hs nofun, Node.text?_of_scalar? hs⟩
  | .flag b, n, h => by
    rw [Node.shows, beq_iff_eq] at h
    have hb := Node.flag_of_scalar? h
    rw [Holds]
    exact ⟨Node.isNull?_of_scalar? hb nofun, Node.flag?_of_scalar? hb⟩
  | .number k, n, h => by
    rw [Node.shows, beq_iff_eq] at h
    have hk := Node.integer_of_scalar? h
    rw [Holds]
    exact ⟨Node.isNull?_of_scalar? hk nofun, fun _ => Node.integer?_of_scalar? hk⟩
  | .list ts, n, h => by
    obtain ⟨items, rfl, hitems⟩ := Node.shows_list h
    rw [Holds]
    exact ⟨rfl, _, rfl, holdItems_of_shows hitems⟩
  | .object fs, n, h => by
    have hsettle : (Tree.object fs).datum.depth ≤ 124 →
        Value.settle? anchors 125 n = some (Tree.object fs).datum := fun hd =>
      settle?_of_shows anchors h (by omega)
    obtain ⟨entries, rfl, hentries⟩ := Node.shows_object h
    obtain ⟨es, hes, hfields⟩ := holdFields_of_shows hentries
    rw [Holds]
    refine ⟨rfl, hsettle, es, hes, fun names => ?_, hfields⟩
    have hrecord : (⟨anchors, .mapping none entries⟩ : Value).entries? = some es := hes
    simp [Readable.record?, hrecord]
theorem holdItems_of_shows : ∀ {ts : List Tree} {items : List Node}, Node.showsItems items ts = true →
    HoldItems (items.map fun n => (⟨anchors, n⟩ : Value)) ts
  | [], items, h => by
    rw [Node.showsItems, List.isEmpty_iff] at h
    subst h
    rfl
  | t :: ts, items, h => by
    obtain ⟨n, rest, rfl, hn, hrest⟩ := Node.showsItems_cons h
    exact ⟨_, _, rfl, holds_of_shows hn, holdItems_of_shows hrest⟩
theorem holdFields_of_shows : ∀ {fs : List (String × Tree)} {entries : List (Node × Node)},
    Node.showsFields entries fs = true → ∃ es : List (String × Value),
      entries.mapM (fun e => (Value.text? ⟨anchors, e.1⟩).map (·, (⟨anchors, e.2⟩ : Value))) = some es ∧
        HoldFields es fs
  | [], entries, h => by
    rw [Node.showsFields, List.isEmpty_iff] at h
    subst h
    exact ⟨[], rfl, rfl⟩
  | (k, t) :: fs, entries, h => by
    obtain ⟨j, n, rest, rfl, hj, hn, hrest⟩ := Node.showsFields_cons h
    obtain ⟨es, hes, hfields⟩ := holdFields_of_shows hrest
    refine ⟨(k, ⟨anchors, n⟩) :: es, ?_, _, _, rfl, holds_of_shows hn, hfields⟩
    simp [Node.text?_of_scalar? hj, hes]
end

end

theorem Recovers.holds {text : String} {t : Tree} (h : Recovers text t) :
    ∃ v, read? text = some v ∧ Holds v t := by
  obtain ⟨⟨anchors, n⟩, hv, hn⟩ := h
  exact ⟨_, hv, holds_of_shows anchors hn⟩

/-! ## Evaluation

A text is taken apart into its characters at once, so that what is read from characters can be computed
without going through the bytes of the text. -/

def tokenChars? (cs : List Char) : Option (List Token) :=
  if cs.all isAdmitted then
    let cells := cellsFrom 0 0 cs
    let start := if cells.head?.any (fun c => c.char.toNat == 0xFEFF) then cells.tail else cells
    Scan.all? (start.length + 1) { rest := start }
  else none

theorem tokens?_ofList (cs : List Char) : tokens? (String.ofList cs) = tokenChars? cs := by
  rw [tokens?, cells, String.toList_ofList, tokenChars?]

def spells (cs : List Char) (t : Tree) : Bool :=
  ((tokenChars? cs).bind Document.ofTokens?).any (·.root.shows t)

theorem recovers_of_spells {cs : List Char} {t : Tree} (h : spells cs t = true) :
    Recovers (String.ofList cs) t := by
  rw [spells, Option.any_eq_true] at h
  obtain ⟨document, hd, hroot⟩ := h
  refine ⟨⟨document.anchors, document.root⟩, ?_, hroot⟩
  obtain ⟨tokens, ht, hd⟩ := Option.bind_eq_some_iff.mp hd
  simp [read?, tokens?_ofList, ht, hd]

def renderChars : Tree → List Char
  | .object (f :: fs) => objectChars 0 false (f :: fs)
  | .list (t :: ts) => listChars 0 false (t :: ts)
  | t => entryChars 0 t

theorem render_eq (t : Tree) : render t = String.ofList (renderChars t) := by
  obtain _ | _ | _ | ⟨_ | _⟩ | ⟨_ | _⟩ := t <;> rfl

theorem recovers_render {d : ApiDocs.Document} (h : spells (renderChars d.encode) d.encode = true) :
    Recovers (d.render .yaml) d.encode := by
  rw [ApiDocs.Document.render, render_eq]
  exact recovers_of_spells h

end ApiDocs.Yaml
