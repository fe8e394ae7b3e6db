import ApiDocs.Proofs.Declarations
import ApiDocs.Proofs.Source.Extension

/-!
# Documentation blocks of a file

The blocks of a file come from its own attributes and from those of its items, however deep they stand. The
order is that of the places of the items, and of two blocks of one item the inner one comes first, although
the outer one stands before it in the text.
-/

namespace ApiDocs.Source

/-! ## Results of readers -/

namespace Reader
variable {α β : Type} {p : Reader α} {f : α → Reader β} {P : α → Prop} {Q : β → Prop}

/-- Whatever a reader reads, its result has a property. -/
def Returns (p : Reader α) (P : α → Prop) : Prop := ∀ s a s', p s = some (a, s') → P a

namespace Returns

theorem pure {a : α} (h : P a) : Returns (Pure.pure a) P := by
  intro s b s' hb
  cases hb
  exact h

theorem bind (hp : p.Returns P) (hf : ∀ a, P a → (f a).Returns Q) : (p >>= f).Returns Q := by
  intro s b s'' hb
  obtain ⟨a, s', ha, hb⟩ := bind_eq_some_iff.mp hb
  exact hf a (hp s a s' ha) s' b s'' hb

/-- Only the last of two readers decides. -/
theorem last (hf : ∀ a, (f a).Returns Q) : (p >>= f).Returns Q := by
  intro s b s'' hb
  obtain ⟨a, s', _, hb⟩ := bind_eq_some_iff.mp hb
  exact hf a s' b s'' hb

theorem ite {c : Prop} [Decidable c] {q : Reader α} (hp : p.Returns P) (hq : q.Returns P) :
    Returns (if c then p else q) P := by
  split
  · exact hp
  · exact hq

theorem within {d : Delimiter} (hp : p.Returns P) : (Reader.within d p).Returns P := by
  intro s a s' ha
  obtain ⟨body, rest, found, -, hbody, -⟩ := within_eq_some_iff.mp ha
  exact hp _ a _ hbody

theorem collecting (hp : p.Returns P) : (Reader.collecting p).Returns fun r => P r.1 := by
  intro s a s' ha
  obtain ⟨⟨b, t⟩, hb, he⟩ := Option.map_eq_some_iff.mp ha
  cases he
  exact hp _ b t hb

theorem aside (hp : p.Returns P) : (Reader.aside p).Returns P :=
  hp.collecting.bind fun _ h => .ite (.last fun _ => .pure h) (.pure h)

theorem repeatAux {step : Reader (Step α)} (hstep : step.Returns fun r => ∀ a, r = .last a ∨ r = .next a → P a)
    (n : Nat) : (Reader.repeatAux step n).Returns fun as => ∀ a ∈ as, P a := by
  induction n with
  | zero =>
    intro s as s' h
    cases h
  | succ n ih =>
    refine hstep.bind fun r hr => ?_
    cases r with
    | done => exact .pure (List.forall_mem_nil _)
    | last a => exact .pure (List.forall_mem_singleton.mpr (hr a (.inl rfl)))
    | next a => exact ih.bind fun as has => .pure (List.forall_mem_cons.mpr ⟨hr a (.inr rfl), has⟩)

theorem many {start : Look} (hp : p.Returns P) : (Reader.many start p).Returns fun as => ∀ a ∈ as, P a := by
  refine .last fun s => .repeatAux (.last fun go => .ite (hp.bind fun a ha => .pure ?_) (.pure ?_)) _
  · rintro b (h | h)
    · cases h
    · cases h
      exact ha
  · rintro b (h | h) <;> cases h

end Returns
end Reader

open Reader

namespace Rules
variable (g : Grammar)

theorem attributeBody_returns (inner : Bool) : (attributeBody g inner).Returns fun a => a.inner = inner := by
  refine .last fun _ => .ite (.last fun name => .last fun s => ?_) (.last fun name => .last fun s => ?_)
  all_goals
    split
    · exact .last fun _ => .pure rfl
    · exact .last fun _ => .ite (.last fun _ => .pure rfl) (.pure rfl)

theorem innerAttributes_returns : (innerAttributes g).Returns fun as => ∀ a ∈ as, a.inner = true :=
  .aside (.many (.last fun _ => .within (attributeBody_returns g true)))

end Rules

/-- The own attributes of a file belong to what encloses them. -/
theorem fileReader_returns (g : Grammar) : (fileReader g).Returns fun f => ∀ a ∈ f.attributes, a.inner = true :=
  (Rules.innerAttributes_returns g).collecting.bind fun _ h => .last fun _ => .pure h

theorem File.inner_of_parse? {text : String} {f : File} (h : File.parse? text = some f) :
    ∀ a ∈ f.attributes, a.inner = true := by
  obtain ⟨ts, _, hread⟩ := Option.bind_eq_some_iff.mp h
  unfold readAll at hread
  split at hread
  · rename_i f' s hf
    split at hread
    · cases hread
      exact fileReader_returns _ _ _ _ hf
    · cases hread
  · cases hread

/-! ## Blocks of an item -/

namespace Attribute

/-- The documentation block of one style, unless it is blank. -/
def block? (inner : Bool) (attributes : List Attribute) : Option String :=
  (docText inner attributes).filter fun text => !Text.isBlankText text

def blocks (styles : List Bool) (attributes : List Attribute) : List String :=
  styles.filterMap fun inner => block? inner attributes

theorem docBlocks_eq (attributes : List Attribute) : docBlocks attributes = blocks [true, false] attributes := rfl

theorem block?_eq_none {inner : Bool} {attributes : List Attribute} (h : ∀ a ∈ attributes, a.inner = !inner) :
    block? inner attributes = none := by
  have hnone : attributes.filter (·.inner == inner) = [] :=
    List.filter_eq_nil_iff.mpr fun a ha => by simp [h a ha]
  rw [block?, docText, hnone]
  rfl

theorem length_blocks (attributes : List Attribute) :
    (blocks [true, false] attributes).length = (blocks [false, true] attributes).length :=
  (List.Perm.filterMap _ (List.Perm.swap false true [])).length_eq

/-- The order of two blocks counts if they differ. -/
theorem blocks_eq_iff {attributes : List Attribute} : blocks [true, false] attributes = blocks [false, true] attributes ↔
    ∀ inner outer, block? true attributes = some inner → block? false attributes = some outer → inner = outer := by
  unfold blocks
  cases hinner : block? true attributes with
  | none => simp [List.filterMap_cons, hinner]
  | some inner =>
    cases houter : block? false attributes with
    | none => simp [hinner, houter]
    | some outer => simp [hinner, houter, eq_comm]

end Attribute

/-! ## Places of items -/

namespace Item

def attributes? : Item → Option (List Attribute)
  | struct attributes _ _ _ | enum attributes _ _ _ | inlineModule attributes _ | other attributes _ => some attributes
  | undocumented _ => none

def inside : Item → List Item
  | struct _ _ _ nested | enum _ _ _ nested | inlineModule _ nested | other _ nested | undocumented nested => nested

/-- The item that is found by the numbers of a place, each counting what stands in the item before. -/
def descend? : Item → List Nat → Option Item
  | i, [] => some i
  | i, k :: place => i.inside[k]?.bind (descend? · place)

def itemAt? (items : List Item) : List Nat → Option Item
  | [] => none
  | k :: place => items[k]?.bind (descend? · place)

/-- At a place among some items stands one with these attributes, and its documentation is read. -/
def Documents (items : List Item) (place : List Nat) (attributes : List Attribute) : Prop :=
  (itemAt? items place).bind attributes? = some attributes

/-- Induction over the items in items. -/
theorem insideRec {motive : Item → Prop} (h : ∀ i, (∀ j ∈ i.inside, motive j) → motive i) (i : Item) : motive i :=
  h i fun j hj => by
    have hlt : sizeOf j < sizeOf i := by
      have hmem := List.sizeOf_lt_of_mem hj
      cases i <;> simp only [inside, struct.sizeOf_spec, enum.sizeOf_spec, inlineModule.sizeOf_spec,
        other.sizeOf_spec, undocumented.sizeOf_spec] at hmem ⊢ <;> omega
    exact insideRec h j
termination_by sizeOf i

mutual
def placed : Item → List (List Nat × List Attribute)
  | struct attributes _ _ nested => ([], attributes) :: placedFrom 0 nested
  | enum attributes _ _ nested => ([], attributes) :: placedFrom 0 nested
  | inlineModule attributes nested => ([], attributes) :: placedFrom 0 nested
  | other attributes nested => ([], attributes) :: placedFrom 0 nested
  | undocumented nested => placedFrom 0 nested
def placedFrom (k : Nat) : List Item → List (List Nat × List Attribute)
  | [] => []
  | i :: is => i.placed.map (fun p => (k :: p.1, p.2)) ++ placedFrom (k + 1) is
end

theorem placedFrom_eq (k : Nat) (is : List Item) : placedFrom k is = numbered placed k is := by
  induction is generalizing k with
  | nil => rfl
  | cons i is ih => rw [placedFrom, numbered, ih]

theorem placed_eq (i : Item) :
    i.placed = (i.attributes?.toList.map fun attributes => ([], attributes)) ++ numbered placed 0 i.inside := by
  cases i <;> rw [placed, placedFrom_eq] <;> rfl

theorem docBlocks_eq (i : Item) :
    i.docBlocks = i.attributes?.toList.flatMap Attribute.docBlocks ++ blocksOf i.inside := by
  cases i <;> simp [docBlocks, attributes?, inside]

theorem blocksOf_eq (k : Nat) (is : List Item)
    (h : ∀ i ∈ is, i.docBlocks = i.placed.flatMap fun p => Attribute.docBlocks p.2) :
    blocksOf is = (numbered placed k is).flatMap fun p => Attribute.docBlocks p.2 := by
  induction is generalizing k with
  | nil => rfl
  | cons i is ih =>
    rw [blocksOf, numbered, List.flatMap_append, List.flatMap_map, h i (List.mem_cons_self ..),
      ih (k + 1) fun j hj => h j (List.mem_cons_of_mem i hj)]

/-- The blocks of an item are those of the attributes at the places in it. -/
theorem docBlocks_eq_flatMap (i : Item) : i.docBlocks = i.placed.flatMap fun p => Attribute.docBlocks p.2 := by
  induction i using insideRec with
  | h i ih =>
    rw [docBlocks_eq, placed_eq, List.flatMap_append, List.flatMap_map, blocksOf_eq 0 i.inside ih]

theorem pairwise_placed (i : Item) : i.placed.Pairwise fun a b => a.1 < b.1 := by
  induction i using insideRec with
  | h i ih =>
    rw [placed_eq, List.pairwise_append]
    refine ⟨?_, pairwise_numbered 0 i.inside ih, ?_⟩
    · cases i.attributes? with
      | none => exact .nil
      | some attributes => exact List.pairwise_singleton ..
    · -- an item comes before what stands in it
      intro a ha b hb
      obtain ⟨attributes, _, rfl⟩ := List.mem_map.mp ha
      obtain ⟨n, _, place, _, hplace, _⟩ := mem_numbered_iff.mp (show (b.1, b.2) ∈ _ from hb)
      rw [hplace]
      exact List.Lex.nil

theorem mem_numbered_placed_iff {is : List Item} {place : List Nat} {attributes : List Attribute}
    (h : ∀ i ∈ is, ∀ place, (place, attributes) ∈ i.placed ↔ (i.descend? place).bind attributes? = some attributes) :
    (place, attributes) ∈ numbered placed 0 is ↔ Documents is place attributes := by
  rw [mem_numbered_iff, Documents]
  simp only [Nat.zero_add]
  cases place with
  | nil => simp [itemAt?]
  | cons k inner =>
    rw [itemAt?, Option.bind_assoc, Option.bind_eq_some_iff]
    constructor
    · intro ⟨n, i, place, hn, hplace, hmem⟩
      cases hplace
      exact ⟨i, hn, (h i (List.mem_of_getElem? hn) inner).mp hmem⟩
    · intro ⟨i, hk, hmem⟩
      exact ⟨k, i, inner, hk, rfl, (h i (List.mem_of_getElem? hk) inner).mpr hmem⟩

theorem mem_placed_iff {i : Item} {attributes : List Attribute} (place : List Nat) :
    (place, attributes) ∈ i.placed ↔ (i.descend? place).bind attributes? = some attributes := by
  induction i using insideRec generalizing place with
  | h i ih =>
    rw [placed_eq, List.mem_append, mem_numbered_placed_iff ih]
    cases place with
    | nil => simp [Documents, itemAt?, descend?]
    | cons k place => simp [Documents, itemAt?, descend?]

end Item

end ApiDocs.Source

namespace ApiDocs

open Source Attribute Item

/-! ## Files -/

theorem SourceFile.parse_eq_ok_iff {path text : String} {file : SourceFile} :
    SourceFile.parse path text = .ok file ↔
      ∃ f, File.parse? text = some f ∧ f.docBlocks ≠ [] ∧ file = ⟨path, f.items, f.docBlocks⟩ := by
  unfold SourceFile.parse
  cases File.parse? text with
  | none => simp
  | some f =>
    by_cases hblocks : f.docBlocks = []
    · simp [hblocks]
    · have hne : f.docBlocks.isEmpty = false := by simpa using hblocks
      simp only [hne, Bool.false_eq_true, if_false, Except.ok.injEq, Option.some.injEq, exists_eq_left', ne_eq, hblocks,
        not_false_eq_true, true_and]
      exact eq_comm

/-- Lists of lists that are of one length each are joined to the same list only if they are the same. -/
theorem flatMap_eq_iff {α β : Type} {f g : α → List β} {as : List α} (h : ∀ a, (f a).length = (g a).length) :
    as.flatMap f = as.flatMap g ↔ ∀ a ∈ as, f a = g a := by
  induction as with
  | nil => simp
  | cons a as ih =>
    rw [List.flatMap_cons, List.flatMap_cons, List.forall_mem_cons, ← ih]
    constructor
    · intro heq
      exact List.append_inj heq (h a)
    · intro ⟨ha, has⟩
      rw [ha, has]

/-- **The blocks of a file.** They are the inner block of the file and then, for each place where an item with
documentation stands, in the order of the places, the inner and the outer block of the item, each unless it is
blank. With the outer block of every item first the list is the same only if no item has two blocks that
differ. -/
theorem blocks_by_places (path text : String) (file : SourceFile) (h : SourceFile.parse path text = .ok file) :
    ∃ (f : File) (places : List (List Nat)) (found : List (List Attribute)),
      File.parse? text = some f ∧ file.items = f.items ∧ places.Pairwise (· < ·) ∧
      (∀ place, place ∈ places ↔ ∃ attributes, Documents f.items place attributes) ∧
      List.Forall₂ (Documents f.items) places found ∧
      file.blocks = (block? true f.attributes).toList ++ found.flatMap (blocks [true, false]) ∧
      (file.blocks = (block? true f.attributes).toList ++ found.flatMap (blocks [false, true]) ↔
        ∀ attributes ∈ found, ∀ inner outer, block? true attributes = some inner →
          block? false attributes = some outer → inner = outer) := by
  obtain ⟨f, hf, -, rfl⟩ := SourceFile.parse_eq_ok_iff.mp h
  have hmem : ∀ place attributes, (place, attributes) ∈ numbered placed 0 f.items ↔ Documents f.items place attributes :=
    fun _ _ => mem_numbered_placed_iff fun _ _ place => Item.mem_placed_iff place
  have hown : docBlocks f.attributes = (block? true f.attributes).toList := by
    have houter : block? false f.attributes = none := block?_eq_none (File.inner_of_parse? hf)
    rw [Attribute.docBlocks_eq, blocks]
    cases hinner : block? true f.attributes <;> simp [hinner, houter]
  have hblocks : f.docBlocks = (block? true f.attributes).toList ++
      ((numbered placed 0 f.items).map (·.2)).flatMap (blocks [true, false]) := by
    rw [File.docBlocks, hown, blocksOf_eq 0 f.items fun i _ => docBlocks_eq_flatMap i, List.flatMap_map]
    rfl
  refine ⟨f, (numbered placed 0 f.items).map (·.1), (numbered placed 0 f.items).map (·.2), hf, rfl, ?_, ?_, ?_,
    hblocks, ?_⟩
  · rw [List.pairwise_map]
    exact pairwise_numbered 0 _ fun i _ => pairwise_placed i
  · intro place
    simp only [List.mem_map, Prod.exists, exists_and_right, exists_eq_right, hmem]
  · rw [List.forall₂_map_left_iff, List.forall₂_map_right_iff, List.forall₂_same]
    exact fun p hp => (hmem p.1 p.2).mp hp
  · rw [hblocks, List.append_cancel_left_eq, flatMap_eq_iff length_blocks]
    simp only [blocks_eq_iff]

def depthsSource : String :=
  "//! file\n/// outer\nmod m \x7b\n//! inner\n///\nfn f() \x7b\n/// deep\nconst C: u8 = 0;\n\x7d\n\x7d\n"

/-- The constant in the function in the module stands at a place of three numbers. -/
theorem blocks_by_places_depths : ∃ (file : SourceFile) (f : File) (places : List (List Nat)),
    SourceFile.parse "depths.rs" depthsSource = .ok file ∧ File.parse? depthsSource = some f ∧
    (∀ place, place ∈ places ↔ ∃ attributes, Documents f.items place attributes) ∧ [0, 0, 0] ∈ places ∧
    file.blocks = [" file", " inner", " outer", " deep"] := by
  have hread : (File.parse? depthsSource).any (fun f => f.docBlocks = [" file", " inner", " outer", " deep"] ∧
      ((itemAt? f.items [0, 0, 0]).bind attributes?).isSome = true) = true := by
    decide +kernel
  cases hf : File.parse? depthsSource with
  | none =>
    rw [hf] at hread
    cases hread
  | some f =>
    rw [hf] at hread
    obtain ⟨hblocks, hplace⟩ := of_decide_eq_true hread
    have hparse : SourceFile.parse "depths.rs" depthsSource = .ok ⟨"depths.rs", f.items, f.docBlocks⟩ :=
      SourceFile.parse_eq_ok_iff.mpr ⟨f, hf, by simp [hblocks], rfl⟩
    obtain ⟨f', places, _, hf', -, -, hplaces, -⟩ := blocks_by_places _ _ _ hparse
    cases hf.symm.trans hf'
    exact ⟨_, f, places, hparse, rfl, hplaces, (hplaces _).mpr (Option.isSome_iff_exists.mp hplace), hblocks⟩

def moduleSource : String := "/// outer\nmod inner \x7b\n    //! inner\n\x7d\n"

/-- Of its two blocks the inner one comes first. -/
theorem inner_block_first : ∃ (file : SourceFile) (f : File) (i : Item) (attributes : List Attribute),
    SourceFile.parse "module.rs" moduleSource = .ok file ∧ File.parse? moduleSource = some f ∧
    f.attributes = [] ∧ f.items = [i] ∧ i.inside = [] ∧ i.attributes? = some attributes ∧
    block? false attributes = some " outer" ∧ block? true attributes = some " inner" ∧
    file.blocks = [" inner", " outer"] := by
  have hread : (File.parse? moduleSource).any (fun f => f.attributes.isEmpty = true ∧ f.items.length = 1 ∧
      f.items.all (fun i => i.inside.isEmpty && i.attributes?.any fun attributes =>
        block? false attributes = some " outer" ∧ block? true attributes = some " inner") = true ∧
      f.docBlocks = [" inner", " outer"]) = true := by
    decide +kernel
  cases hf : File.parse? moduleSource with
  | none =>
    rw [hf] at hread
    cases hread
  | some f =>
    rw [hf] at hread
    obtain ⟨hown, hlength, hitems, hblocks⟩ := of_decide_eq_true hread
    obtain ⟨i, hi⟩ := List.length_eq_one_iff.mp hlength
    rw [hi, List.all_cons, List.all_nil, Bool.and_true, Bool.and_eq_true, Option.any_eq_true] at hitems
    obtain ⟨hinside, attributes, hattributes, hstyles⟩ := hitems
    obtain ⟨houter, hinner⟩ := of_decide_eq_true hstyles
    exact ⟨_, f, i, attributes, SourceFile.parse_eq_ok_iff.mpr ⟨f, hf, by simp [hblocks], rfl⟩, rfl,
      List.isEmpty_iff.mp hown, hi, List.isEmpty_iff.mp hinside, hattributes, houter, hinner, hblocks⟩

end ApiDocs
