import ApiDocs.Proofs.SlotBinding
import ApiDocs.Schema

/-!
# Documented declarations of a file

The comments of a file mark names, wherever the comments stand. Which declarations the names find is said
here by places: a structure or an enumeration counts if it stands in the file or in a module of it, however
deep, and the declarations come in the order of their places.
-/

namespace ApiDocs

open Source

/-! ## Places of items -/

namespace Source.Item

/-- `StandsIn i place j` says that `j` is found from `i` by the numbers of a place, each number counting
the items of a module. -/
inductive StandsIn : Item → List Nat → Item → Prop
  | here (i : Item) : StandsIn i [] i
  | inside {attributes : List Attribute} {items : List Item} {k : Nat} {i : Item} {place : List Nat} {j : Item}
      (hk : items[k]? = some i) (h : StandsIn i place j) :
      StandsIn (.inlineModule attributes items) (k :: place) j

def StandsAt (items : List Item) : List Nat → Item → Prop
  | [], _ => False
  | k :: place, j => ∃ i, items[k]? = some i ∧ StandsIn i place j

def IsLeaf (i : Item) : Prop := ∀ attributes items, i ≠ .inlineModule attributes items

/-- Induction over modules: what holds of all other items, and of a module if it holds of its items, holds
of every item. -/
@[elab_as_elim]
theorem moduleRec {motive : Item → Prop} (leaf : ∀ i, IsLeaf i → motive i)
    (module : ∀ attributes items, (∀ i ∈ items, motive i) → motive (.inlineModule attributes items)) :
    ∀ i, motive i
  | .inlineModule attributes items => module attributes items fun i hi => by
    have hlt := List.sizeOf_lt_of_mem hi
    exact moduleRec leaf module i
  | .struct .. => leaf _ fun _ _ h => by cases h
  | .enum .. => leaf _ fun _ _ h => by cases h
  | .other .. => leaf _ fun _ _ h => by cases h
  | .undocumented .. => leaf _ fun _ _ h => by cases h

theorem standsIn_leaf {i j : Item} (hi : IsLeaf i) {place : List Nat} :
    StandsIn i place j ↔ place = [] ∧ j = i := by
  constructor
  · intro h
    cases h with
    | here => exact ⟨rfl, rfl⟩
    | inside hk h => exact absurd rfl (hi _ _)
  · intro h
    obtain ⟨rfl, rfl⟩ := h
    exact .here _

theorem standsIn_inlineModule {attributes : List Attribute} {items : List Item} {place : List Nat} {j : Item} :
    StandsIn (.inlineModule attributes items) place j ↔
      (place = [] ∧ j = .inlineModule attributes items) ∨ StandsAt items place j := by
  constructor
  · intro h
    cases h with
    | here => exact .inl ⟨rfl, rfl⟩
    | inside hk h => exact .inr ⟨_, hk, h⟩
  · intro h
    rcases h with ⟨rfl, rfl⟩ | h
    · exact .here _
    · cases place with
      | nil => exact h.elim
      | cons k place =>
        obtain ⟨i, hk, h⟩ := h
        exact .inside hk h

end Source.Item

open Source.Item

/-! ## Declarations at places -/

/-- What is made of a field or a variant, where `type` says what its type is, given a reference. -/
structure DeclaredField.IsOf (attributes : List Attribute) (name : String)
    (type : String → Option FieldType) (f : DeclaredField) : Prop where
  name_eq : f.name = (WireMarks.ofAttributes attributes).rename.getD name
  marks_eq : f.marks = (marksOf? attributes).getD {}
  marked_eq : f.marked = (marksOf? attributes).isSome
  type_eq : f.type = type f.marks.reference

/-- The item is a declaration of a kind: its fields or variants in order, without those that are
skipped. -/
inductive Declares (kind : DeclarationKind) : Item → Declaration → Prop
  | struct {attributes : List Attribute} {fields : List Field} {nested : List Item} {d : Declaration}
      (h : List.Forall₂ (fun f g => g.IsOf f.attributes f.name (classify f.type))
        (fields.filter fun f => !(WireMarks.ofAttributes f.attributes).skip) d.fields) :
      Declares kind (.struct attributes d.name (some fields) nested) d
  | enum {attributes : List Attribute} {variants : List Variant} {nested : List Item} {d : Declaration}
      (hkind : kind = .enumeration)
      (h : List.Forall₂ (fun v g => g.IsOf v.attributes v.name fun _ => none)
        (variants.filter fun v => !(WireMarks.ofAttributes v.attributes).skip) d.fields) :
      Declares kind (.enum attributes d.name variants nested) d

section
variable (attributes : List Attribute) (name : String) (type : String → Option FieldType)

def DeclaredField.of? : Option DeclaredField :=
  if (WireMarks.ofAttributes attributes).skip then none
  else some {
    name := (WireMarks.ofAttributes attributes).rename.getD name
    marks := (marksOf? attributes).getD {}
    marked := (marksOf? attributes).isSome
    type := type ((marksOf? attributes).getD {}).reference }

theorem DeclaredField.of?_eq_some_iff {f : DeclaredField} : of? attributes name type = some f ↔
    (WireMarks.ofAttributes attributes).skip = false ∧ f.IsOf attributes name type := by
  unfold of?
  cases (WireMarks.ofAttributes attributes).skip with
  | true => simp
  | false =>
    rw [if_neg (by decide), Option.some.injEq]
    constructor
    · intro h
      subst h
      exact ⟨rfl, rfl, rfl, rfl, rfl⟩
    · intro h
      obtain ⟨-, hname, hmarks, hmarked, htype⟩ := h
      rw [hmarks] at htype
      cases f
      simp_all

theorem DeclaredField.of?_eq_none_iff :
    of? attributes name type = none ↔ (WireMarks.ofAttributes attributes).skip = true := by
  unfold of?
  split <;> simp_all

end

theorem DeclaredField.eq_filterMap_iff {ι : Type} (attributes : ι → List Attribute) (name : ι → String)
    (type : ι → String → Option FieldType) (l : List ι) (gs : List DeclaredField) :
    gs = l.filterMap (fun i => of? (attributes i) (name i) (type i)) ↔
      List.Forall₂ (fun i g => g.IsOf (attributes i) (name i) (type i))
        (l.filter fun i => !(WireMarks.ofAttributes (attributes i)).skip) gs := by
  induction l generalizing gs with
  | nil => simp
  | cons i l ih =>
    cases hi : of? (attributes i) (name i) (type i) with
    | none =>
      have hskip := (of?_eq_none_iff _ _ _).mp hi
      rw [List.filter_cons_of_neg (by simp [hskip]), ← ih, List.filterMap_cons]
      simp only [hi]
    | some f =>
      obtain ⟨hskip, hf⟩ := (of?_eq_some_iff _ _ _).mp hi
      rw [List.filter_cons_of_pos (by simp [hskip]), List.forall₂_cons_left_iff, List.filterMap_cons]
      simp only [hi]
      constructor
      · intro h
        subst h
        exact ⟨f, _, hf, (ih _).mp rfl, rfl⟩
      · intro h
        obtain ⟨g, rest, hg, hrest, rfl⟩ := h
        have hsame := (of?_eq_some_iff _ _ _).mpr ⟨hskip, hg⟩
        rw [hi] at hsame
        rw [Option.some.inj hsame, (ih rest).mpr hrest]

namespace Declaration
variable {kind : DeclarationKind} {documented : List String} {d : Declaration}

theorem mem_ite_singleton_iff {p : Prop} [Decidable p] {e : Declaration} : d ∈ (if p then [e] else []) ↔ d = e ∧ p := by
  split <;> simp_all

theorem declares_struct_iff {attributes : List Attribute} {name : String} {fields : List Field}
    {nested : List Item} : Declares kind (.struct attributes name (some fields) nested) d ↔
      d = ⟨name, fields.filterMap DeclaredField.ofField?⟩ := by
  have hfields := DeclaredField.eq_filterMap_iff Field.attributes Field.name (fun f => classify f.type)
    fields d.fields
  constructor
  · intro h
    cases h with
    | struct h => exact congrArg (Declaration.mk d.name) (hfields.mpr h)
  · intro h
    subst h
    exact .struct (hfields.mp rfl)

theorem declares_enum_iff {attributes : List Attribute} {name : String} {variants : List Variant}
    {nested : List Item} : Declares kind (.enum attributes name variants nested) d ↔
      kind = .enumeration ∧ d = ⟨name, variants.filterMap DeclaredField.ofVariant?⟩ := by
  have hvariants := DeclaredField.eq_filterMap_iff Variant.attributes Variant.name (fun _ _ => none)
    variants d.fields
  constructor
  · intro h
    cases h with
    | enum hkind h => exact ⟨hkind, congrArg (Declaration.mk d.name) (hvariants.mpr h)⟩
  · intro h
    obtain ⟨hkind, rfl⟩ := h
    exact .enum hkind (hvariants.mp rfl)

theorem length_ofItem_le (kind : DeclarationKind) (documented : List String) {i : Item} (hi : IsLeaf i) :
    (ofItem kind documented i).length ≤ 1 := by
  cases i with
  | struct attributes name fields nested =>
    cases fields with
    | none => simp [ofItem]
    | some fields =>
      rw [ofItem]
      split <;> simp
  | enum attributes name variants nested =>
    rw [ofItem]
    split <;> simp
  | inlineModule attributes items => exact absurd rfl (hi attributes items)
  | other attributes nested => simp [ofItem]
  | undocumented nested => simp [ofItem]

/-- An item that is no module is collected if it is a declaration with a documented name. -/
theorem mem_ofItem_iff {i : Item} (hi : IsLeaf i) :
    d ∈ ofItem kind documented i ↔ Declares kind i d ∧ d.name ∈ documented := by
  cases i with
  | struct attributes name fields nested =>
    cases fields with
    | none =>
      simp only [ofItem, List.not_mem_nil, false_iff]
      rintro ⟨h, -⟩
      cases h
    | some fields =>
      rw [ofItem, mem_ite_singleton_iff, List.contains_iff_mem, declares_struct_iff]
      refine and_congr_right fun hd => ?_
      rw [hd]
  | enum attributes name variants nested =>
    rw [ofItem, mem_ite_singleton_iff, List.contains_iff_mem, declares_enum_iff, ← and_assoc,
      and_comm (a := d = _)]
    refine and_congr_right fun hd => ?_
    rw [hd.2]
  | inlineModule attributes items => exact absurd rfl (hi attributes items)
  | other attributes nested =>
    simp only [ofItem, List.not_mem_nil, false_iff]
    rintro ⟨h, -⟩
    cases h
  | undocumented nested =>
    simp only [ofItem, List.not_mem_nil, false_iff]
    rintro ⟨h, -⟩
    cases h

end Declaration

/-! ## Numbered places -/

section
variable {α β : Type} {f : α → List (List Nat × β)}

/-- What has places in some things, with the number of the thing, from `k` on, in front of each place. -/
def numbered (f : α → List (List Nat × β)) (k : Nat) : List α → List (List Nat × β)
  | [] => []
  | a :: as => (f a).map (fun placed => (k :: placed.1, placed.2)) ++ numbered f (k + 1) as

theorem mem_numbered_iff {k : Nat} {as : List α} {p : List Nat} {b : β} :
    (p, b) ∈ numbered f k as ↔ ∃ n a place, as[n]? = some a ∧ p = (k + n) :: place ∧ (place, b) ∈ f a := by
  induction as generalizing k with
  | nil => simp [numbered]
  | cons a as ih =>
    rw [numbered, List.mem_append, ih]
    constructor
    · intro h
      rcases h with h | ⟨n, c, place, hn, rfl, h⟩
      · obtain ⟨placed, hplaced, he⟩ := List.mem_map.mp h
        cases he
        exact ⟨0, a, placed.1, rfl, rfl, hplaced⟩
      · exact ⟨n + 1, c, place, hn, by rw [Nat.add_assoc, Nat.add_comm 1], h⟩
    · intro h
      obtain ⟨n, c, place, hn, rfl, h⟩ := h
      cases n with
      | zero =>
        cases hn
        exact .inl (List.mem_map.mpr ⟨(place, b), h, rfl⟩)
      | succ n => exact .inr ⟨n, c, place, hn, by rw [Nat.add_assoc, Nat.add_comm 1], h⟩

theorem pairwise_numbered (k : Nat) (as : List α) (h : ∀ a ∈ as, (f a).Pairwise fun x y => x.1 < y.1) :
    (numbered f k as).Pairwise fun x y => x.1 < y.1 := by
  induction as generalizing k with
  | nil => simp [numbered]
  | cons a as ih =>
    rw [numbered, List.pairwise_append, List.pairwise_map]
    refine ⟨?_, ih (k + 1) fun c hc => h c (List.mem_cons_of_mem a hc), ?_⟩
    · exact (h a (List.mem_cons_self ..)).imp fun hlt => List.Lex.cons hlt
    · intro x hx y hy
      obtain ⟨c, _, rfl⟩ := List.mem_map.mp hx
      obtain ⟨n, _, place, _, hplace, _⟩ := mem_numbered_iff.mp (show (y.1, y.2) ∈ _ from hy)
      rw [hplace]
      exact List.Lex.rel (by omega)

end

/-! ## Declarations with their places -/

section
variable (kind : DeclarationKind) (documented : List String)

mutual
def placedIn : Item → List (List Nat × Declaration)
  | .inlineModule _ items => placedAmong 0 items
  | i => (Declaration.ofItem kind documented i).map ([], ·)
def placedAmong (k : Nat) : List Item → List (List Nat × Declaration)
  | [] => []
  | i :: is => (placedIn i).map (fun pd => (k :: pd.1, pd.2)) ++ placedAmong (k + 1) is
end

end

section
variable {kind : DeclarationKind} {documented : List String}

theorem placedIn_leaf {i : Item} (hi : IsLeaf i) :
    placedIn kind documented i = (Declaration.ofItem kind documented i).map ([], ·) := by
  rw [placedIn]
  exact hi

theorem map_placedAmong (k : Nat) (is : List Item)
    (h : ∀ i ∈ is, (placedIn kind documented i).map (·.2) = Declaration.ofItem kind documented i) :
    (placedAmong kind documented k is).map (·.2) = Declaration.ofItems kind documented is := by
  induction is generalizing k with
  | nil => simp [placedAmong, Declaration.ofItems]
  | cons i is ih =>
    rw [placedAmong, Declaration.ofItems, List.map_append, List.map_map,
      ih (k + 1) fun j hj => h j (List.mem_cons_of_mem i hj), ← h i (List.mem_cons_self ..)]
    rfl

/-- Without their places they are the declarations that are collected. -/
theorem map_placedIn (i : Item) :
    (placedIn kind documented i).map (·.2) = Declaration.ofItem kind documented i := by
  induction i using Item.moduleRec with
  | leaf i hi =>
    rw [placedIn_leaf hi, List.map_map]
    exact List.map_id _
  | module attributes items ih =>
    rw [placedIn, Declaration.ofItem]
    exact map_placedAmong 0 items ih

theorem placedAmong_eq (k : Nat) (is : List Item) :
    placedAmong kind documented k is = numbered (placedIn kind documented) k is := by
  induction is generalizing k with
  | nil => rfl
  | cons i is ih => rw [placedAmong, numbered, ih]

/-- The places are in order. -/
theorem pairwise_placedIn (i : Item) : (placedIn kind documented i).Pairwise fun a b => a.1 < b.1 := by
  induction i using Item.moduleRec with
  | leaf i hi =>
    have hle := Declaration.length_ofItem_le kind documented hi
    rw [placedIn_leaf hi]
    match Declaration.ofItem kind documented i, hle with
    | [], _ => exact .nil
    | [d], _ => exact List.pairwise_singleton ..
  | module attributes items ih =>
    rw [placedIn, placedAmong_eq]
    exact pairwise_numbered 0 items ih

theorem mem_placedAmong_zero_iff {items : List Item} {place : List Nat} {d : Declaration}
    (h : ∀ i ∈ items, ∀ place, (place, d) ∈ placedIn kind documented i ↔
      ∃ j, StandsIn i place j ∧ Declares kind j d ∧ d.name ∈ documented) :
    (place, d) ∈ placedAmong kind documented 0 items ↔
      ∃ j, StandsAt items place j ∧ Declares kind j d ∧ d.name ∈ documented := by
  rw [placedAmong_eq, mem_numbered_iff]
  simp only [Nat.zero_add]
  constructor
  · intro hd
    obtain ⟨n, i, inner, hn, rfl, hd⟩ := hd
    obtain ⟨j, hj, hd⟩ := (h i (List.mem_of_getElem? hn) inner).mp hd
    exact ⟨j, ⟨i, hn, hj⟩, hd⟩
  · intro hd
    obtain ⟨j, hj, hd⟩ := hd
    cases place with
    | nil => exact hj.elim
    | cons n inner =>
      obtain ⟨i, hn, hj⟩ := hj
      exact ⟨n, i, inner, hn, rfl, (h i (List.mem_of_getElem? hn) inner).mpr ⟨j, hj, hd⟩⟩

/-- They stand where their places say. -/
theorem mem_placedIn_iff {i : Item} {d : Declaration} (place : List Nat) :
    (place, d) ∈ placedIn kind documented i ↔
      ∃ j, StandsIn i place j ∧ Declares kind j d ∧ d.name ∈ documented := by
  induction i using Item.moduleRec generalizing place with
  | leaf i hi =>
    rw [placedIn_leaf hi]
    simp only [standsIn_leaf hi, List.mem_map, Prod.mk.injEq, Declaration.mem_ofItem_iff hi]
    constructor
    · intro h
      obtain ⟨e, he, rfl, rfl⟩ := h
      exact ⟨i, ⟨rfl, rfl⟩, he⟩
    · intro h
      obtain ⟨j, ⟨rfl, rfl⟩, hj⟩ := h
      exact ⟨d, hj, rfl, rfl⟩
  | module attributes items ih =>
    rw [placedIn, mem_placedAmong_zero_iff fun i hi => ih i hi]
    refine exists_congr fun j => and_congr_left fun hd => ?_
    rw [standsIn_inlineModule, or_iff_right]
    -- a module is no declaration
    intro h
    rw [h.2] at hd
    cases hd.1

theorem mem_placed_iff {items : List Item} {place : List Nat} {d : Declaration} :
    (place, d) ∈ placedAmong kind documented 0 items ↔
      ∃ j, StandsAt items place j ∧ Declares kind j d ∧ d.name ∈ documented :=
  mem_placedAmong_zero_iff fun _ _ place => mem_placedIn_iff place

end

/-! ## Marked names -/

/-- A directive without a code marks the first word of its value, if there is one. -/
def Directive.Marks (kind : DeclarationKind) (d : Directive) (name : String) : Prop :=
  d.name = kind.directiveName ∧ d.code = "" ∧ Text.isBlankText d.value = false ∧ Text.firstWord d.value = name

theorem Directive.marks?_eq_some_iff {kind : DeclarationKind} {d : Directive} {name : String} :
    d.marks? kind = some name ↔ d.Marks kind name := by
  unfold marks? Marks
  rw [Option.ite_none_right_eq_some, Option.some.injEq]
  simp [and_assoc]

theorem mem_documentedNames_iff {blocks : List String} {kind : DeclarationKind} {name : String} :
    name ∈ documentedNames blocks kind ↔
      ∃ block ∈ blocks, ∃ d ∈ Directive.ofBlock block, d.Marks kind name := by
  simp only [documentedNames, List.mem_eraseDups, List.mem_filterMap, List.mem_flatMap,
    Directive.marks?_eq_some_iff]
  constructor
  · intro ⟨d, ⟨block, hblock, hd⟩, hmarks⟩
    exact ⟨block, hblock, d, hd, hmarks⟩
  · intro ⟨block, hblock, d, hd, hmarks⟩
    exact ⟨d, ⟨block, hblock, hd⟩, hmarks⟩

/-! ## Scanning a file -/

namespace Declaration
variable {file : SourceFile} {kind : DeclarationKind}

theorem scan_of_no_names (h : documentedNames file.blocks kind = []) :
    scan file kind = .error (.noDirectives file.path kind.keyword) := by
  unfold scan
  rw [h]

theorem scan_of_names (h : documentedNames file.blocks kind ≠ []) :
    scan file kind = .ok (ofItems kind (documentedNames file.blocks kind) file.items) := by
  unfold scan
  split
  · contradiction
  · rfl

theorem scan_eq_error_iff {e : FileError} : scan file kind = .error e ↔
    e = .noDirectives file.path kind.keyword ∧ documentedNames file.blocks kind = [] := by
  by_cases h : documentedNames file.blocks kind = []
  · rw [scan_of_no_names h]
    simp [h, eq_comm]
  · rw [scan_of_names h]
    simp [h]

end Declaration

theorem placed_of_scan {file : SourceFile} {kind : DeclarationKind} {ds : List Declaration}
    (h : Declaration.scan file kind = .ok ds) :
    ds = (placedAmong kind (documentedNames file.blocks kind) 0 file.items).map (·.2) := by
  rw [map_placedAmong 0 _ fun i _ => map_placedIn i]
  by_cases hnames : documentedNames file.blocks kind = []
  · rw [Declaration.scan_of_no_names hnames] at h
    cases h
  · rw [Declaration.scan_of_names hnames] at h
    exact (Except.ok.inj h).symm

/-! ## Schemas of a file -/

theorem get?_schemas {kind : DeclarationKind} {ds : List Declaration} {name : String} {s : Schema} :
    (Dict.ofList (ds.map fun d => (d.name, Schema.ofDeclaration kind d))).get? name = some s ↔
      ∃ before d after, ds = before ++ d :: after ∧ d.name = name ∧ (∀ x ∈ after, x.name ≠ name) ∧
        s = Schema.ofDeclaration kind d := by
  rw [Dict.get?_ofList (·.name) (Schema.ofDeclaration kind), Option.map_eq_some_iff]
  simp only [find?_reverse_eq_some_iff, decide_eq_true_eq, decide_eq_false_iff_not]
  constructor
  · intro ⟨d, ⟨before, after, hds, hname, hafter⟩, hs⟩
    exact ⟨before, d, after, hds, hname, hafter, hs.symm⟩
  · intro ⟨before, d, after, hds, hname, hafter, hs⟩
    exact ⟨d, ⟨before, after, hds, hname, hafter⟩, hs.symm⟩

theorem mem_keys_schemas {kind : DeclarationKind} {ds : List Declaration} {name : String} :
    name ∈ (Dict.ofList (ds.map fun d => (d.name, Schema.ofDeclaration kind d))).keys ↔
      ∃ d ∈ ds, d.name = name := by
  rw [Dict.mem_keys_iff, Dict.get?_ofList (·.name) (Schema.ofDeclaration kind), Option.isSome_map,
    List.find?_isSome]
  simp

def SourceFile.Marks (file : SourceFile) (kind : DeclarationKind) (name : String) : Prop :=
  ∃ block ∈ file.blocks, ∃ d ∈ Directive.ofBlock block, d.Marks kind name

/-- Scanning a file fails exactly if its comments mark no name. Otherwise it gives one declaration for
each place where a declaration with a marked name stands, in the order of the places, and the schemas of the
file are those of the last declaration of each name. -/
theorem scan_by_places (file : SourceFile) (kind : DeclarationKind) :
    (∀ e, Declaration.scan file kind = .error e ↔
      e = .noDirectives file.path kind.keyword ∧ ∀ name, ¬file.Marks kind name) ∧
    ∀ ds, Declaration.scan file kind = .ok ds →
      (∃ places : List (List Nat), places.Pairwise (· < ·) ∧
        (∀ place, place ∈ places ↔
          ∃ i d, StandsAt file.items place i ∧ Declares kind i d ∧ file.Marks kind d.name) ∧
        List.Forall₂ (fun place d => ∃ i, StandsAt file.items place i ∧ Declares kind i d) places ds) ∧
      ∃ registry, SchemaRegistry.ofFile kind file = .ok registry ∧
        (∀ name, name ∈ registry.keys ↔ ∃ d ∈ ds, d.name = name) ∧
        ∀ name s, registry.get? name = some s ↔ ∃ before d after, ds = before ++ d :: after ∧
          d.name = name ∧ (∀ x ∈ after, x.name ≠ name) ∧ s = Schema.ofDeclaration kind d := by
  refine ⟨fun e => ?_, fun ds hds => ⟨?_, ?_⟩⟩
  · rw [Declaration.scan_eq_error_iff, List.eq_nil_iff_forall_not_mem]
    simp only [mem_documentedNames_iff]
    rfl
  · obtain rfl := placed_of_scan hds
    refine ⟨(placedAmong kind (documentedNames file.blocks kind) 0 file.items).map (·.1), ?_, ?_, ?_⟩
    · rw [List.pairwise_map, placedAmong_eq]
      exact pairwise_numbered 0 _ fun i _ => pairwise_placedIn i
    · intro place
      simp only [List.mem_map, Prod.exists, exists_and_right, exists_eq_right, mem_placed_iff,
        mem_documentedNames_iff]
      exact exists_comm
    · rw [List.forall₂_map_left_iff, List.forall₂_map_right_iff, List.forall₂_same]
      intro placed hplaced
      obtain ⟨i, hi, hd, _⟩ := mem_placed_iff.mp hplaced
      exact ⟨i, hi, hd⟩
  · refine ⟨_, ?_, fun name => mem_keys_schemas, fun name s => get?_schemas⟩
    rw [SchemaRegistry.ofFile, hds]
    rfl

def levelsFile : SourceFile where
  path := "levels.rs"
  items := [.other [] [], .inlineModule [] [
    .inlineModule [] [.struct [] "Level" (some []) []],
    .struct [] "Level" none [],
    .enum [] "Level" [⟨[], "Low"⟩, ⟨[⟨false, some "serde", .list [.word "skip"]⟩], "High"⟩] []]]
  blocks := ["@apiEnum: Level of detail"]

def levelsFound : List Declaration :=
  [⟨"Level", []⟩, ⟨"Level", [{ name := "Low", marks := {}, marked := false, type := none }]⟩]

/-- The later one counts. -/
theorem scan_by_places_levels : Declaration.scan levelsFile .enumeration = .ok levelsFound ∧
    (∃ places : List (List Nat), places.Pairwise (· < ·) ∧ (∀ place, place ∈ places ↔ ∃ i d,
        StandsAt levelsFile.items place i ∧ Declares .enumeration i d ∧ levelsFile.Marks .enumeration d.name) ∧
      List.Forall₂ (fun place d => ∃ i, StandsAt levelsFile.items place i ∧ Declares .enumeration i d)
        places levelsFound) ∧
    ∃ registry, SchemaRegistry.ofFile .enumeration levelsFile = .ok registry ∧
      registry.get? "Level" = some (.enumeration ["Low"]) := by
  have hscan : Declaration.scan levelsFile .enumeration = .ok levelsFound := by
    have hnames : documentedNames levelsFile.blocks .enumeration = ["Level"] := by decide +kernel
    rw [Declaration.scan_of_names (by simp [hnames]), hnames]
    decide +kernel
  obtain ⟨hplaces, registry, hregistry, -, hget⟩ := (scan_by_places levelsFile .enumeration).2 _ hscan
  refine ⟨hscan, hplaces, registry, hregistry, (hget _ _).mpr ?_⟩
  exact ⟨[⟨"Level", []⟩], _, [], rfl, rfl, List.forall_mem_nil _, by decide⟩

end ApiDocs
