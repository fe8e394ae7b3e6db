import ApiDocs.Proofs.Declarations
import ApiDocs.Proofs.RequiredNames

/-!
# Identifiers in schemas

A field or a variant that is neither skipped nor renamed goes into a document under its identifier: as the
key of a property and perhaps on the list of required ones, as a value of an enumeration, or as the name of
a parameter. The identifier is taken as it is written. One that is written raw, with `r#` in front, keeps
these two characters, though they are not part of its name.
-/

namespace ApiDocs

open Source

/-! ## Raw identifiers -/

namespace Source

def isRaw (name : String) : Bool := name.toList.take 2 == ['r', '#']

/-- The name of an identifier, however it is written. -/
def properName (name : String) : String :=
  if isRaw name then String.ofList (name.toList.drop 2) else name

theorem properName_eq_iff {name : String} : properName name = name ↔ isRaw name = false := by
  unfold properName
  split
  · rename_i hraw
    simp only [hraw, Bool.true_eq_false, iff_false]
    intro h
    have hlength := congrArg (fun s => s.toList.length) h
    have htake := congrArg List.length (beq_iff_eq.mp hraw)
    simp only [String.toList_ofList, List.length_drop, List.length_take, List.length_cons,
      List.length_nil] at hlength htake
    omega
  · rename_i hraw
    simpa using hraw

/-! ## Members of a declaration -/

structure Member where
  attributes : List Attribute
  name : String

namespace Member

def wire (e : Member) : WireMarks := WireMarks.ofAttributes e.attributes

/-- The member is written under its identifier. -/
def IsExposed (e : Member) : Prop := e.wire.skip = false ∧ e.wire.rename = none

end Member

namespace Item

def members : Item → List Member
  | .struct _ _ (some fields) _ => fields.map fun f => ⟨f.attributes, f.name⟩
  | .enum _ _ variants _ => variants.map fun v => ⟨v.attributes, v.name⟩
  | _ => []

def respell (σ : String → String) : Item → Item
  | .struct attributes name (some fields) nested =>
    .struct attributes name (some (fields.map fun f => { f with name := σ f.name })) nested
  | .enum attributes name variants nested =>
    .enum attributes name (variants.map fun v => { v with name := σ v.name }) nested
  | i => i

end Item

end Source

open Source.Item

/-! ## Fields and their members -/

theorem forall₂_iff_of_forall₂ {α β : Type} {R S : α → β → Prop} {P : α → Prop}
    (hRS : ∀ a b, R a b → (S a b ↔ P a)) {l : List α} {bs : List β} (h : List.Forall₂ R l bs) :
    List.Forall₂ S l bs ↔ ∀ a ∈ l, P a := by
  induction h with
  | nil => simp
  | cons hab _ ih => rw [List.forall₂_cons, ih, hRS _ _ hab, List.forall_mem_cons]

theorem exists_of_forall₂ {α β : Type} {R : α → β → Prop} {l : List α} {bs : List β}
    (h : List.Forall₂ R l bs) {b : β} (hb : b ∈ bs) : ∃ a ∈ l, R a b := by
  induction h with
  | nil => cases hb
  | @cons a c l bs hac _ ih =>
    rcases List.mem_cons.mp hb with rfl | hb
    · exact ⟨a, List.mem_cons_self .., hac⟩
    · obtain ⟨x, hx, hxb⟩ := ih hb
      exact ⟨x, List.mem_cons_of_mem a hx, hxb⟩

section
variable {kind : DeclarationKind} {i : Item} {d : Declaration}

theorem declares_struct_iff_forall₂ {attributes : List Attribute} {name : String} {fields : List Field}
    {nested : List Item} : Declares kind (.struct attributes name (some fields) nested) d ↔ d.name = name ∧
      List.Forall₂ (fun f g => g.IsOf f.attributes f.name (classify f.type))
        (fields.filter fun f => !(WireMarks.ofAttributes f.attributes).skip) d.fields := by
  constructor
  · intro h
    cases h with
    | struct h => exact ⟨rfl, h⟩
  · intro h
    obtain ⟨rfl, h⟩ := h
    exact .struct h

theorem declares_enum_iff_forall₂ {attributes : List Attribute} {name : String} {variants : List Variant}
    {nested : List Item} : Declares kind (.enum attributes name variants nested) d ↔
      kind = .enumeration ∧ d.name = name ∧ List.Forall₂ (fun v g => g.IsOf v.attributes v.name fun _ => none)
        (variants.filter fun v => !(WireMarks.ofAttributes v.attributes).skip) d.fields := by
  constructor
  · intro h
    cases h with
    | enum hkind h => exact ⟨hkind, rfl, h⟩
  · intro h
    obtain ⟨hkind, rfl, h⟩ := h
    exact .enum hkind h

/-- The fields of a declaration have the names of its members, in order. -/
theorem Declares.names (h : Declares kind i d) :
    List.Forall₂ (fun e g => g.name = e.wire.rename.getD e.name) (i.members.filter fun e => !e.wire.skip)
      d.fields := by
  cases h with
  | struct h =>
    rw [Item.members, List.filter_map, List.forall₂_map_left_iff]
    exact h.imp fun f g hg => hg.name_eq
  | enum _ h =>
    rw [Item.members, List.filter_map, List.forall₂_map_left_iff]
    exact h.imp fun v g hg => hg.name_eq

theorem isOf_respell_iff {attributes : List Attribute} {name : String} {type : String → Option FieldType}
    (σ : String → String) {f : DeclaredField} (h : f.IsOf attributes name type) :
    f.IsOf attributes (σ name) type ↔ ((WireMarks.ofAttributes attributes).rename = none → σ name = name) := by
  have hname := h.name_eq
  constructor
  · intro h' hrename
    have hname' := h'.name_eq
    rw [hrename] at hname hname'
    exact hname'.symm.trans hname
  · intro hσ
    refine ⟨?_, h.marks_eq, h.marked_eq, h.type_eq⟩
    rw [hname]
    cases hrename : (WireMarks.ofAttributes attributes).rename with
    | none => rw [hσ hrename]
    | some n => rfl

theorem forall₂_respell_iff {ι : Type} (σ : String → String) (attributes : ι → List Attribute)
    (name : ι → String) (type : ι → String → Option FieldType) {l : List ι} {gs : List DeclaredField}
    (h : List.Forall₂ (fun x g => g.IsOf (attributes x) (name x) (type x))
      (l.filter fun x => !(WireMarks.ofAttributes (attributes x)).skip) gs) :
    List.Forall₂ (fun x (g : DeclaredField) => g.IsOf (attributes x) (σ (name x)) (type x))
      (l.filter fun x => !(WireMarks.ofAttributes (attributes x)).skip) gs ↔
      ∀ e ∈ l.map fun x => Member.mk (attributes x) (name x), e.IsExposed → σ e.name = e.name := by
  have hiff : ∀ x g, DeclaredField.IsOf (attributes x) (name x) (type x) g →
      (g.IsOf (attributes x) (σ (name x)) (type x) ↔
        ((WireMarks.ofAttributes (attributes x)).rename = none → σ (name x) = name x)) :=
    fun x g => isOf_respell_iff σ
  rw [forall₂_iff_of_forall₂ hiff h]
  simp [Member.IsExposed, Member.wire]

/-- Other identifiers make the same declaration exactly if they differ only where a member is skipped or
renamed. -/
theorem Declares.respell_iff (σ : String → String) (h : Declares kind i d) :
    Declares kind (i.respell σ) d ↔ ∀ e ∈ i.members, e.IsExposed → σ e.name = e.name := by
  cases h with
  | @struct _ fields _ _ h =>
    rw [Item.members, ← forall₂_respell_iff σ Field.attributes Field.name (fun f => classify f.type) h,
      Item.respell, declares_struct_iff_forall₂, List.filter_map, List.forall₂_map_left_iff]
    exact and_iff_right rfl
  | @enum _ variants _ _ hkind h =>
    rw [Item.members, ← forall₂_respell_iff σ Variant.attributes Variant.name (fun _ _ => none) h,
      Item.respell, declares_enum_iff_forall₂, List.filter_map, List.forall₂_map_left_iff]
    exact (and_iff_right hkind).trans (and_iff_right rfl)

theorem Source.Item.IsLeaf.respell (σ : String → String) (hi : IsLeaf i) : IsLeaf (i.respell σ) := by
  intro attributes items h
  cases i with
  | struct a name fields nested => cases fields <;> cases h
  | inlineModule a is => exact hi a is rfl
  | _ => cases h

end

/-! ## Names in a document -/

/-- A name that a document has from a declaration: of a property, of a required one or of a parameter, or
the value of an entry without marks. -/
inductive Declaration.IsOutput (d : Declaration) : String → Prop
  | key {n : String} (h : n ∈ (Schema.ofStruct d).properties.keys) : IsOutput d n
  | required {n : String} (h : n ∈ (Schema.ofStruct d).required) : IsOutput d n
  | value {f : DeclaredField} (hf : f ∈ d.fields) (hmarks : f.marked = false ∧ f.marks.ignored = false) :
      IsOutput d f.name
  | parameter {ctx : RouteContext} {name : String} {q : Parameter}
      (hschema : ctx.schemas.get? name = some (Schema.ofStruct d)) (hq : q ∈ ctx.parameters name) :
      IsOutput d q.name

section
variable {d : Declaration} {n : String}

theorem Schema.mem_keys_ofStruct_iff : n ∈ (Schema.ofStruct d).properties.keys ↔
    ∃ f ∈ d.fields, (Property.ofField? f).isSome = true ∧ f.name = n := by
  rw [keys_properties, List.mem_eraseDups]
  simp [described, Option.isSome_iff_exists, and_assoc]

theorem RouteContext.mem_keys_of_mem_parameters {ctx : RouteContext} {name : String} {s : Schema}
    {q : Parameter} (hs : ctx.schemas.get? name = some s) (hq : q ∈ ctx.parameters name) :
    q.name ∈ s.properties.keys := by
  by_cases hname : name = ""
  · simp [parameters, hname] at hq
  · rw [parameters_eq hname hs] at hq
    obtain ⟨e, he, rfl⟩ := List.mem_map.mp hq
    exact List.mem_map_of_mem he

/-- The names come from the fields. -/
theorem Declaration.IsOutput.exists_field (h : d.IsOutput n) : ∃ f ∈ d.fields, f.name = n := by
  have hkey : ∀ k, k ∈ (Schema.ofStruct d).properties.keys → ∃ f ∈ d.fields, f.name = k := by
    intro k hk
    obtain ⟨f, hf, -, hname⟩ := Schema.mem_keys_ofStruct_iff.mp hk
    exact ⟨f, hf, hname⟩
  cases h with
  | key h => exact hkey n h
  | required h => exact hkey n (Schema.mem_keys_of_mem_required h)
  | value hf _ => exact ⟨_, hf, rfl⟩
  | parameter hschema hq => exact hkey _ (RouteContext.mem_keys_of_mem_parameters hschema hq)

end

/-- The fields of a declaration are named, one for one, as its members that are not skipped: by the rename
if there is one, else by the identifier as it is written, and the names in a document are those of fields.
So the declaration is that of the identifiers proper exactly if no member that is neither skipped nor
renamed is written raw, and then a name in a document begins with `r#` only if a member is renamed to it. -/
theorem names_as_written {kind : DeclarationKind} {documented : List String} {i : Item} {d : Declaration}
    (hi : IsLeaf i) (hd : d ∈ Declaration.ofItem kind documented i) :
    List.Forall₂ (fun e g => g.name = e.wire.rename.getD e.name) (i.members.filter fun e => !e.wire.skip)
      d.fields ∧
    (∀ n, d.IsOutput n → ∃ e ∈ i.members, e.wire.skip = false ∧ n = e.wire.rename.getD e.name) ∧
    (∀ n, n ∈ (Schema.ofStruct d).properties.keys ↔
      ∃ g ∈ d.fields, (Property.ofField? g).isSome = true ∧ g.name = n) ∧
    (d ∈ Declaration.ofItem kind documented (i.respell properName) ↔
      ∀ e ∈ i.members, e.IsExposed → isRaw e.name = false) ∧
    ((∀ e ∈ i.members, e.IsExposed → isRaw e.name = false) → ∀ n, d.IsOutput n → isRaw n = true →
      ∃ e ∈ i.members, e.wire.skip = false ∧ e.wire.rename = some n) := by
  obtain ⟨h, hname⟩ := (Declaration.mem_ofItem_iff hi).mp hd
  have hwritten : ∀ n, d.IsOutput n → ∃ e ∈ i.members, e.wire.skip = false ∧ n = e.wire.rename.getD e.name := by
    intro n hn
    obtain ⟨g, hg, rfl⟩ := hn.exists_field
    obtain ⟨e, he, hge⟩ := exists_of_forall₂ h.names hg
    obtain ⟨he, hskip⟩ := List.mem_filter.mp he
    exact ⟨e, he, by simpa using hskip, hge⟩
  refine ⟨h.names, hwritten, fun n => Schema.mem_keys_ofStruct_iff, ?_, ?_⟩
  · rw [Declaration.mem_ofItem_iff (hi.respell properName), and_iff_left hname, h.respell_iff]
    simp only [properName_eq_iff]
  · intro hplain n hn hraw
    obtain ⟨e, he, hskip, hne⟩ := hwritten n hn
    cases hrename : e.wire.rename with
    | some m => exact ⟨e, he, hskip, by rw [hne, hrename, Option.getD_some]⟩
    | none =>
      rw [hrename, Option.getD_none] at hne
      rw [hne, hplain e he ⟨hskip, hrename⟩] at hraw
      cases hraw

def stepItem : Item :=
  .struct [] "Step" (some [
    ⟨[⟨false, some "serde", .list [.word "rename", .punct '=' false, .literal (.text "move")]⟩], "r#move",
      .named false "u32" false []⟩,
    ⟨[], "number", .named false "u32" false []⟩]) []

def stepDeclaration : Declaration where
  name := "Step"
  fields := [{ name := "move", marks := {}, marked := false, type := some (.primitive "u32") },
    { name := "number", marks := {}, marked := false, type := some (.primitive "u32") }]

/-- The renamed identifier may as well be written plain. -/
theorem names_as_written_renamed : IsLeaf stepItem ∧
    stepDeclaration ∈ Declaration.ofItem .schema ["Step"] stepItem ∧
    stepDeclaration ∈ Declaration.ofItem .schema ["Step"] (stepItem.respell properName) ∧
    ∀ n, stepDeclaration.IsOutput n → isRaw n = true →
      ∃ e ∈ stepItem.members, e.wire.skip = false ∧ e.wire.rename = some n := by
  have hleaf : IsLeaf stepItem := fun _ _ h => by cases h
  have hd : stepDeclaration ∈ Declaration.ofItem .schema ["Step"] stepItem := by decide +kernel
  have hplain : ∀ e ∈ stepItem.members, e.IsExposed → isRaw e.name = false := by
    unfold Member.IsExposed
    decide +kernel
  obtain ⟨-, -, -, hrespell, hnames⟩ := names_as_written hleaf hd
  exact ⟨hleaf, hd, hrespell.mpr hplain, hnames hplain⟩

/-! ## A reserved word -/

def reservedSource : String :=
  "/// @apiDefine: Item\nstruct Item \x7b #[openapi(\"required\")] r#type: u32 \x7d"

def reservedDeclaration : Declaration where
  name := "Item"
  fields := [{ name := "r#type", marks := { required := true }, marked := true, type := some (.primitive "u32") }]

/-- The field `type`, which can only be written raw, goes into the schema as `r#type`. -/
theorem reserved_name_kept_raw : (∃ file, SourceFile.parse "item.rs" reservedSource = .ok file ∧
      Declaration.scan file .schema = .ok [reservedDeclaration]) ∧
    (Schema.ofStruct reservedDeclaration).properties.keys = ["r#type"] ∧
    (Schema.ofStruct reservedDeclaration).required = ["r#type"] ∧ properName "r#type" = "type" := by
  have h : (SourceFile.parse "item.rs" reservedSource >>= fun file => Declaration.scan file .schema) =
      .ok [reservedDeclaration] := by
    decide +kernel
  refine ⟨?_, by decide +kernel⟩
  cases hparse : SourceFile.parse "item.rs" reservedSource with
  | error e =>
    rw [hparse] at h
    cases h
  | ok file =>
    rw [hparse] at h
    exact ⟨file, rfl, h⟩

end ApiDocs
