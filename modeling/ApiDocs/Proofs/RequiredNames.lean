import ApiDocs.Proofs.Directive.Records
import ApiDocs.Proofs.Parameters
import ApiDocs.Proofs.Reading
import ApiDocs.Proofs.SlotBinding

/-!
# Required names of a structure

The properties of a schema are a table, where a later field takes the place of an earlier one with its
name. The required names are a list, where nothing is replaced. So the two agree as long as no two fields
share a name. Where some do, a name can be listed twice, or for a field that was replaced.
-/

namespace ApiDocs

theorem Property.ofField?_eq_none_iff (f : DeclaredField) :
    ofField? f = none ↔ f.marks.ignored = true ∨ f.type = none := by
  unfold ofField?
  by_cases h : f.marks.ignored = true
  · simp [h]
  · rw [if_neg h]
    cases htype : f.type with
    | none => simp
    | some type => cases type <;> simp [h]

namespace Schema
variable {d : Declaration}

/-! ## Fields behind the properties -/

def origin? (d : Declaration) (k : String) : Option (DeclaredField × Property) :=
  (described d).reverse.find? (·.1.name = k)

/-- The property under a name comes from a field that is marked as required. -/
def keptRequired (d : Declaration) (k : String) : Bool := (origin? d k).any (·.1.marks.required)

theorem origin?_eq_some_iff {k : String} {fp : DeclaredField × Property} : origin? d k = some fp ↔
    ∃ before after, described d = before ++ fp :: after ∧ fp.1.name = k ∧ ∀ g ∈ after, g.1.name ≠ k := by
  rw [origin?, find?_reverse_eq_some_iff]
  simp only [decide_eq_true_eq, decide_eq_false_iff_not]

theorem exists_origin? {fp : DeclaredField × Property} (h : fp ∈ described d) :
    ∃ g ∈ described d, origin? d fp.1.name = some g ∧ g.1.name = fp.1.name := by
  have hsome : (origin? d fp.1.name).isSome = true := by
    rw [origin?, List.find?_isSome]
    exact ⟨fp, List.mem_reverse.mpr h, by simp⟩
  obtain ⟨g, hg⟩ := Option.isSome_iff_exists.mp hsome
  have hname := List.find?_some hg
  exact ⟨g, List.mem_reverse.mp (List.mem_of_find?_eq_some hg), hg, by simpa using hname⟩

theorem get?_properties (d : Declaration) (k : String) :
    (ofStruct d).properties.get? k = (origin? d k).map (·.2) :=
  Table.get?_ofList (fun fp : DeclaredField × Property => fp.1.name) (·.2) (described d) k

theorem keys_properties (d : Declaration) :
    (ofStruct d).properties.keys = ((described d).map (·.1.name)).eraseDups := by
  have hkeys := Table.keys_ofList ((described d).map fun fp => (fp.1.name, fp.2))
  rw [List.map_map] at hkeys
  exact hkeys

/-! ## Names on the list -/

theorem mem_required_iff {k : String} : k ∈ (ofStruct d).required ↔
    ∃ fp ∈ described d, fp.1.name = k ∧ fp.1.marks.required = true := by
  constructor
  · intro h
    obtain ⟨fp, hfp, hk⟩ := List.mem_map.mp h
    obtain ⟨hmem, hrequired⟩ := List.mem_filter.mp hfp
    exact ⟨fp, hmem, hk, hrequired⟩
  · intro h
    obtain ⟨fp, hmem, hk, hrequired⟩ := h
    rw [← hk]
    exact mem_required_ofStruct hmem hrequired

theorem keptRequired_iff {k : String} : keptRequired d k = true ↔
    ∃ fp, origin? d k = some fp ∧ fp.1.marks.required = true := by
  unfold keptRequired
  cases origin? d k <;> simp

theorem mem_required_of_keptRequired {k : String} (h : keptRequired d k = true) : k ∈ (ofStruct d).required := by
  obtain ⟨fp, horigin, hrequired⟩ := keptRequired_iff.mp h
  obtain ⟨before, after, hd, hname, -⟩ := origin?_eq_some_iff.mp horigin
  exact mem_required_iff.mpr ⟨fp, by simp [hd], hname, hrequired⟩

theorem mem_keys_of_mem_required {k : String} (h : k ∈ (ofStruct d).required) :
    k ∈ (ofStruct d).properties.keys := by
  obtain ⟨fp, hmem, hk, -⟩ := mem_required_iff.mp h
  rw [keys_properties, List.mem_eraseDups]
  exact List.mem_map.mpr ⟨fp, hmem, hk⟩

/-- Fields that share a name are all marked as required, or none is. -/
def FlagsAgree (d : Declaration) : Prop := ∀ a ∈ described d, ∀ b ∈ described d,
  a.1.name = b.1.name → a.1.marks.required = b.1.marks.required

theorem flagsAgree_of_nodup (h : ((described d).map (·.1.name)).Nodup) : FlagsAgree d := by
  intro a ha b hb hname
  rw [List.inj_on_of_nodup_map h ha hb hname]

/-- Where flags agree, the field that is kept has the flag of each one that it replaced. -/
theorem FlagsAgree.required_eq (h : FlagsAgree d) :
    (ofStruct d).required = ((described d).map (·.1.name)).filter (keptRequired d) := by
  have hflag : ∀ fp ∈ described d, fp.1.marks.required = keptRequired d fp.1.name := by
    intro fp hfp
    obtain ⟨g, hg, horigin, hname⟩ := exists_origin? hfp
    rw [keptRequired, horigin, Option.any_some, h g hg fp hfp hname]
  rw [List.filter_map]
  exact congrArg (List.map _) (List.filter_congr hflag)

theorem FlagsAgree.eraseDups_required (h : FlagsAgree d) :
    (ofStruct d).required.eraseDups = (ofStruct d).properties.keys.filter (keptRequired d) := by
  rw [h.required_eq, eraseDups_filter, keys_properties]

theorem nodup_required_iff : (ofStruct d).required.Nodup ↔ (described d).Pairwise fun a b =>
    a.1.marks.required = true → b.1.marks.required = true → a.1.name ≠ b.1.name := by
  have hrequired : (ofStruct d).required = ((described d).filter (·.1.marks.required)).map (·.1.name) := rfl
  rw [hrequired, List.Nodup, List.pairwise_map, List.pairwise_filter]

theorem described_filter (d : Declaration) :
    described { d with fields := d.fields.filter fun f => !f.marks.ignored && f.type.isSome } = described d := by
  unfold described
  rw [List.filterMap_filter]
  apply List.filterMap_congr
  intro f _
  split
  · rfl
  · rename_i h
    have hnone : Property.ofField? f = none := by
      rw [Property.ofField?_eq_none_iff]
      cases htype : f.type <;> simp_all
    rw [hnone, Option.map_none]

/-- The required names of a structure. The property under a name is that of the last field with it, and the
names of all properties whose field is marked as required are listed. A name is listed for each field that
is marked, so none is listed twice exactly if no two marked fields share it, and none is listed for a
replaced field exactly if a marked field is always replaced by one that is marked too. Where fields of a
name agree in their marks, the list but for repetitions is that of the properties, in their order, and
where no two fields share a name it is just that. Fields that are ignored or have no description count for
neither. -/
theorem required_of_struct (d : Declaration) :
    let s := ofStruct d
    (∀ k, s.properties.get? k = (origin? d k).map (·.2)) ∧
    (∀ k fp, origin? d k = some fp ↔ ∃ before after, described d = before ++ fp :: after ∧
      fp.1.name = k ∧ ∀ g ∈ after, g.1.name ≠ k) ∧
    (∀ k, keptRequired d k = true → k ∈ s.required) ∧ (∀ k ∈ s.required, k ∈ s.properties.keys) ∧
    (s.required.Nodup ↔ (described d).Pairwise fun a b =>
      a.1.marks.required = true → b.1.marks.required = true → a.1.name ≠ b.1.name) ∧
    ((∀ k, k ∈ s.required ↔ keptRequired d k = true) ↔
      ∀ fp ∈ described d, fp.1.marks.required = true → keptRequired d fp.1.name = true) ∧
    (FlagsAgree d → s.required.eraseDups = s.properties.keys.filter (keptRequired d)) ∧
    (((described d).map (·.1.name)).Nodup → s.required = s.properties.keys.filter (keptRequired d)) ∧
    ofStruct { d with fields := d.fields.filter fun f => !f.marks.ignored && f.type.isSome } = s := by
  intro s
  refine ⟨get?_properties d, fun k fp => origin?_eq_some_iff, fun k => mem_required_of_keptRequired,
    fun k => mem_keys_of_mem_required, nodup_required_iff, ?_, FlagsAgree.eraseDups_required, ?_, ?_⟩
  · constructor
    · intro h fp hfp hrequired
      exact (h fp.1.name).mp (mem_required_ofStruct hfp hrequired)
    · intro h k
      refine ⟨fun hk => ?_, mem_required_of_keptRequired⟩
      obtain ⟨fp, hfp, rfl, hrequired⟩ := mem_required_iff.mp hk
      exact h fp hfp hrequired
  · intro h
    have hagree := flagsAgree_of_nodup h
    rw [← hagree.eraseDups_required, eraseDups_of_nodup]
    rw [hagree.required_eq]
    exact h.filter _
  · simp only [s, ofStruct, described_filter]

end Schema

/-! ## Fields that share names -/

def markedField (name : String) (required : Bool) (type : String) : DeclaredField where
  name := name
  marks := { required }
  marked := required
  type := some (.primitive type)

def apartDeclaration : Declaration where
  name := "Item"
  fields := [markedField "a" true "u32", { markedField "b" true "u32" with type := none },
    markedField "c" false "u32", markedField "d" true "bool"]

theorem required_of_struct_apart : ((Schema.described apartDeclaration).map (·.1.name)).Nodup ∧
    (Schema.ofStruct apartDeclaration).required =
      (Schema.ofStruct apartDeclaration).properties.keys.filter (Schema.keptRequired apartDeclaration) ∧
    (Schema.ofStruct apartDeclaration).required = ["a", "d"] := by
  have hnodup : ((Schema.described apartDeclaration).map (·.1.name)).Nodup := by decide
  obtain ⟨-, -, -, -, -, -, -, hrequired, -⟩ := Schema.required_of_struct apartDeclaration
  exact ⟨hnodup, hrequired hnodup, by decide⟩

def sharedDeclaration : Declaration where
  name := "Item"
  fields := [markedField "a" true "u32", markedField "b" false "u32", markedField "c" true "u32",
    markedField "b" true "bool", markedField "a" false "bool", markedField "c" true "bool"]

/-- The list names `a`, whose field is not marked, has `c` twice, and is not in the order of the
properties. -/
theorem required_shared : (Schema.ofStruct sharedDeclaration).required = ["a", "c", "b", "c"] ∧
    (Schema.ofStruct sharedDeclaration).properties.keys = ["a", "b", "c"] ∧
    (Schema.ofStruct sharedDeclaration).properties.keys.filter (Schema.keptRequired sharedDeclaration) =
      ["b", "c"] ∧
    ¬(Schema.ofStruct sharedDeclaration).required.Nodup ∧
    ¬∀ k ∈ (Schema.ofStruct sharedDeclaration).required, Schema.keptRequired sharedDeclaration k = true := by
  decide

end ApiDocs
