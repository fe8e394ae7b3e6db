import ApiDocs.Proofs.Keyed
import ApiDocs.Registry

/-!
# Slots of registries

A registry of schemas binds names, a registry of paths binds methods of paths. Both are read here as a
map from slots, and merging is described slot by slot: the incoming value counts, and exactly the slots
that both sides bind are reported.
-/

namespace ApiDocs

/-! ## Path items -/

namespace PathItem

theorem ext_operation {a b : PathItem} (h : ∀ m, a.operation m = b.operation m) : a = b := by
  cases a
  cases b
  rw [PathItem.mk.injEq]
  exact ⟨h .get, h .post, h .put, h .delete, h .patch, h .options, h .head⟩

@[simp] theorem operation_default (m : Method) : ({} : PathItem).operation m = none := by cases m <;> rfl

theorem isEmpty_iff {item : PathItem} : item.isEmpty = true ↔ ∀ m, item.operation m = none := by
  unfold isEmpty operations
  rw [List.isEmpty_iff, List.filterMap_eq_nil_iff]
  constructor
  · intro h m
    simpa using h m m.mem_all
  · intro h m _
    rw [h m]
    rfl

theorem eq_default_of_isEmpty {item : PathItem} (h : item.isEmpty = true) : item = {} :=
  ext_operation fun m => by rw [isEmpty_iff.mp h m, operation_default]

theorem operation_foldl_set (incoming : PathItem) (n : Method) :
    ∀ (ms : List Method) (item : PathItem),
      ((ms.filterMap fun m => (incoming.operation m).map (m, ·)).foldl (fun i mo => i.set mo.1 mo.2)
        item).operation n =
        if n ∈ ms then (incoming.operation n).or (item.operation n) else item.operation n
  | [], item => rfl
  | m :: ms, item => by
    rw [List.filterMap_cons]
    cases hm : incoming.operation m with
    | none =>
      simp only [Option.map_none]
      rw [operation_foldl_set incoming n ms item]
      by_cases hn : n = m
      · subst hn
        simp [hm]
      · simp [hn]
    | some o =>
      simp only [Option.map_some, List.foldl_cons]
      rw [operation_foldl_set incoming n ms, operation_set]
      by_cases hn : n = m
      · subst hn
        simp [hm]
      · simp [hn]

theorem operation_absorb (item incoming : PathItem) (m : Method) :
    (item.absorb incoming).1.operation m = (incoming.operation m).or (item.operation m) := by
  unfold absorb operations
  rw [operation_foldl_set, if_pos m.mem_all]

theorem absorb_default (item : PathItem) : (item.absorb {}).1 = item :=
  ext_operation fun m => by rw [operation_absorb, operation_default, Option.none_or]

theorem absorb_assoc (a b c : PathItem) : ((a.absorb b).1.absorb c).1 = (a.absorb (b.absorb c).1).1 :=
  ext_operation fun m => by simp only [operation_absorb, Option.or_assoc]

theorem isEmpty_absorb (item incoming : PathItem) :
    (item.absorb incoming).1.isEmpty = (item.isEmpty && incoming.isEmpty) := by
  rw [Bool.eq_iff_iff, Bool.and_eq_true]
  simp only [isEmpty_iff, operation_absorb, Option.or_eq_none_iff, forall_and]
  exact and_comm

def common (item incoming : PathItem) : List Method :=
  Method.all.filter fun m => (item.operation m).isSome && (incoming.operation m).isSome

theorem mem_common {item incoming : PathItem} {m : Method} :
    m ∈ item.common incoming ↔ (item.operation m).isSome ∧ (incoming.operation m).isSome := by
  unfold common
  rw [List.mem_filter, Bool.and_eq_true]
  exact ⟨And.right, fun h => ⟨m.mem_all, h⟩⟩

theorem absorb_common (item incoming : PathItem) : (item.absorb incoming).2 = item.common incoming := by
  unfold absorb operations common
  induction Method.all with
  | nil => rfl
  | cons m ms ih =>
    rw [List.filterMap_cons, List.filter_cons]
    cases hm : incoming.operation m with
    | none => simpa [hm] using ih
    | some o =>
      cases hi : item.operation m with
      | none => simpa [hm, hi] using ih
      | some o' => simpa [hm, hi] using ih

theorem common_default (item : PathItem) : item.common {} = [] := by
  unfold common
  simp

end PathItem

/-! ## Paths -/

namespace PathRegistry

def operation? (paths : PathRegistry) (slot : Method × String) : Option Operation :=
  (item paths slot.2).operation slot.1

theorem get?_merge (a b : PathRegistry) (path : String) :
    (merge a b).1.get? path =
      (((b.get? path).filter fun item => !item.isEmpty).map fun incoming =>
        ((item a path).absorb incoming).1).or (a.get? path) := by
  have h := Dict.get?_foldl_update (fun old incoming => ((old.getD {}).absorb incoming).1) path
    (b.entries.filter fun e => !e.2.isEmpty) a (b.sorted.filter _)
  rw [Dict.lookup_filter (fun e => !e.2.isEmpty) path b.sorted] at h
  exact h

theorem item_merge (a b : PathRegistry) (path : String) :
    item (merge a b).1 path = ((item a path).absorb (item b path)).1 := by
  rw [item, get?_merge]
  cases hb : b.get? path with
  | none =>
    have : item b path = {} := by rw [item, hb]; rfl
    rw [this, PathItem.absorb_default]
    rfl
  | some incoming =>
    have hi : item b path = incoming := by rw [item, hb]; rfl
    rw [hi]
    by_cases he : incoming.isEmpty = true
    · rw [PathItem.eq_default_of_isEmpty he, PathItem.absorb_default]
      rfl
    · simp [he, Option.filter]

theorem operation?_merge (a b : PathRegistry) (slot : Method × String) :
    operation? (merge a b).1 slot = (operation? b slot).or (operation? a slot) := by
  unfold operation?
  rw [item_merge, PathItem.operation_absorb]

/-! ### Reports -/

theorem route_inj {m n : Method} {p q : String} (h : route m p = route n q) : m = n ∧ p = q := by
  have h' : m.key.toList.map Text.upperAscii ++ ' ' :: p.toList =
      n.key.toList.map Text.upperAscii ++ ' ' :: q.toList := by
    have := congrArg String.toList h
    simpa [route, Method.display, String.toList_append] using this
  -- no method's name holds a blank, so the names end at the same place
  cases m <;> cases n <;> simp [Method.key, Text.upperAscii, String.toList_inj] at h' ⊢ <;> assumption

def shared (a b : PathRegistry) : List (Method × String) :=
  b.entries.flatMap fun e => ((item a e.1).common e.2).map (·, e.1)

def SlotBefore (s t : Method × String) : Prop :=
  s.2 < t.2 ∨ s.2 = t.2 ∧ Method.all.idxOf s.1 < Method.all.idxOf t.1

theorem SlotBefore.ne {s t : Method × String} (h : SlotBefore s t) : s ≠ t := by
  rintro rfl
  rcases h with h | ⟨_, h⟩
  · exact String.lt_irrefl _ h
  · exact Nat.lt_irrefl _ h

theorem common_sorted (item incoming : PathItem) :
    (item.common incoming).Pairwise fun m n => Method.all.idxOf m < Method.all.idxOf n := by
  have h : Method.all.Pairwise fun m n => Method.all.idxOf m < Method.all.idxOf n := by decide
  exact h.filter _

theorem shared_sorted (a b : PathRegistry) : (shared a b).Pairwise SlotBefore := by
  unfold shared
  rw [List.pairwise_flatMap]
  constructor
  · intro e _
    rw [List.pairwise_map]
    exact (common_sorted _ _).imp fun h => Or.inr ⟨rfl, h⟩
  · refine b.sorted.imp ?_
    intro e f hef s hs t ht
    obtain ⟨m, _, rfl⟩ := List.mem_map.mp hs
    obtain ⟨n, _, rfl⟩ := List.mem_map.mp ht
    exact Or.inl hef

theorem nodup_shared (a b : PathRegistry) : (shared a b).Nodup :=
  (shared_sorted a b).imp SlotBefore.ne

theorem mem_shared {a b : PathRegistry} {slot : Method × String} :
    slot ∈ shared a b ↔ (operation? a slot).isSome ∧ (operation? b slot).isSome := by
  obtain ⟨m, path⟩ := slot
  unfold shared operation?
  rw [List.mem_flatMap]
  constructor
  · rintro ⟨⟨p, incoming⟩, he, hs⟩
    obtain ⟨n, hn, heq⟩ := List.mem_map.mp hs
    rw [Prod.mk.injEq] at heq
    obtain ⟨rfl, rfl⟩ := heq
    have hi : item b p = incoming := by rw [item, Dict.mem_entries_iff.mp he]; rfl
    rw [hi]
    exact PathItem.mem_common.mp hn
  · rintro ⟨ha, hb⟩
    cases hp : b.get? path with
    | none => simp [item, hp] at hb
    | some incoming =>
      have hi : item b path = incoming := by rw [item, hp]; rfl
      rw [hi] at hb
      exact ⟨(path, incoming), Dict.mem_entries_iff.mpr hp,
        List.mem_map.mpr ⟨m, PathItem.mem_common.mpr ⟨ha, hb⟩, rfl⟩⟩

theorem merge_reports (a b : PathRegistry) :
    (merge a b).2 = (shared a b).map fun slot => route slot.1 slot.2 := by
  unfold merge shared
  rw [List.map_flatMap]
  induction b.entries with
  | nil => rfl
  | cons e l ih =>
    rw [List.filter_cons, List.flatMap_cons, ← ih, List.map_map]
    by_cases he : e.2.isEmpty = true
    · rw [PathItem.eq_default_of_isEmpty he, PathItem.common_default]
      rfl
    · simp [he, PathItem.absorb_common, Function.comp_def]

/-! ### Registries without empty items -/

/-- Every item that is held binds an operation. -/
def Tight (paths : PathRegistry) : Prop :=
  ∀ path item, paths.get? path = some item → item.isEmpty = false

theorem tight_merge {a : PathRegistry} (ha : Tight a) (b : PathRegistry) : Tight (merge a b).1 := by
  intro path it h
  rw [get?_merge] at h
  cases hb : (b.get? path).filter fun item => !item.isEmpty with
  | some incoming =>
    obtain ⟨_, hne⟩ := Option.filter_eq_some_iff.mp hb
    rw [hb] at h
    cases h
    have hbound : incoming.isEmpty = false := by simpa using hne
    rw [PathItem.isEmpty_absorb, hbound, Bool.and_false]
  | none =>
    rw [hb] at h
    exact ha path it h

theorem get?_of_tight {a : PathRegistry} (ha : Tight a) (path : String) :
    a.get? path = if (item a path).isEmpty then none else some (item a path) := by
  cases hp : a.get? path with
  | none =>
    have : (item a path).isEmpty = true := PathItem.isEmpty_iff.mpr fun m => by simp [item, hp]
    rw [if_pos this]
  | some it =>
    have hi : item a path = it := by rw [item, hp]; rfl
    rw [hi, ha path it hp]
    rfl

theorem ext_of_tight {a b : PathRegistry} (ha : Tight a) (hb : Tight b)
    (h : ∀ slot, operation? a slot = operation? b slot) : a = b := by
  refine Dict.ext_get? fun path => ?_
  have hi : item a path = item b path := PathItem.ext_operation fun m => h (m, path)
  rw [get?_of_tight ha, get?_of_tight hb, hi]

end PathRegistry

/-! ## Schemas -/

namespace SchemaRegistry

theorem get?_merge (a b : SchemaRegistry) (name : String) :
    (merge a b).1.get? name = (b.get? name).or (a.get? name) :=
  Dict.get?_overlay a b.sorted name

def shared (a b : SchemaRegistry) : List String := b.keys.filter a.contains

theorem mem_shared {a b : SchemaRegistry} {name : String} :
    name ∈ shared a b ↔ (a.get? name).isSome ∧ (b.get? name).isSome := by
  unfold shared
  rw [List.mem_filter, Dict.mem_keys_iff]
  exact And.comm

end SchemaRegistry

/-! ## What the registries have in common -/

/-- A registry that is read as a map from slots. Merging lays the incoming slots over those that are
there and reports the slots that both bind. -/
class Slotted (ρ : Type) (σ ν : outParam Type) [Registry ρ] where
  find : ρ → σ → Option ν
  /-- The name of a slot in reports. -/
  describe : σ → String
  /-- The slots that both bind, in the order of reports. -/
  shared : ρ → ρ → List σ
  /-- Nothing is held besides bound slots. -/
  Tight : ρ → Prop
  describe_inj : ∀ {s t}, describe s = describe t → s = t
  find_empty : ∀ s, find Registry.empty s = none
  find_merge : ∀ a b s, find (Registry.merge a b).1 s = (find b s).or (find a s)
  merge_reports : ∀ a b, (Registry.merge a b).2 = (shared a b).map describe
  nodup_shared : ∀ a b, (shared a b).Nodup
  mem_shared : ∀ {a b s}, s ∈ shared a b ↔ (find a s).isSome ∧ (find b s).isSome
  tight_empty : Tight Registry.empty
  tight_merge : ∀ {a} b, Tight a → Tight (Registry.merge a b).1
  ext_of_tight : ∀ {a b}, Tight a → Tight b → (∀ s, find a s = find b s) → a = b

instance : Slotted SchemaRegistry String Schema where
  find := Dict.get?
  describe := id
  shared := SchemaRegistry.shared
  Tight _ := True
  describe_inj h := h
  find_empty _ := rfl
  find_merge := SchemaRegistry.get?_merge
  merge_reports _ _ := (List.map_id _).symm
  nodup_shared _ b := b.nodup_keys.filter _
  mem_shared := SchemaRegistry.mem_shared
  tight_empty := trivial
  tight_merge _ _ := trivial
  ext_of_tight _ _ := Dict.ext_get?

instance : Slotted PathRegistry (Method × String) Operation where
  find := PathRegistry.operation?
  describe slot := PathRegistry.route slot.1 slot.2
  shared := PathRegistry.shared
  Tight := PathRegistry.Tight
  describe_inj h := Prod.ext (PathRegistry.route_inj h).1 (PathRegistry.route_inj h).2
  find_empty slot := PathItem.operation_default slot.1
  find_merge := PathRegistry.operation?_merge
  merge_reports := PathRegistry.merge_reports
  nodup_shared := PathRegistry.nodup_shared
  mem_shared := PathRegistry.mem_shared
  tight_empty _ _ h := by cases h
  tight_merge b h := PathRegistry.tight_merge h b
  ext_of_tight := PathRegistry.ext_of_tight

end ApiDocs
