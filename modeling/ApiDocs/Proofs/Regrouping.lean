import ApiDocs.Proofs.Reports

/-!
# Merging in groups

Files are merged into units before the units are merged, so registries are grouped. Grouping changes
neither the registry nor, up to their order, the reports: both ways are accounts of the same registries.
What binds nothing changes nothing.
-/

namespace ApiDocs

open Slotted

/-! ## Two ways to merge three registries -/

section
variable {ρ σ ν : Type} [Registry ρ]

/-- Two registries come into a third one, one after the other. -/
def mergedInTurn (a b c : ρ) : ρ × List String :=
  let first := Registry.merge a b
  let second := Registry.merge first.1 c
  (second.1, first.2 ++ second.2)

/-- Two registries are merged with each other, and the result comes into a third one. -/
def mergedAsGroup (a b c : ρ) : ρ × List String :=
  let group := Registry.merge b c
  let all := Registry.merge a group.1
  (all.1, group.2 ++ all.2)

variable [Slotted ρ σ ν]

theorem accounts_inTurn (a b c : ρ) :
    Accounts ⟨(mergedInTurn a b c).1, (mergedInTurn a b c).2⟩ [a, b, c] := by
  have h := ((accounts_file a).join (accounts_file b)).join (accounts_file c)
  simpa [Merged.join, mergedInTurn] using h

theorem accounts_asGroup (a b c : ρ) :
    Accounts ⟨(mergedAsGroup a b c).1, (mergedAsGroup a b c).2⟩ [a, b, c] := by
  have h := (accounts_file a).join ((accounts_file b).join (accounts_file c))
  simpa [Merged.join, mergedAsGroup] using h

/-- Grouping changes nothing. The last registry that binds a slot counts, and the slot is reported once
for every other one that binds it. -/
structure Regroups (a b c : ρ) : Prop where
  same_registry : (mergedInTurn a b c).1 = (mergedAsGroup a b c).1
  same_reports : (mergedInTurn a b c).2.Perm (mergedAsGroup a b c).2
  find_eq : ∀ s, find (mergedInTurn a b c).1 s = (find c s).or ((find b s).or (find a s))
  count_eq : ∀ s : σ, (mergedInTurn a b c).2.count (describe ρ s) =
    [a, b, c].countP (fun r => (find r s).isSome) - 1
  described : ∀ text ∈ (mergedInTurn a b c).2, ∃ s : σ, describe ρ s = text

theorem regroups_of_eq {a b c : ρ} (h : (mergedInTurn a b c).1 = (mergedAsGroup a b c).1) :
    Regroups a b c where
  same_registry := h
  same_reports := (accounts_inTurn a b c).collisions_perm (accounts_asGroup a b c) (.refl _)
  find_eq s := by
    have hfind := (accounts_inTurn a b c).find_eq s
    simp only [List.reverse_cons, List.reverse_nil, List.nil_append, List.cons_append, List.findSome?_cons,
      List.findSome?_nil] at hfind
    rw [hfind]
    cases find c s <;> cases find b s <;> cases find a s <;> rfl
  count_eq := (accounts_inTurn a b c).count_eq
  described := (accounts_inTurn a b c).described

end

/-! ## Registries of schemas -/

namespace SchemaRegistry

theorem merge_assoc (a b c : SchemaRegistry) : (merge (merge a b).1 c).1 = (merge a (merge b c).1).1 := by
  refine Dict.ext_get? fun name => ?_
  simp only [get?_merge, Option.or_assoc]

end SchemaRegistry

/-! ## Registries of paths -/

namespace PathRegistry

theorem merge_assoc (a b c : PathRegistry) : (merge (merge a b).1 c).1 = (merge a (merge b c).1).1 := by
  refine Dict.ext_get? fun path => ?_
  rw [get?_merge _ c, get?_merge a (merge b c).1, get?_merge b c]
  cases hc : (c.get? path).filter fun item => !item.isEmpty with
  | none => exact get?_merge a b path
  | some last =>
    have hlast : last.isEmpty = false := by simpa using (Option.filter_eq_some_iff.mp hc).2
    -- the item of a group is skipped only if both of its parts are
    have hgroup : (!((item b path).absorb last).1.isEmpty) = true := by
      rw [PathItem.isEmpty_absorb, hlast, Bool.and_false]
      rfl
    simp only [Option.map_some, Option.some_or, Option.filter, hgroup, if_true]
    rw [item_merge, PathItem.absorb_assoc]

def withoutEmpty (paths : PathRegistry) : PathRegistry := paths.filter fun _ item => !item.isEmpty

theorem get?_withoutEmpty (paths : PathRegistry) (path : String) :
    (withoutEmpty paths).get? path = (paths.get? path).filter fun item => !item.isEmpty :=
  Dict.lookup_filter (fun e : String × PathItem => !e.2.isEmpty) path paths.sorted

theorem merge_withoutEmpty (a b : PathRegistry) : merge a (withoutEmpty b) = merge a b := by
  simp [merge, withoutEmpty, Dict.filter]

theorem withoutEmpty_eq_empty {paths : PathRegistry}
    (h : ∀ path item, paths.get? path = some item → item.isEmpty = true) :
    withoutEmpty paths = Dict.empty := by
  refine Dict.ext_get? fun path => ?_
  rw [get?_withoutEmpty, Dict.get?_empty, Option.filter_eq_none_iff]
  intro item hitem
  simpa using h path item hitem

theorem merge_of_isEmpty (a : PathRegistry) {b : PathRegistry}
    (h : ∀ path item, b.get? path = some item → item.isEmpty = true) : merge a b = (a, []) := by
  rw [← merge_withoutEmpty, withoutEmpty_eq_empty h]
  rfl

theorem exists_slot_of_report {a b : PathRegistry} {text : String} (h : text ∈ (merge a b).2) :
    ∃ m path, (operation? a (m, path)).isSome ∧ (operation? b (m, path)).isSome ∧
      ∀ n other, route n other = text ↔ n = m ∧ other = path := by
  rw [merge_reports] at h
  obtain ⟨⟨m, path⟩, hslot, rfl⟩ := List.mem_map.mp h
  obtain ⟨ha, hb⟩ := mem_shared.mp hslot
  refine ⟨m, path, ha, hb, fun n other => ⟨route_inj, ?_⟩⟩
  rintro ⟨rfl, rfl⟩
  rfl

end PathRegistry

/-! ## Both kinds of registries -/

/-- Registries of schemas and registries of paths may be grouped in any way, items without operations
included. An empty registry, or one whose items bind nothing, changes nothing and reports nothing, and
items without operations beside others change nothing either. A reported route is that of one method and
path only, which both registries bind. -/
theorem merge_regroups :
    (∀ a b c : SchemaRegistry, Regroups a b c) ∧
    (∀ a b c : PathRegistry, Regroups a b c) ∧
    (∀ a : SchemaRegistry, Registry.merge a Registry.empty = (a, [])) ∧
    (∀ a : PathRegistry, Registry.merge a Registry.empty = (a, [])) ∧
    (∀ a b : PathRegistry, (∀ path item, b.get? path = some item → item.isEmpty = true) →
      Registry.merge a b = (a, [])) ∧
    (∀ a b : PathRegistry, Registry.merge a (PathRegistry.withoutEmpty b) = Registry.merge a b) ∧
    ∀ a b : PathRegistry, ∀ text ∈ (Registry.merge a b).2, ∃ m path,
      (a.operation? (m, path)).isSome ∧ (b.operation? (m, path)).isSome ∧
        ∀ n other, PathRegistry.route n other = text ↔ n = m ∧ other = path := by
  refine ⟨fun a b c => ?_, fun a b c => ?_, fun _ => rfl, fun _ => rfl, ?_,
    PathRegistry.merge_withoutEmpty, ?_⟩
  · exact regroups_of_eq (SchemaRegistry.merge_assoc a b c)
  · exact regroups_of_eq (PathRegistry.merge_assoc a b c)
  · intro a b h
    exact PathRegistry.merge_of_isEmpty a h
  · intro a b text h
    exact PathRegistry.exists_slot_of_report h

def emptyPing : PathRegistry := Dict.empty.insert "/ping" {}

theorem merge_regroups_ping :
    Regroups emptyPing (getPing "a") (getPing "b") ∧
    Regroups (getPing "a") emptyPing (getPing "b") ∧
    Regroups (getPing "a") (getPing "b") emptyPing ∧
    ((∀ path item, emptyPing.get? path = some item → item.isEmpty = true) ∧
      Registry.merge (getPing "a") emptyPing = (getPing "a", [])) ∧
    "GET /ping" ∈ (Registry.merge (getPing "a") (getPing "b")).2 ∧
    ∃ m path, ∀ n other, PathRegistry.route n other = "GET /ping" ↔ n = m ∧ other = path := by
  have hempty : ∀ path item, emptyPing.get? path = some item → item.isEmpty = true := by
    intro path item h
    rw [emptyPing, Dict.get?_insert] at h
    split at h
    · cases h
      decide
    · cases h
  have hreported : "GET /ping" ∈ (Registry.merge (getPing "a") (getPing "b")).2 := by decide
  obtain ⟨-, hpaths, -, -, hnothing, -, hreport⟩ := merge_regroups
  obtain ⟨m, path, -, -, hroute⟩ := hreport _ _ _ hreported
  exact ⟨hpaths _ _ _, hpaths _ _ _, hpaths _ _ _, ⟨hempty, hnothing _ _ hempty⟩, hreported, m, path, hroute⟩

end ApiDocs
