import ApiDocs.Proofs.WellFormed

/-!
# What assembly binds

A record is for one method and one path, or for none. Assembly binds a method and a path exactly where
some record is for them, and the last such record decides. Records that are for nothing leave no trace.
-/

namespace ApiDocs

/-- The record names the method, and the path in some spelling. -/
def Record.IsFor (r : Record) (m : Method) (path : String) : Prop :=
  normalizePath r.path = path ∧ path ≠ "" ∧ Method.ofText? r.method = some m

theorem Record.slot?_eq_some_iff {r : Record} {m : Method} {path : String} :
    r.slot? = some (path, m) ↔ r.IsFor m path := by
  constructor
  · intro h
    obtain ⟨hpath, hmethod⟩ := Record.slot?_eq_some h
    refine ⟨hpath, ?_, hmethod⟩
    rintro rfl
    have hslash := head?_of_slot? h
    simp at hslash
  · rintro ⟨rfl, hne, hmethod⟩
    have hempty : ¬(normalizePath r.path).isEmpty = true := by simpa using hne
    rw [Record.slot?, if_neg hempty, hmethod, Option.map_some]

theorem Record.operationAt_eq (ctx : RouteContext) (m : Method) (path : String) (r : Record)
    (o : Operation) : r.operationAt ctx (m, path) = some o ↔ r.IsFor m path ∧ o = ctx.operation r m path := by
  rw [Record.operationAt, Option.ite_none_right_eq_some, Record.slot?_eq_some_iff, Option.some.injEq,
    eq_comm (a := o)]

theorem Record.operationAt_eq_none (ctx : RouteContext) (m : Method) (path : String) (r : Record) :
    r.operationAt ctx (m, path) = none ↔ ¬r.IsFor m path := by
  rw [Record.operationAt, ite_eq_right_iff, Record.slot?_eq_some_iff]
  simp

namespace PathRegistry

/-- Records that are for nothing can be left out. -/
theorem foldl_addRecord_filter (ctx : RouteContext) (records : List Record) (paths : PathRegistry) :
    (records.filter fun r => r.slot?.isSome).foldl (addRecord ctx) paths =
      records.foldl (addRecord ctx) paths := by
  induction records generalizing paths with
  | nil => rfl
  | cons r records ih =>
    rw [List.filter_cons, List.foldl_cons]
    cases hr : r.slot? with
    | none =>
      have hskip : addRecord ctx paths r = paths := by simp [addRecord, hr]
      simpa [hskip] using ih paths
    | some slot => simpa using ih _

theorem Tight.exists_operation {paths : PathRegistry} (h : Tight paths) {path : String} {item : PathItem}
    (hitem : paths.get? path = some item) : ∃ m o, item.operation m = some o := by
  have hne : item.operations ≠ [] := by
    intro hnil
    have hempty := h path item hitem
    simp [PathItem.isEmpty, hnil] at hempty
  obtain ⟨⟨m, o⟩, hmo⟩ := List.exists_mem_of_ne_nil _ hne
  exact ⟨m, o, PathItem.mem_operations.mp hmo⟩

theorem head?_of_get?_assemble {ctx : RouteContext} {records : List Record} {path : String}
    {item : PathItem} (h : (assemble ctx records).get? path = some item) :
    path.toList.head? = some '/' := by
  -- an item that is there binds something, and what is bound comes from a record
  obtain ⟨m, o, ho⟩ := (tight_assemble ctx records).exists_operation h
  have hbound : (operation? (assemble ctx records) (m, path)).isSome := by
    simp [operation?, PathRegistry.item, h, ho]
  obtain ⟨r, _, hr⟩ := (isSome_operation?_assemble ctx).mp hbound
  exact head?_of_slot? hr

end PathRegistry

open PathRegistry in
/-- Assembly binds a method and a path exactly where some record is for them, and binds the operation of
the last such record. Other records have no effect, no item is empty, and every path has its slash. -/
theorem assemble_binds_last (ctx : RouteContext) (records : List Record) :
    (∀ m path, (operation? (assemble ctx records) (m, path)).isSome ↔ ∃ r ∈ records, r.IsFor m path) ∧
    (∀ m path o, operation? (assemble ctx records) (m, path) = some o ↔
      ∃ before r after, records = before ++ r :: after ∧ r.IsFor m path ∧
        (∀ x ∈ after, ¬x.IsFor m path) ∧ o = ctx.operation r m path) ∧
    assemble ctx records = assemble ctx
      (records.filter fun r => normalizePath r.path ≠ "" ∧ (Method.ofText? r.method).isSome) ∧
    ∀ path item, (assemble ctx records).get? path = some item →
      (∃ m o, item.operation m = some o) ∧ path.toList.head? = some '/' := by
  refine ⟨fun m path => ?_, fun m path o => ?_, ?_, fun path item h => ?_⟩
  · rw [isSome_operation?_assemble]
    simp only [Record.slot?_eq_some_iff]
  · rw [operation?_assemble, findSome?_reverse_eq_some]
    simp only [Record.operationAt_eq, Record.operationAt_eq_none]
    constructor
    · rintro ⟨before, r, after, hrecords, ⟨hr, ho⟩, hafter⟩
      exact ⟨before, r, after, hrecords, hr, hafter, ho⟩
    · rintro ⟨before, r, after, hrecords, hr, hafter, ho⟩
      exact ⟨before, r, after, hrecords, ⟨hr, ho⟩, hafter⟩
  · have hvalid : ∀ r : Record,
        r.slot?.isSome = decide (normalizePath r.path ≠ "" ∧ (Method.ofText? r.method).isSome) := by
      intro r
      by_cases hpath : normalizePath r.path = ""
      · simp [Record.slot?, hpath]
      · simp [Record.slot?, hpath]
    have hskip := foldl_addRecord_filter ctx records Dict.empty
    simp only [hvalid] at hskip
    exact hskip.symm
  · exact ⟨(tight_assemble ctx records).exists_operation h, head?_of_get?_assemble h⟩

example : normalizePath "users" = normalizePath " /users" := by decide

end ApiDocs
