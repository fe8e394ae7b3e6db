import ApiDocs.Proofs.Units

/-!
# Assembly of records

What an assembled registry has for a method and a path is the operation of the last record for them.
Assembly turns appending into merging, so it does not matter how records are spread over files and
units.
-/

namespace ApiDocs

def SourceFile.records (file : SourceFile) : List Record := file.blocks.filterMap Record.ofBlock?

/-- The operation of a record for a method and a path, if it is for them. -/
def Record.operationAt (ctx : RouteContext) (slot : Method × String) (r : Record) : Option Operation :=
  if r.slot? = some (slot.2, slot.1) then some (ctx.operation r slot.1 slot.2) else none

namespace PathRegistry

theorem operation?_bind (paths : PathRegistry) (path : String) (m : Method) (o : Operation)
    (slot : Method × String) :
    operation? (bind paths path m o) slot = if slot = (m, path) then some o else operation? paths slot := by
  obtain ⟨n, p⟩ := slot
  unfold operation? item bind
  rw [Dict.get?_insert]
  by_cases hp : p = path
  · subst hp
    by_cases hn : n = m
    · simp [hn]
    · simp [hn]
  · simp [hp]

theorem tight_bind {paths : PathRegistry} (h : Tight paths) (path : String) (m : Method) (o : Operation) :
    Tight (bind paths path m o) := by
  intro p it hit
  unfold bind at hit
  rw [Dict.get?_insert] at hit
  split at hit
  · cases hit
    rw [Bool.eq_false_iff]
    intro hempty
    have := PathItem.isEmpty_iff.mp hempty m
    simp at this
  · exact h p it hit

section
variable (ctx : RouteContext)

theorem operation?_addRecord (paths : PathRegistry) (r : Record) (slot : Method × String) :
    operation? (addRecord ctx paths r) slot = (r.operationAt ctx slot).or (operation? paths slot) := by
  unfold addRecord Record.operationAt
  cases hr : r.slot? with
  | none => simp
  | some target =>
    obtain ⟨path, m⟩ := target
    simp only
    rw [operation?_bind]
    by_cases hs : slot = (m, path)
    · subst hs
      simp
    · have hne : some (path, m) ≠ some (slot.2, slot.1) := by
        intro he
        cases he
        exact hs rfl
      rw [if_neg hs, if_neg hne]
      rfl

theorem operation?_foldl (slot : Method × String) : ∀ (records : List Record) (paths : PathRegistry),
    operation? (records.foldl (addRecord ctx) paths) slot =
      (records.reverse.findSome? (Record.operationAt ctx slot)).or (operation? paths slot)
  | [], paths => rfl
  | r :: records, paths => by
    rw [List.foldl_cons, operation?_foldl slot records, operation?_addRecord, List.reverse_cons,
      List.findSome?_append, Option.or_assoc]
    rw [List.findSome?_singleton]

/-- The last record for a method and a path counts. -/
theorem operation?_assemble (records : List Record) (slot : Method × String) :
    operation? (assemble ctx records) slot =
      records.reverse.findSome? (Record.operationAt ctx slot) := by
  unfold assemble
  rw [operation?_foldl, show operation? Dict.empty slot = none from PathItem.operation_default slot.1,
    Option.or_none]

theorem isSome_operation?_assemble {records : List Record} {slot : Method × String} :
    (operation? (assemble ctx records) slot).isSome ↔ ∃ r ∈ records, r.slot? = some (slot.2, slot.1) := by
  rw [operation?_assemble, List.isSome_findSome?, List.any_reverse, List.any_eq_true]
  refine exists_congr fun r => and_congr_right fun _ => ?_
  unfold Record.operationAt
  split
  · simp [*]
  · simp [*]

theorem tight_addRecord {paths : PathRegistry} (h : Tight paths) (r : Record) :
    Tight (addRecord ctx paths r) := by
  unfold addRecord
  split
  · exact tight_bind h _ _ _
  · exact h

theorem tight_assemble (records : List Record) : Tight (assemble ctx records) := by
  unfold assemble
  refine List.foldlRecOn (motive := Tight) records (addRecord ctx) ?_ ?_
  · intro _ _ h
    cases h
  · exact fun paths h r _ => tight_addRecord ctx h r

/-- **Assembly is a homomorphism.** -/
theorem merge_assemble (rs₁ rs₂ : List Record) :
    (merge (assemble ctx rs₁) (assemble ctx rs₂)).1 = assemble ctx (rs₁ ++ rs₂) := by
  refine ext_of_tight (tight_merge (tight_assemble ctx rs₁) _) (tight_assemble ctx _) fun slot => ?_
  rw [operation?_merge, operation?_assemble, operation?_assemble, operation?_assemble,
    List.reverse_append, List.findSome?_append]

theorem join_assemble {a b : Merged PathRegistry} {rs₁ rs₂ : List Record}
    (ha : a.registry = assemble ctx rs₁) (hb : b.registry = assemble ctx rs₂) :
    (a.join b).registry = assemble ctx (rs₁ ++ rs₂) := by
  rw [← merge_assemble, ← ha, ← hb]
  rfl

theorem foldl_join_assemble {ι : Type} (report : ι → Merged PathRegistry) (records : ι → List Record)
    (h : ∀ i, (report i).registry = assemble ctx (records i)) :
    ∀ (l : List ι) (m : Merged PathRegistry) (rs : List Record), m.registry = assemble ctx rs →
      (l.foldl (fun sofar i => sofar.join (report i)) m).registry = assemble ctx (rs ++ l.flatMap records)
  | [], m, rs, hm => by rw [List.flatMap_nil, List.append_nil]; exact hm
  | i :: l, m, rs, hm => by
    rw [List.foldl_cons, List.flatMap_cons, ← List.append_assoc]
    exact foldl_join_assemble report records h l _ _ (join_assemble ctx hm (h i))

/-! ## Files and units -/

theorem foldl_yields_assemble : ∀ (files : List SourceFile) (m : Merged PathRegistry) (rs : List Record),
    m.registry = assemble ctx rs →
      ((yields (ofFile ctx) files).foldl (fun sofar r => sofar.join { registry := r }) m).registry =
        assemble ctx (rs ++ files.flatMap SourceFile.records)
  | [], m, rs, hm => by rw [List.flatMap_nil, List.append_nil]; exact hm
  | file :: files, m, rs, hm => by
    rw [List.flatMap_cons, ← List.append_assoc]
    cases hr : file.records with
    | nil =>
      -- a file without records is skipped
      have hy : yields (ofFile ctx) (file :: files) = yields (ofFile ctx) files := by
        unfold SourceFile.records at hr
        simp [yields, ofFile, hr, Except.toOption]
      rw [hy, List.append_nil]
      exact foldl_yields_assemble files m rs hm
    | cons r records =>
      have hy : yields (ofFile ctx) (file :: files) =
          assemble ctx (r :: records) :: yields (ofFile ctx) files := by
        unfold SourceFile.records at hr
        simp [yields, ofFile, hr, Except.toOption]
      have hj : (m.join { registry := assemble ctx (r :: records) }).registry =
          assemble ctx (rs ++ (r :: records)) := join_assemble ctx hm (by dsimp only)
      rw [hy, List.foldl_cons]
      exact foldl_yields_assemble files _ _ hj

theorem unitReport_assemble (files : List SourceFile) :
    (unitReport (yields (ofFile ctx) files)).registry = assemble ctx (files.flatMap SourceFile.records) :=
  foldl_yields_assemble ctx files _ [] rfl

theorem aggregate_assemble (units : List (List SourceFile)) :
    (aggregate (units.map (yields (ofFile ctx)))).registry =
      assemble ctx (units.flatten.flatMap SourceFile.records) := by
  have h := foldl_join_assemble ctx (fun files => unitReport (yields (ofFile ctx) files))
    (fun files => files.flatMap SourceFile.records) (unitReport_assemble ctx) units
    { registry := Registry.empty } [] rfl
  unfold aggregate
  rw [List.foldl_map, h, List.nil_append, ← List.flatMap_id, List.flatMap_assoc]
  rfl

end

end PathRegistry

end ApiDocs
