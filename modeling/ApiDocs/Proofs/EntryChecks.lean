import ApiDocs.Proofs.Transcript
import Mathlib.Data.List.Count

/-!
# Checks entry by entry

What is reported of any entries, however often their keys repeat. An unresolved reference and a repeated
operation id are reported once for the whole text, a repeated property name once for every schema entry
that repeats it, and a path without its slash as often as it is written.
-/

namespace ApiDocs

namespace Finding

def rank : Finding → Nat
  | unparseable => 0
  | unresolvedRef _ => 1
  | duplicateOperationId _ => 2
  | duplicatePropertyName .. => 3
  | pathMissingLeadingSlash _ => 4
  | duplicateGetParameter .. => 5
  | duplicateMethodPath .. => 6

/-- The order of a report: check after check, and unresolved references as they first occur. -/
def Precedes (references : List String) (f g : Finding) : Prop :=
  f.rank ≤ g.rank ∧ ∀ a b, f = unresolvedRef a → g = unresolvedRef b →
    references.idxOf a < references.idxOf b

/-- The finding is reported once if the condition holds, and else not at all. -/
def OnceIff (f : Finding) (fs : List Finding) (p : Prop) : Prop :=
  (p → fs.count f = 1) ∧ (¬p → f ∉ fs)

theorem onceIff_of_nodup {f : Finding} {fs part : List Finding} {p : Prop} (h : fs.count f = part.count f)
    (hn : part.Nodup) (hp : f ∈ part ↔ p) : f.OnceIff fs p := by
  rw [hn.count] at h
  constructor
  · intro hcond
    rw [h, if_pos (hp.mpr hcond)]
  · intro hcond
    rw [if_neg fun hmem => hcond (hp.mp hmem)] at h
    exact List.count_eq_zero.mp h

theorem duplicateMethodPath_injective :
    Function.Injective fun route : String × String => duplicateMethodPath route.1 route.2 := by
  intro r r' h
  exact Prod.ext_iff.mpr (duplicateMethodPath.inj h)

end Finding

/-! ## Lists -/

theorem count_repeated {α : Type} [BEq α] [LawfulBEq α] (a : α) (l : List α) :
    (repeated l).count a = if 2 ≤ l.count a then 1 else 0 := by
  rw [(nodup_repeated l).count]
  simp only [mem_repeated]

theorem count_flatMap_eq_countP {α β : Type} [BEq β] [LawfulBEq β] {g : α → List β} {b : β} {p : α → Bool}
    (h : ∀ a, (g a).count b = if p a then 1 else 0) (l : List α) :
    (l.flatMap g).count b = l.countP p := by
  induction l with
  | nil => rfl
  | cons a l ih => rw [List.flatMap_cons, List.count_append, h a, ih, List.countP_cons, Nat.add_comm]

theorem count_flatMap_of_mem {α β : Type} [BEq β] [LawfulBEq β] {g : α → List β} {a : α} {b : β}
    (h : ∀ x, b ∈ g x → x = a) : ∀ {l : List α}, l.Nodup → a ∈ l → (l.flatMap g).count b = (g a).count b
  | x :: l, hl, ha => by
    have hnone : ∀ y, y ≠ a → (g y).count b = 0 := fun y hy => List.count_eq_zero.mpr fun hb => hy (h y hb)
    rw [List.nodup_cons] at hl
    rw [List.flatMap_cons, List.count_append]
    rcases List.mem_cons.mp ha with rfl | ha
    · have hrest : (l.flatMap g).count b = 0 := by
        refine List.count_eq_zero.mpr fun hb => ?_
        obtain ⟨y, hy, hby⟩ := List.mem_flatMap.mp hb
        exact hl.1 (h y hby ▸ hy)
      rw [hrest, Nat.add_zero]
    · have hne : x ≠ a := fun e => hl.1 (e ▸ ha)
      rw [hnone x hne, Nat.zero_add]
      exact count_flatMap_of_mem h hl.2 ha

theorem pairwise_idxOf_eraseDups {α : Type} [BEq α] [LawfulBEq α] (p : α → Bool) (l : List α) :
    (l.filter p).eraseDups.Pairwise fun a b => l.idxOf a < l.idxOf b := by
  induction l generalizing p with
  | nil => simp
  | cons x l ih =>
    -- for all but the head, an index in the whole list is one more than one in the rest
    have hbehind : ∀ {ds : List α}, (∀ a ∈ ds, x ≠ a) → (ds.Pairwise fun a b => l.idxOf a < l.idxOf b) →
        ds.Pairwise fun a b => (x :: l).idxOf a < (x :: l).idxOf b := by
      intro ds hds hpairs
      refine hpairs.imp_of_mem ?_
      intro a b ha hb hlt
      rw [List.idxOf_cons_ne l (hds a ha), List.idxOf_cons_ne l (hds b hb)]
      omega
    by_cases hx : p x = true
    · have hne : ∀ a ∈ (l.filter fun a => !a == x && p a).eraseDups, x ≠ a := by
        intro a ha
        have hmem := List.mem_filter.mp (List.mem_eraseDups.mp ha)
        simp only [Bool.and_eq_true, Bool.not_eq_true', beq_eq_false_iff_ne] at hmem
        exact hmem.2.1.symm
      rw [List.filter_cons_of_pos hx, List.eraseDups_cons, List.filter_filter, List.pairwise_cons]
      refine ⟨fun a ha => ?_, hbehind hne (ih _)⟩
      rw [List.idxOf_cons_self, List.idxOf_cons_ne l (hne a ha)]
      omega
    · have hne : ∀ a ∈ (l.filter p).eraseDups, x ≠ a := by
        rintro a ha rfl
        exact hx (List.mem_filter.mp (List.mem_eraseDups.mp ha)).2
      rw [List.filter_cons_of_neg hx]
      exact hbehind hne (ih p)

namespace Outline
variable (o : Outline)

def part : Nat → List Finding
  | 1 => o.unresolvedRefs
  | 2 => o.duplicateOperationIds
  | 3 => o.duplicatePropertyNames
  | 4 => o.missingSlashes
  | 5 => o.duplicateGetParameters
  | 6 => o.duplicateMethodPaths
  | _ => []

theorem findings_eq_flatMap : o.findings = (List.range 7).flatMap o.part := by
  simp [findings, part, List.range_succ]

theorem rank_of_mem_part {n : Nat} {f : Finding} (h : f ∈ o.part n) : f.rank = n := by
  unfold part at h
  split at h
  · obtain ⟨_, _, rfl⟩ := List.mem_map.mp h
    rfl
  · obtain ⟨_, _, rfl⟩ := List.mem_map.mp h
    rfl
  · obtain ⟨_, _, hf⟩ := List.mem_flatMap.mp h
    obtain ⟨_, _, rfl⟩ := List.mem_map.mp hf
    rfl
  · obtain ⟨_, _, rfl⟩ := List.mem_map.mp h
    rfl
  · obtain ⟨_, _, hf⟩ := List.mem_flatMap.mp h
    obtain ⟨_, _, rfl⟩ := List.mem_map.mp hf
    rfl
  · obtain ⟨_, _, rfl⟩ := List.mem_map.mp h
    rfl
  · cases h

theorem count_findings (f : Finding) : o.findings.count f = (o.part f.rank).count f := by
  have hrank : f.rank ∈ List.range 7 := by cases f <;> simp [Finding.rank]
  rw [findings_eq_flatMap]
  exact count_flatMap_of_mem (fun n hf => (o.rank_of_mem_part hf).symm) List.nodup_range hrank

theorem pairwise_precedes : o.findings.Pairwise (Finding.Precedes o.references) := by
  rw [findings_eq_flatMap, List.pairwise_flatMap]
  constructor
  -- within a part the ranks are equal, and only the references have an order of their own
  · intro n _
    by_cases hn : n = 1
    · subst hn
      have hrefs := pairwise_idxOf_eraseDups (fun r => !o.resolves r) o.references
      refine List.pairwise_map.mpr (hrefs.imp ?_)
      intro a b hab
      refine ⟨Nat.le_refl _, ?_⟩
      rintro _ _ ⟨⟩ ⟨⟩
      exact hab
    · refine List.pairwise_of_forall_mem_list ?_
      intro f hf g hg
      refine ⟨Nat.le_of_eq ((o.rank_of_mem_part hf).trans (o.rank_of_mem_part hg).symm), ?_⟩
      rintro a _ rfl
      exact absurd (o.rank_of_mem_part hf).symm hn
  · refine List.pairwise_lt_range.imp ?_
    intro m n hmn f hf g hg
    have hm := o.rank_of_mem_part hf
    have hn := o.rank_of_mem_part hg
    refine ⟨by omega, ?_⟩
    rintro a b rfl rfl
    simp only [Finding.rank] at hm hn
    omega

/-! ## Counts -/

theorem mem_unresolvedRefs {r : String} : .unresolvedRef r ∈ o.unresolvedRefs ↔
    r ∈ o.references ∧ ∀ s ∈ o.schemas, r ≠ schemaRef s.1 := by
  have hresolves : (!o.resolves r) = true ↔ ∀ s ∈ o.schemas, r ≠ schemaRef s.1 := by
    simp only [resolves, Bool.not_eq_true', List.any_eq_false, beq_iff_eq]
    exact forall₂_congr fun s _ => not_congr eq_comm
  rw [← hresolves, unresolvedRefs, List.mem_map_of_injective fun _ _ => Finding.unresolvedRef.inj,
    List.mem_eraseDups, List.mem_filter]

theorem mem_duplicateOperationIds {i : String} : .duplicateOperationId i ∈ o.duplicateOperationIds ↔
    2 ≤ o.operations.countP fun m => m.2.2.id = some i := by
  rw [duplicateOperationIds, List.mem_map_of_injective fun _ _ => Finding.duplicateOperationId.inj,
    mem_repeated, List.count_filterMap]
  simp only [beq_eq_decide]

theorem mem_duplicateMethodPaths {key path : String} :
    .duplicateMethodPath key path ∈ o.duplicateMethodPaths ↔
      2 ≤ o.operations.countP fun m => m.1 = path ∧ m.2.1 = key := by
  have hcount : (o.operations.map fun m => (m.2.1, m.1)).count (key, path) =
      o.operations.countP fun m => m.1 = path ∧ m.2.1 = key := by
    rw [List.count, List.countP_map]
    refine List.countP_congr fun m _ => ?_
    simp [and_comm]
  rw [← hcount, ← mem_repeated, duplicateMethodPaths]
  exact List.mem_map_of_injective Finding.duplicateMethodPath_injective (a := (key, path))

/-- What is reported of every entry apart is counted over the entries. -/
theorem count_flatMap_repeated {α : Type} {c : String → String → Finding}
    (hc : ∀ {k n k' n'}, c k n = c k' n' → k = k' ∧ n = n') (key : α → String) (names : α → List String)
    (l : List α) (k n : String) :
    (l.flatMap fun e => (repeated (names e)).map (c (key e))).count (c k n) =
      l.countP fun e => key e = k ∧ 2 ≤ (names e).count n := by
  refine count_flatMap_eq_countP (fun e => ?_) l
  by_cases hk : key e = k
  · subst hk
    rw [List.count_map_of_injective _ _ fun _ _ h => (hc h).2, count_repeated]
    simp
  · rw [List.count_eq_zero.mpr]
    · simp [hk]
    · intro hmem
      obtain ⟨_, _, he⟩ := List.mem_map.mp hmem
      exact hk (hc he).1

theorem count_duplicatePropertyNames (s p : String) :
    o.duplicatePropertyNames.count (.duplicatePropertyName s p) =
      o.schemas.countP fun e => e.1 = s ∧ 2 ≤ (e.2.map (·.name)).count p :=
  count_flatMap_repeated (fun h => Finding.duplicatePropertyName.inj h) Prod.fst
    (fun e : String × List Property => e.2.map Property.name) o.schemas s p

theorem count_duplicateGetParameters (path name : String) :
    o.duplicateGetParameters.count (.duplicateGetParameter path name) =
      o.operations.countP fun m => m.1 = path ∧ m.2.1 = "GET" ∧ 2 ≤ m.2.2.parameters.count name := by
  rw [duplicateGetParameters, count_flatMap_repeated (fun h => Finding.duplicateGetParameter.inj h) Prod.fst
    fun m : String × String × Operation => m.2.2.parameters, List.countP_filter]
  refine List.countP_congr fun m _ => ?_
  simp only [Bool.and_eq_true, decide_eq_true_eq, beq_iff_eq]
  tauto

theorem count_missingSlashes (path : String) : o.missingSlashes.count (.pathMissingLeadingSlash path) =
    o.paths.countP fun e => e.1 = path ∧ path.toList.head? ≠ some '/' := by
  rw [missingSlashes, List.count, List.countP_map, List.countP_filter]
  refine List.countP_congr fun e _ => ?_
  simp only [Function.comp_apply, beq_iff_eq, Finding.pathMissingLeadingSlash.injEq, Bool.and_eq_true,
    bne_iff_ne, decide_eq_true_eq]
  constructor
  · rintro ⟨rfl, h⟩
    exact ⟨rfl, h⟩
  · rintro ⟨rfl, h⟩
    exact ⟨rfl, h⟩

end Outline

/-! ## Entries -/

namespace Transcript

def Body.Mentions (b : Body) (r : String) : Prop :=
  ∃ media ∈ b.content, ∃ schema, media.2.schema = some schema ∧ schema.reference = some r

def Operation.Mentions (o : Operation) (r : String) : Prop :=
  (∃ body, o.requestBody = some body ∧ body.Mentions r) ∨ ∃ response ∈ o.responses, response.2.Mentions r

def Property.Mentions (p : Property) (r : String) : Prop :=
  p.reference = some r ∨ ∃ items, p.items = some items ∧ items.reference = some r

theorem Body.mem_references {b : Body} {r : String} : r ∈ b.references ↔ b.Mentions r := by
  simp [references, Mentions, Option.bind_eq_some_iff]

theorem Operation.mem_references {o : Operation} {r : String} : r ∈ o.references ↔ o.Mentions r := by
  rw [references, List.mem_append, List.mem_flatMap]
  refine or_congr ?_ (exists_congr fun e => and_congr_right fun _ => Body.mem_references)
  cases o.requestBody <;> simp [Body.mem_references]

theorem Property.mem_references {p : Property} {r : String} : r ∈ p.references ↔ p.Mentions r := by
  simp [references, Mentions, Option.bind_eq_some_iff]

variable (t : Transcript)

/-- All references in the order of the checks: operation after operation, then schema after schema. -/
def references : List String :=
  t.operations.flatMap (·.2.2.references) ++ t.schemas.flatMap fun s => s.2.flatMap (·.2.references)

/-- The reference stands in an operation or at a property of a schema. -/
def Mentions (r : String) : Prop :=
  (∃ e ∈ t.operations, e.2.2.Mentions r) ∨ ∃ s ∈ t.schemas, ∃ p ∈ s.2, p.2.Mentions r

theorem mem_references {r : String} : r ∈ t.references ↔ t.Mentions r := by
  simp only [references, Mentions, List.mem_append, List.mem_flatMap, Operation.mem_references,
    Property.mem_references]

theorem outline_operations :
    t.outline.operations = t.operations.map fun e => (e.1, e.2.1.upperCase, e.2.2.outline) := by
  simp [Outline.operations, outline, operations, List.flatMap_map, List.map_flatMap, Function.comp_def]

theorem outline_references : t.outline.references = t.references := by
  rw [Outline.references, outline_operations, references, List.flatMap_map]
  simp [outline, List.flatMap_map, Operation.outline]

end Transcript

/-- The findings of a text are those of its entries. Of any entries, the first four checks report every
reference that leads to no schema and every id of two operations once, every property name that a schema
entry repeats once for that entry, and every path without its slash, check after check. -/
theorem findings_by_entry :
    (∀ text, validate text = ((Transcript.ofText? text).map Transcript.findings).getD [.unparseable]) ∧
    ∀ t : Transcript,
      (∀ r, (Finding.unresolvedRef r).OnceIff t.findings
        (t.Mentions r ∧ ∀ s ∈ t.schemas, r ≠ "#/components/schemas/" ++ s.1)) ∧
      (∀ i, (Finding.duplicateOperationId i).OnceIff t.findings
        (2 ≤ t.operations.countP fun e => e.2.2.id = some i)) ∧
      (∀ s p, t.findings.count (.duplicatePropertyName s p) =
        t.schemas.countP fun e => e.1 = s ∧ 2 ≤ (e.2.map (·.1)).count p) ∧
      (∀ path, t.findings.count (.pathMissingLeadingSlash path) =
        t.paths.countP fun e => e.1 = path ∧ path.toList.head? ≠ some '/') ∧
      t.findings.Pairwise (Finding.Precedes t.references) := by
  refine ⟨validate_eq, fun t => ⟨fun r => ?_, fun i => ?_, fun s p => ?_, fun path => ?_, ?_⟩⟩
  · have hnodup : t.outline.unresolvedRefs.Nodup :=
      (nodup_eraseDups _).map fun _ _ => Finding.unresolvedRef.inj
    refine Finding.onceIff_of_nodup (t.outline.count_findings _) hnodup ?_
    rw [← t.mem_references, ← t.outline_references]
    refine t.outline.mem_unresolvedRefs.trans (and_congr_right fun _ => ?_)
    exact List.forall_mem_map
  · have hnodup : t.outline.duplicateOperationIds.Nodup :=
      (nodup_repeated _).map fun _ _ => Finding.duplicateOperationId.inj
    refine Finding.onceIff_of_nodup (t.outline.count_findings _) hnodup ?_
    refine t.outline.mem_duplicateOperationIds.trans ?_
    rw [t.outline_operations, List.countP_map]
    rfl
  · refine (t.outline.count_findings _).trans ((t.outline.count_duplicatePropertyNames s p).trans ?_)
    simp [Transcript.outline, List.countP_map, Function.comp_def]
  · refine (t.outline.count_findings _).trans ((t.outline.count_missingSlashes path).trans ?_)
    simp [Transcript.outline, List.countP_map, Function.comp_def]
  · exact t.outline_references ▸ t.outline.pairwise_precedes

end ApiDocs
