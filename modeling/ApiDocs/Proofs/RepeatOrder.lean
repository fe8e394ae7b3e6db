import ApiDocs.Proofs.EntryChecks
import Mathlib.Data.List.Pairwise

/-!
# The order of repeated names

A repeated name is reported where it comes for the second time. This is the order of the first places as
well unless one name stands on both sides of two occurrences of another one.
-/

namespace ApiDocs

/-! ## Lists of repeated elements -/

/-- The list holds each element that another one repeats, once, in the order of its `n`-th place there
(counted from 0). -/
structure ListsRepeated {α : Type} [BEq α] (n : Nat) (l ds : List α) : Prop where
  count_eq : ∀ a, ds.count a = if 2 ≤ l.count a then 1 else 0
  ordered : ds.Pairwise fun a b => l.idxOfNth a n < l.idxOfNth b n

/-- Of two repeated elements, the one that is first seen is seen again before the other one is. -/
def SeenAgainInOrder {α : Type} [BEq α] (l : List α) : Prop :=
  ∀ a b, 2 ≤ l.count a → 2 ≤ l.count b → l.idxOfNth a 0 < l.idxOfNth b 0 → l.idxOfNth a 1 < l.idxOfNth b 1

section
variable {α : Type} [BEq α] [LawfulBEq α]

theorem ListsRepeated.mem_iff {n : Nat} {l ds : List α} (h : ListsRepeated n l ds) {a : α} :
    a ∈ ds ↔ 2 ≤ l.count a := by
  rw [← List.count_pos_iff, h.count_eq]
  split <;> omega

theorem ListsRepeated.unique {n : Nat} {l ds ds' : List α} (h : ListsRepeated n l ds)
    (h' : ListsRepeated n l ds') : ds = ds' := by
  refine List.Perm.eq_of_pairwise ?_ h.ordered h'.ordered ?_
  · intro a b _ _ hab hba
    omega
  · exact List.perm_iff_count.mpr fun a => by rw [h.count_eq, h'.count_eq]

/-! ## Second places -/

/-- What is still missing of the second occurrence of an element, behind one more element. -/
theorem idxOfNth_cons_of_mem {a x : α} {l before : List α} (h : a ∈ repeatedAfter (x :: before) l) :
    (x :: l).idxOfNth a (1 - before.count a) = l.idxOfNth a (1 - (x :: before).count a) + 1 := by
  have hle := (mem_repeatedAfter.mp h).1
  by_cases hx : x = a
  · subst hx
    rw [List.count_cons_self] at hle ⊢
    have hzero : before.count x = 0 := by omega
    rw [hzero]
    exact List.idxOfNth_cons_succ_of_beq (beq_self_eq_true x)
  · rw [List.count_cons_of_ne hx]
    exact List.idxOfNth_cons_of_not_beq (beq_false_of_ne hx)

theorem pairwise_repeatedAfter : ∀ l before : List α, (repeatedAfter before l).Pairwise fun a b =>
    l.idxOfNth a (1 - before.count a) < l.idxOfNth b (1 - before.count b)
  | [], _ => .nil
  | x :: l, before => by
    have hrest : (repeatedAfter (x :: before) l).Pairwise fun a b =>
        (x :: l).idxOfNth a (1 - before.count a) < (x :: l).idxOfNth b (1 - before.count b) := by
      refine (pairwise_repeatedAfter l (x :: before)).imp_of_mem ?_
      intro a b ha hb hab
      rw [idxOfNth_cons_of_mem ha, idxOfNth_cons_of_mem hb]
      omega
    rw [repeatedAfter]
    split
    · rename_i hx
      refine List.pairwise_cons.mpr ⟨fun b hb => ?_, hrest⟩
      have hhead : (x :: l).idxOfNth x (1 - before.count x) = 0 := by
        rw [hx]
        exact List.idxOfNth_cons_zero_of_beq (beq_self_eq_true x)
      rw [hhead, idxOfNth_cons_of_mem hb]
      omega
    · exact hrest

theorem listsRepeated_repeated (l : List α) : ListsRepeated 1 l (repeated l) where
  count_eq a := count_repeated a l
  ordered := pairwise_repeatedAfter l []

/-! ## First places -/

theorem eq_of_idxOfNth_eq {a b : α} {l : List α} {n : Nat} (ha : n < l.count a) (hb : n < l.count b)
    (h : l.idxOfNth a n = l.idxOfNth b n) : a = b := by
  have hla : l.idxOfNth a n < l.length := List.idxOfNth_lt_length_of_lt_count ha
  have hlb : l.idxOfNth b n < l.length := List.idxOfNth_lt_length_of_lt_count hb
  calc a = l[l.idxOfNth a n] := List.getElem_idxOfNth_eq.symm
    _ = l[l.idxOfNth b n] := by simp only [h]
    _ = b := List.getElem_idxOfNth_eq

theorem listsRepeated_zero_iff {l ds : List α} (h : ListsRepeated 1 l ds) :
    ListsRepeated 0 l ds ↔ SeenAgainInOrder l := by
  constructor
  · intro hfirst a b ha hb
    -- both orders hold of the list, so they agree on two members whichever of them stands first
    have hagree : ∀ ⦃a⦄, a ∈ ds → ∀ ⦃b⦄, b ∈ ds →
        l.idxOfNth a 0 < l.idxOfNth b 0 → l.idxOfNth a 1 < l.idxOfNth b 1 := by
      refine List.Pairwise.forall_of_forall_of_flip ?_ ?_ ?_
      · intro a _ hlt
        exact absurd hlt (Nat.lt_irrefl _)
      · refine h.ordered.imp ?_
        intro a b hab _
        exact hab
      · refine hfirst.ordered.imp ?_
        intro a b hab hba
        exact absurd hab (Nat.lt_asymm hba)
    exact hagree (h.mem_iff.mpr ha) (h.mem_iff.mpr hb)
  · intro horder
    refine ⟨h.count_eq, h.ordered.imp_of_mem ?_⟩
    intro a b ha hb hlt
    have hca := h.mem_iff.mp ha
    have hcb := h.mem_iff.mp hb
    rcases Nat.lt_trichotomy (l.idxOfNth a 0) (l.idxOfNth b 0) with hfirst | hfirst | hfirst
    · exact hfirst
    · obtain rfl := eq_of_idxOfNth_eq (by omega) (by omega) hfirst
      omega
    · have := horder b a hcb hca hfirst
      omega

theorem listsRepeated_eraseDups (l : List α) :
    ListsRepeated 0 l (l.filter fun a => 2 ≤ l.count a).eraseDups where
  count_eq a := by
    rw [(nodup_eraseDups _).count]
    refine if_congr ?_ rfl rfl
    rw [List.mem_eraseDups, List.mem_filter, decide_eq_true_eq]
    refine and_iff_right_of_imp fun h => List.count_pos_iff.mp ?_
    omega
  ordered := by
    simp only [List.idxOfNth_zero]
    exact pairwise_idxOf_eraseDups _ l

theorem eq_repeated_iff {l ds : List α} : ds = repeated l ↔ ListsRepeated 1 l ds := by
  constructor
  · rintro rfl
    exact listsRepeated_repeated l
  · intro h
    exact h.unique (listsRepeated_repeated l)

theorem eq_eraseDups_iff {l ds : List α} :
    ds = (l.filter fun a => 2 ≤ l.count a).eraseDups ↔ ListsRepeated 0 l ds := by
  constructor
  · rintro rfl
    exact listsRepeated_eraseDups l
  · intro h
    exact h.unique (listsRepeated_eraseDups l)

end

/-! ## Reports -/

def Finding.operationId? : Finding → Option String
  | duplicateOperationId id => some id
  | _ => none

theorem Outline.reported_ids (o : Outline) :
    o.findings.filterMap Finding.operationId? = repeated (o.operations.filterMap (·.2.2.id)) := by
  have hothers : ∀ n, n ≠ 2 → (o.part n).filterMap Finding.operationId? = [] := by
    intro n hn
    refine List.filterMap_eq_nil_iff.mpr fun f hf => ?_
    have hrank := o.rank_of_mem_part hf
    cases f with
    | duplicateOperationId => exact absurd hrank.symm hn
    | _ => rfl
  have hids : (o.part 2).filterMap Finding.operationId? = repeated (o.operations.filterMap (·.2.2.id)) := by
    simp [part, duplicateOperationIds, Finding.operationId?, List.filterMap_map, Function.comp_def]
  have hranks : List.range 7 = [0, 1] ++ 2 :: [3, 4, 5, 6] := rfl
  rw [findings_eq_flatMap, List.filterMap_flatMap, hranks]
  simp [hothers, hids]

def Transcript.ids (t : Transcript) : List String := t.operations.filterMap (·.2.2.id)

theorem Transcript.reported_ids (t : Transcript) :
    t.findings.filterMap Finding.operationId? = repeated t.ids := by
  rw [findings, Outline.reported_ids, outline_operations, List.filterMap_map]
  rfl

/-- The repeated names are those that come at least twice, each once, in the order of their second places,
and no other list has them so. It is the list in the order of first places exactly if names that are seen
one after the other are seen again in this order. The ids that a report is about are the repeated ones of
the text. -/
theorem repeated_by_second_place (names : List String) :
    (∀ ds, ds = repeated names ↔ ListsRepeated 1 names ds) ∧
    (∀ ds, ds = (names.filter fun a => 2 ≤ names.count a).eraseDups ↔ ListsRepeated 0 names ds) ∧
    (ListsRepeated 0 names (repeated names) ↔ SeenAgainInOrder names) ∧
    ∀ t : Transcript, t.ids = names → t.findings.filterMap Finding.operationId? = repeated names := by
  refine ⟨fun ds => eq_repeated_iff, fun ds => eq_eraseDups_iff, ?_, fun t h => ?_⟩
  · exact listsRepeated_zero_iff (listsRepeated_repeated names)
  · rw [← h]
    exact t.reported_ids

def alternatingIdsText : String :=
  "paths:\n  /users:\n    get:\n      operationId: a\n    post:\n      operationId: b\n" ++
  "    put:\n      operationId: a\n    delete:\n      operationId: b\n"

theorem repeated_by_second_place_alternating : ∃ t, Transcript.ofText? alternatingIdsText = some t ∧
    t.ids = ["a", "b", "a", "b"] ∧ t.findings.filterMap Finding.operationId? = ["a", "b"] ∧
    ListsRepeated 1 t.ids ["a", "b"] ∧ ListsRepeated 0 t.ids ["a", "b"] := by
  have hids : (Transcript.ofText? alternatingIdsText).map Transcript.ids = some ["a", "b", "a", "b"] := by
    decide +kernel
  obtain ⟨t, ht, hnames⟩ := Option.map_eq_some_iff.mp hids
  obtain ⟨hsecond, hfirst, -, hreport⟩ := repeated_by_second_place t.ids
  refine ⟨t, ht, hnames, ?_, (hsecond _).mp ?_, (hfirst _).mp ?_⟩
  · rw [hreport t rfl, hnames]
    decide
  · rw [hnames]
    decide
  · rw [hnames]
    decide

def nestedIdsText : String :=
  "paths:\n  /users:\n    get:\n      operationId: a\n    post:\n      operationId: b\n" ++
  "    put:\n      operationId: b\n    delete:\n      operationId: a\n"

/-- The name that is seen first is reported last. -/
theorem repeated_nested :
    (¬∀ names : List String, ListsRepeated 0 names (repeated names)) ∧
    repeated ["a", "b", "b", "a"] = ["b", "a"] ∧
    ListsRepeated 0 ["a", "b", "b", "a"] ["a", "b"] ∧
    validate nestedIdsText = [.duplicateOperationId "b", .duplicateOperationId "a"] := by
  have hcode : repeated ["a", "b", "b", "a"] = ["b", "a"] := by decide
  have hfirst : ListsRepeated 0 ["a", "b", "b", "a"] ["a", "b"] := eq_eraseDups_iff.mp (by decide)
  refine ⟨fun h => ?_, hcode, hfirst, by decide +kernel⟩
  have heq := (h _).unique hfirst
  rw [hcode] at heq
  exact absurd heq (by decide)

end ApiDocs
