import ApiDocs.Keyed.Dict
import ApiDocs.Keyed.Table
import Mathlib.Data.List.Induction
import Mathlib.Data.List.Nodup

/-!
# What maps bind

Dictionaries and tables are lists of entries with distinct keys and differ in their order. What an entry
of such a list is found under, and that the last of several values for a key counts, does not depend on
the order, so it is said of lists of entries first.
-/

namespace ApiDocs

/-! ## Lists of entries -/

section
variable {α β γ : Type} {k : String} {a : α}

theorem lookup_of_mem : ∀ {l : List (String × α)}, (l.map (·.1)).Nodup → (k, a) ∈ l → l.lookup k = some a
  | (j, b) :: l, hn, h => by
    rw [List.map_cons, List.nodup_cons] at hn
    rw [List.lookup_cons]
    rcases List.mem_cons.mp h with h | h
    · cases h
      simp
    · have hne : k ≠ j := fun he => hn.1 (List.mem_map.mpr ⟨_, h, he⟩)
      rw [beq_false_of_ne hne]
      exact lookup_of_mem hn.2 h

theorem mem_of_lookup {κ : Type} [BEq κ] [LawfulBEq κ] {k : κ} {l : List (κ × α)} (h : l.lookup k = some a) :
    (k, a) ∈ l := by
  obtain ⟨before, after, rfl, _⟩ := List.lookup_eq_some_iff.mp h
  simp

theorem lookup_eq_none_of_not_mem {l : List (String × α)} (h : k ∉ l.map (·.1)) : l.lookup k = none := by
  rw [List.lookup_eq_none_iff]
  intro e he
  rw [bne_iff_ne]
  exact fun hk => h (List.mem_map.mpr ⟨e, he, hk.symm⟩)

theorem lookup_cons_of_ne {j : String} (h : k ≠ j) (b : α) (l : List (String × α)) :
    ((j, b) :: l).lookup k = l.lookup k := by
  rw [List.lookup_cons, beq_false_of_ne h]

theorem lookup_filter_key (p : String → Bool) (k : String) : ∀ l : List (String × α),
    (l.filter fun e => p e.1).lookup k = if p k then l.lookup k else none
  | [] => by simp
  | (j, b) :: l => by
    have ih := lookup_filter_key p k l
    rw [List.filter_cons]
    by_cases hk : k = j
    · subst hk
      by_cases hp : p k = true
      · simp [hp]
      · simp [hp, ih]
    · rw [lookup_cons_of_ne hk]
      split
      · rw [lookup_cons_of_ne hk, ih]
      · exact ih

/-- The last element with a value decides, read from either end. -/
theorem findSome?_reverse_eq_some {f : α → Option β} {l : List α} {b : β} :
    l.reverse.findSome? f = some b ↔
      ∃ before a after, l = before ++ a :: after ∧ f a = some b ∧ ∀ x ∈ after, f x = none := by
  rw [List.findSome?_eq_some_iff]
  constructor
  · rintro ⟨l₁, a, l₂, hl, hfa, hnone⟩
    refine ⟨l₂.reverse, a, l₁.reverse, ?_, hfa, fun x hx => hnone x (List.mem_reverse.mp hx)⟩
    rw [← List.reverse_reverse l, hl]
    simp
  · rintro ⟨before, a, after, rfl, hfa, hnone⟩
    refine ⟨after.reverse, a, before.reverse, by simp, hfa, fun x hx => hnone x (List.mem_reverse.mp hx)⟩

theorem find?_reverse_eq_some_iff {p : α → Bool} {l : List α} {a : α} :
    l.reverse.find? p = some a ↔
      ∃ before after, l = before ++ a :: after ∧ p a = true ∧ ∀ x ∈ after, p x = false := by
  rw [List.find?_eq_findSome?_guard, findSome?_reverse_eq_some]
  constructor
  · intro h
    obtain ⟨before, b, after, rfl, hb, hafter⟩ := h
    obtain ⟨rfl, hp⟩ := Option.guard_eq_some_iff.mp hb
    exact ⟨before, after, rfl, hp, fun x hx => Option.guard_eq_none_iff.mp (hafter x hx)⟩
  · intro h
    obtain ⟨before, after, rfl, hp, hafter⟩ := h
    exact ⟨before, a, after, rfl, Option.guard_eq_some_iff.mpr ⟨rfl, hp⟩,
      fun x hx => Option.guard_eq_none_iff.mpr (hafter x hx)⟩

/-- Whatever is bound by insertions one after another, the last value for a key counts. -/
theorem find_foldl_insert {ι : Type} (find : γ → Option α) (insert : γ → String × α → γ)
    (hinsert : ∀ c e, find (insert c e) = if k = e.1 then some e.2 else find c) (key : ι → String)
    (value : ι → α) (l : List ι) (c : γ) :
    find ((l.map fun i => (key i, value i)).foldl insert c) =
      ((l.reverse.find? (key · = k)).map value).or (find c) := by
  induction l using List.reverseRecOn with
  | nil => rfl
  | append_singleton l i ih =>
    rw [List.map_append, List.foldl_append, List.map_singleton, List.foldl_cons, List.foldl_nil, hinsert, ih,
      List.reverse_append, List.reverse_singleton, List.singleton_append, List.find?_cons]
    by_cases hk : k = key i
    · simp [hk]
    · simp [hk, Ne.symm hk]

end

/-! ## Repetitions -/

theorem eraseDups_of_nodup {α : Type} [BEq α] [LawfulBEq α] : ∀ {l : List α}, l.Nodup → l.eraseDups = l
  | [], _ => List.eraseDups_nil
  | a :: l, h => by
    rw [List.nodup_cons] at h
    have hf : (l.filter fun b => !b == a) = l := by
      refine List.filter_eq_self.mpr fun b hb => ?_
      have hne : b ≠ a := fun e => h.1 (e ▸ hb)
      simp [hne]
    rw [List.eraseDups_cons, hf, eraseDups_of_nodup h.2]

theorem eraseDups_snoc {α : Type} [BEq α] [LawfulBEq α] [DecidableEq α] (l : List α) (a : α) :
    (l ++ [a]).eraseDups = if a ∈ l then l.eraseDups else l.eraseDups ++ [a] := by
  rw [List.eraseDups_append]
  by_cases h : a ∈ l <;> simp [List.removeAll, List.eraseDups_cons, h]

theorem eraseDups_filter {α : Type} [BEq α] [LawfulBEq α] [DecidableEq α] (p : α → Bool) (l : List α) :
    (l.filter p).eraseDups = l.eraseDups.filter p := by
  induction l using List.reverseRecOn with
  | nil => rfl
  | append_singleton l a ih =>
    rw [List.filter_append, eraseDups_snoc]
    by_cases hp : p a = true
    · rw [List.filter_cons_of_pos hp, List.filter_nil, eraseDups_snoc, ih]
      by_cases hmem : a ∈ l <;> simp [hmem, hp]
    · by_cases hmem : a ∈ l <;> simp [hmem, hp, ih]

/-! ## Dictionaries -/

namespace Dict
variable {α β : Type} {k : String} {a : α}

theorem lookup_eq (k : String) : ∀ l : List (String × α), lookup k l = l.lookup k
  | [] => rfl
  | (j, b) :: l => by
    rw [lookup, List.lookup_cons, lookup_eq k l]
    by_cases hk : k = j
    · simp [hk]
    · rw [if_neg hk, beq_false_of_ne hk]

theorem nodup_keys (d : Dict α) : d.keys.Nodup := by
  unfold keys List.Nodup
  rw [List.pairwise_map]
  refine d.sorted.imp ?_
  intro x y hxy he
  exact String.lt_irrefl y.1 (by rw [he] at hxy; exact hxy)

theorem mem_entries_iff {d : Dict α} : (k, a) ∈ d.entries ↔ d.get? k = some a := by
  rw [get?, lookup_eq]
  exact ⟨lookup_of_mem d.nodup_keys, mem_of_lookup⟩

theorem mem_keys_iff {d : Dict α} : k ∈ d.keys ↔ (d.get? k).isSome := by
  unfold keys
  rw [List.mem_map, Option.isSome_iff_exists]
  constructor
  · rintro ⟨⟨j, a⟩, h, rfl⟩
    exact ⟨a, mem_entries_iff.mp h⟩
  · rintro ⟨a, h⟩
    exact ⟨(k, a), mem_entries_iff.mpr h, rfl⟩

theorem mem_values {d : Dict α} : a ∈ d.values ↔ ∃ k, d.get? k = some a := by
  rw [values, List.mem_map]
  constructor
  · rintro ⟨⟨k, b⟩, h, rfl⟩
    exact ⟨k, mem_entries_iff.mp h⟩
  · rintro ⟨k, h⟩
    exact ⟨(k, a), mem_entries_iff.mpr h, rfl⟩

theorem eq_empty_of_isEmpty {d : Dict α} (h : d.isEmpty = true) : d = {} := by
  obtain ⟨es, hs⟩ := d
  cases List.isEmpty_iff.mp h
  rfl

theorem isEmpty_iff {d : Dict α} : d.isEmpty = true ↔ d = {} := by
  constructor
  · exact eq_empty_of_isEmpty
  · intro h
    rw [h]
    rfl

theorem map_id (d : Dict α) : d.map id = d := by
  obtain ⟨es, hs⟩ := d
  simp [map]

theorem lookup_map (f : String → α → β) (k : String) (l : List (String × α)) :
    lookup k (l.map fun e => (e.1, f e.1 e.2)) = (lookup k l).map (f k) := by
  induction l with
  | nil => rfl
  | cons e l ih =>
    obtain ⟨j, b⟩ := e
    rw [List.map_cons, lookup, lookup, ih]
    by_cases hk : k = j
    · subst hk
      simp
    · simp [hk]

theorem lookup_filter (p : String × α → Bool) (k : String) :
    ∀ {l : List (String × α)}, (l.Pairwise fun x y => x.1 < y.1) →
      lookup k (l.filter p) = (lookup k l).filter fun a => p (k, a)
  | [], _ => rfl
  | (j, b) :: l, hl => by
    rw [List.pairwise_cons] at hl
    rw [List.filter_cons, lookup]
    by_cases hk : k = j
    · subst hk
      have hnone : lookup k (l.filter p) = none :=
        lookup_eq_none_of_lt fun x hx => hl.1 x (List.mem_of_mem_filter hx)
      by_cases hp : p (k, b) = true
      · simp [hp, lookup, Option.filter]
      · simp [hp, hnone, Option.filter]
    · by_cases hp : p (j, b) = true
      · simp [hp, lookup, hk, lookup_filter p k hl.2]
      · simp [hp, hk, lookup_filter p k hl.2]

theorem lookup_filter_key (p : String → Bool) (k : String) (l : List (String × α)) :
    lookup k (l.filter fun e => p e.1) = if p k then lookup k l else none := by
  rw [lookup_eq, lookup_eq, ApiDocs.lookup_filter_key]

/-- Entries of distinct keys, each laid over what stands under its key. -/
theorem get?_foldl_update (g : Option β → α → β) (k : String) :
    ∀ (l : List (String × α)) (d : Dict β), (l.Pairwise fun x y => x.1 < y.1) →
      (l.foldl (fun r e => r.insert e.1 (g (r.get? e.1) e.2)) d).get? k =
        ((lookup k l).map (g (d.get? k))).or (d.get? k)
  | [], d, _ => rfl
  | (j, b) :: l, d, hl => by
    rw [List.pairwise_cons] at hl
    rw [List.foldl_cons, get?_foldl_update g k l _ hl.2, lookup]
    by_cases hk : k = j
    · subst hk
      rw [lookup_eq_none_of_lt hl.1]
      simp
    · simp [hk]

/-- Entries laid over a map count before what the map has. -/
theorem get?_overlay (d : Dict α) {l : List (String × α)} (hl : l.Pairwise fun x y => x.1 < y.1)
    (k : String) : (l.foldl (fun d e => d.insert e.1 e.2) d).get? k = (lookup k l).or (d.get? k) := by
  have h := get?_foldl_update (fun (_ : Option α) a => a) k l d hl
  rwa [Option.map_id'] at h

theorem ofList_entries (d : Dict α) : ofList d.entries = d := by
  refine ext_get? fun k => ?_
  have h := get?_overlay empty d.sorted k
  rwa [get?_empty, Option.or_none] at h

theorem get?_ofList {ι : Type} (key : ι → String) (value : ι → α) (l : List ι) (k : String) :
    (ofList (l.map fun i => (key i, value i))).get? k = (l.reverse.find? (key · = k)).map value := by
  have h := find_foldl_insert (fun d : Dict α => d.get? k) (fun d e => d.insert e.1 e.2)
    (fun d e => d.get?_insert e.1 k e.2) key value l empty
  rwa [get?_empty, Option.or_none] at h

end Dict

/-! ## Tables -/

namespace Table
variable {α : Type} {k : String} {a : α}

theorem lookup_eq (k : String) : ∀ l : List (String × α), lookup k l = l.lookup k
  | [] => rfl
  | (j, b) :: l => by
    rw [lookup, List.lookup_cons, lookup_eq k l]
    by_cases hk : k = j
    · simp [hk]
    · rw [if_neg hk, beq_false_of_ne hk]

theorem nodup_keys (t : Table α) : t.keys.Nodup := List.pairwise_map.mpr t.nodup

theorem mem_entries_iff {t : Table α} : (k, a) ∈ t.entries ↔ t.get? k = some a := by
  rw [get?, lookup_eq]
  exact ⟨lookup_of_mem t.nodup_keys, mem_of_lookup⟩

theorem eq_empty_of_isEmpty {t : Table α} (h : t.isEmpty = true) : t = {} := by
  obtain ⟨es, hs⟩ := t
  cases List.isEmpty_iff.mp h
  rfl

theorem entries_ext {l₁ l₂ : List (String × α)} (hkeys : l₁.map (·.1) = l₂.map (·.1))
    (h₁ : (l₁.map (·.1)).Nodup) (h : ∀ k, lookup k l₁ = lookup k l₂) : l₁ = l₂ := by
  induction l₁ generalizing l₂ with
  | nil => simpa using hkeys.symm
  | cons e l₁ ih =>
    cases l₂ with
    | nil => simp at hkeys
    | cons e' l₂ =>
      obtain ⟨k, a⟩ := e
      obtain ⟨k', a'⟩ := e'
      simp only [List.map_cons, List.cons.injEq] at hkeys
      obtain ⟨rfl, hkeys⟩ := hkeys
      obtain ⟨hk, h₁⟩ := List.nodup_cons.mp h₁
      have ha : a = a' := by simpa [lookup] using h k
      subst ha
      refine congrArg _ (ih hkeys h₁ fun j => ?_)
      by_cases hj : j = k
      · -- the key of the first entry is in neither rest
        rw [hj, lookup_eq, lookup_eq, lookup_eq_none_of_not_mem hk, lookup_eq_none_of_not_mem (hkeys ▸ hk)]
      · simpa [lookup, hj] using h j

theorem ext_entries {t₁ t₂ : Table α} (h : t₁.entries = t₂.entries) : t₁ = t₂ := by
  cases t₁
  cases h
  rfl

theorem ext_get? {t₁ t₂ : Table α} (hkeys : t₁.keys = t₂.keys) (h : ∀ k, t₁.get? k = t₂.get? k) :
    t₁ = t₂ :=
  ext_entries (entries_ext hkeys t₁.nodup_keys h)

theorem keys_place (k : String) (a : α) (l : List (String × α)) :
    (place k a l).map (·.1) = if k ∈ l.map (·.1) then l.map (·.1) else l.map (·.1) ++ [k] := by
  induction l with
  | nil => simp [place]
  | cons e l ih =>
    obtain ⟨j, b⟩ := e
    rw [place]
    by_cases hk : k = j
    · simp [hk]
    · simp only [hk, if_false, List.map_cons, ih, List.mem_cons, false_or]
      split <;> simp

theorem keys_insert (t : Table α) (k : String) (a : α) :
    (t.insert k a).keys = if k ∈ t.keys then t.keys else t.keys ++ [k] := keys_place k a t.entries

/-- Keys stand in the order in which they first come. -/
theorem keys_ofList (l : List (String × α)) : (ofList l).keys = (l.map (·.1)).eraseDups := by
  induction l using List.reverseRecOn with
  | nil => rfl
  | append_singleton l e ih =>
    have hsnoc : ofList (l ++ [e]) = (ofList l).insert e.1 e.2 := List.foldl_concat ..
    rw [hsnoc, keys_insert, ih, List.map_append, List.map_singleton, eraseDups_snoc]
    simp only [List.mem_eraseDups]

theorem get?_ofList {ι : Type} (key : ι → String) (value : ι → α) (l : List ι) (k : String) :
    (ofList (l.map fun i => (key i, value i))).get? k = (l.reverse.find? (key · = k)).map value := by
  have h := find_foldl_insert (fun t : Table α => t.get? k) (fun t e => t.insert e.1 e.2)
    (fun t e => t.get?_insert e.1 k e.2) key value l empty
  rwa [get?_empty, Option.or_none] at h

theorem place_of_ne {k : String} (a : α) : ∀ {l : List (String × α)}, (∀ e ∈ l, e.1 ≠ k) →
    place k a l = l ++ [(k, a)]
  | [], _ => rfl
  | (j, b) :: l, h => by
    have hne : k ≠ j := (h (j, b) (List.mem_cons_self ..)).symm
    rw [place, if_neg hne, place_of_ne a fun e he => h e (List.mem_cons_of_mem _ he)]
    rfl

theorem entries_foldl_insert : ∀ (l : List (String × α)) (t : Table α),
    ((t.entries ++ l).Pairwise fun x y => x.1 ≠ y.1) →
      (l.foldl (fun t e => t.insert e.1 e.2) t).entries = t.entries ++ l
  | [], t, _ => (List.append_nil _).symm
  | (k, a) :: l, t, h => by
    have hk : ∀ e ∈ t.entries, e.1 ≠ k := fun e he =>
      (List.pairwise_append.mp h).2.2 e he (k, a) (List.mem_cons_self ..)
    have ht : (t.insert k a).entries = t.entries ++ [(k, a)] := place_of_ne a hk
    have hl : t.entries ++ (k, a) :: l = (t.insert k a).entries ++ l := by
      rw [ht, List.append_assoc]
      rfl
    rw [hl] at h ⊢
    exact entries_foldl_insert l (t.insert k a) h

theorem ofList_entries (t : Table α) : ofList t.entries = t :=
  ext_entries (entries_foldl_insert t.entries empty t.nodup)

end Table

end ApiDocs
