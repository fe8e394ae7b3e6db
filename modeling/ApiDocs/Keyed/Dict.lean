/-!
# Maps in key order

A `Dict` keeps its entries in strictly increasing order of their keys, so it is determined by what it
binds: two dictionaries with the same look-ups are equal.
-/

namespace ApiDocs

structure Dict (α : Type u) where
  entries : List (String × α)
  sorted : entries.Pairwise fun a b => a.1 < b.1
deriving Repr

namespace Dict

variable {α : Type u}

instance [DecidableEq α] : DecidableEq (Dict α) := fun a b =>
  if h : a.entries = b.entries then .isTrue (by cases a; cases b; simp_all)
  else .isFalse fun e => h (e ▸ rfl)

def empty : Dict α := ⟨[], .nil⟩

instance : EmptyCollection (Dict α) := ⟨empty⟩
instance : Inhabited (Dict α) := ⟨empty⟩

def isEmpty (d : Dict α) : Bool := d.entries.isEmpty

def size (d : Dict α) : Nat := d.entries.length

def keys (d : Dict α) : List String := d.entries.map (·.1)

def values (d : Dict α) : List α := d.entries.map (·.2)

/-! ## Look-up -/

def lookup (k : String) : List (String × α) → Option α
  | [] => none
  | (j, b) :: l => if k = j then some b else lookup k l

def get? (d : Dict α) (k : String) : Option α := lookup k d.entries

def contains (d : Dict α) (k : String) : Bool := (d.get? k).isSome

/-! ## Insertion -/

/-- Puts `a` under `k` into an ordered list, in place of what stands there. -/
def place (k : String) (a : α) : List (String × α) → List (String × α)
  | [] => [(k, a)]
  | (j, b) :: l =>
    if k < j then (k, a) :: (j, b) :: l
    else if k = j then (k, a) :: l
    else (j, b) :: place k a l

theorem mem_place {k : String} {a : α} {x : String × α} {l : List (String × α)}
    (h : x ∈ place k a l) : x = (k, a) ∨ x ∈ l := by
  induction l with
  | nil => simp_all [place]
  | cons e l ih =>
    obtain ⟨j, b⟩ := e
    rw [place] at h
    split at h
    · simpa using h
    · split at h
      · simp_all; grind
      · simp only [List.mem_cons] at h ⊢; grind

theorem lt_of_not_lt_of_ne {a b : String} (h : ¬a < b) (hne : a ≠ b) : b < a := by
  rcases String.le_total a b with hab | hab
  · exact absurd (String.le_antisymm hab (String.not_lt.mp h)) hne
  · exact String.not_le.mp fun hba => hne (String.le_antisymm hba hab)

theorem pairwise_place (k : String) (a : α) {l : List (String × α)}
    (h : l.Pairwise fun x y => x.1 < y.1) : (place k a l).Pairwise fun x y => x.1 < y.1 := by
  induction l with
  | nil => simp [place]
  | cons e l ih =>
    obtain ⟨j, b⟩ := e
    rw [List.pairwise_cons] at h
    rw [place]
    split
    · rename_i hk
      refine List.pairwise_cons.mpr ⟨fun x hx => ?_, List.pairwise_cons.mpr h⟩
      rcases List.mem_cons.mp hx with rfl | hx
      · exact hk
      · exact String.lt_trans hk (h.1 x hx)
    · rename_i hk
      split
      · rename_i he
        exact List.pairwise_cons.mpr ⟨fun x hx => he ▸ h.1 x hx, h.2⟩
      · rename_i he
        refine List.pairwise_cons.mpr ⟨fun x hx => ?_, ih h.2⟩
        rcases mem_place hx with rfl | hx
        · exact lt_of_not_lt_of_ne hk he
        · exact h.1 x hx

def insert (d : Dict α) (k : String) (a : α) : Dict α :=
  ⟨place k a d.entries, pairwise_place k a d.sorted⟩

/-- Later entries replace earlier ones of the same key. -/
def ofList (l : List (String × α)) : Dict α := l.foldl (fun d e => d.insert e.1 e.2) empty

def filter (p : String → α → Bool) (d : Dict α) : Dict α :=
  ⟨d.entries.filter fun e => p e.1 e.2, d.sorted.filter _⟩

def map {β : Type v} (f : α → β) (d : Dict α) : Dict β :=
  ⟨d.entries.map fun e => (e.1, f e.2), by
    have := d.sorted
    rwa [List.pairwise_map]⟩

/-! ## What an insertion changes -/

theorem lookup_place (k j : String) (a : α) (l : List (String × α)) :
    lookup j (place k a l) = if j = k then some a else lookup j l := by
  induction l with
  | nil => simp [place, lookup]
  | cons e l ih =>
    obtain ⟨i, b⟩ := e
    rw [place]
    split
    · simp [lookup]
    · split
      · rename_i hk
        subst hk
        by_cases hj : j = k <;> simp [lookup, hj]
      · rename_i hk
        by_cases hj : j = i
        · subst hj
          simp [lookup, Ne.symm hk]
        · simp [lookup, hj, ih]

@[simp] theorem get?_empty (k : String) : (empty : Dict α).get? k = none := rfl

@[simp] theorem get?_insert (d : Dict α) (k j : String) (a : α) :
    (d.insert k a).get? j = if j = k then some a else d.get? j := lookup_place k j a d.entries

/-! ## Extensionality -/

theorem lookup_eq_none_of_lt {k : String} {l : List (String × α)} (h : ∀ x ∈ l, k < x.1) :
    lookup k l = none := by
  induction l with
  | nil => rfl
  | cons e l ih =>
    obtain ⟨j, b⟩ := e
    have hj : k < j := h (j, b) (by simp)
    have hne : k ≠ j := fun e => String.lt_irrefl k (by rw [← e] at hj; exact hj)
    simp only [lookup, hne, if_false]
    exact ih fun x hx => h x (by simp [hx])

theorem entries_ext {l₁ l₂ : List (String × α)} (h₁ : l₁.Pairwise fun x y => x.1 < y.1)
    (h₂ : l₂.Pairwise fun x y => x.1 < y.1) (h : ∀ k, lookup k l₁ = lookup k l₂) : l₁ = l₂ := by
  induction l₁ generalizing l₂ with
  | nil =>
    cases l₂ with
    | nil => rfl
    | cons e l₂ => have := h e.1; simp [lookup] at this
  | cons e₁ l₁ ih =>
    obtain ⟨k₁, a₁⟩ := e₁
    cases l₂ with
    | nil => have := h k₁; simp [lookup] at this
    | cons e₂ l₂ =>
      obtain ⟨k₂, a₂⟩ := e₂
      rw [List.pairwise_cons] at h₁ h₂
      have hk : k₁ = k₂ := by
        refine Classical.byContradiction fun hne => ?_
        rcases Classical.em (k₁ < k₂) with hlt | hlt
        · have hk := h k₁
          rw [lookup, if_pos rfl, lookup_eq_none_of_lt] at hk
          · simp at hk
          · intro x hx
            rcases List.mem_cons.mp hx with rfl | hx
            · exact hlt
            · exact String.lt_trans hlt (h₂.1 x hx)
        · have hgt : k₂ < k₁ := lt_of_not_lt_of_ne hlt hne
          have hk := h k₂
          rw [lookup_eq_none_of_lt, lookup, if_pos rfl] at hk
          · simp at hk
          · intro x hx
            rcases List.mem_cons.mp hx with rfl | hx
            · exact hgt
            · exact String.lt_trans hgt (h₁.1 x hx)
      subst hk
      have ha : a₁ = a₂ := by have := h k₁; simpa [lookup] using this
      subst ha
      refine congrArg _ (ih h₁.2 h₂.2 fun k => ?_)
      by_cases hk : k = k₁
      · subst hk
        rw [lookup_eq_none_of_lt h₁.1, lookup_eq_none_of_lt h₂.1]
      · simpa [lookup, hk] using h k

theorem ext_get? {d₁ d₂ : Dict α} (h : ∀ k, d₁.get? k = d₂.get? k) : d₁ = d₂ := by
  obtain ⟨l₁, h₁⟩ := d₁
  obtain ⟨l₂, h₂⟩ := d₂
  have : l₁ = l₂ := entries_ext h₁ h₂ h
  subst this
  rfl

end Dict

end ApiDocs
