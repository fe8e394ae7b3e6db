/-!
# Maps in order of first insertion

A `Table` keeps its entries in the order in which their keys first came; a later value for a known
key takes the old value's place.
-/

namespace ApiDocs

structure Table (α : Type u) where
  entries : List (String × α)
  nodup : entries.Pairwise fun a b => a.1 ≠ b.1
deriving Repr

namespace Table

variable {α : Type u}

instance [DecidableEq α] : DecidableEq (Table α) := fun a b =>
  if h : a.entries = b.entries then .isTrue (by cases a; cases b; simp_all)
  else .isFalse fun e => h (e ▸ rfl)

def empty : Table α := ⟨[], .nil⟩

instance : EmptyCollection (Table α) := ⟨empty⟩
instance : Inhabited (Table α) := ⟨empty⟩

def isEmpty (t : Table α) : Bool := t.entries.isEmpty

def size (t : Table α) : Nat := t.entries.length

def keys (t : Table α) : List String := t.entries.map (·.1)

def lookup (k : String) : List (String × α) → Option α
  | [] => none
  | (j, b) :: l => if k = j then some b else lookup k l

def get? (t : Table α) (k : String) : Option α := lookup k t.entries

/-- Replaces the value under `k`, or adds the entry at the end. -/
def place (k : String) (a : α) : List (String × α) → List (String × α)
  | [] => [(k, a)]
  | (j, b) :: l => if k = j then (k, a) :: l else (j, b) :: place k a l

theorem fst_mem_place {k : String} {a : α} {x : String × α} {l : List (String × α)}
    (h : x ∈ place k a l) : x.1 = k ∨ ∃ y ∈ l, y.1 = x.1 := by
  induction l with
  | nil => simp_all [place]
  | cons e l ih =>
    obtain ⟨j, b⟩ := e
    rw [place] at h
    split at h
    · rcases List.mem_cons.mp h with rfl | h
      · exact .inl rfl
      · exact .inr ⟨x, by simp [h], rfl⟩
    · rcases List.mem_cons.mp h with rfl | h
      · exact .inr ⟨(j, b), by simp, rfl⟩
      · rcases ih h with hk | ⟨y, hy, hxy⟩
        · exact .inl hk
        · exact .inr ⟨y, by simp [hy], hxy⟩

theorem pairwise_place (k : String) (a : α) {l : List (String × α)}
    (h : l.Pairwise fun x y => x.1 ≠ y.1) : (place k a l).Pairwise fun x y => x.1 ≠ y.1 := by
  induction l with
  | nil => simp [place]
  | cons e l ih =>
    obtain ⟨j, b⟩ := e
    rw [List.pairwise_cons] at h
    rw [place]
    split
    · rename_i hk
      subst hk
      exact List.pairwise_cons.mpr ⟨fun x hx => h.1 x hx, h.2⟩
    · rename_i hk
      refine List.pairwise_cons.mpr ⟨fun x hx => ?_, ih h.2⟩
      rcases fst_mem_place hx with hx | ⟨y, hy, hxy⟩
      · exact fun e => hk (hx ▸ e.symm)
      · exact hxy ▸ h.1 y hy

def insert (t : Table α) (k : String) (a : α) : Table α :=
  ⟨place k a t.entries, pairwise_place k a t.nodup⟩

def ofList (l : List (String × α)) : Table α := l.foldl (fun t e => t.insert e.1 e.2) empty

def map {β : Type v} (f : α → β) (t : Table α) : Table β :=
  ⟨t.entries.map fun e => (e.1, f e.2), by
    have := t.nodup
    rwa [List.pairwise_map]⟩

theorem lookup_place (k j : String) (a : α) (l : List (String × α)) :
    lookup j (place k a l) = if j = k then some a else lookup j l := by
  induction l with
  | nil => simp [place, lookup]
  | cons e l ih =>
    obtain ⟨i, b⟩ := e
    rw [place]
    split
    · rename_i hk
      subst hk
      by_cases hj : j = k <;> simp [lookup, hj]
    · rename_i hk
      by_cases hj : j = i
      · subst hj
        simp [lookup, Ne.symm hk]
      · simp [lookup, hj, ih]

@[simp] theorem get?_empty (k : String) : (empty : Table α).get? k = none := rfl

@[simp] theorem get?_insert (t : Table α) (k j : String) (a : α) :
    (t.insert k a).get? j = if j = k then some a else t.get? j := lookup_place k j a t.entries

end Table

end ApiDocs
