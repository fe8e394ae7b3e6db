import ApiDocs.Data.Readable
import ApiDocs.Document.Encode
import ApiDocs.Proofs.Keyed
import ApiDocs.Word

/-!
# Reading what was written

`Holds v t` says that a value `v`, of whatever format, answers all that is asked of it as the tree `t`
does. What is read from such a value, record by record and map by map, is what the tree was made from.
-/

namespace ApiDocs

/-! ## Trees with types -/

namespace Tree

mutual
/-- The tree with a type for every scalar. A number of more than 64 bits is no integer. -/
def datum : Tree → Datum
  | .text s => .text s
  | .flag b => .flag b
  | .number n => if Word.Fits 64 n then .integer n else .real
  | .list ts => .list (itemData ts)
  | .object fs => .mapping (fieldData fs)
def itemData : List Tree → List Datum
  | [] => []
  | t :: ts => t.datum :: itemData ts
def fieldData : List (String × Tree) → List (Datum × Datum)
  | [] => []
  | (k, t) :: fs => (.text k, t.datum) :: fieldData fs
end

def present (slots : List (String × Option Tree)) : List (String × Tree) :=
  slots.filterMap fun s => s.2.map (s.1, ·)

end Tree

/-! ## Values that hold a tree -/

section
variable {ν : Type} [Readable ν]
open Readable

mutual
/-- The value answers as the tree does. -/
def Holds (v : ν) : Tree → Prop
  | .text s => isNull? v = some false ∧ text? v = some s
  | .flag b => isNull? v = some false ∧ flag? v = some b
  | .number n => isNull? v = some false ∧ (Word.Signed 64 n → integer? v = some n)
  | .list ts => isNull? v = some false ∧ ∃ vs, list? v = some vs ∧ HoldItems vs ts
  | .object fs => isNull? v = some false ∧
      ((Tree.object fs).datum.depth ≤ 124 → settle? v = some (Tree.object fs).datum) ∧
      ∃ es, map? v = some es ∧ (∀ names, record? names v = Fields.known names es) ∧ HoldFields es fs
def HoldItems (vs : List ν) : List Tree → Prop
  | [] => vs = []
  | t :: ts => ∃ w ws, vs = w :: ws ∧ Holds w t ∧ HoldItems ws ts
def HoldFields (es : List (String × ν)) : List (String × Tree) → Prop
  | [] => es = []
  | (k, t) :: fs => ∃ w ws, es = (k, w) :: ws ∧ Holds w t ∧ HoldFields ws fs
end

theorem Holds.isNull? {v : ν} : ∀ {t : Tree}, Holds v t → Readable.isNull? v = some false
  | .text _, h => by rw [Holds] at h; exact h.1
  | .flag _, h => by rw [Holds] at h; exact h.1
  | .number _, h => by rw [Holds] at h; exact h.1
  | .list _, h => by rw [Holds] at h; exact h.1
  | .object _, h => by rw [Holds] at h; exact h.1

theorem Holds.text? {v : ν} {s : String} (h : Holds v (.text s)) : Readable.text? v = some s := by
  rw [Holds] at h
  exact h.2

theorem Holds.flag? {v : ν} {b : Bool} (h : Holds v (.flag b)) : Readable.flag? v = some b := by
  rw [Holds] at h
  exact h.2

/-! ## Lists and maps -/

section
variable {α β : Type} {enc : α → Tree} {read : ν → Option β} {out : α → β}
  (hread : ∀ a v, Holds v (enc a) → read v = some (out a))
include hread

theorem mapM_of_holdItems : ∀ {as : List α} {vs : List ν}, HoldItems vs (as.map enc) →
    vs.mapM read = some (as.map out)
  | [], vs, h => by
    rw [List.map_nil, HoldItems] at h
    subst h
    rfl
  | a :: as, vs, h => by
    rw [List.map_cons, HoldItems] at h
    obtain ⟨w, ws, rfl, hw, hws⟩ := h
    simp [hread a w hw, mapM_of_holdItems hws]

theorem mapM_of_holdFields {γ : Type} (g : String → γ) : ∀ {l : List (String × α)} {es : List (String × ν)},
    HoldFields es (l.map fun e => (e.1, enc e.2)) →
      es.mapM (fun e => (read e.2).map (g e.1, ·)) = some (l.map fun e => (g e.1, out e.2))
  | [], es, h => by
    rw [List.map_nil, HoldFields] at h
    subst h
    rfl
  | (k, a) :: l, es, h => by
    rw [List.map_cons, HoldFields] at h
    obtain ⟨w, ws, rfl, hw, hws⟩ := h
    simp [hread a w hw, mapM_of_holdFields g hws]

theorem listOf_of_holds {as : List α} {v : ν} (h : Holds v (.list (as.map enc))) :
    listOf read v = some (as.map out) := by
  rw [Holds] at h
  obtain ⟨_, vs, hv, hvs⟩ := h
  simp [listOf, hv, mapM_of_holdItems hread hvs]

theorem mapOf_of_holds {l : List (String × α)} {v : ν}
    (h : Holds v (.object (l.map fun e => (e.1, enc e.2)))) :
    mapOf read v = some (l.map fun e => (e.1, out e.2)) := by
  rw [Holds] at h
  obtain ⟨_, _, es, hv, _, hes⟩ := h
  have hes' : es.mapM (fun e => (read e.2).map (e.1, ·)) = some (l.map fun e => (e.1, out e.2)) :=
    mapM_of_holdFields hread id hes
  simp [mapOf, hv, hes']

end

theorem texts_of_holds {ss : List String} {v : ν} (h : Holds v (Tree.texts ss)) :
    listOf text? v = some ss := by
  rw [Tree.texts] at h
  simpa using listOf_of_holds (fun _ _ => Holds.text?) h

/-! ## Records -/

def HoldsField (found : Option ν) : Option Tree → Prop
  | some t => ∃ v, found = some v ∧ Holds v t
  | none => found = none

theorem holdsField_lookup (k : String) : ∀ {fs : List (String × Tree)} {es : List (String × ν)},
    HoldFields es fs → HoldsField (es.lookup k) (fs.lookup k)
  | [], es, h => by
    rw [HoldFields] at h
    subst h
    rfl
  | (j, t) :: fs, es, h => by
    rw [HoldFields] at h
    obtain ⟨w, ws, rfl, hw, hws⟩ := h
    rw [List.lookup_cons, List.lookup_cons]
    split
    · exact ⟨w, rfl, hw⟩
    · exact holdsField_lookup k hws

theorem keys_of_holdFields : ∀ {fs : List (String × Tree)} {es : List (String × ν)},
    HoldFields es fs → es.map (·.1) = fs.map (·.1)
  | [], es, h => by
    rw [HoldFields] at h
    subst h
    rfl
  | (j, t) :: fs, es, h => by
    rw [HoldFields] at h
    obtain ⟨w, ws, rfl, _, hws⟩ := h
    rw [List.map_cons, List.map_cons, keys_of_holdFields hws]

end

theorem Fields.known_of_nodup {ν : Type} {es : List (String × ν)} (h : (es.map (·.1)).Nodup)
    (names : List String) :
    Fields.known names es = some { entries := es.filter fun e => names.contains e.1 } := by
  have hn : ((es.filter fun e => names.contains e.1).map (·.1)).Nodup :=
    h.sublist (List.filter_sublist.map _)
  have hl : ((es.filter fun e => names.contains e.1).map (·.1)).eraseDups.length =
      (es.filter fun e => names.contains e.1).length := by
    rw [eraseDups_of_nodup hn, List.length_map]
  exact if_pos hl

namespace Tree
variable {slots : List (String × Option Tree)} {k : String}

theorem mem_present {t : Tree} : (k, t) ∈ present slots ↔ (k, some t) ∈ slots := by
  simp [present]

theorem nodup_present (h : (slots.map (·.1)).Nodup) : ((present slots).map (·.1)).Nodup := by
  refine h.sublist ?_
  induction slots with
  | nil => exact .slnil
  | cons s slots ih =>
    rw [List.map_cons, List.nodup_cons] at h
    obtain ⟨k, t⟩ := s
    cases t with
    | some t => simpa [present] using ih h.2
    | none => exact (ih h.2).trans (List.sublist_cons_self ..)

theorem lookup_present (hn : (slots.map (·.1)).Nodup) {t : Option Tree} (h : (k, t) ∈ slots) :
    (present slots).lookup k = t := by
  cases t with
  | some t => exact lookup_of_mem (nodup_present hn) (mem_present.mpr h)
  | none =>
    refine lookup_eq_none_of_not_mem fun hk => ?_
    obtain ⟨⟨j, t⟩, ht, rfl⟩ := List.mem_map.mp hk
    cases List.inj_on_of_nodup_map hn h (mem_present.mp ht) rfl

end Tree

section
variable {ν : Type} [Readable ν]
open Readable

structure Found (names : List String) (slots : List (String × Option Tree)) (r : Fields ν) : Prop where
  byName : r.byPosition = false
  field : ∀ {k t}, (k, t) ∈ slots → k ∈ names → HoldsField (r.find? k) t

theorem record_of_holds {v : ν} {slots : List (String × Option Tree)}
    (h : Holds v (.object (Tree.present slots))) (hn : (slots.map (·.1)).Nodup) (names : List String) :
    ∃ r, record? names v = some r ∧ Found names slots r := by
  rw [Holds] at h
  obtain ⟨_, _, es, _, hr, hes⟩ := h
  have hkeys : (es.map (·.1)).Nodup := by
    rw [keys_of_holdFields hes]
    exact Tree.nodup_present hn
  refine ⟨_, (hr names).trans (Fields.known_of_nodup hkeys names), rfl, fun {k t} hk hmem => ?_⟩
  have hfield := holdsField_lookup k hes
  rw [Tree.lookup_present hn hk] at hfield
  rw [Fields.find?, lookup_filter_key names.contains, if_pos (List.contains_iff_mem.mpr hmem)]
  exact hfield

namespace Found
variable {names : List String} {slots : List (String × Option Tree)} {r : Fields ν} (h : Found names slots r)
include h

theorem required {k : String} {t : Tree} {α : Type} {read : ν → Option α} {a : α}
    (hk : (k, some t) ∈ slots ∧ k ∈ names) (hread : ∀ {v : ν}, Holds v t → read v = some a) :
    r.required k read = some a := by
  obtain ⟨v, hv, ht⟩ := h.field hk.1 hk.2
  rw [Fields.required, hv, Option.bind_some, hread ht]

theorem optional {k : String} {α β : Type} {x : Option α} {enc : α → Tree} {read : ν → Option β}
    {out : α → β} (hk : (k, x.map enc) ∈ slots ∧ k ∈ names)
    (hread : ∀ a {v : ν}, Holds v (enc a) → read v = some (out a)) :
    r.optional k read = some (x.map out) := by
  have hf := h.field hk.1 hk.2
  unfold Fields.optional
  cases x with
  | none =>
    have hnone : r.find? k = none := hf
    simp [hnone, h.byName]
  | some a =>
    obtain ⟨v, hv, ht⟩ := hf
    simp [hv, Fields.optionalValue, ht.isNull?, hread a ht]

theorem optionalSame {k : String} {α : Type} {x : Option α} {enc : α → Tree} {read : ν → Option α}
    (hk : (k, x.map enc) ∈ slots ∧ k ∈ names)
    (hread : ∀ a {v : ν}, Holds v (enc a) → read v = some a) : r.optional k read = some x := by
  have hx := h.optional hk hread
  rwa [Option.map_id'] at hx

theorem optionalText {k : String} {x : Option String} (hk : (k, x.map Tree.text) ∈ slots ∧ k ∈ names) :
    r.optional k text? = some x :=
  h.optionalSame hk fun _ _ => Holds.text?

theorem defaulted (shown : Bool) {k : String} {t : Tree} {α : Type} {default a : α} {read : ν → Option α}
    (hk : (k, if shown then some t else none) ∈ slots ∧ k ∈ names)
    (hread : shown = true → ∀ v : ν, Holds v t → read v = some a) (hd : shown = false → default = a) :
    r.defaulted k default read = some a := by
  have hf := h.field hk.1 hk.2
  unfold Fields.defaulted
  cases shown with
  | false =>
    have hnone : r.find? k = none := hf
    rw [hnone, hd rfl]
  | true =>
    obtain ⟨v, hv, ht⟩ := hf
    rw [hv]
    exact hread rfl v ht

theorem defaultedOption {k : String} {α β : Type} {x : Option α} {enc : α → Tree} {read : ν → Option β}
    {out : α → β} {default : β} (hk : (k, x.map enc) ∈ slots ∧ k ∈ names)
    (hread : ∀ a {v : ν}, Holds v (enc a) → read v = some (out a)) :
    r.defaulted k default read = some ((x.map out).getD default) := by
  cases x with
  | none => exact h.defaulted false (t := .list []) hk nofun fun _ => rfl
  | some a => exact h.defaulted true hk (fun _ _ => hread a) nofun

theorem flag {k : String} {b : Bool} (hk : (k, if b then some (.flag true) else none) ∈ slots ∧ k ∈ names) :
    r.defaulted k false flag? = some b :=
  h.defaulted b hk (fun hb _ hv => hb ▸ hv.flag?) Eq.symm

/-- A list that is left out when it is empty. -/
theorem listed {k : String} {α β : Type} {l : List α} {enc : α → Tree} {read : ν → Option β} {out : α → β}
    (hk : (k, if !l.isEmpty then some (.list (l.map enc)) else none) ∈ slots ∧ k ∈ names)
    (hread : ∀ a v, Holds v (enc a) → read v = some (out a)) :
    r.defaulted k [] (listOf read) = some (l.map out) := by
  refine h.defaulted (!l.isEmpty) hk (fun _ _ => listOf_of_holds hread) fun he => ?_
  rw [Bool.not_eq_eq_eq_not, Bool.not_false, List.isEmpty_iff] at he
  rw [he, List.map_nil]

theorem listedTexts {k : String} {ss : List String}
    (hk : (k, if !ss.isEmpty then some (Tree.texts ss) else none) ∈ slots ∧ k ∈ names) :
    r.defaulted k [] (listOf text?) = some ss := by
  simpa using h.listed hk fun _ _ => Holds.text?

end Found

end

/-! ## Typed trees hold themselves -/

theorem Tree.fieldData_eq_map (fs : List (String × Tree)) :
    Tree.fieldData fs = fs.map fun f => (.text f.1, f.2.datum) := by
  induction fs with
  | nil => rfl
  | cons f fs ih => rw [Tree.fieldData, ih, List.map_cons]

/-- However keys are read, those of a tree are texts. -/
theorem Tree.mapM_fieldData (key? : Datum → Option String) (hkey : ∀ k, key? (.text k) = some k)
    (fs : List (String × Tree)) :
    (Tree.fieldData fs).mapM (fun e => (key? e.1).map (·, e.2)) = some (fs.map fun f => (f.1, f.2.datum)) := by
  induction fs with
  | nil => rfl
  | cons f fs ih =>
    obtain ⟨k, t⟩ := f
    rw [Tree.fieldData, List.mapM_cons, hkey, ih]
    rfl

mutual
theorem holds_datum : ∀ t : Tree, Holds t.datum t
  | .text s => ⟨rfl, rfl⟩
  | .flag b => ⟨rfl, rfl⟩
  | .number n => by
    rw [Tree.datum, Holds]
    split
    · exact ⟨rfl, fun _ => rfl⟩
    · rename_i hf
      exact ⟨rfl, fun hs => absurd (Or.inl hs) hf⟩
  | .list ts => by
    rw [Tree.datum, Holds]
    exact ⟨rfl, _, rfl, holdItems_datum ts⟩
  | .object fs => by
    rw [Holds]
    refine ⟨rfl, fun hd => if_pos hd, _, Tree.mapM_fieldData Datum.key? (fun _ => rfl) fs, fun names => ?_,
      holdFields_datum fs⟩
    have hfields := Tree.mapM_fieldData (·.fieldName? names) (fun _ => rfl) fs
    simp only [Tree.datum, Readable.record?, hfields]
    rfl
theorem holdItems_datum : ∀ ts : List Tree, HoldItems (Tree.itemData ts) ts
  | [] => rfl
  | t :: ts => ⟨t.datum, Tree.itemData ts, rfl, holds_datum t, holdItems_datum ts⟩
theorem holdFields_datum : ∀ fs : List (String × Tree), HoldFields (fs.map fun f => (f.1, f.2.datum)) fs
  | [] => rfl
  | (_, t) :: fs => ⟨t.datum, _, rfl, holds_datum t, holdFields_datum fs⟩
end

end ApiDocs
