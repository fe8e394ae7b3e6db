import ApiDocs.Extraction
import ApiDocs.Proofs.Slots
import Mathlib.Data.List.Perm.Basic

/-!
# Reports in any order

A unit merges the registries of its files, and the reports of the units are merged as they come. What
the merged reports say of a slot is read off the files: whether one of them binds it, which of them
counts, and how many were replaced. Only which of them counts depends on the order of the reports.
-/

namespace ApiDocs

open Slotted

section
variable {ρ : Type} [Registry ρ]

def unitReport (files : List ρ) : Merged ρ :=
  files.foldl (fun sofar r => sofar.join { registry := r }) { registry := Registry.empty }

/-- The reports of units, merged in the order in which they come. -/
def aggregate (units : List (List ρ)) : Merged ρ :=
  units.foldl (fun sofar files => sofar.join (unitReport files)) { registry := Registry.empty }

end

section
variable {ρ σ ν : Type} [Registry ρ] [Slotted ρ σ ν]

/-! ## Accounts of merged files -/

def binds (s : σ) (r : ρ) : Bool := (find r s).isSome

/-- What was merged is an account of the files: the last one that binds a slot counts, and every other
one that binds it is reported. -/
structure Accounts (m : Merged ρ) (files : List ρ) : Prop where
  find_eq : ∀ s, find m.registry s = files.reverse.findSome? (find · s)
  count_eq : ∀ s : σ, m.collisions.count (describe ρ s) = files.countP (binds s) - 1
  described : ∀ c ∈ m.collisions, ∃ s : σ, describe ρ s = c

theorem Accounts.isSome_iff {m : Merged ρ} {files : List ρ} (h : Accounts m files) (s : σ) :
    (find m.registry s).isSome ↔ 0 < files.countP (binds s) := by
  rw [h.find_eq, List.findSome?_isSome_iff, List.countP_pos_iff]
  simp [binds]

theorem accounts_nil : Accounts ({ registry := Registry.empty } : Merged ρ) [] where
  find_eq := find_empty
  count_eq _ := rfl
  described _ h := by cases h

theorem accounts_file (r : ρ) : Accounts { registry := r } [r] where
  find_eq s := by
    rw [List.reverse_singleton, List.findSome?_cons, List.findSome?_nil]
    cases find r s <;> rfl
  count_eq s := by
    have := List.countP_le_length (p := binds s) (l := [r])
    simp only [List.length_singleton] at this
    rw [List.count_nil]
    omega
  described _ h := by cases h

theorem count_merge (a b : ρ) (s : σ) :
    (Registry.merge a b).2.count (describe ρ s) = if (find a s).isSome ∧ (find b s).isSome then 1 else 0 := by
  have hn : ((shared a b).map (describe ρ)).Nodup :=
    (nodup_shared a b).map fun _ _ h => describe_inj h
  have hm : describe ρ s ∈ (shared a b).map (describe ρ) ↔ s ∈ shared a b := by
    constructor
    · intro h
      obtain ⟨t, ht, he⟩ := List.mem_map.mp h
      rwa [← describe_inj he]
    · exact List.mem_map_of_mem
  rw [merge_reports, hn.count]
  simp only [hm, mem_shared]

theorem Accounts.join {a b : Merged ρ} {fs gs : List ρ} (ha : Accounts a fs) (hb : Accounts b gs) :
    Accounts (a.join b) (fs ++ gs) where
  find_eq s := by
    rw [List.reverse_append, List.findSome?_append, ← ha.find_eq, ← hb.find_eq]
    exact find_merge _ _ s
  count_eq s := by
    have hc : (a.join b).collisions.count (describe ρ s) =
        a.collisions.count (describe ρ s) + b.collisions.count (describe ρ s) +
          (Registry.merge a.registry b.registry).2.count (describe ρ s) := by
      unfold Merged.join
      rw [List.count_append, List.count_append]
    rw [hc, count_merge, ha.count_eq, hb.count_eq, List.countP_append]
    simp only [ha.isSome_iff, hb.isSome_iff]
    split <;> omega
  described c hc := by
    have hc' : c ∈ a.collisions ++ b.collisions ++ (Registry.merge a.registry b.registry).2 := hc
    rw [merge_reports] at hc'
    rcases List.mem_append.mp hc' with h | h
    · rcases List.mem_append.mp h with h | h
      · exact ha.described c h
      · exact hb.described c h
    · obtain ⟨s, _, rfl⟩ := List.mem_map.mp h
      exact ⟨s, rfl⟩

theorem accounts_foldl {ι : Type} (report : ι → Merged ρ) (source : ι → List ρ)
    (h : ∀ i, Accounts (report i) (source i)) :
    ∀ (l : List ι) (m : Merged ρ) (fs : List ρ), Accounts m fs →
      Accounts (l.foldl (fun sofar i => sofar.join (report i)) m) (fs ++ l.flatMap source)
  | [], m, fs, hm => by simpa using hm
  | i :: l, m, fs, hm => by
    rw [List.foldl_cons, List.flatMap_cons, ← List.append_assoc]
    exact accounts_foldl report source h l _ _ (hm.join (h i))

theorem accounts_unitReport (files : List ρ) : Accounts (unitReport files) files := by
  have h := accounts_foldl (fun r => { registry := r }) (fun r => [r]) accounts_file files _ _ accounts_nil
  rw [List.nil_append, List.flatMap_singleton'] at h
  exact h

theorem accounts_aggregate (units : List (List ρ)) : Accounts (aggregate units) units.flatten := by
  have h := accounts_foldl unitReport id accounts_unitReport units _ _ accounts_nil
  rw [List.nil_append, List.flatMap_id] at h
  exact h

theorem tight_aggregate (units : List (List ρ)) : Tight (aggregate units).registry := by
  unfold aggregate
  refine List.foldlRecOn (motive := fun m : Merged ρ => Tight m.registry) units _ tight_empty ?_
  exact fun _ h _ _ => tight_merge _ h

/-! ## Two orders of the same files -/

theorem Accounts.collisions_perm {m n : Merged ρ} {fs gs : List ρ} (hm : Accounts m fs)
    (hn : Accounts n gs) (h : fs.Perm gs) : m.collisions.Perm n.collisions := by
  rw [List.perm_iff_count]
  intro c
  by_cases hc : ∃ s : σ, describe ρ s = c
  · obtain ⟨s, rfl⟩ := hc
    rw [hm.count_eq, hn.count_eq, h.countP_eq]
  · rw [List.count_eq_zero.mpr fun hmem => hc (hm.described c hmem),
      List.count_eq_zero.mpr fun hmem => hc (hn.described c hmem)]

omit [Registry ρ] [Slotted ρ σ ν] in
theorem findSome?_flatten (f : ρ → Option ν) :
    ∀ l : List (List ρ), l.flatten.findSome? f = l.findSome? (·.findSome? f)
  | [] => rfl
  | files :: l => by
    rw [List.flatten_cons, List.findSome?_append, findSome?_flatten f l, List.findSome?_cons]
    cases files.findSome? f <;> rfl

omit [Registry ρ] [Slotted ρ σ ν] in
/-- Where at most one element has a value, the order does not matter. -/
theorem findSome?_perm {f : ρ → Option ν} {l₁ l₂ : List ρ} (h : l₁.Perm l₂)
    (ha : l₁.Pairwise fun a b => ¬((f a).isSome ∧ (f b).isSome)) : l₁.findSome? f = l₂.findSome? f := by
  induction h with
  | nil => rfl
  | cons a _ ih =>
    rw [List.findSome?_cons, List.findSome?_cons, ih (List.pairwise_cons.mp ha).2]
  | swap a b l =>
    have hab := (List.pairwise_cons.mp ha).1 a (List.mem_cons_self ..)
    simp only [List.findSome?_cons]
    cases hfa : f a <;> cases hfb : f b <;> simp_all
  | trans h₁ _ ih₁ ih₂ =>
    rw [ih₁ ha]
    exact ih₂ ((h₁.pairwise_iff fun h hs => h hs.symm).mp ha)

/-- No slot is bound by two units. -/
def Apart (units : List (List ρ)) : Prop :=
  units.Pairwise fun u v => ∀ s : σ, ¬(u.any (binds s) ∧ v.any (binds s))

/-- What the merged reports of units say when they come in an order. -/
structure Conserved (units order : List (List ρ)) : Prop where
  bound_iff : ∀ s : σ, (find (aggregate order).registry s).isSome ↔
    ∃ files ∈ units, ∃ r ∈ files, (find r s).isSome
  /-- The last file counts, of the last reported unit that binds the slot. -/
  find_eq : ∀ s : σ, find (aggregate order).registry s =
    order.reverse.findSome? fun files => files.reverse.findSome? (find · s)
  count_eq : ∀ s : σ, (aggregate order).collisions.count (describe ρ s) =
    units.flatten.countP (fun r => (find r s).isSome) - 1
  /-- Nothing but slots is reported. -/
  described : ∀ c ∈ (aggregate order).collisions, ∃ s : σ, describe ρ s = c
  same_slots : ∀ s : σ, (find (aggregate order).registry s).isSome =
    (find (aggregate units).registry s).isSome
  same_collisions : (aggregate order).collisions.Perm (aggregate units).collisions
  same_registry : Apart units → (aggregate order).registry = (aggregate units).registry

theorem find_aggregate (units : List (List ρ)) (s : σ) :
    find (aggregate units).registry s =
      units.reverse.findSome? fun files => files.reverse.findSome? (find · s) := by
  rw [(accounts_aggregate units).find_eq, List.reverse_flatten, findSome?_flatten, ← List.map_reverse,
    List.findSome?_map]
  rfl

theorem isSome_aggregate {units order : List (List ρ)} (h : order.Perm units) (s : σ) :
    (find (aggregate order).registry s).isSome ↔ ∃ files ∈ units, ∃ r ∈ files, (find r s).isSome := by
  rw [(accounts_aggregate order).isSome_iff, List.countP_pos_iff]
  constructor
  · rintro ⟨r, hr, hs⟩
    obtain ⟨files, hf, hrf⟩ := List.mem_flatten.mp hr
    exact ⟨files, h.mem_iff.mp hf, r, hrf, hs⟩
  · rintro ⟨files, hf, r, hrf, hs⟩
    exact ⟨r, List.mem_flatten.mpr ⟨files, h.mem_iff.mpr hf, hrf⟩, hs⟩

theorem aggregate_registry_perm {units order : List (List ρ)} (h : order.Perm units)
    (ha : Apart units) : (aggregate order).registry = (aggregate units).registry := by
  refine ext_of_tight (tight_aggregate order) (tight_aggregate units) fun s => ?_
  rw [find_aggregate, find_aggregate]
  have hp : order.reverse.Perm units.reverse :=
    (List.reverse_perm order).trans (h.trans (List.reverse_perm units).symm)
  refine (findSome?_perm hp.symm ?_).symm
  rw [List.pairwise_reverse]
  refine ha.imp ?_
  intro u v huv hs
  refine huv s ⟨?_, ?_⟩
  · simpa [binds] using hs.2
  · simpa [binds] using hs.1

theorem conserved_of_perm {units order : List (List ρ)} (h : order.Perm units) :
    Conserved units order where
  bound_iff := isSome_aggregate h
  find_eq := find_aggregate order
  count_eq s := by
    rw [(accounts_aggregate order).count_eq, h.flatten.countP_eq]
    rfl
  described := (accounts_aggregate order).described
  same_slots s := by
    rw [Bool.eq_iff_iff, isSome_aggregate h, isSome_aggregate (List.Perm.refl units)]
  same_collisions := (accounts_aggregate order).collisions_perm (accounts_aggregate units) h.flatten
  same_registry := aggregate_registry_perm h

end

/-! ## Both kinds of registries -/

/-- **Any order of reports.** Registries of schemas, by name, and registries of paths, by method and
path, are conserved. -/
theorem reports_conserved :
    (∀ units order : List (List SchemaRegistry), order.Perm units → Conserved units order) ∧
      ∀ units order : List (List PathRegistry), order.Perm units → Conserved units order :=
  ⟨fun _ _ h => conserved_of_perm h, fun _ _ h => conserved_of_perm h⟩

def userSchema (values : List String) : SchemaRegistry := Dict.empty.insert "User" (.enumeration values)

def roleSchema : SchemaRegistry := Dict.empty.insert "Role" (.enumeration ["admin"])

def getPing (summary : String) : PathRegistry :=
  Dict.empty.insert "/ping" { get := some { summary := some summary } }

def putPing : PathRegistry := Dict.empty.insert "/ping" { put := some {} }

theorem apart_user_role : Apart [[userSchema ["a"], userSchema ["b"]], [roleSchema]] := by
  rw [Apart, List.pairwise_pair]
  intro name h
  obtain ⟨huser, hrole⟩ := h
  have hname : name = "User" := by
    by_contra hne
    simp [binds, find, userSchema, hne] at huser
  subst hname
  simp [binds, find, roleSchema] at hrole

theorem apart_get_put : Apart [[getPing "a", getPing "b"], [putPing]] := by
  rw [Apart, List.pairwise_pair]
  rintro ⟨method, path⟩ h
  obtain ⟨hget, hput⟩ := h
  have hpath : path = "/ping" := by
    by_contra hne
    simp [binds, find, getPing, PathRegistry.operation?, PathRegistry.item, hne] at hget
  subst hpath
  cases method <;> simp [binds, find, getPing, putPing, PathRegistry.operation?, PathRegistry.item,
    PathItem.operation] at hget hput

/-- Three files of two units. Where all bind one slot, the unit of two files is reported last; where the
units bind different slots, the order does not matter. -/
theorem reports_conserved_swap :
    ([[userSchema ["c"]], [userSchema ["a"], userSchema ["b"]]].Perm
        [[userSchema ["a"], userSchema ["b"]], [userSchema ["c"]]] ∧
      Conserved [[userSchema ["a"], userSchema ["b"]], [userSchema ["c"]]]
        [[userSchema ["c"]], [userSchema ["a"], userSchema ["b"]]]) ∧
    ([[getPing "c"], [getPing "a", getPing "b"]].Perm [[getPing "a", getPing "b"], [getPing "c"]] ∧
      Conserved [[getPing "a", getPing "b"], [getPing "c"]] [[getPing "c"], [getPing "a", getPing "b"]]) ∧
    (Apart [[userSchema ["a"], userSchema ["b"]], [roleSchema]] ∧
      (aggregate [[roleSchema], [userSchema ["a"], userSchema ["b"]]]).registry =
        (aggregate [[userSchema ["a"], userSchema ["b"]], [roleSchema]]).registry) ∧
    Apart [[getPing "a", getPing "b"], [putPing]] ∧
      (aggregate [[putPing], [getPing "a", getPing "b"]]).registry =
        (aggregate [[getPing "a", getPing "b"], [putPing]]).registry :=
  ⟨⟨List.Perm.swap .., reports_conserved.1 _ _ (List.Perm.swap ..)⟩,
    ⟨List.Perm.swap .., reports_conserved.2 _ _ (List.Perm.swap ..)⟩,
    ⟨apart_user_role, (reports_conserved.1 _ _ (List.Perm.swap ..)).same_registry apart_user_role⟩,
    apart_get_put, (reports_conserved.2 _ _ (List.Perm.swap ..)).same_registry apart_get_put⟩

end ApiDocs
