import ApiDocs.Proofs.SlotBinding
import ApiDocs.Proofs.TreeExtraction

/-!
# Overwritten operations

Every record that names a path and a method has a route. Extraction loses none of them: a route is bound,
or reported as replaced, or its record was followed by another one for it in the same file. Only the last
kind is not reported, since a file is assembled before anything is merged.
-/

namespace ApiDocs

open Slotted

/-! ## Routes that come again -/

/-- The elements of a list that come again later. -/
def overwritten {α : Type} [DecidableEq α] : List α → List α
  | [] => []
  | a :: l => if a ∈ l then a :: overwritten l else overwritten l

section
variable {α : Type} [DecidableEq α]

theorem count_overwritten (a : α) (l : List α) : (overwritten l).count a = l.count a - 1 := by
  induction l with
  | nil => rfl
  | cons b l ih =>
    rw [overwritten]
    by_cases hb : b = a
    · subst hb
      by_cases hmem : b ∈ l
      · have hpos := List.count_pos_iff.mpr hmem
        rw [if_pos hmem, List.count_cons_self, List.count_cons_self, ih]
        omega
      · rw [if_neg hmem, ih, List.count_cons_self, List.count_eq_zero.mpr hmem]
    · rw [List.count_cons_of_ne hb, ← ih]
      split
      · rw [List.count_cons_of_ne hb]
      · rfl

theorem overwritten_eq_nil_iff {l : List α} : overwritten l = [] ↔ l.Nodup := by
  rw [List.nodup_iff_count_le_one, List.eq_nil_iff_forall_not_mem]
  refine forall_congr' fun a => ?_
  rw [← List.count_pos_iff, count_overwritten]
  omega

/-- Of the lists, those that hold an element hold it once and again later. -/
theorem count_flatMap_overwritten {ι : Type} (f : ι → List α) (a : α) (l : List ι) :
    l.countP (fun i => a ∈ f i) + (l.flatMap fun i => overwritten (f i)).count a = (l.flatMap f).count a := by
  induction l with
  | nil => rfl
  | cons i l ih =>
    rw [List.flatMap_cons, List.flatMap_cons, List.count_append, List.count_append, List.countP_cons, ← ih,
      count_overwritten]
    by_cases hmem : a ∈ f i
    · have hpos := List.count_pos_iff.mpr hmem
      simp only [hmem, decide_true, if_pos]
      omega
    · simp only [List.count_eq_zero.mpr hmem, hmem, decide_false]
      simp

theorem countP_pos_of_count_flatMap {ι : Type} {f : ι → List α} {a : α} {l : List ι}
    (h : 0 < (l.flatMap f).count a) : 0 < l.countP fun i => a ∈ f i := by
  obtain ⟨i, hi, ha⟩ := List.mem_flatMap.mp (List.count_pos_iff.mp h)
  exact List.countP_pos_iff.mpr ⟨i, hi, decide_eq_true ha⟩

end

/-! ## Routes of records and of registries -/

instance (r : Record) (m : Method) (path : String) : Decidable (r.IsFor m path) :=
  inferInstanceAs (Decidable (_ ∧ _ ∧ _))

def Record.route? (r : Record) : Option String := r.slot?.map fun slot => PathRegistry.route slot.2 slot.1

theorem Record.route?_eq_some_iff {r : Record} {m : Method} {path : String} :
    r.route? = some (PathRegistry.route m path) ↔ r.IsFor m path := by
  rw [← Record.slot?_eq_some_iff, Record.route?, Option.map_eq_some_iff]
  constructor
  · intro h
    obtain ⟨⟨p, n⟩, hslot, hroute⟩ := h
    obtain ⟨rfl, rfl⟩ := PathRegistry.route_inj hroute
    exact hslot
  · intro h
    exact ⟨(path, m), h, rfl⟩

def SourceFile.routes (file : SourceFile) : List String := file.records.filterMap Record.route?

def recordsFor (m : Method) (path : String) (records : List Record) : Nat :=
  records.countP fun r => r.IsFor m path

theorem SourceFile.count_routes (file : SourceFile) (m : Method) (path : String) :
    file.routes.count (PathRegistry.route m path) = recordsFor m path file.records := by
  rw [SourceFile.routes, List.count_filterMap]
  refine List.countP_congr fun r _ => ?_
  rw [beq_iff_eq, decide_eq_true_eq, Record.route?_eq_some_iff]

theorem SourceFile.mem_routes_iff {file : SourceFile} {m : Method} {path : String} :
    PathRegistry.route m path ∈ file.routes ↔ ∃ r ∈ file.records, r.IsFor m path := by
  rw [SourceFile.routes, List.mem_filterMap]
  simp only [Record.route?_eq_some_iff]

theorem SourceFile.exists_route_of_mem {file : SourceFile} {c : String} (h : c ∈ file.routes) :
    ∃ m path, PathRegistry.route m path = c := by
  obtain ⟨r, _, hr⟩ := List.mem_filterMap.mp h
  obtain ⟨slot, _, hslot⟩ := Option.map_eq_some_iff.mp hr
  exact ⟨slot.2, slot.1, hslot⟩

namespace PathRegistry

def routes (paths : PathRegistry) : List String :=
  paths.entries.flatMap fun e => e.2.operations.map fun mo => route mo.1 e.1

theorem routes_eq (paths : PathRegistry) :
    routes paths = (shared paths paths).map fun slot => route slot.1 slot.2 := by
  rw [routes, shared, List.map_flatMap]
  refine List.flatMap_congr fun e he => ?_
  have hitem : item paths e.1 = e.2 := by rw [item, Dict.mem_entries_iff.mp he]; rfl
  have hmethods : e.2.operations.map (·.1) = e.2.common e.2 := by
    unfold PathItem.operations PathItem.common
    induction Method.all with
    | nil => rfl
    | cons m ms ih =>
      rw [List.filterMap_cons, List.filter_cons, ← ih]
      cases e.2.operation m <;> rfl
  rw [hitem, ← hmethods, List.map_map, List.map_map]
  rfl

theorem count_routes (paths : PathRegistry) (m : Method) (path : String) :
    (routes paths).count (route m path) = if (operation? paths (m, path)).isSome then 1 else 0 := by
  have hcount := count_merge paths paths (m, path)
  simp only [and_self] at hcount
  rw [routes_eq, ← merge_reports]
  exact hcount

theorem exists_route_of_mem {paths : PathRegistry} {c : String} (h : c ∈ routes paths) :
    ∃ m path, route m path = c := by
  rw [routes_eq] at h
  obtain ⟨slot, _, hslot⟩ := List.mem_map.mp h
  exact ⟨slot.1, slot.2, hslot⟩

end PathRegistry

/-! ## Files that bind a route -/

theorem countP_binds_yields (ctx : RouteContext) (m : Method) (path : String) (files : List SourceFile) :
    (yields (PathRegistry.ofFile ctx) files).countP (binds (m, path)) =
      files.countP fun file => PathRegistry.route m path ∈ file.routes := by
  induction files with
  | nil => rfl
  | cons file files ih =>
    rw [List.countP_cons, ← ih]
    cases hr : file.records with
    | nil =>
      have hy : yields (PathRegistry.ofFile ctx) (file :: files) = yields (PathRegistry.ofFile ctx) files := by
        unfold SourceFile.records at hr
        simp [yields, PathRegistry.ofFile, hr, Except.toOption]
      simp [hy, SourceFile.mem_routes_iff, hr]
    | cons r records =>
      have hy : yields (PathRegistry.ofFile ctx) (file :: files) =
          PathRegistry.assemble ctx file.records :: yields (PathRegistry.ofFile ctx) files := by
        have hblocks := hr
        unfold SourceFile.records at hblocks
        simp [yields, PathRegistry.ofFile, hr, hblocks, Except.toOption]
      have hbinds : binds (m, path) (PathRegistry.assemble ctx file.records) =
          decide (PathRegistry.route m path ∈ file.routes) := by
        rw [Bool.eq_iff_iff, decide_eq_true_eq, SourceFile.mem_routes_iff]
        simp only [← Record.slot?_eq_some_iff]
        exact PathRegistry.isSome_operation?_assemble ctx
      rw [hy, List.countP_cons, hbinds]

section
variable (ctx : RouteContext) (units : List (List SourceFile))

theorem accounts_units : Accounts (aggregate (units.map (yields (PathRegistry.ofFile ctx))))
    (yields (PathRegistry.ofFile ctx) units.flatten) := by
  have h := accounts_aggregate (units.map (yields (PathRegistry.ofFile ctx)))
  have hflat : (units.map (yields (PathRegistry.ofFile ctx))).flatten =
      yields (PathRegistry.ofFile ctx) units.flatten := by
    unfold yields
    rw [List.filterMap_flatten]
  rw [hflat] at h
  exact h

/-- A route is reported once for every file but one that has it. -/
theorem count_collisions (m : Method) (path : String) :
    (aggregate (units.map (yields (PathRegistry.ofFile ctx)))).collisions.count (PathRegistry.route m path) =
      (units.flatten.countP fun file => PathRegistry.route m path ∈ file.routes) - 1 := by
  rw [← countP_binds_yields ctx]
  exact (accounts_units ctx units).count_eq (m, path)

theorem count_bound (m : Method) (path : String) :
    (PathRegistry.routes (aggregate (units.map (yields (PathRegistry.ofFile ctx)))).registry).count
      (PathRegistry.route m path) =
      if 0 < (units.flatten.countP fun file => PathRegistry.route m path ∈ file.routes) then 1 else 0 := by
  rw [← countP_binds_yields ctx, PathRegistry.count_routes]
  have hbound := (accounts_units ctx units).isSome_iff (m, path)
  exact if_congr hbound rfl rfl

/-- Every route of a record is bound, reported, or comes again in its file. -/
theorem routes_conserved :
    let merged := aggregate (units.map (yields (PathRegistry.ofFile ctx)))
    (PathRegistry.routes merged.registry ++ merged.collisions ++
      units.flatten.flatMap fun file => overwritten file.routes).Perm
        (units.flatten.flatMap SourceFile.routes) := by
  intro merged
  rw [List.perm_iff_count]
  intro c
  rw [List.count_append, List.count_append, ← count_flatMap_overwritten SourceFile.routes]
  by_cases hc : ∃ m path, PathRegistry.route m path = c
  · obtain ⟨m, path, rfl⟩ := hc
    rw [count_bound, count_collisions]
    split <;> omega
  · -- nothing but routes is counted
    have hbound : c ∉ PathRegistry.routes merged.registry :=
      fun h => hc (PathRegistry.exists_route_of_mem h)
    have hcollisions : c ∉ merged.collisions := by
      intro h
      obtain ⟨slot, hslot⟩ := (accounts_units ctx units).described c h
      exact hc ⟨slot.1, slot.2, hslot⟩
    have hfiles : (units.flatten.countP fun file => c ∈ file.routes) = 0 := by
      rw [List.countP_eq_zero]
      intro file _ h
      exact hc (SourceFile.exists_route_of_mem (of_decide_eq_true h))
    rw [List.count_eq_zero.mpr hbound, List.count_eq_zero.mpr hcollisions, hfiles]

end

theorem flatMap_overwritten_eq_nil_iff {files : List SourceFile} :
    (files.flatMap fun file => overwritten file.routes) = [] ↔ ∀ file ∈ files, file.routes.Nodup := by
  rw [List.flatMap_eq_nil_iff]
  simp only [overwritten_eq_nil_iff]

theorem recordsFor_flatMap (m : Method) (path : String) (files : List SourceFile) :
    recordsFor m path (files.flatMap SourceFile.records) =
      (files.flatMap SourceFile.routes).count (PathRegistry.route m path) := by
  rw [recordsFor, List.countP_flatMap, List.count_flatMap]
  refine congrArg List.sum (List.map_congr_left fun file _ => ?_)
  exact (file.count_routes m path).symm

theorem count_overwritten_eq_zero_iff {m : Method} {path : String} {files : List SourceFile} :
    (files.flatMap fun file => overwritten file.routes).count (PathRegistry.route m path) = 0 ↔
      ∀ file ∈ files, recordsFor m path file.records ≤ 1 := by
  rw [List.count_eq_zero, List.mem_flatMap]
  push Not
  refine forall₂_congr fun file _ => ?_
  rw [← List.count_eq_zero, count_overwritten, file.count_routes]
  omega

/-! ## What an extraction reports -/

theorem exists_units {ctx : RouteContext} {options : ExtractionOptions} {root : String} {disk disk' : Disk}
    {found : Extracted PathRegistry} (h : extract (.paths ctx) options root disk = (.ok found, disk')) :
    ∃ units, scanUnits options root disk = .ok units ∧
      found.toMerged = aggregate (units.map (yields (PathRegistry.ofFile ctx))) := by
  unfold Extractor.paths at h
  rw [extract_ofFunction] at h
  cases hunits : scanUnits options root disk with
  | error e =>
    rw [hunits] at h
    cases h
  | ok units =>
    rw [hunits] at h
    cases h
    exact ⟨units, rfl, rfl⟩

/-- The operations of an extraction are all accounted for. Those of the records are, route by route, the
bound ones, the reported ones, and those that come again in their own file, which are not reported. So a
route is reported for all but one of its records exactly if no file has two records for it, and all
records are bound or reported exactly if this holds of every route. The reports are the same for every
order of the units. -/
theorem operations_accounted {ctx : RouteContext} {options : ExtractionOptions} {root : String}
    {disk disk' : Disk} {found : Extracted PathRegistry}
    (h : extract (.paths ctx) options root disk = (.ok found, disk')) :
    ∃ units, scanUnits options root disk = .ok units ∧
      let files := units.flatten
      let records := files.flatMap SourceFile.records
      let routes := files.flatMap SourceFile.routes
      (PathRegistry.routes found.registry ++ found.collisions ++
        files.flatMap fun file => overwritten file.routes).Perm routes ∧
      (∀ m path, found.collisions.count (PathRegistry.route m path) =
        (files.countP fun file => ∃ r ∈ file.records, r.IsFor m path) - 1) ∧
      (∀ m path, 0 < recordsFor m path records →
        (found.collisions.count (PathRegistry.route m path) = recordsFor m path records - 1 ↔
          ∀ file ∈ files, recordsFor m path file.records ≤ 1)) ∧
      (routes.length = (PathRegistry.routes found.registry).length + found.collisions.length ↔
        ∀ file ∈ files, file.routes.Nodup) ∧
      ∀ order, order.Perm (units.map (yields (PathRegistry.ofFile ctx))) →
        (aggregate order).collisions.Perm found.collisions := by
  obtain ⟨units, hunits, hfound⟩ := exists_units h
  refine ⟨units, hunits, ?_⟩
  dsimp only
  have hperm := routes_conserved ctx units
  have hcount := count_collisions ctx units
  have hsame : ∀ order, order.Perm (units.map (yields (PathRegistry.ofFile ctx))) →
      (aggregate order).collisions.Perm (aggregate (units.map (yields (PathRegistry.ofFile ctx)))).collisions :=
    fun order horder => (conserved_of_perm horder).same_collisions
  rw [← hfound] at hperm hcount hsame
  refine ⟨hperm, ?_, ?_, ?_, hsame⟩
  · intro m path
    rw [hcount]
    simp only [SourceFile.mem_routes_iff]
  · intro m path hpos
    rw [recordsFor_flatMap] at hpos ⊢
    rw [← count_overwritten_eq_zero_iff, hcount]
    have htotal := count_flatMap_overwritten SourceFile.routes (PathRegistry.route m path) units.flatten
    have hfiles := countP_pos_of_count_flatMap hpos
    omega
  · have hlength := hperm.length_eq
    rw [List.length_append, List.length_append] at hlength
    rw [← flatMap_overwritten_eq_nil_iff, ← List.length_eq_zero_iff]
    omega

/-! ## A route that comes again in its file -/

def twiceSource : String := "//!@apiPath:a\n//!@apiMethod:GET\n///@apiPath:/a\n///@apiMethod:get\nuse b;"

def twiceDisk : Disk where
  root := .directory [("src", .directory [("a.rs", .file twiceSource.toUTF8)])]
  here := []

theorem scanUnits_twice : ∃ file, scanUnits { maxWorkers := some 1 } "/src" twiceDisk = .ok [[file]] ∧
    recordsFor .get "/a" file.records = 2 := by
  have hblocks : (scanUnits { maxWorkers := some 1 } "/src" twiceDisk).toOption.map
      (·.map (·.map SourceFile.blocks)) =
        some [[["@apiPath:a\n@apiMethod:GET", "@apiPath:/a\n@apiMethod:get"]]] := by
    decide +kernel
  have hrecords : recordsFor .get "/a" (["@apiPath:a\n@apiMethod:GET",
      "@apiPath:/a\n@apiMethod:get"].filterMap Record.ofBlock?) = 2 := by
    decide +kernel
  cases hunits : scanUnits { maxWorkers := some 1 } "/src" twiceDisk with
  | error e =>
    rw [hunits] at hblocks
    cases hblocks
  | ok units =>
    rw [hunits] at hblocks
    obtain ⟨files, rfl, hfiles⟩ := List.map_eq_singleton_iff.mp (Option.some.inj hblocks)
    obtain ⟨file, rfl, hfile⟩ := List.map_eq_singleton_iff.mp hfiles
    refine ⟨file, rfl, ?_⟩
    rw [SourceFile.records, hfile]
    exact hrecords

theorem extract_twice : ∃ file found, scanUnits { maxWorkers := some 1 } "/src" twiceDisk = .ok [[file]] ∧
    extract (.paths {}) { maxWorkers := some 1 } "/src" twiceDisk = (.ok found, twiceDisk) ∧
    recordsFor .get "/a" file.records = 2 ∧ found.collisions.count (PathRegistry.route .get "/a") = 0 := by
  obtain ⟨file, hunits, hrecords⟩ := scanUnits_twice
  refine ⟨file, ⟨aggregate ([[file]].map (yields (PathRegistry.ofFile {}))), 1⟩, hunits, ?_, hrecords, ?_⟩
  · rw [Extractor.paths, extract_ofFunction, hunits]
    rfl
  · have hle := List.countP_le_length (p := fun f => decide (PathRegistry.route .get "/a" ∈ f.routes))
      (l := [[file]].flatten)
    rw [count_collisions {} [[file]]]
    simp only [List.flatten_singleton, List.length_singleton] at hle ⊢
    omega

/-- One of the two handlers is bound, and the other one comes again. -/
theorem operations_accounted_twice : ∃ found file,
    extract (.paths {}) { maxWorkers := some 1 } "/src" twiceDisk = (.ok found, twiceDisk) ∧
    scanUnits { maxWorkers := some 1 } "/src" twiceDisk = .ok [[file]] ∧
    recordsFor .get "/a" file.records = 2 ∧
    (PathRegistry.routes found.registry ++ found.collisions ++ overwritten file.routes).Perm file.routes ∧
    ¬file.routes.Nodup ∧
    file.routes.length ≠ (PathRegistry.routes found.registry).length + found.collisions.length := by
  obtain ⟨file, found, hunits, hextract, hrecords, -⟩ := extract_twice
  obtain ⟨units, hunits', hperm, -, -, htotal, -⟩ := operations_accounted hextract
  rw [hunits] at hunits'
  obtain rfl := Except.ok.inj hunits'
  have hdup : ¬file.routes.Nodup := by
    intro hnodup
    have hle := List.nodup_iff_count_le_one.mp hnodup (PathRegistry.route .get "/a")
    rw [file.count_routes, hrecords] at hle
    omega
  have htotal : file.routes.length = (PathRegistry.routes found.registry).length + found.collisions.length ↔
      file.routes.Nodup := by simpa using htotal
  exact ⟨found, file, hextract, hunits, hrecords, by simpa using hperm, hdup, fun h => hdup (htotal.mp h)⟩

/-- Two records for one route, and no report of it. -/
theorem route_again_unreported : ∃ file found,
    scanUnits { maxWorkers := some 1 } "/src" twiceDisk = .ok [[file]] ∧
    extract (.paths {}) { maxWorkers := some 1 } "/src" twiceDisk = (.ok found, twiceDisk) ∧
    recordsFor .get "/a" file.records = 2 ∧
    found.collisions.count (PathRegistry.route .get "/a") ≠ recordsFor .get "/a" file.records - 1 := by
  obtain ⟨file, found, hunits, hextract, hrecords, hcount⟩ := extract_twice
  refine ⟨file, found, hunits, hextract, hrecords, ?_⟩
  rw [hcount, hrecords]
  decide

end ApiDocs
