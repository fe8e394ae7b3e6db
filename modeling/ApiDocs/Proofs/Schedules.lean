import ApiDocs.Proofs.Protocol
import ApiDocs.Proofs.Units
import Mathlib.Data.List.Perm.Basic

/-!
# Schedules

Workers may report the directories of an extraction in any order, and some may crash. What an extraction
returns when it succeeds is nevertheless the merged reports of all units, in some order. One directory
after the other is one of the schedules.
-/

namespace ApiDocs

open Protocol

/-! ## Units in another order -/

theorem readUnits_perm {options : ExtractionOptions} {disk : Disk} {as bs : List String} (h : as.Perm bs)
    {vs : List (List SourceFile)} (hv : readUnits options disk bs = .ok vs) :
    ∃ us, readUnits options disk as = .ok us ∧ us.Perm vs := by
  obtain ⟨us, hu, hp⟩ := List.perm_comp_forall₂ h (readUnits_eq_ok_iff.mp hv)
  exact ⟨us, readUnits_eq_ok_iff.mpr hu, hp⟩

/-! ## Schedules of an extraction -/

section
variable {ρ : Type} [Registry ρ]

def Protocol.Report.IsTrue (x : Extractor ρ) (options : ExtractionOptions) (disk : Disk) (r : Report ρ) : Prop :=
  (extractDirectory x options r.directory disk).1 = some r.result

/-- Some schedule of the workers, with true reports, comes to the result. -/
inductive Extracts (x : Extractor ρ) (options : ExtractionOptions) (root : String) (disk : Disk) :
    Except ExtractError (Extracted ρ) → Prop where
  | walk {cause : DiskError} (h : disk.directories options.ignoredDirectories root = .error cause) :
    Extracts x options root disk (.error (.walk root cause))
  | workers {directories : List String} {result : Except ExtractError (Extracted ρ)}
    (h : disk.directories options.ignoredDirectories root = .ok directories)
    (hr : Returns (Report.IsTrue x options disk) directories (options.workers directories.length) result) :
    Extracts x options root disk result

variable {f : SourceFile → Except FileError ρ} {options : ExtractionOptions} {root : String} {disk : Disk}

theorem extractDirectory_of_error {d : String} {cause : DiskError}
    (h : sourceFiles options disk d = .error cause) :
    extractDirectory (.ofFunction f) options d disk = (some (.error (.readDirectory d cause)), disk) := by
  unfold extractDirectory
  rw [h]

theorem reportsOn_ofFunction :
    ReportsOn (.ofFunction f) options (· = disk) (Report.IsTrue (.ofFunction f) options disk) where
  disk d disk' h := by
    subst h
    cases hs : sourceFiles options disk' d with
    | error cause => rw [extractDirectory_of_error hs]
    | ok files => rw [extractDirectory_ofFunction f options disk' hs]
  report d disk' result h hresult := by
    subst h
    exact hresult

/-- One directory after the other is a schedule. -/
theorem extracts_extract :
    Extracts (.ofFunction f) options root disk (extract (.ofFunction f) options root disk).1 := by
  cases h : disk.directories options.ignoredDirectories root with
  | error cause =>
    have hresult : extract (.ofFunction f) options root disk = (.error (.walk root cause), disk) := by
      unfold extract
      rw [h]
    rw [hresult]
    exact .walk h
  | ok directories => exact .workers h (extract_returns reportsOn_ofFunction rfl h)

theorem unitReport_of_isTrue {r : Report ρ} (hr : r.IsTrue (.ofFunction f) options disk) (he : r.error? = none) :
    ∃ files, sourceFiles options disk r.directory = .ok files ∧
      r.result = .ok (unitReport (yields f files)) := by
  unfold Report.IsTrue at hr
  cases hs : sourceFiles options disk r.directory with
  | error cause =>
    rw [extractDirectory_of_error hs] at hr
    rw [Report.error?, ← Option.some.inj hr] at he
    cases he
  | ok files =>
    rw [extractDirectory_ofFunction f options disk hs] at hr
    exact ⟨files, rfl, (Option.some.inj hr).symm⟩

/-- True reports without an error are those of units that can be read. -/
theorem readUnits_reports : ∀ {reports : List (Report ρ)},
    (∀ r ∈ reports, r.IsTrue (.ofFunction f) options disk) → (∀ r ∈ reports, r.error? = none) →
      ∃ order, readUnits options disk (reports.map (·.directory)) = .ok order ∧
        reports.filterMap (·.result.toOption) = order.map fun files => unitReport (yields f files)
  | [], _, _ => ⟨[], rfl, rfl⟩
  | r :: rs, htrue, hok => by
    obtain ⟨files, hf, hr⟩ := unitReport_of_isTrue (htrue r (List.mem_cons_self ..)) (hok r (List.mem_cons_self ..))
    obtain ⟨order, hu, hrest⟩ := readUnits_reports (fun r hr => htrue r (List.mem_cons_of_mem _ hr))
      fun r hr => hok r (List.mem_cons_of_mem _ hr)
    refine ⟨files :: order, ?_, ?_⟩
    · rw [List.map_cons, readUnits, hf]
      simp only [hu]
      rfl
    · rw [List.filterMap_cons, hr, hrest]
      rfl

/-- An extraction that succeeds has merged the reports of all units, in some order. -/
theorem Extracts.units {found : Extracted ρ} (h : Extracts (.ofFunction f) options root disk (.ok found)) :
    ∃ units order : List (List SourceFile), scanUnits options root disk = .ok units ∧ order.Perm units ∧
      found = ⟨aggregate (order.map (yields f)), units.length⟩ := by
  cases h with
  | @workers directories _ hscan hreturns =>
    obtain ⟨s, hs, htrue, hc⟩ := hreturns
    have hinv := reachable_inv hs
    obtain ⟨hperm, hfound⟩ := (hinv.concludes hc).whole found rfl
    have hok := ((hinv.concludes hc).ok_iff.mp ⟨found, rfl⟩).2
    have hsent := hinv.received_prefix.subset
    obtain ⟨order, ho, hreports⟩ := readUnits_reports (fun r hr => htrue r (hsent hr)) fun r hr => hok r (hsent hr)
    obtain ⟨units, hu, hp⟩ := readUnits_perm hperm.symm ho
    refine ⟨units, order, ?_, hp.symm, ?_⟩
    · unfold scanUnits
      rw [hscan]
      exact hu
    · rw [hfound, joined, hreports, ← (readUnits_eq_ok_iff.mp hu).length_eq, aggregate, List.foldl_map, List.foldl_map]

end

end ApiDocs
