import ApiDocs.Proofs.Reports
import Mathlib.Data.List.Forall2

/-!
# Units of an extraction

An extractor that only looks at the file neither changes the disk nor crashes, so an extraction reads
all units from one disk and merges their reports in the order of the walk.
-/

namespace ApiDocs

/-- The files of some directories, unless one of the directories cannot be read. -/
def readUnits (options : ExtractionOptions) (disk : Disk) :
    List String → Except ExtractError (List (List SourceFile))
  | [] => .ok []
  | d :: ds =>
    match sourceFiles options disk d with
    | .error cause => .error (.readDirectory d cause)
    | .ok files => (readUnits options disk ds).map (files :: ·)

theorem readUnits_eq_ok_iff {options : ExtractionOptions} {disk : Disk} : ∀ {directories : List String}
    {units : List (List SourceFile)}, readUnits options disk directories = .ok units ↔
      List.Forall₂ (fun d files => sourceFiles options disk d = .ok files) directories units
  | [], units => by
    rw [List.forall₂_nil_left_iff, readUnits, Except.ok.injEq, eq_comm]
  | d :: ds, units => by
    rw [List.forall₂_cons_left_iff, readUnits]
    cases sourceFiles options disk d with
    | error cause => simp
    | ok files =>
      simp only [Except.ok.injEq, ← readUnits_eq_ok_iff]
      cases readUnits options disk ds <;> simp [Except.map, eq_comm]

def scanUnits (options : ExtractionOptions) (root : String) (disk : Disk) :
    Except ExtractError (List (List SourceFile)) :=
  match disk.directories options.ignoredDirectories root with
  | .error cause => .error (.walk root cause)
  | .ok directories => readUnits options disk directories

section
variable {ρ : Type} [Registry ρ] (f : SourceFile → Except FileError ρ)

/-- What files yield; those that cannot be used yield nothing. -/
def yields (files : List SourceFile) : List ρ := files.filterMap fun file => (f file).toOption

theorem mergeFiles_ofFunction (disk : Disk) : ∀ (files : List SourceFile) (sofar : Merged ρ),
    mergeFiles (.ofFunction f) files sofar disk =
      (some ((yields f files).foldl (fun sofar r => sofar.join { registry := r }) sofar), disk)
  | [], sofar => rfl
  | file :: files, sofar => by
    unfold mergeFiles
    cases hf : f file with
    | ok entries =>
      have hx : (Extractor.ofFunction f).extract file disk = (.registry entries, disk) := by
        simp [Extractor.ofFunction, hf]
      have hy : yields f (file :: files) = entries :: yields f files := by
        simp [yields, hf, Except.toOption]
      rw [hx, hy, List.foldl_cons]
      exact mergeFiles_ofFunction disk files _
    | error cause =>
      have hx : (Extractor.ofFunction f).extract file disk = (.skipped cause, disk) := by
        simp [Extractor.ofFunction, hf]
      have hy : yields f (file :: files) = yields f files := by
        simp [yields, hf, Except.toOption]
      rw [hx, hy]
      exact mergeFiles_ofFunction disk files sofar

theorem extractDirectory_ofFunction (options : ExtractionOptions) (disk : Disk) {d : String}
    {files : List SourceFile} (h : sourceFiles options disk d = .ok files) :
    extractDirectory (.ofFunction f) options d disk = (some (.ok (unitReport (yields f files))), disk) := by
  unfold extractDirectory
  rw [h]
  simp only [mergeFiles_ofFunction]
  rfl

theorem collect_ofFunction (options : ExtractionOptions) (workers : Nat) (disk : Disk) :
    ∀ (directories : List String) (sofar : Collected ρ),
      collect (.ofFunction f) options (workers + 1) directories sofar disk =
        ((readUnits options disk directories).map fun units => { sofar with
          merged := units.foldl (fun m files => m.join (unitReport (yields f files))) sofar.merged }, disk)
  | [], sofar => by
    rw [collect]
    rfl
  | d :: ds, sofar => by
    rw [collect, readUnits]
    cases hs : sourceFiles options disk d with
    | error cause =>
      have hx : extractDirectory (.ofFunction f) options d disk =
          (some (.error (.readDirectory d cause)), disk) := by
        unfold extractDirectory
        rw [hs]
      rw [hx]
      rfl
    | ok files =>
      rw [extractDirectory_ofFunction f options disk hs]
      simp only
      rw [collect_ofFunction options workers disk ds]
      cases readUnits options disk ds <;> rfl

/-- An extraction merges the units of the walk in order. -/
theorem extract_ofFunction (options : ExtractionOptions) (root : String) (disk : Disk) :
    extract (.ofFunction f) options root disk =
      ((scanUnits options root disk).map fun units =>
        ⟨aggregate (units.map (yields f)), units.length⟩, disk) := by
  unfold extract scanUnits
  cases disk.directories options.ignoredDirectories root with
  | error cause => rfl
  | ok directories =>
    obtain ⟨workers, hw⟩ : ∃ w, options.workers directories.length = w + 1 :=
      Nat.exists_eq_succ_of_ne_zero (by unfold ExtractionOptions.workers; omega)
    simp only [hw, collect_ofFunction]
    cases hu : readUnits options disk directories with
    | error e => rfl
    | ok units =>
      rw [(readUnits_eq_ok_iff.mp hu).length_eq]
      simp only [Except.map, aggregate, List.foldl_map]
      rfl

end

end ApiDocs
