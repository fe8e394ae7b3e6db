import ApiDocs.Proofs.Assembly
import ApiDocs.Proofs.Places

/-!
# Extraction from a tree of files

`Entry.records` lists the records of a tree in the order of a walk, without paths, disks and units:
those of the files in a directory by name, then those of the directories in it by name. Extraction from
a tree with one worker is the assembly of that list.
-/

namespace ApiDocs

/-! ## The records of a tree -/

def contentRecords (content : ByteArray) : List Record :=
  match String.fromUTF8? content with
  | none => []
  | some text =>
    match Source.File.parse? text with
    | none => []
    | some file => file.docBlocks.filterMap Record.ofBlock?

def fileRecords (options : ExtractionOptions) : String × Entry → List Record
  | (name, .file content) => if options.readsFile name then contentRecords content else []
  | (_, .directory _) | (_, .sealed) => []

namespace Entry

mutual
def records (options : ExtractionOptions) : Entry → List Record
  | .file _ | .sealed => []
  | .directory children =>
    (children.mergeSort fun a b => a.1 ≤ b.1).flatMap (fileRecords options) ++
      ((childRecords options children).mergeSort fun a b => a.1 ≤ b.1).flatMap (·.2)
def childRecords (options : ExtractionOptions) : List (String × Entry) → List (String × List Record)
  | [] => []
  | (name, e) :: rest =>
    if isWalked options.ignoredDirectories name then
      (name, e.records options) :: childRecords options rest
    else childRecords options rest
end

def walked (ignored : List String) (children : List (String × Entry)) : List (String × Entry) :=
  (children.filter fun c => isWalked ignored c.1).mergeSort fun a b => a.1 ≤ b.1

theorem mem_of_mem_walked {ignored : List String} {children : List (String × Entry)} {c : String × Entry}
    (h : c ∈ walked ignored children) : c ∈ children :=
  List.mem_of_mem_filter (List.mem_mergeSort.mp h)

theorem flatMap_mergeSort {α β : Type} (l : List (String × α)) (f : String × α → List β) :
    ((l.map fun c => (c.1, f c)).mergeSort fun a b => a.1 ≤ b.1).flatMap (·.2) =
      (l.mergeSort fun a b => a.1 ≤ b.1).flatMap f := by
  have h : (l.mergeSort fun a b => a.1 ≤ b.1).map (fun c => (c.1, f c)) =
      (l.map fun c => (c.1, f c)).mergeSort fun a b => a.1 ≤ b.1 :=
    List.map_mergeSort fun _ _ _ _ => rfl
  rw [← h, List.flatMap_map]

theorem childVisits_eq (ignored : List String) (path : String) :
    ∀ children : List (String × Entry), childVisits ignored path children =
      (children.filter fun c => isWalked ignored c.1).map fun c =>
        (c.1, c.2.visits ignored (Path.join path c.1))
  | [] => rfl
  | (name, e) :: rest => by
    rw [childVisits, childVisits_eq ignored path rest, List.filter_cons]
    split <;> rfl

theorem childRecords_eq (options : ExtractionOptions) : ∀ children : List (String × Entry),
    childRecords options children =
      (children.filter fun c => isWalked options.ignoredDirectories c.1).map fun c =>
        (c.1, c.2.records options)
  | [] => rfl
  | (name, e) :: rest => by
    rw [childRecords, childRecords_eq options rest, List.filter_cons]
    split <;> rfl

theorem visits_directory (ignored : List String) (path : String) (children : List (String × Entry)) :
    (directory children).visits ignored path = ⟨path, true⟩ ::
      (walked ignored children).flatMap fun c => c.2.visits ignored (Path.join path c.1) := by
  rw [visits, childVisits_eq, flatMap_mergeSort]
  rfl

theorem records_directory (options : ExtractionOptions) (children : List (String × Entry)) :
    (directory children).records options =
      (children.mergeSort fun a b => a.1 ≤ b.1).flatMap (fileRecords options) ++
        (walked options.ignoredDirectories children).flatMap fun c => c.2.records options := by
  rw [records, childRecords_eq, flatMap_mergeSort]
  rfl

end Entry

/-! ## The files of a directory -/

theorem records_parse (path text : String) :
    (SourceFile.parse path text).toOption.toList.flatMap SourceFile.records =
      match Source.File.parse? text with
      | none => []
      | some file => file.docBlocks.filterMap Record.ofBlock? := by
  unfold SourceFile.parse
  cases hp : Source.File.parse? text with
  | none => rfl
  | some file =>
    simp only
    split
    · rename_i hempty
      rw [List.isEmpty_iff.mp hempty]
      rfl
    · simp [Except.toOption, SourceFile.records]

theorem records_read {disk : Disk} {path : String} {content : ByteArray}
    (h : disk.entry path = .ok (.file content)) :
    (SourceFile.read disk path).toOption.toList.flatMap SourceFile.records = contentRecords content := by
  have hread : disk.read path = .ok content := by
    unfold Disk.read
    rw [h]
    rfl
  unfold SourceFile.read Disk.readText contentRecords
  rw [hread]
  cases ht : String.fromUTF8? content with
  | none => simp [bind, Except.bind, ht, Except.toOption]
  | some text =>
    simp only [bind, Except.bind, ht]
    exact records_parse path text

section
variable {disk : Disk} (ht : disk.root.IsTree) (options : ExtractionOptions) {path : String}
  {children : List (String × Entry)} (h : disk.entry path = .ok (.directory children))
include ht h

theorem flatMap_records_files : ∀ l : List (String × Entry), (∀ c ∈ l, c ∈ children) →
    (((l.filter fun c => !c.2.isDirectory && options.readsFile c.1).map fun c =>
      Path.join path c.1).filterMap fun p => (SourceFile.read disk p).toOption).flatMap SourceFile.records =
      l.flatMap (fileRecords options)
  | [], _ => rfl
  | (name, e) :: l, hl => by
    have ih := flatMap_records_files l fun c hc => hl c (List.mem_cons_of_mem _ hc)
    have hc := Disk.entry_join ht h (hl (name, e) (List.mem_cons_self ..))
    rw [List.filter_cons, List.flatMap_cons, ← ih]
    cases e with
    | directory _ => simp [Entry.isDirectory, fileRecords]
    | sealed => simp [Entry.isDirectory, fileRecords]
    | file content =>
      by_cases hr : options.readsFile name = true
      · have hrec := records_read hc
        simp only [Entry.isDirectory, hr, fileRecords, ← hrec]
        cases hopt : (SourceFile.read disk (Path.join path name)).toOption <;> simp [hopt]
      · simp [Entry.isDirectory, fileRecords, hr]

theorem sourceFiles_directory : ∃ files, sourceFiles options disk path = .ok files ∧
    files.flatMap SourceFile.records =
      (children.mergeSort fun a b => a.1 ≤ b.1).flatMap (fileRecords options) := by
  have hlist : disk.list path = .ok (children.mergeSort fun a b => a.1 ≤ b.1) := by
    unfold Disk.list
    rw [h]
    rfl
  unfold sourceFiles sourcePaths
  rw [hlist]
  exact ⟨_, rfl, flatMap_records_files ht options h _ fun c hc => List.mem_mergeSort.mp hc⟩

end

/-! ## The units of a walk -/

/-- The directories can be read, and their files have the records. -/
def Reads (options : ExtractionOptions) (disk : Disk) (directories : List String)
    (records : List Record) : Prop :=
  ∃ units, readUnits options disk directories = .ok units ∧
    units.flatten.flatMap SourceFile.records = records

theorem Reads.append {options : ExtractionOptions} {disk : Disk} {as bs : List String}
    {rs₁ rs₂ : List Record} (ha : Reads options disk as rs₁) (hb : Reads options disk bs rs₂) :
    Reads options disk (as ++ bs) (rs₁ ++ rs₂) := by
  obtain ⟨us, hu, rfl⟩ := ha
  obtain ⟨vs, hv, rfl⟩ := hb
  refine ⟨us ++ vs, ?_, by rw [List.flatten_append, List.flatMap_append]⟩
  exact readUnits_eq_ok_iff.mpr (List.rel_append (readUnits_eq_ok_iff.mp hu) (readUnits_eq_ok_iff.mp hv))

theorem Reads.flatMap {options : ExtractionOptions} {disk : Disk} {ι : Type} (directories : ι → List String)
    (records : ι → List Record) : ∀ l : List ι, (∀ i ∈ l, Reads options disk (directories i) (records i)) →
      Reads options disk (l.flatMap directories) (l.flatMap records)
  | [], _ => ⟨[], rfl, rfl⟩
  | i :: l, h => by
    rw [List.flatMap_cons, List.flatMap_cons]
    exact (h i (List.mem_cons_self ..)).append
      (Reads.flatMap directories records l fun j hj => h j (List.mem_cons_of_mem _ hj))

theorem sizeOf_child_lt {children : List (String × Entry)} {c : String × Entry} (h : c ∈ children) :
    sizeOf c.2 < sizeOf (Entry.directory children) := by
  have h₁ := List.sizeOf_lt_of_mem h
  have h₂ : sizeOf c = 1 + sizeOf c.1 + sizeOf c.2 := rfl
  rw [Entry.directory.sizeOf_spec]
  omega

/-- A walk reads the records of a tree that is readable. -/
theorem reads_visits {disk : Disk} (ht : disk.root.IsTree) (options : ExtractionOptions) :
    ∀ (e : Entry) (path : String), e.IsReadable → disk.entry path = .ok e →
      Reads options disk ((e.visits options.ignoredDirectories path).map (·.path)) (e.records options)
  | .file _, path, _, _ => ⟨[], by rw [Entry.visits]; rfl, by rw [Entry.records]; rfl⟩
  | .directory children, path, hr, h => by
    obtain ⟨files, hf, hrec⟩ := sourceFiles_directory ht options h
    rw [Entry.visits_directory, Entry.records_directory, ← hrec, List.map_cons, List.map_flatMap,
      ← List.singleton_append]
    refine Reads.append ⟨[files], ?_, by simp⟩ (Reads.flatMap _ _ _ fun c hc => ?_)
    · rw [readUnits, hf]
      rfl
    · have hmem := Entry.mem_of_mem_walked hc
      have hlt := sizeOf_child_lt hmem
      exact reads_visits ht options c.2 _ (hr.child hmem) (Disk.entry_join ht h hmem)
termination_by e => sizeOf e
decreasing_by exact hlt

/-! ## Flat assembly -/

theorem extract_paths_tree (ctx : RouteContext) {disk : Disk} (ht : disk.root.IsTree)
    (options : ExtractionOptions) {root : String} {children : List (String × Entry)}
    (h : disk.entry root = .ok (.directory children)) (hr : (Entry.directory children).IsReadable) :
    ∃ found, extract (.paths ctx) options root disk = (.ok found, disk) ∧
      found.registry = PathRegistry.assemble ctx ((Entry.directory children).records options) := by
  obtain ⟨units, hu, hrec⟩ := reads_visits ht options _ root hr h
  have hscan : scanUnits options root disk = .ok units := by
    unfold scanUnits
    rw [Disk.directories_of_entry h]
    exact hu
  refine ⟨⟨aggregate (units.map (yields (PathRegistry.ofFile ctx))), units.length⟩, ?_, ?_⟩
  · unfold Extractor.paths
    rw [extract_ofFunction, hscan]
    rfl
  · rw [← hrec]
    exact PathRegistry.aggregate_assemble ctx units

/-- **One flat assembly.** Extraction with one worker from a directory of a readable tree succeeds with the
assembly of all its records, and merging assembled registries is assembling the records of both. -/
theorem extract_paths_flat (ctx : RouteContext) :
    (∀ (disk : Disk) (root : String) (children : List (String × Entry)) (options : ExtractionOptions),
      disk.root.IsTree → disk.entry root = .ok (.directory children) → (Entry.directory children).IsReadable →
      (∀ units, options.workers units = 1) →
      ∃ found, extract (.paths ctx) options root disk = (.ok found, disk) ∧
        found.registry = PathRegistry.assemble ctx ((Entry.directory children).records options)) ∧
    ∀ rs₁ rs₂ : List Record, ∃ slots : List (Method × String),
      Registry.merge (PathRegistry.assemble ctx rs₁) (PathRegistry.assemble ctx rs₂) =
        (PathRegistry.assemble ctx (rs₁ ++ rs₂), slots.map fun s => PathRegistry.route s.1 s.2) ∧
      slots.Pairwise PathRegistry.SlotBefore ∧
      ∀ s, s ∈ slots ↔ (PathRegistry.operation? (PathRegistry.assemble ctx rs₁) s).isSome ∧
        (PathRegistry.operation? (PathRegistry.assemble ctx rs₂) s).isSome := by
  constructor
  · intro disk root children options ht h hr _
    exact extract_paths_tree ctx ht options h hr
  · intro rs₁ rs₂
    refine ⟨PathRegistry.shared (PathRegistry.assemble ctx rs₁) (PathRegistry.assemble ctx rs₂), ?_,
      PathRegistry.shared_sorted _ _, fun s => PathRegistry.mem_shared⟩
    exact Prod.ext (PathRegistry.merge_assemble ctx rs₁ rs₂) (PathRegistry.merge_reports _ _)

def usersTree : List (String × Entry) := [("users", .directory [
  ("list.rs", .file "//! @apiPath: /users\n//! @apiMethod: GET".toUTF8)])]

def usersDisk : Disk := { root := .directory [("src", .directory usersTree)], here := [] }

theorem usersDisk_isTree : usersDisk.root.IsTree := by
  simp [usersDisk, usersTree, Entry.IsTree, Entry.AreTrees, IsName]

theorem usersTree_isReadable : (Entry.directory usersTree).IsReadable := by
  simp [usersTree, Entry.IsReadable, Entry.AreReadable]

theorem records_usersTree (workers : Option Nat) :
    (Entry.directory usersTree).records { maxWorkers := workers } =
      contentRecords "//! @apiPath: /users\n//! @apiMethod: GET".toUTF8 := by
  have hw : ∀ name ∈ ["users", "list.rs"], isWalked ["target", "node_modules"] name = true := by
    decide
  have hr : ExtractionOptions.readsFile { maxWorkers := workers } "list.rs" = true := rfl
  simp [usersTree, Entry.records, Entry.childRecords, fileRecords, hw, hr]

theorem operation_usersTree (ctx : RouteContext) (workers : Option Nat) :
    (PathRegistry.operation? (PathRegistry.assemble ctx
      ((Entry.directory usersTree).records { maxWorkers := workers })) (.get, "/users")).isSome := by
  have hslots : (contentRecords "//! @apiPath: /users\n//! @apiMethod: GET".toUTF8).map Record.slot? =
      [some ("/users", .get)] := by decide +kernel
  rw [PathRegistry.isSome_operation?_assemble, records_usersTree, ← List.mem_map, hslots]
  exact List.mem_singleton_self _

/-- The operation is extracted. -/
theorem extract_paths_flat_users : usersDisk.root.IsTree ∧
    usersDisk.entry "/src" = .ok (.directory usersTree) ∧ (Entry.directory usersTree).IsReadable ∧
    ∃ found, extract (.paths {}) { maxWorkers := some 1 } "/src" usersDisk = (.ok found, usersDisk) ∧
      (PathRegistry.operation? found.registry (.get, "/users")).isSome := by
  have hw : ∀ units, ExtractionOptions.workers { maxWorkers := some 1 } units = 1 := by
    intro units
    unfold ExtractionOptions.workers
    exact Nat.max_eq_right (Nat.min_le_left ..)
  obtain ⟨found, he, hr⟩ := (extract_paths_flat {}).1 usersDisk "/src" usersTree { maxWorkers := some 1 }
    usersDisk_isTree rfl usersTree_isReadable hw
  refine ⟨usersDisk_isTree, rfl, usersTree_isReadable, found, he, ?_⟩
  rw [hr]
  exact operation_usersTree {} (some 1)

end ApiDocs
