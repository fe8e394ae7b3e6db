import ApiDocs.Disk.Walk
import ApiDocs.Registry
import ApiDocs.Route
import ApiDocs.Schema

/-!
# Extraction from a directory tree

Every directory below a root is a unit. Its source files are read, and what they yield is merged into
one registry; the registries of the units are merged in the order of the walk. A file that cannot be
used is skipped, a directory that cannot be read ends the extraction. Units are taken from a queue by
workers; an extractor that crashes takes its worker with it, and what no worker is left for is lost.
-/

namespace ApiDocs

/-! ## Options -/

structure ExtractionOptions where
  /-- Names of directories that are skipped with all that is below them. -/
  ignoredDirectories : List String := ["target", "node_modules"]
  /-- A file whose name holds one of these texts is skipped. -/
  ignoredFiles : List String := ["build.rs"]
  maxWorkers : Option Nat := none
deriving Repr, DecidableEq, Inhabited

namespace ExtractionOptions

/-- The number of workers for some units. Without a limit there is one for every unit. -/
def workers (o : ExtractionOptions) (units : Nat) : Nat := max (min (o.maxWorkers.getD units) units) 1

def occursIn (part : List Char) : List Char → Bool
  | [] => part.isEmpty
  | c :: cs => part.isPrefixOf (c :: cs) || occursIn part cs

def ignoresFile (o : ExtractionOptions) (name : String) : Bool :=
  o.ignoredFiles.any fun part => !part.isEmpty && occursIn part.toList name.toList

def readsFile (o : ExtractionOptions) (name : String) : Bool :=
  Path.extension? name == some "rs" && !o.ignoresFile name

end ExtractionOptions

/-! ## Errors -/

inductive ExtractError where
  | readDirectory (path : String) (cause : DiskError)
  | walk (path : String) (cause : DiskError)
  | unitsLost (missing dispatched : Nat)
deriving Repr, DecidableEq

def ExtractError.message : ExtractError → String
  | readDirectory path cause => "failed to read directory " ++ path ++ ": " ++ cause.message
  | walk path cause =>
    "failed to enumerate directories under " ++ path ++ ": " ++ cause.messageAt path
  | unitsLost missing dispatched =>
    toString missing ++ " of " ++ toString dispatched ++ " extraction units exited without reporting"

/-! ## Extractors -/

inductive Outcome (ρ : Type) where
  | registry (entries : ρ)
  | skipped (cause : FileError)
  | crash

/-- Turns a source file into a registry. It may change the disk. -/
structure Extractor (ρ : Type) where
  extract : SourceFile → Disk → Outcome ρ × Disk

namespace Extractor

def ofFunction {ρ : Type} (f : SourceFile → Except FileError ρ) : Extractor ρ where
  extract file disk :=
    match f file with
    | .ok entries => (.registry entries, disk)
    | .error cause => (.skipped cause, disk)

def schemas (kind : DeclarationKind) : Extractor SchemaRegistry :=
  ofFunction (SchemaRegistry.ofFile kind)

def paths (ctx : RouteContext) : Extractor PathRegistry := ofFunction (PathRegistry.ofFile ctx)

end Extractor

/-! ## Units -/

def SourceFile.read (disk : Disk) (path : String) : Except FileError SourceFile :=
  match disk.readText path with
  | .ok text => SourceFile.parse path text
  | .error cause => .error (.read path cause.message)

/-- The paths of the files that are read in a directory, in the order of their names. -/
def sourcePaths (options : ExtractionOptions) (disk : Disk) (directory : String) :
    Except DiskError (List String) :=
  (disk.list directory).map fun children =>
    (children.filter fun c => !c.2.isDirectory && options.readsFile c.1).map fun c =>
      Path.join directory c.1

def sourceFiles (options : ExtractionOptions) (disk : Disk) (directory : String) :
    Except DiskError (List SourceFile) :=
  (sourcePaths options disk directory).map fun paths =>
    paths.filterMap fun path => (SourceFile.read disk path).toOption

/-- A registry, and what was replaced in it so far, in that order. -/
structure Merged (ρ : Type) where
  registry : ρ
  collisions : List String := []

section

variable {ρ : Type} [Registry ρ]

def Merged.join (sofar report : Merged ρ) : Merged ρ :=
  let (registry, replaced) := Registry.merge sofar.registry report.registry
  { registry, collisions := sofar.collisions ++ report.collisions ++ replaced }

variable (x : Extractor ρ)

/-- Merges what files yield; `none` if the extractor crashes. -/
def mergeFiles : List SourceFile → Merged ρ → Disk → Option (Merged ρ) × Disk
  | [], sofar, disk => (some sofar, disk)
  | f :: fs, sofar, disk =>
    match x.extract f disk with
    | (.registry entries, disk) => mergeFiles fs (sofar.join { registry := entries }) disk
    | (.skipped _, disk) => mergeFiles fs sofar disk
    | (.crash, disk) => (none, disk)

/-- One unit: what it reports, or `none` if it is lost. -/
def extractDirectory (options : ExtractionOptions) (directory : String) (disk : Disk) :
    Option (Except ExtractError (Merged ρ)) × Disk :=
  match sourceFiles options disk directory with
  | .error cause => (some (.error (.readDirectory directory cause)), disk)
  | .ok files =>
    let (found, disk) := mergeFiles x files { registry := Registry.empty } disk
    (found.map .ok, disk)

/-! ## Trees -/

/-- What the units have reported, and how many of them never do. -/
structure Collected (ρ : Type) where
  merged : Merged ρ
  lost : Nat := 0

def collect (options : ExtractionOptions) :
    (workers : Nat) → List String → Collected ρ → Disk → Except ExtractError (Collected ρ) × Disk
  | _, [], sofar, disk => (.ok sofar, disk)
  | 0, directories, sofar, disk => (.ok { sofar with lost := sofar.lost + directories.length }, disk)
  | workers + 1, directory :: directories, sofar, disk =>
    match extractDirectory x options directory disk with
    | (none, disk) =>
      collect options workers directories { sofar with lost := sofar.lost + 1 } disk
    | (some (.error e), disk) => (.error e, disk)
    | (some (.ok report), disk) =>
      collect options (workers + 1) directories { sofar with merged := sofar.merged.join report } disk
termination_by _ directories => directories.length

structure Extracted (ρ : Type) extends Merged ρ where
  /-- The number of units. -/
  directories : Nat

def extract (options : ExtractionOptions) (root : String) (disk : Disk) :
    Except ExtractError (Extracted ρ) × Disk :=
  match disk.directories options.ignoredDirectories root with
  | .error cause => (.error (.walk root cause), disk)
  | .ok directories =>
    let units := directories.length
    match collect x options (options.workers units) directories ⟨{ registry := Registry.empty }, 0⟩
      disk with
    | (.error e, disk) => (.error e, disk)
    | (.ok found, disk) =>
      if 0 < found.lost then (.error (.unitsLost found.lost units), disk)
      else (.ok ⟨found.merged, units⟩, disk)

end

end ApiDocs
