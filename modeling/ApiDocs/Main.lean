import ApiDocs.CommandLine.Run

/-!
# The command

Loads the part of the file system that a run can look at, runs, and writes what has changed.
-/

namespace ApiDocs.CommandLine

/-! ## Loading -/

/-- The names that a path leads along from a place, by its text alone. -/
def namesFrom (here : List String) (path : String) : List String :=
  (Text.parts '/' path).foldl
    (fun names part =>
      if part.isEmpty || part == "." then names
      else if part == ".." then names.dropLast
      else names ++ [part])
    (if Path.isAbsolute path then [] else here)

def leadingPaths (path : String) : List String :=
  let ps := Text.parts '/' path
  (List.range ps.length).map fun i => "/".intercalate (ps.take (i + 1))

def names? (path : String) : IO (Option (List String)) := do
  match ← (System.mkFilePath [path]).readDir.toBaseIO with
  | .ok children => pure (some (children.toList.map (·.fileName)))
  | .error (.permissionDenied ..) => pure none
  | .error e => throw e

/-- Reads a file or a directory tree; directories that no run enters are left empty. -/
partial def loadEntry (ignored : List String) (path : String) : IO Entry := do
  if ← (System.mkFilePath [path]).isDir then
    match ← names? path with
    | none => pure .sealed
    | some names =>
      let children ← names.mapM fun name => do
        let below := Path.join path name
        if (← (System.mkFilePath [below]).isDir) && !isWalked ignored name then
          pure (name, Entry.directory [])
        else pure (name, ← loadEntry ignored below)
      pure (.directory children)
  else pure (.file (← IO.FS.readBinFile path))

def loadPath (ignored : List String) (disk : Disk) (path : String) : IO Disk := do
  let mut disk := disk
  for leading in leadingPaths path do
    let place := namesFrom disk.here leading
    if (← (System.mkFilePath [leading]).isDir) && (disk.root.find? place).isNone then
      disk := disk.setEntry place (if (← names? leading).isNone then .sealed else .directory [])
  if ← (System.mkFilePath [path]).pathExists then
    pure (disk.setEntry (namesFrom disk.here path) (← loadEntry ignored path))
  else pure disk

def relevantPaths (args : Arguments) (s : Settings) : List String :=
  [args.projectPath, s.schemasRoot, s.pathsRoot, Path.join s.outputDirectory s.fileName] ++
    (s.config.tagsFrom.map (Path.join args.projectPath)).toList ++
    (s.config.viewer.map fun v => Path.join args.projectPath v.exportPath).toList

def loadDisk (args : Arguments) : IO Disk := do
  let here := namesFrom [] (toString (← IO.currentDir))
  let bare : Disk := ⟨(Entry.directory []).set here (.directory []), here⟩
  let disk ← args.config.toList.foldlM (loadPath []) bare
  match Settings.ofArguments args disk with
  | .error _ => loadPath [] disk args.projectPath
  | .ok s =>
    (relevantPaths args s).foldlM (loadPath s.config.extractionOptions.ignoredDirectories) disk

/-! ## Storing -/

mutual
/-- The directories and files of a tree that another one does not have, parents first. -/
def changes (old : Option Entry) (place : List String) : Entry → List (List String × Option ByteArray)
  | .file content =>
    match old with
    | some (.file before) => if before == content then [] else [(place, some content)]
    | _ => [(place, some content)]
  | .directory children =>
    (match old with
      | some (.directory _) => []
      | _ => [(place, none)]) ++ changesIn old place children
  | .sealed => []
def changesIn (old : Option Entry) (place : List String) :
    List (String × Entry) → List (List String × Option ByteArray)
  | [] => []
  | (name, e) :: rest =>
    changes (old.bind (·.find? [name])) (place ++ [name]) e ++ changesIn old place rest
end

def store (old new : Disk) : IO Unit := do
  for (place, content) in changes (some old.root) [] new.root do
    let path := "/" ++ "/".intercalate place
    match content with
    | none => IO.FS.createDirAll path
    | some bytes => IO.FS.writeBinFile path bytes

/-! ## Messages -/

def UsageError.message : UsageError → String
  | unknownArgument => "unexpected argument"
  | invalidValue => "invalid or missing value"
  | valueValidation => "value out of range"
  | missingRequiredArgument => "the project path is missing"
  | argumentConflict => "an argument is given more than once"
  | tooManyValues => "an option without a value is given one"
  | displayHelp => "help"
  | displayVersion => "version"

def usage : String := "\n".intercalate [
  "Usage: apidocs [OPTIONS] <PROJECT_PATH>",
  "",
  "Options:",
  "      --schemas <DIR>             directory of the schema and enumeration declarations",
  "      --paths <DIR>               directory of the path directives",
  "  -o, --output <FILE>             output file",
  "  -f, --format <FORMAT>           yaml or json",
  "  -c, --config <FILE>             configuration file",
  "      --ignore <DIR>              further directory names to skip, separated by commas",
  "      --error-ref <SCHEMA>        schema of the error responses",
  "      --default-errors [<CODES>]  offer the standard error responses",
  "      --tags-from <DIR>           directory whose subdirectories name the tags",
  "      --export-ui <DIR>           directory for a viewer page",
  "      --strict                    fail if the document has findings",
  "  -v, --verbose                   say more",
  "  -h, --help                      this text",
  "  -V, --version                   the version"]

def offline : Fetch := fun _ => none

def report (g : Builder.Generated) : IO Unit := do
  for f in g.findings do
    IO.eprintln ("warning: " ++ f.message)
  IO.eprintln ("written to " ++ g.path)

end ApiDocs.CommandLine

open ApiDocs.CommandLine in
/-- Ends with 0 for a written document, 1 for a failed run and 2 for unusable arguments. -/
def main (words : List String) : IO UInt32 := do
  match Arguments.ofWords words with
  | .error .displayHelp => IO.println usage; return 0
  | .error .displayVersion => IO.println "apidocs 0.1.0"; return 0
  | .error e => IO.eprintln ("error: " ++ e.message ++ "\n\n" ++ usage); return 2
  | .ok args =>
    let disk ← loadDisk args
    let (result, after) := run offline args disk
    store disk after
    match result with
    | .ok generated => report generated; return 0
    | .error e => IO.eprintln ("Error: " ++ e.message); return 1
