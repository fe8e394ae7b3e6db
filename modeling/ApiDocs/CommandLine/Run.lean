import ApiDocs.CommandLine.Arguments
import ApiDocs.Pipeline

/-!
# Running the command

Arguments win over the configuration file, and that over what is built in. Paths of the configuration
and of the arguments are relative to the project, apart from the configuration file itself and the
output file.
-/

namespace ApiDocs.CommandLine

inductive RunError where
  | missingProject (path : String)
  | projectNotDirectory (path : String)
  | config (cause : ConfigError)
  | noFileName (path : String)
  | stage (cause : StageFailure)
deriving Repr, DecidableEq

def RunError.message : RunError → String
  | missingProject path => "Project path does not exist: " ++ path
  | projectNotDirectory path => "Project path is not a directory: " ++ path
  | config cause => cause.message
  | noFileName path => "Output path has no file name: " ++ path
  | stage cause => cause.message

structure Settings where
  config : Config
  schemasRoot : String
  pathsRoot : String
  outputDirectory : String
  fileName : String
  format : Format
  errorRef : Option String
deriving Repr, DecidableEq

namespace Settings

def splitOutput (output : String) : Except RunError (String × String) :=
  match Path.fileName? output with
  | none => .error (.noFileName output)
  | some name =>
    match Path.parent? output with
    | none | some "" => .ok (".", name)
    | some directory => .ok (directory, name)

def overlay (args : Arguments) (c : Config) : Config :=
  { c with
    ignoredDirectories := c.ignoredDirectories ++ args.ignore
    defaultErrors := args.defaultErrors.or c.defaultErrors
    tagsFrom := args.tagsFrom.or c.tagsFrom
    viewer := match args.exportUi with
      | some exportPath => some { c.viewer.getD {} with exportPath }
      | none => c.viewer
    strict := c.strict || args.strict }

def ofArguments (args : Arguments) (disk : Disk) : Except RunError Settings := do
  let config ← match args.config with
    | none => .ok {}
    | some path => (Config.load disk path).mapError .config
  let config := overlay args config
  let root (dir : Option String) : String := (dir.map (Path.join args.projectPath)).getD args.projectPath
  let (outputDirectory, fileName) ← match args.output with
    | some output => splitOutput output
    | none => .ok (args.projectPath, config.fileName.getD ({} : Builder).fileName)
  .ok {
    config
    schemasRoot := root (args.schemas.or config.schemas)
    pathsRoot := root (args.paths.or config.paths)
    outputDirectory
    fileName
    format := (args.format.or config.format).getD (.ofFileName fileName)
    errorRef := args.errorRef.or config.defaultErrorRef }

def builder (s : Settings) : Builder :=
  let b := (({} : Builder).withOptions s.config.extractionOptions).withFileName s.fileName
  let b := (b.withFormat s.format).withStrict s.config.strict
  let b := (s.config.info.map b.withInfo).getD b
  (s.config.externalDocs.map b.withExternalDocs).getD b

/-- The stages that offer standard error responses: those that are asked for, and all of them if there is
nothing but a reference to go by. -/
def standardErrorStages (s : Settings) : List Stage :=
  match s.config.defaultErrors, s.errorRef with
  | some codes, some _ =>
    [⟨.addDefaultErrors, [.addErrorResponses (Builder.selectStandard codes) s.errorRef]⟩]
  | some codes, none => [⟨.addDefaultErrors, [.addDefaultErrors codes]⟩]
  | none, some _ =>
    if s.config.errorResponses.isEmpty then
      [⟨.addErrorResponses, [.addErrorResponses (standardErrors []) s.errorRef]⟩]
    else []
  | none, none => []

def configuredErrorStages (s : Settings) : List Stage :=
  if s.config.errorResponses.isEmpty then []
  else [⟨.addErrorResponses, [.addErrorResponses s.config.errorResponses s.errorRef]⟩]

def errorStages (s : Settings) : List Stage :=
  s.standardErrorStages ++ s.configuredErrorStages ++
    [(Step.restrictErrorResponses s.config.restrictErrors).stage]

def tagStages (project : String) (s : Settings) : List Stage :=
  let named := (s.config.tagsFrom.map fun dir =>
    (Step.parseTags (Path.join project dir) s.config.extractionOptions.ignoredDirectories).stage).toList
  named ++ [⟨.addTag, s.config.tags.map .addTag⟩]

def viewerStages (project : String) (s : Settings) : List Stage :=
  (s.config.viewer.map fun v =>
    (Step.exportViewer { v with exportPath := Path.join project v.exportPath }).stage).toList

def stages (project : String) (s : Settings) : List Stage :=
  s.errorStages ++ [
    (Step.parseSchemas s.schemasRoot).stage,
    (Step.parseEnums s.schemasRoot).stage,
    (Step.parsePaths s.pathsRoot).stage] ++
  s.tagStages project ++ [
    (Step.addServers s.config.servers).stage,
    (Step.addSecuritySchemes s.config.securitySchemes).stage] ++
  s.viewerStages project

end Settings

def checkProject (args : Arguments) (disk : Disk) : Except RunError Unit :=
  if !disk.contains args.projectPath then .error (.missingProject args.projectPath)
  else if !disk.isDirectory args.projectPath then .error (.projectNotDirectory args.projectPath)
  else .ok ()

def run (fetch : Fetch) (args : Arguments) (disk : Disk) :
    Except RunError Builder.Generated × Disk :=
  match checkProject args disk, Settings.ofArguments args disk with
  | .error e, _ | .ok (), .error e => (.error e, disk)
  | .ok (), .ok settings =>
    match Pipeline.generate fetch (settings.stages args.projectPath) settings.outputDirectory
      settings.builder disk with
    | (.ok generated, disk) => (.ok generated, disk)
    | (.error e, disk) => (.error (.stage e), disk)

end ApiDocs.CommandLine
