import ApiDocs.Builder

/-!
# Pipelines

A pipeline runs stages one after another and stops at the first that fails.
-/

namespace ApiDocs

inductive Step where
  | addErrorResponses (responses : Dict ErrorResponse) (defaultRef : Option String)
  | addDefaultErrors (codes : List Nat)
  | restrictErrorResponses (codes : List Nat)
  | parseSchemas (root : String)
  | parseEnums (root : String)
  | addSchemas (schemas : SchemaRegistry)
  | parsePaths (root : String)
  | addPaths (paths : PathRegistry)
  | addTag (tag : Tag)
  | parseTags (directory : String) (ignored : List String)
  | addServers (servers : List Server)
  | addSecuritySchemes (schemes : SecuritySchemes)
  | exportViewer (config : ViewerConfig)

namespace Step

def run (fetch : Fetch) (b : Builder) (disk : Disk) : Step → Except BuildError Builder × Disk
  | addErrorResponses responses defaultRef => (b.addErrorResponses responses defaultRef, disk)
  | addDefaultErrors codes => (b.addDefaultErrors codes, disk)
  | restrictErrorResponses codes => (b.restrictErrorResponses codes, disk)
  | parseSchemas root => b.parseDeclarations .schema root disk
  | parseEnums root => b.parseDeclarations .enumeration root disk
  | addSchemas schemas => (b.addSchemas schemas, disk)
  | parsePaths root => b.parsePaths root disk
  | addPaths paths => (.ok (b.addPaths paths), disk)
  | addTag tag => (.ok (b.addTag tag), disk)
  | parseTags directory ignored => (b.parseTags directory ignored disk, disk)
  | addServers servers => (.ok (b.addServers servers), disk)
  | addSecuritySchemes schemes => (.ok (b.addSecuritySchemes schemes), disk)
  | exportViewer config => b.exportViewer fetch config disk

end Step

inductive StageName where
  | addErrorResponses
  | addDefaultErrors
  | restrictErrorResponses
  | parseSchemas
  | parseEnums
  | addSchemas
  | parsePaths
  | addPaths
  | addTag
  | parseTags
  | addServers
  | addSecuritySchemes
  | exportViewer
  | generate
deriving Repr, DecidableEq

def StageName.display : StageName → String
  | addErrorResponses => "add error responses"
  | addDefaultErrors => "add default errors"
  | restrictErrorResponses => "restrict error responses"
  | parseSchemas => "parse schemas"
  | parseEnums => "parse enums"
  | addSchemas => "add schemas"
  | parsePaths => "parse paths"
  | addPaths => "add paths"
  | addTag => "add tag"
  | parseTags => "parse tags"
  | addServers => "add servers"
  | addSecuritySchemes => "add security schemes"
  | exportViewer => "export swagger ui"
  | generate => "generate"

def Step.stageName : Step → StageName
  | addErrorResponses .. => .addErrorResponses
  | addDefaultErrors .. => .addDefaultErrors
  | restrictErrorResponses .. => .restrictErrorResponses
  | parseSchemas .. => .parseSchemas
  | parseEnums .. => .parseEnums
  | addSchemas .. => .addSchemas
  | parsePaths .. => .parsePaths
  | addPaths .. => .addPaths
  | addTag .. => .addTag
  | parseTags .. => .parseTags
  | addServers .. => .addServers
  | addSecuritySchemes .. => .addSecuritySchemes
  | exportViewer .. => .exportViewer

structure Stage where
  name : StageName
  steps : List Step

def Step.stage (s : Step) : Stage := ⟨s.stageName, [s]⟩

structure StageFailure where
  stage : StageName
  cause : BuildError
deriving Repr, DecidableEq

def StageFailure.message (f : StageFailure) : String :=
  "build step `" ++ f.stage.display ++ "` failed: " ++ f.cause.message

namespace Pipeline

def runSteps (fetch : Fetch) : List Step → Builder → Disk → Except BuildError Builder × Disk
  | [], b, disk => (.ok b, disk)
  | s :: ss, b, disk =>
    match s.run fetch b disk with
    | (.ok b, disk) => runSteps fetch ss b disk
    | failed => failed

/-- Runs stages up to the first that fails. -/
def run (fetch : Fetch) : List Stage → Builder → Disk → Except StageFailure Builder × Disk
  | [], b, disk => (.ok b, disk)
  | s :: ss, b, disk =>
    match runSteps fetch s.steps b disk with
    | (.ok b, disk) => run fetch ss b disk
    | (.error cause, disk) => (.error ⟨s.name, cause⟩, disk)

def generate (fetch : Fetch) (stages : List Stage) (directory : String) (b : Builder) (disk : Disk) :
    Except StageFailure Builder.Generated × Disk :=
  match run fetch stages b disk with
  | (.error e, disk) => (.error e, disk)
  | (.ok b, disk) =>
    match b.generate directory disk with
    | (.ok generated, disk) => (.ok generated, disk)
    | (.error cause, disk) => (.error ⟨.generate, cause⟩, disk)

end Pipeline

end ApiDocs
