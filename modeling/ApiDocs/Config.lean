import ApiDocs.Document.Decode
import ApiDocs.Extraction
import ApiDocs.Format
import ApiDocs.Viewer
import ApiDocs.Yaml.Read

/-!
# Configuration

What a configuration file can set. Everything is optional, and nothing else may stand in the file.
-/

namespace ApiDocs

open Readable

/-! ## Error responses -/

/-- An error response as it is configured. Its description is the standard one of its code unless it
has its own, and its reference that of all error responses. -/
structure ErrorResponse where
  description : Option String := none
  reference : Option String := none
deriving Repr, DecidableEq, Inhabited

/-- The standard error codes, or those of them that are listed. -/
def standardErrors (codes : List Nat) : Dict ErrorResponse :=
  .ofList ((Status.errors.filter fun e => codes.isEmpty || (codes.map toString).contains e.1).map
    fun e => (e.1, {}))

structure SecuritySchemes where
  apiKey : Dict SecurityScheme := {}
  http : Dict SecurityScheme := {}
  oauth2 : Dict SecurityScheme := {}
  openIdConnect : Dict SecurityScheme := {}
deriving Repr, DecidableEq, Inhabited

/-- The schemes by name; of one name under several kinds the last kind counts. -/
def SecuritySchemes.flatten (s : SecuritySchemes) : Dict SecurityScheme :=
  .ofList (s.apiKey.entries ++ s.http.entries ++ s.oauth2.entries ++ s.openIdConnect.entries)

/-! ## The configuration -/

structure Config where
  fileName : Option String := none
  format : Option Format := none
  /-- The root of the schema and enumeration declarations. -/
  schemas : Option String := none
  /-- The root of the path directives. -/
  paths : Option String := none
  ignoredDirectories : List String := []
  ignoredFiles : List String := []
  maxWorkers : Option Nat := none
  info : Option Info := none
  externalDocs : Option ExternalDocs := none
  servers : List Server := []
  tags : List Tag := []
  /-- The directory whose subdirectories name the tags. -/
  tagsFrom : Option String := none
  securitySchemes : SecuritySchemes := {}
  errorResponses : Dict ErrorResponse := {}
  defaultErrorRef : Option String := none
  /-- The standard error codes to offer, all of them if empty. -/
  defaultErrors : Option (List Nat) := none
  /-- The error codes to keep, all of them if empty. -/
  restrictErrors : List Nat := []
  strict : Bool := false
  viewer : Option ViewerConfig := none
deriving Repr, DecidableEq, Inhabited

def addMissing (known more : List String) : List String :=
  more.foldl (fun all s => if all.contains s then all else all ++ [s]) known

def Config.extractionOptions (c : Config) : ExtractionOptions :=
  let standard : ExtractionOptions := {}
  { ignoredDirectories := addMissing standard.ignoredDirectories c.ignoredDirectories
    ignoredFiles := addMissing standard.ignoredFiles c.ignoredFiles
    maxWorkers := c.maxWorkers.filter (0 < ·) }

/-! ## Reading -/

section

variable {ν : Type} [Readable ν]

/-- The reference can be written with or without a dollar sign. -/
def ErrorResponse.decode (v : ν) : Option ErrorResponse := do
  let fs ← record? ["description", "$ref", "ref"] v
  let name := if (fs.find? "ref").isSome then "ref" else "$ref"
  if (fs.find? "$ref").isSome && (fs.find? "ref").isSome then none
  else return {
    description := ← fs.optionalOrDefault "description" text?
    reference := ← fs.optionalOrDefault name text? }

def SecuritySchemes.decode (v : ν) : Option SecuritySchemes := do
  let fs ← record? ["apiKey", "http", "oauth2", "openIdConnect"] v
  return {
    apiKey := ← fs.defaulted "apiKey" {} (decodeDict SecurityScheme.decode)
    http := ← fs.defaulted "http" {} (decodeDict SecurityScheme.decode)
    oauth2 := ← fs.defaulted "oauth2" {} (decodeDict SecurityScheme.decode)
    openIdConnect := ← fs.defaulted "openIdConnect" {} (decodeDict SecurityScheme.decode) }

def ViewerConfig.decode (v : ν) : Option ViewerConfig := do
  let fs ← record? ["export_path", "html_file_name", "title", "serve_uri"] v
  return {
    exportPath := ← fs.defaulted "export_path" "" text?
    htmlFileName := ← fs.defaulted "html_file_name" "" text?
    title := ← fs.defaulted "title" "" text?
    serveUri := ← fs.defaulted "serve_uri" "" text? }

def Format.decode (v : ν) : Option Format := do Format.ofName? (← choice? v)

def naturalBelow? (bound : Nat) (v : ν) : Option Nat := (natural? v).filter (· < bound)

/-- Status codes have 16 bits. -/
def statusCode? (v : ν) : Option Nat := naturalBelow? (Word.span 16) v

namespace Config

def keys : List String := ["file_name", "format", "schemas", "paths", "ignored_directories",
  "ignored_files", "max_workers", "info", "external_docs", "servers", "tags", "tags_from",
  "security_schemes", "error_responses", "default_error_ref", "default_errors", "restrict_errors",
  "strict", "export_ui"]

def decode (v : ν) : Option Config := do
  let entries ← map? v
  let fs ← if entries.all fun e => keys.contains e.1 then Fields.known keys entries else none
  return {
    fileName := ← fs.optional "file_name" text?
    format := ← fs.optional "format" Format.decode
    schemas := ← fs.optional "schemas" text?
    paths := ← fs.optional "paths" text?
    ignoredDirectories := ← fs.defaulted "ignored_directories" [] (listOf text?)
    ignoredFiles := ← fs.defaulted "ignored_files" [] (listOf text?)
    maxWorkers := ← fs.optional "max_workers" (naturalBelow? (Word.span 64))
    info := ← fs.optional "info" Info.decode
    externalDocs := ← fs.optional "external_docs" ExternalDocs.decode
    servers := ← fs.defaulted "servers" [] (listOf Server.decode)
    tags := ← fs.defaulted "tags" [] (listOf Tag.decode)
    tagsFrom := ← fs.optional "tags_from" text?
    securitySchemes := ← fs.defaulted "security_schemes" {} SecuritySchemes.decode
    errorResponses := ← fs.defaulted "error_responses" {} (decodeDict ErrorResponse.decode)
    defaultErrorRef := ← fs.optional "default_error_ref" text?
    defaultErrors := ← fs.optional "default_errors" (listOf statusCode?)
    restrictErrors := ← fs.defaulted "restrict_errors" [] (listOf statusCode?)
    strict := ← fs.defaulted "strict" false flag?
    viewer := ← fs.optional "export_ui" ViewerConfig.decode }

end Config

end

inductive ConfigError where
  | read (path : String)
  | malformed (path : String)
deriving Repr, DecidableEq

def ConfigError.message : ConfigError → String
  | read path => "Failed to read config file: " ++ path
  | malformed path => "Failed to parse config file: " ++ path

namespace Config

/-- The configuration that a text gives; a blank one sets nothing. -/
def parse? (text : String) : Option Config :=
  if Text.isBlankText text then some {} else (Yaml.read? text).bind decode

def load (disk : Disk) (path : String) : Except ConfigError Config :=
  match disk.readText path with
  | .error _ => .error (.read path)
  | .ok text =>
    match parse? text with
    | some c => .ok c
    | none => .error (.malformed path)

end Config

end ApiDocs
