import ApiDocs.Disk.Basic
import ApiDocs.Document.Encode
import ApiDocs.Json.Write
import ApiDocs.Yaml.Write

/-!
# Output formats
-/

namespace ApiDocs

inductive Format where
  | yaml
  | json
deriving Repr, DecidableEq, Inhabited

namespace Format

def name : Format → String
  | yaml => "yaml"
  | json => "json"

def ofName? (text : String) : Option Format := [yaml, json].find? fun f => f.name == text

/-- The format that the extension of a file name asks for, else YAML. -/
def ofFileName (fileName : String) : Format :=
  if (Path.extension? fileName).any fun e => Text.sameIgnoringCase e "json" then json else yaml

end Format

def Document.render (d : Document) : Format → String
  | .yaml => Yaml.render d.encode
  | .json => Json.render d.encode

/-! ## Files -/

inductive OutputError where
  | createDirectory (path : String)
  | writeFile (path : String)
deriving Repr, DecidableEq

def OutputError.message : OutputError → String
  | createDirectory path => "Failed to create directory: " ++ path
  | writeFile path => "Failed to write to file: " ++ path

namespace Disk

def makeParent (d : Disk) (path : String) : Except OutputError Unit × Disk :=
  match Path.parent? path with
  | none => (.ok (), d)
  | some parent =>
    match d.makeDirectories parent with
    | (.ok (), d) => (.ok (), d)
    | (.error _, d) => (.error (.createDirectory parent), d)

def writeText (d : Disk) (path text : String) : Except OutputError Unit × Disk :=
  match d.makeParent path with
  | (.error e, d) => (.error e, d)
  | (.ok (), d) =>
    match d.write path text.toUTF8 with
    | .ok d => (.ok (), d)
    | .error _ => (.error (.writeFile path), d)

end Disk

end ApiDocs
