import ApiDocs.Text.Blank

/-!
# Paths

A path is a text whose parts stand between slashes. Empty parts and single dots say nothing, except a dot
in front.
-/

namespace ApiDocs.Path

open Text

def isAbsolute (path : String) : Bool := path.toList.head? == some '/'

/-- A path below another one; an absolute path is not below any. -/
def join (base path : String) : String :=
  if isAbsolute path then path
  else if base.isEmpty || base.toList.getLast? == some '/' then base ++ path
  else base ++ "/" ++ path

/-- The parts up to the last one that says something, and that one. -/
def splitLast? (parts : List String) : Option (List String × String) :=
  match parts with
  | [] => none
  | p :: ps =>
    match splitLast? ps with
    | some (before, last) => some (p :: before, last)
    | none => if p.isEmpty || p == "." then none else some ([], p)

/-- The same for the parts of a whole path, where a dot in front counts. -/
def lastPart? : List String → Option (List String × String)
  | "." :: ps => some (((splitLast? ps).map fun r => ("." :: r.1, r.2)).getD ([], "."))
  | ps => splitLast? ps

def fileName? (path : String) : Option String :=
  match lastPart? (parts '/' path) with
  | some (_, name) => if name == ".." || name == "." then none else some name
  | none => none

def parent? (path : String) : Option String := do
  let (before, _) ← lastPart? (parts '/' path)
  match lastPart? before with
  | some (outer, last) => some ("/".intercalate (outer ++ [last]))
  | none => some (if isAbsolute path then "/" else "")

/-- What follows the last dot of a name, unless the name begins with that dot. -/
def extension? (path : String) : Option String := do
  let name ← fileName? path
  let reversed := name.toList.reverse
  let extension := reversed.takeWhile (· != '.')
  if extension.length + 1 < reversed.length then some (String.ofList extension.reverse) else none

end ApiDocs.Path
