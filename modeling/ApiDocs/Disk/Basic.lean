import ApiDocs.Disk.Path

/-!
# Disks

A disk is a tree of files and directories with a place in it that relative paths begin from. A sealed
directory can be seen, but neither entered nor listed. What cannot be done leaves the disk as it is.
-/

namespace ApiDocs

inductive DiskError where
  | notFound
  | denied
  | notDirectory
  | isDirectory
  | fileExists
  | notText
deriving Repr, DecidableEq

def DiskError.message : DiskError → String
  | notFound => "No such file or directory (os error 2)"
  | denied => "Permission denied (os error 13)"
  | notDirectory => "Not a directory (os error 20)"
  | isDirectory => "Is a directory (os error 21)"
  | fileExists => "File exists (os error 17)"
  | notText => "stream did not contain valid UTF-8"

def DiskError.messageAt (path : String) (e : DiskError) : String :=
  "IO error for operation on " ++ path ++ ": " ++ e.message

/-! ## Trees -/

inductive Entry where
  | file (content : ByteArray)
  | directory (children : List (String × Entry))
  | sealed
deriving Inhabited

namespace Entry

def isDirectory : Entry → Bool
  | directory _ | sealed => true
  | file _ => false

def find? : Entry → List String → Option Entry
  | e, [] => some e
  | file _, _ :: _ | sealed, _ :: _ => none
  | directory children, n :: ns => (children.lookup n).bind (find? · ns)

def place (name : String) (e : Entry) : List (String × Entry) → List (String × Entry)
  | [] => [(name, e)]
  | (n, old) :: rest => if n = name then (n, e) :: rest else (n, old) :: place name e rest

def set : Entry → List String → Entry → Entry
  | _, [], e => e
  | file content, _ :: _, _ => file content
  | sealed, _ :: _, _ => sealed
  | directory children, n :: ns, e =>
    directory (place n (set ((children.lookup n).getD (directory [])) ns e) children)

def remove : Entry → List String → Entry
  | e, [] => e
  | file content, _ :: _ => file content
  | sealed, _ :: _ => sealed
  | directory children, [n] => directory (children.filter fun c => c.1 != n)
  | directory children, n :: ns =>
    match children.lookup n with
    | some child => directory (place n (remove child ns) children)
    | none => directory children

end Entry

structure Disk where
  root : Entry
  /-- The names that lead from the root to where relative paths begin. -/
  here : List String

namespace Disk

/-! ## Places -/

/-- Follows the parts of a path from a place. A part after a file, be it empty, is an error. -/
def follow (d : Disk) : (place : List String) → List String → Except DiskError (List String)
  | place, [] => .ok place
  | place, p :: ps =>
    match d.root.find? place with
    | none => .error .notFound
    | some (.file _) => .error .notDirectory
    | some .sealed => if p.isEmpty then d.follow place ps else .error .denied
    | some (.directory children) =>
      if p.isEmpty || p == "." then d.follow place ps
      else if p == ".." then d.follow place.dropLast ps
      else if (children.lookup p).isSome then d.follow (place ++ [p]) ps
      else .error .notFound

def start (d : Disk) (path : String) : List String := if Path.isAbsolute path then [] else d.here

def locate (d : Disk) (path : String) : Except DiskError (List String) :=
  if path.isEmpty then .error .notFound else d.follow (d.start path) (Text.parts '/' path)

def entry (d : Disk) (path : String) : Except DiskError Entry := do
  match d.root.find? (← d.locate path) with
  | some e => .ok e
  | none => .error .notFound

def contains (d : Disk) (path : String) : Bool := (d.entry path).isOk

def isDirectory (d : Disk) (path : String) : Bool :=
  match d.entry path with
  | .ok e => e.isDirectory
  | .error _ => false

/-! ## Reading -/

def read (d : Disk) (path : String) : Except DiskError ByteArray := do
  match ← d.entry path with
  | .file content => .ok content
  | .directory _ => .error .isDirectory
  | .sealed => .error .denied

def readText (d : Disk) (path : String) : Except DiskError String := do
  match String.fromUTF8? (← d.read path) with
  | some text => .ok text
  | none => .error .notText

def list (d : Disk) (path : String) : Except DiskError (List (String × Entry)) := do
  match ← d.entry path with
  | .directory children => .ok (children.mergeSort fun a b => a.1 ≤ b.1)
  | .file _ => .error .notDirectory
  | .sealed => .error .denied

/-! ## Writing -/

/-- The place of the last part of a path, which need not exist, in a directory that does. `none` stands
for a path that ends in no name. -/
def target (d : Disk) (path : String) : Except DiskError (Option (List String)) :=
  let named := (Text.parts '/' path).reverse.dropWhile String.isEmpty
  if path.isEmpty then .error .notFound
  else match named with
    | [] => .ok none
    | last :: before => do
      let place ← d.follow (d.start path) (before.reverse ++ [""])
      match d.root.find? place with
      | some .sealed => .error .denied
      | _ => if last == "." || last == ".." then .ok none else .ok (some (place ++ [last]))

def setEntry (d : Disk) (place : List String) (e : Entry) : Disk :=
  { d with root := d.root.set place e }

def makeDirectory (d : Disk) (path : String) : Except DiskError Disk := do
  match ← d.target path with
  | none => .error .fileExists
  | some place =>
    if (d.root.find? place).isSome then .error .fileExists
    else .ok (d.setEntry place (.directory []))

/-- Makes a directory and those that it is in, as far as they are missing. -/
def makeDirectories (d : Disk) (path : String) : Except DiskError Unit × Disk :=
  go (path.length + 1) path d
where
  attempt (path : String) (d : Disk) : Except DiskError Unit × Disk :=
    match d.makeDirectory path with
    | .ok d => (.ok (), d)
    | .error e => (if d.isDirectory path then .ok () else .error e, d)
  go : (fuel : Nat) → String → Disk → Except DiskError Unit × Disk
    | 0, _, d => (.error .notFound, d)
    | fuel + 1, path, d =>
      if path.isEmpty then (.ok (), d)
      else match d.makeDirectory path, Path.parent? path with
        | .error .notFound, some parent =>
          match go fuel parent d with
          | (.ok (), d) => attempt path d
          | failed => failed
        | _, _ => attempt path d

def write (d : Disk) (path : String) (content : ByteArray) : Except DiskError Disk :=
  match d.locate path with
  | .ok place =>
    match d.root.find? place with
    | some (.directory _) | some .sealed => .error .isDirectory
    | _ => .ok (d.setEntry place (.file content))
  | .error .notFound =>
    match d.target path with
    | .ok (some place) =>
      if path.toList.getLast? == some '/' then .error .isDirectory
      else .ok (d.setEntry place (.file content))
    | .ok none => .error .isDirectory
    | .error e => .error e
  | .error e => .error e

def remove (d : Disk) (path : String) : Disk :=
  match d.locate path with
  | .ok place => { d with root := d.root.remove place }
  | .error _ => d

end Disk

end ApiDocs
