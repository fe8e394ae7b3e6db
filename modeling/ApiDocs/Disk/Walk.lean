import ApiDocs.Disk.Basic

/-!
# Directories below a root

A walk lists a directory before those in it, and the directories in it by name. Hidden and ignored
directories are left out with all that is below them; the root is always in. A directory that cannot be
read is listed with a warning, but nothing below it; a root that cannot be read is an error.
-/

namespace ApiDocs

def isWalked (ignored : List String) (name : String) : Bool :=
  name.toList.head? != some '.' && !ignored.contains name

structure Visit where
  path : String
  readable : Bool
deriving Repr, DecidableEq

mutual
def Entry.visits (ignored : List String) (path : String) : Entry → List Visit
  | .file _ => []
  | .directory children =>
    ⟨path, true⟩ :: ((Entry.childVisits ignored path children).mergeSort fun a b => a.1 ≤ b.1).flatMap (·.2)
  | .sealed => [⟨path, false⟩]
/-- Those below each child that is walked, with the name of the child. -/
def Entry.childVisits (ignored : List String) (path : String) :
    List (String × Entry) → List (String × List Visit)
  | [] => []
  | (name, e) :: rest =>
    if isWalked ignored name then
      (name, e.visits ignored (Path.join path name)) :: Entry.childVisits ignored path rest
    else Entry.childVisits ignored path rest
end

structure Walk where
  directories : List String
  warnings : List String := []
deriving Repr, DecidableEq

namespace Walk

def warning (path : String) : String := "Failed to access path: " ++ DiskError.denied.messageAt path

def ofVisits (visits : List Visit) : Walk where
  directories := visits.map (·.path)
  warnings := (visits.filter (!·.readable)).map (warning ·.path)

end Walk

namespace Disk

def walk (d : Disk) (ignored : List String) (root : String) : Except DiskError Walk := do
  match ← d.entry root with
  | .sealed => .error .denied
  | e => .ok (.ofVisits (e.visits ignored root))

def directories (d : Disk) (ignored : List String) (root : String) : Except DiskError (List String) :=
  (d.walk ignored root).map (·.directories)

section
variable {d : Disk} {ignored : List String} {root : String}

theorem walk_of_entry {children : List (String × Entry)} (h : d.entry root = .ok (.directory children)) :
    d.walk ignored root = .ok (.ofVisits ((Entry.directory children).visits ignored root)) := by
  unfold walk
  rw [h]
  rfl

theorem walk_of_sealed (h : d.entry root = .ok .sealed) : d.walk ignored root = .error .denied := by
  unfold walk
  rw [h]
  rfl

theorem directories_of_entry {children : List (String × Entry)}
    (h : d.entry root = .ok (.directory children)) :
    d.directories ignored root = .ok (((Entry.directory children).visits ignored root).map (·.path)) := by
  unfold directories
  rw [walk_of_entry h]
  rfl

end

end Disk

end ApiDocs
