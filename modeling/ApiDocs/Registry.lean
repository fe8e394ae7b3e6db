import ApiDocs.Document.Basic

/-!
# Registries

Partial results are merged one into another. What comes later counts, and everything that it replaces
is reported.
-/

namespace ApiDocs

/-- A collection that partial results are merged into. -/
class Registry (ρ : Type) where
  empty : ρ
  /-- The registry with the incoming entries, and a description of each entry that was replaced. -/
  merge : (registry incoming : ρ) → ρ × List String
  size : ρ → Nat

namespace SchemaRegistry

/-- An incoming schema replaces the one of its name. -/
def merge (registry incoming : SchemaRegistry) : SchemaRegistry × List String :=
  (incoming.entries.foldl (fun r e => r.insert e.1 e.2) registry,
   incoming.keys.filter registry.contains)

instance : Registry SchemaRegistry where
  empty := Dict.empty
  merge := merge
  size := Dict.size

end SchemaRegistry

namespace PathRegistry

def item (paths : PathRegistry) (path : String) : PathItem := (paths.get? path).getD {}

def route (m : Method) (path : String) : String := m.display ++ " " ++ path

/-- An incoming operation replaces the one of its path and method; the other methods of the path stay.
An item without operations changes nothing. -/
def merge (registry incoming : PathRegistry) : PathRegistry × List String :=
  let bound := incoming.entries.filter fun e => !e.2.isEmpty
  (bound.foldl (fun r e => r.insert e.1 ((item r e.1).absorb e.2).1) registry,
   bound.flatMap fun e => ((item registry e.1).absorb e.2).2.map (route · e.1))

instance : Registry PathRegistry where
  empty := Dict.empty
  merge := merge
  size := Dict.size

end PathRegistry

end ApiDocs
