import ApiDocs.Source.Parse

/-!
# Names in written data

A field can be written under another name, or not at all. A `serde` attribute says so in entries
between commas: a key alone, a key with a value, or a key with a list of entries. Two keys matter
here, `skip` and `rename`. Reading an attribute stops at the first entry that is malformed; what was
read before it counts.
-/

namespace ApiDocs.Source

structure WireMarks where
  rename : Option String := none
  skip : Bool := false
deriving Repr, DecidableEq

namespace WireMarks

/-- The key of an entry, if it is a single identifier, and the tokens after it. -/
def entryKey : Reader (Option String) := do
  let leading ← Reader.op? "::"
  let first ← Reader.anyWord
  let more ← Reader.many (Look.op "::") (do Reader.op "::"; Reader.anyWord)
  return if !leading && more.isEmpty then some first else none

def textValue : Reader String := do
  Reader.op "="
  match (← get).rest with
  | .literal (.text value) :: _ =>
    Reader.skip 1
    return value
  | _ => failure

/-- One entry, read after its key by `rest`, and the comma after it. -/
def entryStep {α : Type} (rest : Option String → Reader α) : Reader (Reader.Step α) := do
  let a ← rest (← entryKey)
  if ← Reader.look Look.atEnd then return .last a
  Reader.op ","
  if ← Reader.look Look.atEnd then return .last a
  return .next a

def entries {α : Type} (rest : Option String → Reader α) : Reader (List α) :=
  Reader.repeated (entryStep rest)

def skipValue (g : Grammar) : (depth : Nat) → Reader Unit
  | 0 => failure
  | depth + 1 => do
    if ← Reader.op? "=" then Reader.forgetting (discard <| g.expr true)
    else if ← Reader.look (Look.group .paren) then
      Reader.within .paren (discard <| entries fun _ => skipValue g depth)

/-- The new name that follows `rename`, if it gives one for writing. -/
def renameValue (g : Grammar) (depth : Nat) : Reader (Option String) := do
  if ← Reader.look (Look.op "=") then return some (← textValue)
  let names ← Reader.within .paren (entries fun key => do
    if key = some "serialize" then return some (← textValue)
    skipValue g depth
    return none)
  return (names.filterMap id).getLast?

def addEntry (g : Grammar) (depth : Nat) (m : WireMarks) : Reader WireMarks := do
  let key ← entryKey
  if key = some "skip" then return { m with skip := true }
  if key = some "rename" then return { m with rename := (← renameValue g depth).or m.rename }
  skipValue g depth
  return m

def addEntries (g : Grammar) (depth : Nat) : (fuel : Nat) → WireMarks → List Token → WireMarks
  | 0, m, _ => m
  | fuel + 1, m, ts =>
    match addEntry g depth m { rest := ts } with
    | none => m
    | some (m, s) =>
      match s.rest with
      | .punct ',' _ :: rest => if rest.isEmpty then m else addEntries g depth fuel m rest
      | _ => m

def addAttribute (m : WireMarks) (a : Attribute) : WireMarks :=
  match a.body with
  | .list ts =>
    if a.name = some "serde" ∧ !ts.isEmpty then
      addEntries (grammarFor ts) (Token.weights ts + 1) (ts.length + 1) m ts
    else m
  | _ => m

def ofAttributes (attributes : List Attribute) : WireMarks := attributes.foldl addAttribute {}

end WireMarks

end ApiDocs.Source
