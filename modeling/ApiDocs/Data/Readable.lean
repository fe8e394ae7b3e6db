/-!
# Trees that records are read from

Two kinds of trees are read. In a `Datum` every scalar has a type, and a text is a text; a tree of
another format may be more lenient. `Readable` is what reading asks of either, and the readers of
records and maps are written over it once.
-/

namespace ApiDocs

/-- A typed tree. Keys of a mapping can be anything, and can repeat. -/
inductive Datum where
  | null
  | flag (value : Bool)
  | integer (value : Int)
  /-- A number that is no integer. -/
  | real
  | text (value : String)
  /-- A text that is no sequence of characters. -/
  | brokenText
  | list (items : List Datum)
  | mapping (entries : List (Datum × Datum))
deriving Repr, Inhabited

namespace Datum

mutual
def depth : Datum → Nat
  | list items => depthOfItems items + 1
  | mapping entries => depthOfEntries entries + 1
  | _ => 0
def depthOfItems : List Datum → Nat
  | [] => 0
  | d :: ds => max d.depth (depthOfItems ds)
def depthOfEntries : List (Datum × Datum) → Nat
  | [] => 0
  | (k, v) :: es => max (max k.depth v.depth) (depthOfEntries es)
end

end Datum

/-! ## Records -/

/-- The fields of a record as they were found. By position, a field that is missing has no value
unless it has a default; by name, an optional field may be missing too. -/
structure Fields (ν : Type) where
  entries : List (String × ν)
  byPosition : Bool := false

class Readable (ν : Type) where
  text? : ν → Option String
  flag? : ν → Option Bool
  integer? : ν → Option Int
  /-- An integer written without a minus sign. -/
  natural? : ν → Option Nat
  /-- Whether an optional field has no value here; a value can fail to be either. -/
  isNull? : ν → Option Bool
  list? : ν → Option (List ν)
  /-- The entries of a map by the text of their keys. -/
  map? : ν → Option (List (String × ν))
  /-- The entries of a record with the given field names. -/
  record? : List String → ν → Option (Fields ν)
  /-- The choice of a name without a value. -/
  choice? : ν → Option String
  /-- The same tree with a type for every scalar, unless it is nested too deep. -/
  settle? : ν → Option Datum

namespace Fields

variable {ν : Type}

/-- No known field is there twice. -/
def known (names : List String) (entries : List (String × ν)) : Option (Fields ν) :=
  let found := entries.filter fun e => names.contains e.1
  if (found.map (·.1)).eraseDups.length = found.length then some { entries := found } else none

def positional (names : List String) (items : List ν) : Option (Fields ν) :=
  if items.length ≤ names.length then some { entries := names.zip items, byPosition := true }
  else none

def find? (fs : Fields ν) (name : String) : Option ν := fs.entries.lookup name

def required {α : Type} (fs : Fields ν) (name : String) (read : ν → Option α) : Option α :=
  (fs.find? name).bind read

def optionalValue [Readable ν] {α : Type} (read : ν → Option α) (v : ν) : Option (Option α) := do
  if ← Readable.isNull? v then some none else (read v).map some

/-- A field that may be missing or have no value. -/
def optional [Readable ν] {α : Type} (fs : Fields ν) (name : String) (read : ν → Option α) :
    Option (Option α) :=
  match fs.find? name with
  | none => if fs.byPosition then none else some none
  | some v => optionalValue read v

/-- An optional field that may be missing from a list of positions too. -/
def optionalOrDefault [Readable ν] {α : Type} (fs : Fields ν) (name : String)
    (read : ν → Option α) : Option (Option α) :=
  match fs.find? name with
  | none => some none
  | some v => optionalValue read v

def defaulted {α : Type} (fs : Fields ν) (name : String) (default : α) (read : ν → Option α) :
    Option α :=
  match fs.find? name with
  | none => some default
  | some v => read v

end Fields

namespace Readable

variable {ν : Type} [Readable ν]

def listOf {α : Type} (read : ν → Option α) (v : ν) : Option (List α) := do
  (← list? v).mapM read

def mapOf {α : Type} (read : ν → Option α) (v : ν) : Option (List (String × α)) := do
  (← map? v).mapM fun e => (read e.2).map (e.1, ·)

end Readable

/-! ## Typed trees -/

namespace Datum

def key? : Datum → Option String
  | text s => some s
  | _ => none

/-- The field that a key names: a text by itself, a number by its place among the names. -/
def fieldName? (names : List String) : Datum → Option String
  | text s => some s
  | integer n => if n < 0 then some "" else some (names[n.toNat]?.getD "")
  | _ => none

instance : Readable Datum where
  text?
    | text s => some s
    | _ => none
  flag?
    | flag b => some b
    | _ => none
  integer?
    | integer n => some n
    | _ => none
  natural?
    | integer n => if 0 ≤ n then some n.toNat else none
    | _ => none
  isNull?
    | null => some true
    | _ => some false
  list?
    | list items => some items
    | _ => none
  map?
    | mapping entries => entries.mapM fun e => e.1.key?.map (·, e.2)
    | _ => none
  record? names
    | mapping entries => do
      Fields.known names (← entries.mapM fun e => (e.1.fieldName? names).map (·, e.2))
    | list items => Fields.positional names items
    | _ => none
  choice?
    | text s => some s
    | _ => none
  settle? d := if d.depth ≤ 124 then some d else none

end Datum

end ApiDocs
