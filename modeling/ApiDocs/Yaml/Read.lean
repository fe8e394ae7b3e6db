import ApiDocs.Yaml.Node
import ApiDocs.Yaml.Scalar
import ApiDocs.Yaml.Token.Scan

/-!
# Reading YAML

A `Value` is a node of a document together with the anchors that its aliases may name. What a scalar
means depends on what is asked of it: any scalar can be a text, and only a plain one a number. Aliases
are followed where a value is looked at, so one that is never looked at may even name itself.
-/

namespace ApiDocs.Yaml

structure Value where
  anchors : Anchors
  node : Node

namespace Value

def target? (v : Value) : Option Node :=
  match v.node with
  | .alias number => v.anchors.node? number
  | n => some n

def core (name : String) : String := "tag:yaml.org,2002:" ++ name

/-- The text of a scalar that can be of a kind of the core tags: a plain one, or a literal block with
the tag of the kind. -/
def typedText? (v : Value) (kind : String) : Option String :=
  match v.target? with
  | some (.scalar .plain _ text) => some text
  | some (.scalar .literal tag text) => if tag == some (core kind) then some text else none
  | _ => none

def text? (v : Value) : Option String :=
  match v.target? with
  | some (.scalar _ _ text) => some text
  | _ => none

def isNothing (text : String) : Bool := text.isEmpty || isNullWord text

/-- A plain scalar without a tag is no value if it spells that; one with the tag of no value has to. -/
def isNull? (v : Value) : Option Bool := do
  match ← v.target? with
  | .scalar .plain none text => some (isNothing text)
  | .scalar .plain (some tag) text =>
    if tag != core "null" then some false else if isNullWord text then some true else none
  | _ => some false

def list? (v : Value) : Option (List Value) :=
  match v.target? with
  | some (.sequence _ items) => some (items.map (⟨v.anchors, ·⟩))
  | some (.scalar .plain _ "") => some []
  | _ => none

def entries? (v : Value) : Option (List (String × Value)) :=
  match v.target? with
  | some (.mapping _ entries) =>
    entries.mapM fun e => (text? ⟨v.anchors, e.1⟩).map (·, ⟨v.anchors, e.2⟩)
  | some (.scalar .plain _ "") => some []
  | _ => none

def localTag? (tag : Option String) : Option String :=
  match tag.map String.toList with
  | some ('!' :: name) => some (String.ofList name)
  | _ => none

/-- A choice is a scalar, or a tag on nothing. -/
def choice? (v : Value) : Option String :=
  match v.target? with
  | some (.scalar style tag text) =>
    match localTag? tag with
    | some name => if style = .plain ∧ isNothing text then some name else none
    | none => some text
  | _ => none

/-! ## Settling -/

/-- What a scalar is when nothing is asked of it. A core tag decides it. -/
def settleScalar? (style : ScalarStyle) (tag : Option String) (text : String) : Option Datum :=
  match tag with
  | none => if style = .plain then resolve? text else some (.text text)
  | some tag =>
    if tag == core "bool" then (flag? text).map .flag
    else if tag == core "int" then
      match integerChars? text.toList with
      | some n => if Word.Fits 64 n then some (.integer n) else none
      | none => none
    else if tag == core "float" then if isNumber text then some .real else none
    else if tag == core "null" then if isNullWord text then some .null else none
    else if (localTag? (some tag)).isSome then none
    else some (.text text)

/-- The tree under a node with a type for every scalar, down to a depth. -/
def settle? (anchors : Anchors) : (depth : Nat) → Node → Option Datum
  | depth, node => do
    match ← target? ⟨anchors, node⟩ with
    | .scalar style tag text => settleScalar? style tag text
    | .sequence tag items =>
      match depth, localTag? tag with
      | depth + 1, none => (items.mapM (settle? anchors depth)).map .list
      | _, _ => none
    | .mapping tag entries =>
      match depth, localTag? tag with
      | depth + 1, none =>
        (entries.mapM fun (e : Node × Node) => do
          some (← settle? anchors depth e.1, ← settle? anchors depth e.2)).map .mapping
      | _, _ => none
    | .alias _ => none

instance : Readable Value where
  text? := text?
  flag? v := (v.typedText? "bool").bind flag?
  integer? v := (v.typedText? "int").bind fun s => integerChars? s.toList
  natural? v := (v.typedText? "int").bind fun s => natural? s.toList
  isNull? := isNull?
  list? := list?
  map? := entries?
  record? names v := do Fields.known names (← v.entries?)
  choice? := choice?
  settle? v := settle? v.anchors 125 v.node

end Value

def read? (text : String) : Option Value := do
  let document ← Document.ofTokens? (← tokens? text)
  some ⟨document.anchors, document.root⟩

end ApiDocs.Yaml
