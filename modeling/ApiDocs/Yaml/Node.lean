import ApiDocs.Yaml.Token

/-!
# Nodes

The tokens of a text make one document: a node, and the nodes that its aliases stand for. An alias
names the anchor that was given last before it, and may stand inside the node that it names.
-/

namespace ApiDocs.Yaml

inductive Node where
  | scalar (style : ScalarStyle) (tag : Option String) (text : String)
  | sequence (tag : Option String) (items : List Node)
  | mapping (tag : Option String) (entries : List (Node × Node))
  /-- What the anchor of a number is on. -/
  | alias (number : Nat)
deriving Repr, Inhabited

def Node.nothing : Node := .scalar .plain none ""

/-- The anchors met so far. A name has the number of names that were known when it was given. When a name
is given again, it can come to share its number with the name that follows, and then both stand for the
later node. -/
structure Anchors where
  names : List (String × Nat) := []
  /-- The node of every number, by the order in which nodes begin; the latest first. -/
  begun : List (Nat × Nat) := []
  nodes : List (Nat × Node) := []

namespace Anchors

def give (a : Anchors) (name : String) : Anchors where
  names := (name, a.names.length) :: a.names.filter fun e => e.1 != name
  begun := (a.names.length, a.begun.length) :: a.begun
  nodes := a.nodes

def complete (a : Anchors) (order : Nat) (n : Node) : Anchors :=
  { a with nodes := (order, n) :: a.nodes }

def node? (a : Anchors) (number : Nat) : Option Node := do
  a.nodes.lookup (← a.begun.lookup number)

end Anchors

/-! ## Reading nodes -/

structure Reading where
  tokens : List Token
  anchors : Anchors := {}

abbrev Handles := List (String × String)

def standardHandles : Handles := [("!", "!"), ("!!", "tag:yaml.org,2002:")]

def properties (ts : List Token) : Option String × Option (String × String) × List Token :=
  match ts with
  | .anchor a :: .tag h s :: rest => (some a, some (h, s), rest)
  | .tag h s :: .anchor a :: rest => (some a, some (h, s), rest)
  | .anchor a :: rest => (some a, none, rest)
  | .tag h s :: rest => (none, some (h, s), rest)
  | _ => (none, none, ts)

/-- The full text of a tag, unless its handle is unknown. -/
def fullTag? (handles : Handles) : Option (String × String) → Option (Option String)
  | none => some none
  | some (handle, suffix) =>
    if handle.isEmpty then some (some suffix)
    else (handles.lookup handle).map fun expansion => some (expansion ++ suffix)

/-- Where a node stands: in a block, where a sequence may be indented no more than the mapping around
it, or in a flow collection. -/
inductive Setting where
  | block
  | blockValue
  | flow
deriving Repr, DecidableEq

/-- A lone exclamation mark is no tag of a scalar that is written out. -/
def scalarTag (tag : Option String) : Option String := if tag == some "!" then none else tag

section

variable (handles : Handles)

mutual

def node? (setting : Setting) : (fuel : Nat) → Reading → Option (Node × Reading)
  | 0, _ => none
  | fuel + 1, r =>
    match r.tokens with
    | .alias name :: rest => do some (.alias (← r.anchors.names.lookup name), { r with tokens := rest })
    | tokens => do
      let (anchor, tag, rest) := properties tokens
      let tag ← fullTag? handles tag
      match anchor with
      | none => content? setting fuel tag (tag.isSome) { r with tokens := rest }
      | some name =>
        let (n, after) ← content? setting fuel tag true
          { tokens := rest, anchors := r.anchors.give name }
        some (n, { after with anchors := after.anchors.complete r.anchors.begun.length n })
termination_by structural fuel => fuel

/-- What a node holds. With an anchor or a tag that can be nothing. -/
def content? (setting : Setting) :
    (fuel : Nat) → (tag : Option String) → (marked : Bool) → Reading → Option (Node × Reading)
  | 0, _, _, _ => none
  | fuel + 1, tag, marked, r =>
    let nothing := if marked then some (Node.scalar .plain tag "", r) else none
    match r.tokens, setting with
    | .scalar style text :: rest, _ =>
      some (.scalar style (scalarTag tag) text, { r with tokens := rest })
    | .flowSequence :: rest, _ => do
      let (items, r) ← flowItems? fuel true { r with tokens := rest }
      some (.sequence tag items, r)
    | .flowMapping :: rest, _ => do
      let (entries, r) ← flowEntries? fuel true { r with tokens := rest }
      some (.mapping tag entries, r)
    | .item :: _, .blockValue => do
      let (items, r) ← looseItems? fuel r
      some (.sequence tag items, r)
    | .blockSequence :: rest, .block | .blockSequence :: rest, .blockValue => do
      let (items, r) ← blockItems? fuel { r with tokens := rest }
      some (.sequence tag items, r)
    | .blockMapping :: rest, .block | .blockMapping :: rest, .blockValue => do
      let (entries, r) ← blockEntries? fuel { r with tokens := rest }
      some (.mapping tag entries, r)
    | _, _ => nothing
termination_by structural fuel => fuel

def blockItems? : (fuel : Nat) → Reading → Option (List Node × Reading)
  | 0, _ => none
  | fuel + 1, r =>
    match r.tokens with
    | .item :: rest => do
      let r := { r with tokens := rest }
      let (n, r) ← match rest with
        | .item :: _ | .blockEnd :: _ => some (.nothing, r)
        | _ => node? .block fuel r
      let (ns, r) ← blockItems? fuel r
      some (n :: ns, r)
    | .blockEnd :: rest => some ([], { r with tokens := rest })
    | _ => none
termination_by structural fuel => fuel

/-- The items of a sequence that is indented no more than the mapping around it. -/
def looseItems? : (fuel : Nat) → Reading → Option (List Node × Reading)
  | 0, _ => none
  | fuel + 1, r =>
    match r.tokens with
    | .item :: rest => do
      let r := { r with tokens := rest }
      let (n, r) ← match rest with
        | .item :: _ | .key :: _ | .value :: _ | .blockEnd :: _ => some (.nothing, r)
        | _ => node? .block fuel r
      let (ns, r) ← looseItems? fuel r
      some (n :: ns, r)
    | _ => some ([], r)
termination_by structural fuel => fuel

def blockPart? : (fuel : Nat) → Reading → Option (Node × Reading)
  | 0, _ => none
  | fuel + 1, r =>
    match r.tokens with
    | .key :: _ | .value :: _ | .blockEnd :: _ => some (.nothing, r)
    | _ => node? .blockValue fuel r
termination_by structural fuel => fuel

def blockEntries? : (fuel : Nat) → Reading → Option (List (Node × Node) × Reading)
  | 0, _ => none
  | fuel + 1, r =>
    match r.tokens with
    | .key :: rest => do
      let (k, r) ← blockPart? fuel { r with tokens := rest }
      let (v, r) ← match r.tokens with
        | .value :: rest => blockPart? fuel { r with tokens := rest }
        | _ => some (.nothing, r)
      let (es, r) ← blockEntries? fuel r
      some ((k, v) :: es, r)
    | .blockEnd :: rest => some ([], { r with tokens := rest })
    | _ => none
termination_by structural fuel => fuel

/-- The items of a flow sequence; a key makes an item a mapping with one entry. -/
def flowItems? : (fuel : Nat) → (first : Bool) → Reading → Option (List Node × Reading)
  | 0, _, _ => none
  | fuel + 1, first, r => do
    match r.tokens with
    | .flowSequenceEnd :: rest => some ([], { r with tokens := rest })
    | tokens =>
      let tokens ← if first then some tokens else match tokens with
        | .comma :: rest => some rest
        | _ => none
      match tokens with
      | .flowSequenceEnd :: rest => some ([], { r with tokens := rest })
      | .key :: rest =>
        let (e, r) ← flowPair? fuel { r with tokens := rest }
        let (ns, r) ← flowItems? fuel false r
        some (.mapping none [e] :: ns, r)
      | _ =>
        let (n, r) ← node? .flow fuel { r with tokens }
        let (ns, r) ← flowItems? fuel false r
        some (n :: ns, r)
termination_by structural fuel => fuel

/-- The entry of a flow sequence after its key mark. Where the key is missing, the token in its place is
lost. -/
def flowPair? : (fuel : Nat) → Reading → Option ((Node × Node) × Reading)
  | 0, _ => none
  | fuel + 1, r => do
    let (k, r) ← match r.tokens with
      | .value :: rest | .comma :: rest | .flowSequenceEnd :: rest =>
        some (.nothing, { r with tokens := rest })
      | _ => node? .flow fuel r
    let (v, r) ← match r.tokens with
      | .value :: rest =>
        match rest with
        | .comma :: _ | .flowSequenceEnd :: _ => some (.nothing, { r with tokens := rest })
        | _ => node? .flow fuel { r with tokens := rest }
      | _ => some (.nothing, r)
    some ((k, v), r)
termination_by structural fuel => fuel

/-- The entries of a flow mapping; without a key mark there is no value. -/
def flowEntries? : (fuel : Nat) → (first : Bool) → Reading → Option (List (Node × Node) × Reading)
  | 0, _, _ => none
  | fuel + 1, first, r => do
    match r.tokens with
    | .flowMappingEnd :: rest => some ([], { r with tokens := rest })
    | tokens =>
      let tokens ← if first then some tokens else match tokens with
        | .comma :: rest => some rest
        | _ => none
      match tokens with
      | .flowMappingEnd :: rest => some ([], { r with tokens := rest })
      | .key :: rest =>
        let r := { r with tokens := rest }
        let (k, r) ← match rest with
          | .value :: _ | .comma :: _ | .flowMappingEnd :: _ => some (.nothing, r)
          | _ => node? .flow fuel r
        let (v, r) ← match r.tokens with
          | .value :: rest =>
            match rest with
            | .comma :: _ | .flowMappingEnd :: _ => some (.nothing, { r with tokens := rest })
            | _ => node? .flow fuel { r with tokens := rest }
          | _ => some (.nothing, r)
        let (es, r) ← flowEntries? fuel false r
        some ((k, v) :: es, r)
      | _ =>
        let (k, r) ← node? .flow fuel { r with tokens }
        let (es, r) ← flowEntries? fuel false r
        some ((k, .nothing) :: es, r)
termination_by structural fuel => fuel

end

end

/-! ## Documents -/

structure Document where
  root : Node
  anchors : Anchors

/-- The handles that the directives of a document give, and the tokens after them. A document has one
version at most, 1.1 or 1.2, and gives no handle twice. -/
def directives? : (version : Bool) → Handles → List Token → Option (Handles × List Token)
  | version, handles, .version major minor :: rest =>
    if !version && major == 1 && (minor == 1 || minor == 2) then directives? true handles rest
    else none
  | version, handles, .tagHandle handle expansion :: rest =>
    if (handles.lookup handle).isSome then none
    else directives? version ((handle, expansion) :: handles) rest
  | _, handles, tokens => some (handles ++ standardHandles, tokens)

def rootNode? (handles : Handles) (tokens : List Token) : Option (Node × Reading) :=
  match tokens with
  | [] | .version .. :: _ | .tagHandle .. :: _ | .documentStart :: _ | .documentEnd :: _ =>
    some (.nothing, { tokens })
  | _ => node? handles .block (4 * tokens.length + 4) { tokens }

/-- The one document of a text. A text without content holds nothing. -/
def Document.ofTokens? (tokens : List Token) : Option Document := do
  let (handles, rest) ← directives? false [] tokens
  let (root, r) ← match tokens with
    | [] => some (.nothing, ({ tokens := [] } : Reading))
    | .version .. :: _ | .tagHandle .. :: _ | .documentStart :: _ =>
      match rest with
      | .documentStart :: rest => rootNode? handles rest
      | _ => none
    | _ => node? handles .block (4 * rest.length + 4) { tokens := rest }
  if (r.tokens.dropWhile (· == .documentEnd)).isEmpty then some ⟨root, r.anchors⟩ else none

end ApiDocs.Yaml
