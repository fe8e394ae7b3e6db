import ApiDocs.Source.Item

/-!
# Reading token trees

A reader consumes tokens and notes the items that it meets on the way, so that whatever encloses
them can tell what stands inside it. `Grammar` is the list of readers that call one another; the
modules of the grammar define each of them over an arbitrary `Grammar`, and the knot is tied at the
end.
-/

namespace ApiDocs.Source

structure ReaderState where
  rest : List Token
  /-- The items met so far, last first. -/
  found : List Item := []

abbrev Reader := StateT ReaderState Option

/-! ## Looking ahead -/

abbrev Look := List Token → Bool

namespace Look

def reserved : List String := [
  "_", "abstract", "as", "async", "await", "become", "box", "break", "const", "continue", "crate",
  "do", "dyn", "else", "enum", "extern", "false", "final", "fn", "for", "if", "impl", "in", "let",
  "loop", "macro", "match", "mod", "move", "mut", "override", "priv", "pub", "ref", "return", "Self",
  "self", "static", "struct", "super", "trait", "true", "try", "type", "typeof", "unsafe", "unsized",
  "use", "virtual", "where", "while", "yield"]

def word (w : String) : Look
  | .word name :: _ => name == w
  | _ => false

def anyWord : Look
  | .word _ :: _ => true
  | _ => false

def ident : Look
  | .word name :: _ => !reserved.contains name
  | _ => false

def oneOf (ws : List String) : Look
  | .word name :: _ => ws.contains name
  | _ => false

def lifetime : Look
  | .lifetime _ :: _ => true
  | _ => false

def opChars : List Char → Look
  | [], _ => true
  | c :: cs, .punct d joint :: ts => c == d && (cs.isEmpty || joint) && opChars cs ts
  | _, _ => false

/-- Punctuation whose characters stand together. -/
def op (s : String) : Look := opChars s.toList

def group (d : Delimiter) : Look
  | .group d' _ :: _ => d == d'
  | _ => false

def anyGroup : Look
  | .group _ _ :: _ => true
  | _ => false

def literal : Look
  | .literal _ :: _ => true
  | .word name :: _ => name == "true" || name == "false"
  | .punct '-' _ :: .literal l :: _ => l.isNumber
  | _ => false

def textLiteral : Look
  | .literal (.text _) :: _ => true
  | _ => false

def atEnd : Look := List.isEmpty

/-- What holds of the token after the next. -/
def second (p : Look) : Look := fun ts => p (ts.drop 1)

def third (p : Look) : Look := fun ts => p (ts.drop 2)

end Look

/-! ## Readers -/

namespace Reader

variable {α β : Type}

def look (p : Look) : Reader Bool := do return p (← get).rest

def require (p : Look) : Reader Unit := do
  if !(← look p) then failure

def skip (n : Nat) : Reader Unit := modify fun s => { s with rest := s.rest.drop n }

def op (s : String) : Reader Unit := do
  require (Look.op s)
  skip s.length

def op? (s : String) : Reader Bool := do
  if ← look (Look.op s) then
    skip s.length
    return true
  return false

def word (w : String) : Reader Unit := do
  require (Look.word w)
  skip 1

def word? (w : String) : Reader Bool := do
  if ← look (Look.word w) then
    skip 1
    return true
  return false

def anyWord : Reader String := do
  match (← get).rest with
  | .word name :: _ =>
    skip 1
    return name
  | _ => failure

def ident : Reader String := do
  require Look.ident
  anyWord

def lifetime : Reader Unit := do
  require Look.lifetime
  skip 1

def literal : Reader Unit := do
  require Look.literal
  skip (if ← look (Look.op "-") then 2 else 1)

def anyGroup : Reader Delimiter := do
  match (← get).rest with
  | .group d _ :: _ =>
    skip 1
    return d
  | _ => failure

def within (d : Delimiter) (p : Reader α) : Reader α := fun s =>
  match s.rest with
  | .group d' body :: rest =>
    if d = d' then
      match p { rest := body, found := s.found } with
      | some (a, inside) => if inside.rest.isEmpty then some (a, ⟨rest, inside.found⟩) else none
      | none => none
    else none
  | _ => none

/-- Reads if that succeeds, and consumes nothing otherwise. -/
def attempt (p : Reader α) : Reader (Option α) := fun s =>
  match p s with
  | some (a, s) => some (some a, s)
  | none => some (none, s)

def ahead (p : Reader α) : Reader (Option α) := fun s => some ((p s).map (·.1), s)

/-- Reads and forgets the items met. -/
def forgetting (p : Reader α) : Reader α := fun s =>
  (p s).map fun r => (r.1, { r.2 with found := s.found })

/-- Reads and forgets the items met unless the result is `true`. -/
def keepingIf (p : Reader Bool) : Reader Unit := fun s =>
  (p s).map fun r => ((), if r.1 then r.2 else { r.2 with found := s.found })

/-- Reads and hands over the items met instead of noting them. -/
def collecting (p : Reader α) : Reader (α × List Item) := fun s =>
  (p { s with found := [] }).map fun r => ((r.1, r.2.found.reverse), ⟨r.2.rest, s.found⟩)

def note (i : Item) : Reader Unit := modify fun s => { s with found := i :: s.found }

/-- Notes items that were met before as if they were met here. -/
def noteAll (items : List Item) : Reader Unit := modify fun s => { s with found := items.reverse ++ s.found }

/-- Reads with the items met put into one of their own, if there are any. -/
def aside (p : Reader α) : Reader α := do
  let (a, items) ← collecting p
  if !items.isEmpty then note (.undocumented items)
  return a

inductive Step (α : Type) where
  | done
  | last (a : α)
  | next (a : α)

def repeatAux (step : Reader (Step α)) : Nat → Reader (List α)
  | 0 => failure
  | n + 1 => do
    match ← step with
    | .done => return []
    | .last a => return [a]
    | .next a => return a :: (← repeatAux step n)

/-- Repeats a step as long as it asks for more. A step that does so has to consume a token. -/
def repeated (step : Reader (Step α)) : Reader (List α) := do
  repeatAux step ((← get).rest.length + 1)

def iterateAux (step : α → Reader (Option α)) : Nat → α → Reader α
  | 0, _ => failure
  | n + 1, a => do
    match ← step a with
    | none => return a
    | some b => iterateAux step n b

/-- Changes a value step by step until there is nothing to change. Every change has to consume a
token. -/
def iterate (step : α → Reader (Option α)) (a : α) : Reader α := do
  iterateAux step ((← get).rest.length + 1) a

def many (start : Look) (p : Reader α) : Reader (List α) := repeated do
  if ← look start then return .next (← p)
  return .done

/-- Things with a separator between them and perhaps after the last, up to where `stop` holds. -/
def separated (separator : String) (stop : Look) (p : Reader α) : Reader (List α) := repeated do
  if ← look stop then return .done
  let a ← p
  if ← look stop then return .last a
  op separator
  return .next a

def terminated (separator : String) (p : Reader α) : Reader (List α) :=
  separated separator Look.atEnd p

/-- Things as long as a separator follows, none where `stop` holds. -/
def joined (separator : String) (stop : Look) (p : Reader α) : Reader (List α) := repeated do
  if ← look stop then return .done
  let a ← p
  if ← op? separator then return .next a
  return .last a

end Reader

/-! ## The knot -/

inductive Precedence where
  | weakest
  | assign
  | range
  | or
  | and
  | compare
  | bitOr
  | bitXor
  | bitAnd
  | shift
  | sum
  | product
  | cast
deriving Repr, DecidableEq

namespace Precedence

def rank (p : Precedence) : Nat := p.ctorIdx

end Precedence

inductive ExprKind where
  /-- Ends a statement without a semicolon. -/
  | block
  | call (d : Delimiter)
  | range
  | comparison
  | other
deriving Repr, DecidableEq

structure Expr where
  kind : ExprKind := .other
  endsInBrace : Bool := false
deriving Repr

inductive PatternKind where
  | rest
  | openRange
  | other
deriving Repr, DecidableEq

/-- A path as far as it was read: a segment is an identifier and the types among its arguments, if
it has arguments. -/
structure PathForm where
  qualified : Bool := false
  leadingColon : Bool := false
  segments : List (String × Option (List TypeExpr)) := []

namespace PathForm

def isPlain (p : PathForm) : Bool := p.segments.all (·.2.isNone)

def lastHasArguments (p : PathForm) : Bool :=
  match p.segments.getLast? with
  | some (_, arguments) => arguments.isSome
  | none => false

def toType (p : PathForm) : TypeExpr :=
  match p.segments.getLast? with
  | some (name, none) => .named p.qualified name false []
  | some (name, some types) => .named p.qualified name true types
  | none => .other

end PathForm

structure TypeForm where
  shape : TypeExpr := .other
  /-- A path of one segment that begins with its identifier. -/
  oneSegment : Bool := false

/-- The readers that call one another. -/
structure Grammar where
  /-- A path; in an expression its arguments begin with `::`. -/
  path : (exprStyle : Bool) → Reader PathForm
  /-- A generic parameter. -/
  parameter : Reader Unit
  /-- A type, with bounds joined by `+` if `plus` says so. -/
  type : (plus : Bool) → Reader TypeForm
  /-- An expression; `structs` says whether a brace after a path opens a structure. -/
  expr : (structs : Bool) → Reader Expr
  unary : (structs : Bool) → Reader Expr
  /-- The operators of at least strength `base` after an expression. -/
  binary : Expr → (structs : Bool) → (base : Precedence) → Reader Expr
  /-- An expression at the start of a statement or an arm, where a block ends it. -/
  statementExpr : Reader Expr
  pattern : Reader PatternKind
  /-- Statements to the end of a block. -/
  statements : Reader Unit
  /-- An item after its attributes and the items in their values. -/
  item : List Attribute × List Item → Reader Item
  /-- The tree of a `use`; `false` if a crate root stands inside a brace. -/
  useTree : (crateRoot : Bool) → Reader Bool

def Grammar.empty : Grammar where
  path _ := failure
  parameter := failure
  type _ := failure
  expr _ := failure
  unary _ := failure
  binary _ _ _ := failure
  statementExpr := failure
  pattern := failure
  statements := failure
  item _ := failure
  useTree _ := failure

end ApiDocs.Source
