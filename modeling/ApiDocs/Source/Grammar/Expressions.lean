import ApiDocs.Source.Grammar.Patterns

/-!
# Expressions and statements
-/

namespace ApiDocs.Source.Rules

open Reader

variable (g : Grammar)

/-! ## Operators -/

/-- Binary operators with their strength, longer ones before their own beginnings. -/
def binaryOperators : List (String × Precedence) := [
  ("+=", .assign), ("-=", .assign), ("*=", .assign), ("/=", .assign), ("%=", .assign),
  ("^=", .assign), ("&=", .assign), ("|=", .assign), ("<<=", .assign), (">>=", .assign),
  ("&&", .and), ("||", .or), ("<<", .shift), (">>", .shift), ("==", .compare), ("<=", .compare),
  ("!=", .compare), (">=", .compare), ("+", .sum), ("-", .sum), ("*", .product), ("/", .product),
  ("%", .product), ("^", .bitXor), ("&", .bitAnd), ("|", .bitOr), ("<", .compare),
  (">", .compare)]

def binaryOperator? (ts : List Token) : Option (String × Precedence) :=
  binaryOperators.find? fun o => Look.op o.1 ts

/-- An equals sign that is not the first half of `=>`. -/
def equals : Look := fun ts => Look.op "=" ts && !Look.op "=>" ts

def nextPrecedence (ts : List Token) : Precedence :=
  match binaryOperator? ts with
  | some (_, p) => p
  | none =>
    if equals ts then .assign
    else if Look.op ".." ts then .range
    else if Look.word "as" ts then .cast
    else .weakest

/-- The right side of an operator of strength `p`: what binds tighter belongs to it, and what
follows an assignment too. -/
def operand (structs : Bool) (p : Precedence) : Reader Expr := do
  let first ← g.unary structs
  iterate (fun rhs => do
    let before := (← get).rest
    let next := nextPrecedence before
    if p.rank < next.rank || (next == .assign && p == .assign) then
      let rhs ← g.binary rhs structs next
      if (← get).rest.length == before.length then return none
      return some rhs
    return none) first

def rangeStops (structs : Bool) : Look := fun ts =>
  Look.atEnd ts || Look.op "," ts || Look.op ";" ts || (Look.op "." ts && !Look.op ".." ts) ||
    Look.op "?" ts || Look.op "=>" ts || (!structs && Look.group .brace ts) || Look.op "=" ts ||
    Look.op "+" ts || Look.op "/" ts || Look.op "%" ts || Look.op "^" ts || Look.op ">" ts ||
    Look.op "<=" ts || Look.op "!=" ts || Look.op "-=" ts || Look.op "*=" ts || Look.op "&=" ts ||
    Look.op "|=" ts || Look.op "<<=" ts || Look.word "as" ts

def rangeTail (structs : Bool) : Reader Expr := do
  let closed ← rangeLimits false
  if !closed && (← look (rangeStops structs)) then
    return { kind := .range }
  return { kind := .range, endsInBrace := (← operand g structs .range).endsInBrace }

/-- A cast takes no call, index, field or question mark. -/
def castStops : Look := fun ts =>
  !((Look.op "." ts && !Look.op ".." ts) || Look.op "?" ts || Look.group .bracket ts ||
    Look.group .paren ts)

/-- The operators of at least strength `base` after `lhs`. A range takes none, and comparisons do not
chain. -/
def binary (lhs : Expr) (structs : Bool) (base : Precedence) : Reader Expr :=
  iterate (fun lhs => do
    if lhs.kind == .range then return none
    let ts := (← get).rest
    match binaryOperator? ts with
    | some (spelling, p) =>
      if p.rank < base.rank then return none
      if p == .compare && lhs.kind == .comparison then failure
      skip spelling.length
      let rhs ← operand g structs p
      return some {
        kind := if p == .compare then .comparison else .other
        endsInBrace := rhs.endsInBrace }
    | none =>
      if base.rank ≤ Precedence.assign.rank && equals ts then
        skip 1
        return some { endsInBrace := (← operand g structs .assign).endsInBrace }
      else if base.rank ≤ Precedence.range.rank && Look.op ".." ts then
        return some (← rangeTail g structs)
      else if base.rank ≤ Precedence.cast.rank && Look.word "as" ts then
        skip 1
        let _ ← g.type false
        require castStops
        return some {}
      else return none) lhs

/-! ## Calls, fields and indices -/

def arguments : Reader Unit := within .paren (discard <| terminated "," (g.expr true))

/-- The parts of a float literal after a point are the numbers of tuple fields. `true` if the last
number is there. -/
def tupleIndices (spelling : String) : Option Bool :=
  let parts := Text.partsBy (· == '.') spelling.toList
  let isIndex := fun (part : List Char) =>
    !part.isEmpty && part.all fun c => ('0' ≤ c && c ≤ '9') || c == '_'
  match parts with
  | [a, []] => if isIndex a then some false else none
  | parts => if parts.all isIndex then some true else none

def memberAccess : Reader Unit := do
  if ← word? "await" then return ()
  let named ← member
  let turbofish ← look fun ts => named && Look.op "::" ts
  if turbofish then
    require (Look.third (Look.op "<"))
    let _ ← angleArguments g
  if turbofish || (named && (← look (Look.group .paren))) then arguments g

def trailers (e : Expr) : Reader Expr :=
  iterate (fun e => do
    let ts := (← get).rest
    if Look.group .paren ts then
      arguments g
      return some {}
    else if e.kind != .range && Look.op "." ts && !Look.op ".." ts then
      skip 1
      match (← get).rest with
      | .literal (.float spelling) :: _ =>
        skip 1
        match tupleIndices spelling with
        | none => failure
        | some true => return some {}
        | some false =>
          memberAccess g
          return some {}
      | _ =>
        memberAccess g
        return some {}
    else if Look.group .bracket ts then
      let _ ← within .bracket (g.expr true)
      return some {}
    else if e.kind != .range && Look.op "?" ts then
      skip 1
      return some {}
    else return none) e

/-! ## Atoms -/

/-- What can begin an expression after `return`, `break` and `yield`. -/
def exprStart : Look := fun ts =>
  (Look.anyWord ts && !Look.word "as" ts) || Look.anyGroup ts || Look.literal ts ||
    (Look.op "!" ts && !Look.op "!=" ts) ||
    (Look.op "-" ts && !Look.op "-=" ts && !Look.op "->" ts) ||
    (Look.op "*" ts && !Look.op "*=" ts) || (Look.op "|" ts && !Look.op "|=" ts) ||
    (Look.op "&" ts && !Look.op "&=" ts) || Look.op ".." ts ||
    (Look.op "<" ts && !Look.op "<=" ts && !Look.op "<<=" ts) || Look.op "::" ts ||
    Look.lifetime ts || Look.op "#" ts

def structBody : Reader Unit := within .brace do
  let _ ← repeated do
    if ← look Look.atEnd then return .done
    if ← op? ".." then
      if !(← look Look.atEnd) then discard <| g.expr true
      return .last ()
    let _ ← outerAttributes g
    let named ← member
    if !named || (← look (Look.op ":")) then
      op ":"
      let _ ← g.expr true
    if ← look Look.atEnd then return .last ()
    op ","
    return .next ()

def pathExpr (structs : Bool) : Reader Expr := do
  let path ← qualifiedPath g true
  if !path.qualified && path.isPlain && (← look bang) then
    skip 1
    let d ← anyGroup
    return { kind := .call d, endsInBrace := d == .brace }
  if structs && (← look (Look.group .brace)) then
    structBody g
    return { endsInBrace := true }
  return {}

def parenExpr : Reader Expr := do
  within .paren (discard <| terminated "," (g.expr true))
  return {}

def arrayExpr : Reader Expr := within .bracket do
  if ← look Look.atEnd then return {}
  let _ ← g.expr true
  if ← op? ";" then
    let _ ← g.expr true
  else if !(← look Look.atEnd) then
    op ","
    let _ ← terminated "," (g.expr true)
  return {}

def binderStart : Look := fun ts =>
  Look.word "for" ts && Look.second (Look.op "<") ts &&
    Look.third (fun ts => Look.lifetime ts || Look.op ">" ts) ts

def closureStart : Look := fun ts =>
  Look.op "|" ts || Look.word "move" ts || binderStart ts ||
    (Look.word "const" ts && !Look.second (Look.group .brace) ts) || Look.word "static" ts ||
    (Look.word "async" ts && Look.second (fun ts => Look.op "|" ts || Look.word "move" ts) ts)

def closure (structs : Bool) : Reader Expr := do
  let _ ← lifetimeBinder? g
  let _ ← word? "const"
  let _ ← word? "static"
  let _ ← word? "async"
  let _ ← word? "move"
  op "|"
  let _ ← separated "," (Look.op "|") do
    let _ ← outerAttributes g
    let _ ← g.pattern
    if ← op? ":" then discard <| g.type true
  op "|"
  if ← op? "->" then
    let _ ← g.type true
    block g
    return { endsInBrace := true }
  return { endsInBrace := (← g.expr structs).endsInBrace }

/-! ## Control flow -/

def blockExpr (before : List Item) : Reader Expr := do
  let _ ← attributedBlock g before
  return { kind := .block, endsInBrace := true }

def ifExpr : Reader Expr := do
  let _ ← repeated do
    word "if"
    let _ ← g.expr false
    block g
    if ← word? "else" then
      if ← look (Look.word "if") then return .next ()
      block g
    return .last ()
  return { kind := .block, endsInBrace := true }

def loopExpr : Reader Expr := do
  let (_, before) ← collecting do
    if ← word? "while" then discard <| g.expr false
    else if ← word? "for" then
      let _ ← patterns g
      word "in"
      discard <| g.expr false
    else word "loop"
  blockExpr g before

/-- Only a block ends an arm without a comma. -/
def arm : Reader Unit := do
  let _ ← outerAttributes g
  let _ ← patterns g
  if ← word? "if" then discard <| g.expr true
  op "=>"
  let body ← g.statementExpr
  if body.kind == .block || (← look Look.atEnd) then discard <| op? ","
  else op ","

def matchExpr : Reader Expr := do
  word "match"
  let (_, before) ← collecting (g.expr false)
  within .brace do
    let _ ← innerAttributes g
    noteAll before
    let _ ← many (!Look.atEnd ·) (arm g)
  return { kind := .block, endsInBrace := true }

def labeled : Reader Expr := do
  lifetime
  op ":"
  if ← look (Look.oneOf ["while", "for", "loop"]) then loopExpr g else blockExpr g []

def letExpr (structs : Bool) : Reader Expr := do
  word "let"
  let _ ← patterns g
  op "="
  let lhs ← g.unary structs
  return { endsInBrace := (← g.binary lhs structs .compare).endsInBrace }

def breakExpr (structs : Bool) : Reader Expr := do
  word "break"
  if ← look Look.lifetime then
    if ← look (Look.second (Look.op ":")) then failure
    lifetime
  if ← look fun ts => exprStart ts && (structs || !Look.group .brace ts) then
    return { endsInBrace := (← g.expr true).endsInBrace }
  return {}

def jumpValue : Reader Expr := do
  if ← look exprStart then
    return { endsInBrace := (← g.expr true).endsInBrace }
  return {}

/-- The atoms that open with a keyword of their own, block-like ones last. -/
def keywordExpr (structs : Bool) : Reader Expr := do
  let ts := (← get).rest
  if Look.word "break" ts then breakExpr g structs
  else if Look.word "continue" ts then
    skip 1
    if ← look Look.lifetime then lifetime
    return {}
  else if Look.oneOf ["return", "yield", "become"] ts then
    skip 1
    jumpValue g
  else if Look.word "let" ts then letExpr g structs
  else if Look.word "if" ts then ifExpr g
  else if Look.oneOf ["while", "for", "loop"] ts then loopExpr g
  else if Look.word "match" ts then matchExpr g
  else if Look.oneOf ["unsafe", "const"] ts then
    skip 1
    blockExpr g []
  else failure

def atom (structs : Bool) : Reader Expr := do
  let ts := (← get).rest
  let brace := Look.group .brace
  if Look.literal ts then
    literal
    return {}
  else if Look.word "async" ts && (Look.second brace ts ||
      (Look.second (Look.word "move") ts && Look.third brace ts)) then
    skip 1
    let _ ← word? "move"
    block g
    return { endsInBrace := true }
  else if Look.word "try" ts && Look.second brace ts then
    skip 1
    block g
    return { kind := .block, endsInBrace := true }
  else if closureStart ts then closure g structs
  else if Look.word "builtin" ts && Look.second (Look.op "#") ts then
    skip 2
    let _ ← ident
    require (Look.group .paren)
    skip 1
    return {}
  else if Look.ident ts || Look.op "::" ts || Look.op "<" ts ||
      Look.oneOf ["self", "Self", "super", "crate"] ts ||
      (Look.word "try" ts && Look.second (fun ts => Look.op "!" ts || Look.op "::" ts) ts) then
    pathExpr g structs
  else if Look.group .paren ts then parenExpr g
  else if Look.group .bracket ts then arrayExpr g
  else if brace ts then blockExpr g []
  else if Look.op ".." ts then rangeTail g structs
  else if Look.word "_" ts then
    skip 1
    return {}
  else if Look.lifetime ts then labeled g
  else keywordExpr g structs

/-! ## Expressions -/

def unary (structs : Bool) : Reader Expr := do
  let attributes ← outerAttributes g
  let ts := (← get).rest
  if Look.op "&" ts then
    skip 1
    let raw ← look fun ts =>
      Look.word "raw" ts && Look.second (Look.oneOf ["mut", "const"]) ts
    if raw then skip 2
    else discard <| word? "mut"
    return { endsInBrace := (← g.unary structs).endsInBrace }
  else if Look.op "*" ts || Look.op "!" ts || Look.op "-" ts then
    skip 1
    return { endsInBrace := (← g.unary structs).endsInBrace }
  else
    let e ← trailers g (← atom g structs)
    if e.kind == .range && !attributes.isEmpty then failure
    return e

def expr (structs : Bool) : Reader Expr := do
  let lhs ← g.unary structs
  g.binary lhs structs .weakest

/-- An expression at the start of a statement or an arm: a block ends it, unless a point or a question
mark follows. -/
def statementExpr : Reader Expr := do
  let _ ← outerAttributes g
  let ts := (← get).rest
  let brace := Look.group .brace
  let blockStart :=
    Look.oneOf ["if", "while", "loop", "match", "unsafe"] ts ||
      (Look.word "for" ts && !binderStart ts) || (Look.word "try" ts && Look.second brace ts) ||
      (Look.word "const" ts && Look.second brace ts) || brace ts || Look.lifetime ts
  if blockStart then
    let e ← atom g true
    if ← look fun ts => (Look.op "." ts && !Look.op ".." ts) || Look.op "?" ts then
      g.binary (← trailers g e) true .weakest
    else return e
  else
    let lhs ← g.unary true
    g.binary lhs true .weakest

/-! ## Statements -/

def itemStart : Look := fun ts =>
  let brace := Look.group .brace
  Look.oneOf ["pub", "extern", "use", "fn", "mod", "type", "struct", "enum", "trait", "impl", "macro"]
      ts ||
    (Look.word "crate" ts && !Look.second (Look.op "::") ts) ||
    (Look.word "static" ts && Look.second (fun ts => Look.word "mut" ts || Look.ident ts) ts) ||
    (Look.word "const" ts && !(Look.second brace ts || Look.second (Look.word "static") ts ||
      (Look.second (Look.word "async") ts &&
        !Look.third (Look.oneOf ["unsafe", "extern", "fn"]) ts) ||
      Look.second (Look.word "move") ts || Look.second (Look.op "|") ts)) ||
    (Look.word "unsafe" ts && !Look.second brace ts) ||
    (Look.word "async" ts && Look.second (Look.oneOf ["unsafe", "extern", "fn"]) ts) ||
    (Look.word "union" ts && Look.second Look.ident ts) ||
    (Look.word "auto" ts && Look.second (Look.word "trait") ts) ||
    (Look.word "default" ts && Look.second (Look.oneOf ["unsafe", "impl"]) ts)

def localStatement : Reader Unit := do
  word "let"
  let _ ← g.pattern
  if ← op? ":" then discard <| g.type true
  if ← op? "=" then
    let value ← g.expr true
    if !value.endsInBrace && (← look (Look.word "else")) then
      skip 1
      block g
  op ";"

inductive CallStart where
  | item
  | statement (tokens : Nat)
  | none

def callStart : Reader CallStart := do
  let before := (← get).rest.length
  let start ← ahead do
    let _ ← plainPath
    return (← get).rest
  match start with
  | some ts =>
    if !Look.op "!" ts then return .none
    if Look.second (fun ts => Look.ident ts || Look.word "try" ts) ts then return .item
    if Look.second (Look.group .brace) ts && !Look.third (fun ts =>
        (Look.op "." ts && !Look.op ".." ts) || Look.op "?" ts) ts then
      return .statement (before - ts.length + 2)
    return .none
  | Option.none => return .none

/-- A statement; `true` if another one needs a semicolon first. -/
def statement : Reader Bool := do
  let attributes ← itemAttributes g
  let opening ← callStart
  if let .statement count := opening then
    noteAll attributes.2
    skip count
    let _ ← op? ";"
    return false
  if ← look (Look.word "let") then
    noteAll attributes.2
    localStatement g
    return false
  let isItem := match opening with
    | .item => true
    | _ => false
  if isItem || (← look itemStart) then
    note (← g.item attributes)
    return false
  noteAll attributes.2
  let e ← g.statementExpr
  if ← op? ";" then return false
  return match e.kind with
    | .block => false
    | .call .brace => false
    | _ => true

def statements : Reader Unit := do
  let _ ← repeated do
    if ← look Look.atEnd then return .done
    if ← op? ";" then return .next ()
    let unfinished ← statement g
    if ← look Look.atEnd then return .last ()
    if unfinished then failure
    return .next ()

end ApiDocs.Source.Rules
