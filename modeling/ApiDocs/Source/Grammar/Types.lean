import ApiDocs.Source.Reader

/-!
# Attributes, paths, types and generics
-/

namespace ApiDocs.Source.Rules

open Reader

variable (g : Grammar)

/-! ## Attributes -/

def plainSegment : Reader String := do
  require fun ts => Look.ident ts || Look.oneOf ["super", "self", "Self", "crate"] ts
  anyWord

/-- A path of plain segments. The result is its identifier if there is nothing else. -/
def plainPath : Reader (Option String) := do
  let leading ← op? "::"
  let first ← plainSegment
  let more ← many (Look.op "::") (do op "::"; plainSegment)
  return if !leading && more.isEmpty then some first else none

def attributeValue : Reader AttributeBody := do
  match (← get).rest with
  | [.literal (.text value)] =>
    skip 1
    return .text value
  | _ =>
    if ← look fun ts => Look.op "#" ts && Look.second (Look.group .bracket) ts then failure
    let _ ← g.expr true
    return .value

def attributeBody (inner : Bool) : Reader Attribute := do
  let name ← if ← word? "unsafe" then pure (some "unsafe") else plainPath
  match (← get).rest with
  | .group _ body :: _ =>
    skip 1
    return ⟨inner, name, .list body⟩
  | _ =>
    if ← op? "=" then
      return ⟨inner, name, ← attributeValue g⟩
    return ⟨inner, name, .bare⟩

def outerAttributes : Reader (List Attribute) := aside do
  many (Look.op "#") do
    op "#"
    within .bracket (attributeBody g false)

def innerAttributes : Reader (List Attribute) := aside do
  many (fun ts => Look.op "#" ts && Look.second (Look.op "!") ts) do
    skip 2
    within .bracket (attributeBody g true)

/-- The attributes in front of an item, which holds the items in their values. -/
def itemAttributes : Reader (List Attribute × List Item) := collecting (outerAttributes g)

/-! ## Blocks -/

def block : Reader Unit := within .brace g.statements

/-- Inner attributes and statements between braces. The attributes count as a part of what is before the
block, so that the items met there come after those in their values. -/
def attributedBlock (before : List Item) : Reader (List Attribute) := within .brace do
  let attributes ← innerAttributes g
  noteAll before
  g.statements
  return attributes

def constArgument : Reader Unit := do
  if ← look Look.literal then literal
  else if ← look Look.ident then skip 1
  else discard <| attributedBlock g []

/-! ## Bounds -/

/-- A colon that is not the first half of `::`. -/
def colon : Look := fun ts => Look.op ":" ts && !Look.op "::" ts

def lifetimeBounds : Reader Unit := discard <| joined "+" (!Look.lifetime ·) lifetime

/-- The arguments of `Fn(A, B) -> C`. -/
def callArguments : Reader Unit := do
  within .paren (discard <| terminated "," (g.type true))
  if ← op? "->" then discard <| g.type false

/-- Arguments in parentheses follow a path, perhaps after `::`. -/
def callFollows : Look := fun ts =>
  Look.group .paren ts || (Look.op "::" ts && Look.third (Look.group .paren) ts)

/-- `for<'a, …>` if it is there. -/
def lifetimeBinder? : Reader Bool := do
  if ← word? "for" then
    op "<"
    let _ ← separated "," (Look.op ">") g.parameter
    op ">"
    return true
  return false

/-- A trait with its modifiers, without the parentheses that may stand around it. -/
def traitBound : Reader Unit := do
  let binder ← lifetimeBinder? g
  if ← look (Look.group .bracket) then within .bracket (word "const")
  else if ← op? "~" then word "const"
  else discard <| word? "const"
  let maybe ← op? "?"
  let late ← if maybe && !binder then lifetimeBinder? g else pure false
  let path ← g.path false
  if !path.lastHasArguments && (← look callFollows) then
    let _ ← op? "::"
    callArguments g
  if maybe && (binder || late) then failure

inductive BoundKind where
  | lifetime
  | capture
  | trait
deriving DecidableEq

/-- One bound. `captures` says whether `use<…>` is allowed. -/
def bound (captures : Bool) : Reader BoundKind := do
  if ← look Look.lifetime then
    lifetime
    return .lifetime
  if ← look (Look.word "use") then
    if !captures then failure
    skip 1
    op "<"
    let _ ← separated "," (Look.op ">") do
      if ← look Look.lifetime then lifetime
      else if ← look (Look.word "Self") then skip 1
      else discard ident
    op ">"
    return .capture
  if ← look (Look.group .paren) then within .paren (traitBound g) else traitBound g
  return .trait

def boundsUntil (stop : Look) : Reader Unit := discard <| joined "+" stop (bound g false)

def boundStart : Look := fun ts =>
  Look.anyWord ts || Look.op "::" ts || Look.op "?" ts || Look.lifetime ts ||
    Look.group .paren ts || Look.group .bracket ts || Look.op "~" ts

/-- The bounds of a trait object or an opaque type, at least one of them a trait. -/
def objectBounds (plus captures : Bool) : Reader Unit := do
  let kinds ← repeated do
    let kind ← bound g captures
    if plus && (← op? "+") then
      if ← look boundStart then return .next kind
    return .last kind
  if !kinds.contains .trait then failure

/-! ## Generic parameters -/

def parameter : Reader Unit := do
  let _ ← outerAttributes g
  if ← look Look.lifetime then
    lifetime
    if ← look colon then
      skip 1
      lifetimeBounds
  else if ← word? "const" then
    let _ ← ident
    op ":"
    let _ ← g.type true
    if ← op? "=" then constArgument g
  else
    if !(← word? "_") then discard ident
    if ← look colon then
      skip 1
      boundsUntil g fun ts => Look.op "," ts || Look.op ">" ts || Look.op "=" ts
    if ← op? "=" then discard <| g.type true

/-- The parameters in angle brackets; `true` if there are brackets. -/
def generics : Reader Bool := do
  if ← op? "<" then
    let _ ← separated "," (Look.op ">") g.parameter
    op ">"
    return true
  return false

def whereEnd : Look := fun ts =>
  Look.atEnd ts || Look.group .brace ts || Look.op "," ts || Look.op ";" ts || colon ts ||
    Look.op "=" ts

def wherePredicate : Reader Unit := do
  if ← look fun ts => Look.lifetime ts && Look.second (Look.op ":") ts then
    skip 2
    lifetimeBounds
  else
    let _ ← lifetimeBinder? g
    let _ ← g.type true
    op ":"
    boundsUntil g whereEnd

def whereClause? : Reader Bool := do
  if ← word? "where" then
    let _ ← joined "," whereEnd (wherePredicate g)
    return true
  return false

/-- Reads what stands before a `where` clause, if there is one, and the clause. It counts as a part of the
parameters, so that its items come first. -/
def beforeWhere {α : Type} (p : Reader α) : Reader α := do
  let (a, before) ← collecting p
  let _ ← whereClause? g
  noteAll before
  return a

/-! ## Paths -/

/-- An argument in angle brackets: the type that it is, if it is one. -/
def genericArgument : Reader (Option TypeExpr) := do
  if ← look fun ts => Look.lifetime ts && !Look.second (Look.op "+") ts then
    skip 1
    return none
  if ← look fun ts => Look.literal ts || Look.group .brace ts then
    constArgument g
    return none
  let type ← g.type true
  -- a single segment can name an associated item
  if type.oneSegment then
    if ← op? "=" then
      if ← look fun ts => Look.literal ts || Look.group .brace ts then constArgument g
      else discard <| g.type true
      return none
    if ← op? ":" then
      boundsUntil g fun ts => Look.op "," ts || Look.op ">" ts
      return none
  return some type.shape

/-- Arguments in angle brackets: the types among them. -/
def angleArguments : Reader (List TypeExpr) := do
  let _ ← op? "::"
  op "<"
  let arguments ← separated "," (Look.op ">") (genericArgument g)
  op ">"
  return arguments.filterMap id

def pathSegment (exprStyle : Bool) : Reader (String × Option (List TypeExpr)) := do
  if ← look (Look.oneOf ["super", "self", "crate", "try"]) then
    return (← anyWord, none)
  let name ← if ← look (Look.word "Self") then anyWord else ident
  let angle ← look fun ts =>
    (!exprStyle && Look.op "<" ts && !Look.op "<=" ts) ||
      (Look.op "::" ts && Look.third (Look.op "<") ts)
  if angle then
    return (name, some (← angleArguments g))
  return (name, none)

def path (exprStyle : Bool) : Reader PathForm := do
  let leading ← op? "::"
  let first ← pathSegment g exprStyle
  let more ← many (fun ts => Look.op "::" ts && !Look.third (Look.group .paren) ts) do
    op "::"
    pathSegment g exprStyle
  return { leadingColon := leading, segments := first :: more }

def qualifiedPath (exprStyle : Bool) : Reader PathForm := do
  if ← op? "<" then
    let _ ← g.type true
    if ← word? "as" then discard <| g.path false
    op ">"
    op "::"
    let first ← pathSegment g exprStyle
    let more ← many (Look.op "::") (do op "::"; pathSegment g exprStyle)
    return { qualified := true, segments := first :: more }
  path g exprStyle

/-- An exclamation mark that is not the first half of `!=`. -/
def bang : Look := fun ts => Look.op "!" ts && !Look.op "!=" ts

/-! ## Types -/

def abi? : Reader Unit := do
  if ← word? "extern" then
    if ← look Look.textLiteral then skip 1

def fnTypeArgument (first : Bool) : Reader Unit := do
  let mutSelf := fun ts => Look.word "mut" ts && Look.second (Look.word "self") ts
  let hasMutSelf ← look fun ts => first && mutSelf ts
  if hasMutSelf then skip 1
  let isSelf ← look fun ts => first && Look.word "self" ts
  let hasName ← look fun ts =>
    (Look.ident ts || Look.word "_" ts || isSelf) && Look.second colon ts
  if hasName then skip 2
  if ← look fun ts => first && !(isSelf && hasName) && mutSelf ts then skip 2
  else if hasMutSelf && !hasName then word "self"
  else discard <| g.type true

def fnType : Reader Unit := do
  let _ ← word? "unsafe"
  abi?
  word "fn"
  within .paren do
    let dots := fun ts => Look.op "..." ts ||
      ((Look.ident ts || Look.word "_" ts) && Look.second (Look.op ":") ts &&
        Look.third (Look.op "...") ts)
    let start := (← get).rest.length
    let _ ← repeated do
      if ← look Look.atEnd then return .done
      let first := (← get).rest.length == start
      let _ ← outerAttributes g
      if ← look dots then
        if !(← look (Look.op "...")) then skip 2
        op "..."
        let _ ← op? ","
        return .last ()
      fnTypeArgument g first
      if ← look Look.atEnd then return .last ()
      op ","
      return .next ()
  if ← op? "->" then discard <| g.type false

/-- A type in parentheses, a tuple, or the first bound of a trait object. -/
def parenType (plus : Bool) : Reader TypeForm := do
  let more : Reader Unit := discard <| many (Look.op "+") (do op "+"; bound g false)
  if ← look fun ts => match ts with
      | .group .paren body :: _ => Look.op "?" body
      | _ => false then
    within .paren (traitBound g)
    more
    return {}
  let inside ← within .paren do
    if ← look Look.atEnd then return none
    if ← look Look.lifetime then
      objectBounds g true false
      return some TypeExpr.other
    let first ← g.type true
    if ← op? "," then
      let _ ← terminated "," (g.type true)
      return none
    return some first.shape
  match inside with
  | none => return {}
  | some shape =>
    if plus && (← look (Look.op "+")) then
      if let .named false _ _ _ := shape then
        more
        return {}
    return { shape := .paren shape }

/-- A path type, a macro in the place of a type, or a trait object that begins with a path. -/
def pathType (plus binder : Bool) : Reader TypeForm := do
  let path ← qualifiedPath g false
  if path.qualified then return { shape := path.toType }
  if (← look bang) && path.isPlain then
    skip 1
    let _ ← anyGroup
    return {}
  if binder || (plus && (← look (Look.op "+"))) then
    if plus then
      let _ ← repeated do
        if !(← op? "+") then return .done
        let another ← look fun ts =>
          Look.anyWord ts || Look.op "::" ts || Look.op "?" ts || Look.lifetime ts ||
            Look.group .paren ts
        if !another then return .done
        return .next (← bound g false)
    return {}
  return {
    shape := path.toType
    oneSegment := !path.leadingColon && path.segments.length == 1 }

def type (plus : Bool) : Reader TypeForm := do
  let binder ← lifetimeBinder? g
  let functionStart := Look.oneOf ["fn", "unsafe", "extern"]
  let pathStart := fun ts => Look.ident ts || Look.oneOf ["super", "self", "Self", "crate"] ts
  if binder && !(← look fun ts => functionStart ts || pathStart ts) then failure
  if ← look (Look.group .paren) then parenType g plus
  else if ← look functionStart then
    fnType g
    return {}
  else if ← look fun ts => pathStart ts || Look.op "::" ts || Look.op "<" ts then
    pathType g plus binder
  else if ← word? "dyn" then
    let _ ← op? "*"
    objectBounds g plus false
    return {}
  else if ← look (Look.group .bracket) then within .bracket do
    let element ← g.type true
    if ← op? ";" then
      let _ ← g.expr true
      return { shape := .array element.shape }
    return { shape := .slice element.shape }
  else if ← op? "*" then
    if !(← word? "const") then word "mut"
    let _ ← g.type false
    return {}
  else if ← op? "&" then
    if ← look Look.lifetime then lifetime
    let _ ← word? "mut"
    return { shape := .reference (← g.type false).shape }
  else if ← op? "!" then return {}
  else if ← word? "impl" then
    objectBounds g plus true
    return {}
  else if ← word? "_" then return {}
  else if ← look Look.lifetime then
    objectBounds g true false
    return {}
  else failure

end ApiDocs.Source.Rules
