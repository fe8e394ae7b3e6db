import ApiDocs.Source.Grammar.Types

/-!
# Patterns
-/

namespace ApiDocs.Source.Rules

open Reader

variable (g : Grammar)

/-- An alternative bar that is not part of a longer operator. -/
def bar : Look := fun ts => Look.op "|" ts && !Look.op "||" ts && !Look.op "|=" ts

def patterns : Reader PatternKind := do
  let leading ← op? "|"
  let first ← g.pattern
  let more ← many bar (do op "|"; g.pattern)
  return if leading || !more.isEmpty then .other else first

/-- The limits of a range pattern: whether they are closed. -/
def rangeLimits (obsolete : Bool) : Reader Bool := do
  if ← op? "..=" then return true
  if ← look (Look.op "...") then
    if !obsolete then failure
    skip 3
    return true
  op ".."
  return false

def rangeBound : Reader Bool := do
  if ← look fun ts => Look.atEnd ts || Look.op "|" ts || Look.op "=" ts || colon ts ||
      Look.op "," ts || Look.op ";" ts || Look.word "if" ts then
    return false
  if ← look Look.literal then literal
  else if ← word? "const" then discard <| attributedBlock g []
  else if ← look fun ts => Look.ident ts || Look.op "::" ts || Look.op "<" ts ||
      Look.oneOf ["self", "Self", "super", "crate"] ts then
    discard <| qualifiedPath g true
  else failure
  return true

def rangeRest : Reader PatternKind := do
  let closed ← rangeLimits true
  let bounded ← rangeBound g
  if closed && !bounded then failure
  return if bounded then .other else .openRange

def member : Reader Bool := do
  match (← get).rest with
  | .literal (.integer digits) :: _ =>
    if !digits.toList.all (fun c => ('0' ≤ c && c ≤ '9') || c == '_') then failure
    skip 1
    return false
  | _ =>
    let _ ← ident
    return true

def fieldPattern : Reader Unit := do
  let boxed ← word? "box"
  let byRef ← word? "ref"
  let mutable ← word? "mut"
  if boxed || byRef || mutable then discard ident
  else
    let named ← member
    if !named || (← look (Look.op ":")) then
      op ":"
      let _ ← patterns g

/-- The fields of a structure pattern; `..` ends them. -/
def structPattern : Reader Unit := within .brace do
  let _ ← repeated do
    if ← look Look.atEnd then return .done
    let _ ← outerAttributes g
    if ← op? ".." then return .last ()
    fieldPattern g
    if ← look Look.atEnd then return .last ()
    op ","
    return .next ()

def pathPattern : Reader PatternKind := do
  let path ← qualifiedPath g true
  if !path.qualified && path.isPlain && (← look bang) then
    skip 1
    let _ ← anyGroup
    return .other
  if ← look (Look.group .brace) then structPattern g
  else if ← look (Look.group .paren) then
    within .paren (discard <| terminated "," (patterns g))
  else if ← look (Look.op "..") then return ← rangeRest g
  return .other

def slicePattern : Reader Unit := within .bracket do
  let kinds ← terminated "," (patterns g)
  if kinds.contains .openRange then failure

def pattern : Reader PatternKind := do
  let pathStart := fun ts =>
    (Look.ident ts && Look.second (fun ts => Look.op "::" ts || Look.op "!" ts ||
      Look.group .brace ts || Look.group .paren ts || Look.op ".." ts) ts) ||
    (Look.word "self" ts && Look.second (Look.op "::") ts) || Look.op "::" ts || Look.op "<" ts ||
    Look.oneOf ["Self", "super", "crate"] ts
  if ← look pathStart then pathPattern g
  else if ← word? "_" then return .other
  else if ← word? "box" then
    let _ ← g.pattern
    return .other
  else if ← look fun ts => Look.op "-" ts || Look.literal ts || Look.word "const" ts then
    if !(← rangeBound g) then failure
    if ← look (Look.op "..") then return ← rangeRest g
    return .other
  else if ← look fun ts => Look.oneOf ["ref", "mut", "self"] ts || Look.ident ts then
    let _ ← word? "ref"
    let _ ← word? "mut"
    if !(← word? "self") then discard ident
    if ← op? "@" then discard g.pattern
    return .other
  else if ← op? "&" then
    let _ ← word? "mut"
    let _ ← g.pattern
    return .other
  else if ← look (Look.group .paren) then
    within .paren (discard <| terminated "," (patterns g))
    return .other
  else if ← look (Look.group .bracket) then
    slicePattern g
    return .other
  else if ← look fun ts => Look.op ".." ts && !Look.op "..." ts then
    let closed ← rangeLimits false
    if ← rangeBound g then return .openRange
    if closed then failure
    return .rest
  else failure

end ApiDocs.Source.Rules
