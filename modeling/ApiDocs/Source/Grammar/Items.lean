import ApiDocs.Source.Grammar.Expressions

/-!
# Items
-/

namespace ApiDocs.Source.Rules

open Reader

variable (g : Grammar)

/-! ## Visibility -/

/-- The visibility; `false` if nothing is written. -/
def visibility : Reader Bool := do
  if !(← word? "pub") then return false
  match (← get).rest with
  | .group .paren [.word name] :: _ =>
    if name == "crate" || name == "self" || name == "super" then skip 1
  | .group .paren (.word "in" :: _) :: _ =>
    within .paren do
      word "in"
      discard plainPath
  | _ => pure ()
  return true

/-! ## Functions -/

/-- Qualifiers of a function up to `fn`. `safe` says whether that word is one of them. -/
def signatureStart (safe : Bool) : Reader Unit := do
  let _ ← word? "const"
  let _ ← word? "async"
  if !(safe && (← word? "safe")) then discard <| word? "unsafe"
  abi?

def signatureFollows (safe : Bool) : Reader Bool := do
  let found ← ahead do
    signatureStart safe
    require (Look.word "fn")
  return found.isSome

def receiver : Reader Unit := do
  let reference ← op? "&"
  if reference then
    if ← look Look.lifetime then lifetime
  let _ ← word? "mut"
  word "self"
  if !reference then
    if ← op? ":" then discard <| g.type true

/-- One argument of a function: `true` if it is `self`, `none` if it is the dots of a variable list. -/
def fnArgument : Reader (Option Bool) := do
  if (← attempt (receiver g)).isSome then return some true
  if ← look fun ts => Look.ident ts && Look.second (Look.op "<") ts then
    let _ ← g.type true
    return some false
  let _ ← g.pattern
  op ":"
  if ← op? "..." then return none
  let _ ← g.type true
  return some false

/-- The arguments of a function; only the first may be `self`. -/
def fnArguments : Reader Unit := within .paren do
  let isSelf ← repeated do
    if ← look Look.atEnd then return .done
    let _ ← outerAttributes g
    let argument ← if ← op? "..." then pure none else fnArgument g
    match argument with
    | none =>
      if !(← look Look.atEnd) then op ","
      return .last false
    | some isSelf =>
      if ← look Look.atEnd then return .last isSelf
      op ","
      return .next isSelf
  if (isSelf.drop 1).any id then failure

def signature (safe : Bool) : Reader Unit := do
  signatureStart safe
  word "fn"
  let _ ← ident
  let _ ← generics g
  beforeWhere g do
    fnArguments g
    if ← op? "->" then discard <| g.type true

/-- A function and its body: the inner attributes of the body, if there is one. -/
def function : Reader (Option (List Attribute)) := do
  let (_, before) ← collecting (signature g false)
  if ← op? ";" then
    noteAll before
    return none
  return some (← attributedBlock g before)

/-! ## Types of items -/

/-- What stands between `type Name` and its semicolon: whether it has bounds, and whether it has a
definition. -/
def typeAlias (whereFirst whereLast : Bool) : Reader (Bool × Bool) := do
  word "type"
  let _ ← ident
  let _ ← generics g
  let ((bounded, clause, defined), before) ← collecting do
    let bounded ← op? ":"
    if bounded then
      let stop := fun ts => Look.word "where" ts || Look.op "=" ts || Look.op ";" ts
      let _ ← separated "+" stop (bound g false)
    let clause ← if whereFirst then whereClause? g else pure false
    let defined ← op? "="
    if defined then discard <| g.type true
    return (bounded, clause, defined)
  if whereLast && !clause then discard <| whereClause? g
  noteAll before
  op ";"
  return (bounded, defined)

def plainAlias (whereFirst whereLast : Bool) : Reader Bool := do
  let (bounded, defined) ← typeAlias g whereFirst whereLast
  return defined && !bounded

/-- What stands between `const` and its semicolon: whether it has a value, and whether it has
parameters. -/
def constant : Reader (Bool × Bool) := do
  word "const"
  if !(← word? "_") then discard ident
  let parameters ← generics g
  op ":"
  let _ ← g.type true
  let valued ← op? "="
  if valued then discard <| g.expr true
  let clause ← whereClause? g
  op ";"
  return (valued, parameters || clause)

/-- A macro call as an item: brackets and parentheses need a semicolon. -/
def callItem (named : Bool) : Reader Unit := do
  let _ ← plainPath
  op "!"
  if named then
    if ← look fun ts => Look.ident ts || Look.word "try" ts then skip 1
  if (← anyGroup) != .brace then op ";"

def callItemStart : Look := fun ts =>
  Look.ident ts || Look.oneOf ["self", "super", "crate"] ts || Look.op "::" ts

/-! ## Structures and enumerations -/

def namedField : Reader Field := do
  let attributes ← outerAttributes g
  let _ ← visibility
  let name ← if ← look (Look.word "_") then anyWord else ident
  op ":"
  return ⟨attributes, name, (← g.type true).shape⟩

def namedFields : Reader (List Field) := within .brace (terminated "," (namedField g))

def unnamedFields : Reader Unit := within .paren do
  discard <| terminated "," do
    let _ ← outerAttributes g
    let _ ← visibility
    g.type true

/-- A structure from its keyword on: its name, and its fields if they have names. -/
def structItem : Reader (String × Option (List Field)) := do
  word "struct"
  let name ← ident
  let _ ← generics g
  let clause ← whereClause? g
  if !clause && (← look (Look.group .paren)) then
    beforeWhere g (unnamedFields g)
    op ";"
    return (name, none)
  if ← look (Look.group .brace) then
    return (name, some (← namedFields g))
  op ";"
  return (name, none)

def variant : Reader Variant := do
  let attributes ← outerAttributes g
  let _ ← visibility
  let name ← ident
  if ← look (Look.group .brace) then discard <| namedFields g
  else if ← look (Look.group .paren) then unnamedFields g
  if ← op? "=" then discard <| g.expr true
  return ⟨attributes, name⟩

def enumItem : Reader (String × List Variant) := do
  word "enum"
  let name ← ident
  let _ ← generics g
  let _ ← whereClause? g
  return (name, ← within .brace (terminated "," (variant g)))

/-! ## Traits and implementations -/

/-- A function of a trait or an implementation. Without a body it is documented in a trait only. -/
def method (attributes : List Attribute × List Item) (inTrait : Bool) : Reader Unit := do
  let (body, nested) ← collecting do
    noteAll attributes.2
    function g
  match body with
  | some inner => note (.other (attributes.1 ++ inner) nested)
  | none => if inTrait then note (.other attributes.1 nested)

/-- A member that is no function, kept with the items in the values of its attributes if it is `true`. -/
def plainMember (attributes : List Attribute × List Item) (p : Reader Bool) : Reader Unit := keepingIf do
  noteAll attributes.2
  p

def traitMember : Reader Unit := do
  let attributes ← itemAttributes g
  let visible ← visibility
  let default ← word? "default"
  let plain := !visible && !default
  keepingIf do
    if (← look (Look.word "fn")) || (← signatureFollows false) then method g attributes true
    else if ← look (Look.word "const") then
      plainMember attributes (do return !(← constant g).2)
    else if ← look (Look.word "type") then
      plainMember attributes do
        let _ ← typeAlias g false true
        return true
    else if plain && (← look callItemStart) then
      noteAll attributes.2
      callItem false
    else failure
    return plain

def implMember : Reader Unit := do
  let attributes ← itemAttributes g
  let visible ← visibility
  let default ← look fun ts => Look.word "default" ts && !Look.second (Look.op "!") ts
  if default then skip 1
  if (← look (Look.word "fn")) || (← signatureFollows false) then method g attributes false
  else if ← look (Look.word "const") then
    plainMember attributes do
      let (valued, parametrized) ← constant g
      return valued && !parametrized
  else if ← look (Look.word "type") then plainMember attributes (plainAlias g false true)
  else if !visible && !default && (← look callItemStart) then
    noteAll attributes.2
    callItem false
  else failure

/-- Generic parameters rather than a qualified path follow `impl`. -/
def implParametersFollow : Look := fun ts =>
  let next := Look.second
  Look.op "<" ts &&
    (next (Look.op ">") ts || next (Look.op "#") ts ||
      (next (fun ts => Look.lifetime ts || Look.ident ts) ts &&
        Look.third (fun ts => Look.op ":" ts || Look.op "," ts || Look.op ">" ts || Look.op "=" ts)
          ts) ||
      next (Look.word "const") ts)

/-- The body of a trait, an implementation, a module or a foreign block: inner attributes, which count
as a part of what is before the body, and members. -/
def members (before : List Item) (member : Reader Unit) : Reader (List Attribute) := within .brace do
  let inner ← innerAttributes g
  noteAll before
  let _ ← many (!Look.atEnd ·) member
  return inner

/-- An implementation up to its body: whether it is one that can be documented. -/
def implementationHead : Reader Bool := do
  let visible ← visibility
  let _ ← word? "default"
  let _ ← word? "unsafe"
  word "impl"
  if ← look implParametersFollow then discard <| generics g
  let constant ← look fun ts =>
    Look.word "const" ts || (Look.op "?" ts && Look.second (Look.word "const") ts)
  if constant then
    let _ ← op? "?"
    word "const"
  if ← look fun ts => Look.op "!" ts && !Look.second (Look.group .brace) ts then skip 1
  let ofTrait ← beforeWhere g do
    let first ← g.type true
    if !(← word? "for") then return true
    let _ ← g.type true
    return match first.shape with
      | .named false _ _ _ => true
      | _ => false
  return !visible && !constant && ofTrait

/-- An implementation: its inner attributes, and whether it is one that can be documented. -/
def implementation : Reader (List Attribute × Bool) := do
  let (keep, before) ← collecting (implementationHead g)
  return (← members g before (implMember g), keep)

/-- A trait from its name up to its body, or an alias of bounds; `true` for an alias. -/
def traitHead : Reader Bool := do
  let _ ← ident
  let _ ← generics g
  if ← op? "=" then
    let stop := fun ts => Look.word "where" ts || Look.op ";" ts
    let _ ← beforeWhere g (separated "+" stop (bound g false))
    op ";"
    return true
  let supertraits ← op? ":"
  beforeWhere g do
    if supertraits then
      let stop := fun ts => Look.word "where" ts || Look.group .brace ts
      let _ ← separated "+" stop (bound g false)
  return false

/-- A trait from its name on; `none` for an alias of bounds. -/
def traitRest : Reader (Option (List Attribute)) := do
  let (isAlias, before) ← collecting (traitHead g)
  if isAlias then
    noteAll before
    return none
  return some (← members g before (traitMember g))

/-! ## Foreign blocks -/

def foreignMember : Reader Unit := do
  let attributes ← itemAttributes g
  let visible ← visibility
  if (← look (Look.word "fn")) || (← signatureFollows true) then
    let safe ← look (Look.word "safe")
    plainMember attributes do
      signature g true
      if ← look (Look.group .brace) then
        let _ ← attributedBlock g []
        return false
      op ";"
      return !safe
  else if ← look fun ts => Look.word "static" ts ||
      (Look.oneOf ["unsafe", "safe"] ts && Look.second (Look.word "static") ts) then
    plainMember attributes do
      let unsafety ← look (Look.oneOf ["unsafe", "safe"])
      if unsafety then skip 1
      word "static"
      let _ ← word? "mut"
      let _ ← ident
      op ":"
      let _ ← g.type true
      let valued ← op? "="
      if valued then discard <| g.expr true
      op ";"
      return !unsafety && !valued
  else if ← look (Look.word "type") then
    plainMember attributes do
      let (bounded, defined) ← typeAlias g true true
      return !bounded && !defined
  else if !visible && (← look callItemStart) then
    noteAll attributes.2
    callItem false
  else failure

/-! ## Imports -/

/-- The tree of an import; `false` if it names a crate root inside braces. -/
def useTree (crateRoot : Bool) : Reader Bool := do
  if ← look fun ts => Look.ident ts || Look.oneOf ["self", "super", "crate", "try"] ts then
    skip 1
    if ← op? "::" then g.useTree false
    else
      if ← word? "as" then
        if !(← word? "_") then discard ident
      return true
  else if ← op? "*" then return true
  else
    let plain ← within .brace (terminated "," do
      let rooted ← if crateRoot then op? "::" else pure false
      let inside ← g.useTree (crateRoot && !rooted)
      return inside && !rooted)
    return plain.all id

def useItem : Reader Bool := do
  word "use"
  let leading ← op? "::"
  let plain ← g.useTree (!leading)
  op ";"
  return plain

/-! ## Items -/

/-- A `static`: `true` if it has a type and a value. -/
def staticItem : Reader Bool := do
  word "static"
  let _ ← word? "mut"
  let _ ← ident
  let typed ← op? ":"
  if typed then discard <| g.type true
  if typed && (← op? ";") then return false
  op "="
  let _ ← g.expr true
  op ";"
  return typed

/-- The readers for the items that may be documented, by what they begin with. The result is `none`
for an item whose documentation is not read. -/
def documentable (attributes : List Attribute) : Reader (Option (List Item → Item)) := do
  let plain (keep : Bool) : Option (List Item → Item) :=
    if keep then some (.other attributes) else none
  let start := (← get).rest
  let visible ← visibility
  let ts := (← get).rest
  if Look.word "fn" ts || (← signatureFollows false) then
    return (← function g).map fun inner => .other (attributes ++ inner)
  else if Look.word "use" ts then return plain (← useItem g)
  else if Look.word "static" ts then return plain (← staticItem g)
  else if Look.word "const" ts then
    let (valued, parametrized) ← constant g
    return plain (valued && !parametrized)
  else if Look.word "type" ts then return plain (← plainAlias g true false)
  else if Look.word "struct" ts then
    let (name, fields) ← structItem g
    return some (.struct attributes name fields)
  else if Look.word "enum" ts then
    let (name, variants) ← enumItem g
    return some (.enum attributes name variants)
  else if Look.word "union" ts && Look.second Look.ident ts then
    skip 2
    let _ ← generics g
    let _ ← whereClause? g
    let _ ← namedFields g
    return plain true
  else if Look.word "mod" ts || (Look.word "unsafe" ts && Look.second (Look.word "mod") ts) then
    let _ ← word? "unsafe"
    word "mod"
    if !(← word? "try") then discard ident
    if ← op? ";" then return some (.inlineModule attributes)
    let inner ← members g [] do note (← g.item (← itemAttributes g))
    return some (.inlineModule (attributes ++ inner))
  else if Look.word "trait" ts || (Look.word "auto" ts && Look.second (Look.word "trait") ts) ||
      (Look.word "unsafe" ts && Look.second (fun ts => Look.word "trait" ts ||
        (Look.word "auto" ts && Look.second (Look.word "trait") ts)) ts) then
    let _ ← word? "unsafe"
    let _ ← word? "auto"
    word "trait"
    match ← traitRest g with
    | some inner => return some (.other (attributes ++ inner))
    | none =>
      if !Look.word "trait" ts then failure
      return some .undocumented
  else if Look.word "impl" ts || (Look.word "unsafe" ts && Look.second (Look.word "impl") ts) ||
      (Look.word "default" ts && !Look.second (Look.op "!") ts) then
    set { ← get with rest := start }
    let (inner, keep) ← implementation g
    return if keep then some (.other (attributes ++ inner)) else none
  else if Look.word "macro" ts then
    skip 1
    let _ ← ident
    if ← look (Look.group .paren) then skip 1
    require (Look.group .brace)
    skip 1
    return none
  else if Look.word "extern" ts && Look.second (Look.word "crate") ts then
    externCrate
    return some .undocumented
  else if !visible && (Look.word "extern" ts ||
      (Look.word "unsafe" ts && Look.second (Look.word "extern") ts)) then
    let _ ← word? "unsafe"
    abi?
    let _ ← members g [] (foreignMember g)
    return some .undocumented
  else if !visible && callItemStart ts then
    callItem true
    return plain true
  else failure
where
  externCrate : Reader Unit := do
    skip 2
    if !(← word? "self") then discard ident
    if ← word? "as" then
      if !(← word? "_") then discard ident
    op ";"

def item (attributes : List Attribute × List Item) : Reader Item := do
  let (build, nested) ← collecting do
    noteAll attributes.2
    documentable g attributes.1
  return match build with
    | some build => build nested
    | none => .undocumented []

end ApiDocs.Source.Rules
