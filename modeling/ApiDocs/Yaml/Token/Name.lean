import ApiDocs.Yaml.Token
import ApiDocs.Yaml.Token.Scalar

/-!
# Anchors, tags and directives
-/

namespace ApiDocs.Yaml

def takeName (cs : List Cell) : List Char × List Cell :=
  (chars (cs.takeWhile fun c => isNameChar c.char), cs.dropWhile fun c => isNameChar c.char)

/-! ## Anchors -/

def anchorName? (cs : List Cell) : Option (String × List Cell) :=
  let (name, rest) := takeName cs
  let ends := atGap rest ||
    rest.head?.any fun c => ['?', ':', ',', ']', '}', '%', '@', '`'].contains c.char
  if !name.isEmpty && ends then some (String.ofList name, rest) else none

/-! ## Tags -/

def octetCount? (octet : Nat) : Option Nat :=
  if octet < 0x80 then some 1
  else if octet / 32 = 6 then some 2
  else if octet / 16 = 14 then some 3
  else if octet / 8 = 30 then some 4
  else none

def octet? : List Cell → Option (Nat × List Cell)
  | a :: b :: c :: rest => do
    if a.char == '%' then some (16 * (← hexDigit? b.char) + (← hexDigit? c.char), rest) else none
  | _ => none

def laterOctets? : (count : Nat) → List Cell → Option (List Char × List Cell)
  | 0, cs => some ([], cs)
  | count + 1, cs => do
    let (octet, rest) ← octet? cs
    let (more, rest) ← laterOctets? count rest
    if octet / 64 = 2 then some (Char.ofNat octet :: more, rest) else none

def escapedOctets? (cs : List Cell) : Option (List Char × List Cell) := do
  let (octet, rest) ← octet? cs
  let (more, rest) ← laterOctets? ((← octetCount? octet) - 1) rest
  some (Char.ofNat octet :: more, rest)

def isTagChar (verbatim : Bool) (c : Char) : Bool :=
  isNameChar c ||
    [';', '/', '?', ':', '@', '&', '=', '+', '$', '.', '%', '!', '~', '*', '\'', '(', ')'].contains c ||
    (verbatim && [',', '[', ']'].contains c)

/-- The characters of a tag; between angles it may hold more of them. -/
def tagText? (verbatim : Bool) : (fuel : Nat) → List Cell → Option (List Char × List Cell)
  | 0, _ => none
  | _, [] => some ([], [])
  | fuel + 1, c :: rest =>
    if !isTagChar verbatim c.char then some ([], c :: rest)
    else if c.char == '%' then do
      let (octets, rest) ← escapedOctets? (c :: rest)
      (tagText? verbatim fuel rest).map fun r => (octets ++ r.1, r.2)
    else (tagText? verbatim fuel rest).map fun r => (c.char :: r.1, r.2)

/-- The handle at the beginning of a tag with its exclamation marks, or what looks like one. -/
def tagHandle? : List Cell → Option (List Char × List Cell)
  | [] => none
  | c :: rest =>
    if c.char != '!' then none
    else
      let (name, rest) := takeName rest
      if rest.head?.any (fun c => c.char == '!') then some ('!' :: name ++ ['!'], rest.tail)
      else some ('!' :: name, rest)

def isHandle (handle : List Char) : Bool := 2 ≤ handle.length && handle.getLast? == some '!'

/-- A tag after nothing was read of it. A lone exclamation mark has no handle. -/
def tagBody? (fuel : Nat) (cs : List Cell) : Option (Token × List Cell) := do
  if cs.tail.head?.any fun c => c.char == '<' then
    let (text, rest) ← tagText? true fuel (cs.drop 2)
    if !text.isEmpty && rest.head?.any (fun c => c.char == '>') then
      some (.tag "" (String.ofList text), rest.tail)
    else none
  else
    let (handle, rest) ← tagHandle? cs
    let (text, rest) ← tagText? false fuel rest
    if isHandle handle then
      if text.isEmpty then none else some (.tag (String.ofList handle) (String.ofList text), rest)
    else
      let suffix := handle.tail ++ text
      if suffix.isEmpty then some (.tag "" "!", rest)
      else some (.tag "!" (String.ofList suffix), rest)

def tag? (flow : Bool) (fuel : Nat) (cs : List Cell) : Option (Token × List Cell) := do
  let (token, rest) ← tagBody? fuel cs
  if atGap rest || (flow && rest.head?.any fun c => c.char == ',') then some (token, rest) else none

/-! ## Directives -/

/-- A number of at most nine digits. -/
def versionNumber? (cs : List Cell) : Option (Nat × List Cell) :=
  let digits := chars (cs.takeWhile fun c => '0' ≤ c.char && c.char ≤ '9')
  if digits.isEmpty || 9 < digits.length then none
  else some (digits.foldl (fun n c => 10 * n + (c.toNat - '0'.toNat)) 0, cs.drop digits.length)

def versionDirective? (cs : List Cell) : Option (Token × List Cell) := do
  let (major, rest) ← versionNumber? (skipSpaces cs)
  if rest.head?.any fun c => c.char == '.' then
    let (minor, rest) ← versionNumber? rest.tail
    some (.version major minor, rest)
  else none

def tagDirective? (fuel : Nat) (cs : List Cell) : Option (Token × List Cell) := do
  let (handle, rest) ← tagHandle? (skipSpaces cs)
  if (isHandle handle || handle == ['!']) && rest.head?.any (fun c => isSpaceOrTab c.char) then
    let (text, rest) ← tagText? true fuel (skipSpaces rest)
    if !text.isEmpty && atGap rest then
      some (.tagHandle (String.ofList handle) (String.ofList text), rest)
    else none
  else none

/-- A directive after its percent sign, with the line that it ends. -/
def directive? (fuel : Nat) (cs : List Cell) : Option (Token × List Cell) := do
  let (name, rest) := takeName cs
  let (token, rest) ←
    if !atGap rest then none
    else match String.ofList name with
      | "YAML" => versionDirective? rest
      | "TAG" => tagDirective? fuel rest
      | _ => none
  some (token, ← endOfLine? rest)

end ApiDocs.Yaml
