import ApiDocs.Data.Tree

/-!
# Writing JSON

Two blanks of indentation for each level, one field or item a line, and nothing between the brackets
of what is empty.
-/

namespace ApiDocs.Json

def hexDigit (n : Nat) : Char := if n < 10 then Char.ofNat (n + 48) else Char.ofNat (n + 87)

def letterEscapes : List (Char × Char) := [
  ('"', '"'), ('\\', '\\'), ('\n', 'n'), ('\r', 'r'), ('\t', 't'), (Char.ofNat 8, 'b'), (Char.ofNat 12, 'f')]

def escape (c : Char) : List Char :=
  match letterEscapes.lookup c with
  | some letter => ['\\', letter]
  | none =>
    if c.toNat < 32 then ['\\', 'u', '0', '0', hexDigit (c.toNat / 16), hexDigit (c.toNat % 16)]
    else [c]

def quote (s : String) : List Char := '"' :: s.toList.flatMap escape ++ ['"']

def newline (indent : Nat) : List Char := '\n' :: List.replicate (2 * indent) ' '

mutual
def chars (indent : Nat) : Tree → List Char
  | .text s => quote s
  | .flag b => if b then "true".toList else "false".toList
  | .number n => (toString n).toList
  | .list [] => "[]".toList
  | .list (t :: ts) =>
    '[' :: newline (indent + 1) ++ chars (indent + 1) t ++ restChars (indent + 1) ts ++
      newline indent ++ [']']
  | .object [] => ['{', '}']
  | .object ((k, t) :: fs) =>
    '{' :: newline (indent + 1) ++ quote k ++ [':', ' '] ++ chars (indent + 1) t ++
      fieldChars (indent + 1) fs ++ newline indent ++ ['}']
def restChars (indent : Nat) : List Tree → List Char
  | [] => []
  | t :: ts => ',' :: newline indent ++ chars indent t ++ restChars indent ts
def fieldChars (indent : Nat) : List (String × Tree) → List Char
  | [] => []
  | (k, t) :: fs =>
    ',' :: newline indent ++ quote k ++ [':', ' '] ++ chars indent t ++ fieldChars indent fs
end

def render (t : Tree) : String := String.ofList (chars 0 t)

end ApiDocs.Json
