/-!
# Tokens of Rust source

Token trees: brackets come as groups, a lifetime as one token, and a documentation comment as the
attribute it stands for.
-/

namespace ApiDocs.Source

inductive Delimiter where
  | paren
  | bracket
  | brace
deriving Repr, DecidableEq

inductive Literal where
  | text (value : String)
  | integer (spelling : String)
  | float (spelling : String)
  | other
deriving Repr, DecidableEq

namespace Literal

def isNumber : Literal → Bool
  | integer _ | float _ => true
  | _ => false

end Literal

inductive Token where
  /-- Raw identifiers keep their `r#`. -/
  | word (name : String)
  | lifetime (name : String)
  /-- `joint` says that another punctuation character follows at once. -/
  | punct (char : Char) (joint : Bool)
  | literal (value : Literal)
  | group (delimiter : Delimiter) (body : List Token)
deriving Repr

namespace Token

mutual
def weight : Token → Nat
  | .group _ body => weights body + 1
  | _ => 1
def weights : List Token → Nat
  | [] => 0
  | t :: ts => t.weight + weights ts
end

def docComment (inner : Bool) (comment : String) : List Token :=
  [.punct '#' false] ++ (if inner then [.punct '!' false] else []) ++
    [.group .bracket [.word "doc", .punct '=' false, .literal (.text comment)]]

end Token

end ApiDocs.Source
