/-!
# Documents as data

A `Tree` is what both output formats write: texts, truth values, integers, lists, and objects with
their fields in order.
-/

namespace ApiDocs

inductive Tree where
  | text (value : String)
  | flag (value : Bool)
  | number (value : Int)
  | list (items : List Tree)
  | object (fields : List (String × Tree))
deriving Repr, Inhabited

namespace Tree

def texts (values : List String) : Tree := .list (values.map .text)

/-! ## Fields of an object -/

def field (key : String) (value : Tree) : List (String × Tree) := [(key, value)]

def optional (key : String) (value : Option Tree) : List (String × Tree) :=
  match value with
  | some v => [(key, v)]
  | none => []

def fieldIf (shown : Bool) (key : String) (value : Tree) : List (String × Tree) :=
  if shown then [(key, value)] else []

end Tree

end ApiDocs
