/-!
# Tokens of YAML
-/

namespace ApiDocs.Yaml

inductive ScalarStyle where
  | plain
  | quoted
  | literal
  | folded
deriving Repr, DecidableEq

inductive Token where
  | version (major minor : Nat)
  /-- A handle for the tags of a document, and what it is short for. -/
  | tagHandle (handle expansion : String)
  | documentStart
  | documentEnd
  | blockSequence
  | blockMapping
  /-- The end of the innermost block. -/
  | blockEnd
  | flowSequence
  | flowSequenceEnd
  | flowMapping
  | flowMappingEnd
  /-- The dash of an item. -/
  | item
  | comma
  | key
  | value
  | alias (name : String)
  | anchor (name : String)
  | tag (handle suffix : String)
  | scalar (style : ScalarStyle) (text : String)
deriving Repr, DecidableEq

end ApiDocs.Yaml
