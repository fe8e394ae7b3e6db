import ApiDocs.Source.Lexer
import ApiDocs.Source.Grammar.Items

/-!
# Reading source text

The grammar is tied into a knot that is as deep as the tokens can need. Every call of one reader by
another uses up one level, and between two tokens there are only a few such calls.
-/

namespace ApiDocs.Source

/-- The grammar in which readers call one another at most `depth` deep. -/
def grammar : (depth : Nat) → Grammar
  | 0 => .empty
  | depth + 1 => {
      path := fun exprStyle => Rules.path (grammar depth) exprStyle
      parameter := fun s => Rules.parameter (grammar depth) s
      type := fun plus => Rules.type (grammar depth) plus
      expr := fun structs => Rules.expr (grammar depth) structs
      unary := fun structs => Rules.unary (grammar depth) structs
      binary := fun lhs structs base => Rules.binary (grammar depth) lhs structs base
      statementExpr := fun s => Rules.statementExpr (grammar depth) s
      pattern := fun s => Rules.pattern (grammar depth) s
      statements := fun s => Rules.statements (grammar depth) s
      item := fun attributes => Rules.item (grammar depth) attributes
      useTree := fun crateRoot => Rules.useTree (grammar depth) crateRoot }

def grammarFor (ts : List Token) : Grammar := grammar (4 * Token.weights ts + 16)

def readAll {α : Type} (p : Grammar → Reader α) (ts : List Token) : Option α :=
  match p (grammarFor ts) { rest := ts } with
  | some (a, s) => if s.rest.isEmpty then some a else none
  | none => none

def fileReader (g : Grammar) : Reader File := do
  let (attributes, inValues) ← Reader.collecting (Rules.innerAttributes g)
  let items ← Reader.many (!Look.atEnd ·) do
    g.item (← Rules.itemAttributes g)
  return ⟨attributes, inValues ++ items⟩

def File.parse? (text : String) : Option File :=
  (fileTokens? text).bind (readAll fileReader)

def TypeExpr.parse? (text : String) : Option TypeExpr :=
  ((tokens? text.toList).bind (readAll fun g => g.type true)).map (·.shape)

end ApiDocs.Source
