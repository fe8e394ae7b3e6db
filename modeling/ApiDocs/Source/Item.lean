import ApiDocs.Source.Token
import ApiDocs.Text.Blank

/-!
# Items of Rust source

The outline of a source file: its items with their attributes, what stands inside them, the fields
of structures and the variants of enumerations.
-/

namespace ApiDocs.Source

/-! ## Attributes -/

inductive AttributeBody where
  | bare
  /-- Tokens in brackets. -/
  | list (body : List Token)
  /-- `= "value"` -/
  | text (value : String)
  /-- `=` and an expression that is no text. -/
  | value
deriving Repr

structure Attribute where
  /-- `#![…]` and `//!`, which belong to what encloses them. -/
  inner : Bool
  /-- The name, if it is a single identifier. -/
  name : Option String
  body : AttributeBody
deriving Repr

namespace Attribute

def doc? (a : Attribute) : Option String :=
  if a.name = some "doc" then
    match a.body with
    | .text value => some value
    | _ => none
  else none

/-- The lines of the documentation of one style, joined; `none` if there is no line. -/
def docText (inner : Bool) (attributes : List Attribute) : Option String :=
  match (attributes.filter (·.inner == inner)).filterMap doc? with
  | [] => none
  | lines => some ("\n".intercalate lines)

/-- The documentation blocks of an item, the inner one first; blank ones are left out. -/
def docBlocks (attributes : List Attribute) : List String :=
  [docText true attributes, docText false attributes].filterMap fun block =>
    block.filter fun text => !Text.isBlankText text

end Attribute

/-! ## Types -/

/-- The shape of a type as far as a schema can see it. -/
inductive TypeExpr where
  | reference (inner : TypeExpr)
  | paren (inner : TypeExpr)
  | slice (element : TypeExpr)
  | array (element : TypeExpr)
  /-- A path type, seen by its last segment: whether it has a qualified self, the identifier,
  whether a list of arguments follows, and the types among those arguments. -/
  | named (qualified : Bool) (name : String) (hasArguments : Bool) (typeArguments : List TypeExpr)
  | other
deriving Repr

/-! ## Items -/

structure Field where
  attributes : List Attribute
  name : String
  type : TypeExpr
deriving Repr

structure Variant where
  attributes : List Attribute
  name : String
deriving Repr

inductive Item where
  /-- `fields` is `none` unless the fields have names. `nested` are the items in expressions. -/
  | struct (attributes : List Attribute) (name : String) (fields : Option (List Field))
      (nested : List Item)
  | enum (attributes : List Attribute) (name : String) (variants : List Variant)
      (nested : List Item)
  | inlineModule (attributes : List Attribute) (items : List Item)
  /-- Any other item that can be documented, functions of implementations and traits included. -/
  | other (attributes : List Attribute) (nested : List Item)
  /-- An item whose own documentation is not read. -/
  | undocumented (nested : List Item)
deriving Repr

namespace Item

mutual
def docBlocks : Item → List String
  | struct attributes _ _ nested => Attribute.docBlocks attributes ++ blocksOf nested
  | enum attributes _ _ nested => Attribute.docBlocks attributes ++ blocksOf nested
  | inlineModule attributes items => Attribute.docBlocks attributes ++ blocksOf items
  | other attributes nested => Attribute.docBlocks attributes ++ blocksOf nested
  | undocumented nested => blocksOf nested
def blocksOf : List Item → List String
  | [] => []
  | i :: is => i.docBlocks ++ blocksOf is
end

end Item

structure File where
  attributes : List Attribute
  items : List Item
deriving Repr

def File.docBlocks (f : File) : List String :=
  Attribute.docBlocks f.attributes ++ Item.blocksOf f.items

end ApiDocs.Source
