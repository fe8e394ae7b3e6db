import ApiDocs.Text.Blank

/-!
# Request methods
-/

namespace ApiDocs

inductive Method where
  | get
  | post
  | put
  | delete
  | patch
  | options
  | head
deriving Repr, DecidableEq

namespace Method

def all : List Method := [get, post, put, delete, patch, options, head]

theorem mem_all (m : Method) : m ∈ all := by cases m <;> decide

def key : Method → String
  | get => "get"
  | post => "post"
  | put => "put"
  | delete => "delete"
  | patch => "patch"
  | options => "options"
  | head => "head"

def display (m : Method) : String := String.ofList (m.key.toList.map Text.upperAscii)

def action : Method → String
  | get => "Get"
  | post => "Create"
  | put => "Replace"
  | delete => "Delete"
  | patch => "Update"
  | options => "Options"
  | head => "Head"

/-- The method that a text spells, blanks around it and case aside. -/
def ofText? (text : String) : Option Method :=
  all.find? fun m => Text.sameIgnoringCase m.key (Text.trim text)

def unsupported (text : String) : String := "unsupported HTTP method: " ++ text

end Method

end ApiDocs
