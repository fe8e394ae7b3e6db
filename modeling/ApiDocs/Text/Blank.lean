/-!
# Blank characters

White space in the sense of the Unicode property White_Space, trimming, and the cutting of a text
into words and parts. The functions work on lists of characters; `trim` and its companions on
strings are what the rest of the library calls.
-/

namespace ApiDocs.Text

/-- The characters with the property White_Space. -/
def isBlank (c : Char) : Bool :=
  let n := c.toNat
  (9 ≤ n && n ≤ 13) || n == 0x20 || n == 0x85 || n == 0xA0 || n == 0x1680 ||
    (0x2000 ≤ n && n ≤ 0x200A) || n == 0x2028 || n == 0x2029 || n == 0x202F || n == 0x205F ||
    n == 0x3000

/-! ## Trimming -/

def dropBlank (cs : List Char) : List Char := cs.dropWhile isBlank

def trimChars (cs : List Char) : List Char :=
  (dropBlank (dropBlank cs).reverse).reverse

def trim (s : String) : String := String.ofList (trimChars s.toList)

def isBlankText (s : String) : Bool := s.toList.all isBlank

def firstWord (s : String) : String :=
  String.ofList ((dropBlank s.toList).takeWhile fun c => !isBlank c)

/-! ## Parts between separators -/

/-- The parts of a text between the characters that satisfy `p`, one more than there are such
characters. -/
def partsBy (p : Char → Bool) : List Char → List (List Char)
  | [] => [[]]
  | c :: cs =>
    if p c then [] :: partsBy p cs
    else match partsBy p cs with
      | [] => [[c]]
      | w :: ws => (c :: w) :: ws

def parts (sep : Char) (s : String) : List String :=
  (partsBy (· == sep) s.toList).map String.ofList

def cutChars (sep : Char) : List Char → Option (List Char × List Char)
  | [] => none
  | c :: cs => if c == sep then some ([], cs) else (cutChars sep cs).map fun ab => (c :: ab.1, ab.2)

def cut (sep : Char) (s : String) : Option (String × String) :=
  (cutChars sep s.toList).map fun ab => (String.ofList ab.1, String.ofList ab.2)

/-- The trimmed items of a comma separated list that are not blank. -/
def commaItems (s : String) : List String :=
  ((parts ',' s).map trim).filter fun item => !item.isEmpty

/-! ## ASCII letters -/

def isLetter (c : Char) : Bool := ('a' ≤ c && c ≤ 'z') || ('A' ≤ c && c ≤ 'Z')

def lowerAscii (c : Char) : Char := if 'A' ≤ c ∧ c ≤ 'Z' then Char.ofNat (c.toNat + 32) else c

def upperAscii (c : Char) : Char := if 'a' ≤ c ∧ c ≤ 'z' then Char.ofNat (c.toNat - 32) else c

/-- Equality up to the case of ASCII letters. -/
def sameIgnoringCase (a b : String) : Bool := a.toList.map lowerAscii == b.toList.map lowerAscii

end ApiDocs.Text
