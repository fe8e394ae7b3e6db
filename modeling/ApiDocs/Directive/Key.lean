import ApiDocs.Text.Blank
import ApiDocs.Text.Decimal

/-!
# Directives of a comment block

A block is read as one line. A key is `@api`, one or more ASCII letters, decimal digits, blanks and
a colon, where only the letters and the colon have to be there; the value of a directive is the
text between its key and the next one.
-/

namespace ApiDocs

/-- A directive: the letters and the digits of its key, and its trimmed value. -/
structure Directive where
  name : String
  code : String
  value : String
deriving Repr, DecidableEq, Inhabited

namespace Directive

open Text

/-! ## The line of a block -/

/-- Line ends become one blank each, a carriage return with its line feed counting as one. -/
def joinLines : List Char → List Char
  | [] => []
  | '\r' :: '\n' :: cs => ' ' :: joinLines cs
  | c :: cs => (if c = '\n' ∨ c = '\r' then ' ' else c) :: joinLines cs

def normalize (block : String) : String := trim (String.ofList (joinLines block.toList))

/-! ## Keys -/

structure Key where
  letters : List Char
  digits : List Char
deriving Repr, DecidableEq

def Key.read? : List Char → Option (Key × List Char)
  | '@' :: 'a' :: 'p' :: 'i' :: cs =>
    let letters := cs.takeWhile isLetter
    let afterLetters := cs.dropWhile isLetter
    let digits := afterLetters.takeWhile isDecimal
    match dropBlank (afterLetters.dropWhile isDecimal) with
    | ':' :: rest => if letters.isEmpty then none else some (⟨letters, digits⟩, rest)
    | _ => none
  | _ => none

theorem length_dropWhile_le {α : Type u} (p : α → Bool) (l : List α) :
    (l.dropWhile p).length ≤ l.length := (List.dropWhile_suffix p).length_le

theorem Key.length_lt_of_read? {cs rest : List Char} {k : Key} (h : Key.read? cs = some (k, rest)) :
    rest.length < cs.length := by
  unfold Key.read? at h
  split at h
  · rename_i cs
    simp only at h
    split at h
    · rename_i r hr
      split at h
      · simp at h
      · simp only [Option.some.injEq, Prod.mk.injEq] at h
        obtain ⟨-, rfl⟩ := h
        have h₁ := length_dropWhile_le isLetter cs
        have h₂ := length_dropWhile_le isDecimal (cs.dropWhile isLetter)
        have h₃ := length_dropWhile_le isBlank ((cs.dropWhile isLetter).dropWhile isDecimal)
        rw [show (dropBlank ((cs.dropWhile isLetter).dropWhile isDecimal)) =
          (((cs.dropWhile isLetter).dropWhile isDecimal).dropWhile isBlank) from rfl] at hr
        rw [hr] at h₃
        simp only [List.length_cons] at h₃ ⊢
        omega
    · simp at h
  · simp at h

/-! ## Splitting at the keys -/

/-- The text before the first key, and each key with the text that follows it. -/
structure Pieces where
  lead : List Char
  keyed : List (Key × List Char)
deriving Repr, DecidableEq

def pieces : List Char → Pieces
  | [] => ⟨[], []⟩
  | c :: cs =>
    match _h : Key.read? (c :: cs) with
    | some (k, rest) =>
      let next := pieces rest
      ⟨[], (k, next.lead) :: next.keyed⟩
    | none =>
      let next := pieces cs
      ⟨c :: next.lead, next.keyed⟩
termination_by cs => cs.length
decreasing_by
  · exact Key.length_lt_of_read? _h
  · simp

def ofPiece (piece : Key × List Char) : Directive where
  name := String.ofList piece.1.letters
  code := String.ofList piece.1.digits
  value := String.ofList (trimChars piece.2)

def ofBlock (block : String) : List Directive :=
  (pieces (normalize block).toList).keyed.map ofPiece

end Directive

end ApiDocs
