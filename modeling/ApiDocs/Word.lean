/-!
# Integers of a width

The integers that fit into a number of bits, with a sign, without one, or either way.
-/

namespace ApiDocs.Word

def span (bits : Nat) : Nat := Nat.pow 2 bits

/-- The integer fits with a sign. -/
def Signed (bits : Nat) (n : Int) : Prop := -(span (bits - 1) : Int) ≤ n ∧ n < (span (bits - 1) : Int)

/-- The integer fits without a sign. -/
def Unsigned (bits : Nat) (n : Int) : Prop := 0 ≤ n ∧ n < (span bits : Int)

def Fits (bits : Nat) (n : Int) : Prop := Signed bits n ∨ Unsigned bits n

instance (bits : Nat) (n : Int) : Decidable (Signed bits n) := inferInstanceAs (Decidable (_ ∧ _))

instance (bits : Nat) (n : Int) : Decidable (Unsigned bits n) := inferInstanceAs (Decidable (_ ∧ _))

instance (bits : Nat) (n : Int) : Decidable (Fits bits n) := inferInstanceAs (Decidable (_ ∨ _))

theorem signed_64_iff (n : Int) :
    Signed 64 n ↔ -9223372036854775808 ≤ n ∧ n ≤ 9223372036854775807 := by
  have h : span (64 - 1) = 9223372036854775808 := by decide
  unfold Signed
  rw [h]
  omega

end ApiDocs.Word
