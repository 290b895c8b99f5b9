import Chip8.Fault

/-!
# Extents

How much of something may be asked for.  A number that counts bytes, pixels or samples has to fit a
signed word of sixty-four bits (`Extent.Fits`), and what it counts has to fit into the memory that
can be had (`Extent.claim`).
-/

namespace Chip8

namespace Extent

/-- One more than the greatest number in a signed word of sixty-four bits. -/
def wordLimit : Int := 0x8000000000000000

/-- The number fits a signed word of sixty-four bits. -/
def Fits (n : Int) : Prop := -wordLimit ≤ n ∧ n < wordLimit

instance (n : Int) : Decidable (Fits n) := inferInstanceAs (Decidable (_ ∧ _))

/-- The most bytes that one thing may take. -/
def byteLimit : Int := 0x100000000

/-- Allows a thing of so many bytes, unless their number fits no word or there is no room for
them. -/
def claim (bytes : Int) : Except Fault Unit :=
  if ¬ Fits bytes then .error .badValue
  else if byteLimit < bytes then .error .outOfMemory
  else .ok ()

/-- The number of things that are asked for, a byte each; a negative number asks for none. -/
def count? (n : Int) : Except Fault Nat :=
  if ¬ Fits n then .error .tooLarge
  else (claim n).map fun _ => n.toNat

theorem fits_of_le {n : Int} (h0 : 0 ≤ n) (h : n ≤ byteLimit) : Fits n := by
  rw [byteLimit] at h
  rw [Fits, wordLimit]
  omega

theorem claim_eq_ok {bytes : Int} (h0 : 0 ≤ bytes) (h : bytes ≤ byteLimit) :
    claim bytes = .ok () := by
  rw [claim, if_neg (not_not_intro (fits_of_le h0 h)), if_neg (Int.not_lt.2 h)]

theorem count?_eq_ok {n : Int} (h0 : 0 ≤ n) (h : n ≤ byteLimit) : count? n = .ok n.toNat := by
  rw [count?, if_neg (not_not_intro (fits_of_le h0 h)), claim_eq_ok h0 h]
  rfl

end Extent

end Chip8
