/-!
# Scalar values

A character is a number below 0x110000 that is no surrogate.
-/

namespace LarkCheck.Source

/-- The character with this number, if it has one. -/
def scalar? (n : Nat) : Option Char :=
  if h : n.isValidChar then some (Char.ofNatAux n h) else none

theorem toNat_of_scalar? {n : Nat} {c : Char} (h : scalar? n = some c) : c.toNat = n := by
  unfold scalar? at h
  by_cases hn : n.isValidChar
  · rw [dif_pos hn] at h
    cases h
    rfl
  · rw [dif_neg hn] at h
    cases h

theorem scalar?_toNat (c : Char) : scalar? c.toNat = some c := by
  have h : c.toNat.isValidChar := c.valid
  unfold scalar?
  rw [dif_pos h]
  rfl

end LarkCheck.Source
