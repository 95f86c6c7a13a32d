import Mathlib.Data.Nat.Bitwise

namespace Winex.Words

open BitVec

/-!
# Rounding machine words with masks

C code rounds a word down to a multiple of a power of two by clearing its low bits with
a mask.
-/

variable {w : Nat}

/-- The mask of the `k` low bits. -/
def lowMask (w k : Nat) : BitVec w :=
  BitVec.ofNat w (2 ^ k - 1)

variable (word : BitVec w)

theorem and_not_lowMask (k : Nat) : word &&& ~~~lowMask w k = (word >>> k) <<< k := by
  apply eq_of_getLsbD_eq
  intro i inside
  simp only [lowMask, getLsbD_and, getLsbD_not, getLsbD_ofNat,
    Nat.testBit_two_pow_sub_one, getLsbD_shiftLeft, getLsbD_ushiftRight, inside]
  by_cases low : i < k
  · simp [low]
  · simp [low, show k + (i - k) = i by omega]

theorem toNat_shiftRight_shiftLeft (k : Nat) :
    ((word >>> k) <<< k).toNat = 2 ^ k * (word.toNat / 2 ^ k) := by
  rw [toNat_shiftLeft, toNat_ushiftRight,
    Nat.shiftRight_eq_div_pow, Nat.shiftLeft_eq, Nat.mul_comm]
  exact Nat.mod_eq_of_lt (lt_of_le_of_lt (Nat.mul_div_le _ _) word.isLt)

theorem toNat_and_not_lowMask (k : Nat) :
    (word &&& ~~~lowMask w k).toNat = 2 ^ k * (word.toNat / 2 ^ k) := by
  rw [and_not_lowMask, toNat_shiftRight_shiftLeft]

theorem toNat_and_lowMask {k : Nat} (fits : k ≤ w) :
    (word &&& lowMask w k).toNat = word.toNat % 2 ^ k := by
  have small : 2 ^ k - 1 < 2 ^ w :=
    lt_of_lt_of_le (Nat.sub_one_lt (Nat.two_pow_pos k).ne') (Nat.pow_le_pow_right (by decide) fits)
  rw [toNat_and, lowMask, toNat_ofNat,
    Nat.mod_eq_of_lt small, Nat.and_two_pow_sub_one_eq_mod]

end Winex.Words
