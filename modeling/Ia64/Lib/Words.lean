import Mathlib.Algebra.Order.Ring.Nat
import Mathlib.Tactic.Common

/-! The bits of words: single bits, masks of low bits, and words that are rotated. -/

namespace Words

open BitVec

variable {w count : Nat}

/-- The bits of a single bit. -/
theorem getLsbD_one_shiftLeft {i k : Nat} (inside : k < w) :
    (1#w <<< k).getLsbD i = decide (i = k) := by
  -- Bits below the shift are clear, bits above are those of one.
  rw [getLsbD_shiftLeft, getLsbD_one]
  by_cases here : i = k
  · subst here
    simp [inside, show 0 < w by omega]
  · by_cases above : k < i
    · have nonzero : i - k ≠ 0 := by omega
      simp [here, nonzero]
    · simp [here, show i < k by omega]

/-- The bits of a mask that is written as a number. -/
theorem getLsbD_ones (count i : Nat) :
    (BitVec.ofNat w (2 ^ count - 1)).getLsbD i = decide (i < count ∧ i < w) := by
  rw [getLsbD_ofNat, Nat.testBit_two_pow_sub_one]
  simp [Bool.and_comm]

/-- A mask that is computed from a bit is the number. -/
theorem mask_eq_ones (count : Nat) : (1#w <<< count) - 1#w = BitVec.ofNat w (2 ^ count - 1) := by
  rcases Nat.eq_zero_or_pos w with rfl | positive
  · exact Subsingleton.elim _ _
  · have one := Nat.one_lt_two_pow (show w ≠ 0 by omega)
    have power : 1#w <<< count = BitVec.ofNat w (2 ^ count) := by
      apply eq_of_toNat_eq
      rw [toNat_shiftLeft, toNat_ofNat, Nat.mod_eq_of_lt one, Nat.one_shiftLeft,
        toNat_ofNat]
    rw [power, ofNat_sub_ofNat_of_le _ _ one Nat.one_le_two_pow]

/-- The bits of a mask of low bits. -/
theorem getLsbD_mask (fits : count ≤ w) (i : Nat) :
    ((1#w <<< count) - 1#w).getLsbD i = decide (i < count) := by
  rw [mask_eq_ones, getLsbD_ones]
  exact decide_eq_decide.mpr (by omega)

/-- The lowest bits of a word that is rotated right. -/
theorem getLsbD_rotateRight {value : BitVec w} {shift j : Nat} (fits : count < w)
    (small : shift < count) (inside : j < count)
    (clear : ∀ i, count ≤ i → value.getLsbD i = false) :
    (((value >>> shift) ||| (value <<< (count - shift))) &&& ((1#w <<< count) - 1#w)).getLsbD j =
      value.getLsbD ((j + shift) % count) := by
  simp only [getLsbD_and, getLsbD_or, getLsbD_ushiftRight, getLsbD_shiftLeft,
    getLsbD_mask fits.le]
  by_cases wraps : j + shift < count
  · have kept : j < count - shift := by omega
    simp [inside, kept, Nat.mod_eq_of_lt wraps, show j < w by omega, Nat.add_comm shift j]
  · have kept : ¬j < count - shift := by omega
    have place : (j + shift) % count = j - (count - shift) := by
      rw [show j + shift = j - (count - shift) + count by omega, Nat.add_mod_right,
        Nat.mod_eq_of_lt (by omega)]
    simp [inside, kept, place, clear (shift + j) (by omega), show j < w by omega]

end Words
