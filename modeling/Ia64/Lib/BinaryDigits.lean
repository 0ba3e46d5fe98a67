import Mathlib.Algebra.Order.Field.Power
import Mathlib.Data.Nat.Log
import Mathlib.Tactic.FieldSimp
import Mathlib.Tactic.Linarith
import Mathlib.Tactic.Positivity
import Mathlib.Tactic.Ring

/-! Binary digits of numbers: leading zeros, and digits with a power of two as their scale. -/

namespace BinaryDigits

/-- The number of zeros before the first digit of a number of the given width. -/
def leadingZeros (width digits : ℕ) : ℕ := if digits = 0 then width else width - 1 - digits.log2

/-- The digits of a number shifted up to its width. -/
def normalized (width digits : ℕ) : ℕ := digits * 2 ^ leadingZeros width digits

section Normal

variable {width digits : ℕ}

theorem leadingZeros_add_log2 (nonzero : digits ≠ 0) (bound : digits < 2 ^ width) :
    leadingZeros width digits + digits.log2 + 1 = width := by
  have inside : digits.log2 < width := (Nat.log2_lt nonzero).mpr bound
  rw [leadingZeros, if_neg nonzero]
  omega

theorem normalized_bounds (nonzero : digits ≠ 0) (bound : digits < 2 ^ width) :
    2 ^ (width - 1) ≤ normalized width digits ∧ normalized width digits < 2 ^ width := by
  have position := leadingZeros_add_log2 nonzero bound
  have least := Nat.log2_self_le nonzero
  have most := Nat.lt_log2_self (n := digits)
  have top : width - 1 = digits.log2 + leadingZeros width digits := by omega
  have all : width = digits.log2 + 1 + leadingZeros width digits := by omega
  constructor
  · rw [top, pow_add]
    exact Nat.mul_le_mul_right _ least
  · conv_rhs => rw [all, pow_add]
    exact Nat.mul_lt_mul_of_pos_right most (Nat.two_pow_pos _)

theorem normalized_eq_zero_iff : normalized width digits = 0 ↔ digits = 0 := by
  simp [normalized]

/-- The leading zeros with digits in an upper word. -/
theorem leadingZeros_upper {lower : ℕ} (upper : digits / 2 ^ lower ≠ 0)
    (bound : digits < 2 ^ (width + lower)) :
    leadingZeros (width + lower) digits = leadingZeros width (digits / 2 ^ lower) := by
  have nonzero : digits ≠ 0 := fun zero => upper (by rw [zero, Nat.zero_div])
  have small : digits / 2 ^ lower < 2 ^ width := by
    rw [Nat.div_lt_iff_lt_mul (Nat.two_pow_pos _), ← pow_add]
    exact bound
  -- The first digit is the same, as many places higher as the lower word has.
  have place : digits.log2 = (digits / 2 ^ lower).log2 + lower := by
    rw [Nat.log2_eq_iff nonzero]
    have least := Nat.log2_self_le upper
    have most := Nat.lt_log2_self (n := digits / 2 ^ lower)
    rw [Nat.le_div_iff_mul_le (Nat.two_pow_pos _), ← pow_add] at least
    rw [Nat.div_lt_iff_lt_mul (Nat.two_pow_pos _), ← pow_add] at most
    refine ⟨least, ?_⟩
    rwa [Nat.add_right_comm]
  have whole := leadingZeros_add_log2 nonzero bound
  have part := leadingZeros_add_log2 upper small
  omega

theorem leadingZeros_lower {lower : ℕ} (nonzero : digits ≠ 0) (empty : digits / 2 ^ lower = 0) :
    leadingZeros (width + lower) digits = width + leadingZeros lower digits := by
  have small : digits < 2 ^ lower :=
    (Nat.div_eq_zero_iff.mp empty).resolve_left (Nat.two_pow_pos _).ne'
  have wide : digits < 2 ^ (width + lower) :=
    lt_of_lt_of_le small (Nat.pow_le_pow_right two_pos (Nat.le_add_left _ _))
  have whole := leadingZeros_add_log2 nonzero wide
  have part := leadingZeros_add_log2 nonzero small
  omega

end Normal

section Pairs

variable {width shift high low : ℕ}

/-- Dropping digits of the lower of two words. -/
theorem pair_div (few : shift ≤ width) (lowLt : low < 2 ^ width) :
    (high * 2 ^ width + low) / 2 ^ shift =
      high / 2 ^ shift * 2 ^ width + (high * 2 ^ (width - shift) % 2 ^ width |||
        low / 2 ^ shift) := by
  have whole : 2 ^ width = 2 ^ shift * 2 ^ (width - shift) := by
    rw [← pow_add, Nat.add_sub_cancel' few]
  have lower : low / 2 ^ shift < 2 ^ (width - shift) := by
    rw [Nat.div_lt_iff_lt_mul (Nat.two_pow_pos _), mul_comm, ← whole]
    exact lowLt
  -- The digits that move down from the upper word end where those of the lower one begin.
  have apart : high * 2 ^ (width - shift) % 2 ^ width ||| low / 2 ^ shift =
      2 ^ (width - shift) * (high % 2 ^ shift) + low / 2 ^ shift := by
    rw [whole, Nat.mul_mod_mul_right, mul_comm, Nat.two_pow_add_eq_or_of_lt lower]
  rw [apart, whole, show high * (2 ^ shift * 2 ^ (width - shift)) + low =
    low + high * 2 ^ (width - shift) *
      2 ^ shift by ring, Nat.add_mul_div_right _ _ (Nat.two_pow_pos _)]
  nth_rewrite 1 [← Nat.div_add_mod high (2 ^ shift)]
  ring

theorem pair_div_lower (many : width ≤ shift) (lowLt : low < 2 ^ width) :
    (high * 2 ^ width + low) / 2 ^ shift = high / 2 ^ (shift - width) := by
  rw [← Nat.add_sub_cancel' many, pow_add, ← Nat.div_div_eq_div_mul,
    Nat.add_sub_cancel_left, add_comm,
    Nat.add_mul_div_right _ _ (Nat.two_pow_pos _), Nat.div_eq_of_lt lowLt, zero_add]

theorem pair_mod (few : shift ≤ width) :
    (high * 2 ^ width + low) % 2 ^ shift = low % 2 ^ shift := by
  rw [← Nat.add_sub_cancel' few, pow_add, show high * (2 ^ shift * 2 ^ (width - shift)) + low =
    low + 2 ^ shift * (high * 2 ^ (width - shift)) by ring, Nat.add_mul_mod_self_left]

theorem pair_mod_lower (many : width ≤ shift) (lowLt : low < 2 ^ width) :
    (high * 2 ^ width + low) % 2 ^ shift = high % 2 ^ (shift - width) * 2 ^ width + low := by
  rw [← Nat.add_sub_cancel' many, pow_add, Nat.mod_mul, Nat.add_sub_cancel_left,
    add_comm (high * _),
    Nat.add_mul_mod_self_right, Nat.mod_eq_of_lt lowLt,
      Nat.add_mul_div_right _ _ (Nat.two_pow_pos _),
    Nat.div_eq_of_lt lowLt, zero_add]
  ring

/-- Shifting two words up. -/
theorem pair_mul (few : shift ≤ width)
    (bound : (high * 2 ^ width + low) * 2 ^ shift < 2 ^ (width + width)) (lowLt : low < 2 ^ width) :
    (high * 2 ^ width + low) * 2 ^ shift =
      (high * 2 ^ shift % 2 ^ width ||| low / 2 ^ (width - shift)) * 2 ^ width + low * 2 ^ shift %
        2 ^ width := by
  have whole : 2 ^ width = 2 ^ (width - shift) * 2 ^ shift := by
    rw [← pow_add, Nat.sub_add_cancel few]
  have upper : low / 2 ^ (width - shift) < 2 ^ shift := by
    rw [Nat.div_lt_iff_lt_mul (Nat.two_pow_pos _), mul_comm, ← whole]
    exact lowLt
  -- No digit of the upper word is lost.
  have fits : high * 2 ^ shift < 2 ^ width := by
    refine lt_of_mul_lt_mul_right ?_ (Nat.zero_le (2 ^ width))
    rw [← pow_add]
    refine lt_of_le_of_lt ?_ bound
    rw [mul_right_comm]
    exact Nat.mul_le_mul_right _ (Nat.le_add_right _ _)
  rw [Nat.mod_eq_of_lt fits, mul_comm high (2 ^ shift), ← Nat.two_pow_add_eq_or_of_lt upper, whole,
    Nat.mul_mod_mul_right]
  conv_lhs => rw [← Nat.div_add_mod low (2 ^ (width - shift))]
  ring

/-- Shifting two words up by at least a word. -/
theorem pair_mul_upper (many : width ≤ shift)
    (bound : (high * 2 ^ width + low) * 2 ^ shift < 2 ^ (width + width)) :
    (high * 2 ^ width + low) * 2 ^ shift = low * 2 ^ (shift - width) % 2 ^ width * 2 ^ width := by
  obtain ⟨extra, rfl⟩ := Nat.exists_eq_add_of_le many
  have none : high = 0 := by
    by_contra some
    have least : 2 ^ (width + width) ≤ high * 2 ^ width * 2 ^ (width + extra) := by
      rw [mul_assoc, ← pow_add]
      refine le_trans (Nat.pow_le_pow_right two_pos (by omega))
        (Nat.le_mul_of_pos_left _ (Nat.pos_of_ne_zero some))
    have most :
        high * 2 ^ width * 2 ^ (width + extra) ≤ (high * 2 ^ width + low) * 2 ^ (width + extra) :=
      Nat.mul_le_mul_right _ (Nat.le_add_right _ _)
    omega
  have fits : low * 2 ^ extra < 2 ^ width := by
    refine lt_of_mul_lt_mul_right ?_ (Nat.zero_le (2 ^ width))
    rw [none, zero_mul, zero_add, pow_add, mul_comm (2 ^ width), ← mul_assoc, pow_add] at bound
    exact bound
  rw [none, Nat.add_sub_cancel_left, Nat.mod_eq_of_lt fits, pow_add]
  ring

end Pairs

section Scales

variable {K : Type*} [Field K] [LinearOrder K] [IsStrictOrderedRing K]

omit [LinearOrder K] [IsStrictOrderedRing K] in
theorem scaled_shift [CharZero K] (digits shift : ℕ) (scale : ℤ) :
    ((digits * 2 ^ shift : ℕ) : K) * 2 ^ (scale - shift) = digits * 2 ^ scale := by
  have two : (2 : K) ≠ 0 := two_ne_zero
  push_cast
  rw [zpow_sub₀ two, zpow_natCast]
  field_simp

/-- The number with the larger scale is larger. -/
theorem scaled_lt_of_scale {width left right : ℕ} {low high : ℤ} (positive : 0 < width)
    (most : left < 2 ^ width) (least : 2 ^ (width - 1) ≤ right) (less : low < high) :
    (left : K) * 2 ^ low < right * 2 ^ high := by
  have two : (2 : K) ≠ 0 := two_ne_zero
  have leftCast : (left : K) < 2 ^ width := by exact_mod_cast most
  have rightCast : (2 : K) ^ (width - 1) ≤ right := by exact_mod_cast least
  have scale : (2 : K) ^ (low + 1) ≤ 2 ^ high := zpow_le_zpow_right₀ one_le_two less
  calc (left : K) * 2 ^ low < 2 ^ width * 2 ^ low := by
        exact mul_lt_mul_of_pos_right leftCast (zpow_pos two_pos low)
    _ = 2 ^ (width - 1) * 2 ^ (low + 1) := by
        obtain ⟨less, rfl⟩ : ∃ n, width = n + 1 := ⟨width - 1, by omega⟩
        rw [zpow_add₀ two, Nat.add_sub_cancel, pow_succ, zpow_one]
        ring
    _ ≤ right * 2 ^ high :=
        mul_le_mul rightCast scale (zpow_pos two_pos _).le (Nat.cast_nonneg right)

theorem scaled_lt_iff {left right : ℕ} {scale : ℤ} :
    (left : K) * 2 ^ scale < right * 2 ^ scale ↔ left < right := by
  rw [mul_lt_mul_iff_left₀ (zpow_pos two_pos scale)]
  exact Nat.cast_lt

end Scales

end BinaryDigits
