import Ia64.Fp.Raw
import Mathlib.Data.BitVec

/-! Numbers of 256 bits in two halves, as the multiply-add computes with them. -/

namespace Ia64.Fp

open BinaryDigits Rounding

/-- A number of 256 bits. -/
structure Wide where
  high : BitVec 128
  low : BitVec 128
deriving DecidableEq, Repr

namespace Wide

/-- The number of two halves. -/
def toNat (value : Wide) : Nat := value.high.toNat * 2 ^ 128 + value.low.toNat

section

variable (value : Wide)

/-- No digit is set. -/
def isZero : Bool := value.high == 0#128 && value.low == 0#128

/-- Compare two numbers, the high halves first. -/
def compare (left right : Wide) : Ordering :=
  if left.high ≠ right.high then if right.high < left.high then .gt else .lt
  else if left.low ≠ right.low then if right.low < left.low then .gt else .lt
  else .eq

/-- Shift right and tell whether a set bit was dropped. -/
def shiftRight (shift : Nat) : Wide × Bool :=
  if shift = 0 then (value, false)
  else if shift < 128 then
    (⟨value.high >>> shift, value.high <<< (128 - shift) ||| value.low >>> shift⟩,
      value.low &&& (1#128 <<< shift - 1#128) != 0#128)
  else if shift = 128 then (⟨0#128, value.high⟩, value.low != 0#128)
  else if shift < 256 then
    let highShift := shift - 128
    (⟨0#128, value.high >>> highShift⟩, value.low != 0#128 ||
      value.high &&& (1#128 <<< highShift - 1#128) != 0#128)
  else (⟨0#128, 0#128⟩, !value.isZero)

/-- Add, with the carry out of the upper half. -/
def add (left right : Wide) : Wide × Bool :=
  let low := left.low + right.low
  let lowCarry := decide (low < left.low)
  let highSum := left.high + right.high
  let high := highSum + if lowCarry then 1#128 else 0#128
  (⟨high, low⟩, decide (highSum < left.high) || decide (high < highSum))

/-- Subtract with a borrow between the halves. -/
def sub (left right : Wide) : Wide :=
  let borrow := decide (left.low < right.low)
  ⟨left.high - right.high - if borrow then 1#128 else 0#128, left.low - right.low⟩

/-- Subtract one. -/
def decrement : Wide :=
  ⟨if value.low = 0#128 then value.high - 1#128 else value.high, value.low - 1#128⟩

/-- The leading zeros, by the four words of the number. -/
def clz : Nat :=
  if value.high.toNat / 2 ^ 64 ≠ 0 then clz64 (value.high.toNat / 2 ^ 64)
  else if value.high.toNat % 2 ^ 64 ≠ 0 then 64 + clz64 (value.high.toNat % 2 ^ 64)
  else if value.low.toNat / 2 ^ 64 ≠ 0 then 128 + clz64 (value.low.toNat / 2 ^ 64)
  else 192 + clz64 (value.low.toNat % 2 ^ 64)

/-- Shift up, with zeros below. -/
def shiftLeft (shift : Nat) : Wide :=
  if shift = 0 then value
  else if shift < 128
    then ⟨value.high <<< shift ||| value.low >>> (128 - shift), value.low <<< shift⟩
  else if shift = 128 then ⟨value.low, 0#128⟩
  else if shift < 256 then ⟨value.low <<< (shift - 128), 0#128⟩
  else ⟨0#128, 0#128⟩

/-- Shift a number up to the top and take its first 64 digits. -/
def toRaw (exp : Int) (sign fractionalTail : Bool) : RawResult :=
  let normalize := value.clz
  let value := value.shiftLeft normalize
  ⟨sign, exp - normalize, value.high.toNat / 2 ^ 64,
    rawSetFraction (value.high.toNat % 2 ^ 64) (value.low != 0#128 || fractionalTail)⟩

theorem toNat_lt : value.toNat < 2 ^ 256 := by
  have high := value.high.isLt
  have low := value.low.isLt
  unfold toNat
  omega

end

theorem half_ne_zero (half : BitVec 128) : (half != 0#128) = (half.toNat != 0) := by
  rw [Bool.eq_iff_iff, bne_iff_ne, bne_iff_ne, Ne, Ne, ← BitVec.toNat_inj]
  rfl

variable {shift : Nat} {value : Wide}

theorem mask_ne_zero (half : BitVec 128) (few : shift < 128) :
    (half &&& (1#128 <<< shift - 1#128) != 0#128) = (half.toNat % 2 ^ shift != 0) := by
  have unit : (1#128 <<< shift).toNat = 2 ^ shift := by
    rw [BitVec.toNat_shiftLeft, Nat.shiftLeft_eq, show (1#128).toNat = 1 from rfl, one_mul]
    exact Nat.mod_eq_of_lt (Nat.pow_lt_pow_right (by decide) few)
  have mask : (1#128 <<< shift - 1#128).toNat = 2 ^ shift - 1 := by
    rw [BitVec.toNat_sub_of_le, unit]
    · rfl
    · rw [BitVec.le_def, unit]
      exact Nat.one_le_two_pow
  rw [half_ne_zero, BitVec.toNat_and, mask, Nat.and_two_pow_sub_one_eq_mod]

theorem pair_ne_zero (high low width : Nat) :
    (high * 2 ^ width + low != 0) = (low != 0 || high != 0) := by
  rw [Bool.eq_iff_iff, bne_iff_ne, Bool.or_eq_true, bne_iff_ne, bne_iff_ne, Ne, Nat.add_eq_zero_iff,
    Nat.mul_eq_zero]
  have unit : 2 ^ width ≠ 0 := (Nat.two_pow_pos _).ne'
  tauto

/-- A shift divides and tells of a remainder. -/
theorem shiftRight_eq (value : Wide) (shift : Nat) :
    (value.shiftRight shift).1.toNat = value.toNat / 2 ^ shift ∧
      (value.shiftRight shift).2 = (value.toNat % 2 ^ shift != 0) := by
  have lowLt := value.low.isLt
  have highLt := value.high.isLt
  unfold shiftRight
  split_ifs with none inner edge outer
  · simp [none, Nat.mod_one]
  · constructor
    · simp only [toNat, BitVec.toNat_or, BitVec.toNat_ushiftRight, BitVec.toNat_shiftLeft,
        Nat.shiftRight_eq_div_pow, Nat.shiftLeft_eq]
      exact (pair_div inner.le lowLt).symm
    · rw [mask_ne_zero _ inner, toNat, pair_mod inner.le]
  · subst edge
    simp only [toNat, BitVec.toNat_zero, half_ne_zero, zero_mul, zero_add]
    rw [pair_div_lower le_rfl lowLt, pair_mod le_rfl, Nat.sub_self, pow_zero, Nat.div_one,
      Nat.mod_eq_of_lt lowLt]
    exact ⟨rfl, rfl⟩
  · have many : 128 ≤ shift := by omega
    simp only [toNat, BitVec.toNat_zero, BitVec.toNat_ushiftRight, Nat.shiftRight_eq_div_pow,
      zero_mul, zero_add]
    rw [pair_div_lower many lowLt, pair_mod_lower many lowLt, pair_ne_zero, half_ne_zero,
      mask_ne_zero _ (by omega)]
    exact ⟨rfl, rfl⟩
  · -- No bit is left.
    have small : value.toNat < 2 ^ shift :=
      lt_of_lt_of_le value.toNat_lt (Nat.pow_le_pow_right two_pos (by omega))
    rw [Nat.div_eq_of_lt small, Nat.mod_eq_of_lt small, toNat, toNat, pair_ne_zero, ← half_ne_zero,
      ← half_ne_zero, isZero, Bool.not_and, Bool.or_comm]
    simp only [BitVec.toNat_zero, zero_mul, add_zero, bne, and_self]

theorem shiftLeft_eq (bound : value.toNat * 2 ^ shift < 2 ^ 256) (few : shift < 256) :
    (value.shiftLeft shift).toNat = value.toNat * 2 ^ shift := by
  have lowLt := value.low.isLt
  unfold shiftLeft
  split_ifs with none inner edge
  · rw [none, pow_zero, mul_one]
  · simp only [toNat, BitVec.toNat_or, BitVec.toNat_ushiftRight, BitVec.toNat_shiftLeft,
      Nat.shiftRight_eq_div_pow, Nat.shiftLeft_eq]
    exact (pair_mul inner.le bound lowLt).symm
  · subst edge
    rw [toNat, toNat, pair_mul_upper le_rfl bound, Nat.sub_self, pow_zero, mul_one,
      Nat.mod_eq_of_lt lowLt, BitVec.toNat_zero, add_zero]
  · rw [toNat, toNat, pair_mul_upper (by omega) bound, BitVec.toNat_shiftLeft, Nat.shiftLeft_eq,
      BitVec.toNat_zero, add_zero]

theorem compare_eq (left right : Wide) :
    left.compare right = Ord.compare left.toNat right.toNat := by
  have leftLow := left.low.isLt
  have rightLow := right.low.isLt
  unfold compare toNat
  simp only [ne_eq, ← BitVec.toNat_inj, BitVec.lt_def]
  by_cases high : left.high.toNat = right.high.toNat
  · rw [if_neg (not_not.mpr high), high]
    split_ifs with low above
    · rw [low, Nat.compare_eq_eq.mpr rfl]
    · exact (Nat.compare_eq_gt.mpr (by omega)).symm
    · exact (Nat.compare_eq_lt.mpr (by omega)).symm
  · rw [if_pos high]
    split_ifs with above
    · exact (Nat.compare_eq_gt.mpr (by omega)).symm
    · exact (Nat.compare_eq_lt.mpr (by omega)).symm

/-- The leading zeros by words are those of the number. -/
theorem clz_eq (nonzero : value.toNat ≠ 0) : value.clz = leadingZeros 256 value.toNat := by
  have lowLt := value.low.isLt
  have bound := value.toNat_lt
  have words : value.toNat / 2 ^ 128 = value.high.toNat ∧
      value.toNat % 2 ^ 128 = value.low.toNat := by
    unfold toNat
    omega
  generalize value.toNat = number at *
  unfold clz clz64
  rw [← words.1, ← words.2, Nat.div_div_eq_div_mul, show 2 ^ 128 * 2 ^ 64 = 2 ^ 192 from rfl]
  -- Each word that is empty leaves the ones below it.
  by_cases first : number / 2 ^ 192 ≠ 0
  · rw [if_pos first, show leadingZeros 256 number = leadingZeros 64 (number / 2 ^ 192) from
      leadingZeros_upper first bound]
  have fewer : number < 2 ^ 192 := by omega
  rw [if_neg first, show leadingZeros 256 number = 64 + leadingZeros 192 number from
    leadingZeros_lower nonzero (not_not.mp first),
      show number / 2 ^ 128 % 2 ^ 64 = number / 2 ^ 128 by omega]
  by_cases second : number / 2 ^ 128 ≠ 0
  · rw [if_pos second, show leadingZeros 192 number = leadingZeros 64 (number / 2 ^ 128) from
      leadingZeros_upper second fewer]
  have few : number < 2 ^ 128 := by omega
  rw [if_neg second, show leadingZeros 192 number = 64 + leadingZeros 128 number from
    leadingZeros_lower nonzero (not_not.mp second), Nat.mod_eq_of_lt few]
  by_cases third : number / 2 ^ 64 ≠ 0
  · rw [if_pos third, show leadingZeros 128 number = leadingZeros 64 (number / 2 ^ 64) from
      leadingZeros_upper third few]
    omega
  · rw [if_neg third, show leadingZeros 128 number = 64 + leadingZeros 64 number from
      leadingZeros_lower nonzero (not_not.mp third), Nat.mod_eq_of_lt (by omega : number < 2 ^ 64)]
    omega

theorem add_eq (left right : Wide) :
    (left.add right).1.toNat = (left.toNat + right.toNat) % 2 ^ 256 ∧
      ((left.add right).2 ↔ 2 ^ 256 ≤ left.toNat + right.toNat) := by
  have leftHigh := left.high.isLt
  have leftLow := left.low.isLt
  have rightHigh := right.high.isLt
  have rightLow := right.low.isLt
  simp only [add, toNat, BitVec.lt_def, BitVec.toNat_add, Bool.or_eq_true, decide_eq_true_eq]
  generalize left.high.toNat = a at *
  generalize left.low.toNat = b at *
  generalize right.high.toNat = c at *
  generalize right.low.toNat = d at *
  split_ifs with carry
  · simp only [show (1#128).toNat = 1 from rfl]
    omega
  · simp only [show (0#128).toNat = 0 from rfl]
    omega

theorem sub_eq {left right : Wide} (less : right.toNat ≤ left.toNat) :
    (left.sub right).toNat = left.toNat - right.toNat := by
  have leftHigh := left.high.isLt
  have leftLow := left.low.isLt
  have rightHigh := right.high.isLt
  have rightLow := right.low.isLt
  simp only [sub, toNat, BitVec.lt_def, BitVec.toNat_sub, decide_eq_true_eq] at less ⊢
  split_ifs with borrow
  · simp only [show (1#128).toNat = 1 from rfl]
    omega
  · simp only [show (0#128).toNat = 0 from rfl]
    omega

theorem decrement_eq (nonzero : value.toNat ≠ 0) : value.decrement.toNat = value.toNat - 1 := by
  have highLt := value.high.isLt
  have lowLt := value.low.isLt
  simp only [decrement, toNat, apply_ite BitVec.toNat, BitVec.toNat_sub,
    show (1#128).toNat = 1 from rfl,
    ← BitVec.toNat_inj (y := 0#128), show (0#128).toNat = 0 from rfl] at nonzero ⊢
  split_ifs with empty
  · omega
  · omega

section Denotation

variable {K : Type*} [Field K] [LinearOrder K] [IsStrictOrderedRing K]

/-- The first digits of a number shifted up denote it. -/
theorem toRaw_denotes (sign : Bool) (exp : Int) {value : Wide} {rest : K} {tail : Bool}
    (nonzero : value.toNat ≠ 0) (nonneg : 0 ≤ rest) (below : rest < 1) (sticks : tail ↔ rest ≠ 0)
    (near : rest ≠ 0 → 2 ^ 254 ≤ value.toNat) :
    (value.toRaw exp sign tail).Denotes
      (signed sign (((value.toNat : K) + rest) * 2 ^ (exp - wreBias - 255))) := by
  obtain ⟨-, most⟩ := normalized_bounds nonzero value.toNat_lt
  have places : value.clz < 256 := by
    have whole := leadingZeros_add_log2 nonzero value.toNat_lt
    rw [clz_eq nonzero]
    omega
  have shifted : (value.shiftLeft value.clz).toNat = normalized 256 value.toNat := by
    rw [shiftLeft_eq _ places, clz_eq nonzero]
    · rfl
    · rwa [clz_eq nonzero]
  have denotes :=
    normalized_denotes sign exp (show 1 ≤ 191 by decide) nonzero value.toNat_lt nonneg
      below sticks near
  have scale : exp - wreBias - 63 - ((191 : ℕ) + 1) = exp - wreBias - 255 := by
    push_cast
    ring
  rw [scale, show 64 + (191 + 1) = 256 from rfl, ← shifted, ← clz_eq nonzero] at denotes
  -- The lower half only sticks to the fraction.
  have residue : ∀ top : Wide, Residue.ofFraction (2 ^ 191) (top.toNat % 2 ^ 192) tail =
      rawSetFraction (top.high.toNat % 2 ^ 64) (top.low != 0#128 || tail) := by
    intro top
    have lowLt := top.low.isLt
    have parts : top.toNat % 2 ^ 192 / 2 ^ 128 = top.high.toNat % 2 ^ 64 ∧
        top.toNat % 2 ^ 192 % 2 ^ 128 = top.low.toNat := by
      unfold toNat
      omega
    rw [show 2 ^ 191 = 2 ^ 63 * 2 ^ 128 from rfl,
      ← Residue.ofFraction_split tail (Nat.two_pow_pos 128), parts.1,
      parts.2, half_ne_zero, rawSetFraction]
  have mant : ∀ top : Wide, top.toNat / 2 ^ 192 = top.high.toNat / 2 ^ 64 := by
    intro top
    have lowLt := top.low.isLt
    unfold toNat
    omega
  rw [residue, mant] at denotes
  exact denotes

end Denotation

end Wide

end Ia64.Fp
