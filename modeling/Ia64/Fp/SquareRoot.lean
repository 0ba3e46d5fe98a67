import Ia64.Fp.Format

/-! The integer square root of a 128-bit number, by Newton's iteration from a power of two. -/

namespace Ia64.Fp

open BinaryDigits

/-- An intermediate result, if 128 bits hold it. -/
def uint128 (exact : Nat) : Option Nat := if exact < 2 ^ 128 then some exact else none

/-- Improve an estimate of the root until it stops falling. -/
def isqrtLoop (value estimate : Nat) : Option Nat :=
  match uint128 (estimate + value / estimate) with
  | none => none
  | some sum => if sum / 2 < estimate then isqrtLoop value (sum / 2) else some estimate
termination_by estimate

/-- The root of a number and the remainder, unless an intermediate result does not fit. -/
def fpswaIsqrt128 (value : BitVec 128) : Option (Nat × Nat) :=
  if value = 0 then some (0, 0)
  else do
    let high := value.toNat / 2 ^ 64
    let significantBits := if high ≠ 0 then 128 - clz64 high else 64 - clz64 (value.toNat % 2 ^ 64)
    let estimate ← isqrtLoop value.toNat (← uint128 (2 ^ ((significantBits + 1) / 2)))
    let square ← uint128 (estimate * estimate)
    -- The result type has 64 bits.
    return (estimate % 2 ^ 64, value.toNat - square)

theorem root_lt_newton {value estimate : Nat} (positive : 0 < estimate) :
    value < ((estimate + value / estimate) / 2 + 1) * ((estimate + value / estimate) / 2 + 1) := by
  -- The mean of the estimate and its cofactor is at least their geometric mean.
  have cofactor : value < estimate * (value / estimate + 1) := Nat.lt_mul_div_succ value positive
  generalize value / estimate = quotient at cofactor ⊢
  have mean : estimate + (quotient + 1) ≤ 2 * ((estimate + quotient) / 2 + 1) := by omega
  generalize (estimate + quotient) / 2 + 1 = next at mean ⊢
  have square := (four_mul_le_sq_add estimate (quotient + 1)).trans (Nat.pow_le_pow_left mean 2)
  linarith

/-- The loop ends at the root, and every sum fits. -/
theorem isqrtLoop_eq {value estimate : Nat} (nonzero : 0 < value) (positive : 0 < estimate)
    (small : estimate ≤ 2 ^ 64) (above : value < (estimate + 1) * (estimate + 1)) :
    isqrtLoop value estimate = some value.sqrt := by
  -- The estimates fall, so the induction is on the estimate.
  induction estimate using Nat.strong_induction_on with
  | _ estimate ih =>
    have quotient : value / estimate < estimate + 3 := by
      rw [Nat.div_lt_iff_lt_mul positive]
      nlinarith
    have fits : uint128 (estimate + value / estimate) = some (estimate + value / estimate) :=
      if_pos (by omega)
    rw [isqrtLoop, fits]
    by_cases falls : (estimate + value / estimate) / 2 < estimate
    · have next : 0 < (estimate + value / estimate) / 2 := by
        by_contra zero
        have least := Nat.le_add_right estimate (value / estimate)
        have one : estimate = 1 := by omega
        subst one
        rw [Nat.div_one] at zero
        omega
      simp only [if_pos falls]
      exact ih _ falls next (by omega) (root_lt_newton positive)
    · -- The cofactor is no smaller than the estimate, whose square is then within the number.
      have square : estimate * estimate ≤ value := calc
        estimate * estimate ≤ estimate * (value / estimate) := Nat.mul_le_mul_left _ (by omega)
        _ ≤ value := Nat.mul_div_le value estimate
      simp only [if_neg falls]
      rw [Nat.eq_sqrt.mpr ⟨square, above⟩]

/-- Every 128-bit number has its root and remainder computed, and no intermediate result needs more
bits. -/
theorem isqrt128_exact (value : BitVec 128) :
    ∃ root, fpswaIsqrt128 value = some (root, value.toNat - root * root) ∧
    root * root ≤ value.toNat ∧ value.toNat < (root + 1) * (root + 1) ∧ root < 2 ^ 64 := by
  have bound := value.isLt
  have root : value.toNat.sqrt < 2 ^ 64 := Nat.sqrt_lt.mpr (by omega)
  refine ⟨value.toNat.sqrt, ?_, Nat.sqrt_le _, Nat.lt_succ_sqrt _, root⟩
  unfold fpswaIsqrt128
  by_cases zero : value = 0
  · rw [if_pos zero, zero]
    rfl
  · have nonzero : value.toNat ≠ 0 := fun same => zero (BitVec.eq_of_toNat_eq same)
    -- Both ways of counting give the place of the first digit.
    have bits : (if value.toNat / 2 ^ 64 ≠ 0 then 128 - clz64 (value.toNat / 2 ^ 64)
        else 64 - clz64 (value.toNat % 2 ^ 64)) = value.toNat.log2 + 1 := by
      have whole := leadingZeros_add_log2 nonzero bound
      by_cases upper : value.toNat / 2 ^ 64 = 0
      · have lower : leadingZeros 128 value.toNat = 64 + leadingZeros 64 value.toNat :=
          leadingZeros_lower nonzero upper
        rw [if_neg (not_not.mpr upper), clz64, Nat.mod_eq_of_lt (by omega)]
        omega
      · have same : leadingZeros 128 value.toNat = leadingZeros 64 (value.toNat / 2 ^ 64) :=
          leadingZeros_upper upper bound
        rw [if_pos upper, clz64]
        omega
    have digits : value.toNat.log2 < 128 := (Nat.log2_lt nonzero).mpr bound
    have start : 2 ^ ((value.toNat.log2 + 1 + 1) / 2) ≤ 2 ^ 64 :=
      Nat.pow_le_pow_right (by decide) (by omega)
    have above : value.toNat < 2 ^ ((value.toNat.log2 + 1 + 1) / 2) *
        2 ^ ((value.toNat.log2 + 1 + 1) / 2) := by
      rw [← pow_add]
      exact Nat.lt_log2_self.trans_le (Nat.pow_le_pow_right (by decide) (by omega))
    have loop := isqrtLoop_eq (Nat.pos_of_ne_zero nonzero) (Nat.two_pow_pos _) start
      (above.trans_le (Nat.mul_le_mul (Nat.le_succ _) (Nat.le_succ _)))
    have first : uint128 (2 ^ ((value.toNat.log2 + 1 + 1) / 2)) = some _ := if_pos (by omega)
    have last : uint128 (value.toNat.sqrt * value.toNat.sqrt) = some _ :=
      if_pos ((Nat.sqrt_le _).trans_lt bound)
    simp only [if_neg zero, bits, first, loop, last, Option.bind_eq_bind, Option.bind_some,
      Nat.mod_eq_of_lt root]
    rfl

end Ia64.Fp
