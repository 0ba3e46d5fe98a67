import Ia64.Fp.Deliver

/-! The software assist: division of registers that the approximation leaves to it. -/

namespace Ia64.Fp

open BinaryDigits Rounding

/-- A register as the software assist reads it. -/
def fpswaFormat (fmt : RegisterFormat) : SwaFormat :=
  let unnormal := fmt.mant != 0 && !fmt.mant.getLsbD 63
  -- The exponent field is taken as it is, also a zero one.
  if unnormal
    then ⟨fmt.sign, true, fmt.exp.toNat - clz64 fmt.mant.toNat, normalized 64 fmt.mant.toNat⟩
  else ⟨fmt.sign, false, fmt.exp.toNat, fmt.mant.toNat⟩

/-- The exact quotient of two operands that are not zero. -/
def fpswaDivideRaw (num den : SwaFormat) : RawResult :=
  let normalize : Nat := if num.mant < den.mant then 1 else 0
  let dividend := num.mant * 2 ^ (63 + normalize)
  let remainder := dividend % den.mant
  let tail := remainder != 0
  ⟨num.sign ^^ den.sign, wreBias + num.exp - den.exp - normalize, dividend / den.mant % 2 ^ 64,
    ⟨tail, tail && decide (den.mant < 2 * remainder), tail && 2 * remainder == den.mant⟩⟩

section Quotients

variable {K : Type*} [Field K] [LinearOrder K] [IsStrictOrderedRing K]

/-- An operand is normalized, at its exponent field. -/
theorem fpswaFormat_spec {fmt : RegisterFormat} (nonzero : fmt.mant ≠ 0) :
    (fpswaFormat fmt).sign = fmt.sign ∧
      (2 ^ 63 ≤ (fpswaFormat fmt).mant ∧ (fpswaFormat fmt).mant < 2 ^ 64) ∧
      scaled K (fpswaFormat fmt).mant (fpswaFormat fmt).exp =
        scaled K fmt.mant.toNat fmt.exp.toNat := by
  unfold fpswaFormat
  cases top : fmt.mant.getLsbD 63 with
  | true =>
    have least : 2 ^ 63 ≤ fmt.mant.toNat := Nat.ge_two_pow_of_testBit top
    exact ⟨by simp, by simpa using ⟨least, fmt.mant.isLt⟩, by simp⟩
  | false =>
    simp only [nonzero, bne_iff_ne, ne_eq, not_false_eq_true, Bool.not_false,
      Bool.and_true, if_true]
    exact ⟨trivial, normalized_bounds (mant_ne_zero nonzero) fmt.mant.isLt, scaled_normalized _ _⟩

/-- The quotient of two normalized operands is exact. -/
theorem fpswaDivideRaw_denotes {num den : SwaFormat}
    (numBounds : 2 ^ 63 ≤ num.mant ∧ num.mant < 2 ^ 64)
    (denBounds : 2 ^ 63 ≤ den.mant ∧ den.mant < 2 ^ 64) :
    (fpswaDivideRaw num den).Denotes
      (signed (num.sign ^^ den.sign) (scaled K num.mant num.exp / scaled K den.mant den.exp)) := by
  obtain ⟨numLeast, numMost⟩ := numBounds
  obtain ⟨denLeast, denMost⟩ := denBounds
  have positive : 0 < den.mant := by omega
  simp only [fpswaDivideRaw]
  generalize shift : (if num.mant < den.mant then 1 else 0) = normalize
  -- One more digit is taken where the first one would be a zero.
  have bounds : 2 ^ 63 * den.mant ≤ num.mant * 2 ^ (63 + normalize) ∧
      num.mant * 2 ^ (63 + normalize) < 2 ^ 64 * den.mant := by
    split_ifs at shift <;> subst shift <;> omega
  have least : 2 ^ 63 ≤ num.mant * 2 ^ (63 + normalize) / den.mant :=
    (Nat.le_div_iff_mul_le positive).mpr bounds.1
  have most : num.mant * 2 ^ (63 + normalize) / den.mant < 2 ^ 64 :=
    (Nat.div_lt_iff_lt_mul positive).mpr bounds.2
  rw [Nat.mod_eq_of_lt most]
  have below := Nat.mod_lt (num.mant * 2 ^ (63 + normalize)) positive
  have split := Nat.div_add_mod (num.mant * 2 ^ (63 + normalize)) den.mant
  generalize num.mant * 2 ^ (63 + normalize) / den.mant = quotient at *
  generalize num.mant * 2 ^ (63 + normalize) % den.mant = remainder at *
  have described : (Residue.ofFraction den.mant (2 * remainder) false).Describes
      (((2 * remainder : ℕ) + 0) / (2 * den.mant : K)) :=
    Residue.ofFraction_describes positive (by omega) (one_dvd _) (one_dvd _) le_rfl
      (by simp) (by simp)
  -- The code asks for the tail first, then how twice the remainder compares.
  have same : (⟨remainder != 0, remainder != 0 && decide (den.mant < 2 * remainder),
      remainder != 0 && 2 * remainder == den.mant⟩ : Residue) =
        .ofFraction den.mant (2 * remainder) false := by
    rcases Nat.eq_zero_or_pos remainder with rfl | some
    · simp [Residue.ofFraction, positive.ne]
    · have twice : (2 * remainder != 0) := bne_iff_ne.mpr (by omega)
      simp [Residue.ofFraction, bne_iff_ne.mpr some.ne', twice]
  rw [same]
  refine denotes_mk _ least most described ?_
  have unit : (den.mant : K) ≠ 0 := by exact_mod_cast positive.ne'
  have digits : (quotient : K) + ((2 * remainder : ℕ) + 0) / (2 * den.mant : K) =
      num.mant * 2 ^ (63 + normalize) / den.mant := by
    have cast : (den.mant : K) * quotient + remainder = num.mant * 2 ^ (63 + normalize) := by
      exact_mod_cast split
    field_simp
    push_cast
    rw [mul_assoc 2, ← cast]
    ring
  have scale : (2 : K) ^ (wreBias + num.exp - den.exp - normalize - wreBias - 63) =
      2 ^ (num.exp - wreBias - 63) / 2 ^ (den.exp - wreBias - 63) / 2 ^ (63 + normalize) := by
    rw [← zpow_natCast, ← zpow_sub₀ two_ne_zero, ← zpow_sub₀ two_ne_zero]
    congr 1
    push_cast
    ring
  rw [digits, scale, scaled, scaled]
  field_simp

/-- How far the exponent of an operand is from its exponent field. -/
def RegisterFormat.skew (fmt : RegisterFormat) : ℤ := if fmt.exp = 0 then denormalExp else 0

omit [LinearOrder K] [IsStrictOrderedRing K] in
theorem RegisterFormat.magnitude_eq [CharZero K] (fmt : RegisterFormat) :
    fmt.magnitude K = scaled K fmt.mant.toNat fmt.exp.toNat * 2 ^ fmt.skew := by
  rw [RegisterFormat.magnitude, scaled, scaled, mul_assoc, ← zpow_add₀ two_ne_zero]
  congr 2
  rw [operandExp, RegisterFormat.skew]
  split_ifs with denormal
  · simp only [denormal, BitVec.ofNat_eq_ofNat, BitVec.toNat_ofNat, Nat.zero_mod, Nat.cast_zero]
    ring
  · ring

variable [FloorRing K]

/-- A result does not stand for two numbers. -/
theorem RawResult.Denotes.scale_eq_zero {raw : RawResult} {x : K} {k : ℤ} (plain : raw.Denotes x)
    (moved : raw.Denotes (x * 2 ^ k)) (nonzero : x ≠ 0) : k = 0 := by
  have scale : (0 : K) < 2 ^ k := zpow_pos two_pos k
  have least := Int.zpow_log_le_self one_lt_two (abs_pos.mpr nonzero)
  have most := Int.lt_zpow_succ_log_self one_lt_two |x|
  have log : Int.log 2 |x * 2 ^ k| = Int.log 2 |x| + k := by
    rw [abs_mul, abs_of_pos scale]
    refine log_eq ?_ ?_
    · rw [zpow_add₀ two_ne_zero]
      exact mul_le_mul_of_nonneg_right (by exact_mod_cast least) scale.le
    · rw [add_right_comm, zpow_add₀ two_ne_zero]
      exact mul_lt_mul_of_pos_right (by exact_mod_cast most) scale
  have same := plain.log
  rw [moved.log] at log
  omega

end Quotients

/-- The assist divides exactly, unless one exponent field alone is zero: it is read as it is, so the
quotient is then far from that of the operands. -/
theorem fpswaDivideRaw_exact_iff {num den : RegisterFormat} (numerator : num.mant ≠ 0)
    (divisor : den.mant ≠ 0) :
    (fpswaDivideRaw (fpswaFormat num) (fpswaFormat den)).Denotes (num.value ℚ / den.value ℚ) ↔
      (num.exp = 0 ↔ den.exp = 0) := by
  obtain ⟨numSign, numBounds, numScaled⟩ := fpswaFormat_spec (K := ℚ) numerator
  obtain ⟨denSign, denBounds, denScaled⟩ := fpswaFormat_spec (K := ℚ) divisor
  have denotes := fpswaDivideRaw_denotes (K := ℚ) numBounds denBounds
  rw [numSign, denSign, numScaled, denScaled] at denotes
  have numPos := scaled_pos (K := ℚ) (mant_ne_zero numerator) num.exp.toNat
  have denPos := scaled_pos (K := ℚ) (mant_ne_zero divisor) den.exp.toNat
  have quotient : num.value ℚ / den.value ℚ = signed (num.sign ^^ den.sign)
      (scaled ℚ num.mant.toNat num.exp.toNat / scaled ℚ den.mant.toNat den.exp.toNat) *
        2 ^ (num.skew - den.skew) := by
    rw [signed_mul_right, zpow_sub₀ two_ne_zero, ← mul_div_mul_comm, ← num.magnitude_eq,
      ← den.magnitude_eq]
    cases first : num.sign <;> cases second : den.sign <;>
      simp [RegisterFormat.value, signed, first, second, div_neg, neg_div]
  have apart : num.skew - den.skew = 0 ↔ (num.exp = 0 ↔ den.exp = 0) := by
    rw [RegisterFormat.skew, RegisterFormat.skew]
    split_ifs with first second second <;> simp only [first, second, denormalExp] <;> decide
  rw [quotient, ← apart]
  refine ⟨fun exact => denotes.scale_eq_zero exact ?_, fun same => ?_⟩
  · exact (signed_eq_zero_iff _ _).not.mpr (div_pos numPos denPos).ne'
  · rwa [same, zpow_zero, mul_one]

/-- One over three. -/
theorem fpswaDivideRaw_exact_third :
    let num : RegisterFormat := ⟨false, 0xffff, 0x8000000000000000⟩
    let den : RegisterFormat := ⟨false, 0x10000, 0xc000000000000000⟩
    (fpswaDivideRaw (fpswaFormat num) (fpswaFormat den)).Denotes (num.value ℚ / den.value ℚ) :=
  (fpswaDivideRaw_exact_iff (by decide) (by decide)).mpr (by decide)

end Ia64.Fp
