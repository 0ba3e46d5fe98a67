import Ia64.Fp.Raw

/-! Sums, differences and products as exact results before rounding. -/

namespace Ia64.Fp

open RawResult (mk)

open AlignedSum BinaryDigits Rounding

/-- Shift a 128-bit number right and tell whether a set bit was dropped. -/
def shiftRight128 (value shift : Nat) : Nat × Bool :=
  if shift = 0 then (value, false)
  else if 128 ≤ shift then (0, value != 0)
  else (value / 2 ^ shift, value % 2 ^ shift != 0)

/-- The leading zeros of a 128-bit number, by its two words. -/
def clz128 (value : Nat) : Nat :=
  let high := value / 2 ^ 64
  if high ≠ 0 then clz64 high else 64 + clz64 (value % 2 ^ 64)

/-- A difference of magnitudes, shifted up to the top. -/
def normalizeDifference (sign : Bool) (resultExp : Int) (result : Nat)
    (discarded : Bool) : RawResult :=
  let normalize := clz128 result
  let result := result * 2 ^ normalize % 2 ^ 128
  ⟨sign, resultExp - normalize, result / 2 ^ 64, rawSetFraction (result % 2 ^ 64) discarded⟩

/-- How the magnitudes of two operands that are not zero compare. -/
def operandCompare (left right : SwaFormat) : Ordering :=
  if left.exp ≠ right.exp then if right.exp < left.exp then .gt else .lt
    else compare left.mant right.mant

/-- Add two operands; a zero that comes from different signs is negative if rounding down. -/
def addOperands (left right : SwaFormat) (down : Bool) : RawResult :=
  if left.mant = 0 ∨ right.mant = 0 then
    if left.mant = 0 ∧ right.mant = 0 then
      { RawResult.zero with sign := if left.sign = right.sign then left.sign else down }
    else if left.mant = 0 then ⟨right.sign, right.exp, right.mant, .none⟩
    else ⟨left.sign, left.exp, left.mant, .none⟩
  else
    let resultExp := max left.exp right.exp
    let (leftAligned, leftDiscarded) :=
      shiftRight128 (left.mant * 2 ^ 64) (resultExp - left.exp).toNat
    let (rightAligned, rightDiscarded) :=
      shiftRight128 (right.mant * 2 ^ 64) (resultExp - right.exp).toNat
    if left.sign = right.sign then
      let result := (leftAligned + rightAligned) % 2 ^ 128
      let discarded := leftDiscarded || rightDiscarded
      -- A sum that wraps around has carried.
      if result < leftAligned then
        ⟨left.sign, resultExp + 1, 2 ^ 63 ||| result / 2 ^ 65,
          rawSetFraction (result / 2 % 2 ^ 64) (result % 2 != 0 || discarded)⟩
      else ⟨left.sign, resultExp, result / 2 ^ 64, rawSetFraction (result % 2 ^ 64) discarded⟩
    else
      let subtract (minuend subtrahend : Nat) (borrow : Bool) : Nat :=
        let result := (minuend + 2 ^ 128 - subtrahend) % 2 ^ 128
        if borrow then (result + 2 ^ 128 - 1) % 2 ^ 128 else result
      match operandCompare left right with
      | .eq => { RawResult.zero with sign := down }
      | .gt =>
        normalizeDifference left.sign resultExp (subtract leftAligned rightAligned rightDiscarded)
          (leftDiscarded || rightDiscarded)
      | .lt =>
        normalizeDifference right.sign resultExp (subtract rightAligned leftAligned leftDiscarded)
          (leftDiscarded || rightDiscarded)

/-- The exact sum or difference of two registers, if both are finite. -/
def staticAddsubRaw (left right : RegisterFormat) (rounding : Mode) (subtract : Bool) :
    Option RawResult := do
  let left ← staticFormatOperand left
  let right ← staticFormatOperand right
  let right := if subtract then { right with sign := !right.sign } else right
  return addOperands left right (rounding = .down)

/-- The exact product of two registers, if both are finite. -/
def staticMulRaw (left right : RegisterFormat) (negate : Bool) : Option RawResult := do
  let left ← staticFormatOperand left
  let right ← staticFormatOperand right
  let product := left.mant * right.mant
  let sign := (left.sign ^^ right.sign) ^^ negate
  if product = 0 then return { RawResult.zero with sign := sign }
  let exp := left.exp + right.exp - wreBias
  if product / 2 ^ 127 ≠ 0 then
    return ⟨sign, exp + 1, product / 2 ^ 64, rawSetFraction (product % 2 ^ 64) false⟩
  return ⟨sign, exp, product / 2 ^ 63, rawSetFraction (product * 2 % 2 ^ 64) false⟩

section Exactness

variable {K : Type*} [Field K] [LinearOrder K] [IsStrictOrderedRing K]

/-- A result denotes a number exactly; a zero has the sign that is given. -/
structure RawResult.Exact (raw : RawResult) (x : K) (zeroSign : Bool) : Prop where
  nonzero : x ≠ 0 → raw.Denotes x
  zero : x = 0 → raw = { RawResult.zero with sign := zeroSign }

variable {value total : Nat} {rest x : K} {discarded : Bool} {operand left right : SwaFormat}
  {raw : RawResult}

theorem shiftRight128_eq (bound : value < 2 ^ 128) (scale target : Int) :
    shiftRight128 value (target - scale).toNat = (aligned value scale target,
      discards value scale target) := by
  unfold shiftRight128 aligned discards
  generalize (target - scale).toNat = shift
  split_ifs with none all
  · simp [none, Nat.mod_one]
  · -- No bit is left.
    have small : value < 2 ^ shift := lt_of_lt_of_le bound (Nat.pow_le_pow_right two_pos all)
    rw [Nat.div_eq_of_lt small, Nat.mod_eq_of_lt small]
  · rfl

theorem clz128_eq (nonzero : value ≠ 0) (bound : value < 2 ^ 128) :
    clz128 value = leadingZeros 128 value := by
  simp only [clz128, clz64]
  split_ifs with upper
  · exact (leadingZeros_upper upper bound).symm
  · have empty : value / 2 ^ 64 = 0 := not_not.mp upper
    have small : value < 2 ^ 64 := by omega
    rw [Nat.mod_eq_of_lt small]
    exact (leadingZeros_lower nonzero empty).symm

variable (sign : Bool) (resultExp : Int)

/-- A shifted up difference denotes it. -/
theorem normalizeDifference_denotes {result : Nat}
    (nonzero : result ≠ 0) (bound : result < 2 ^ 128) (nonneg : 0 ≤ rest) (below : rest < 1)
    (sticks : discarded ↔ rest ≠ 0) (near : rest ≠ 0 → 2 ^ 126 ≤ result) :
    (normalizeDifference sign resultExp result discarded).Denotes
      (signed sign (((result : K) + rest) * 2 ^ (resultExp - wreBias - 127))) := by
  have shifted : result * 2 ^ clz128 result % 2 ^ 128 = normalized 128 result := by
    rw [clz128_eq nonzero bound]
    exact Nat.mod_eq_of_lt (normalized_bounds nonzero bound).2
  have denotes :=
    normalized_denotes sign resultExp (show 1 ≤ 63 by decide) nonzero bound nonneg below sticks near
  have scale : resultExp - wreBias - 63 - ((63 : ℕ) + 1) = resultExp - wreBias - 127 := by
    push_cast
    ring
  rw [scale] at denotes
  simp only [normalizeDifference, shifted]
  rw [clz128_eq nonzero bound]
  exact denotes

/-- A sum of aligned digits that carries denotes it. -/
theorem carry_denotes
    (least : 2 ^ 128 ≤ total) (most : total < 2 ^ 129) (nonneg : 0 ≤ rest) (below : rest < 1)
    (sticks : discarded ↔ rest ≠ 0) :
    (mk sign (resultExp + 1) (2 ^ 63 ||| total % 2 ^ 128 / 2 ^ 65)
      (rawSetFraction (total % 2 ^ 128 / 2 % 2 ^ 64)
        (total % 2 ^ 128 % 2 != 0 || discarded))).Denotes
        (signed sign (((total : K) + rest) * 2 ^ (resultExp - wreBias - 127))) := by
  have mant : 2 ^ 63 ||| total % 2 ^ 128 / 2 ^ 65 = total / 2 ^ (64 + 1) := by
    have low : total % 2 ^ 128 / 2 ^ 65 < 2 ^ 63 := by omega
    have split := Nat.two_pow_add_eq_or_of_lt low 1
    rw [mul_one] at split
    rw [← split]
    omega
  have residue :
      rawSetFraction (total % 2 ^ 128 / 2 % 2 ^ 64) (total % 2 ^ 128 % 2 != 0 || discarded) =
      Residue.ofFraction (2 ^ 64) (total % 2 ^ (64 + 1)) discarded := by
    rw [show 2 ^ 64 = 2 ^ 63 * 2 from rfl, ← Residue.ofFraction_split discarded two_pos,
      rawSetFraction]
    congr 2
    · omega
    · congr 1
      omega
  have denotes := digits_denotes sign (resultExp + 1) 64 least most nonneg below sticks
  have scale : resultExp + 1 - wreBias - 63 - ((64 : ℕ) + 1) = resultExp - wreBias - 127 := by
    push_cast
    ring
  rw [scale] at denotes
  rw [mant, residue]
  exact denotes

theorem sum_denotes
    (least : 2 ^ 127 ≤ total) (most : total < 2 ^ 128) (nonneg : 0 ≤ rest) (below : rest < 1)
    (sticks : discarded ↔ rest ≠ 0) :
    (mk sign resultExp (total / 2 ^ 64) (rawSetFraction (total % 2 ^ 64) discarded)).Denotes
      (signed sign (((total : K) + rest) * 2 ^ (resultExp - wreBias - 127))) := by
  have denotes := digits_denotes sign resultExp 63 least most nonneg below sticks
  have scale : resultExp - wreBias - 63 - ((63 : ℕ) + 1) = resultExp - wreBias - 127 := by
    push_cast
    ring
  rwa [scale] at denotes

theorem value_eq_digits (operand : SwaFormat) :
    operand.value K =
      signed operand.sign (((operand.mant * 2 ^ 64 : ℕ) : K) * 2 ^ operand.exp *
        2 ^ (-(wreBias : ℤ) - 127)) := by
  have two : (2 : K) ≠ 0 := two_ne_zero
  have scale :
      (operand.exp - wreBias - 63 : ℤ) = (64 : ℕ) + (operand.exp + (-(wreBias : ℤ) - 127)) := by
    push_cast
    ring
  rw [SwaFormat.value, scaled, scale, zpow_add₀ two, zpow_add₀ two, zpow_natCast]
  push_cast
  ring_nf

theorem SwaFormat.Normal.digits (normal : operand.Normal) (nonzero : operand.mant ≠ 0) :
    2 ^ (128 - 1) ≤ operand.mant * 2 ^ 64 ∧ operand.mant * 2 ^ 64 < 2 ^ 128 := by
  have least := normal.2 nonzero
  have most := normal.1
  omega

theorem value_eq_zero_iff : operand.value K = 0 ↔ operand.mant = 0 := by
  have scale : (2 : K) ^ (operand.exp - wreBias - 63) ≠ 0 := zpow_ne_zero _ two_ne_zero
  rw [SwaFormat.value, scaled, signed]
  split_ifs <;> simp [scale]

theorem operand_denotes (normal : operand.Normal) (nonzero : operand.mant ≠ 0) :
    (mk operand.sign operand.exp operand.mant .none).Denotes (operand.value K) := by
  refine denotes_mk operand.sign (normal.2 nonzero) normal.1 Residue.none_describes ?_
  rw [scaled, add_zero]

theorem subtract128_eq {minuend subtrahend : Nat} {borrow : Bool} (bound : minuend < 2 ^ 128)
    (less : subtrahend < minuend) :
    (if borrow then ((minuend + 2 ^ 128 - subtrahend) % 2 ^ 128 + 2 ^ 128 - 1) % 2 ^ 128
      else (minuend + 2 ^ 128 - subtrahend) % 2 ^ 128) = minuend - subtrahend - if borrow
        then 1 else 0 := by
  cases borrow
  · simp only [Bool.false_eq_true, if_false]
    omega
  · simp only [if_true]
    omega

theorem operandCompare_gt (greater : operandCompare left right = .gt) :
    right.exp < left.exp ∨ right.exp = left.exp ∧ right.mant < left.mant := by
  unfold operandCompare at greater
  split_ifs at greater with apart above
  · exact Or.inl above
  · exact Or.inr ⟨(not_not.mp apart).symm, Nat.compare_eq_gt.mp greater⟩

theorem operandCompare_lt (smaller : operandCompare left right = .lt) :
    left.exp < right.exp ∨ left.exp = right.exp ∧ left.mant < right.mant := by
  unfold operandCompare at smaller
  split_ifs at smaller with apart above
  · omega
  · exact Or.inr ⟨not_not.mp apart, Nat.compare_eq_lt.mp smaller⟩

theorem operandCompare_eq (same : operandCompare left right = .eq) :
    left.exp = right.exp ∧ left.mant = right.mant := by
  unfold operandCompare at same
  split_ifs at same with apart above
  exact ⟨not_not.mp apart, Nat.compare_eq_eq.mp same⟩

/-- The difference of operands of different signs. -/
theorem difference_denotes {left right : SwaFormat} (leftNormal : left.Normal)
    (rightNormal : right.Normal) (leftNonzero : left.mant ≠ 0) (rightNonzero : right.mant ≠ 0)
    (signs : right.sign = !left.sign)
    (larger : right.exp < left.exp ∨ right.exp = left.exp ∧ right.mant < left.mant) :
    let target := max left.exp right.exp
    let minuend := aligned (left.mant * 2 ^ 64) left.exp target
    let subtrahend := aligned (right.mant * 2 ^ 64) right.exp target
    let borrow := discards (right.mant * 2 ^ 64) right.exp target
    discards (left.mant * 2 ^ 64) left.exp target = false ∧ subtrahend < minuend ∧
      minuend < 2 ^ 128 ∧
      (normalizeDifference left.sign target (minuend - subtrahend - if borrow then 1
        else 0) borrow).Denotes (left.value K + right.value K) := by
  intro target minuend subtrahend borrow
  obtain ⟨leftLeast, leftMost⟩ := leftNormal.digits leftNonzero
  obtain ⟨-, rightMost⟩ := rightNormal.digits rightNonzero
  have even : 2 ∣ right.mant * 2 ^ 64 := Dvd.dvd.mul_left (by decide) _
  have larger' : right.exp < left.exp ∨ right.exp = left.exp ∧
      right.mant * 2 ^ 64 < left.mant * 2 ^ 64 := by omega
  obtain ⟨whole, less, rest, nonneg, below, sticks, exact, nonzero, bound, near⟩ :=
    difference_spec (K := K) leftLeast leftMost rightMost even (by decide) larger'
  have denotes :=
    normalizeDifference_denotes left.sign target nonzero bound nonneg below sticks near
  have value : left.value K + right.value K = signed left.sign
      (((minuend - subtrahend - (if borrow then 1 else 0) : ℕ) + rest) *
        2 ^ (target - wreBias - 127)) := by
    rw [value_eq_digits, value_eq_digits, signs, signed_add_not, ← sub_mul, exact, mul_assoc,
      ← zpow_add₀ two_ne_zero]
    congr 3
    ring
  refine ⟨whole, less, lt_of_le_of_lt (aligned_le ..) leftMost, ?_⟩
  rw [value]
  exact denotes

theorem RawResult.Denotes.exactly (denotes : raw.Denotes x) (zeroSign : Bool) :
    raw.Exact x zeroSign := ⟨fun _ => denotes, fun zero => absurd zero denotes.ne_zero⟩

omit [IsStrictOrderedRing K] in
theorem RawResult.exact_zero (zero : x = 0) (sign : Bool) :
    ({ RawResult.zero with sign := sign } : RawResult).Exact x sign :=
      ⟨fun nonzero => absurd zero nonzero, fun _ => rfl⟩

/-- The sum of two operands of the same sign. -/
theorem total_denotes (leftNormal : left.Normal) (rightNormal : right.Normal)
    (leftNonzero : left.mant ≠ 0) (rightNonzero : right.mant ≠ 0) (signs : left.sign = right.sign) :
    let target := max left.exp right.exp
    let augend := aligned (left.mant * 2 ^ 64) left.exp target
    let result := (augend + aligned (right.mant * 2 ^ 64) right.exp target) % 2 ^ 128
    let discarded := discards (left.mant * 2 ^ 64) left.exp target ||
      discards (right.mant * 2 ^ 64) right.exp target
    (if result < augend then
      mk left.sign (target + 1) (2 ^ 63 ||| result / 2 ^ 65)
        (rawSetFraction (result / 2 % 2 ^ 64) (result % 2 != 0 || discarded))
    else mk left.sign target (result / 2 ^ 64) (rawSetFraction (result % 2 ^ 64) discarded)).Denotes
      (left.value K + right.value K) := by
  intro target augend result discarded
  obtain ⟨leftLeast, leftMost⟩ := leftNormal.digits leftNonzero
  obtain ⟨rightLeast, rightMost⟩ := rightNormal.digits rightNonzero
  obtain ⟨rest, nonneg, below, sticks, exact, least, most⟩ :=
    sum_spec (K := K) left.exp right.exp leftLeast leftMost rightLeast rightMost
  have value : left.value K + right.value K = signed left.sign
      (((augend + aligned (right.mant * 2 ^ 64) right.exp target : ℕ) + rest) *
        2 ^ (target - wreBias - 127)) := by
    rw [value_eq_digits, value_eq_digits, ← signs, signed_add, ← add_mul, exact, mul_assoc,
      ← zpow_add₀ two_ne_zero]
    congr 3
    ring
  have first : augend < 2 ^ 128 := lt_of_le_of_lt (aligned_le ..) leftMost
  have second : aligned (right.mant * 2 ^ 64) right.exp target < 2 ^ 128 :=
    lt_of_le_of_lt (aligned_le ..) rightMost
  rw [value]
  split_ifs with carry
  · exact carry_denotes left.sign target (by omega) most nonneg below sticks
  · have plain : result = augend + aligned (right.mant * 2 ^ 64) right.exp target :=
      Nat.mod_eq_of_lt (by omega)
    rw [plain]
    exact sum_denotes left.sign target least (by omega) nonneg below sticks

/-- The sum of two operands is exact. -/
theorem addOperands_exact (leftNormal : left.Normal) (rightNormal : right.Normal)
    (down : Bool) :
    (addOperands left right down).Exact (left.value K + right.value K)
      (if left.sign = right.sign then left.sign else down) := by
  unfold addOperands
  by_cases some : left.mant = 0 ∨ right.mant = 0
  · -- With a zero the sum is the other operand.
    rw [if_pos some]
    by_cases leftZero : left.mant = 0
    · rw [value_eq_zero_iff.mpr leftZero, zero_add]
      by_cases rightZero : right.mant = 0
      · rw [if_pos ⟨leftZero, rightZero⟩]
        exact RawResult.exact_zero (value_eq_zero_iff.mpr rightZero) _
      · rw [if_neg fun both => rightZero both.2, if_pos leftZero]
        exact (operand_denotes rightNormal rightZero).exactly _
    · rw [value_eq_zero_iff.mpr (some.resolve_left leftZero), add_zero,
        if_neg fun both => leftZero both.1, if_neg leftZero]
      exact (operand_denotes leftNormal leftZero).exactly _
  obtain ⟨leftNonzero, rightNonzero⟩ := not_or.mp some
  have leftMost := (leftNormal.digits leftNonzero).2
  have rightMost := (rightNormal.digits rightNonzero).2
  simp only [if_neg some, shiftRight128_eq leftMost, shiftRight128_eq rightMost]
  by_cases signs : left.sign = right.sign
  · rw [if_pos signs]
    exact (total_denotes leftNormal rightNormal leftNonzero rightNonzero signs).exactly _
  · -- Magnitudes are subtracted, the smaller one from the larger one.
    rw [if_neg signs, if_neg signs]
    have opposite : right.sign = !left.sign := Bool.eq_not.mpr (Ne.symm signs)
    cases order : operandCompare left right with
    | eq =>
      obtain ⟨exps, mants⟩ := operandCompare_eq order
      have zero : left.value K + right.value K = 0 := by
        rw [value_eq_digits, value_eq_digits, opposite, signed_add_not, exps, mants, sub_self,
          signed_eq_zero_iff]
      exact RawResult.exact_zero zero _
    | gt =>
      obtain ⟨whole, less, bound, denotes⟩ :=
        difference_denotes (K := K) leftNormal rightNormal leftNonzero
        rightNonzero opposite (operandCompare_gt order)
      simp only [subtract128_eq bound less, whole, Bool.false_or]
      exact denotes.exactly _
    | lt =>
      have opposite' : left.sign = !right.sign := by rw [opposite, Bool.not_not]
      obtain ⟨whole, less, bound, denotes⟩ :=
        difference_denotes (K := K) rightNormal leftNormal rightNonzero
        leftNonzero opposite' (operandCompare_lt order)
      rw [max_comm right.exp left.exp] at whole less bound denotes
      simp only [subtract128_eq bound less, whole, Bool.or_false]
      rw [add_comm]
      exact denotes.exactly _

/-- A product of 128 digits without a residue. -/
theorem product_denotes (sign : Bool) (exp : Int) {product : Nat} (least : 2 ^ 126 ≤ product)
    (most : product < 2 ^ 128) :
    (if product / 2 ^ 127 ≠ 0 then
      mk sign (exp + 1) (product / 2 ^ 64) (rawSetFraction (product % 2 ^ 64) false)
    else mk sign exp (product / 2 ^ 63) (rawSetFraction (product * 2 % 2 ^ 64) false)).Denotes
      (signed sign ((product : K) * 2 ^ (exp - wreBias - 126))) := by
  have sticks : false ↔ (0 : K) ≠ 0 := by simp
  split_ifs with top
  · have denotes := sum_denotes sign (exp + 1) (by omega) most le_rfl zero_lt_one sticks
    rwa [add_zero, show exp + 1 - wreBias - 127 = exp - wreBias - 126 by ring] at denotes
  · -- The digits are moved up by one place.
    have denotes :=
      sum_denotes sign exp (show 2 ^ 127 ≤ product * 2 by omega)
        (by omega) le_rfl zero_lt_one sticks
    rw [show product * 2 / 2 ^ 64 = product / 2 ^ 63 by omega] at denotes
    have value : ((product * 2 : ℕ) : K) * 2 ^ (exp - wreBias - 127) =
        product * 2 ^ (exp - wreBias - 126) := by
      rw [show exp - wreBias - 126 = 1 + (exp - wreBias - 127) by ring,
        zpow_add₀ two_ne_zero, zpow_one]
      push_cast
      ring
    rwa [add_zero, value] at denotes

theorem scaled_mul_scaled (left right : Nat) (leftExp rightExp : Int) :
    scaled K left leftExp * scaled K right rightExp =
      ((left * right : ℕ) : K) * 2 ^ (leftExp + rightExp - wreBias - wreBias - 126) := by
  have scale : leftExp + rightExp - wreBias - wreBias - 126 =
      (leftExp - wreBias - 63) + (rightExp - wreBias - 63) := by ring
  rw [scaled, scaled, scale, zpow_add₀ two_ne_zero]
  push_cast
  ring

theorem product_bounds (leftNormal : left.Normal) (rightNormal : right.Normal)
    (nonzero : left.mant * right.mant ≠ 0) :
    2 ^ 126 ≤ left.mant * right.mant ∧ left.mant * right.mant < 2 ^ 128 := by
  obtain ⟨leftNonzero, rightNonzero⟩ := Nat.mul_ne_zero_iff.mp nonzero
  rw [show 2 ^ 126 = 2 ^ 63 * 2 ^ 63 from rfl, show 2 ^ 128 = 2 ^ 64 * 2 ^ 64 from rfl]
  exact ⟨Nat.mul_le_mul (leftNormal.2 leftNonzero) (rightNormal.2 rightNonzero),
    Nat.mul_lt_mul'' leftNormal.1 rightNormal.1⟩

/-- The raw result of a product is exact. -/
theorem staticMulRaw_spec {left right : RegisterFormat} {negate : Bool}
    (accepted : staticMulRaw left right negate = some raw) :
    raw.Exact (signed negate (left.value K * right.value K))
      ((left.sign ^^ right.sign) ^^ negate) := by
  unfold staticMulRaw at accepted
  obtain ⟨first, readFirst, accepted⟩ := Option.bind_eq_some_iff.mp accepted
  obtain ⟨second, readSecond, accepted⟩ := Option.bind_eq_some_iff.mp accepted
  obtain ⟨firstNormal, firstSign, firstValue, -⟩ := staticFormatOperand_spec (K := K) readFirst
  obtain ⟨secondNormal, secondSign, secondValue, -⟩ := staticFormatOperand_spec (K := K) readSecond
  have value : signed negate (left.value K * right.value K) =
      signed ((left.sign ^^ right.sign) ^^ negate)
      (((first.mant * second.mant : ℕ) : K) *
        2 ^ (first.exp + second.exp - wreBias - wreBias - 126)) := by
    rw [← firstValue, ← secondValue, SwaFormat.value, SwaFormat.value, signed_mul, signed_signed,
      scaled_mul_scaled, firstSign, secondSign, Bool.xor_comm]
  rw [value]
  simp only [firstSign, secondSign] at accepted
  by_cases zero : first.mant * second.mant = 0
  · rw [if_pos zero] at accepted
    obtain rfl := Option.some.inj accepted
    refine RawResult.exact_zero ?_ _
    rw [zero, Nat.cast_zero, zero_mul, signed_eq_zero_iff]
  · rw [if_neg zero, ← apply_ite (pure (f := Option))] at accepted
    obtain rfl := Option.some.inj accepted
    obtain ⟨least, most⟩ := product_bounds firstNormal secondNormal zero
    exact (product_denotes _ _ least most).exactly _

/-- The raw result of a sum or a difference is exact. -/
theorem staticAddsubRaw_spec {left right : RegisterFormat} {rounding : Mode} {subtract : Bool}
    (accepted : staticAddsubRaw left right rounding subtract = some raw) :
    raw.Exact (left.value K + signed subtract (right.value K))
      (if left.sign = (right.sign ^^ subtract) then left.sign else decide (rounding = .down)) := by
  unfold staticAddsubRaw at accepted
  obtain ⟨first, readFirst, accepted⟩ := Option.bind_eq_some_iff.mp accepted
  obtain ⟨second, readSecond, accepted⟩ := Option.bind_eq_some_iff.mp accepted
  obtain ⟨firstNormal, firstSign, firstValue, -⟩ := staticFormatOperand_spec (K := K) readFirst
  obtain ⟨secondNormal, secondSign, secondValue, -⟩ := staticFormatOperand_spec (K := K) readSecond
  obtain rfl := Option.some.inj accepted
  rw [← firstSign, ← secondSign, ← firstValue, ← secondValue]
  cases subtract
  · rw [Bool.xor_false]
    exact addOperands_exact firstNormal secondNormal _
  · have negated : ({ second with sign := !second.sign } : SwaFormat).value K =
      signed true (second.value K) := by
      rw [SwaFormat.value, SwaFormat.value, signed_signed, Bool.true_xor]
    have normal : ({ second with sign := !second.sign } : SwaFormat).Normal := secondNormal
    rw [Bool.xor_true, ← negated]
    exact addOperands_exact firstNormal normal _

end Exactness

theorem staticFormatOperand_of_finite {fmt : RegisterFormat} (finite : fmt.isSpecial = false) :
    ∃ operand, staticFormatOperand fmt = some operand := by
  rw [staticFormatOperand, finite, if_neg Bool.false_ne_true]
  by_cases zero : fmt.mant = 0
  · exact ⟨_, if_pos zero⟩
  · exact ⟨_, if_neg zero⟩

/-- Sums, differences and products of finite registers are computed, and exact. A zero sum has the
common sign of its operands, or is negative if rounding down; a zero product has the sign of a
product. -/
theorem staticAddsubRaw_staticMulRaw_exact (left right : RegisterFormat)
    (leftFinite : left.isSpecial = false) (rightFinite : right.isSpecial = false) (rounding : Mode)
    (subtract negate : Bool) :
    (∃ raw, staticAddsubRaw left right rounding subtract = some raw ∧
      raw.Exact (left.value ℚ + signed subtract (right.value ℚ))
        (if left.sign = (right.sign ^^ subtract) then left.sign else decide (rounding = .down))) ∧
    (∃ raw, staticMulRaw left right negate = some raw ∧
      raw.Exact (signed negate (left.value ℚ * right.value ℚ))
        ((left.sign ^^ right.sign) ^^ negate)) := by
  obtain ⟨first, readFirst⟩ := staticFormatOperand_of_finite leftFinite
  obtain ⟨second, readSecond⟩ := staticFormatOperand_of_finite rightFinite
  have sum : ∃ raw, staticAddsubRaw left right rounding subtract = some raw := by
    rw [staticAddsubRaw, readFirst, readSecond]
    exact ⟨_, rfl⟩
  have product : ∃ raw, staticMulRaw left right negate = some raw := by
    simp only [staticMulRaw, readFirst, readSecond, Option.bind_eq_bind, Option.bind_some]
    split_ifs
    · exact ⟨_, rfl⟩
    · exact ⟨_, rfl⟩
    · exact ⟨_, rfl⟩
  obtain ⟨raw, accepted⟩ := sum
  obtain ⟨rawProduct, acceptedProduct⟩ := product
  exact ⟨⟨raw, accepted, staticAddsubRaw_spec accepted⟩, rawProduct, acceptedProduct,
    staticMulRaw_spec acceptedProduct⟩

/-- The smallest denormal register and the largest unnormal exponent. -/
theorem staticAddsubRaw_staticMulRaw_exact_denormal :
    let left : RegisterFormat := ⟨true, 0, 1⟩
    let right : RegisterFormat := ⟨false, 0x1fffe, 1⟩
    (∃ raw, staticAddsubRaw left right .up true = some raw ∧
      raw.Exact (left.value ℚ + signed true (right.value ℚ)) (if true = (false ^^ true)
        then true else false)) ∧
    (∃ raw, staticMulRaw left right true = some raw ∧
      raw.Exact (signed true (left.value ℚ * right.value ℚ)) ((true ^^ false) ^^ true)) :=
  staticAddsubRaw_staticMulRaw_exact ⟨true, 0, 1⟩ ⟨false, 0x1fffe, 1⟩ rfl rfl .up true true

/-- Two positive zeros add up to a positive zero although rounding is down, and a zero product is
negative by the signs of its factors, whatever the rounding. -/
theorem zeroSign_of_operands :
    staticAddsubRaw ⟨false, 0, 0⟩ ⟨false, 0, 0⟩ .down false = some ⟨false, 0, 0, .none⟩ ∧
      staticMulRaw ⟨true, 0, 0⟩ ⟨false, 0xffff, significandIntegerBit⟩ false = some ⟨true, 0,
        0, .none⟩ := by
  decide

end Ia64.Fp
