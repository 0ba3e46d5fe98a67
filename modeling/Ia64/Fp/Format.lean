import Ia64.Lib.BinaryDigits
import Ia64.Lib.Rounding
import Ia64.Rse.Env

/-! The register format of floating-point numbers: its classes, its values and how two of them
compare. -/

namespace Ia64.Fp

open BinaryDigits Rounding

/-- The bias of the register format's exponent. -/
def wreBias : Nat := 0xffff

/-- The exponent of an integer that fills the significand. -/
def regIntegerExp : Nat := 0x1003e

/-- The exponent of a NaTVal. -/
def regNatvalExp : Nat := 0x1fffe

/-- The exponent of infinities and NaNs. -/
def regSpecialExp : Nat := 0x1ffff

/-- The exponent that an encoding with a zero exponent field has. -/
def denormalExp : Nat := 0xc001

/-- The explicit integer bit of a significand. -/
def significandIntegerBit : Word := 0x8000000000000000

/-- A register's contents: sign, biased exponent and significand. -/
structure RegisterFormat where
  sign : Bool
  exp : BitVec 17
  mant : Word
deriving DecidableEq, Repr

/-- The number of zeros before the first set bit of a significand. -/
def clz64 (mant : Nat) : Nat := leadingZeros 64 mant

namespace RegisterFormat

variable (fmt : RegisterFormat)

/-- Whether the exponent is that of infinities and NaNs. -/
def isSpecial : Bool := fmt.exp.toNat == regSpecialExp

/-- A number with no digits. -/
def isZero : Bool := fmt.mant == 0 && !fmt.isSpecial

/-- An infinity of either sign. -/
def isInfinity : Bool := fmt.isSpecial && fmt.mant == significandIntegerBit

/-- A special register that is no infinity. -/
def isNan : Bool := fmt.isSpecial && fmt.mant != significandIntegerBit

/-- A special exponent without the integer bit encodes nothing. -/
def isUnsupported : Bool := fmt.isSpecial && !fmt.mant.getLsbD 63

/-- A NaN with its integer bit set. -/
def isSupportedNan : Bool :=
  fmt.isSpecial && fmt.mant.getLsbD 63 && fmt.mant != significandIntegerBit

/-- A finite number without a leading integer bit. -/
def isUnnormal : Bool :=
  !fmt.isSpecial && ((fmt.exp == 0 && fmt.mant != 0) || (fmt.exp != 0 && !fmt.mant.getLsbD 63))

/-- A signaling NaN. -/
def isSnan : Bool := fmt.isSupportedNan && !fmt.mant.getLsbD 62

/-- The exponent of a finite operand; a zero field stands for the smallest double-extended
exponent. -/
def operandExp : Int := if fmt.exp = 0 then denormalExp else fmt.exp.toNat

/-- How the magnitudes of two operands that are not NaNs compare. -/
def magnitudeCompare (left right : RegisterFormat) : Ordering :=
  if left.isInfinity then if right.isInfinity then .eq else .gt
  else if right.isInfinity then .lt
  else if left.mant = 0 then if right.mant = 0 then .eq else .lt
  else if right.mant = 0 then .gt
  else
    -- The exponents are those of the normalized significands and may be negative.
    let leftExp := left.operandExp - clz64 left.mant.toNat
    let rightExp := right.operandExp - clz64 right.mant.toNat
    let leftMant := normalized 64 left.mant.toNat
    let rightMant := normalized 64 right.mant.toNat
    if leftExp ≠ rightExp then if leftExp < rightExp then .lt else .gt
    else if leftMant ≠ rightMant then if leftMant < rightMant then .lt else .gt
    else .eq

end RegisterFormat

/-- The outcome of a comparison. -/
inductive FloatRelation where
  | less
  | equal
  | greater
  | unordered
deriving DecidableEq, Repr

/-- The outcome that an order of numbers stands for. -/
def FloatRelation.ofOrdering : Ordering → FloatRelation
  | .lt => .less
  | .eq => .equal
  | .gt => .greater

/-- Compare two registers, or their magnitudes; the second answer tells whether Invalid is
raised. -/
def registerCompare (left right : RegisterFormat) (isAbs quiet : Bool) : FloatRelation × Bool :=
  let invalid := left.isUnsupported || right.isUnsupported || left.isSnan || right.isSnan ||
    (!quiet && (left.isNan || right.isNan))
  if left.isNan || right.isNan then (.unordered, invalid)
  else
    let magnitude := left.magnitudeCompare right
    if isAbs || (left.isZero && right.isZero) then (.ofOrdering magnitude, invalid)
    else if left.sign != right.sign then (if left.sign then .less else .greater, invalid)
    else (.ofOrdering (if left.sign then magnitude.swap else magnitude), invalid)

section Values

variable (K : Type*) [Field K]

/-- The number that a significand and an exponent stand for. -/
def scaled (mant : Nat) (exp : Int) : K := mant * (2 : K) ^ (exp - wreBias - 63)

variable (fmt : RegisterFormat)

/-- The magnitude of a finite operand. -/
def RegisterFormat.magnitude : K := scaled K fmt.mant.toNat fmt.operandExp

/-- The number that a finite operand stands for. -/
def RegisterFormat.value : K := signed fmt.sign (fmt.magnitude K)

/-- The magnitude of an operand that is not a NaN. -/
def RegisterFormat.extendedMagnitude : WithBot (WithTop K) :=
  if fmt.isInfinity then (⊤ : WithTop K) else (fmt.magnitude K : WithTop K)

/-- The number or infinity that an operand stands for. -/
def RegisterFormat.extendedValue : WithBot (WithTop K) :=
  if fmt.isInfinity then if fmt.sign then ⊥ else (⊤ : WithTop K) else (fmt.value K : WithTop K)

end Values

section Magnitudes

variable {K : Type*} [Field K] [LinearOrder K] [IsStrictOrderedRing K]

theorem scaled_normalized (mant : Nat) (exp : Int) :
    scaled K (normalized 64 mant) (exp - clz64 mant) = scaled K mant exp := by
  have shift : exp - (clz64 mant : Int) - wreBias - 63 =
      exp - wreBias - 63 - (clz64 mant : Int) := by ring
  rw [scaled, scaled, shift]
  exact scaled_shift mant (clz64 mant) _

theorem scaled_nonneg (mant : Nat) (exp : Int) : 0 ≤ scaled K mant exp :=
  mul_nonneg (Nat.cast_nonneg mant) (zpow_pos two_pos _).le

theorem scaled_pos {mant : Nat} (nonzero : mant ≠ 0) (exp : Int) : 0 < scaled K mant exp :=
  mul_pos (Nat.cast_pos.mpr (Nat.pos_of_ne_zero nonzero)) (zpow_pos two_pos _)

omit [LinearOrder K] [IsStrictOrderedRing K] in
theorem scaled_zero (exp : Int) : scaled K 0 exp = 0 := by
  rw [scaled, Nat.cast_zero, zero_mul]

variable {left right : Nat} {leftExp rightExp : Int} {fmt : RegisterFormat}

theorem scaled_lt_of_exp (most : left < 2 ^ 64)
    (least : 2 ^ 63 ≤ right) (less : leftExp < rightExp) :
    scaled K left leftExp < scaled K right rightExp :=
  scaled_lt_of_scale (by decide) most least (by omega)

theorem mant_ne_zero (nonzero : fmt.mant ≠ 0) : fmt.mant.toNat ≠ 0 := fun zero =>
  nonzero (BitVec.eq_of_toNat_eq zero)

omit [LinearOrder K] [IsStrictOrderedRing K] in
theorem magnitude_of_zero (zero : fmt.mant = 0) : fmt.magnitude K = 0 := by
  -- A zero significand stands for zero whatever its exponent.
  have digits : fmt.mant.toNat = 0 := by rw [zero]; rfl
  rw [RegisterFormat.magnitude, digits, scaled_zero]

theorem magnitude_pos (nonzero : fmt.mant ≠ 0) : 0 < fmt.magnitude K :=
  scaled_pos (mant_ne_zero nonzero) _

omit [Field K] [IsStrictOrderedRing K] in
theorem compare_coe (x y : K) :
    compare ((x : WithTop K) : WithBot (WithTop K)) ((y : WithTop K) : WithBot (WithTop K)) =
      compare x y := by
  have mono : StrictMono fun x : K => ((x : WithTop K) : WithBot (WithTop K)) :=
    WithBot.coe_strictMono.comp WithTop.coe_strictMono
  rw [← cmp_eq_compare, ← cmp_eq_compare]
  exact mono.cmp_map_eq x y

/-- The comparison of two significands that are not zero. -/
theorem compare_scaled (leftPos : left ≠ 0) (rightPos : right ≠ 0)
    (leftLt : left < 2 ^ 64) (rightLt : right < 2 ^ 64) :
    compare (scaled K left leftExp) (scaled K right rightExp) =
      if leftExp - clz64 left ≠ rightExp - clz64 right then
        if leftExp - clz64 left < rightExp - clz64 right then .lt else .gt
      else if normalized 64 left ≠ normalized 64 right then
        if normalized 64 left < normalized 64 right then .lt else .gt
      else .eq := by
  obtain ⟨leftLeast, leftMost⟩ := normalized_bounds leftPos leftLt
  obtain ⟨rightLeast, rightMost⟩ := normalized_bounds rightPos rightLt
  rw [← scaled_normalized left, ← scaled_normalized right]
  -- Both significands have their first digit at the top now.
  generalize leftExp - (clz64 left : Int) = leftScale
  generalize rightExp - (clz64 right : Int) = rightScale
  rcases lt_trichotomy leftScale rightScale with less | same | more
  · rw [if_pos less.ne, if_pos less]
    exact compare_lt_iff_lt.mpr (scaled_lt_of_exp leftMost rightLeast less)
  · subst same
    rw [if_neg (by simp)]
    rcases Nat.lt_trichotomy (normalized 64 left) (normalized 64 right) with less | same | more
    · rw [if_pos less.ne, if_pos less]
      exact compare_lt_iff_lt.mpr (scaled_lt_iff.mpr less)
    · rw [if_neg (by simp [same]), same]
      exact compare_eq_iff_eq.mpr rfl
    · rw [if_pos more.ne', if_neg more.not_gt]
      exact compare_gt_iff_gt.mpr (scaled_lt_iff.mpr more)
  · rw [if_pos more.ne', if_neg more.not_gt]
    exact compare_gt_iff_gt.mpr (scaled_lt_of_exp rightMost leftLeast more)

/-- Magnitudes compare like numbers. -/
theorem magnitudeCompare_eq (left right : RegisterFormat) :
    left.magnitudeCompare right = compare (left.extendedMagnitude K)
      (right.extendedMagnitude K) := by
  unfold RegisterFormat.magnitudeCompare RegisterFormat.extendedMagnitude
  by_cases leftInf : left.isInfinity
  · rw [if_pos leftInf, if_pos leftInf]
    by_cases rightInf : right.isInfinity
    · rw [if_pos rightInf, if_pos rightInf]
      exact (compare_eq_iff_eq.mpr rfl).symm
    · rw [if_neg rightInf, if_neg rightInf]
      exact (compare_gt_iff_gt.mpr (WithBot.coe_lt_coe.mpr (WithTop.coe_lt_top _))).symm
  rw [if_neg leftInf, if_neg leftInf]
  by_cases rightInf : right.isInfinity
  · rw [if_pos rightInf, if_pos rightInf]
    exact (compare_lt_iff_lt.mpr (WithBot.coe_lt_coe.mpr (WithTop.coe_lt_top _))).symm
  rw [if_neg rightInf, if_neg rightInf, compare_coe]
  by_cases leftZero : left.mant = 0
  · rw [if_pos leftZero, magnitude_of_zero leftZero]
    by_cases rightZero : right.mant = 0
    · rw [if_pos rightZero, magnitude_of_zero rightZero]
      exact (compare_eq_iff_eq.mpr rfl).symm
    · rw [if_neg rightZero]
      exact (compare_lt_iff_lt.mpr (magnitude_pos rightZero)).symm
  rw [if_neg leftZero]
  by_cases rightZero : right.mant = 0
  · rw [if_pos rightZero, magnitude_of_zero rightZero]
    exact (compare_gt_iff_gt.mpr (magnitude_pos leftZero)).symm
  rw [if_neg rightZero]
  exact (compare_scaled (mant_ne_zero leftZero)
    (mant_ne_zero rightZero) left.mant.isLt right.mant.isLt).symm

end Magnitudes

section Signs

variable {K : Type*} [Field K] [LinearOrder K] [IsStrictOrderedRing K]

theorem compare_neg (x y : K) : compare (-x) (-y) = (compare x y).swap := by
  rcases lt_trichotomy x y with less | same | more
  · rw [compare_lt_iff_lt.mpr less, compare_gt_iff_gt.mpr (neg_lt_neg less)]
    rfl
  · rw [same, compare_eq_iff_eq.mpr rfl, compare_eq_iff_eq.mpr rfl]
    rfl
  · rw [compare_gt_iff_gt.mpr more, compare_lt_iff_lt.mpr (neg_lt_neg more)]
    rfl

variable {left right fmt : RegisterFormat}

/-- Operands of one sign compare by magnitude. -/
theorem compare_of_same_sign (same : left.sign = right.sign) :
    compare (left.extendedValue K) (right.extendedValue K) =
      if left.sign then (compare (left.extendedMagnitude K) (right.extendedMagnitude K)).swap
      else compare (left.extendedMagnitude K) (right.extendedMagnitude K) := by
  unfold RegisterFormat.extendedValue RegisterFormat.extendedMagnitude RegisterFormat.value
  rw [← same]
  cases left.sign with
  | false =>
    simp [signed]
  | true =>
    simp only [if_true, signed]
    by_cases leftInf : left.isInfinity = true <;> by_cases rightInf : right.isInfinity
    · rw [if_pos leftInf, if_pos rightInf, if_pos leftInf, if_pos rightInf,
        compare_eq_iff_eq.mpr rfl, compare_eq_iff_eq.mpr rfl]
      rfl
    · rw [if_pos leftInf, if_neg rightInf, if_pos leftInf, if_neg rightInf,
        compare_lt_iff_lt.mpr (WithBot.bot_lt_coe _),
        compare_gt_iff_gt.mpr (WithBot.coe_lt_coe.mpr (WithTop.coe_lt_top _))]
      rfl
    · rw [if_neg leftInf, if_pos rightInf, if_neg leftInf, if_pos rightInf,
        compare_gt_iff_gt.mpr (WithBot.bot_lt_coe _),
        compare_lt_iff_lt.mpr (WithBot.coe_lt_coe.mpr (WithTop.coe_lt_top _))]
      rfl
    · rw [if_neg leftInf, if_neg rightInf, if_neg leftInf, if_neg rightInf, compare_coe,
        compare_coe, compare_neg]

theorem extendedValue_nonpos {fmt : RegisterFormat} (negative : fmt.sign) :
    fmt.extendedValue K ≤ ((0 : K) : WithTop K) := by
  unfold RegisterFormat.extendedValue RegisterFormat.value
  rw [signed, if_pos negative, if_pos negative]
  split_ifs
  · exact bot_le
  · exact WithBot.coe_le_coe.mpr (WithTop.coe_le_coe.mpr (neg_nonpos.mpr (scaled_nonneg _ _)))

theorem extendedValue_nonneg {fmt : RegisterFormat} (positive : fmt.sign = false) :
    ((0 : K) : WithTop K) ≤ fmt.extendedValue K := by
  unfold RegisterFormat.extendedValue RegisterFormat.value
  have notNegative : ¬fmt.sign := by simp [positive]
  rw [signed, if_neg notNegative, if_neg notNegative]
  split_ifs
  · exact WithBot.coe_le_coe.mpr le_top
  · exact WithBot.coe_le_coe.mpr (WithTop.coe_le_coe.mpr (scaled_nonneg _ _))

/-- What is no NaN and stands for zero is a zero. -/
theorem isZero_of_extendedValue (number : fmt.isNan = false)
    (zero : fmt.extendedValue K = ((0 : K) : WithTop K)) : fmt.isZero := by
  unfold RegisterFormat.extendedValue at zero
  by_cases infinite : fmt.isInfinity
  · rw [if_pos infinite] at zero
    split_ifs at zero
    · exact absurd zero WithBot.bot_ne_coe
    · exact absurd (WithBot.coe_injective zero) WithTop.top_ne_coe
  · rw [if_neg infinite] at zero
    have none : fmt.value K = 0 := WithTop.coe_injective (WithBot.coe_injective zero)
    have mant : fmt.mant = 0 := by
      by_contra nonzero
      have positive : 0 < fmt.magnitude K := magnitude_pos nonzero
      unfold RegisterFormat.value signed at none
      split_ifs at none <;> linarith
    unfold RegisterFormat.isNan at number
    unfold RegisterFormat.isInfinity at infinite
    unfold RegisterFormat.isZero
    cases special : fmt.isSpecial with
    | false => simp [mant]
    | true => simp_all

omit [LinearOrder K] [IsStrictOrderedRing K] in
theorem magnitude_of_isZero {fmt : RegisterFormat} (zero : fmt.isZero) :
    fmt.magnitude K = 0 ∧ fmt.isInfinity = false := by
  unfold RegisterFormat.isZero at zero
  simp only [Bool.and_eq_true, beq_iff_eq, Bool.not_eq_eq_eq_not, Bool.not_true] at zero
  exact ⟨magnitude_of_zero zero.1, by simp [RegisterFormat.isInfinity, zero.2]⟩

omit [LinearOrder K] [IsStrictOrderedRing K] in
theorem extendedMagnitude_of_isZero {fmt : RegisterFormat} (zero : fmt.isZero) :
    fmt.extendedMagnitude K = ((0 : K) : WithTop K) := by
  simp [RegisterFormat.extendedMagnitude, magnitude_of_isZero (K := K) zero]

omit [LinearOrder K] [IsStrictOrderedRing K] in
theorem extendedValue_of_isZero (zero : fmt.isZero) :
    fmt.extendedValue K = ((0 : K) : WithTop K) := by
  simp [RegisterFormat.extendedValue, RegisterFormat.value,
    magnitude_of_isZero (K := K) zero, signed]

/-- Registers compare like the numbers they stand for. -/
theorem registerCompare_eq (leftNumber : left.isNan = false)
    (rightNumber : right.isNan = false) (quiet : Bool) :
    (registerCompare left right false quiet).1 =
      .ofOrdering (compare (left.extendedValue K) (right.extendedValue K)) := by
  unfold registerCompare
  simp only [leftNumber, rightNumber, Bool.or_self, Bool.false_eq_true, if_false, Bool.false_or]
  by_cases zeros : (left.isZero && right.isZero)
  · -- Zeros are equal whatever their signs.
    rw [if_pos zeros]
    rw [Bool.and_eq_true] at zeros
    have leftMagnitude := extendedMagnitude_of_isZero (K := K) zeros.1
    have rightMagnitude := extendedMagnitude_of_isZero (K := K) zeros.2
    rw [magnitudeCompare_eq (K := K), leftMagnitude, rightMagnitude,
      extendedValue_of_isZero zeros.1, extendedValue_of_isZero zeros.2]
  · rw [if_neg zeros]
    by_cases signs : (left.sign != right.sign)
    · rw [if_pos signs]
      -- Numbers of different signs lie on different sides of zero, and not both on it.
      have strict : ∀ {low high : RegisterFormat}, low.isNan = false → high.isNan = false →
          (low.isZero && high.isZero) ≠ true → low.sign → high.sign = false →
          low.extendedValue K < high.extendedValue K := by
        intro low high lowNumber highNumber apart negative positive
        have below := extendedValue_nonpos (K := K) negative
        have above := extendedValue_nonneg (K := K) positive
        refine lt_of_le_of_ne (below.trans above) fun same => apart ?_
        have lowSame := le_antisymm below (same ▸ above)
        rw [Bool.and_eq_true]
        exact ⟨isZero_of_extendedValue lowNumber lowSame,
          isZero_of_extendedValue highNumber (same ▸ lowSame)⟩
      cases negative : left.sign with
      | true =>
        have positive : right.sign = false := by simpa [negative] using signs
        rw [compare_lt_iff_lt.mpr (strict leftNumber rightNumber zeros negative positive)]
        rfl
      | false =>
        have other : right.sign := by simpa [negative] using signs
        rw [Bool.and_comm] at zeros
        rw [compare_gt_iff_gt.mpr (strict rightNumber leftNumber zeros other negative)]
        rfl
    · rw [if_neg signs]
      have same : left.sign = right.sign := by simpa using signs
      rw [compare_of_same_sign same, magnitudeCompare_eq (K := K)]

theorem registerCompare_unordered_iff (left right : RegisterFormat) (isAbs quiet : Bool) :
    (registerCompare left right isAbs quiet).1 = .unordered ↔ left.isNan ∨ right.isNan := by
  have ordered : ∀ order, FloatRelation.ofOrdering order ≠ .unordered := by
    intro order
    cases order <;> simp [FloatRelation.ofOrdering]
  unfold registerCompare
  by_cases nan : (left.isNan || right.isNan)
  · rw [if_pos nan]
    simpa using nan
  · rw [if_neg nan]
    simp only [Bool.or_eq_true] at nan
    dsimp only
    split_ifs <;> simp [ordered, nan]

theorem isNan_eq_of_supported (supported : fmt.isUnsupported = false) :
    fmt.isNan = fmt.isSupportedNan := by
  unfold RegisterFormat.isUnsupported at supported
  unfold RegisterFormat.isNan RegisterFormat.isSupportedNan
  cases special : fmt.isSpecial with
  | false => rfl
  | true =>
    have bit : fmt.mant.getLsbD 63 := by simpa [special] using supported
    simp [bit]

end Signs

/-- Registers that are not NaNs compare, with or without their signs, like the rational numbers and
infinities they stand for; of supported encodings exactly the NaNs are unordered. -/
theorem registerCompare_exact (left right : RegisterFormat) (quiet : Bool) :
    (left.isNan = false → right.isNan = false →
      (registerCompare left right false quiet).1 =
          .ofOrdering (compare (left.extendedValue ℚ) (right.extendedValue ℚ)) ∧
        (registerCompare left right true quiet).1 =
          .ofOrdering (compare (left.extendedMagnitude ℚ) (right.extendedMagnitude ℚ))) ∧
      (left.isUnsupported = false → right.isUnsupported = false → ∀ isAbs,
        ((registerCompare left right isAbs quiet).1 = .unordered ↔
          left.isSupportedNan = true ∨ right.isSupportedNan = true)) := by
  refine ⟨fun leftNumber rightNumber => ⟨registerCompare_eq leftNumber rightNumber quiet, ?_⟩,
    fun leftSupported rightSupported isAbs => ?_⟩
  · rw [← magnitudeCompare_eq, registerCompare]
    simp [leftNumber, rightNumber]
  · rw [registerCompare_unordered_iff, isNan_eq_of_supported leftSupported,
      isNan_eq_of_supported rightSupported]

/-- A denormal and an unnormal encoding stand for one number, and a NaN is not ordered. -/
theorem registerCompare_exact_encodings :
    compare (RegisterFormat.extendedValue ℚ ⟨false, 0, 0x4000000000000000⟩)
        (RegisterFormat.extendedValue ℚ ⟨false, 0xc000, 0x8000000000000000⟩) = .eq ∧
      (registerCompare ⟨false, 0x1ffff, 0xc000000000000000⟩ ⟨false, 0, 0⟩ true true).1 =
        .unordered := by
  have equal := ((registerCompare_exact ⟨false, 0, 0x4000000000000000⟩
    ⟨false, 0xc000, 0x8000000000000000⟩ false).1 (by decide) (by decide)).1
  refine ⟨?_,
    ((registerCompare_exact _ _ true).2 (by decide) (by decide) true).mpr (Or.inl (by decide))⟩
  generalize compare (RegisterFormat.extendedValue ℚ _) _ = order at equal ⊢
  cases order
  · exact absurd equal (by decide)
  · rfl
  · exact absurd equal (by decide)

end Ia64.Fp
