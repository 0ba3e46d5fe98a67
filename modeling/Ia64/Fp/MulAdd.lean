import Ia64.Fp.Arithmetic
import Ia64.Fp.Wide

/-! The multiply-add as an exact result before rounding. -/

namespace Ia64.Fp

open AlignedSum BinaryDigits Rounding Wide

/-- The variants of a multiply-add: with the product and the addend, the addend negated, or the
product negated. -/
inductive MulAddOperation
  | muladd
  | mulsub
  | negMuladd
deriving DecidableEq, Repr

/-- How the magnitudes of a product and an addend that are not zero compare. -/
def wideCompare (product : Wide) (productExp : Int) (addend : Wide) (addendExp : Int) : Ordering :=
  if productExp ≠ addendExp then if addendExp < productExp then .gt else .lt
    else product.compare addend

/-- Add a product and an addend that are not zero; a zero that comes from different signs is
negative if rounding down. -/
def addWide (productSign : Bool) (product : Wide) (productExp : Int) (addendSign : Bool)
    (addend : Wide) (addendExp : Int) (down : Bool) : RawResult :=
  let resultExp := max productExp addendExp
  let (productAligned, productDiscarded) := product.shiftRight (resultExp - productExp).toNat
  let (addendAligned, addendDiscarded) := addend.shiftRight (resultExp - addendExp).toNat
  let fractionalTail := productDiscarded || addendDiscarded
  if productSign = addendSign then
    let (result, carry) := productAligned.add addendAligned
    if carry then
      ⟨productSign, resultExp + 1, 2 ^ 63 ||| result.high.toNat / 2 ^ 65,
        rawSetFraction (result.high.toNat / 2 % 2 ^ 64)
          (result.high.toNat % 2 != 0 || result.low != 0#128 || fractionalTail)⟩
    else result.toRaw resultExp productSign fractionalTail
  else
    let subtract (minuend subtrahend : Wide) (borrow : Bool) : Wide :=
      if borrow then (minuend.sub subtrahend).decrement else minuend.sub subtrahend
    match wideCompare product productExp addend addendExp with
    | .eq => { RawResult.zero with sign := down }
    | .gt =>
      (subtract productAligned addendAligned addendDiscarded).toRaw resultExp
        productSign fractionalTail
    | .lt =>
      (subtract addendAligned productAligned productDiscarded).toRaw resultExp
        addendSign fractionalTail

/-- Multiply two operands and add a third one. -/
def muladdOperands (addend left right : SwaFormat) (op : MulAddOperation)
    (down : Bool) : RawResult :=
  let exactProduct := left.mant * right.mant
  let productSign := (left.sign ^^ right.sign) ^^ decide (op = .negMuladd)
  let addendSign := addend.sign ^^ decide (op = .mulsub)
  if exactProduct = 0 then
    if addend.mant ≠ 0 then ⟨addendSign, addend.exp, addend.mant, .none⟩
    else { RawResult.zero with sign := if productSign = addendSign then productSign else down }
  else
    let productExp := left.exp + right.exp - wreBias
    let (product, productExp) : Wide × Int :=
      if exactProduct / 2 ^ 127 ≠ 0 then (⟨BitVec.ofNat 128 exactProduct, 0#128⟩, productExp + 1)
      else (⟨BitVec.ofNat 128 (exactProduct * 2), 0#128⟩, productExp)
    if addend.mant = 0 then product.toRaw productExp productSign false
    else addWide productSign product productExp addendSign ⟨BitVec.ofNat 128 (addend.mant * 2 ^ 64),
      0#128⟩ addend.exp down

/-- The exact result of a multiply-add of registers, if all are finite. -/
def staticMuladdRaw (addend left right : RegisterFormat) (rounding : Mode) (op : MulAddOperation) :
    Option RawResult := do
  let left ← staticFormatOperand left
  let right ← staticFormatOperand right
  let addend ← staticFormatOperand addend
  return muladdOperands addend left right op (rounding = .down)

section Exactness

variable {K : Type*} [Field K] [LinearOrder K] [IsStrictOrderedRing K]

/-- The number of 256 digits with their first one at the top. -/
def wideValue (K : Type*) [Field K] (sign : Bool) (value : Wide) (exp : Int) : K :=
  signed sign (value.toNat * 2 ^ (exp - wreBias - 255))

/-- Digits of an operand of the addition: the first one is at the top and the last one is zero. -/
structure WideNormal (value : Wide) : Prop where
  least : 2 ^ 255 ≤ value.toNat
  even : 2 ∣ value.toNat

theorem wideValue_eq (sign : Bool) (value : Wide) (exp : Int) :
    wideValue K sign value exp =
      signed sign ((value.toNat : K) * 2 ^ exp * 2 ^ (-(wreBias : ℤ) - 255)) := by
  rw [wideValue, mul_assoc, ← zpow_add₀ two_ne_zero]
  congr 3
  ring

theorem shiftRight_aligned (value : Wide) (exp target : Int) :
    (value.shiftRight (target - exp).toNat).1.toNat = aligned value.toNat exp target ∧
      (value.shiftRight (target - exp).toNat).2 = discards value.toNat exp target :=
  value.shiftRight_eq _

/-- A sum that carries out of the upper half denotes it. -/
theorem wide_carry_denotes (sign : Bool) (exp : Int) {total : Nat} {result : Wide}
    {rest : K} {tail : Bool} (known : result.toNat = total % 2 ^ 256) (least : 2 ^ 256 ≤ total)
    (most : total < 2 ^ (256 + 1)) (nonneg : 0 ≤ rest) (below : rest < 1)
    (sticks : tail ↔ rest ≠ 0) :
    (RawResult.mk sign (exp + 1) (2 ^ 63 ||| result.high.toNat / 2 ^ 65)
      (rawSetFraction (result.high.toNat / 2 % 2 ^ 64)
        (result.high.toNat % 2 != 0 || result.low != 0#128 || tail))).Denotes
          (signed sign (((total : K) + rest) * 2 ^ (exp - wreBias - 255))) := by
  have highLt := result.high.isLt
  have lowLt := result.low.isLt
  have digits : total = 2 ^ 256 + result.high.toNat * 2 ^ 128 + result.low.toNat := by
    unfold Wide.toNat at known
    omega
  have mant : 2 ^ 63 ||| result.high.toNat / 2 ^ 65 = total / 2 ^ (192 + 1) := by
    have upper : result.high.toNat / 2 ^ 65 < 2 ^ 63 := by omega
    have split := Nat.two_pow_add_eq_or_of_lt upper 1
    rw [mul_one] at split
    rw [← split]
    omega
  have residue : rawSetFraction (result.high.toNat / 2 % 2 ^ 64)
      (result.high.toNat % 2 != 0 || result.low != 0#128 || tail) =
        Residue.ofFraction (2 ^ 192) (total % 2 ^ (192 + 1)) tail := by
    have parts : total % 2 ^ (192 + 1) / 2 ^ 129 = result.high.toNat / 2 % 2 ^ 64 ∧
        total % 2 ^ (192 + 1) % 2 ^ 129 = result.high.toNat % 2 * 2 ^ 128 + result.low.toNat := by
          omega
    rw [show 2 ^ 192 = 2 ^ 63 * 2 ^ 129 from rfl,
      ← Residue.ofFraction_split tail (Nat.two_pow_pos 129), parts.1,
      parts.2, pair_ne_zero, ← half_ne_zero, rawSetFraction, Bool.or_comm (result.low != 0#128)]
  rw [show 256 + 1 = 64 + (192 + 1) from rfl] at most
  have denotes := digits_denotes sign (exp + 1) 192 least most nonneg below sticks
  have scale : exp + 1 - wreBias - 63 - ((192 : ℕ) + 1) = exp - wreBias - 255 := by
    push_cast
    ring
  rw [scale] at denotes
  rw [mant, residue]
  exact denotes

variable {product addend : Wide} {productExp addendExp : Int} {digits : Nat}

/-- A product and an addend of the same sign. -/
theorem wide_total_denotes (sign : Bool) (productExp addendExp : Int) (down : Bool)
    (productNormal : WideNormal product) (addendNormal : WideNormal addend) :
    (addWide sign product productExp sign addend addendExp down).Denotes
      (wideValue K sign product productExp + wideValue K sign addend addendExp) := by
  obtain ⟨rest, nonneg, below, sticks, exact, least, most⟩ :=
    sum_spec (K := K) productExp addendExp productNormal.least product.toNat_lt
      addendNormal.least addend.toNat_lt
  have scale : max productExp addendExp + (-(wreBias : ℤ) - 255) =
      max productExp addendExp - wreBias - 255 := by ring
  rw [wideValue_eq, wideValue_eq, signed_add, ← add_mul, exact, mul_assoc,
    ← zpow_add₀ two_ne_zero, scale]
  obtain ⟨productDigits, productLoss⟩ :=
    shiftRight_aligned product productExp (max productExp addendExp)
  obtain ⟨addendDigits, addendLoss⟩ :=
    shiftRight_aligned addend addendExp (max productExp addendExp)
  obtain ⟨digits, carries⟩ := add_eq
    (product.shiftRight (max productExp addendExp - productExp).toNat).1
    (addend.shiftRight (max productExp addendExp - addendExp).toNat).1
  rw [productDigits, addendDigits] at digits carries
  simp only [addWide, if_true, productLoss, addendLoss]
  split_ifs with carry
  · exact wide_carry_denotes sign _ digits (carries.mp carry) most nonneg below sticks
  · have small := Nat.not_le.mp fun reaches => carry (carries.mpr reaches)
    rw [Nat.mod_eq_of_lt small] at digits
    rw [← digits] at least ⊢
    exact toRaw_denotes sign _ (by omega) nonneg below sticks fun _ => by omega

theorem subtract_eq {minuend subtrahend : Wide} {borrow : Bool}
    (less : subtrahend.toNat < minuend.toNat) :
    (if borrow then (minuend.sub subtrahend).decrement else minuend.sub subtrahend).toNat =
      minuend.toNat - subtrahend.toNat - if borrow then 1 else 0 := by
  have difference := sub_eq less.le
  have positive : (minuend.sub subtrahend).toNat ≠ 0 := by
    rw [difference]
    exact (Nat.sub_pos_of_lt less).ne'
  cases borrow
  · rw [if_neg Bool.false_ne_true, if_neg Bool.false_ne_true, difference, Nat.sub_zero]
  · rw [if_pos rfl, if_pos rfl, decrement_eq positive, difference]

/-- A difference of magnitudes, the first one larger. -/
theorem wide_difference_denotes (sign : Bool) {left right : Wide} {leftExp rightExp : Int}
    (leftNormal : WideNormal left) (rightNormal : WideNormal right)
    (larger : rightExp < leftExp ∨ rightExp = leftExp ∧ right.toNat < left.toNat) :
    let target := max leftExp rightExp
    let borrow := (right.shiftRight (target - rightExp).toNat).2
    let minuend := (left.shiftRight (target - leftExp).toNat).1
    let subtrahend := (right.shiftRight (target - rightExp).toNat).1
    (left.shiftRight (target - leftExp).toNat).2 = false ∧
      ((if borrow then (minuend.sub subtrahend).decrement
        else minuend.sub subtrahend).toRaw target sign borrow).Denotes
        (wideValue K sign left leftExp + wideValue K (!sign) right rightExp) := by
  intro target borrow minuend subtrahend
  obtain ⟨leftDigits, leftLoss⟩ := shiftRight_aligned left leftExp target
  obtain ⟨rightDigits, rightLoss⟩ := shiftRight_aligned right rightExp target
  obtain ⟨whole, less, rest, nonneg, below, sticks, exact, nonzero, -, near⟩ :=
    difference_spec (K := K) leftNormal.least left.toNat_lt right.toNat_lt rightNormal.even
      (by decide) larger
  have scale : target + (-(wreBias : ℤ) - 255) = target - wreBias - 255 := by ring
  have digits : (if borrow then (minuend.sub subtrahend).decrement
      else minuend.sub subtrahend).toNat =
      aligned left.toNat leftExp target - aligned right.toNat rightExp target -
        if discards right.toNat rightExp target then 1 else 0 := by
    rw [subtract_eq (by rw [leftDigits, rightDigits]; exact less), leftDigits,
      rightDigits, ← rightLoss]
  refine ⟨leftLoss.trans whole, ?_⟩
  rw [wideValue_eq, wideValue_eq, signed_add_not, ← sub_mul, exact, mul_assoc,
    ← zpow_add₀ two_ne_zero, scale, ← digits]
  rw [← rightLoss] at sticks
  rw [← digits] at nonzero near
  exact toRaw_denotes sign target nonzero nonneg below sticks near

theorem wideCompare_gt
    (greater : wideCompare product productExp addend addendExp = .gt) :
    addendExp < productExp ∨ addendExp = productExp ∧ addend.toNat < product.toNat := by
  unfold wideCompare at greater
  split_ifs at greater with apart above
  · exact Or.inl above
  · rw [compare_eq] at greater
    exact Or.inr ⟨(not_not.mp apart).symm, Nat.compare_eq_gt.mp greater⟩

theorem wideCompare_lt
    (smaller : wideCompare product productExp addend addendExp = .lt) :
    productExp < addendExp ∨ productExp = addendExp ∧ product.toNat < addend.toNat := by
  unfold wideCompare at smaller
  split_ifs at smaller with apart above
  · omega
  · rw [compare_eq] at smaller
    exact Or.inr ⟨not_not.mp apart, Nat.compare_eq_lt.mp smaller⟩

theorem wideCompare_eq
    (same : wideCompare product productExp addend addendExp = .eq) :
    productExp = addendExp ∧ product.toNat = addend.toNat := by
  unfold wideCompare at same
  split_ifs at same with apart above
  rw [compare_eq] at same
  exact ⟨not_not.mp apart, Nat.compare_eq_eq.mp same⟩

/-- The sum of a product and an addend is exact. -/
theorem addWide_exact (productSign addendSign : Bool) (productExp addendExp : Int)
    (productNormal : WideNormal product) (addendNormal : WideNormal addend) (down : Bool) :
    (addWide productSign product productExp addendSign addend addendExp down).Exact
      (wideValue K productSign product productExp + wideValue K addendSign addend addendExp)
      (if productSign = addendSign then productSign else down) := by
  by_cases signs : productSign = addendSign
  · subst signs
    exact (wide_total_denotes productSign productExp addendExp down productNormal
      addendNormal).exactly _
  · -- Magnitudes are subtracted, the smaller one from the larger one.
    obtain rfl : addendSign = !productSign := Bool.eq_not.mpr (Ne.symm signs)
    simp only [addWide, if_neg signs]
    cases order : wideCompare product productExp addend addendExp with
    | eq =>
      obtain ⟨exps, digits⟩ := wideCompare_eq order
      have zero : wideValue K productSign product productExp +
          wideValue K (!productSign) addend addendExp = 0 := by
        rw [wideValue, wideValue, signed_add_not, exps, digits, sub_self, signed_eq_zero_iff]
      exact RawResult.exact_zero zero _
    | gt =>
      obtain ⟨whole, denotes⟩ :=
        wide_difference_denotes (K := K) productSign productNormal addendNormal
        (wideCompare_gt order)
      simp only [whole, Bool.false_or]
      exact denotes.exactly _
    | lt =>
      obtain ⟨whole, denotes⟩ :=
        wide_difference_denotes (K := K) (!productSign) addendNormal productNormal
        (wideCompare_lt order)
      rw [max_comm addendExp productExp, Bool.not_not, add_comm] at denotes
      rw [max_comm addendExp productExp] at whole
      simp only [whole, Bool.or_false]
      exact denotes.exactly _

theorem toNat_upper (bound : digits < 2 ^ 128) :
    (Wide.mk (BitVec.ofNat 128 digits) 0#128).toNat = digits * 2 ^ 128 := by
  rw [Wide.toNat, BitVec.toNat_ofNat, Nat.mod_eq_of_lt bound, BitVec.toNat_zero, add_zero]

theorem wideNormal_upper (least : 2 ^ 127 ≤ digits) (bound : digits < 2 ^ 128) :
    WideNormal ⟨BitVec.ofNat 128 digits, 0#128⟩ := by
  refine ⟨?_, ?_⟩
  · rw [toNat_upper bound]
    omega
  · rw [toNat_upper bound]
    exact Dvd.dvd.mul_left (by decide) _

theorem wideValue_upper (sign : Bool) (bound : digits < 2 ^ 128) (exp : Int) :
    wideValue K sign ⟨BitVec.ofNat 128 digits, 0#128⟩ exp =
      signed sign ((digits : K) * 2 ^ (exp - wreBias - 127)) := by
  have scale : exp - wreBias - 127 = (128 : ℕ) + (exp - wreBias - 255) := by
    push_cast
    ring
  rw [wideValue, toNat_upper bound, scale, zpow_add₀ two_ne_zero, zpow_natCast]
  push_cast
  ring_nf

theorem wideValue_operand (sign : Bool) {operand : SwaFormat} (normal : operand.Normal) :
    wideValue K sign ⟨BitVec.ofNat 128 (operand.mant * 2 ^ 64), 0#128⟩ operand.exp =
      signed sign (scaled K operand.mant operand.exp) := by
  have most := normal.1
  have scale : operand.exp - wreBias - 63 = (64 : ℕ) + (operand.exp - wreBias - 127) := by
    push_cast
    ring
  rw [wideValue_upper sign (by omega), scaled, scale, zpow_add₀ two_ne_zero, zpow_natCast]
  push_cast
  ring_nf

/-- The digits of a product at the top of the upper half. -/
theorem product_upper (sign : Bool) {left right : SwaFormat} (leftNormal : left.Normal)
    (rightNormal : right.Normal) (nonzero : left.mant * right.mant ≠ 0) :
    let product : Wide × Int :=
      if left.mant * right.mant / 2 ^ 127 ≠ 0 then
        (⟨BitVec.ofNat 128 (left.mant * right.mant), 0#128⟩, left.exp + right.exp - wreBias + 1)
      else (⟨BitVec.ofNat 128 (left.mant * right.mant * 2), 0#128⟩, left.exp + right.exp - wreBias)
    WideNormal product.1 ∧ wideValue K sign product.1 product.2 =
      signed sign (scaled K left.mant left.exp * scaled K right.mant right.exp) := by
  intro product
  obtain ⟨least, most⟩ := product_bounds leftNormal rightNormal nonzero
  rw [scaled_mul_scaled]
  simp only [product]
  clear product
  generalize left.mant * right.mant = digits at *
  split_ifs with top
  · refine ⟨wideNormal_upper (by omega) (by omega), ?_⟩
    rw [wideValue_upper sign most]
    congr 3
    ring
  · refine ⟨wideNormal_upper (by omega) (by omega), ?_⟩
    have scale : left.exp + right.exp - wreBias - wreBias - 126 =
        1 + (left.exp + right.exp - wreBias - wreBias - 127) := by ring
    rw [wideValue_upper sign (by omega), scale, zpow_add₀ two_ne_zero, zpow_one]
    push_cast
    ring_nf

/-- A multiply-add of operands is exact. -/
theorem muladdOperands_exact {addend left right : SwaFormat} (addendNormal : addend.Normal)
    (leftNormal : left.Normal) (rightNormal : right.Normal) (op : MulAddOperation) (down : Bool) :
    let productSign := (left.sign ^^ right.sign) ^^ decide (op = .negMuladd)
    let addendSign := addend.sign ^^ decide (op = .mulsub)
    (muladdOperands addend left right op down).Exact
      (signed productSign (scaled K left.mant left.exp * scaled K right.mant right.exp) +
        signed addendSign (scaled K addend.mant addend.exp))
      (if productSign = addendSign then productSign else down) := by
  intro productSign addendSign
  unfold muladdOperands
  by_cases zero : left.mant * right.mant = 0
  · -- The sum is the addend, or a zero.
    rw [if_pos zero, scaled_mul_scaled, zero, Nat.cast_zero, zero_mul,
      (signed_eq_zero_iff _ _).mpr rfl, zero_add]
    by_cases none : addend.mant = 0
    · rw [if_neg (not_not.mpr none)]
      refine RawResult.exact_zero ?_ _
      rw [none, scaled_zero, signed_eq_zero_iff]
    · rw [if_pos none]
      refine (denotes_mk addendSign (addendNormal.2 none) addendNormal.1
        Residue.none_describes ?_).exactly _
      rw [scaled, add_zero]
  rw [if_neg zero]
  obtain ⟨normal, value⟩ := product_upper (K := K) productSign leftNormal rightNormal zero
  generalize product : (if left.mant * right.mant / 2 ^ 127 ≠ 0 then
        ((⟨BitVec.ofNat 128 (left.mant * right.mant), 0#128⟩,
          left.exp + right.exp - wreBias + 1) : Wide × Int)
      else (⟨BitVec.ofNat 128 (left.mant * right.mant * 2), 0#128⟩,
        left.exp + right.exp - wreBias)) = pair at *
  obtain ⟨digits, exp⟩ := pair
  simp only [product]
  rw [← value]
  by_cases none : addend.mant = 0
  · rw [if_pos none, none, scaled_zero, (signed_eq_zero_iff _ _).mpr rfl, add_zero]
    have nonzero : digits.toNat ≠ 0 := (lt_of_lt_of_le (Nat.two_pow_pos _) normal.least).ne'
    have denotes := toRaw_denotes productSign exp nonzero le_rfl (zero_lt_one : (0 : K) < 1)
      (by simp : false ↔ (0 : K) ≠ 0) (fun some => absurd rfl some)
    rw [add_zero] at denotes
    exact denotes.exactly _
  · rw [if_neg none]
    have addendDigits := addendNormal.digits none
    rw [← wideValue_operand addendSign addendNormal]
    exact addWide_exact productSign addendSign exp addend.exp normal
      (wideNormal_upper addendDigits.1 addendDigits.2) down

end Exactness

/-- The result for the operands read from registers is exact for the registers. -/
theorem muladdOperands_format {addend left right : RegisterFormat} {third first second : SwaFormat}
    (readThird : staticFormatOperand addend = some third)
    (readFirst : staticFormatOperand left = some first)
    (readSecond : staticFormatOperand right = some second) (op : MulAddOperation) (down : Bool) :
    let productSign := (left.sign ^^ right.sign) ^^ decide (op = .negMuladd)
    let addendSign := addend.sign ^^ decide (op = .mulsub)
    (muladdOperands third first second op down).Exact
      (signed (decide (op = .negMuladd)) (left.value ℚ * right.value ℚ) +
        signed (decide (op = .mulsub)) (addend.value ℚ))
      (if productSign = addendSign then productSign else down) := by
  intro productSign addendSign
  obtain ⟨firstNormal, firstSign, firstValue, -⟩ := staticFormatOperand_spec (K := ℚ) readFirst
  obtain ⟨secondNormal, secondSign, secondValue, -⟩ := staticFormatOperand_spec (K := ℚ) readSecond
  obtain ⟨thirdNormal, thirdSign, thirdValue, -⟩ := staticFormatOperand_spec (K := ℚ) readThird
  have exact := muladdOperands_exact (K := ℚ) thirdNormal firstNormal secondNormal op down
  rw [← firstValue, ← secondValue, ← thirdValue, SwaFormat.value, SwaFormat.value,
    SwaFormat.value, signed_mul, signed_signed, signed_signed,
    Bool.xor_comm (decide (op = .negMuladd)), Bool.xor_comm (decide (op = .mulsub))]
  simp only [productSign, addendSign, ← firstSign, ← secondSign, ← thirdSign]
  exact exact

/-- A multiply-add of finite registers is computed, and exact. A zero has the common sign of the
product and the addend, or is negative if rounding down. -/
theorem staticMuladdRaw_exact (addend left right : RegisterFormat)
    (addendFinite : addend.isSpecial = false) (leftFinite : left.isSpecial = false)
    (rightFinite : right.isSpecial = false) (rounding : Mode) (op : MulAddOperation) :
    let productSign := (left.sign ^^ right.sign) ^^ decide (op = .negMuladd)
    let addendSign := addend.sign ^^ decide (op = .mulsub)
    ∃ raw, staticMuladdRaw addend left right rounding op = some raw ∧
      raw.Exact (signed (decide (op = .negMuladd)) (left.value ℚ * right.value ℚ) +
          signed (decide (op = .mulsub)) (addend.value ℚ))
        (if productSign = addendSign then productSign else decide (rounding = .down)) := by
  intro productSign addendSign
  obtain ⟨first, readFirst⟩ := staticFormatOperand_of_finite leftFinite
  obtain ⟨second, readSecond⟩ := staticFormatOperand_of_finite rightFinite
  obtain ⟨third, readThird⟩ := staticFormatOperand_of_finite addendFinite
  refine ⟨muladdOperands third first second op (rounding = .down), ?_,
    muladdOperands_format readThird readFirst readSecond op _⟩
  rw [staticMuladdRaw, readFirst, readSecond, readThird]
  rfl

/-- The square of the number after one, less that number: nearly all digits cancel. -/
theorem staticMuladdRaw_exact_cancelling :
    let one : RegisterFormat := ⟨false, 0xffff, 0x8000000000000001⟩
    ∃ raw, staticMuladdRaw one one one .nearestEven .mulsub = some raw ∧
      raw.Exact (signed false (one.value ℚ * one.value ℚ) + signed true (one.value ℚ))
        (if ((false ^^ false) ^^ false) = (false ^^ true)
          then ((false ^^ false) ^^ false) else false) :=
  staticMuladdRaw_exact ⟨false, 0xffff, 0x8000000000000001⟩ ⟨false, 0xffff, 0x8000000000000001⟩
    ⟨false, 0xffff, 0x8000000000000001⟩ rfl rfl rfl .nearestEven .mulsub

end Ia64.Fp
