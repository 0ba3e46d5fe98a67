import Ia64.Fp.Raw
import Ia64.Fp.Status
import Mathlib.Data.Rat.Floor

/-! Delivery of an exact result: rounding to the precision and the range of the computation
model. -/

namespace Ia64.Fp

open BinaryDigits Rounding BitVec RegisterFormat

/-- The precision and the exponents of the results that can be delivered. -/
structure ComputationModel where
  bits : Nat
  minExp : Int
  maxExp : Int
  least_bits : 24 ≤ bits
  most_bits : bits ≤ 64
  min_pos : 0 < minExp
  min_le_max : minExp ≤ maxExp
  max_lt : maxExp < regSpecialExp
deriving DecidableEq

/-- The precision of a model is positive. -/
theorem ComputationModel.bits_pos (model : ComputationModel) : 0 < model.bits :=
  lt_of_lt_of_le (by decide) model.least_bits

/-- The model that an instruction's precision and the controls of its status field select, if there
is one. -/
def computationModel (controls : Word) (precision : Nat) : Option ComputationModel :=
  let wide (bits : Nat) (least : 24 ≤ bits) (most : bits ≤ 64) : ComputationModel :=
    ⟨bits, 0x00001, 0x1fffe, least, most, by decide, by decide, by decide⟩
  let extended (bits : Nat) (least : 24 ≤ bits) (most : bits ≤ 64) : ComputationModel :=
    if controls.getLsbD 1 then wide bits least most
    else ⟨bits, 0x0c001, 0x13ffe, least, most, by decide, by decide, by decide⟩
  match precision with
  | 1 =>
    some (if controls.getLsbD 1 then wide 24 (by decide) (by decide)
      else ⟨24, 0x0ff81, 0x1007e, by decide, by decide, by decide, by decide, by decide⟩)
  | 2 =>
    some (if controls.getLsbD 1 then wide 53 (by decide) (by decide)
      else ⟨53, 0x0fc01, 0x103fe, by decide, by decide, by decide, by decide, by decide⟩)
  | 0 =>
    match controls.getLsbD 3, controls.getLsbD 2 with
    | false, false => some (extended 24 (by decide) (by decide))
    | true, false => some (extended 53 (by decide) (by decide))
    | true, true => some (extended 64 (by decide) (by decide))
    | false, true => none
  | _ => none

/-- Whether an exception of a status field is masked; the first field cannot disable traps. -/
def fpswaExceptionMasked (fpsr : Word) (sf flag : Nat) : Bool :=
  (sf != 0 && (fpsrSfControls fpsr sf).getLsbD 6) || fpsr.getLsbD flag

/-- A result rounded to a precision, whatever its exponent. -/
structure Rounded where
  exp : Int
  mant : Nat
  inexact : Bool
  fpa : Bool
deriving DecidableEq, Repr

/-- Round with unbounded exponent range. -/
def roundUnbounded (bits : Nat) (raw : RawResult) (rounding : Mode) : Rounded :=
  let shift := 64 - bits
  let (rounded, inexact, fpa) := fpswaRoundRight raw shift rounding
  -- A carry out of the precision moves the digits down by one place.
  if rounded = 2 ^ bits then ⟨raw.exp + 1, rounded / 2 * 2 ^ shift, inexact, fpa⟩
  else ⟨raw.exp, rounded * 2 ^ shift, inexact, fpa⟩

/-- Round a number that is too small once, to a multiple of the smallest denormal number. -/
def roundDenormal (model : ComputationModel) (raw : RawResult) (rounding : Mode) : Rounded :=
  let shift := 64 - model.bits
  let exponentShift := (model.minExp - raw.exp).toNat
  let denormalShift :=
    if 2 ^ 32 - 1 - shift < exponentShift then 2 ^ 32 - 1 else shift + exponentShift
  let (rounded, inexact, fpa) := fpswaRoundRight raw denormalShift rounding
  if rounded = 2 ^ (model.bits - 1) then ⟨model.minExp, 2 ^ 63, inexact, fpa⟩
  else
    let mant := rounded * 2 ^ shift
    ⟨if mant = 0 then 0 else model.minExp, mant, inexact, fpa⟩

/-- Whether an overflow is rounded to infinity. -/
def overflowsToInfinity (rounding : Mode) (sign : Bool) : Bool :=
  rounding = .nearestEven || (rounding = .down && sign) || (rounding = .up && !sign)

/-- The significand of the largest finite number of a precision. -/
def largestMant (bits : Nat) : Nat := (2 ^ 64 - 1) * 2 ^ (64 - bits) % 2 ^ 64

/-- What is delivered: the fields of the register, how the magnitude was rounded, and the
exceptions. -/
structure Delivery where
  exp : Int
  mant : Nat
  fpa : Bool
  overflow : Bool
  underflow : Bool
  inexact : Bool
deriving DecidableEq, Repr

/-- Round an exact result that is not zero in a computation model. -/
def deliverResult (model : ComputationModel) (rounding : Mode)
    (ftz overflowMasked underflowMasked : Bool) (raw : RawResult) : Delivery :=
  let unbounded := roundUnbounded model.bits raw rounding
  if model.maxExp < unbounded.exp then
    if !overflowMasked
      then ⟨unbounded.exp, unbounded.mant, unbounded.fpa, true, false, unbounded.inexact⟩
    else if overflowsToInfinity rounding raw.sign
      then ⟨regSpecialExp, 2 ^ 63, true, true, false, true⟩
    else ⟨model.maxExp, largestMant model.bits, false, true, false, true⟩
  else if unbounded.exp < model.minExp then
    if !underflowMasked
      then ⟨unbounded.exp, unbounded.mant, unbounded.fpa, false, true, unbounded.inexact⟩
    else if ftz then ⟨0, 0, false, false, true, true⟩
    else
      -- The exact result is rounded again, for the bounded range.
      let bounded := roundDenormal model raw rounding
      ⟨bounded.exp, bounded.mant, bounded.fpa, false, bounded.inexact, bounded.inexact⟩
  else ⟨unbounded.exp, unbounded.mant, unbounded.fpa, false, false, unbounded.inexact⟩

/-- The register that is written. -/
def Delivery.register (delivery : Delivery) (sign : Bool) : RegisterFormat :=
  ⟨sign, BitVec.ofInt 17 delivery.exp, BitVec.ofNat 64 delivery.mant⟩

/-- Deliver an exact result to a register; there is no answer if the controls select no model. -/
def FpState.deliverRaw (state : FpState) (r1 : Nat) (raw : RawResult) (sf precision : Nat) :
    Option FpState :=
  if raw.mant = 0 then some (state.frWriteExt r1 raw.sign 0 0)
  else do
    let controls := fpsrSfControls state.arFpsr sf
    let model ← computationModel controls precision
    let delivery := deliverResult model (controlsRounding controls) (controls.getLsbD 0)
      (fpswaExceptionMasked state.arFpsr sf 3) (fpswaExceptionMasked state.arFpsr sf 4) raw
    let state :=
      state.frWriteExt r1 raw.sign (BitVec.ofInt 32 delivery.exp &&& 0x1ffff)
        (BitVec.ofNat 64 delivery.mant)
    let soft := { SoftFlags.none with
      overflow := delivery.overflow, underflow := delivery.underflow, inexact := delivery.inexact }
    return { state with
      transaction := { state.transaction with trapFpa := delivery.fpa }
      fpStatus :=
        { state.fpStatus with exceptionFlags := state.fpStatus.exceptionFlags.raise soft } }

section Values

variable {K : Type*} [Field K] [LinearOrder K] [IsStrictOrderedRing K] [FloorRing K]
  {raw : RawResult} {x : K}

variable {bits : Nat} {model : ComputationModel}

/-- The least significand with a leading digit of a precision. -/
theorem low_places (positive : 0 < bits) (most : bits ≤ 64) :
    2 ^ (bits - 1) * 2 ^ (64 - bits) = 2 ^ 63 := by
  rw [← pow_add, show bits - 1 + (64 - bits) = 63 by omega]

/-- The first number beyond the significands of a precision. -/
theorem high_places (most : bits ≤ 64) : 2 ^ bits * 2 ^ (64 - bits) = 2 ^ 64 := by
  rw [← pow_add, show bits + (64 - bits) = 64 by omega]

omit [FloorRing K] in
/-- A place above a power of two. -/
theorem zpow_places (exp : Int) (places : Nat) :
    (2 : K) ^ (exp + places) = 2 ^ places * 2 ^ exp := by
  rw [zpow_add₀ two_ne_zero, zpow_natCast, mul_comm]

section

variable (denotes : raw.Denotes x)

include denotes

omit [IsStrictOrderedRing K] [FloorRing K] in
theorem RawResult.Denotes.digits :
    ∃ part : K, raw.residue.Describes part ∧
      x = signed raw.sign ((raw.mant + part) * 2 ^ (raw.exp - wreBias - 63)) := by
  obtain ⟨magnitude, ⟨part, describes, exact⟩, signs⟩ := denotes.exact
  exact ⟨part, describes, by rw [signs, exact]⟩

/-- An exact result lies between its powers of two. -/
theorem RawResult.Denotes.log :
    Int.log 2 |x| = raw.exp - wreBias := by
  obtain ⟨part, describes, exact⟩ := denotes.digits
  have least : (2 : K) ^ 63 ≤ raw.mant := by exact_mod_cast denotes.least
  have most : (raw.mant : K) + 1 ≤ 2 ^ 64 := by exact_mod_cast denotes.most
  have nonneg := describes.nonneg
  have below := describes.below
  have scale : (0 : K) < 2 ^ (raw.exp - wreBias - 63) := zpow_pos two_pos _
  have low := zpow_places (K := K) (raw.exp - wreBias - 63) 63
  have high := zpow_places (K := K) (raw.exp - wreBias - 63) 64
  rw [show raw.exp - wreBias - 63 + (63 : ℕ) = raw.exp - wreBias by push_cast; ring] at low
  rw [show raw.exp - wreBias - 63 + (64 : ℕ) = raw.exp - wreBias + 1 by push_cast; ring] at high
  rw [exact, abs_signed, abs_of_nonneg (by positivity)]
  refine log_eq ?_ ?_
  · rw [low]
    exact mul_le_mul_of_nonneg_right (by linarith) scale.le
  · rw [high]
    exact mul_lt_mul_of_pos_right (by linarith) scale

/-- Dropping digits rounds to a multiple of the unit. -/
theorem fpswaRoundRight_toMultiple (shift : Nat)
    (rounding : Mode) :
    let unit : K := 2 ^ (raw.exp - wreBias - 63 + shift)
    toMultiple rounding unit x = signed raw.sign ((fpswaRoundRight raw shift rounding).1 * unit) ∧
      ((fpswaRoundRight raw shift rounding).2.1 ↔ toMultiple rounding unit x ≠ x) := by
  intro unit
  obtain ⟨part, describes, exact⟩ := denotes.digits
  obtain ⟨rounded, inexact, -⟩ := fpswaRoundRight_spec describes denotes.most shift rounding
  have nonzero : unit ≠ 0 := zpow_ne_zero _ two_ne_zero
  have quotient : x / unit = signed raw.sign (((raw.mant : K) + part) / 2 ^ shift) := by
    have power : (2 : K) ^ shift ≠ 0 := pow_ne_zero _ two_ne_zero
    have scale : (2 : K) ^ (raw.exp - wreBias - 63) ≠ 0 := zpow_ne_zero _ two_ne_zero
    rw [exact, div_eq_mul_inv, signed_mul_right]
    simp only [unit]
    rw [zpow_add₀ two_ne_zero, zpow_natCast]
    congr 1
    field_simp
  have whole : toMultiple rounding unit x = signed raw.sign
      ((fpswaRoundRight raw shift rounding).1 * unit) := by
    rw [toMultiple, quotient, rounded, signed_intCast, signed_mul_right]
  refine ⟨whole, inexact.trans ?_⟩
  rw [← toInt_signed_ne_iff rounding raw.sign, ← quotient]
  refine not_congr ⟨fun same => ?_, fun same => ?_⟩
  · rw [toMultiple, same, div_mul_cancel₀ _ nonzero]
  · rw [eq_div_iff nonzero]
    exact same

theorem toPrecision_eq (most : bits ≤ 64)
    (rounding : Mode) :
    toPrecision rounding bits x = toMultiple rounding
      (2 ^ (raw.exp - wreBias - 63 + (64 - bits : ℕ))) x := by
  rw [toPrecision, denotes.log]
  congr 2
  push_cast [most]
  ring

omit [FloorRing K] in
theorem fpswaRoundRight_bounds (positive : 0 < bits)
    (most : bits ≤ 64) (rounding : Mode) :
    2 ^ (bits - 1) ≤ (fpswaRoundRight raw (64 - bits) rounding).1 ∧
      (fpswaRoundRight raw (64 - bits) rounding).1 ≤ 2 ^ bits := by
  obtain ⟨part, describes, -⟩ := denotes.digits
  have least : 2 ^ (bits - 1) ≤ raw.mant / 2 ^ (64 - bits) := by
    rw [Nat.le_div_iff_mul_le (Nat.two_pow_pos _), low_places positive most]
    exact denotes.least
  have below : raw.mant / 2 ^ (64 - bits) < 2 ^ bits := by
    rw [Nat.div_lt_iff_lt_mul (Nat.two_pow_pos _), high_places most]
    exact denotes.most
  rw [fpswaRoundRight_eq describes denotes.most]
  dsimp only
  split_ifs
  · omega
  · omega

/-- Rounding gives a normalized number of the precision. -/
theorem roundUnbounded_spec (positive : 0 < bits)
    (most : bits ≤ 64) (rounding : Mode) :
    let rounded := roundUnbounded bits raw rounding
    (2 ^ 63 ≤ rounded.mant ∧ rounded.mant < 2 ^ 64) ∧
      toPrecision rounding bits x = signed raw.sign (scaled K rounded.mant rounded.exp) ∧
      (rounded.inexact ↔ toPrecision rounding bits x ≠ x) := by
  intro rounded
  obtain ⟨whole, inexact⟩ := fpswaRoundRight_toMultiple denotes (64 - bits) rounding
  obtain ⟨least, bound⟩ := fpswaRoundRight_bounds denotes positive most rounding
  rw [← toPrecision_eq denotes most] at whole inexact
  have digits : ∀ n : ℕ, (n : K) * 2 ^ (raw.exp - wreBias - 63 + (64 - bits : ℕ)) =
      scaled K (n * 2 ^ (64 - bits)) raw.exp := by
    intro n
    rw [scaled, zpow_add₀ two_ne_zero, zpow_natCast]
    push_cast
    ring
  by_cases carry : (fpswaRoundRight raw (64 - bits) rounding).1 = 2 ^ bits
  · have known : rounded = ⟨raw.exp + 1, 2 ^ 63, (fpswaRoundRight raw (64 - bits) rounding).2.1,
        (fpswaRoundRight raw (64 - bits) rounding).2.2⟩ := by
      simp only [rounded, roundUnbounded, if_pos carry]
      have half : 2 ^ bits / 2 = 2 ^ (bits - 1) := by rw [← Nat.pow_div positive two_pos, pow_one]
      rw [carry, half, low_places positive most]
    rw [known]
    refine ⟨show 2 ^ 63 ≤ 2 ^ 63 ∧ 2 ^ 63 < 2 ^ 64 by decide, ?_, inexact⟩
    -- The power of two is one place higher.
    rw [whole, digits, carry, high_places most, scaled, scaled,
      show raw.exp + 1 - wreBias - 63 = 1 + (raw.exp - wreBias - 63) by ring,
      zpow_add₀ two_ne_zero, zpow_one, ← mul_assoc]
    norm_num
  · have known : rounded = ⟨raw.exp, (fpswaRoundRight raw (64 - bits) rounding).1 * 2 ^ (64 - bits),
        (fpswaRoundRight raw (64 - bits) rounding).2.1,
          (fpswaRoundRight raw (64 - bits) rounding).2.2⟩ := by
      simp only [rounded, roundUnbounded, if_neg carry]
    rw [known]
    refine ⟨⟨?_, ?_⟩, ?_, inexact⟩
    · rw [← low_places positive most]
      exact Nat.mul_le_mul_right _ least
    · rw [← high_places most]
      exact Nat.mul_lt_mul_of_pos_right (lt_of_le_of_ne bound carry) (Nat.two_pow_pos _)
    · rw [whole, digits]

end

omit [FloorRing K] in
/-- A number reaches a power of two iff its exponent does. -/
theorem zpow_le_scaled_iff {mant : Nat} (least : 2 ^ 63 ≤ mant) (most : mant < 2 ^ 64)
    (power exp : Int) : (2 : K) ^ (power - wreBias) ≤ scaled K mant exp ↔ power ≤ exp := by
  have lower : (2 : K) ^ 63 ≤ mant := by exact_mod_cast least
  have upper : (mant : K) < 2 ^ 64 := by exact_mod_cast most
  have scale : (0 : K) < 2 ^ (exp - wreBias - 63) := zpow_pos two_pos _
  constructor
  · intro reaches
    have below : (2 : K) ^ (power - wreBias) < 2 ^ (exp - wreBias - 63 + (64 : ℕ)) := by
      rw [zpow_places]
      exact lt_of_le_of_lt reaches (mul_lt_mul_of_pos_right upper scale)
    have exponents := (zpow_lt_zpow_iff_right₀ (one_lt_two : (1 : K) < 2)).mp below
    push_cast at exponents
    omega
  · intro reaches
    calc (2 : K) ^ (power - wreBias) ≤ 2 ^ (exp - wreBias - 63 + (63 : ℕ)) := by
          refine zpow_le_zpow_right₀ one_le_two ?_
          push_cast
          omega
      _ ≤ scaled K mant exp := by
          rw [zpow_places, scaled]
          exact mul_le_mul_of_nonneg_right lower scale.le

/-- A number is beyond the range of a model when rounded to its precision. -/
def ComputationModel.Overflows (model : ComputationModel) (mode : Mode) (x : K) : Prop :=
  2 ^ (model.maxExp + 1 - wreBias) ≤ |toPrecision mode model.bits x|

/-- A number is below the range of normal numbers of a model when rounded to its precision. -/
def ComputationModel.Tiny (model : ComputationModel) (mode : Mode) (x : K) : Prop :=
  |toPrecision mode model.bits x| < 2 ^ (model.minExp - wreBias)

/-- The distance between the denormal numbers of a model. -/
def ComputationModel.quantum (K : Type*) [Field K] (model : ComputationModel) : K :=
  2 ^ (model.minExp - wreBias - (model.bits - 1))

/-- The largest finite number of a model. -/
def ComputationModel.largest (K : Type*) [Field K] (model : ComputationModel) : K :=
  (2 ^ model.bits - 1) * 2 ^ (model.maxExp - wreBias - (model.bits - 1))

/-- A number with its exponent reduced modulo two to the 17th. -/
def RegisterFormat.Wraps (fmt : RegisterFormat) (x : K) : Prop :=
  2 ^ 63 ≤ fmt.mant.toNat ∧ ∃ exp : ℤ, fmt.exp = BitVec.ofInt 17 exp ∧
    x = signed fmt.sign (scaled K fmt.mant.toNat exp)

/-- What a register and the exceptions have to be for a number that is delivered in a model. -/
structure CorrectlyDelivered (model : ComputationModel) (mode : Mode)
    (ftz overflowMasked underflowMasked : Bool) (x : K) (fmt : RegisterFormat)
    (overflow underflow inexact : Bool) : Prop where
  sign : fmt.sign = decide (x < 0)
  inRange : ¬model.Overflows mode x → ¬model.Tiny mode x →
    fmt.isSpecial = false ∧ fmt.value K = toPrecision mode model.bits x ∧
      (inexact ↔ fmt.value K ≠ x)
  overflowed : model.Overflows mode x → overflowMasked →
    inexact ∧ if overflowsToInfinity mode fmt.sign then fmt.isInfinity = true
      else fmt.isSpecial = false ∧ fmt.value K = signed fmt.sign (model.largest K)
  denormal : model.Tiny mode x → underflowMasked → ftz = false →
    fmt.isSpecial = false ∧ fmt.value K = toMultiple mode (model.quantum K) x ∧
      (inexact ↔ fmt.value K ≠ x)
  flushed : model.Tiny mode x → underflowMasked → ftz →
    fmt.isSpecial = false ∧ fmt.value K = 0 ∧ inexact
  wrapped : model.Overflows mode x ∧ overflowMasked = false ∨ model.Tiny mode x ∧
    underflowMasked = false →
    fmt.Wraps (toPrecision mode model.bits x) ∧ (inexact ↔ toPrecision mode model.bits x ≠ x)
  overflows : overflow ↔ model.Overflows mode x
  underflows : underflow ↔ model.Tiny mode x ∧ (underflowMasked → fmt.value K ≠ x)

theorem overflows_iff (denotes : raw.Denotes x) (model : ComputationModel) (mode : Mode) :
    model.Overflows mode x ↔ model.maxExp < (roundUnbounded model.bits raw mode).exp := by
  obtain ⟨⟨least, most⟩, value, -⟩ :=
    roundUnbounded_spec denotes model.bits_pos model.most_bits mode
  rw [ComputationModel.Overflows, value, abs_signed, abs_of_nonneg (scaled_nonneg _ _),
    zpow_le_scaled_iff least most]
  omega

theorem tiny_iff (denotes : raw.Denotes x) (model : ComputationModel) (mode : Mode) :
    model.Tiny mode x ↔ (roundUnbounded model.bits raw mode).exp < model.minExp := by
  obtain ⟨⟨least, most⟩, value, -⟩ :=
    roundUnbounded_spec denotes model.bits_pos model.most_bits mode
  rw [ComputationModel.Tiny, value, abs_signed, abs_of_nonneg (scaled_nonneg _ _), ← not_le,
    zpow_le_scaled_iff least most, not_le]

omit [FloorRing K] in
theorem RawResult.Denotes.sign_eq (denotes : raw.Denotes x) : raw.sign = decide (x < 0) := by
  obtain ⟨part, describes, exact⟩ := denotes.digits
  have digits : (0 : K) < raw.mant := by exact_mod_cast lt_of_lt_of_le (by decide) denotes.least
  have scale : (0 : K) < 2 ^ (raw.exp - wreBias - 63) := zpow_pos two_pos _
  have positive : 0 < (raw.mant + part) * (2 : K) ^ (raw.exp - wreBias - 63) :=
    mul_pos (add_pos_of_pos_of_nonneg digits describes.nonneg) scale
  rw [exact]
  cases raw.sign
  · exact (decide_eq_false (not_lt.mpr positive.le)).symm
  · exact (decide_eq_true (neg_neg_of_pos positive)).symm

omit [LinearOrder K] [IsStrictOrderedRing K] [FloorRing K] in
/-- The number of a register with an exponent in range. -/
theorem register_value (sign : Bool) {exp : Int} (positive : 0 < exp)
    (finite : exp < regSpecialExp) {mant : Nat} (bound : mant < 2 ^ 64) :
    (mk sign (BitVec.ofInt 17 exp) (BitVec.ofNat 64 mant)).isSpecial = false ∧
      (mk sign (BitVec.ofInt 17 exp) (BitVec.ofNat 64 mant)).value K =
        signed sign (scaled K mant exp) := by
  have small : exp < 2 ^ 17 := lt_trans finite (by decide)
  have known : (BitVec.ofInt 17 exp).toNat = exp.toNat := by
    rw [toNat_ofInt, Int.emod_eq_of_lt positive.le (by exact_mod_cast small)]
  have nonzero : BitVec.ofInt 17 exp ≠ 0 := by
    intro zero
    rw [zero] at known
    have none : exp.toNat = 0 := known.symm
    omega
  have special : exp.toNat ≠ regSpecialExp := by omega
  refine ⟨?_, ?_⟩
  · rw [isSpecial, known]
    exact beq_false_of_ne special
  · rw [value, magnitude, operandExp, if_neg nonzero, known,
      toNat_ofNat, Nat.mod_eq_of_lt bound, Int.toNat_of_nonneg positive.le]

theorem fpswaRoundRight_far (raw : RawResult) {first second : Nat} (firstFar : 64 < first)
    (secondFar : 64 < second) (rounding : Mode) :
    fpswaRoundRight raw first rounding = fpswaRoundRight raw second rounding := by
  have dropped : fpswaDropDigits raw first = fpswaDropDigits raw second := by
    unfold fpswaDropDigits
    simp only [show first ≠ 0 by omega, show ¬first < 64 by omega, show first ≠ 64 by omega,
      show second ≠ 0 by omega, show ¬second < 64 by omega, show second ≠ 64 by omega, if_false]
  rw [fpswaRoundRight, fpswaRoundRight, dropped]

/-- The number of digits dropped for the denormal numbers of a model. -/
def ComputationModel.denormalShift (model : ComputationModel) (raw : RawResult) : Nat :=
  64 - model.bits + (model.minExp - raw.exp).toNat

omit [FloorRing K] in
theorem denormal_bound (denotes : raw.Denotes x)
    (below : raw.exp < model.minExp) (rounding : Mode) :
    (fpswaRoundRight raw (model.denormalShift raw) rounding).1 ≤ 2 ^ (model.bits - 1) := by
  obtain ⟨part, describes, -⟩ := denotes.digits
  have bits := model.least_bits
  have most := model.most_bits
  have fewer : raw.mant / 2 ^ model.denormalShift raw < 2 ^ (model.bits - 1) := by
    rw [Nat.div_lt_iff_lt_mul (Nat.two_pow_pos _), ← pow_add]
    refine lt_of_lt_of_le denotes.most (Nat.pow_le_pow_right two_pos ?_)
    unfold ComputationModel.denormalShift
    omega
  rw [fpswaRoundRight_eq describes denotes.most]
  dsimp only
  split_ifs
  · omega
  · omega

/-- The digits of a number below the normal ones. -/
theorem roundDenormal_eq (model : ComputationModel) (raw : RawResult) (rounding : Mode) :
    let rounded := fpswaRoundRight raw (model.denormalShift raw) rounding
    let mant := rounded.1 * 2 ^ (64 - model.bits)
    roundDenormal model raw rounding = ⟨if mant = 0 then 0 else model.minExp, mant, rounded.2.1,
      rounded.2.2⟩ := by
  intro rounded mant
  have bits := model.least_bits
  have most := model.most_bits
  have saturated : fpswaRoundRight raw (if 2 ^ 32 - 1 - (64 - model.bits) <
      (model.minExp - raw.exp).toNat then 2 ^ 32 - 1
      else 64 - model.bits + (model.minExp - raw.exp).toNat) rounding = rounded := by
    split_ifs with far
    · refine fpswaRoundRight_far raw (by decide) ?_ rounding
      unfold ComputationModel.denormalShift
      omega
    · rfl
  simp only [roundDenormal, saturated]
  by_cases normal : rounded.1 = 2 ^ (model.bits - 1)
  · -- The general case gives the same digits.
    have digits : mant = 2 ^ 63 := by
      simp only [mant, normal]
      exact low_places model.bits_pos most
    rw [if_pos normal, digits, if_neg (by decide)]
  · rw [if_neg normal]

theorem roundDenormal_spec (denotes : raw.Denotes x)
    (below : raw.exp < model.minExp) (rounding : Mode) :
    let rounded := roundDenormal model raw rounding
    rounded.mant ≤ 2 ^ 63 ∧ rounded.exp = (if rounded.mant = 0 then 0 else model.minExp) ∧
      toMultiple rounding (model.quantum K) x =
        signed raw.sign (scaled K rounded.mant model.minExp) ∧
      (rounded.inexact ↔ toMultiple rounding (model.quantum K) x ≠ x) := by
  intro rounded
  have bits := model.least_bits
  have most := model.most_bits
  obtain ⟨whole, inexact⟩ := fpswaRoundRight_toMultiple denotes (model.denormalShift raw) rounding
  have bound := denormal_bound denotes below rounding
  have unit : (2 : K) ^ (raw.exp - wreBias - 63 + (model.denormalShift raw : ℕ)) =
      model.quantum K := by
    rw [ComputationModel.quantum]
    congr 1
    unfold ComputationModel.denormalShift
    omega
  rw [unit] at whole inexact
  have known : rounded = _ := roundDenormal_eq model raw rounding
  rw [known]
  refine ⟨?_, rfl, ?_, inexact⟩
  · show _ * 2 ^ (64 - model.bits) ≤ 2 ^ 63
    calc _ ≤ 2 ^ (model.bits - 1) * 2 ^ (64 - model.bits) := Nat.mul_le_mul_right _ bound
      _ = 2 ^ 63 := low_places model.bits_pos most
  · have scale : model.minExp - wreBias - (model.bits - 1) =
        (model.minExp - wreBias - 63) + (64 - model.bits : ℕ) := by
      push_cast [most]
      ring
    rw [whole, ComputationModel.quantum, scale, scaled, zpow_add₀ two_ne_zero, zpow_natCast]
    push_cast
    ring_nf

omit [LinearOrder K] [IsStrictOrderedRing K] [FloorRing K] in
theorem zero_value (sign : Bool) :
    (mk sign (BitVec.ofInt 17 0) (BitVec.ofNat 64 0)).isSpecial = false ∧
      (mk sign (BitVec.ofInt 17 0) (BitVec.ofNat 64 0)).value K = 0 := by
  refine ⟨rfl, ?_⟩
  rw [value, magnitude_of_zero rfl, signed_eq_zero_iff]

omit [FloorRing K] in
/-- The number with the largest significand of a precision. -/
theorem largest_value (model : ComputationModel) (sign : Bool) :
    (mk sign (BitVec.ofInt 17 model.maxExp) (BitVec.ofNat 64 (largestMant model.bits))).isSpecial =
      false ∧
      (mk sign (BitVec.ofInt 17 model.maxExp) (BitVec.ofNat 64 (largestMant model.bits))).value K =
        signed sign (model.largest K) := by
  have most := model.most_bits
  have positive : 0 < model.maxExp := lt_of_lt_of_le model.min_pos model.min_le_max
  have digits : largestMant model.bits = (2 ^ model.bits - 1) * 2 ^ (64 - model.bits) := by
    have shifted : (2 ^ 64 - 1) * 2 ^ (64 - model.bits) =
        (2 ^ model.bits - 1) * 2 ^ (64 - model.bits) + 2 ^ 64 * (2 ^ (64 - model.bits) - 1) := by
      have unit : 2 ^ (64 - model.bits) ≤ 2 ^ 64 := Nat.pow_le_pow_right two_pos (by omega)
      have power : 1 ≤ 2 ^ (64 - model.bits) := Nat.one_le_two_pow
      rw [Nat.sub_mul, Nat.sub_mul, high_places most, Nat.mul_sub]
      omega
    have bound : (2 ^ model.bits - 1) * 2 ^ (64 - model.bits) < 2 ^ 64 := by
      rw [← high_places most]
      exact Nat.mul_lt_mul_of_pos_right (Nat.sub_lt (Nat.two_pow_pos _) one_pos) (Nat.two_pow_pos _)
    rw [largestMant, shifted, Nat.add_mul_mod_self_left, Nat.mod_eq_of_lt bound]
  have bound : largestMant model.bits < 2 ^ 64 := Nat.mod_lt _ (Nat.two_pow_pos _)
  obtain ⟨finite, value⟩ := register_value (K := K) sign positive model.max_lt bound
  refine ⟨finite, value.trans ?_⟩
  have scale : model.maxExp - wreBias - (model.bits - 1) =
      (64 - model.bits : ℕ) + (model.maxExp - wreBias - 63) := by
    push_cast [most]
    ring
  rw [digits, scaled, ComputationModel.largest, scale, zpow_add₀ two_ne_zero, zpow_natCast]
  push_cast [Nat.one_le_two_pow]
  ring_nf

theorem roundUnbounded_exp (bits : Nat) (raw : RawResult) (rounding : Mode) :
    raw.exp ≤ (roundUnbounded bits raw rounding).exp ∧
      (roundUnbounded bits raw rounding).exp ≤ raw.exp + 1 := by
  simp only [roundUnbounded]
  split_ifs
  · exact ⟨by simp, le_rfl⟩
  · exact ⟨le_rfl, by simp⟩

/-- The register with a denormal number. -/
theorem roundDenormal_value (denotes : raw.Denotes x)
    (below : raw.exp < model.minExp) (rounding : Mode) :
    let rounded := roundDenormal model raw rounding
    let fmt := mk raw.sign (BitVec.ofInt 17 rounded.exp) (BitVec.ofNat 64 rounded.mant)
    fmt.isSpecial = false ∧ fmt.value K = toMultiple rounding (model.quantum K) x := by
  obtain ⟨bound, exponent, value, -⟩ := roundDenormal_spec denotes below rounding
  dsimp only
  rw [exponent, value]
  generalize (roundDenormal model raw rounding).mant = mant at bound ⊢
  by_cases zero : mant = 0
  · rw [if_pos zero, zero, scaled_zero, (signed_eq_zero_iff _ _).mpr rfl]
    exact zero_value raw.sign
  · rw [if_neg zero]
    exact register_value raw.sign model.min_pos
      (lt_of_le_of_lt model.min_le_max model.max_lt) (by omega)

/-- What is delivered for a raw result is correct for a number. -/
def DeliversCorrectly (model : ComputationModel) (mode : Mode)
    (ftz overflowMasked underflowMasked : Bool) (raw : RawResult) (x : K) : Prop :=
  let delivery := deliverResult model mode ftz overflowMasked underflowMasked raw
  CorrectlyDelivered model mode ftz overflowMasked underflowMasked x (delivery.register raw.sign)
    delivery.overflow delivery.underflow delivery.inexact

section Cases

variable (denotes : raw.Denotes x) (model : ComputationModel) (mode : Mode)
  (ftz overflowMasked underflowMasked : Bool)

include denotes

/-- A number that is in range is delivered correctly. -/
theorem deliverResult_inRange (fits : ¬model.Overflows mode x) (normal : ¬model.Tiny mode x) :
    DeliversCorrectly model mode ftz overflowMasked underflowMasked raw x := by
  obtain ⟨⟨-, most⟩, value, inexact⟩ :=
    roundUnbounded_spec denotes model.bits_pos model.most_bits mode
  have high := fits
  have low := normal
  rw [overflows_iff denotes, not_lt] at high
  rw [tiny_iff denotes, not_lt] at low
  obtain ⟨finite, same⟩ := register_value (K := K) raw.sign (lt_of_lt_of_le model.min_pos low)
    (lt_of_le_of_lt high model.max_lt) most
  rw [← value] at same
  simp only [DeliversCorrectly, deliverResult, if_neg (not_lt.mpr high), if_neg (not_lt.mpr low),
    Delivery.register]
  exact
    { sign := denotes.sign_eq
      inRange := fun _ _ => ⟨finite, same, by rw [same]; exact inexact⟩
      overflowed := fun beyond => absurd beyond fits
      denormal := fun small => absurd small normal
      flushed := fun small => absurd small normal
      wrapped := fun outside => outside.elim (fun beyond => absurd beyond.1 fits) fun small =>
        absurd small.1 normal
      overflows := by simpa using fits
      underflows := by simp [normal] }

theorem roundUnbounded_wraps :
    (mk raw.sign (BitVec.ofInt 17 (roundUnbounded model.bits raw mode).exp)
      (BitVec.ofNat 64 (roundUnbounded model.bits raw mode).mant)).Wraps
        (toPrecision mode model.bits x) := by
  obtain ⟨⟨least, most⟩, value, -⟩ :=
    roundUnbounded_spec denotes model.bits_pos model.most_bits mode
  have digits : (BitVec.ofNat 64 (roundUnbounded model.bits raw mode).mant).toNat =
      (roundUnbounded model.bits raw mode).mant := by
    rw [toNat_ofNat, Nat.mod_eq_of_lt most]
  refine ⟨?_, (roundUnbounded model.bits raw mode).exp, rfl, ?_⟩
  · rw [digits]
    exact least
  · rw [digits]
    exact value

/-- A number beyond the range is delivered correctly. -/
theorem deliverResult_overflows (beyond : model.Overflows mode x) :
    DeliversCorrectly model mode ftz overflowMasked underflowMasked raw x := by
  obtain ⟨-, -, inexact⟩ := roundUnbounded_spec denotes model.bits_pos model.most_bits mode
  have high := beyond
  rw [overflows_iff denotes] at high
  have normal : ¬model.Tiny mode x := by
    have ordered := model.min_le_max
    rw [tiny_iff denotes]
    omega
  simp only [DeliversCorrectly, deliverResult, if_pos high]
  refine ⟨denotes.sign_eq, fun fits => absurd beyond fits, fun _ masked => ?_,
    fun small => absurd small normal,
    fun small => absurd small normal, fun outside =>
      ?_, iff_of_true ?_ beyond, iff_of_false ?_ fun small => normal small.1⟩
  · subst masked
    cases direction : overflowsToInfinity mode raw.sign with
    | true => exact ⟨rfl, by simp only [Delivery.register, direction, if_true]; rfl⟩
    | false =>
      refine ⟨rfl, ?_⟩
      simp only [Delivery.register, direction, Bool.false_eq_true, if_false]
      exact largest_value model raw.sign
  · -- The exponent wraps around.
    rcases outside with ⟨-, unmasked⟩ | ⟨small, -⟩
    · subst unmasked
      exact ⟨roundUnbounded_wraps denotes model mode, inexact⟩
    · exact absurd small normal
  · split_ifs <;> rfl
  · split_ifs <;> exact not_false

/-- A number that is too small is delivered correctly. -/
theorem deliverResult_tiny (small : model.Tiny mode x) :
    DeliversCorrectly model mode ftz overflowMasked underflowMasked raw x := by
  obtain ⟨-, -, inexact⟩ := roundUnbounded_spec denotes model.bits_pos model.most_bits mode
  have low := small
  rw [tiny_iff denotes] at low
  have fits : ¬model.Overflows mode x := by
    have ordered := model.min_le_max
    rw [overflows_iff denotes]
    omega
  have high := fits
  rw [overflows_iff denotes] at high
  have below : raw.exp < model.minExp := lt_of_le_of_lt (roundUnbounded_exp _ _ _).1 low
  obtain ⟨-, -, -, bounded⟩ := roundDenormal_spec denotes below mode
  obtain ⟨finite, value⟩ := roundDenormal_value denotes below mode
  rw [← value] at bounded
  obtain ⟨zeroFinite, zero⟩ := zero_value (K := K) raw.sign
  simp only [DeliversCorrectly, deliverResult, if_neg high, if_pos low]
  refine ⟨denotes.sign_eq, fun _ normal => absurd small normal, fun beyond => absurd beyond fits,
    fun _ masked kept => ?_,
    fun _ masked flushes => ?_, fun outside => ?_, iff_of_false ?_ fits, ?_⟩
  · subst masked kept
    exact ⟨finite, value, bounded⟩
  · subst masked flushes
    exact ⟨zeroFinite, zero, rfl⟩
  · rcases outside with ⟨beyond, -⟩ | ⟨-, unmasked⟩
    · exact absurd beyond fits
    · subst unmasked
      exact ⟨roundUnbounded_wraps denotes model mode, inexact⟩
  · split_ifs <;> exact not_false
  · simp only [small, true_and]
    cases underflowMasked with
    | false => exact iff_of_true rfl nofun
    | true =>
      cases ftz with
      | true => exact iff_of_true rfl fun _ same => denotes.ne_zero (same.symm.trans zero)
      | false => exact ⟨fun raised _ => bounded.mp raised, fun differs => bounded.mpr (differs rfl)⟩

theorem deliverResult_correct :
    DeliversCorrectly model mode ftz overflowMasked underflowMasked raw x := by
  by_cases beyond : model.Overflows mode x
  · exact deliverResult_overflows denotes model mode ftz overflowMasked underflowMasked beyond
  by_cases small : model.Tiny mode x
  · exact deliverResult_tiny denotes model mode ftz overflowMasked underflowMasked small
  · exact deliverResult_inRange denotes model mode ftz overflowMasked underflowMasked beyond small

end Cases

end Values

theorem maskedExp_eq (exp : Int) :
    (BitVec.ofInt 32 exp &&& 0x1ffff).setWidth 17 = BitVec.ofInt 17 exp := by
  have split : exp % (2 ^ 32 : ℕ) % (2 ^ 17 : ℕ) = exp % (2 ^ 17 : ℕ) :=
    Int.emod_emod_of_dvd exp (by decide)
  have first : 0 ≤ exp % (2 ^ 32 : ℕ) := Int.emod_nonneg _ (by decide)
  apply eq_of_toNat_eq
  rw [toNat_setWidth, toNat_and, toNat_ofInt, toNat_ofInt,
    show (0x1ffff : BitVec 32).toNat = 2 ^ 17 - 1 from rfl, Nat.and_two_pow_sub_one_eq_mod,
      Nat.mod_mod, ← split]
  omega

/-- The status after a result: the exceptions of the result are set beside those set before, and
nothing else is. -/
def FloatStatus.withResult (status : FloatStatus)
    (overflow underflow inexact : Bool) : FloatStatus :=
  let flags := status.exceptionFlags
  { status with exceptionFlags := { flags with
      overflow := flags.overflow || overflow
      underflow := flags.underflow || underflow
      inexact := flags.inexact || inexact } }

namespace FpState

theorem frWriteExt_fpStatus (state : FpState) (reg : Nat) (sign : Bool) (exp : BitVec 32)
    (mant : Word) : (state.frWriteExt reg sign exp mant).fpStatus = state.fpStatus := by
  simp only [frWriteExt, fpregFromSpill, markWritten, backupFr]
  split_ifs <;> rfl

/-- The state after a delivery. -/
theorem deliverRaw_eq (state : FpState) (r1 : Nat) {raw : RawResult} (nonzero : raw.mant ≠ 0)
    {sf precision : Nat} {model : ComputationModel}
    (legal : computationModel (fpsrSfControls state.arFpsr sf) precision = some model) :
    let controls := fpsrSfControls state.arFpsr sf
    let delivery := deliverResult model (controlsRounding controls) (controls.getLsbD 0)
      (fpswaExceptionMasked state.arFpsr sf 3) (fpswaExceptionMasked state.arFpsr sf 4) raw
    ∃ after, state.deliverRaw r1 raw sf precision = some after ∧
      after.file = (state.frWriteExt r1 raw.sign (BitVec.ofInt 32 delivery.exp &&& 0x1ffff)
        (BitVec.ofNat 64 delivery.mant)).file ∧
      after.fpStatus =
        state.fpStatus.withResult delivery.overflow delivery.underflow delivery.inexact := by
  intro controls delivery
  simp only [deliverRaw, if_neg nonzero, legal, Option.bind_eq_bind, Option.bind_some]
  refine ⟨_, rfl, rfl, ?_⟩
  simp only [frWriteExt_fpStatus]
  simp [SoftFlags.raise, SoftFlags.none, FloatStatus.withResult, delivery, controls]

/-- An exact result is delivered correctly rounded, with the exceptions that it raises. -/
theorem deliverRaw_correct (state : FpState) {r1 : Nat} (writable : 1 < r1) (inside : r1 < frCount)
    {raw : RawResult} {x : ℚ} (denotes : raw.Denotes x) (sf precision : Nat)
    {model : ComputationModel}
    (legal : computationModel (fpsrSfControls state.arFpsr sf) precision = some model) :
    let controls := fpsrSfControls state.arFpsr sf
    ∃ after overflow underflow inexact, state.deliverRaw r1 raw sf precision = some after ∧
      after.fpStatus = state.fpStatus.withResult overflow underflow inexact ∧
      CorrectlyDelivered model (controlsRounding controls) (controls.getLsbD 0)
        (fpswaExceptionMasked state.arFpsr sf 3) (fpswaExceptionMasked state.arFpsr sf 4) x
        (after.file.registerFormat r1) overflow underflow inexact := by
  intro controls
  have nonzero : raw.mant ≠ 0 := by
    have least := denotes.least
    omega
  have delivered :=
    deliverResult_correct denotes model (controlsRounding controls) (controls.getLsbD 0)
    (fpswaExceptionMasked state.arFpsr sf 3) (fpswaExceptionMasked state.arFpsr sf 4)
  obtain ⟨after, done, file, flags⟩ := state.deliverRaw_eq r1 nonzero legal
  refine ⟨after, _, _, _, done, flags, ?_⟩
  rw [file, frWriteExt_file _ writable, FrFile.registerFormat_setFormat _ writable inside,
    maskedExp_eq]
  exact delivered

/-- The first power of two beyond single precision. -/
theorem beyondSingle_denotes : (RawResult.mk false 0x1007f (2 ^ 63) .none).Denotes
    (2 ^ 128 : ℚ) := by
  refine denotes_mk false le_rfl (by decide) Residue.none_describes ?_
  norm_num [wreBias]

/-- Delivered to f2 in single precision after reset, that number overflows to infinity. -/
theorem deliverRaw_correct_overflow :
    let controls := fpsrSfControls reset.arFpsr 0
    ∃ after, reset.deliverRaw 2 ⟨false, 0x1007f, 2 ^ 63, .none⟩ 0 1 = some after ∧
      after.fpStatus.exceptionFlags = { SoftFlags.none with overflow := true, inexact := true } ∧
      after.file.registerFormat 2 = ⟨false, 0x1ffff, 0x8000000000000000⟩ ∧
      CorrectlyDelivered ⟨24, 0x0ff81,
        0x1007e, by decide, by decide, by decide, by decide, by decide⟩
        (controlsRounding controls) (controls.getLsbD 0)
        (fpswaExceptionMasked reset.arFpsr 0 3)
          (fpswaExceptionMasked reset.arFpsr 0 4) (2 ^ 128 : ℚ)
        (after.file.registerFormat 2) true false true := by
  intro controls
  obtain ⟨after, overflow, underflow, inexact, done, flags, correct⟩ :=
    deliverRaw_correct reset (show 1 < 2 by decide) (by decide) beyondSingle_denotes 0 1 rfl
  have evaluated : (reset.deliverRaw 2 ⟨false, 0x1007f, 2 ^ 63, .none⟩ 0 1).map
      (fun state => (state.fpStatus.exceptionFlags, state.file.registerFormat 2)) =
        some ({ SoftFlags.none with overflow := true, inexact := true },
          ⟨false, 0x1ffff, 0x8000000000000000⟩) := by
    decide +kernel
  rw [done, Option.map_some, Option.some.injEq, Prod.mk.injEq] at evaluated
  refine ⟨after, done, evaluated.1, evaluated.2, ?_⟩
  have known := evaluated.1
  rw [flags] at known
  simp only [FloatStatus.withResult, reset, SoftFlags.none, SoftFlags.mk.injEq,
    Bool.false_or] at known
  obtain ⟨-, -, rfl, rfl, rfl, -⟩ := known
  exact correct

end FpState

end Ia64.Fp
