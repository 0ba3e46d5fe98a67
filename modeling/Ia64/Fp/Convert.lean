import Ia64.Fp.Raw
import Ia64.Fp.Transaction
import Mathlib.Data.Rat.Floor

/-! Conversions between floating-point numbers and 64-bit integers. -/

namespace Ia64.Fp

open BinaryDigits Rounding

/-- The integer of a rounded magnitude, if it is in range. -/
def integerResult (sign isUnsigned : Bool) (rounded : Nat) : Option Word :=
  if 2 ^ 64 - 1 < rounded then none
  else if isUnsigned then if sign ∧ rounded ≠ 0 then none else some (BitVec.ofNat 64 rounded)
  else if sign then if 2 ^ 63 < rounded then none else some (-BitVec.ofNat 64 rounded)
  else if 2 ^ 63 - 1 < rounded then none
  else some (BitVec.ofNat 64 rounded)

/-- Round a register to an integer; the other answers are inexactness and whether the magnitude was
increased. -/
def fcvtRawToInteger (input : RegisterFormat) (isUnsigned : Bool) (rounding : Mode) :
    Option Word × Bool × Bool :=
  if input.isSpecial then (none, false, false)
  else if input.mant = 0 then (some 0, false, false)
  else
    let normalize := clz64 input.mant.toNat
    let exp := input.operandExp - normalize
    -- A normalized number above this exponent has a magnitude of at least 2^64.
    if regIntegerExp < exp then (none, false, false)
    else
      let raw : RawResult := ⟨input.sign, 0, normalized 64 input.mant.toNat, .none⟩
      let (rounded, inexact, fpa) := fpswaRoundRight raw (regIntegerExp - exp).toNat rounding
      (integerResult input.sign isUnsigned rounded, inexact, fpa)

/-- The register format of a signed integer. -/
def fcvtXfFormat (value : Word) : RegisterFormat :=
  if value = 0 then ⟨false, 0, 0⟩
  else
    let sign := value.getLsbD 63
    let magnitude := if sign then -value else value
    let shift := clz64 magnitude.toNat
    ⟨sign, BitVec.ofNat 17 (regIntegerExp - shift), magnitude <<< shift⟩

namespace FpState

variable (state : FpState)

/-- The significand of a register. -/
def frSignificand (reg : Nat) : Word :=
  let file := state.file
  if reg = 0 then 0
  else if reg = 1 then significandIntegerBit
  else if Bitmaps.contains file.frNat reg then 0
  else if Bitmaps.contains file.frExtValid reg then file.frExtMant reg
  else if Bitmaps.contains file.frSig reg then file.fr reg
  else
    let value := file.fr reg
    let significand := (value.setWidth 52).setWidth 64 <<< 11
    if (value >>> 52).setWidth 11 ≠ (0 : BitVec 11) then significand ||| significandIntegerBit
      else significand

/-- Convert the signed integer in a significand to a floating-point number. -/
def fcvtXf (r1 r2 : Nat) : FpState :=
  if state.file.isNat r2 then state.frWriteNat r1
  else
    let fmt := fcvtXfFormat (state.frSignificand r2)
    state.frWriteExt r1 fmt.sign (fmt.exp.setWidth 32) fmt.mant

/-- Note the use of an operand that is not normalized; unmasked, this is a fault. -/
def noteUnnormalOperand (sf : Nat) (used : Bool) :
    Except (FpState × Word) FpState :=
  if !used then .ok state
  else if !(activeTraps state.arFpsr sf).getLsbD 1 then .error (state.restoreState, 2)
  else
    .ok { state with
      fpStatus := { state.fpStatus with
        exceptionFlags :=
          state.fpStatus.exceptionFlags.raise { SoftFlags.none with inputDenormalUsed := true } } }

/-- Convert a floating-point number to an integer in a significand. -/
def fcvtFx (r1 r2 : Nat) (isUnsigned isTrunc : Bool) (sf : Nat) :
    Except (FpState × Word) FpState :=
  if state.file.isNat r2 then .ok (state.frWriteNat r1)
  else
    let raw := state.frRawRegisterFormat r2
    let rounding := if isTrunc then .zero else controlsRounding (fpsrSfControls state.arFpsr sf)
    match fcvtRawToInteger raw isUnsigned rounding with
    | (none, _, _) =>
      let flags := state.fpStatus.exceptionFlags.raise { SoftFlags.none with invalid := true }
      .ok ({ state with fpStatus := { state.fpStatus with exceptionFlags := flags } }.frWriteSig r1
        0x8000000000000000)
    | (some result, inexact, fpa) => do
      -- An invalid conversion takes precedence over an operand that is not normalized.
      let state ← state.noteUnnormalOperand sf raw.isUnnormal
      let state :=
        if inexact then
          let flags := state.fpStatus.exceptionFlags.raise { SoftFlags.none with inexact := true }
          { state with
            transaction := { state.transaction with trapFpa := fpa }
            fpStatus := { state.fpStatus with exceptionFlags := flags } }
        else state
      return state.frWriteSig r1 result

end FpState

/-- The integers that a conversion can return. -/
def IntegerRange (isUnsigned : Bool) (n : ℤ) : Prop :=
  if isUnsigned then 0 ≤ n ∧ n < 2 ^ 64 else -2 ^ 63 ≤ n ∧ n < 2 ^ 63

instance (isUnsigned : Bool) (n : ℤ) : Decidable (IntegerRange isUnsigned n) :=
  inferInstanceAs (Decidable (if isUnsigned = true then 0 ≤ n ∧ n < 2 ^ 64
    else -2 ^ 63 ≤ n ∧ n < 2 ^ 63))

theorem integerResult_eq (sign isUnsigned : Bool) (rounded : Nat) :
    integerResult sign isUnsigned rounded =
      if IntegerRange isUnsigned (signed sign (rounded : ℤ))
        then some (BitVec.ofInt 64 (signed sign (rounded : ℤ)))
      else none := by
  cases sign with
  | false =>
    -- A number that is not negative is too large or in range.
    simp only [integerResult, IntegerRange, signed, Bool.false_eq_true, false_and, if_false,
      BitVec.ofInt_natCast]
    cases isUnsigned
    · simp only [Bool.false_eq_true, if_false]
      split_ifs <;> first | rfl | omega
    · simp only [if_true]
      split_ifs <;> first | rfl | omega
  | true =>
    simp only [integerResult, IntegerRange, signed, true_and, if_true, BitVec.ofInt_neg,
      BitVec.ofInt_natCast]
    cases isUnsigned
    · simp only [Bool.false_eq_true, if_false]
      split_ifs <;> first | rfl | omega
    · -- The only unsigned integer that is not positive is zero.
      simp only [if_true]
      split_ifs with large nonzero inside outside
      · omega
      · rfl
      · omega
      · rfl
      · have zero : rounded = 0 := by omega
        rw [zero]
        rfl
      · omega

theorem not_integerRange_of_large {x : ℚ} (large : 2 ^ 64 ≤ x) (sign isUnsigned : Bool)
    (rounding : Mode) : ¬IntegerRange isUnsigned (toInt rounding (signed sign x)) := by
  classical
  have floor : (2 : ℤ) ^ 64 ≤ ⌊x⌋ := Int.le_floor.mpr (by exact_mod_cast large)
  have rounded : toInt rounding (signed sign x) =
      signed sign (if Away rounding sign x then ⌊x⌋ + 1 else ⌊x⌋) :=
    toInt_signed (le_trans (by norm_num) large) (fun away => if_pos away) (fun kept => if_neg kept)
  rw [rounded, IntegerRange]
  generalize known : (if Away rounding sign x then ⌊x⌋ + 1 else ⌊x⌋) = n
  have most : (2 : ℤ) ^ 64 ≤ n := by
    rw [← known]
    split_ifs <;> omega
  cases sign <;> cases isUnsigned <;> simp only [signed, Bool.false_eq_true, if_false,
    if_true] <;> omega

theorem magnitude_eq_div (fmt : RegisterFormat) {shift : Nat}
    (placed : (shift : ℤ) = regIntegerExp - (fmt.operandExp - clz64 fmt.mant.toNat)) :
    fmt.magnitude ℚ = ((normalized 64 fmt.mant.toNat : ℕ) : ℚ) / 2 ^ shift := by
  have scale : fmt.operandExp - (clz64 fmt.mant.toNat : ℤ) - wreBias - 63 = -(shift : ℤ) := by
    rw [placed]
    have bias : (regIntegerExp : ℤ) = wreBias + 63 := rfl
    omega
  rw [RegisterFormat.magnitude, ← scaled_normalized, scaled, scale, zpow_neg, zpow_natCast,
    div_eq_mul_inv]

theorem magnitude_large {fmt : RegisterFormat} (nonzero : fmt.mant ≠ 0)
    (above : (regIntegerExp : ℤ) < fmt.operandExp - clz64 fmt.mant.toNat) :
    2 ^ 64 ≤ fmt.magnitude ℚ := by
  have digits : 2 ^ 63 ≤ normalized 64 fmt.mant.toNat :=
    (normalized_bounds (mant_ne_zero nonzero) fmt.mant.isLt).1
  rw [RegisterFormat.magnitude, ← scaled_normalized, scaled]
  have bias : (regIntegerExp : ℤ) = wreBias + 63 := rfl
  calc (2 : ℚ) ^ 64 = 2 ^ 63 * 2 ^ (1 : ℤ) := by norm_num
    _ ≤ (normalized 64 fmt.mant.toNat : ℚ) *
        2 ^ (fmt.operandExp - (clz64 fmt.mant.toNat : ℤ) - wreBias - 63) := by
      refine mul_le_mul (by exact_mod_cast digits) ?_ (by positivity) (by positivity)
      exact zpow_le_zpow_right₀ (by norm_num) (by omega)

theorem fcvtRawToInteger_eq {input : RegisterFormat} (finite : input.isSpecial = false)
    (isUnsigned : Bool) (rounding : Mode) :
    let exact := toInt rounding (input.value ℚ)
    (fcvtRawToInteger input isUnsigned rounding).1 =
        (if IntegerRange isUnsigned exact then some (BitVec.ofInt 64 exact) else none) ∧
      (IntegerRange isUnsigned exact →
        ((fcvtRawToInteger input isUnsigned rounding).2.1 ↔ (exact : ℚ) ≠ input.value ℚ)) := by
  simp only [fcvtRawToInteger, finite, Bool.false_eq_true, if_false]
  by_cases zero : input.mant = 0
  · -- A zero is an integer.
    have value : input.value ℚ = ((0 : ℤ) : ℚ) := by
      rw [RegisterFormat.value, magnitude_of_zero zero, signed]
      simp
    rw [if_pos zero, value, toInt_intCast]
    refine ⟨?_, fun _ => by simp⟩
    cases isUnsigned <;> rfl
  rw [if_neg zero]
  by_cases above : (regIntegerExp : ℤ) < input.operandExp - clz64 input.mant.toNat
  · have outside :=
      not_integerRange_of_large (magnitude_large zero above) input.sign isUnsigned rounding
    rw [if_pos above, RegisterFormat.value, if_neg outside]
    exact ⟨rfl, fun inside => absurd inside outside⟩
  rw [if_neg above]
  obtain ⟨shift, placed⟩ := Int.eq_ofNat_of_zero_le
    (show 0 ≤ (regIntegerExp : ℤ) - (input.operandExp - clz64 input.mant.toNat) by omega)
  have digits := (normalized_bounds (mant_ne_zero zero) input.mant.isLt).2
  have whole : (RawResult.mk input.sign 0 (normalized 64 input.mant.toNat) .none).residue.Describes
      (0 : ℚ) :=
    Residue.none_describes
  obtain ⟨rounded, inexact, -⟩ := fpswaRoundRight_spec whole digits shift rounding
  simp only [add_zero, ← magnitude_eq_div input placed.symm] at rounded inexact
  rw [placed, Int.toNat_natCast, RegisterFormat.value, rounded]
  refine ⟨integerResult_eq _ _ _, fun _ => ?_⟩
  rw [← rounded, toInt_signed_ne_iff]
  exact inexact

/-- The magnitude of an integer, normalized. -/
theorem integerFormat_spec (sign : Bool) {magnitude : Word} (nonzero : magnitude ≠ 0) :
    let fmt : RegisterFormat :=
      ⟨sign, BitVec.ofNat 17 (regIntegerExp - clz64 magnitude.toNat),
        magnitude <<< clz64 magnitude.toNat⟩
    fmt.isSpecial = false ∧ fmt.isUnnormal = false ∧ fmt.magnitude ℚ = magnitude.toNat := by
  intro fmt
  have digits : magnitude.toNat ≠ 0 := fun zero => nonzero (BitVec.eq_of_toNat_eq zero)
  have small : clz64 magnitude.toNat + magnitude.toNat.log2 + 1 = 64 :=
    leadingZeros_add_log2 digits magnitude.isLt
  have bounds := normalized_bounds digits magnitude.isLt
  have mant : fmt.mant.toNat = normalized 64 magnitude.toNat := by
    show (magnitude <<< clz64 magnitude.toNat).toNat = _
    rw [BitVec.toNat_shiftLeft, Nat.shiftLeft_eq]
    exact Nat.mod_eq_of_lt bounds.2
  have exp : fmt.exp.toNat = regIntegerExp - clz64 magnitude.toNat := by
    show (regIntegerExp - clz64 magnitude.toNat) % 2 ^ 17 = _
    rw [regIntegerExp]
    omega
  have present : fmt.exp ≠ 0 := by
    intro zero
    rw [zero] at exp
    change 0 = _ at exp
    rw [regIntegerExp] at exp
    omega
  have finite : fmt.isSpecial = false := by
    rw [RegisterFormat.isSpecial, exp]
    refine beq_false_of_ne ?_
    rw [regIntegerExp, regSpecialExp]
    omega
  have integer : fmt.mant.getLsbD 63 := by
    rw [BitVec.getLsbD, mant, Nat.testBit_eq_decide_div_mod_eq]
    refine decide_eq_true ?_
    rw [show normalized 64 magnitude.toNat / 2 ^ 63 = 1 by omega]
  refine ⟨finite, ?_, ?_⟩
  · rw [RegisterFormat.isUnnormal, finite, beq_false_of_ne present, integer]
    simp
  · have operand : fmt.operandExp = (regIntegerExp : ℤ) - clz64 magnitude.toNat := by
      rw [RegisterFormat.operandExp, if_neg present, exp, Nat.cast_sub]
      rw [regIntegerExp]
      omega
    rw [RegisterFormat.magnitude, mant, operand, scaled_normalized, scaled]
    have bias : (regIntegerExp : ℤ) - wreBias - 63 = 0 := rfl
    rw [bias, zpow_zero, mul_one]

/-- The register that an integer is converted to. -/
theorem fcvtXfFormat_spec (value : Word) :
    (fcvtXfFormat value).isSpecial = false ∧ (fcvtXfFormat value).isUnnormal = false ∧
      (fcvtXfFormat value).value ℚ = (value.toInt : ℚ) := by
  by_cases zero : value = 0
  · subst zero
    refine ⟨by decide, by decide, ?_⟩
    rw [RegisterFormat.value, magnitude_of_zero rfl, signed]
    simp [fcvtXfFormat]
  simp only [fcvtXfFormat, if_neg zero]
  cases sign : value.getLsbD 63 with
  | false =>
    obtain ⟨finite, normal, magnitude⟩ := integerFormat_spec false zero
    refine ⟨finite, normal, ?_⟩
    have top : value.toInt = value.toNat := by
      rw [BitVec.toInt_eq_msb_cond, BitVec.msb_eq_getLsbD_last, sign]
      rfl
    rw [RegisterFormat.value]
    simp only [Bool.false_eq_true, if_false, signed]
    rw [magnitude, top, Int.cast_natCast]
  | true =>
    have nonzero : -value ≠ 0 := by
      intro none
      exact zero (BitVec.neg_eq_zero_iff.mp none)
    obtain ⟨finite, normal, magnitude⟩ := integerFormat_spec true nonzero
    refine ⟨finite, normal, ?_⟩
    have top : value.toInt = -((-value).toNat : ℤ) := by
      rw [BitVec.toInt_eq_msb_cond, BitVec.msb_eq_getLsbD_last, sign]
      simp only [if_true]
      bv_omega
    rw [RegisterFormat.value]
    simp only [if_true, signed]
    rw [magnitude, top, Int.cast_neg, Int.cast_natCast]

namespace FpState

/-- A register's significand is that of its spilled form. -/
theorem frSignificand_eq (state : FpState) {reg : Nat} (inside : reg < frCount) :
    state.frSignificand reg = (state.file.registerFormat reg).mant := by
  by_cases constant : reg ≤ 1
  · -- The constants have no tags.
    have untagged :
        state.file.registerFormat reg = binary64ToRegisterFormat (state.file.compactValue reg) := by
      simp [FrFile.registerFormat, FrFile.isNat, FrFile.isInteger, FrFile.getExtended,
        show ¬1 < reg by omega]
    rw [untagged]
    have known : reg = 0 ∨ reg = 1 := by omega
    rcases known with rfl | rfl
    · exact (by decide : (0 : Word) = (binary64ToRegisterFormat 0).mant)
    · exact (by decide : significandIntegerBit = (binary64ToRegisterFormat frOne).mant)
  have written : 1 < reg := by omega
  simp only [frSignificand, if_neg (show reg ≠ 0 by omega), if_neg (show reg ≠ 1 by omega)]
  have nat : state.file.isNat reg = Bitmaps.contains state.file.frNat reg := by
    simp [FrFile.isNat, written, inside]
  have integer : state.file.isInteger reg = Bitmaps.contains state.file.frSig reg := by
    simp [FrFile.isInteger, written, inside]
  have compact : state.file.compactValue reg = state.file.fr reg := by
    rw [FrFile.compactValue, if_neg (by omega), if_neg (by omega)]
  rw [FrFile.registerFormat, nat, integer, compact]
  -- The tags are tested in the order in which a spill tests them.
  by_cases missing : Bitmaps.contains state.file.frNat reg
  · rw [if_pos missing, if_pos missing]
    rfl
  rw [if_neg missing, if_neg missing]
  by_cases valid : Bitmaps.contains state.file.frExtValid reg
  · rw [if_pos valid, FrFile.getExtended, if_pos ⟨written, inside, valid⟩]
  have none : state.file.getExtended reg = none := if_neg fun tagged => valid tagged.2.2
  rw [if_neg valid, none]
  by_cases sig : Bitmaps.contains state.file.frSig reg
  · simp only [if_pos sig]
  · simp only [if_neg sig, binary64ToRegisterFormat, binaryToRegisterFormat_mant]
    by_cases exponent : (state.file.fr reg >>> 52).setWidth 11 = (0 : BitVec 11)
    · rw [if_neg (not_not.mpr exponent), if_pos exponent]
      simp
    · rw [if_pos exponent, if_neg exponent, BitVec.or_comm]

theorem fcvtRawToInteger_fcvtXfFormat (value : Word) (rounding : Mode) :
    (fcvtRawToInteger (fcvtXfFormat value) false rounding).1 = some value ∧
      (fcvtRawToInteger (fcvtXfFormat value) false rounding).2.1 = false := by
  obtain ⟨finite, -, exact⟩ := fcvtXfFormat_spec value
  obtain ⟨result, inexact⟩ := fcvtRawToInteger_eq finite false rounding
  rw [exact, toInt_intCast] at result inexact
  have inside : IntegerRange false value.toInt := by
    have least := BitVec.le_toInt value
    have most := BitVec.toInt_lt (x := value)
    simp only [IntegerRange, Bool.false_eq_true, if_false]
    omega
  rw [if_pos inside, BitVec.ofInt_toInt] at result
  refine ⟨result, ?_⟩
  rw [← Bool.not_eq_true, inexact inside]
  simp

/-- To floating point and back restores the significand. -/
theorem fcvtFx_fcvtXf (state : FpState) {r1 r2 r3 : Nat} (first : 1 < r1 ∧ r1 < frCount)
    (third : 1 < r3 ∧ r3 < frCount) (present : state.file.isNat r2 = false)
    (isTrunc : Bool) (sf : Nat) :
    ∃ after, (state.fcvtXf r1 r2).fcvtFx r3 r1 false isTrunc sf = .ok after ∧
      after.frSignificand r3 = state.frSignificand r2 := by
  generalize known : state.frSignificand r2 = value
  obtain ⟨-, normal, -⟩ := fcvtXfFormat_spec value
  have converted : (state.fcvtXf r1 r2).file = state.file.setFormat r1 (fcvtXfFormat value) := by
    rw [fcvtXf, if_neg (by simp [present]), known]
    simp only [frWriteExt_file _ first.1, BitVec.setWidth_setWidth_of_le _ (show 17 ≤ 32 by decide),
      BitVec.setWidth_eq]
  have contents : (state.fcvtXf r1 r2).file.registerFormat r1 = fcvtXfFormat value := by
    rw [converted, FrFile.registerFormat_setFormat _ first.1 first.2]
  have operand : (state.fcvtXf r1 r2).frRawRegisterFormat r1 = fcvtXfFormat value := by
    rw [← contents]
    exact ofSpill_spill _
  have held : ¬(state.fcvtXf r1 r2).file.isNat r1 := by
    have canonical := FrFile.canonical_setFormat state.file r1 (fcvtXfFormat value)
    rw [← converted] at canonical
    rw [FrFile.isNat_iff canonical, contents]
    intro same
    rw [same] at normal
    exact absurd normal (by decide)
  simp only [fcvtFx, if_neg held, operand]
  generalize (if isTrunc = true then Mode.zero else _) = rounding
  obtain ⟨result, exact⟩ := fcvtRawToInteger_fcvtXfFormat value rounding
  generalize fcvtRawToInteger (fcvtXfFormat value) false rounding = answer at result exact ⊢
  obtain ⟨number, inexact, fpa⟩ := answer
  simp only at result exact
  subst result exact
  simp only [noteUnnormalOperand, normal]
  refine ⟨(state.fcvtXf r1 r2).frWriteSig r3 value, rfl, ?_⟩
  rw [frSignificand_eq _ third.2, frWriteSig_file _ third.1,
    FrFile.registerFormat_setInteger _ third.1 third.2]

end FpState

/-- Conversions to integers are exact: for every finite register, rounding mode and signedness the
conversion succeeds exactly if the rounded value is in range, returns it in two's complement and
reports whether it differs from the exact value; and a conversion of any significand to floating
point and back restores it. -/
theorem fcvt_exact :
    (∀ (input : RegisterFormat) (isUnsigned : Bool) (rounding : Mode), input.isSpecial = false →
      let exact := toInt rounding (input.value ℚ)
      let answer := fcvtRawToInteger input isUnsigned rounding
      answer.1 = (if IntegerRange isUnsigned exact then some (BitVec.ofInt 64 exact) else none) ∧
        (IntegerRange isUnsigned exact → (answer.2.1 = true ↔ (exact : ℚ) ≠ input.value ℚ))) ∧
      (∀ (value : Word) (rounding : Mode),
        (fcvtRawToInteger (fcvtXfFormat value) false rounding).1 = some value) ∧
      ∀ (state : FpState) (r1 r2 r3 : Nat), 1 < r1 → r1 < frCount → 1 < r3 → r3 < frCount →
        state.file.isNat r2 = false → ∀ (isTrunc : Bool) (sf : Nat),
          ∃ after, (state.fcvtXf r1 r2).fcvtFx r3 r1 false isTrunc sf = .ok after ∧
            after.frSignificand r3 = state.frSignificand r2 := by
  refine ⟨fun input isUnsigned rounding finite => fcvtRawToInteger_eq finite isUnsigned rounding,
    fun value rounding => (FpState.fcvtRawToInteger_fcvtXfFormat value rounding).1, ?_⟩
  intro state r1 r2 r3 written1 inside1 written3 inside3 present isTrunc sf
  exact state.fcvtFx_fcvtXf ⟨written1, inside1⟩ ⟨written3, inside3⟩ present isTrunc sf

/-- Two and a half is rounded to the even neighbour, and f1 is converted to floating point and
back. -/
theorem fcvt_exact_half :
    let input : RegisterFormat := ⟨false, 0x10000, 0xa000000000000000⟩
    let exact := toInt .nearestEven (input.value ℚ)
    IntegerRange false exact ∧ BitVec.ofInt 64 exact = 2 ∧ (exact : ℚ) ≠ input.value ℚ ∧
      ∃ after, (FpState.reset.fcvtXf 2 1).fcvtFx 3 2 false true 0 = .ok after ∧
        after.frSignificand 3 = FpState.reset.frSignificand 1 := by
  intro input exact
  obtain ⟨converts, -, restores⟩ := fcvt_exact
  obtain ⟨result, inexact⟩ := converts input false .nearestEven rfl
  have two : (fcvtRawToInteger input false .nearestEven).1 = some 2 := by decide
  have inside : IntegerRange false exact := by
    by_contra outside
    rw [two, if_neg outside] at result
    cases result
  rw [two, if_pos inside] at result
  exact ⟨inside, (Option.some.inj result).symm, (inexact inside).mp (by decide),
    restores .reset 2 1 3 (by decide) (by decide) (by decide) (by decide) (by decide) true 0⟩

end Ia64.Fp
