import Ia64.Fp.Registers

/-! Writes to floating-point registers and predicates, and the backups that precede them inside an
instruction. -/

namespace Ia64.Fp

open FrFile

/-- The exceptions that a SoftFloat operation has raised. -/
structure SoftFlags where
  invalid : Bool
  divbyzero : Bool
  overflow : Bool
  underflow : Bool
  inexact : Bool
  inputDenormalFlushed : Bool
  inputDenormalUsed : Bool
  outputDenormalFlushed : Bool
deriving DecidableEq, Repr

/-- No exception. -/
def SoftFlags.none : SoftFlags := ⟨false, false, false, false, false, false, false, false⟩

/-- Raise exceptions in addition to those raised before. -/
def SoftFlags.raise (flags more : SoftFlags) : SoftFlags :=
  { invalid := flags.invalid || more.invalid
    divbyzero := flags.divbyzero || more.divbyzero
    overflow := flags.overflow || more.overflow
    underflow := flags.underflow || more.underflow
    inexact := flags.inexact || more.inexact
    inputDenormalFlushed := flags.inputDenormalFlushed || more.inputDenormalFlushed
    inputDenormalUsed := flags.inputDenormalUsed || more.inputDenormalUsed
    outputDenormalFlushed := flags.outputDenormalFlushed || more.outputDenormalFlushed }

/-- The precision that results of the extended format are rounded to. -/
inductive RoundPrecision where
  | single
  | double
  | extended
deriving DecidableEq, Repr

/-- The state of SoftFloat. -/
structure FloatStatus where
  roundingMode : Rounding.Mode
  roundPrecision : RoundPrecision
  flushToZero : Bool
  flushInputsToZero : Bool
  exceptionFlags : SoftFlags
deriving DecidableEq, Repr

/-- The rollback snapshot of an instruction that can fault. -/
structure Transaction where
  backup : FrFile
  backupPr : Nat → Word
  backupFrMask : Nat → Word
  backupPrMask : Word
  backupPsrMf : Word
  trapFpa : Bool
  packedTrapCode : BitVec 16
  packedTrap : Bool
  active : Bool

/-- The state that floating-point instructions read and write. -/
structure FpState where
  file : FrFile
  rotatingFrLive : Bool
  rotatingFrMaterializedRrb : Nat
  cfmRrbFr : Nat
  psr : Word
  pr : Nat → Word
  arFpsr : Word
  fpStatus : FloatStatus
  transaction : Transaction

/-- The state after reset. -/
def FpState.reset : FpState :=
  { file := .reset
    rotatingFrLive := false
    rotatingFrMaterializedRrb := 0
    cfmRrbFr := 0
    psr := 0
    pr := fun reg => if reg = 0 then 1 else 0
    arFpsr := 0x0009804c0270033f
    fpStatus := ⟨.nearestEven, .extended, false, false, .none⟩
    transaction := ⟨.reset, fun _ => 0, fun _ => 0, 0, 0, false, 0, false, false⟩ }

/-- PSR.mfl, set by writes to f2 to f31. -/
def psrMfl : Word := 1#64 <<< 4

/-- PSR.mfh, set by writes to f32 to f127. -/
def psrMfh : Word := 1#64 <<< 5

namespace FpState

section

variable (state : FpState) (reg : Nat)

/-- Note that a register has been written. -/
def markWritten : FpState :=
  if reg ≤ 1 then state
  else
    { state with
      psr := state.psr ||| if 32 ≤ reg then psrMfh else psrMfl
      rotatingFrLive := state.rotatingFrLive || decide (32 ≤ reg) }

/-- Write a binary64 number. -/
def fpregFromBinary64 (value : Word) : FpState :=
  if reg ≤ 1 then state else { state with file := state.file.setCompact reg value }.markWritten reg

/-- Write a spill image. -/
def fpregFromSpill (low high : Word) : FpState :=
  if reg ≤ 1 then state
  else { state with file := state.file.setFormat reg (.ofSpill low high) }.markWritten reg

variable (value : BitVec 32)

/-- Write a binary32 number by its spill image. -/
def fpregFromBinary32 : FpState :=
  let image := (binary32ToRegisterFormat value).spill
  state.fpregFromSpill reg image.1 image.2

/-- Read a register as a spill image. -/
def fpregToSpill : Word × Word := state.file.toSpill reg

/-- Read a register as a binary32 number. -/
def fpregToBinary32 : BitVec 32 :=
  let image := state.fpregToSpill reg
  registerFormatToBinary32 (.ofSpill image.1 image.2)

/-- Read a register as a binary64 number. -/
def fpregToBinary64 : Word :=
  let image := state.fpregToSpill reg
  registerFormatToBinary64 (.ofSpill image.1 image.2)

/-- The register as an operand. -/
def frRawRegisterFormat : RegisterFormat :=
  let image := state.fpregToSpill reg
  .ofSpill image.1 image.2

/-- Save a register before its first write inside the instruction. -/
def backupFr : FpState :=
  if !state.transaction.active || decide (reg ≤ 1) ||
    Bitmaps.contains state.transaction.backupFrMask reg then state
  else
    { state with
      transaction :=
        { state.transaction with
          backup := state.transaction.backup.copyCell state.file reg
          backupFrMask := Bitmaps.insert state.transaction.backupFrMask reg } }

/-- Save a predicate before its first write inside the instruction. -/
def backupPr (state : FpState) (reg : Nat) : FpState :=
  if !state.transaction.active || decide (reg = 0) || state.transaction.backupPrMask.getLsbD reg
    then state
  else
    { state with
      transaction :=
        { state.transaction with
          backupPr := Function.update state.transaction.backupPr reg (state.pr reg)
          backupPrMask := state.transaction.backupPrMask ||| 1#64 <<< reg } }

/-- Write a binary64 number after a backup. -/
def frWrite (value : Word) : FpState :=
  (state.backupFr reg).fpregFromBinary64 reg value

/-- Whether a binary32 number is a zero or a normal number. -/
def float32IsZeroOrNormal : Bool :=
  let exp := (value >>> 23).setWidth 8
  (exp != 0 && exp != 0xff) || value &&& 0x7fffffff == 0

/-- The binary64 encoding of a binary32 zero or normal number. -/
def compactOfBinary32 : Word :=
  let sign : Word := (value &&& 0x80000000).setWidth 64 <<< 32
  let exp := (value >>> 23).setWidth 8
  if exp ≠ 0 then
    sign ||| (exp.setWidth 64 + 0x380) <<< 52 ||| (value.setWidth 23).setWidth 64 <<< 29
  else sign

/-- Write a binary32 number after a backup. -/
def frWriteBinary32 : FpState :=
  if float32IsZeroOrNormal value then state.frWrite reg (compactOfBinary32 value)
  else (state.backupFr reg).fpregFromBinary32 reg value

/-- Write an integer after a backup. -/
def frWriteSig (value : Word) : FpState :=
  let state := state.backupFr reg
  if reg ≤ 1 then state else { state with file := state.file.setInteger reg value }.markWritten reg

/-- Write a register format after a backup. -/
def frWriteExt (sign : Bool) (exp : BitVec 32) (mant : Word) : FpState :=
  let image := RegisterFormat.spill ⟨sign, exp.setWidth 17, mant⟩
  (state.backupFr reg).fpregFromSpill reg image.1 image.2

/-- Write a NaTVal after a backup. -/
def frWriteNat : FpState :=
  (state.backupFr reg).fpregFromSpill reg 0 (BitVec.ofNat 64 regNatvalExp)

/-- The sign that a copy gives its result: cleared, kept, changed or set. -/
def copiedSign (signMode : Int) (sign : Bool) : Bool :=
  if signMode = 0 then false else if signMode < 0 then !sign else if signMode = 2
    then true else sign

/-- Note that a register holds an integer that another one held. -/
def copyIntOrigin (state : FpState) (dst src : Nat) : FpState :=
  if decide (1 < src) && Bitmaps.contains state.file.frIntOrigin src then
    { state with
      file :=
        { state.file with
          frIntValue := Function.update state.file.frIntValue dst (state.file.frIntValue src)
          frIntOrigin := Bitmaps.insert state.file.frIntOrigin dst } }
  else state

/-- The binary64 encoding with the sign that a copy gives it. -/
def copiedCompact (signMode : Int) (value : Word) : Word :=
  if signMode = 0 then value &&& int64Max
  else if signMode < 0 then value ^^^ (1#64 <<< 63)
  else if signMode = 2 then value ||| (1#64 <<< 63)
  else value

/-- Copy a register, with its sign changed as the mode says. -/
def frCopy (state : FpState) (dst src : Nat) (signMode : Int) : FpState :=
  if dst ≤ 1 then state
  else if state.file.isNat src then state.frWriteNat dst
  else if state.file.isInteger src then
    let value := state.file.compactValue src
    if signMode = 0 ∨ signMode = 1 then state.frWriteSig dst value
    else if signMode < 0 ∨ signMode = 2
      then state.frWriteExt dst true (BitVec.ofNat 32 regIntegerExp) value
    else state.frWriteSig dst value
  else
    match state.file.getExtended src with
    | some fmt =>
      (state.frWriteExt dst (copiedSign signMode fmt.sign)
        (fmt.exp.setWidth 32) fmt.mant).copyIntOrigin dst src
    | none => state.frWrite dst (copiedCompact signMode (state.file.compactValue src))

/-- Write a predicate; p0 stays true. -/
def prWrite (value : Bool) : FpState :=
  let state := if reg ≠ 0 then state.backupPr reg else state
  let pr := if reg ≠ 0 then Function.update state.pr reg (if value then 1 else 0) else state.pr
  { state with pr := Function.update pr 0 1 }

@[simp]
theorem backupFr_file : (state.backupFr reg).file = state.file := by
  -- Only the snapshot changes.
  unfold backupFr
  split_ifs <;> rfl

@[simp]
theorem markWritten_file : (state.markWritten reg).file = state.file := by
  -- Only the processor status and the latch change.
  unfold markWritten
  split_ifs <;> rfl

end

section Files

variable (state : FpState) {reg : Nat} (written : 1 < reg)

include written

@[simp]
theorem fpregFromBinary64_file (value : Word) :
    (state.fpregFromBinary64 reg value).file = state.file.setCompact reg value := by
  rw [fpregFromBinary64, if_neg (by omega), markWritten_file]

@[simp]
theorem fpregFromSpill_file (low high : Word) :
    (state.fpregFromSpill reg low high).file = state.file.setFormat reg (.ofSpill low high) := by
  rw [fpregFromSpill, if_neg (by omega), markWritten_file]

@[simp]
theorem fpregFromBinary32_file (value : BitVec 32) :
    (state.fpregFromBinary32 reg value).file =
      state.file.setFormat reg (binary32ToRegisterFormat value) := by
  simp [fpregFromBinary32, written]

@[simp]
theorem frWrite_file (value : Word) :
    (state.frWrite reg value).file = state.file.setCompact reg value := by
  simp [frWrite, written]

@[simp]
theorem frWriteSig_file (value : Word) :
    (state.frWriteSig reg value).file = state.file.setInteger reg value := by
  simp [frWriteSig, show ¬reg ≤ 1 by omega]

@[simp]
theorem frWriteExt_file (sign : Bool) (exp : BitVec 32) (mant : Word) :
    (state.frWriteExt reg sign exp mant).file = state.file.setFormat reg ⟨sign,
      exp.setWidth 17, mant⟩ := by
  simp only [frWriteExt]
  rw [fpregFromSpill_file _ written, ofSpill_spill, backupFr_file]

@[simp]
theorem frWriteNat_file : (state.frWriteNat reg).file = state.file.setNat reg := by
  have image : RegisterFormat.ofSpill 0 (BitVec.ofNat 64 regNatvalExp) = natVal := by decide
  rw [frWriteNat, fpregFromSpill_file _ written, image, backupFr_file, setFormat, if_pos rfl]

end Files

variable {value : BitVec 32} {reg dst : Nat} {file : FrFile} {state after : FpState}

/-- The parts of a binary32 number in binary64. -/
theorem compactOfBinary32_packed (present : (value >>> 23).setWidth 8 ≠ 0) :
    compactOfBinary32 value =
      ((BitVec.ofBool (value.getLsbD 31)).setWidth 64 <<< 63 |||
        (((value >>> 23).setWidth 8).setWidth 17 + 0x380).setWidth 64 <<< 52 |||
        ((value.setWidth 23).setWidth 52 <<< 29).setWidth 64) := by
  have sign : (value &&& 0x80000000).setWidth 64 <<< 32 =
      ((BitVec.ofBool (value.getLsbD 31)).setWidth 64 <<< 63 : Word) := by
    apply BitVec.eq_of_getLsbD_eq
    intro i inside
    rw [show (0x80000000 : BitVec 32) = 1#32 <<< 31 from rfl]
    simp only [BitVec.getLsbD_shiftLeft, BitVec.getLsbD_setWidth, BitVec.getLsbD_and,
      BitVec.getLsbD_ofBool, Words.getLsbD_one_shiftLeft (show 31 < 32 by decide), inside]
    by_cases top : i = 63
    · subst top
      simp
    · simp [show i - 32 ≠ 31 by omega, show i < 63 by omega]
  have exponent : ∀ exp : BitVec 8,
      exp.setWidth 64 + 0x380 = ((exp.setWidth 17 + 0x380).setWidth 64 : Word) := by
    decide +kernel
  have fraction : ((value.setWidth 23).setWidth 64 <<< 29 : Word) =
      ((value.setWidth 23).setWidth 52 <<< 29).setWidth 64 := by
    apply BitVec.eq_of_getLsbD_eq
    intro i inside
    simp only [BitVec.getLsbD_shiftLeft, BitVec.getLsbD_setWidth, inside]
    -- No digit of the fraction reaches past the 52nd place.
    by_cases digit : i - 29 < 23
    · simp [digit, show i - 29 < 64 by omega, show i - 29 < 52 by omega, show i < 52 by omega]
    · simp [digit]
  simp only [compactOfBinary32]
  rw [if_pos present, sign, exponent, fraction]

/-- A binary32 zero or normal number keeps its register. -/
theorem binary64ToRegisterFormat_compactOfBinary32 (plain : float32IsZeroOrNormal value) :
    binary64ToRegisterFormat (compactOfBinary32 value) = binary32ToRegisterFormat value := by
  by_cases zero : value &&& 0x7fffffff = 0
  · -- Only the sign is left.
    have known : value = 0 ∨ value = 0x80000000 := by
      have low : value.toNat &&& (2 ^ 31 - 1) = 0 := congrArg BitVec.toNat zero
      rw [Nat.and_two_pow_sub_one_eq_mod] at low
      bv_omega
    rcases known with plus | minus
    · rw [plus]
      decide
    · rw [minus]
      decide
  have normal : (value >>> 23).setWidth 8 ≠ 0 ∧ (value >>> 23).setWidth 8 ≠ 0xff := by
    rw [float32IsZeroOrNormal, beq_false_of_ne zero] at plain
    simpa using plain
  obtain ⟨present, finite⟩ := normal
  have exponents : ∀ exp : BitVec 8, exp ≠ 0 → exp ≠ 0xff →
      (exp.setWidth 17 + 0x380 : BitVec 17).toNat < 2 ^ 11 ∧
        (exp.setWidth 17 + 0x380 : BitVec 17).setWidth 11 ≠ 0 ∧
        (exp.setWidth 17 + 0x380 : BitVec 17).setWidth 11 ≠ BitVec.allOnes 11 ∧
        (0xfc00 : BitVec 17) + ((exp.setWidth 17 + 0x380 : BitVec 17).setWidth 11).setWidth 17 =
          0xff80 + exp.setWidth 17 := by
    decide +kernel
  obtain ⟨small, nonzero, notFull, moved⟩ := exponents _ present finite
  obtain ⟨signed, exponent, fraction⟩ :=
    packed_fields (value.getLsbD 31) small ((value.setWidth 23).setWidth 52 <<< 29)
  rw [← compactOfBinary32_packed present] at signed exponent fraction
  have sourceExp : ((value.setWidth 64) >>> 23).setWidth 8 = (value >>> 23).setWidth 8 := by
    apply BitVec.eq_of_getLsbD_eq
    intro i inside
    simp [inside, show 23 + i < 64 by omega]
  have sourceFrac : (value.setWidth 64).setWidth 23 = value.setWidth 23 :=
    BitVec.setWidth_setWidth_of_le _ (by decide)
  have sourceSign : (value.setWidth 64).getLsbD (8 + 23) = value.getLsbD 31 := by
    rw [BitVec.getLsbD_setWidth]
    rfl
  have digits : (((value.setWidth 23).setWidth 52 <<< 29).setWidth 64 <<< (63 - 52) : Word) =
      (value.setWidth 23).setWidth 64 <<< (63 - 23) := by
    apply BitVec.eq_of_getLsbD_eq
    intro i inside
    simp only [BitVec.getLsbD_shiftLeft, BitVec.getLsbD_setWidth, inside]
    by_cases low : i < 40
    · simp [low, show i - 11 < 29 by omega]
    by_cases digit : i - 40 < 23
    · simp [low, digit, show ¬i < 11 by omega, show ¬i - 11 < 29 by omega,
        show i - 11 < 64 by omega,
        show i - 11 < 52 by omega, show i - 40 < 52 by omega, show i - 40 < 64 by omega,
        show i - 11 - 29 = i - 40 by omega]
    · simp [digit, show i - 11 - 29 = i - 40 by omega]
  have notSpecial : (value >>> 23).setWidth 8 ≠ BitVec.allOnes 8 := finite
  simp only [binary64ToRegisterFormat, binary32ToRegisterFormat, binaryToRegisterFormat]
  rw [exponent, fraction, signed, sourceExp, sourceFrac, sourceSign, if_neg nonzero, if_neg notFull,
    if_neg present, if_neg notSpecial, moved, digits]

section

variable (state : FpState)

theorem frWriteBinary32_registerFormat (written : 1 < reg) (inside : reg < frCount)
    (value : BitVec 32) :
    (state.frWriteBinary32 reg value).file.registerFormat reg = binary32ToRegisterFormat value := by
  unfold frWriteBinary32
  split_ifs with plain
  · rw [frWrite_file _ written, registerFormat_setCompact _ written,
      binary64ToRegisterFormat_compactOfBinary32 plain]
  · rw [fpregFromBinary32_file _ written, registerFormat_setFormat _ written inside]

theorem binary64ToRegisterFormat_of_low {left right : Word}
    (same : ∀ i < 63, left.getLsbD i = right.getLsbD i) :
    binary64ToRegisterFormat left = { binary64ToRegisterFormat right with
      sign := left.getLsbD 63 } := by
  have fraction : left.setWidth 52 = right.setWidth 52 := by
    apply BitVec.eq_of_getLsbD_eq
    intro i inside
    simp [inside, same i (by omega)]
  have exponent : (left >>> 52).setWidth 11 = (right >>> 52).setWidth 11 := by
    apply BitVec.eq_of_getLsbD_eq
    intro i inside
    simp [inside, same (52 + i) (by omega)]
  simp only [binary64ToRegisterFormat, binaryToRegisterFormat, fraction, exponent]
  split_ifs <;> rfl

/-- The bits of an encoding that a copy gives its sign. -/
theorem getLsbD_copiedCompact (signMode : Int) (value : Word) {i : Nat} (inside : i < 64) :
    (copiedCompact signMode value).getLsbD i =
      if i = 63 then copiedSign signMode (value.getLsbD 63) else value.getLsbD i := by
  have top : (1#64 <<< 63).getLsbD i = decide (i = 63) := getLsbD_significandIntegerBit i
  have rest : int64Max.getLsbD i = decide (i ≠ 63) := by
    rw [show int64Max = ~~~(1#64 <<< 63) from rfl, BitVec.getLsbD_not, top]
    simp [inside]
  unfold copiedCompact copiedSign
  -- Each mode replaces the highest bit with a mask.
  by_cases here : i = 63
  · subst here
    rw [if_pos rfl]
    split_ifs
    · rw [BitVec.getLsbD_and, rest, decide_eq_false (by decide), Bool.and_false]
    · rw [BitVec.getLsbD_xor, top, decide_eq_true rfl, Bool.xor_true]
    · rw [BitVec.getLsbD_or, top, decide_eq_true rfl, Bool.or_true]
    · rfl
  · rw [if_neg here]
    split_ifs
    · rw [BitVec.getLsbD_and, rest, decide_eq_true here, Bool.and_true]
    · rw [BitVec.getLsbD_xor, top, decide_eq_false here, Bool.xor_false]
    · rw [BitVec.getLsbD_or, top, decide_eq_false here, Bool.or_false]
    · rfl

theorem binary64ToRegisterFormat_copiedCompact (signMode : Int) (value : Word) :
    binary64ToRegisterFormat (copiedCompact signMode value) =
      { binary64ToRegisterFormat value with
        sign := copiedSign signMode (binary64ToRegisterFormat value).sign } := by
  have low : ∀ i < 63, (copiedCompact signMode value).getLsbD i = value.getLsbD i := by
    intro i below
    rw [getLsbD_copiedCompact signMode value (by omega), if_neg (by omega)]
  rw [binary64ToRegisterFormat_of_low low, getLsbD_copiedCompact signMode value (by decide),
    if_pos rfl]
  rw [show (binary64ToRegisterFormat value).sign = value.getLsbD 63 from
    binaryToRegisterFormat_sign ..]

theorem copyIntOrigin_registerFormat (dst src reg : Nat) :
    (state.copyIntOrigin dst src).file.registerFormat reg = state.file.registerFormat reg := by
  unfold copyIntOrigin
  split_ifs <;> rfl

theorem registerFormat_of_integer (exclusive : file.Exclusive reg)
    (present : ¬file.isNat reg) (integer : file.isInteger reg) :
    file.registerFormat reg = ⟨false, BitVec.ofNat 17 regIntegerExp, file.fr reg⟩ := by
  have tagged : Bitmaps.contains file.frSig reg := (Bool.and_eq_true _ _ ▸ integer).2
  have single : file.getExtended reg = none := if_neg fun valid => exclusive ⟨tagged, valid.2.2⟩
  rw [registerFormat, if_neg present, single]
  exact if_pos integer

theorem compactValue_of_integer (integer : file.isInteger reg) :
    file.compactValue reg = file.fr reg := by
  simp only [isInteger, Bool.and_eq_true, decide_eq_true_eq] at integer
  rw [compactValue, if_neg (by omega), if_neg (by omega)]

/-- A copy holds the source with the sign of the mode. -/
theorem frCopy_registerFormat {src : Nat} (written : 1 < dst) (inside : dst < frCount)
    (exclusive : state.file.Exclusive src) (signMode : Int) :
    (state.frCopy dst src signMode).file.registerFormat dst =
      let source := state.file.registerFormat src
      if state.file.isNat src then source else { source with
        sign := copiedSign signMode source.sign } := by
  have architected : ¬dst ≤ 1 := by omega
  simp only [frCopy, if_neg architected]
  by_cases missing : state.file.isNat src
  · -- A NaTVal stays one.
    rw [if_pos missing, if_pos missing, frWriteNat_file _ written,
      registerFormat_setNat _ written inside, registerFormat, if_pos missing]
  rw [if_neg missing, if_neg missing]
  by_cases integer : state.file.isInteger src
  · -- An integer is positive until the copy gives it a sign.
    have source := registerFormat_of_integer exclusive missing integer
    have value := compactValue_of_integer integer
    rw [if_pos integer, source, value]
    simp only [copiedSign]
    by_cases kept : signMode = 0 ∨ signMode = 1
    · rw [if_pos kept, frWriteSig_file _ written, registerFormat_setInteger _ written inside]
      rcases kept with rfl | rfl <;> rfl
    rw [if_neg kept]
    by_cases negated : signMode < 0 ∨ signMode = 2
    · rw [if_pos negated, frWriteExt_file _ written, registerFormat_setFormat _ written inside]
      rcases negated with below | rfl
      · simp [below, below.ne]
      · rfl
    · rw [if_neg negated, frWriteSig_file _ written, registerFormat_setInteger _ written inside]
      simp only [not_or] at kept negated
      simp [kept.1, negated.1, negated.2]
  rw [if_neg integer]
  cases extended : state.file.getExtended src with
  | some fmt =>
    have source : state.file.registerFormat src = fmt := by
      rw [registerFormat, if_neg missing, extended]
    simp only
    rw [copyIntOrigin_registerFormat, frWriteExt_file _ written,
      registerFormat_setFormat _ written inside,
      source, BitVec.setWidth_setWidth_of_le _ (by decide), BitVec.setWidth_eq]
  | none =>
    have source :
        state.file.registerFormat src = binary64ToRegisterFormat (state.file.compactValue src) := by
      rw [registerFormat, if_neg missing, extended]
      exact if_neg integer
    simp only
    rw [frWrite_file _ written, registerFormat_setCompact _ written, source,
      binary64ToRegisterFormat_copiedCompact]

/-- A write to a register. -/
inductive FrWrite where
  | compact (value : Word)
  | binary32 (value : BitVec 32)
  | significand (value : Word)
  | extended (sign : Bool) (exp : BitVec 32) (mant : Word)
  | nat
  | copy (src : Fin frCount) (signMode : Int)
deriving DecidableEq, Repr

/-- Carry a write out. -/
def store (dst : Nat) : FrWrite → FpState
  | .compact value => state.frWrite dst value
  | .binary32 value => state.frWriteBinary32 dst value
  | .significand value => state.frWriteSig dst value
  | .extended sign exp mant => state.frWriteExt dst sign exp mant
  | .nat => state.frWriteNat dst
  | .copy src signMode => state.frCopy dst src signMode

/-- What a write puts into its register. -/
def FrWrite.contents (contents : Nat → RegisterFormat) : FrWrite → RegisterFormat
  | .compact value => binary64ToRegisterFormat value
  | .binary32 value => binary32ToRegisterFormat value
  | .significand value => ⟨false, BitVec.ofNat 17 regIntegerExp, value⟩
  | .extended sign exp mant => ⟨sign, exp.setWidth 17, mant⟩
  | .nat => natVal
  | .copy src signMode =>
    let source := contents src
    if source = natVal then source else { source with sign := copiedSign signMode source.sign }

theorem backupFr_low (constant : reg ≤ 1) : state.backupFr reg = state := by
  simp [backupFr, constant]

theorem store_low (constant : dst ≤ 1) (write : FrWrite) :
    state.store dst write = state := by
  have unsaved := backupFr_low state constant
  cases write with
  | compact value => simp [store, frWrite, fpregFromBinary64, constant, unsaved]
  | binary32 value =>
    simp only [store, frWriteBinary32]
    split_ifs <;> simp [frWrite, fpregFromBinary64, fpregFromBinary32, fpregFromSpill,
      constant, unsaved]
  | significand value => simp [store, frWriteSig, constant, unsaved]
  | extended sign exp mant => simp [store, frWriteExt, fpregFromSpill, constant, unsaved]
  | nat => simp [store, frWriteNat, fpregFromSpill, constant, unsaved]
  | copy src signMode => simp [store, frCopy, constant]

theorem markWritten_with_file (file : FrFile) (reg : Nat) :
    { state with file := file }.markWritten reg = { state.markWritten reg with file := file } := by
  unfold markWritten
  split_ifs <;> rfl

end

/-- What a write does apart from the file: it saves its register and notes the write. -/
def Frame (state after : FpState) (dst : Nat) : Prop :=
  after = { (state.backupFr dst).markWritten dst with file := after.file }

theorem Frame.rotation (frame : state.Frame after dst) (written : 1 < dst) :
    after.cfmRrbFr = state.cfmRrbFr ∧
      after.rotatingFrMaterializedRrb = state.rotatingFrMaterializedRrb ∧
      after.rotatingFrLive = (state.rotatingFrLive || decide (32 ≤ dst)) := by
  rw [frame]
  simp only [markWritten, if_neg (show ¬dst ≤ 1 by omega), backupFr]
  split_ifs <;> exact ⟨rfl, rfl, rfl⟩

theorem Frame.registers (frame : state.Frame after dst) (written : 1 < dst) :
    after.transaction = (state.backupFr dst).transaction ∧ after.pr = state.pr ∧
      after.arFpsr = state.arFpsr ∧
      after.psr = state.psr ||| if 32 ≤ dst then psrMfh else psrMfl := by
  have rest : (state.backupFr dst).pr = state.pr ∧ (state.backupFr dst).arFpsr = state.arFpsr ∧
      (state.backupFr dst).psr = state.psr := by
    unfold backupFr
    split_ifs <;> exact ⟨rfl, rfl, rfl⟩
  rw [frame, markWritten, if_neg (by omega)]
  simp [rest]

section Frames

variable (state : FpState) {dst : Nat} (written : 1 < dst)

include written

theorem fpregFromBinary64_eq (value : Word) :
    state.fpregFromBinary64 dst value =
      { state.markWritten dst with file := (state.fpregFromBinary64 dst value).file } := by
  rw [fpregFromBinary64_file _ written, fpregFromBinary64, if_neg (by omega), markWritten_with_file]

theorem fpregFromSpill_eq (low high : Word) :
    state.fpregFromSpill dst low high =
      { state.markWritten dst with file := (state.fpregFromSpill dst low high).file } := by
  rw [fpregFromSpill_file _ written, fpregFromSpill, if_neg (by omega), markWritten_with_file]

theorem frWriteSig_frame (value : Word) : state.Frame (state.frWriteSig dst value) dst := by
  rw [Frame, frWriteSig_file _ written]
  simp only [frWriteSig, backupFr_file, if_neg (show ¬dst ≤ 1 by omega), markWritten_with_file]

theorem frCopy_frame (src : Nat) (signMode : Int) :
    state.Frame (state.frCopy dst src signMode) dst := by
  have architected : ¬dst ≤ 1 := by omega
  simp only [frCopy, if_neg architected]
  split_ifs
  · exact fpregFromSpill_eq _ written _ _
  · exact frWriteSig_frame state written _
  · exact fpregFromSpill_eq _ written _ _
  · exact frWriteSig_frame state written _
  cases state.file.getExtended src with
  | some fmt =>
    simp only [copyIntOrigin]
    split_ifs
    · rw [frWriteExt, fpregFromSpill_eq _ written]
      rfl
    · exact fpregFromSpill_eq _ written _ _
  | none => exact fpregFromBinary64_eq _ written _

theorem store_frame (write : FrWrite) : state.Frame (state.store dst write) dst := by
  cases write with
  | compact value => exact fpregFromBinary64_eq _ written _
  | binary32 value =>
    simp only [store, frWriteBinary32]
    split_ifs
    · exact fpregFromBinary64_eq _ written _
    · exact fpregFromSpill_eq _ written _ _
  | significand value => exact frWriteSig_frame state written _
  | extended sign exp mant => exact fpregFromSpill_eq _ written _ _
  | nat => exact fpregFromSpill_eq _ written _ _
  | copy src signMode => exact frCopy_frame state written src signMode

end Frames

theorem wrote_copyIntOrigin {before : FrFile} (wrote : before.Wrote state.file dst)
    (src : Nat) : before.Wrote (state.copyIntOrigin dst src).file dst := by
  unfold copyIntOrigin
  split_ifs
  · refine ⟨fun other apart => ?_, wrote.canonical.exclusive, wrote.canonical.retained⟩
    rw [← wrote.others other apart]
    simp [cell, Bitmaps.contains_insert, apart]
  · exact wrote

variable (state : FpState)

/-- A copy writes its destination. -/
theorem frCopy_wrote (written : 1 < dst) (src : Nat) (signMode : Int) :
    state.file.Wrote (state.frCopy dst src signMode).file dst := by
  have architected : ¬dst ≤ 1 := by omega
  simp only [frCopy, if_neg architected]
  -- Every branch ends in one of the other writes.
  split_ifs
  · rw [frWriteNat_file _ written]
    exact wrote_setNat _ _
  · rw [frWriteSig_file _ written]
    exact wrote_setInteger ..
  · rw [frWriteExt_file _ written]
    exact wrote_setFormat ..
  · rw [frWriteSig_file _ written]
    exact wrote_setInteger ..
  cases state.file.getExtended src with
  | some fmt =>
    refine wrote_copyIntOrigin ?_ src
    rw [frWriteExt_file _ written]
    exact wrote_setFormat ..
  | none =>
    simp only
    rw [frWrite_file _ written]
    exact wrote_setCompact ..

/-- A write changes its own register only. -/
theorem store_wrote (written : 1 < dst) (write : FrWrite) :
    state.file.Wrote (state.store dst write).file dst := by
  cases write with
  | compact value =>
    rw [store, frWrite_file _ written]
    exact wrote_setCompact ..
  | binary32 value =>
    simp only [store, frWriteBinary32]
    split_ifs
    · rw [frWrite_file _ written]
      exact wrote_setCompact ..
    · rw [fpregFromBinary32_file _ written, backupFr_file]
      exact wrote_setFormat ..
  | significand value =>
    rw [store, frWriteSig_file _ written]
    exact wrote_setInteger ..
  | extended sign exp mant =>
    rw [store, frWriteExt_file _ written]
    exact wrote_setFormat ..
  | nat =>
    rw [store, frWriteNat_file _ written]
    exact wrote_setNat ..
  | copy src signMode => exact frCopy_wrote state written src signMode

/-- A write puts its contents into the register. -/
theorem store_registerFormat (written : 1 < dst) (inside : dst < frCount)
    (canonical : ∀ reg, state.file.Canonical reg) (write : FrWrite) :
    (state.store dst write).file.registerFormat dst = write.contents state.file.registerFormat := by
  cases write with
  | compact value =>
    rw [store, frWrite_file _ written, registerFormat_setCompact _ written, FrWrite.contents]
  | binary32 value => exact frWriteBinary32_registerFormat state written inside value
  | significand value =>
    rw [store, frWriteSig_file _ written, registerFormat_setInteger _ written inside,
      FrWrite.contents]
  | extended sign exp mant =>
    rw [store, frWriteExt_file _ written, registerFormat_setFormat _ written inside,
      FrWrite.contents]
  | nat =>
    rw [store, frWriteNat_file _ written, registerFormat_setNat _ written inside, FrWrite.contents]
  | copy src signMode =>
    rw [store, frCopy_registerFormat state written inside (canonical src).exclusive,
      FrWrite.contents]
    simp only [isNat_iff (canonical src)]

theorem store_canonical (dst : Nat) (write : FrWrite)
    (canonical : ∀ reg, state.file.Canonical reg) (reg : Nat) :
    (state.store dst write).file.Canonical reg := by
  by_cases constant : dst ≤ 1
  · rw [store_low state constant]
    exact canonical reg
  have wrote := store_wrote state (show 1 < dst by omega) write
  by_cases here : reg = dst
  · rw [here]
    exact wrote.canonical
  · exact (canonical reg).congr (wrote.others reg here).symm

/-- The exponent and sign word of a spilled register with another sign. -/
def withSign (high : Word) (sign : Bool) : Word :=
  (high &&& 0x1ffff#64) ||| (BitVec.ofBool sign).setWidth 64 <<< 17

theorem spill_with_sign (fmt : RegisterFormat) (sign : Bool) :
    RegisterFormat.spill { fmt with sign := sign } = (fmt.spill.1, withSign fmt.spill.2 sign) := by
  refine Prod.ext rfl (congrArg (· ||| (BitVec.ofBool sign).setWidth 64 <<< 17) ?_)
  -- The mask keeps the exponent and drops the old sign.
  apply BitVec.eq_of_getLsbD_eq
  intro i inside
  rw [show 0x1ffff#64 = (BitVec.allOnes 17).setWidth 64 from rfl]
  simp only [RegisterFormat.spill, BitVec.getLsbD_and, BitVec.getLsbD_or, BitVec.getLsbD_setWidth,
    BitVec.getLsbD_shiftLeft, BitVec.getLsbD_allOnes, inside]
  by_cases below : i < 17
  · simp [below]
  · simp [below, BitVec.getLsbD_of_ge fmt.exp i (by omega)]

theorem spill_sign (fmt : RegisterFormat) : fmt.spill.2.getLsbD 17 = fmt.sign :=
  congrArg RegisterFormat.sign (ofSpill_spill fmt)

/-- Every representation of a register keeps all of its bits: spilling gives back what was filled
in, the interchange formats are read back as they were written, both ways of writing a binary32
number agree, and a copy changes nothing but the sign. -/
theorem representations_lossless (state : FpState) {reg : Nat} (written : 1 < reg)
    (inside : reg < frCount) :
    (∀ low high, (state.fpregFromSpill reg low high).fpregToSpill reg = (low, high &&& 0x3ffff)) ∧
      (∀ value, (state.fpregFromBinary32 reg value).fpregToBinary32 reg = value) ∧
      (∀ value, (state.fpregFromBinary64 reg value).fpregToBinary64 reg = value) ∧
      (∀ value, (state.frWriteBinary32 reg value).fpregToSpill reg =
        (state.fpregFromBinary32 reg value).fpregToSpill reg) ∧
      ∀ src < frCount, state.file.Exclusive src → ∀ signMode,
        let copied := state.frCopy reg src signMode
        let image := state.fpregToSpill src
        if state.file.isNat src then copied.file.isNat reg = true ∧ copied.fpregToSpill reg = image
        else copied.fpregToSpill reg = (image.1,
          withSign image.2 (copiedSign signMode (image.2.getLsbD 17))) := by
  refine ⟨fun low high => ?_, fun value => ?_, fun value => ?_, fun value => ?_, ?_⟩
  · rw [fpregToSpill, toSpill, fpregFromSpill_file _ written,
      registerFormat_setFormat _ written inside, spill_ofSpill]
  · simp only [fpregToBinary32, fpregToSpill, toSpill]
    rw [ofSpill_spill, fpregFromBinary32_file _ written, registerFormat_setFormat _ written inside,
      registerFormatToBinary32_binary32ToRegisterFormat]
  · simp only [fpregToBinary64, fpregToSpill, toSpill]
    rw [ofSpill_spill, fpregFromBinary64_file _ written, registerFormat_setCompact _ written,
      registerFormatToBinary64_binary64ToRegisterFormat]
  · simp only [fpregToSpill, toSpill]
    rw [frWriteBinary32_registerFormat state written inside, fpregFromBinary32_file _ written,
      registerFormat_setFormat _ written inside]
  · intro src _ exclusive signMode
    simp only [fpregToSpill, toSpill]
    rw [frCopy_registerFormat state written inside exclusive]
    by_cases missing : state.file.isNat src = true
    · simp only [missing, if_true]
      have copied : (state.frCopy reg src signMode).file = state.file.setNat reg := by
        rw [frCopy, if_neg (by omega), if_pos missing, frWriteNat_file _ written]
      refine ⟨?_, trivial⟩
      rw [copied, isNat_iff (canonical_setNat ..), registerFormat_setNat _ written inside]
    · simp only [missing, spill_sign]
      exact spill_with_sign _ _

/-- Filling f32 drops the reserved bits, and negating f1 into it changes the sign of one. -/
theorem representations_lossless_f32 :
    (reset.fpregFromSpill 32 5 0xfff7003e).fpregToSpill 32 = (5, 0x3003e) ∧
      (reset.frCopy 32 1 (-1)).fpregToSpill 32 = (0x8000000000000000, 0x2ffff) :=
  have lossless :=
    representations_lossless reset (show 1 < 32 by decide) (show 32 < frCount by decide)
  ⟨lossless.1 5 0xfff7003e, lossless.2.2.2.2 1 (by decide) (canonical_reset 1).exclusive (-1)⟩

end FpState

end Ia64.Fp
