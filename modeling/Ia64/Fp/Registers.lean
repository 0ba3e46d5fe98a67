import Ia64.Fp.Format
import Ia64.Lib.Bitmaps

/-! The floating-point register file: its representations, the spill format and the interchange
formats. -/

namespace Ia64.Fp

open BitVec Bitmaps Bitmaps RegisterFormat Function

/-- The number of floating-point registers. -/
def frCount : Nat := 128

instance : NeZero frCount := ⟨by decide⟩

/-- The binary64 encoding of one, which f1 reads as. -/
def frOne : Word := 0x3ff0000000000000

/-- The arrays and the tag bitmaps that hold the registers. -/
structure FrFile where
  fr : Nat → Word
  frExtMant : Nat → Word
  frExtExp : Nat → BitVec 17
  frIntValue : Nat → Word
  frNat : Nat → Word
  frSig : Nat → Word
  frExtSign : Nat → Word
  frExtValid : Nat → Word
  frIntOrigin : Nat → Word

/-- The entries of all arrays and bitmaps for one register. -/
structure FrCell where
  fr : Word
  extMant : Word
  extExp : BitVec 17
  intValue : Word
  nat : Bool
  sig : Bool
  extSign : Bool
  extValid : Bool
  intOrigin : Bool
deriving DecidableEq, Repr

/-- One register of the file. -/
def FrFile.cell (file : FrFile) (reg : Nat) : FrCell :=
  { fr := file.fr reg
    extMant := file.frExtMant reg
    extExp := file.frExtExp reg
    intValue := file.frIntValue reg
    nat := contains file.frNat reg
    sig := contains file.frSig reg
    extSign := contains file.frExtSign reg
    extValid := contains file.frExtValid reg
    intOrigin := contains file.frIntOrigin reg }

/-- The file after reset: zeros, apart from the constant in f1. -/
def FrFile.reset : FrFile :=
  ⟨fun reg => if reg = 1 then frOne else 0, fun _ => 0, fun _ => 0, fun _ => 0, fun _ => 0,
    fun _ => 0, fun _ => 0, fun _ => 0, fun _ => 0⟩

section Interchange

variable (expBits fracBits : Nat)

/-- Read an interchange encoding with its exponents moved to the register format's bias. -/
def binaryToRegisterFormat (expBase : BitVec 17) (value : Word) : RegisterFormat :=
  let frac := value.setWidth fracBits
  let binaryExp := (value >>> fracBits).setWidth expBits
  let sign := value.getLsbD (expBits + fracBits)
  let fraction := frac.setWidth 64 <<< (63 - fracBits)
  if binaryExp = 0 then
    if frac = 0 then ⟨sign, 0, 0⟩ else ⟨sign, expBase + 1, fraction⟩
  else if binaryExp = BitVec.allOnes expBits then
    ⟨sign, BitVec.ofNat 17 regSpecialExp, significandIntegerBit ||| fraction⟩
  else ⟨sign, expBase + binaryExp.setWidth 17, significandIntegerBit ||| fraction⟩

/-- The exponent without its middle bits. -/
def narrowExp (exp : BitVec 17) : BitVec 17 :=
  ((exp >>> (17 - expBits)) &&& (1#17 <<< (expBits - 1))) |||
    (exp &&& ((1#17 <<< (expBits - 1)) - 1#17))

/-- Drop what an interchange encoding has no room for: the middle bits of the exponent and the last
digits. -/
def registerFormatToBinary (fmt : RegisterFormat) : Word :=
  let value := (BitVec.ofBool fmt.sign).setWidth 64 <<< (expBits + fracBits)
  -- The exponent counts only with an integer bit.
  let exponent := if fmt.mant.getLsbD 63 then narrowExp expBits fmt.exp else 0
  value ||| exponent.setWidth 64 <<< fracBits |||
    ((fmt.mant >>> (63 - fracBits)).setWidth fracBits).setWidth 64

end Interchange

/-- The register of a binary64 number. -/
def binary64ToRegisterFormat (value : Word) : RegisterFormat :=
  binaryToRegisterFormat 11 52 0xfc00 value

/-- The register of a binary32 number. -/
def binary32ToRegisterFormat (value : BitVec 32) : RegisterFormat :=
  binaryToRegisterFormat 8 23 0xff80 (value.setWidth 64)

/-- The binary64 image of a register. -/
def registerFormatToBinary64 (fmt : RegisterFormat) : Word := registerFormatToBinary 11 52 fmt

/-- The binary32 image of a register. -/
def registerFormatToBinary32 (fmt : RegisterFormat) : BitVec 32 :=
  (registerFormatToBinary 8 23 fmt).setWidth 32

/-- The binary64 encoding that reads back as every bit of a register, if there is one and it is not
a denormal. -/
def registerFormatToBinary64Exact (fmt : RegisterFormat) : Option Word :=
  let result := (BitVec.ofBool fmt.sign).setWidth 64 <<< 63
  if fmt.mant &&& (significandIntegerBit ||| 0x7ff) = significandIntegerBit ∧
      0xfc01 ≤ fmt.exp.toNat ∧ fmt.exp.toNat ≤ 0x103fe then
    some (result ||| (fmt.exp - 0xfc00).setWidth 64 <<< 52 |||
      ((fmt.mant >>> 11).setWidth 52).setWidth 64)
  else if fmt.mant = 0 ∧ fmt.exp = 0 then some result
  else none

namespace RegisterFormat

/-- The register in the spill format, a significand and a word with exponent and sign. -/
def spill (fmt : RegisterFormat) : Word × Word :=
  (fmt.mant, fmt.exp.setWidth 64 ||| (BitVec.ofBool fmt.sign).setWidth 64 <<< 17)

/-- Read the spill format; its bits above the sign are reserved and ignored. -/
def ofSpill (low high : Word) : RegisterFormat := ⟨high.getLsbD 17, high.setWidth 17, low⟩

end RegisterFormat

/-- The register that stands for a missing value. -/
def natVal : RegisterFormat := ⟨false, BitVec.ofNat 17 regNatvalExp, 0⟩

namespace FrFile

variable (file : FrFile) (reg : Nat)

/-- Forget which representation a register has. -/
def clearTags : FrFile :=
  { file with
    frNat := erase file.frNat reg
    frSig := erase file.frSig reg
    frExtValid := erase file.frExtValid reg
    frIntOrigin := erase file.frIntOrigin reg
    frIntValue := update file.frIntValue reg 0 }

/-- Whether a register is tagged as a NaTVal. -/
def isNat : Bool :=
  decide (1 < reg) && decide (reg < frCount) && contains file.frNat reg

/-- Whether a register is tagged as an integer. -/
def isInteger : Bool :=
  decide (1 < reg) && decide (reg < frCount) && contains file.frSig reg

/-- The retained register format of a register, if it is in use. -/
def getExtended : Option RegisterFormat :=
  if 1 < reg ∧ reg < frCount ∧ contains file.frExtValid reg then
    some ⟨contains file.frExtSign reg, file.frExtExp reg, file.frExtMant reg⟩
  else none

/-- The binary64 number that a register without tags holds; f0 and f1 are constants. -/
def compactValue : Word :=
  if reg = 0 then 0 else if reg = 1 then frOne else file.fr reg

/-- What a register holds, whichever way it is represented. -/
def registerFormat : RegisterFormat :=
  if file.isNat reg then natVal
  else
    match file.getExtended reg with
    | some fmt => fmt
    | none =>
      if file.isInteger reg then ⟨false, BitVec.ofNat 17 regIntegerExp, file.fr reg⟩
      else binary64ToRegisterFormat (file.compactValue reg)

/-- Spill a register. -/
def toSpill : Word × Word := (file.registerFormat reg).spill

/-- Put a binary64 number into a register. -/
def setCompact (value : Word) : FrFile :=
  { file.clearTags reg with fr := update file.fr reg value }

/-- Put an integer into a register. -/
def setInteger (value : Word) : FrFile :=
  let file := file.clearTags reg
  { file with
    fr := update file.fr reg value
    frSig := insert file.frSig reg
    frIntValue := update file.frIntValue reg value
    frIntOrigin := insert file.frIntOrigin reg }

/-- Put contents into a register as they are. -/
def setExtended (fmt : RegisterFormat) : FrFile :=
  let file := file.clearTags reg
  { file with
    fr := update file.fr reg 0
    frExtMant := update file.frExtMant reg fmt.mant
    frExtExp := update file.frExtExp reg fmt.exp
    frExtSign := if fmt.sign then insert file.frExtSign reg else erase file.frExtSign reg
    frExtValid := insert file.frExtValid reg }

/-- Put a NaTVal into a register. -/
def setNat : FrFile :=
  let file := file.clearTags reg
  { file with fr := update file.fr reg 0, frNat := insert file.frNat reg }

/-- Put any contents into a register, in the representation that keeps all of it. -/
def setFormat (fmt : RegisterFormat) : FrFile :=
  if fmt = natVal then file.setNat reg
  else if fmt.sign = false ∧ fmt.exp = BitVec.ofNat 17 regIntegerExp
    then file.setInteger reg fmt.mant
  else
    match registerFormatToBinary64Exact fmt with
    | some compact => file.setCompact reg compact
    | none => file.setExtended reg fmt

/-- A register in one representation: it is not tagged as an integer and as retained contents at
once. -/
def Exclusive : Prop :=
  ¬(contains file.frSig reg ∧ contains file.frExtValid reg)

/-- A register as the writes leave it: in one representation, and not with a NaTVal retained as
contents. -/
structure Canonical (file : FrFile) (reg : Nat) : Prop where
  exclusive : file.Exclusive reg
  retained : contains file.frExtValid reg →
    (⟨contains file.frExtSign reg, file.frExtExp reg, file.frExtMant reg⟩ : RegisterFormat) ≠ natVal

/-- Take one register over from another file. -/
def copyCell (file source : FrFile) (reg : Nat) : FrFile :=
  { fr := update file.fr reg (source.fr reg)
    frExtMant := update file.frExtMant reg (source.frExtMant reg)
    frExtExp := update file.frExtExp reg (source.frExtExp reg)
    frIntValue := update file.frIntValue reg (source.frIntValue reg)
    frNat := copy file.frNat source.frNat reg
    frSig := copy file.frSig source.frSig reg
    frExtSign := copy file.frExtSign source.frExtSign reg
    frExtValid := copy file.frExtValid source.frExtValid reg
    frIntOrigin := copy file.frIntOrigin source.frIntOrigin reg }

end FrFile

theorem getLsbD_significandIntegerBit (i : Nat) :
    significandIntegerBit.getLsbD i = decide (i = 63) := by
  rw [show significandIntegerBit = 1#64 <<< 63 from rfl, Words.getLsbD_one_shiftLeft (by decide)]

section InterchangeLaws

variable {expBits fracBits : Nat}

/-- The bits of an interchange encoding. -/
theorem getLsbD_registerFormatToBinary (fits : expBits + fracBits < 64)
    (fmt : RegisterFormat) {i : Nat} (inside : i < 64) :
    (registerFormatToBinary expBits fracBits fmt).getLsbD i =
      ((decide (i = expBits + fracBits) && fmt.sign) ||
        (decide (fracBits ≤ i) && fmt.mant.getLsbD 63 &&
          (narrowExp expBits fmt.exp).getLsbD (i - fracBits)) ||
        (decide (i < fracBits) && fmt.mant.getLsbD (63 - fracBits + i))) := by
  unfold registerFormatToBinary
  simp only [getLsbD_or, getLsbD_shiftLeft, getLsbD_setWidth, getLsbD_ushiftRight,
    inside, decide_true, Bool.true_and]
  -- The three parts are shifted to places that do not overlap.
  congr 1
  · congr 1
    · by_cases here : i = expBits + fracBits
      · subst here
        simp
      · by_cases below : i < expBits + fracBits
        · simp [here, below]
        · simp [here, getLsbD_ofBool, show i - (expBits + fracBits) ≠ 0 by omega]
    · have near : i - fracBits < 64 := by omega
      cases fmt.mant.getLsbD 63 <;> by_cases below : i <
        fracBits <;> (simp [below, near]; try omega)

theorem binaryToRegisterFormat_sign (expBase : BitVec 17) (value : Word) :
    (binaryToRegisterFormat expBits fracBits expBase value).sign =
      value.getLsbD (expBits + fracBits) := by
  -- All four classes have it.
  simp only [binaryToRegisterFormat]
  split_ifs <;> rfl

theorem binaryToRegisterFormat_mant (expBase : BitVec 17) (value : Word) :
    (binaryToRegisterFormat expBits fracBits expBase value).mant =
      (if (value >>> fracBits).setWidth expBits = 0 then 0 else significandIntegerBit) |||
        (value.setWidth fracBits).setWidth 64 <<< (63 - fracBits) := by
  simp only [binaryToRegisterFormat]
  -- A zero has no digits at all.
  split_ifs with none zero full
  · simp [zero]
  · simp
  · rfl
  · rfl

variable {expBase : BitVec 17} {value : Word}
  (lossless : ∀ exp : BitVec expBits,
    narrowExp expBits (expBase + exp.setWidth 17) = exp.setWidth 17)
  (special : narrowExp expBits (BitVec.ofNat 17 regSpecialExp) =
    (BitVec.allOnes expBits).setWidth 17)

include lossless special

theorem narrowExp_binaryToRegisterFormat
    (present : (value >>> fracBits).setWidth expBits ≠ 0) :
    narrowExp expBits (binaryToRegisterFormat expBits fracBits expBase value).exp =
      ((value >>> fracBits).setWidth expBits).setWidth 17 := by
  simp only [binaryToRegisterFormat, if_neg present]
  split_ifs with full
  · rw [full]
    exact special
  · exact lossless _

/-- Writing what was read gives the same encoding. -/
theorem registerFormatToBinary_binaryToRegisterFormat
    (fits : expBits + fracBits < 64) (narrow : expBits ≤ 17)
    (clear : ∀ i, expBits + fracBits < i → value.getLsbD i = false) :
    registerFormatToBinary expBits fracBits
      (binaryToRegisterFormat expBits fracBits expBase value) = value := by
  have top : ((value.setWidth fracBits).setWidth 64 <<< (63 - fracBits)).getLsbD 63 = false := by
    simp [show 63 - (63 - fracBits) = fracBits by omega]
  have integer : (binaryToRegisterFormat expBits fracBits expBase value).mant.getLsbD 63 =
      !decide ((value >>> fracBits).setWidth expBits = 0) := by
    rw [binaryToRegisterFormat_mant, getLsbD_or, top]
    by_cases none : (value >>> fracBits).setWidth expBits = 0
    · simp [none]
    · simp only [none, if_false, decide_false, Bool.not_false, Bool.or_false]
      rfl
  apply eq_of_getLsbD_eq
  intro i inside
  rw [getLsbD_registerFormatToBinary fits _ inside, binaryToRegisterFormat_sign]
  -- A bit belongs to the fraction, to the exponent, to the sign, or is clear.
  by_cases low : i < fracBits
  · have digit :
        ((value.setWidth fracBits).setWidth 64 <<< (63 - fracBits)).getLsbD (63 - fracBits + i) =
        value.getLsbD i := by
      simp only [getLsbD_shiftLeft, getLsbD_setWidth, Nat.add_sub_cancel_left, low, inside]
      simp [show 63 - fracBits + i < 64 by omega]
    rw [binaryToRegisterFormat_mant, getLsbD_or, getLsbD_or, digit]
    have below : (if (value >>> fracBits).setWidth expBits = 0 then 0
        else significandIntegerBit).getLsbD (63 - fracBits + i) = false := by
      split_ifs
      · simp
      · rw [getLsbD_significandIntegerBit, decide_eq_false (by omega)]
    rw [below]
    simp [low, show ¬fracBits ≤ i by omega, show i ≠ expBits + fracBits by omega]
  have exponent : (decide (fracBits ≤ i) &&
      (binaryToRegisterFormat expBits fracBits expBase value).mant.getLsbD 63 &&
      (narrowExp expBits (binaryToRegisterFormat expBits fracBits expBase value).exp).getLsbD
        (i - fracBits)) = ((value >>> fracBits).setWidth expBits).getLsbD (i - fracBits) := by
    rw [integer, decide_eq_true (by omega : fracBits ≤ i), Bool.true_and]
    by_cases none : (value >>> fracBits).setWidth expBits = 0
    · simp [none]
    · rw [narrowExp_binaryToRegisterFormat lossless special none, getLsbD_setWidth]
      by_cases held : i - fracBits < expBits
      · rw [decide_eq_false none, decide_eq_true (show i - fracBits < 17 by omega)]
        rfl
      · simp [held]
  rw [exponent, getLsbD_setWidth, getLsbD_ushiftRight, Nat.add_sub_cancel' (by omega)]
  rcases Nat.lt_trichotomy i (expBits + fracBits) with middle | highest | beyond
  · simp [low, middle.ne, show i - fracBits < expBits by omega]
  · subst highest
    simp
  · simp [low, beyond.ne', clear i beyond]

end InterchangeLaws

theorem registerFormatToBinary64_binary64ToRegisterFormat (value : Word) :
    registerFormatToBinary64 (binary64ToRegisterFormat value) = value := by
  -- No bit lies above the sign; the exponents are checked one by one.
  refine registerFormatToBinary_binaryToRegisterFormat (by decide +kernel) (by decide)
    (by decide) (by decide) ?_
  intro i beyond
  exact getLsbD_of_ge _ _ (by omega)

theorem registerFormatToBinary32_binary32ToRegisterFormat (value : BitVec 32) :
    registerFormatToBinary32 (binary32ToRegisterFormat value) = value := by
  have wide : registerFormatToBinary 8 23 (binary32ToRegisterFormat value) = value.setWidth 64 := by
    refine registerFormatToBinary_binaryToRegisterFormat (by decide +kernel) (by decide)
      (by decide) (by decide) ?_
    intro i beyond
    rw [getLsbD_setWidth, getLsbD_of_ge _ _ (by omega), Bool.and_false]
  rw [registerFormatToBinary32, wide, setWidth_setWidth_of_le _ (by decide), setWidth_eq]

/-- The fields of a packed binary64 number. -/
theorem packed_fields (sign : Bool) {exp : BitVec 17} (small : exp.toNat < 2 ^ 11)
    (frac : BitVec 52) :
    let value :=
      (BitVec.ofBool sign).setWidth 64 <<< 63 ||| exp.setWidth 64 <<< 52 ||| frac.setWidth 64
    value.getLsbD 63 = sign ∧ (value >>> 52).setWidth 11 = exp.setWidth 11 ∧
      value.setWidth 52 = frac := by
  have edge : exp[11] = false := Nat.testBit_lt_two_pow small
  refine ⟨?_, eq_of_getLsbD_eq fun i inside => ?_, eq_of_getLsbD_eq fun i inside => ?_⟩
  · simp [edge]
  · have left : 52 + i < 64 := by omega
    have apart : 52 + i < 63 := by omega
    simp only [getLsbD_setWidth, getLsbD_ushiftRight, getLsbD_or, getLsbD_shiftLeft,
      inside, left, apart, Nat.add_sub_cancel_left, decide_true, Bool.true_and, Bool.not_true,
        Bool.false_and]
    simp [show i < 64 by omega]
  · simp [inside]

/-- A significand is put together from its digits. -/
theorem mant_of_digits {mant : Word}
    (digits : mant &&& (significandIntegerBit ||| 0x7ff) = significandIntegerBit) :
    significandIntegerBit ||| ((mant >>> 11).setWidth 52).setWidth 64 <<< 11 = mant := by
  have bit : ∀ i, (mant.getLsbD i && (decide (i = 63) || (decide (i < 64) && decide (i < 11)))) =
      decide (i = 63) := by
    intro i
    have same := congrArg (getLsbD · i) digits
    rw [show (0x7ff : Word) = (allOnes 11).setWidth 64 from rfl] at same
    simpa only [getLsbD_and, getLsbD_or, getLsbD_significandIntegerBit, getLsbD_setWidth,
      getLsbD_allOnes] using same
  apply eq_of_getLsbD_eq
  intro i inside
  simp only [getLsbD_or, getLsbD_significandIntegerBit, getLsbD_shiftLeft, getLsbD_setWidth,
    getLsbD_ushiftRight, inside]
  -- The first digit is set, and the last eleven are clear.
  have here := bit i
  by_cases top : i = 63
  · subst top
    simpa using here
  by_cases low : i < 11
  · have clear : mant.getLsbD i = false := by simpa [top, low, inside] using here
    simp [top, low, clear]
  · simp [top, low, show i - 11 < 52 by omega, show i - 11 < 64 by omega,
      show 11 + (i - 11) = i by omega]

/-- The compact encoding reads back. -/
theorem binary64ToRegisterFormat_exact {fmt : RegisterFormat} {value : Word}
    (exact : registerFormatToBinary64Exact fmt = some value) :
    binary64ToRegisterFormat value = fmt := by
  obtain ⟨sign, exp, mant⟩ := fmt
  unfold registerFormatToBinary64Exact at exact
  simp only at exact
  split_ifs at exact with normal zero
  · obtain ⟨digits, least, most⟩ := normal
    have offset : (exp - 0xfc00).toNat = exp.toNat - 0xfc00 := by bv_omega
    obtain ⟨signed, exponent, fraction⟩ :=
      packed_fields sign (show (exp - 0xfc00).toNat < 2 ^ 11 by omega) ((mant >>> 11).setWidth 52)
    rw [Option.some.inj exact] at signed exponent fraction
    have held : ((exp - 0xfc00).setWidth 11).toNat = exp.toNat - 0xfc00 := by
      rw [toNat_setWidth, offset, Nat.mod_eq_of_lt (by omega)]
    have back : (0xfc00 : BitVec 17) + ((exp - 0xfc00).setWidth 11).setWidth 17 = exp := by
      apply eq_of_toNat_eq
      rw [toNat_add, toNat_setWidth, held]
      change (0xfc00 + (exp.toNat - 0xfc00) % 2 ^ 17) % 2 ^ 17 = exp.toNat
      omega
    have present : (exp - 0xfc00).setWidth 11 ≠ 0 := by
      intro none
      rw [none] at held
      change 0 = _ at held
      omega
    have finite : (exp - 0xfc00).setWidth 11 ≠ allOnes 11 := by
      intro full
      rw [full] at held
      change 0x7ff = _ at held
      omega
    simp only [binary64ToRegisterFormat, binaryToRegisterFormat]
    rw [exponent, fraction, signed, if_neg present, if_neg finite, back, mant_of_digits digits]
  · rw [← Option.some.inj exact, zero.1, zero.2]
    cases sign <;> decide

theorem spill_ofSpill (low high : Word) : (ofSpill low high).spill = (low, high &&& 0x3ffff) := by
  refine Prod.ext rfl (eq_of_getLsbD_eq fun i inside => ?_)
  rw [show (0x3ffff : Word) = (allOnes 18).setWidth 64 from rfl]
  simp only [spill, ofSpill, getLsbD_or, getLsbD_setWidth,
    getLsbD_shiftLeft, getLsbD_and, getLsbD_allOnes, getLsbD_ofBool, inside]
  -- The exponent fills the bits below the sign.
  rcases Nat.lt_trichotomy i 17 with below | here | above
  · simp [below, show i < 18 by omega, inside]
  · subst here
    simp
  · simp [show ¬i < 17 by omega, show ¬i < 18 by omega, show i - 17 ≠ 0 by omega]

@[simp]
theorem ofSpill_spill (fmt : RegisterFormat) : ofSpill fmt.spill.1 fmt.spill.2 = fmt := by
  obtain ⟨sign, exp, mant⟩ := fmt
  simp only [ofSpill, spill, mk.injEq, and_true]
  refine ⟨by simp, eq_of_getLsbD_eq fun i inside => ?_⟩
  simp [inside]

namespace FrFile

variable {left right : FrFile} {reg other : Nat}

/-- A file is determined by its registers. -/
theorem eq_of_cells (same : ∀ reg, left.cell reg = right.cell reg) : left = right := by
  obtain ⟨fr, extMant, extExp, intValue, nat, sig, extSign, extValid, intOrigin⟩ := left
  have bits : ∀ {first second : Nat → Word}, (∀ reg, contains first reg = contains second reg) →
      first = second := eq_of_contains (by decide)
  simp only [cell, FrCell.mk.injEq] at same
  congr
  · exact funext fun reg => (same reg).1
  · exact funext fun reg => (same reg).2.1
  · exact funext fun reg => (same reg).2.2.1
  · exact funext fun reg => (same reg).2.2.2.1
  · exact bits fun reg => (same reg).2.2.2.2.1
  · exact bits fun reg => (same reg).2.2.2.2.2.1
  · exact bits fun reg => (same reg).2.2.2.2.2.2.1
  · exact bits fun reg => (same reg).2.2.2.2.2.2.2.1
  · exact bits fun reg => (same reg).2.2.2.2.2.2.2.2

theorem cell_copyCell (file source : FrFile) (reg other : Nat) :
    (file.copyCell source reg).cell other = if other = reg then source.cell reg
      else file.cell other := by
  by_cases here : other = reg
  · subst here
    simp [cell, copyCell, contains_copy]
  · simp [cell, copyCell, contains_copy, here]

section

variable (file : FrFile)

theorem cell_setCompact_of_ne (apart : other ≠ reg) (value : Word) :
    (file.setCompact reg value).cell other = file.cell other := by
  simp [cell, setCompact, clearTags, contains_erase, apart]

theorem cell_setInteger_of_ne (apart : other ≠ reg) (value : Word) :
    (file.setInteger reg value).cell other = file.cell other := by
  simp [cell, setInteger, clearTags, contains_erase, contains_insert, apart]

theorem cell_setExtended_of_ne (apart : other ≠ reg) (fmt : RegisterFormat) :
    (file.setExtended reg fmt).cell other = file.cell other := by
  cases sign : fmt.sign <;>
    simp [cell, setExtended, clearTags, contains_erase, contains_insert, apart, sign]

theorem cell_setNat_of_ne (apart : other ≠ reg) :
    (file.setNat reg).cell other = file.cell other := by
  simp [cell, setNat, clearTags, contains_erase, contains_insert, apart]

theorem cell_setFormat_of_ne (apart : other ≠ reg) (fmt : RegisterFormat) :
    (file.setFormat reg fmt).cell other = file.cell other := by
  unfold setFormat
  split_ifs with missing integer
  · exact cell_setNat_of_ne file apart
  · exact cell_setInteger_of_ne file apart _
  cases registerFormatToBinary64Exact fmt with
  | some compact => exact cell_setCompact_of_ne file apart compact
  | none => exact cell_setExtended_of_ne file apart fmt

theorem registerFormat_congr (same : left.cell reg = right.cell reg) :
    left.registerFormat reg = right.registerFormat reg := by
  simp only [cell, FrCell.mk.injEq] at same
  obtain ⟨fr, mant, exp, -, nat, sig, sign, valid, -⟩ := same
  have extended : left.getExtended reg = right.getExtended reg := by
    simp only [getExtended, mant, exp, sign, valid]
  have missing : left.isNat reg = right.isNat reg := by simp only [isNat, nat]
  have integer : left.isInteger reg = right.isInteger reg := by simp only [isInteger, sig]
  have compact : left.compactValue reg = right.compactValue reg := by simp only [compactValue, fr]
  rw [registerFormat, registerFormat, missing, extended, integer, compact, fr]

theorem Canonical.congr (canonical : left.Canonical reg)
    (same : left.cell reg = right.cell reg) : right.Canonical reg := by
  simp only [cell, FrCell.mk.injEq] at same
  obtain ⟨-, mant, exp, -, -, sig, sign, valid, -⟩ := same
  refine ⟨?_, ?_⟩
  · rw [Exclusive, ← sig, ← valid]
    exact canonical.exclusive
  · rw [← mant, ← exp, ← sign, ← valid]
    exact canonical.retained

variable (reg : Nat)

theorem canonical_reset : reset.Canonical reg := by
  have untagged : contains reset.frExtValid reg = false := by
    simp [reset, contains]
  constructor <;> simp [Exclusive, untagged]

theorem canonical_setNat : (file.setNat reg).Canonical reg := by
  constructor <;> simp [Exclusive, setNat, clearTags, contains_erase]

theorem canonical_setInteger (value : Word) :
    (file.setInteger reg value).Canonical reg := by
  constructor <;> simp [Exclusive, setInteger, clearTags, contains_erase]

theorem canonical_setCompact (value : Word) :
    (file.setCompact reg value).Canonical reg := by
  constructor <;> simp [Exclusive, setCompact, clearTags, contains_erase]

theorem canonical_setExtended {fmt : RegisterFormat} (present : fmt ≠ natVal) :
    (file.setExtended reg fmt).Canonical reg := by
  obtain ⟨sign, exp, mant⟩ := fmt
  constructor
  · simp [Exclusive, setExtended, clearTags, contains_erase]
  · intro _
    cases sign <;>
      simpa [setExtended, clearTags, contains_erase, contains_insert] using present

theorem canonical_setFormat (fmt : RegisterFormat) :
    (file.setFormat reg fmt).Canonical reg := by
  unfold setFormat
  split_ifs with missing integer
  · exact canonical_setNat file reg
  · exact canonical_setInteger file reg _
  cases registerFormatToBinary64Exact fmt with
  | some compact => exact canonical_setCompact file reg compact
  | none => exact canonical_setExtended file reg missing

end

/-- What every write does to a file: it leaves the other registers alone and its own register
canonical. -/
structure Wrote (before after : FrFile) (dst : Nat) : Prop where
  others : ∀ other, other ≠ dst → after.cell other = before.cell other
  canonical : after.Canonical dst

section

variable (file : FrFile) (reg : Nat)

theorem wrote_setCompact (value : Word) : Wrote file (file.setCompact reg value) reg :=
  ⟨fun _ apart => cell_setCompact_of_ne file apart value, canonical_setCompact file reg value⟩

theorem wrote_setInteger (value : Word) : Wrote file (file.setInteger reg value) reg :=
  ⟨fun _ apart => cell_setInteger_of_ne file apart value, canonical_setInteger file reg value⟩

theorem wrote_setNat : Wrote file (file.setNat reg) reg :=
  ⟨fun _ apart => cell_setNat_of_ne file apart, canonical_setNat file reg⟩

theorem wrote_setFormat (fmt : RegisterFormat) : Wrote file (file.setFormat reg fmt) reg :=
  ⟨fun _ apart => cell_setFormat_of_ne file apart fmt, canonical_setFormat file reg fmt⟩

end

theorem binary64ToRegisterFormat_ne_natVal (value : Word) :
    binary64ToRegisterFormat value ≠ natVal := by
  intro same
  have exp := congrArg exp same
  simp only [binary64ToRegisterFormat, binaryToRegisterFormat] at exp
  have apart : ∀ binaryExp : BitVec 11,
      (0xfc00 : BitVec 17) + binaryExp.setWidth 17 ≠ natVal.exp := by
    decide +kernel
  split_ifs at exp
  · exact absurd exp (show (0 : BitVec 17) ≠ natVal.exp by decide)
  · exact absurd exp (show (0xfc00 + 1 : BitVec 17) ≠ natVal.exp by decide)
  · exact absurd exp (show BitVec.ofNat 17 regSpecialExp ≠ natVal.exp by decide)
  · exact absurd exp (apart _)

theorem isNat_iff {file : FrFile} (canonical : file.Canonical reg) :
    file.isNat reg ↔ file.registerFormat reg = natVal := by
  refine ⟨fun missing => if_pos missing, fun same => ?_⟩
  by_contra present
  rw [registerFormat, if_neg present] at same
  cases extended : file.getExtended reg with
  | some fmt =>
    rw [extended] at same
    simp only [getExtended, Option.ite_none_right_eq_some, Option.some.injEq] at extended
    exact canonical.retained extended.1.2.2 (extended.2.trans same)
  | none =>
    rw [extended] at same
    simp only at same
    split_ifs at same
    · exact absurd (congrArg exp same) (show BitVec.ofNat 17 regIntegerExp ≠ natVal.exp by decide)
    · exact binary64ToRegisterFormat_ne_natVal _ same

section Contents

variable (file : FrFile) {reg : Nat} (written : 1 < reg) (inside : reg < frCount)

include written inside

theorem registerFormat_setNat : (file.setNat reg).registerFormat reg = natVal := by
  simp [registerFormat, isNat, setNat, clearTags, contains_insert, written, inside]

theorem registerFormat_setInteger (value : Word) :
    (file.setInteger reg value).registerFormat reg = ⟨false,
      BitVec.ofNat 17 regIntegerExp, value⟩ := by
  simp [registerFormat, isNat, isInteger, getExtended, setInteger, clearTags, contains_insert,
    contains_erase, written, inside]

omit inside in
theorem registerFormat_setCompact (value : Word) :
    (file.setCompact reg value).registerFormat reg = binary64ToRegisterFormat value := by
  have notZero : reg ≠ 0 := by omega
  have notOne : reg ≠ 1 := by omega
  simp [registerFormat, isNat, isInteger, getExtended, compactValue, setCompact, clearTags,
    contains_erase, notZero, notOne]

theorem registerFormat_setExtended (fmt : RegisterFormat) :
    (file.setExtended reg fmt).registerFormat reg = fmt := by
  obtain ⟨sign, exp, mant⟩ := fmt
  cases sign <;>
    simp [registerFormat, isNat, getExtended, setExtended, clearTags, contains_insert,
      contains_erase, written, inside]

theorem registerFormat_setFormat (fmt : RegisterFormat) :
    (file.setFormat reg fmt).registerFormat reg = fmt := by
  unfold setFormat
  split_ifs with missing integer
  · rw [missing]
    exact registerFormat_setNat file written inside
  · rw [registerFormat_setInteger file written inside, ← integer.1, ← integer.2]
  cases compact : registerFormatToBinary64Exact fmt with
  | some value =>
    rw [← binary64ToRegisterFormat_exact compact]
    exact registerFormat_setCompact file written value
  | none => exact registerFormat_setExtended file written inside fmt

end Contents

end FrFile

end Ia64.Fp
