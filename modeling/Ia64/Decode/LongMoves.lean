import Ia64.Efi.PeRelocation
import Ia64.Lib.Words

/-! Long instructions: the decoder of the processor and the image loader agree on long moves. -/

namespace Ia64.Decode

open Efi.Pe

section Fields

/-- A field of a word. -/
def bits (value : Word) (low width : Nat) : Word := (value >>> low) &&& ((1 <<< width) - 1)

/-- The major opcode of a slot. -/
def bOp (value : Word) : Word := bits value 37 4

/-- The 21-bit immediate of a slot. -/
def immu21 (raw : Word) : Word := bits raw 6 20 ||| (bits raw 36 1 <<< 20)

/-- Whether a slot has the fixed bits of break.i. -/
def isIBreak (raw : Word) : Bool := raw &&& ((0xf <<< 37) ||| (0x7 <<< 33) ||| (0x3f <<< 27)) == 0

/-- The low bits of a word, extended with their sign. -/
def signExtend (value : Word) (width : Nat) : Word :=
  ((value &&& ((1 <<< width) - 1)) ^^^ (1 <<< (width - 1))) - (1 <<< (width - 1))

/-- The 62-bit immediate of a long break or nop. -/
def mlxX1Imm62 (lSlot xSlot : Word) : Word := immu21 xSlot ||| (bits lSlot 0 41 <<< 21)

/-- The displacement of a long branch, in bytes. -/
def mlxBrlDisp (lSlot xSlot : Word) : Word :=
  signExtend (bits xSlot 13 20 ||| (bits lSlot 2 39 <<< 20) ||| (bits xSlot 36 1 <<< 59)) 60 * 16

end Fields

/-- The instructions that take two slots, and what is no instruction. -/
inductive Opcode where
  | break | brlCond | brlCall | hintX | nop | movl | illegal
deriving DecidableEq, Repr

/-- The two slots of a long instruction. -/
inductive SlotUnit where
  | l | x
deriving DecidableEq, Repr

/-- A decoded instruction. -/
structure Instruction where
  opcode : Opcode
  unit : SlotUnit
  raw : Word
  address : Word
  slot : Nat
  qp : Word
  r1 : Word
  b1 : Word
  imm : Word
  valid : Bool
deriving DecidableEq, Repr

/-- An instruction without operands. -/
def baseInsn (opcode : Opcode) (unit : SlotUnit) (raw address : Word) (slot : Nat) : Instruction :=
  ⟨opcode, unit, raw, address, slot, bits raw 0 6, 0, 0, 0, true⟩

/-- An instruction that does not decode. -/
def invalidInsn (unit : SlotUnit) (raw address : Word) (slot : Nat) : Instruction :=
  { baseInsn .illegal unit raw address slot with valid := false }

/-- The operands of a long move. -/
def fillMlxMovl (insn : Instruction) (lSlot xSlot : Word) : Instruction :=
  { insn with
    qp := xSlot &&& 0x3f
    r1 := (xSlot >>> 6) &&& 0x7f
    imm := ((xSlot >>> 13) &&& 0x7f) ||| (((xSlot >>> 27) &&& 0x1ff) <<< 7) |||
      (((xSlot >>> 22) &&& 0x1f) <<< 16) |||
      (((xSlot >>> 21) &&& 1) <<< 21) ||| ((lSlot &&& 0x1ffffffffff) <<< 22) |||
        (((xSlot >>> 36) &&& 1) <<< 63) }

/-- Complete the instruction of slot 1 of a bundle with a long one; the answer says whether slot 2
belongs to it. -/
def applyMlxLongFixup (templateCode : Word) (slots : Nat → Word) (slot : Nat) (insn : Instruction)
    (skipXSlot : Bool) : Instruction × Bool :=
  if (templateCode != 4 && templateCode != 5) || slot != 1 then (insn, skipXSlot)
  else
    let xSlot := slots 2
    let lSlot := slots 1
    let long (opcode : Opcode) := baseInsn opcode .x xSlot insn.address slot
    -- A long break keeps only the low bits of its immediate.
    if isIBreak xSlot then ({ long .break with imm := immu21 xSlot }, true)
    else if bOp xSlot == 0xc && bits xSlot 6 3 == 0
      then ({ long .brlCond with imm := mlxBrlDisp lSlot xSlot }, true)
    else if bOp xSlot == 0xd then
      ({ long .brlCall with b1 := bits xSlot 6 3, imm := mlxBrlDisp lSlot xSlot }, true)
    else if bOp xSlot == 0 && bits xSlot 27 6 == 1 then
      ({ long (if bits xSlot 26 1 != 0 then .hintX else .nop) with
        imm := mlxX1Imm62 lSlot xSlot }, true)
    else if insn.opcode == .movl && bOp xSlot == 6 then (fillMlxMovl insn lSlot xSlot, true)
    else if insn.opcode == .movl then (invalidInsn .l lSlot insn.address slot, skipXSlot)
    else (insn, skipXSlot)

/-- Slot 1 of a bundle at an address, decoded on its own as a long move and then completed; other
templates have no long slot. -/
def decodeLong (low high address : Word) : Option Instruction :=
  if low &&& 0x1f = 4 ∨ low &&& 0x1f = 5 then
    some (applyMlxLongFixup (low &&& 0x1f) (bundleSlot low high) 1
      (baseInsn .movl .l (bundleSlot low high 1) address 1) false).1
  else none

/-- The long move of a bundle, if the decoder finds one. -/
def longMove (low high address : Word) : Option Instruction :=
  (decodeLong low high address).filter (·.opcode == .movl)

/-- The loader reads the immediate of a bundle. -/
def readIa64Imm64Reloc (low high : Word) : Option Word :=
  if isMovl low high then some (movlImm64 (bundleSlot low high 1) (bundleSlot low high 2)) else none

/-- The loader writes another immediate into a bundle. -/
def writeIa64Imm64Reloc (low high imm64 : Word) : Option (Word × Word) :=
  if isMovl low high then
    some (storeBundle (low &&& 0x1f) (bundleSlot low high 0) ((imm64 >>> 22) &&& slotMask)
      (movlSetImm64 (bundleSlot low high 2) imm64))
  else none

section Agreement

variable (low high imm64 address : Word)

/-- A long break has the opcode zero. -/
theorem bOp_of_isIBreak {raw : Word} (found : isIBreak raw) : bOp raw = 0 := by
  have clear := beq_iff_eq.mp found
  calc bOp raw =
    (raw >>> 37) &&& (((0xf <<< 37) ||| (0x7 <<< 33) ||| (0x3f <<< 27) : Word) >>> 37) := rfl
    _ = (raw &&& ((0xf <<< 37) ||| (0x7 <<< 33) ||| (0x3f <<< 27))) >>> 37 :=
      (BitVec.ushiftRight_and_distrib ..).symm
    _ = 0 := by rw [clear]; rfl

/-- The decoder finds a long move where the loader does. -/
theorem longMove_eq : longMove low high address =
    if isMovl low high then
      some (fillMlxMovl (baseInsn .movl .l (bundleSlot low high 1) address 1)
        (bundleSlot low high 1) (bundleSlot low high 2))
    else none := by
  have opcode : (bundleSlot low high 2 >>> 37) &&& 0xf = bOp (bundleSlot low high 2) := rfl
  unfold longMove decodeLong isMovl
  rw [opcode]
  by_cases template : low &&& 0x1f = 4 ∨ low &&& 0x1f = 5
  · have known : ((low &&& 0x1f) == 4 || (low &&& 0x1f) == 5) := by simpa using template
    have here : ((low &&& 0x1f) != 4 && (low &&& 0x1f) != 5 || (1 : Nat) != 1) = false := by
      rcases template with same | same <;> rw [same] <;> rfl
    rw [if_pos template, known, applyMlxLongFixup, here]
    by_cases move : bOp (bundleSlot low high 2) = 6
    · have other : isIBreak (bundleSlot low high 2) = false :=
        Bool.eq_false_iff.mpr fun found =>
          absurd (move.symm.trans (bOp_of_isIBreak found)) (by decide)
      simp [move, other, baseInsn, fillMlxMovl]
    · -- Every other opcode gives another instruction, or none.
      simp only [beq_eq_false_iff_ne.mpr move, Bool.and_false, Bool.false_eq_true, if_false]
      split_ifs <;> simp_all [baseInsn, invalidInsn]
  · have none : ((low &&& 0x1f) == 4 || (low &&& 0x1f) == 5) = false := by simpa using template
    rw [if_neg template, none]
    rfl

section Bits

/-- The masks of the formats. -/
theorem masks (i : Nat) :
    (1#64).getLsbD i = decide (i < 1 ∧ i < 64) ∧ (0xf#64).getLsbD i = decide (i < 4 ∧ i < 64) ∧
      (0x1f#64).getLsbD i = decide (i < 5 ∧ i < 64) ∧
        (0x3f#64).getLsbD i = decide (i < 6 ∧ i < 64) ∧
      (0x7f#64).getLsbD i = decide (i < 7 ∧ i < 64) ∧
        (0x1ff#64).getLsbD i = decide (i < 9 ∧ i < 64) ∧
      (0x3ffff#64).getLsbD i = decide (i < 18 ∧ i < 64) ∧
        (0x7fffff#64).getLsbD i = decide (i < 23 ∧ i < 64) ∧
      (0x1ffffffffff#64).getLsbD i = decide (i < 41 ∧ i < 64) :=
  ⟨Words.getLsbD_ones 1 i, Words.getLsbD_ones 4 i, Words.getLsbD_ones 5 i, Words.getLsbD_ones 6 i,
    Words.getLsbD_ones 7 i, Words.getLsbD_ones 9 i,
    Words.getLsbD_ones 18 i, Words.getLsbD_ones 23 i, Words.getLsbD_ones 41 i⟩

/-- The bits of a third slot that are not part of the immediate. -/
def otherBits : Word :=
  ~~~(((1 : Word) <<< 36) ||| (0x1ff <<< 27) ||| (0x1f <<< 22) ||| (1 <<< 21) ||| (0x7f <<< 13))

theorem otherBits_bit :
    ∀ i < 64, otherBits.getLsbD i = decide (i < 13 ∨ i = 20 ∨ 36 < i) := by decide

/-- The parts of a bundle are read back. -/
theorem bundleSlot_storeBundle (template slot0 slot1 slot2 : Word) :
    let bundle := storeBundle template slot0 slot1 slot2
    bundle.1 &&& 0x1f = template &&& 0x1f ∧ bundleSlot bundle.1 bundle.2 0 = slot0 &&& slotMask ∧
      bundleSlot bundle.1 bundle.2 1 = slot1 &&& slotMask ∧
        bundleSlot bundle.1 bundle.2 2 = slot2 &&& slotMask := by
  refine ⟨?_, ?_, ?_, ?_⟩ <;> refine BitVec.eq_of_getLsbD_eq fun i inside => ?_ <;>
    simp only [storeBundle, bundleSlot, slotMask, BitVec.getLsbD_and, BitVec.getLsbD_or,
      BitVec.getLsbD_shiftLeft,
      BitVec.getLsbD_ushiftRight, BitVec.natCast_eq_ofNat, BitVec.ofNat_eq_ofNat, masks] <;> grind

/-- Where the third slot holds the immediate. -/
theorem movlSetImm64_bit (xSlot imm64 : Word) {i : Nat} (inside : i < 64) :
    (movlSetImm64 xSlot imm64).getLsbD i =
      if 13 ≤ i ∧ i < 20 then imm64.getLsbD (i - 13)
      else if i = 21 then imm64.getLsbD 21
      else if 22 ≤ i ∧ i < 27 then imm64.getLsbD (i - 6)
      else if 27 ≤ i ∧ i < 36 then imm64.getLsbD (i - 20)
      else if i = 36 then imm64.getLsbD 63
      else xSlot.getLsbD i := by
  have written : movlSetImm64 xSlot imm64 = (xSlot &&& otherBits) |||
      (((imm64 >>> 63) &&& 1) <<< 36) |||
    (((imm64 >>> 7) &&& 0x1ff) <<< 27) ||| (((imm64 >>> 16) &&& 0x1f) <<< 22) |||
    (((imm64 >>> 21) &&& 1) <<< 21) ||| ((imm64 &&& 0x7f) <<< 13) := rfl
  simp only [written, BitVec.getLsbD_and, BitVec.getLsbD_or, BitVec.getLsbD_shiftLeft,
    BitVec.getLsbD_ushiftRight, otherBits_bit i inside, BitVec.ofNat_eq_ofNat, masks]
  grind

/-- Where the immediate of a long move is read. -/
theorem movlImm64_bit (lSlot xSlot : Word) {i : Nat} (inside : i < 64) :
    (movlImm64 lSlot xSlot).getLsbD i =
      if i < 7 then xSlot.getLsbD (i + 13)
      else if i < 16 then xSlot.getLsbD (i + 20)
      else if i < 21 then xSlot.getLsbD (i + 6)
      else if i = 21 then xSlot.getLsbD 21
      else if i < 63 then lSlot.getLsbD (i - 22)
      else xSlot.getLsbD 36 := by
  simp only [movlImm64, slotMask, BitVec.getLsbD_and, BitVec.getLsbD_or, BitVec.getLsbD_shiftLeft,
    BitVec.getLsbD_ushiftRight, BitVec.natCast_eq_ofNat, BitVec.ofNat_eq_ofNat, masks]
  grind

/-- A new immediate leaves the rest of the move alone. -/
theorem movlSetImm64_kept (xSlot imm64 : Word) :
    let after : Word := movlSetImm64 xSlot imm64 &&& slotMask
    after &&& 0x3f = xSlot &&& 0x3f ∧ (after >>> 6) &&& (0x7f : Word) = (xSlot >>> 6) &&& 0x7f ∧
      (after >>> 37) &&& (0xf : Word) = (xSlot >>> 37) &&& 0xf := by
  have bit (i : Nat) := movlSetImm64_bit xSlot imm64 (i := i)
  refine ⟨?_, ?_, ?_⟩ <;> refine BitVec.eq_of_getLsbD_eq fun i inside => ?_ <;>
    simp only [slotMask, BitVec.getLsbD_and, BitVec.getLsbD_ushiftRight, BitVec.ofNat_eq_ofNat,
      masks] <;> grind

/-- A new immediate is read back. -/
theorem movlImm64_movlSetImm64 (xSlot imm64 : Word) :
    movlImm64 ((imm64 >>> 22) &&& slotMask) (movlSetImm64 xSlot imm64 &&& slotMask) = imm64 := by
  apply BitVec.eq_of_getLsbD_eq
  intro i inside
  -- Each bit is read where it was written; the middle bits are in the second slot.
  have bit (i : Nat) := movlSetImm64_bit xSlot imm64 (i := i)
  rw [movlImm64_bit _ _ inside]
  simp only [slotMask, BitVec.getLsbD_and, BitVec.getLsbD_ushiftRight, BitVec.ofNat_eq_ofNat, masks]
  grind

end Bits

/-- The loader and the decoder agree on every bundle: both find a long move or neither does; the
loader reads the immediate that the processor uses; and after the loader wrote another one, the
processor finds the same move with it, while the template and the first slot are the old ones. -/
theorem loader_agrees_with_decoder :
    longMove low high address = none ∧ readIa64Imm64Reloc low high = none ∧
      writeIa64Imm64Reloc low high imm64 = none ∨
      ∃ insn bundle, longMove low high address = some insn ∧
        readIa64Imm64Reloc low high = some insn.imm ∧
        writeIa64Imm64Reloc low high imm64 = some bundle ∧
        longMove bundle.1 bundle.2 address =
          some { insn with raw := bundleSlot bundle.1 bundle.2 1, imm := imm64 } ∧
        bundle.1 &&& 0x1f = low &&& 0x1f ∧
          bundleSlot bundle.1 bundle.2 0 = bundleSlot low high 0 := by
  rw [longMove_eq, readIa64Imm64Reloc, writeIa64Imm64Reloc]
  cases found : isMovl low high with
  | false => exact Or.inl ⟨rfl, rfl, rfl⟩
  | true =>
    refine Or.inr ⟨_, _, if_pos rfl, if_pos rfl, if_pos rfl, ?_⟩
    generalize written : storeBundle (low &&& 0x1f) (bundleSlot low high 0)
      ((imm64 >>> 22) &&& slotMask) (movlSetImm64 (bundleSlot low high 2) imm64) = bundle
    obtain ⟨template, first, second, third⟩ :=
      bundleSlot_storeBundle (low &&& 0x1f) (bundleSlot low high 0)
      ((imm64 >>> 22) &&& slotMask) (movlSetImm64 (bundleSlot low high 2) imm64)
    obtain ⟨qp, r1, opcode⟩ := movlSetImm64_kept (bundleSlot low high 2) imm64
    rw [written] at template first second third
    have same : isMovl bundle.1 bundle.2 = true := by
      rw [← found, isMovl, isMovl, template, third, opcode, BitVec.and_assoc, BitVec.and_self]
    rw [longMove_eq, same, if_pos rfl, template, first, second, third]
    have whole (word : Word) : word &&& slotMask &&& slotMask = word &&& slotMask := by
      rw [BitVec.and_assoc, BitVec.and_self]
    refine ⟨?_, by rw [BitVec.and_assoc, BitVec.and_self], whole _⟩
    rw [whole]
    -- Only the immediate and the text of the slot are new.
    simp only [fillMlxMovl, baseInsn, Option.some.injEq, Instruction.mk.injEq, true_and, and_true]
    exact ⟨qp, r1, movlImm64_movlSetImm64 (bundleSlot low high 2) imm64⟩

end Agreement

end Ia64.Decode
