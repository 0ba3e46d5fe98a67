import Ia64.Fp.Writes
import Ia64.Lib.CyclicRange

/-! Rotation of f32 to f127: the file is rearranged only when a register is used, and reads as if it
always were. -/

namespace Ia64.Fp

open Function Bitmaps FpState CyclicRange

open CyclicRange (moveEntries)

/-- The first rotating register. -/
def rotatingFrBase : Nat := 32

/-- The number of rotating registers. -/
def rotatingFrCount : Nat := 96

/-- Where a register goes under a rotation. -/
def rotated (shift reg : Nat) : Nat :=
  turned rotatingFrBase rotatingFrCount shift reg

/-- Rotate the array entries of the rotating registers. -/
def rebaseRotatingFrArray {α : Type} (values : Nat → α) (shift : Nat) : Nat → α :=
  if shift = 1 then
    let first := values rotatingFrBase
    update (moveEntries values rotatingFrBase (rotatingFrBase + 1) (rotatingFrCount - 1))
      (frCount - 1) first
  else if shift = rotatingFrCount - 1 then
    let last := values (frCount - 1)
    update (moveEntries values (rotatingFrBase + 1) rotatingFrBase (rotatingFrCount - 1))
      rotatingFrBase last
  else
    let tmp := fun i => values (rotatingFrBase + (i + shift) % rotatingFrCount)
    fun i => if rotatingFrBase ≤ i ∧ i < rotatingFrBase + rotatingFrCount
      then tmp (i - rotatingFrBase) else values i

/-- Rotate the bits of the rotating registers, which are split over two words. -/
def rebaseRotatingFrBits (bits : Nat → Word) (shift : Nat) : Nat → Word :=
  let lowNonrotating := bits 0 &&& 0xffffffff
  let mask := (1#128 <<< 96) - 1#128
  let rotating : BitVec 128 := (bits 1).setWidth 128 <<< 32 ||| (bits 0 >>> 32).setWidth 128
  let rotating := ((rotating >>> shift) ||| (rotating <<< (rotatingFrCount - shift))) &&& mask
  update (update bits 0 (lowNonrotating ||| (rotating <<< 32).setWidth 64))
    1 ((rotating >>> 32).setWidth 64)

/-- Rotate the file; arrays that no tag refers to stay as they are. -/
def FrFile.rebaseRotatingFr (file : FrFile) (shift : Nat) : FrFile :=
  let rotatingWord0Mask : Word := 0xffffffff00000000
  let hasExt := file.frExtValid 0 &&& rotatingWord0Mask != 0 || file.frExtValid 1 != 0
  let hasInt := file.frIntOrigin 0 &&& rotatingWord0Mask != 0 || file.frIntOrigin 1 != 0
  let nat := rebaseRotatingFrBits file.frNat shift
  let sig := rebaseRotatingFrBits file.frSig shift
  { fr := rebaseRotatingFrArray file.fr shift
    frIntValue := if hasInt then rebaseRotatingFrArray file.frIntValue shift else file.frIntValue
    frExtMant := if hasExt then rebaseRotatingFrArray file.frExtMant shift else file.frExtMant
    frExtExp := if hasExt then rebaseRotatingFrArray file.frExtExp shift else file.frExtExp
    frNat := nat
    frExtSign := rebaseRotatingFrBits file.frExtSign shift
    frExtValid := rebaseRotatingFrBits file.frExtValid shift
    frIntOrigin := rebaseRotatingFrBits file.frIntOrigin shift
    -- A NaTVal is not an integer as well.
    frSig := update (update sig 0 (sig 0 &&& ~~~(nat 0 &&& rotatingWord0Mask)))
      1 (sig 1 &&& ~~~(nat 1)) }

namespace FpState

/-- Arrange the file for the current rotation base. -/
def syncRotatingFr (state : FpState) : FpState :=
  let newRrb := state.cfmRrbFr
  let oldRrb := state.rotatingFrMaterializedRrb
  let file :=
    if newRrb ≠ oldRrb ∧ state.rotatingFrLive then
      let shift := if oldRrb ≤ newRrb then newRrb - oldRrb else newRrb + rotatingFrCount - oldRrb
      state.file.rebaseRotatingFr shift
    else state.file
  { state with file := file, rotatingFrMaterializedRrb := newRrb }

/-- Change the rotation base, and leave the file for later. -/
def setCfmRrbFr (state : FpState) (newRrb : Nat) : FpState :=
  let newRrb := if rotatingFrCount ≤ newRrb then newRrb % rotatingFrCount else newRrb
  if newRrb = state.cfmRrbFr then state
  else if !state.rotatingFrLive then { state with
    cfmRrbFr := newRrb, rotatingFrMaterializedRrb := newRrb }
  else { state with cfmRrbFr := newRrb }

end FpState

variable {reg first second : Nat} {state : FpState} {eager : EagerFile}

theorem rotated_of_inside (shift : Nat) (least : 32 ≤ reg) (most : reg < 128) :
    rotated shift reg = 32 + (reg - 32 + shift) % 96 :=
  turned_of_inside shift ⟨least, most⟩

theorem rotated_of_outside (shift : Nat) (outside : reg < 32 ∨ 128 ≤ reg) :
    rotated shift reg = reg :=
  turned_of_outside shift (by rw [rotatingFrBase, rotatingFrCount]; omega)

theorem rebaseRotatingFrArray_apply {α : Type} (values : Nat → α) (shift reg : Nat) :
    rebaseRotatingFrArray values shift reg = values (rotated shift reg) := by
  unfold rebaseRotatingFrArray
  split_ifs with one last
  · rw [one]
    exact move_down values (by decide) reg
  · rw [last]
    exact move_up values (by decide) reg
  · -- The copies through a buffer compute each index as the rotation does.
    exact (apply_ite values _ _ _).symm

/-- The rotating bits taken out of their two words. -/
theorem getLsbD_rotating (bits : Nat → Word) {j : Nat} (inside : j < 128) :
    ((bits 1).setWidth 128 <<< 32 ||| (bits 0 >>> 32).setWidth 128 : BitVec 128).getLsbD j =
      (decide (j < 96) && contains bits (32 + j)) := by
  rw [contains_eq_getLsbD (by decide)]
  simp only [BitVec.getLsbD_or, BitVec.getLsbD_shiftLeft, BitVec.getLsbD_setWidth,
    BitVec.getLsbD_ushiftRight, inside]
  by_cases first : j < 32
  · have word : (32 + j) / 64 = 0 := by omega
    have bit : (32 + j) % 64 = 32 + j := by omega
    simp [first, word, bit, show j < 96 by omega]
  by_cases second : j < 96
  · have word : (32 + j) / 64 = 1 := by omega
    have bit : (32 + j) % 64 = j - 32 := by omega
    simp [first, second, word, bit, show j - 32 < 128 by omega,
      BitVec.getLsbD_of_ge (bits 0) (32 + j) (by omega)]
  · simp [second, BitVec.getLsbD_of_ge (bits 0) (32 + j) (by omega),
      BitVec.getLsbD_of_ge (bits 1) (j - 32) (by omega)]

/-- Rotating the words moves the tags with their registers. -/
theorem contains_rebaseRotatingFrBits (bits : Nat → Word) {shift : Nat}
    (small : shift < rotatingFrCount) (reg : Nat) :
    contains (rebaseRotatingFrBits bits shift) reg = contains bits (rotated shift reg) := by
  change shift < 96 at small
  have clear : ∀ i, 96 ≤ i →
      ((bits 1).setWidth 128 <<< 32 ||| (bits 0 >>> 32).setWidth 128 : BitVec 128).getLsbD i =
        false := by
    intro i above
    by_cases inside : i < 128
    · rw [getLsbD_rotating bits inside, decide_eq_false (by omega), Bool.false_and]
    · exact BitVec.getLsbD_of_ge _ _ (by omega)
  have moved : ∀ j < 96,
      (((((bits 1).setWidth 128 <<< 32 ||| (bits 0 >>> 32).setWidth 128 : BitVec 128) >>> shift) |||
      (((bits 1).setWidth 128 <<< 32 ||| (bits 0 >>> 32).setWidth 128) <<<
        (rotatingFrCount - shift))) &&&
      ((1#128 <<< 96) - 1#128)).getLsbD j = contains bits (32 + (j + shift) % 96) := by
    intro j inside
    rw [show rotatingFrCount = 96 from rfl,
      Words.getLsbD_rotateRight (by decide) small inside clear,
      getLsbD_rotating bits (by omega), decide_eq_true (Nat.mod_lt _ (by decide)), Bool.true_and]
  have mask : (0xffffffff : Word).getLsbD reg = decide (reg < 32) :=
    @Words.getLsbD_mask 64 32 (by decide) reg
  rw [contains_eq_getLsbD (by decide)]
  simp only [rebaseRotatingFrBits]
  generalize (_ &&& _ : BitVec 128) = turned at moved ⊢
  -- The register is below the rotating ones, in the rest of the first word, in the second word, or
  -- beyond.
  by_cases low : reg < 32
  · rw [rotated_of_outside shift (Or.inl low), contains_eq_getLsbD (by decide),
      show reg / 64 = 0 by omega, show reg % 64 = reg by omega, update_of_ne (by decide),
      update_self]
    rw [BitVec.getLsbD_or, BitVec.getLsbD_and, mask, BitVec.getLsbD_setWidth,
      BitVec.getLsbD_shiftLeft]
    simp [low, show reg < 64 by omega]
  by_cases first : reg < 64
  · rw [rotated_of_inside shift (by omega) (by omega), ← moved (reg - 32) (by omega),
      show reg / 64 = 0 by omega, show reg % 64 = reg by omega, update_of_ne (by decide),
      update_self]
    rw [BitVec.getLsbD_or, BitVec.getLsbD_and, mask, BitVec.getLsbD_setWidth,
      BitVec.getLsbD_shiftLeft]
    simp [low, first, show reg < 128 by omega]
  by_cases second : reg < 128
  · rw [rotated_of_inside shift (by omega) (by omega), ← moved (reg - 32) (by omega),
      show reg / 64 = 1 by omega, show reg % 64 = reg - 64 by omega, update_self]
    simp [show reg - 64 < 64 by omega, show 32 + (reg - 64) = reg - 32 by omega]
  · rw [rotated_of_outside shift (Or.inr (by omega)), contains_eq_getLsbD (by decide),
      update_of_ne (by omega), update_of_ne (by omega)]

theorem rotated_bounds (shift : Nat) (least : 32 ≤ reg) (most : reg < 128) :
    32 ≤ rotated shift reg ∧ rotated shift reg < 128 :=
  (@turned_inside_iff 32 96 shift reg).2 ⟨least, most⟩

theorem getLsbD_rotatingWord0Mask {i : Nat} (inside : i < 64) :
    (0xffffffff00000000 : Word).getLsbD i = decide (32 ≤ i) := by
  rw [show (0xffffffff00000000 : Word) = (BitVec.allOnes 64) <<< 32 from rfl,
    BitVec.getLsbD_shiftLeft, BitVec.getLsbD_allOnes]
  by_cases above : 32 ≤ i
  · simp [above, inside, show ¬i < 32 by omega]
    omega
  · simp [above, show i < 32 by omega]

theorem contains_eq_false_of_words {bits : Nat → Word}
    (none : (bits 0 &&& (0xffffffff00000000 : Word) != 0 || bits 1 != 0) = false) (least : 32 ≤ reg)
    (most : reg < 128) : contains bits reg = false := by
  simp only [Bool.or_eq_false_iff, bne_eq_false_iff_eq] at none
  rw [contains_eq_getLsbD (by decide)]
  by_cases first : reg < 64
  · have bit := congrArg (BitVec.getLsbD · reg) none.1
    simp only [BitVec.getLsbD_and, getLsbD_rotatingWord0Mask first, decide_eq_true least,
      Bool.and_true] at bit
    rw [show reg / 64 = 0 by omega, show reg % 64 = reg by omega, bit]
    exact BitVec.getLsbD_zero
  · rw [show reg / 64 = 1 by omega, none.2]
    exact BitVec.getLsbD_zero

/-- Integer tags after NaTVals have been taken out of them. -/
theorem contains_without_nat (sig nat : Nat → Word) (reg : Nat) :
    contains (update (update sig 0 (sig 0 &&& ~~~(nat 0 &&& (0xffffffff00000000 : Word))))
        1 (sig 1 &&& ~~~(nat 1))) reg =
      (contains sig reg && !(decide (32 ≤ reg ∧ reg < 128) && contains nat reg)) := by
  simp only [contains_eq_getLsbD (show 0 < 64 by decide)]
  by_cases first : reg < 64
  · rw [show reg / 64 = 0 by omega, show reg % 64 = reg by omega, update_of_ne (by decide),
      update_self, BitVec.getLsbD_and, BitVec.getLsbD_not, BitVec.getLsbD_and,
        getLsbD_rotatingWord0Mask first]
    simp [first, show reg < 128 by omega, Bool.and_comm]
  by_cases second : reg < 128
  · rw [show reg / 64 = 1 by omega, update_self, BitVec.getLsbD_and, BitVec.getLsbD_not]
    simp [second, show 32 ≤ reg by omega, Nat.mod_lt reg (show 0 < 64 by decide)]
  · rw [update_of_ne (by omega), update_of_ne (by omega)]
    simp [second]

namespace FrFile

variable (file : FrFile) {shift : Nat} (small : shift < rotatingFrCount)

include small

/-- A rotation leaves the registers below f32 alone. -/
theorem cell_rebaseRotatingFr_of_outside {reg : Nat} (outside : reg < 32 ∨ 128 ≤ reg) :
    (file.rebaseRotatingFr shift).cell reg = file.cell reg := by
  have stays : rotated shift reg = reg := rotated_of_outside shift outside
  have array : ∀ {α : Type} (values : Nat → α) (any : Bool),
      (if any = true then rebaseRotatingFrArray values shift else values) reg = values reg := by
    intro α values any
    cases any
    · rfl
    · rw [if_pos rfl, rebaseRotatingFrArray_apply values shift, stays]
  have bits : ∀ bitmap, contains (rebaseRotatingFrBits bitmap shift) reg = contains bitmap reg := by
    intro bitmap
    rw [contains_rebaseRotatingFrBits bitmap small, stays]
  simp only [cell, rebaseRotatingFr, contains_without_nat, array, bits,
    rebaseRotatingFrArray_apply _ shift, stays]
  simp [show ¬(32 ≤ reg ∧ reg < 128) by omega]

/-- A retained register format moves with its tag. -/
theorem getExtended_rebaseRotatingFr {reg : Nat} (least : 32 ≤ reg) (most : reg < 128) :
    (file.rebaseRotatingFr shift).getExtended reg = file.getExtended (rotated shift reg) := by
  obtain ⟨least', most'⟩ := rotated_bounds shift least most
  have valid : contains (file.rebaseRotatingFr shift).frExtValid reg =
      contains file.frExtValid (rotated shift reg) := contains_rebaseRotatingFrBits _ small reg
  have sign : contains (file.rebaseRotatingFr shift).frExtSign reg =
      contains file.frExtSign (rotated shift reg) := contains_rebaseRotatingFrBits _ small reg
  cases tagged : contains file.frExtValid (rotated shift reg) with
  | false => rw [getExtended, getExtended, valid, tagged, if_neg (by simp), if_neg (by simp)]
  | true =>
    -- A tag among the rotating registers means that the arrays move, too.
    have any :
        (file.frExtValid 0 &&& (0xffffffff00000000 : Word) != 0 || file.frExtValid 1 != 0) := by
      by_contra none
      rw [contains_eq_false_of_words (Bool.not_eq_true _ ▸ none) least' most'] at tagged
      exact absurd tagged (by decide)
    have mant : (file.rebaseRotatingFr shift).frExtMant reg =
        file.frExtMant (rotated shift reg) := by
      rw [rebaseRotatingFr]
      simp only [any, if_true]
      exact rebaseRotatingFrArray_apply _ shift reg
    have exp : (file.rebaseRotatingFr shift).frExtExp reg = file.frExtExp (rotated shift reg) := by
      rw [rebaseRotatingFr]
      simp only [any, if_true]
      exact rebaseRotatingFrArray_apply _ shift reg
    rw [getExtended, getExtended, valid, tagged, sign, mant, exp, if_pos ⟨by omega, most, rfl⟩,
      if_pos ⟨by omega, most', rfl⟩]

/-- A rotation moves the rotating registers. -/
theorem registerFormat_rebaseRotatingFr {reg : Nat} (least : 32 ≤ reg) (most : reg < 128) :
    (file.rebaseRotatingFr shift).registerFormat reg = file.registerFormat (rotated shift reg) := by
  obtain ⟨least', most'⟩ := rotated_bounds shift least most
  have nat : contains (file.rebaseRotatingFr shift).frNat reg =
      contains file.frNat (rotated shift reg) := contains_rebaseRotatingFrBits _ small reg
  have missing : (file.rebaseRotatingFr shift).isNat reg = file.isNat (rotated shift reg) := by
    simp [isNat, nat, frCount, most, most', show 1 < reg by omega,
      show 1 < rotated shift reg by omega]
  have value : (file.rebaseRotatingFr shift).fr reg = file.fr (rotated shift reg) :=
    rebaseRotatingFrArray_apply _ shift reg
  have compact : (file.rebaseRotatingFr shift).compactValue reg =
      file.compactValue (rotated shift reg) := by
    simp [compactValue, value, show reg ≠ 0 by omega, show reg ≠ 1 by omega,
      show rotated shift reg ≠ 0 by omega, show rotated shift reg ≠ 1 by omega]
  rw [registerFormat, registerFormat, missing, getExtended_rebaseRotatingFr file small least most,
    compact, value]
  by_cases tagged : file.isNat (rotated shift reg)
  · rw [if_pos tagged, if_pos tagged]
  -- Only a NaTVal could have lost its integer tag.
  have integer : (file.rebaseRotatingFr shift).isInteger reg =
      file.isInteger (rotated shift reg) := by
    have sig : contains (file.rebaseRotatingFr shift).frSig reg =
        contains file.frSig (rotated shift reg) := by
      have present : contains file.frNat (rotated shift reg) = false := by
        simpa [isNat, frCount, most', show 1 < rotated shift reg by omega] using tagged
      rw [rebaseRotatingFr]
      simp only [contains_without_nat, contains_rebaseRotatingFrBits _ small, present]
      simp
    simp [isInteger, sig, frCount, most, most', show 1 < reg by omega,
      show 1 < rotated shift reg by omega]
  rw [if_neg tagged, if_neg tagged, integer]

/-- A rotation keeps every register canonical. -/
theorem canonical_rebaseRotatingFr (canonical : ∀ reg, file.Canonical reg) (reg : Nat) :
    (file.rebaseRotatingFr shift).Canonical reg := by
  by_cases outside : reg < 32 ∨ 128 ≤ reg
  · exact (canonical reg).congr (cell_rebaseRotatingFr_of_outside file small outside).symm
  have least : 32 ≤ reg := by omega
  have most : reg < 128 := by omega
  have valid : contains (file.rebaseRotatingFr shift).frExtValid reg =
      contains file.frExtValid (rotated shift reg) := contains_rebaseRotatingFrBits _ small reg
  have source := canonical (rotated shift reg)
  constructor
  · intro both
    refine source.exclusive ⟨?_, valid ▸ both.2⟩
    have sig := both.1
    rw [rebaseRotatingFr] at sig
    simp only [contains_without_nat, contains_rebaseRotatingFrBits _ small, Bool.and_eq_true] at sig
    exact sig.1
  · intro tagged
    have moved := getExtended_rebaseRotatingFr file small least most
    obtain ⟨least', most'⟩ := rotated_bounds shift least most
    rw [getExtended, if_pos ⟨by omega, most, tagged⟩, getExtended,
      if_pos ⟨by omega, most', valid ▸ tagged⟩] at moved
    rw [Option.some.inj moved]
    exact source.retained (valid ▸ tagged)

end FrFile

/-- An access to the registers, as instructions make them. -/
inductive Access where
  | setRrb (rrb : Nat)
  | sync
  | read (reg : Fin frCount)
  | write (reg : Fin frCount) (write : FpState.FrWrite)

/-- Whether a write reads or writes a rotating register. -/
def FpState.FrWrite.high (write : FpState.FrWrite) (dst : Nat) : Bool :=
  decide (rotatingFrBase ≤ dst) ||
    match write with
    | .copy src _ => decide (rotatingFrBase ≤ (src : Nat))
    | _ => false

namespace FpState

/-- Before an instruction that uses rotating registers, arrange the file for the current base. -/
def genSyncRotatingFr (state : FpState) (high : Bool) : FpState :=
  if high ∧ state.cfmRrbFr ≠ state.rotatingFrMaterializedRrb then state.syncRotatingFr else state

/-- Carry an access out; a read returns the spilled register. -/
def access (state : FpState) : Access → FpState × Option (Word × Word)
  | .setRrb rrb => (state.setCfmRrbFr rrb, none)
  | .sync => (state.syncRotatingFr, none)
  | .read reg =>
    let state := state.genSyncRotatingFr (decide (rotatingFrBase ≤ (reg : Nat)))
    (state, some (state.fpregToSpill reg))
  | .write reg write => ((state.genSyncRotatingFr (write.high reg)).store reg write, none)

/-- Carry accesses out and collect what the reads return. -/
def accesses (state : FpState) : List Access → FpState × List (Word × Word)
  | [] => (state, [])
  | access :: rest =>
    let (next, image) := state.access access
    let (final, images) := next.accesses rest
    (final, image.toList ++ images)

end FpState

/-- A physical register file that is addressed through the rotation base at every access. -/
structure EagerFile where
  registers : Nat → RegisterFormat
  rrb : Nat

namespace EagerFile

/-- A logical register. -/
def logical (eager : EagerFile) (reg : Nat) : RegisterFormat :=
  eager.registers (rotated eager.rrb reg)

/-- The same access to the physical file. -/
def access (eager : EagerFile) : Access → EagerFile × Option (Word × Word)
  | .setRrb rrb => ({ eager with rrb := rrb % rotatingFrCount }, none)
  | .sync => (eager, none)
  | .read reg => (eager, some (eager.logical reg).spill)
  | .write reg write =>
    -- The constants f0 and f1 are not written.
    if (reg : Nat) ≤ 1 then (eager, none)
    else
      ({ eager with
          registers :=
            update eager.registers (rotated eager.rrb reg) (write.contents eager.logical) }, none)

/-- Run accesses, with the images that reads return. -/
def accesses (eager : EagerFile) : List Access → EagerFile × List (Word × Word)
  | [] => (eager, [])
  | access :: rest =>
    let (next, image) := eager.access access
    let (final, images) := next.accesses rest
    (final, image.toList ++ images)

end EagerFile

theorem rotated_rotated (first second reg : Nat) :
    rotated first (rotated second reg) = rotated (first + second) reg := by
  rw [Nat.add_comm]
  exact @turned_turned 32 96 first second reg

theorem rotated_congr (same : first % 96 = second % 96) (reg : Nat) :
    rotated first reg = rotated second reg :=
  turned_congr same reg

theorem rotated_injective (shift : Nat) : Function.Injective (rotated shift) :=
  @turned_injective 32 96 (by decide) shift

theorem rotated_of_placed (placed : 32 ≤ reg → first = second) :
    rotated first reg = rotated second reg := by
  by_cases low : reg < 32
  · rw [rotated_of_outside _ (Or.inl low), rotated_of_outside _ (Or.inl low)]
  · rw [placed (by omega)]

/-- The file holds the physical registers, arranged for the base it was last synchronized with. -/
structure Represents (state : FpState) (eager : EagerFile) : Prop where
  rrb : eager.rrb = state.cfmRrbFr
  current : state.cfmRrbFr < rotatingFrCount
  materialized : state.rotatingFrMaterializedRrb < rotatingFrCount
  canonical : ∀ reg, state.file.Canonical reg
  registers : ∀ reg < frCount,
    state.file.registerFormat reg = eager.registers (rotated state.rotatingFrMaterializedRrb reg)
  -- Until a rotating register is written, all of them are alike.
  uniform : state.rotatingFrLive = false →
    ∀ left right, rotatingFrBase ≤ left → left < frCount → rotatingFrBase ≤ right →
      right < frCount → eager.registers left = eager.registers right

/-- A state whose rotating registers can be read: its bases are legal, and unused registers are
alike. -/
structure Coherent (state : FpState) : Prop where
  current : state.cfmRrbFr < rotatingFrCount
  materialized : state.rotatingFrMaterializedRrb < rotatingFrCount
  canonical : ∀ reg, state.file.Canonical reg
  uniform : state.rotatingFrLive = false →
    ∀ left right, rotatingFrBase ≤ left → left < frCount → rotatingFrBase ≤ right →
      right < frCount → state.file.registerFormat left = state.file.registerFormat right

/-- The physical registers of a state. -/
def eagerOf (state : FpState) : EagerFile :=
  { registers := fun reg => state.file.registerFormat (rotated
    (rotatingFrCount - state.rotatingFrMaterializedRrb) reg)
    rrb := state.cfmRrbFr }

theorem registers_of_uniform {registers : Nat → RegisterFormat}
    (uniform : ∀ left right, rotatingFrBase ≤ left → left < frCount → rotatingFrBase ≤ right →
      right < frCount →
      registers left = registers right) (first second : Nat) (inside : reg < frCount) :
    registers (rotated first reg) = registers (rotated second reg) := by
  by_cases low : reg < 32
  · rw [rotated_of_outside first (Or.inl low), rotated_of_outside second (Or.inl low)]
  · obtain ⟨least, most⟩ := rotated_bounds first (by omega : 32 ≤ reg) inside
    obtain ⟨least', most'⟩ := rotated_bounds second (by omega : 32 ≤ reg) inside
    exact uniform _ _ least most least' most'

section

variable (represents : Represents state eager)

include represents

/-- Synchronizing arranges the file for the current base. -/
theorem Represents.sync :
    Represents state.syncRotatingFr eager := by
  have current := represents.current
  have materialized := represents.materialized
  simp only [rotatingFrCount] at current materialized
  unfold syncRotatingFr
  by_cases moves : state.cfmRrbFr ≠ state.rotatingFrMaterializedRrb ∧ state.rotatingFrLive
  · simp only [if_pos moves]
    -- The shift takes the old base to the new one.
    generalize known : (if state.rotatingFrMaterializedRrb ≤ state.cfmRrbFr then
      state.cfmRrbFr - state.rotatingFrMaterializedRrb
      else state.cfmRrbFr + rotatingFrCount - state.rotatingFrMaterializedRrb) = shift
    have small : shift < 96 := by
      rw [← known, rotatingFrCount]
      split_ifs <;> omega
    have total : (state.rotatingFrMaterializedRrb + shift) % 96 = state.cfmRrbFr % 96 := by
      rw [← known, rotatingFrCount]
      split_ifs <;> omega
    refine ⟨represents.rrb, represents.current, represents.current,
      FrFile.canonical_rebaseRotatingFr _ small represents.canonical, fun reg inside =>
        ?_, fun idle => ?_⟩
    · by_cases low : reg < 32
      · rw [FrFile.registerFormat_congr
          (FrFile.cell_rebaseRotatingFr_of_outside _ small (Or.inl low)),
          represents.registers reg inside, rotated_of_outside _ (Or.inl low),
            rotated_of_outside _ (Or.inl low)]
      · have bounds := rotated_bounds shift (by omega : 32 ≤ reg) inside
        rw [FrFile.registerFormat_rebaseRotatingFr _ small (by omega) inside,
          represents.registers _ bounds.2, rotated_rotated, rotated_congr total]
    · exact absurd moves.2 (by simpa using idle)
  · simp only [if_neg moves]
    refine ⟨represents.rrb, represents.current, represents.current, represents.canonical,
      fun reg inside => ?_, represents.uniform⟩
    rw [represents.registers reg inside]
    by_cases same : state.cfmRrbFr = state.rotatingFrMaterializedRrb
    · rw [same]
    · have idle : state.rotatingFrLive = false := by
        simpa [same] using moves
      exact registers_of_uniform (represents.uniform idle) _ _ inside

/-- Changing the base moves no register. -/
theorem Represents.setRrb (rrb : Nat) :
    Represents (state.setCfmRrbFr rrb) { eager with rrb := rrb % rotatingFrCount } := by
  have normal : (if rotatingFrCount ≤ rrb then rrb % rotatingFrCount
      else rrb) = rrb % rotatingFrCount := by
    split_ifs with wraps
    · rfl
    · rw [Nat.mod_eq_of_lt (by omega)]
  have small : rrb % rotatingFrCount < rotatingFrCount := Nat.mod_lt _ (by decide)
  simp only [setCfmRrbFr, normal]
  split_ifs with same idle
  · exact { represents with rrb := same }
  · have alike := represents.uniform (by simpa using idle)
    refine ⟨rfl, small, small, represents.canonical, fun reg inside => ?_, represents.uniform⟩
    rw [represents.registers reg inside]
    exact registers_of_uniform alike _ _ inside
  · exact ⟨rfl, small, represents.materialized, represents.canonical, represents.registers,
      represents.uniform⟩

theorem Represents.genSync (high : Bool) :
    Represents (state.genSyncRotatingFr high) eager ∧
      (high → (state.genSyncRotatingFr high).rotatingFrMaterializedRrb =
        (state.genSyncRotatingFr high).cfmRrbFr) := by
  unfold genSyncRotatingFr
  split_ifs with moves
  · exact ⟨represents.sync, fun _ => rfl⟩
  · refine ⟨represents, fun used => ?_⟩
    simp only [used, true_and, not_not] at moves
    exact moves.symm

theorem Represents.logical
    (inside : reg < frCount)
    (placed : 32 ≤ reg → state.rotatingFrMaterializedRrb = state.cfmRrbFr) :
    state.file.registerFormat reg = eager.logical reg := by
  rw [represents.registers reg inside, EagerFile.logical, represents.rrb, rotated_of_placed placed]

theorem Represents.contents {dst : Nat}
    {write : FpState.FrWrite}
    (placed : write.high dst → state.rotatingFrMaterializedRrb = state.cfmRrbFr) :
    write.contents state.file.registerFormat = write.contents eager.logical := by
  cases write with
  | copy src signMode =>
    have source : state.file.registerFormat src = eager.logical src := by
      refine represents.logical src.isLt fun high => placed ?_
      simp [FpState.FrWrite.high, rotatingFrBase, high]
    simp only [FpState.FrWrite.contents, source]
  | _ => rfl

theorem Represents.store
    (dst : Fin frCount) (write : FpState.FrWrite)
    (placed : write.high dst → state.rotatingFrMaterializedRrb = state.cfmRrbFr) :
    Represents (state.store dst write) (eager.access (.write dst write)).1 := by
  by_cases constant : (dst : Nat) ≤ 1
  · rw [store_low state constant]
    simpa [EagerFile.access, constant] using represents
  have written : 1 < (dst : Nat) := by omega
  obtain ⟨current, materialized, live⟩ := (store_frame state written write).rotation written
  have wrote := store_wrote state written write
  have place : rotated state.rotatingFrMaterializedRrb dst = rotated eager.rrb dst := by
    rw [represents.rrb]
    refine rotated_of_placed fun high => placed ?_
    unfold FpState.FrWrite.high
    rw [decide_eq_true (show rotatingFrBase ≤ (dst : Nat) from high), Bool.true_or]
  simp only [EagerFile.access, if_neg constant]
  constructor
  · rw [current]
    exact represents.rrb
  · rw [current]
    exact represents.current
  · rw [materialized]
    exact represents.materialized
  · exact store_canonical state dst write represents.canonical
  · intro reg inside
    rw [materialized]
    simp only
    by_cases here : reg = dst
    · rw [here, place, update_self,
        store_registerFormat state written dst.isLt represents.canonical]
      exact represents.contents placed
    · rw [FrFile.registerFormat_congr (wrote.others reg here),
        represents.registers reg inside, ← place, update_of_ne ((rotated_injective _).ne here)]
  · intro idle left right leastLeft mostLeft leastRight mostRight
    -- Only a register below the rotating ones can have been written.
    simp only [live, Bool.or_eq_false_iff, decide_eq_false_iff_not] at idle
    rw [rotatingFrBase] at leastLeft leastRight
    have stays : rotated eager.rrb dst = dst := rotated_of_outside _ (Or.inl (by omega))
    simp only [stays]
    rw [update_of_ne (by omega), update_of_ne (by omega)]
    exact represents.uniform idle.1 left right leastLeft mostLeft leastRight mostRight

theorem Represents.access (access : Access) :
    Represents (state.access access).1 (eager.access access).1 ∧
      (state.access access).2 = (eager.access access).2 := by
  cases access with
  | setRrb rrb => exact ⟨represents.setRrb rrb, rfl⟩
  | sync => exact ⟨represents.sync, rfl⟩
  | read reg =>
    obtain ⟨synced, placed⟩ := represents.genSync (decide (rotatingFrBase ≤ (reg : Nat)))
    refine ⟨synced, congrArg (fun fmt : RegisterFormat => some fmt.spill) ?_⟩
    exact synced.logical reg.isLt fun high => placed (decide_eq_true high)
  | write reg write =>
    obtain ⟨synced, placed⟩ := represents.genSync (write.high reg)
    refine ⟨synced.store reg write placed, ?_⟩
    simp only [EagerFile.access]
    split_ifs <;> rfl

theorem Represents.accesses
    (accesses : List Access) :
    Represents (state.accesses accesses).1 (eager.accesses accesses).1 ∧
      (state.accesses accesses).2 = (eager.accesses accesses).2 := by
  induction accesses generalizing state eager with
  | nil => exact ⟨represents, rfl⟩
  | cons access rest ih =>
    obtain ⟨next, image⟩ := represents.access access
    obtain ⟨final, images⟩ := ih next
    refine ⟨final, ?_⟩
    simp only [accesses, EagerFile.accesses, image, images]

end

/-- A coherent state represents its physical registers. -/
theorem Coherent.represents (coherent : Coherent state) : Represents state (eagerOf state) := by
  have materialized := coherent.materialized
  rw [rotatingFrCount] at materialized
  refine ⟨rfl, coherent.current, coherent.materialized, coherent.canonical, fun reg inside => ?_,
    fun idle => ?_⟩
  · -- Rotating there and back leads to the same register.
    have back :
        rotated (rotatingFrCount - state.rotatingFrMaterializedRrb +
          state.rotatingFrMaterializedRrb) reg =
        rotated 0 reg := rotated_congr (by rw [rotatingFrCount]; omega) reg
    simp only [eagerOf]
    rw [rotated_rotated, back, show rotated 0 reg = reg from @turned_zero 32 96 reg]
  · intro left right leastLeft mostLeft leastRight mostRight
    obtain ⟨least, most⟩ :=
      rotated_bounds (rotatingFrCount - state.rotatingFrMaterializedRrb) leastLeft mostLeft
    obtain ⟨least', most'⟩ :=
      rotated_bounds (rotatingFrCount - state.rotatingFrMaterializedRrb) leastRight mostRight
    exact coherent.uniform idle _ _ least most least' most'

theorem Represents.coherent (represents : Represents state eager) :
    Coherent state := by
  refine ⟨represents.current, represents.materialized, represents.canonical, fun idle => ?_⟩
  intro left right leastLeft mostLeft leastRight mostRight
  obtain ⟨least, most⟩ := rotated_bounds state.rotatingFrMaterializedRrb leastLeft mostLeft
  obtain ⟨least', most'⟩ := rotated_bounds state.rotatingFrMaterializedRrb leastRight mostRight
  rw [represents.registers left mostLeft, represents.registers right mostRight]
  exact represents.uniform idle _ _ least most least' most'

theorem reset_coherent : Coherent .reset := by
  refine ⟨by decide, by decide, FrFile.canonical_reset,
    fun _ left right leastLeft _ leastRight _ => ?_⟩
  rw [rotatingFrBase] at leastLeft leastRight
  have empty : ∀ reg, 32 ≤ reg → reset.file.registerFormat reg = binary64ToRegisterFormat 0 := by
    intro reg least
    simp [reset, FrFile.reset, FrFile.registerFormat, FrFile.isNat, FrFile.isInteger,
      FrFile.getExtended,
      FrFile.compactValue, contains, show reg ≠ 0 by omega, show reg ≠ 1 by omega]
  rw [empty left leastLeft, empty right leastRight]

theorem cell_access_of_rotation (coherent : Coherent state) {access : Access}
    (rotation : access = .sync ∨ ∃ rrb, access = .setRrb rrb) (low : reg < 32) :
    (state.access access).1.file.cell reg = state.file.cell reg := by
  rcases rotation with rfl | ⟨rrb, rfl⟩
  · have current := coherent.current
    have materialized := coherent.materialized
    rw [rotatingFrCount] at current materialized
    simp only [access, syncRotatingFr]
    split_ifs
    · exact FrFile.cell_rebaseRotatingFr_of_outside _ (by rw [rotatingFrCount]; omega) (Or.inl low)
    · exact FrFile.cell_rebaseRotatingFr_of_outside _ (by rw [rotatingFrCount]; omega) (Or.inl low)
    · rfl
  · simp only [access, setCfmRrbFr]
    split_ifs <;> rfl

/-- The lazily rotated file is an eager physical one: after any accesses to a coherent state every
read has returned what the physical file returns, every logical register still holds what it should,
and no rotation has changed a register below f32. -/
theorem lazyRotation_eager {state : FpState} (coherent : Coherent state) (accesses : List Access) :
    let final := (state.accesses accesses).1
    let eager := ((eagerOf state).accesses accesses).1
    (state.accesses accesses).2 = ((eagerOf state).accesses accesses).2 ∧
      (∀ reg < frCount, final.syncRotatingFr.fpregToSpill reg = (eager.logical reg).spill) ∧
      ∀ access, (access = .sync ∨ ∃ rrb, access = .setRrb rrb) → ∀ reg < 32,
        (final.access access).1.file.cell reg = final.file.cell reg := by
  obtain ⟨represents, images⟩ := coherent.represents.accesses accesses
  refine ⟨images, fun reg inside => ?_, fun access rotation reg low => ?_⟩
  · exact congrArg RegisterFormat.spill (represents.sync.logical inside fun _ => rfl)
  · exact cell_access_of_rotation represents.coherent rotation low

/-- A register written before two rotations is read at its new place. -/
theorem lazyRotation_eager_reset :
    (reset.accesses [.write 40 (.significand 7), .setRrb 95, .setRrb 94, .read 42]).2 =
      [(7, 0x1003e)] :=
  (lazyRotation_eager reset_coherent [.write 40 (.significand 7), .setRrb 95, .setRrb 94,
    .read 42]).1.trans (by decide)

/-- Whatever is written and rotated after reset, no register has two representations at once, and a
register is tagged as a NaTVal exactly if it holds one. -/
theorem tags_exact (accesses : List Access) (reg : Nat) :
    let file := (reset.accesses accesses).1.file
    file.Exclusive reg ∧ (file.isNat reg = true ↔ file.registerFormat reg = natVal) := by
  obtain ⟨represents, -⟩ := reset_coherent.represents.accesses accesses
  have canonical := represents.canonical reg
  exact ⟨canonical.exclusive, FrFile.isNat_iff canonical⟩

end Ia64.Fp
