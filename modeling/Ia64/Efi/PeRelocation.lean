import Ia64.Lib.CheckedBytes

/-! Base relocation of a loaded PE image: the pass that validates the directory and the pass that
applies it. -/

namespace Ia64.Efi.Pe

open CheckedBytes

/-- A 64-bit word. -/
abbrev Word := BitVec 64

/-- A pass over the image: it stops where it leaves its range, and it may give up. -/
abbrev Pass (α : Type) := Checked Unit α

/-- The arguments of a relocation besides the image and the log. -/
structure Call where
  imageBase : Word
  relocRva : Nat
  relocSize : Nat
  adjust : Word
  /-- Whether the image is moved again at run time, when only values found in the log are
  changed. -/
  runtime : Bool
  /-- Whether a log is given. -/
  logged : Bool
  logEntries : Nat
  commit : Bool
deriving DecidableEq, Repr

/-- Relocation types. -/
def relBasedAbsolute : Nat := 0

/-- A 32-bit address. -/
def relBasedHighlow : Nat := 3

/-- The long immediate of a bundle. -/
def relBasedIa64Imm64 : Nat := 9

/-- A 64-bit address. -/
def relBasedDir64 : Nat := 10

/-- Whether a range of the image is valid. -/
def rvaRangeValid (rva size imageSize : Nat) : Bool := rva ≤ imageSize && size ≤ imageSize - rva

section Bundles

/-- The 41 bits of a slot. -/
def slotMask : Word := 0x1ffffffffff

/-- A slot of a bundle. -/
def bundleSlot (low high : Word) : Nat → Word
  | 0 => (low >>> 5) &&& slotMask
  | 1 => ((low >>> 46) ||| (high <<< 18)) &&& slotMask
  | 2 => (high >>> 23) &&& slotMask
  | _ => 0

/-- The two words of a bundle with the given template and slots. -/
def storeBundle (template slot0 slot1 slot2 : Word) : Word × Word :=
  ((template &&& 0x1f) ||| ((slot0 &&& slotMask) <<< 5) ||| ((slot1 &&& 0x3ffff) <<< 46),
    ((slot1 >>> 18) &&& 0x7fffff) ||| ((slot2 &&& slotMask) <<< 23))

/-- The immediate of a long move. -/
def movlImm64 (lSlot xSlot : Word) : Word :=
  ((xSlot >>> 13) &&& 0x7f) ||| (((xSlot >>> 27) &&& 0x1ff) <<< 7) |||
    (((xSlot >>> 22) &&& 0x1f) <<< 16) |||
    (((xSlot >>> 21) &&& 1) <<< 21) ||| ((lSlot &&& slotMask) <<< 22) |||
      (((xSlot >>> 36) &&& 1) <<< 63)

/-- The third slot of a long move with another immediate. -/
def movlSetImm64 (xSlot imm64 : Word) : Word :=
  (xSlot &&& ~~~(((1 : Word) <<< 36) ||| (0x1ff <<< 27) ||| (0x1f <<< 22) ||| (1 <<< 21) |||
    (0x7f <<< 13))) |||
    (((imm64 >>> 63) &&& 1) <<< 36) ||| (((imm64 >>> 7) &&& 0x1ff) <<< 27) |||
      (((imm64 >>> 16) &&& 0x1f) <<< 22) |||
    (((imm64 >>> 21) &&& 1) <<< 21) ||| ((imm64 &&& 0x7f) <<< 13)

/-- Whether a bundle holds a long move. -/
def isMovl (low high : Word) : Bool :=
  ((low &&& 0x1f) == 4 || (low &&& 0x1f) == 5) && ((bundleSlot low high 2 >>> 37) &&& 0xf) == 6

end Bundles

/-- The image and the log between two relocations. -/
structure Progress where
  image : Buffer
  log : Nat → Word
  logIndex : Nat

variable (call : Call)

/-- A read of the relocation directory. -/
def directoryRead (image : Buffer) (count offset : Nat) : Pass Nat :=
  if offset + count ≤ call.relocSize then image.read count (call.relocRva + offset)
    else .error .outOfBounds

/-- A read of the log. -/
def logRead (p : Progress) : Pass Word :=
  if p.logIndex < call.logEntries then .ok (p.log p.logIndex) else .error .outOfBounds

/-- A write of the log. -/
def logWrite (p : Progress) (value : Word) : Pass Progress :=
  if p.logIndex < call.logEntries then .ok { p with log := Function.update p.log p.logIndex value }
  else .error .outOfBounds

/-- The image offset of the bundle that a relocation names: the address is rounded down, not the
offset. -/
def bundleOffset (relocOff : Nat) : Nat :=
  (((call.imageBase + BitVec.ofNat 64 relocOff) &&& ~~~(15 : Word)) - call.imageBase).toNat

/-- Whether the validation accepts an entry. -/
def entryValid (imageSize type relocOff : Nat) : Bool :=
  if type = relBasedHighlow then rvaRangeValid relocOff 4 imageSize
  else if type = relBasedDir64 then rvaRangeValid relocOff 8 imageSize
  else if type = relBasedIa64Imm64 then rvaRangeValid (relocOff / 16 * 16) 16 imageSize
  else false

/-- Validate one entry and count it. -/
def countEntry (image : Buffer) (pageRva offset entries jj : Nat) : Pass Nat := do
  let entry ← directoryRead call image 2 (offset + 8 + jj * 2)
  if entry / 4096 = relBasedAbsolute then return entries
  else
    require () (entryValid image.size (entry / 4096) (pageRva + entry % 4096))
    require () (entries != 2 ^ 64 - 1)
    return entries + 1

/-- Validate the entries of a block from one on. -/
def countEntries (image : Buffer) (pageRva offset : Nat) : Nat → Nat → Nat → Pass Nat
  | 0, _, entries => return entries
  | count + 1, jj, entries => do
    let entries ← countEntry call image pageRva offset entries jj
    countEntries image pageRva offset count (jj + 1) entries

/-- Validate the directory and count its entries; a pass that would not end counts as one that
leaves its range. -/
def countBlocks (image : Buffer) : Nat → Nat → Nat → Pass Nat
  | 0, offset, entries => if offset < call.relocSize then .error .outOfBounds else return entries
  | fuel + 1, offset, entries =>
    if offset < call.relocSize then do
      require () (8 ≤ call.relocSize - offset)
      let pageRva ← directoryRead call image 4 offset
      let blockSize ← directoryRead call image 4 (offset + 4)
      require () (8 ≤ blockSize && blockSize % 4 == 0 && blockSize ≤ call.relocSize - offset)
      let entries ← countEntries call image pageRva offset ((blockSize - 8) / 2) 0 entries
      countBlocks image fuel (offset + blockSize) entries
    else return entries

/-- The number of entries of a valid directory. -/
def relocationLogEntries (image : Buffer) : Pass Nat := countBlocks call image call.relocSize 0 0

variable (width : Nat) (p : Progress) (relocOff : Nat)

/-- Whether an address is to be changed: at run time only if it is the logged one. -/
def addressMatches : Pass Bool :=
  if call.runtime then do
    let patch ← p.image.read width relocOff
    let value ← logRead call p
    return patch == value.toNat % 256 ^ width
  else return true

/-- Move an address that is to be changed. -/
def adjustAddress (apply : Bool) : Pass Progress :=
  if apply && call.commit then do
    let patch ← p.image.read width relocOff
    let image ← p.image.write width relocOff ((patch + call.adjust.toNat) % 256 ^ width)
    return { p with image := image }
  else return p

/-- Log an address after a load. -/
def logAddress : Pass Progress :=
  if call.commit && !call.runtime && call.logged then do
    let patch ← p.image.read width relocOff
    logWrite call p (BitVec.ofNat 64 patch)
  else return p

/-- Relocate an address of the given width. -/
def patchAddress : Pass Progress := do
  let apply ← addressMatches call width p relocOff
  let p ← adjustAddress call width p relocOff apply
  logAddress call width p relocOff

/-- Whether an immediate is to be changed: at run time only if it is the logged one. -/
def immMatches (p : Progress) (value : Word) : Pass Bool :=
  if call.runtime then do
    let logged ← logRead call p
    return value == logged
  else return true

/-- Write another immediate into the bundle of a long move, and log it. -/
def adjustImm64 (p : Progress) (relocOff : Nat) (low high imm64 : Word) : Pass Progress := do
  let bundle := storeBundle (low &&& 0x1f) (bundleSlot low high 0) ((imm64 >>> 22) &&& slotMask)
    (movlSetImm64 (bundleSlot low high 2) imm64)
  let image ← p.image.write 8 (bundleOffset call relocOff) bundle.1.toNat
  let image ← image.write 8 (bundleOffset call relocOff + 8) bundle.2.toNat
  if call.logged then logWrite call { p with image := image } imm64
    else return { p with image := image }

/-- Relocate the immediate of a long move. -/
def patchImm64 (p : Progress) (relocOff : Nat) : Pass Progress := do
  let low ← p.image.read 8 (bundleOffset call relocOff)
  let high ← p.image.read 8 (bundleOffset call relocOff + 8)
  let low := BitVec.ofNat 64 low
  let high := BitVec.ofNat 64 high
  if !isMovl low high then
    -- At run time the driver may have replaced the instruction.
    if call.runtime then return p else refuse ()
  else
    let value := movlImm64 (bundleSlot low high 1) (bundleSlot low high 2)
    let apply ← immMatches call p value
    if apply && call.commit then adjustImm64 call p relocOff low high (value + call.adjust)
      else return p

/-- Relocate what an entry names. -/
def patch (p : Progress) (type relocOff : Nat) : Pass Progress :=
  if type = relBasedHighlow then patchAddress call 4 p relocOff
  else if type = relBasedDir64 then patchAddress call 8 p relocOff
  else if type = relBasedIa64Imm64 then patchImm64 call p relocOff
  else return p

/-- Apply one entry; the entry is read again. -/
def applyEntry (pageRva offset : Nat) (p : Progress) (jj : Nat) : Pass Progress := do
  let entry ← directoryRead call p.image 2 (offset + 8 + jj * 2)
  let relocOff := pageRva + entry % 4096
  if entry / 4096 = relBasedAbsolute then return p
  else
    let p ← patch call p (entry / 4096) relocOff
    return { p with logIndex := p.logIndex + 1 }

/-- Apply the entries of a block from one on. -/
def applyEntries (pageRva offset : Nat) : Nat → Nat → Progress → Pass Progress
  | 0, _, p => return p
  | count + 1, jj, p => do
    let p ← applyEntry call pageRva offset p jj
    applyEntries pageRva offset count (jj + 1) p

/-- Apply one block and return where the next begins. Its size is read again and not checked again,
so that a size below that of the header gives a number of entries just below the largest of 31
bits. -/
def applyBlock (p : Progress) (offset : Nat) : Pass (Progress × Nat) := do
  let pageRva ← directoryRead call p.image 4 offset
  let blockSize ← directoryRead call p.image 4 (offset + 4)
  let p ← applyEntries call pageRva offset ((blockSize + 2 ^ 32 - 8) % 2 ^ 32 / 2) 0 p
  return (p, (offset + blockSize) % 2 ^ 32)

/-- Apply the blocks; a pass that would not end counts as one that leaves its range. -/
def applyBlocks : Nat → Progress → Nat → Pass Progress
  | 0, p, offset => if offset < call.relocSize then .error .outOfBounds else return p
  | fuel + 1, p, offset =>
    if offset < call.relocSize then do
      let (p, next) ← applyBlock call p offset
      applyBlocks fuel p next
    else return p

/-- Whether the log fits the directory. -/
def logAccepted (expected : Nat) : Bool :=
  !(!call.logged && call.logEntries != 0 || call.logged && call.logEntries != expected ||
    call.runtime && expected != 0 && !call.logged)

/-- Relocate an image; the result says whether every entry was seen. -/
def applyRelocations (image : Buffer) (log : Nat → Word) : Pass Bool :=
  if call.relocRva = 0 ∨ call.relocSize = 0 then
    return call.relocRva = 0 ∧ call.relocSize = 0 ∧ call.logEntries = 0
  else if !rvaRangeValid call.relocRva call.relocSize image.size then refuse ()
  else do
    let expected ← relocationLogEntries call image
    require () (logAccepted call expected)
    let p ← applyBlocks call call.relocSize ⟨image, log, 0⟩ 0
    return p.logIndex == expected

end Ia64.Efi.Pe
