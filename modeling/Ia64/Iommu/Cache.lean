import Ia64.Rse.Env
import Ia64.Lib.Pages
import Ia64.Lib.Sweep

/-! The translation cache of the I/O MMU and the decoders of its registers. -/

namespace Ia64.Iommu

open Pages Sweep

/-- The number of slots of the cache. -/
def slotCount : Nat := 16

/-- The bit that marks a valid entry of the page directory. -/
def iopdirValidBit : Word := 0x8000000000000000

/-- The addresses that exist: fifty bits. -/
def physMask : Word := 0x0003ffffffffffff

/-- A translation of one page. -/
structure Entry where
  iova : Word
  translatedAddr : Word
  addrMask : Word
deriving DecidableEq, Repr

/-- A range of addresses that is purged. -/
structure Purge where
  iova : Word
  size : Word
deriving DecidableEq, Repr

/-- A slot of the cache. -/
structure Slot where
  entry : Entry
  valid : Bool
deriving DecidableEq, Repr

/-- An empty slot. -/
def Slot.empty : Slot := ⟨⟨0, 0, 0⟩, false⟩

/-- The translation cache, fully associative. -/
structure Iotlb where
  slots : Nat → Slot

/-- The cleared cache. -/
def Iotlb.clear : Iotlb := ⟨fun _ => .empty⟩

/-- Decode a purge command: an aligned range of at least a page. -/
def decodePcom (pcom : Word) (pageShift : Nat) : Option Purge :=
  if pageShift = 0 ∨ 31 < pageShift then none
  else
    let sizeShift := (pcom &&& 0x1f).toNat
    let iova := pcom &&& ~~~(0x1f : Word)
    if sizeShift < pageShift then none
    else
      let size : Word := 1#64 <<< sizeShift
      if iova &&& (size - 1) ≠ 0 ∨ uint64Max - (size - 1) < iova then none
      else some ⟨iova, size⟩

/-- The entries that the cache accepts. -/
def Entry.valid (entry : Entry) : Bool :=
  if entry.addrMask = 0 ∨ entry.addrMask = uint64Max then false
  else
    isPowerOfTwo (entry.addrMask + 1) && entry.iova &&& entry.addrMask == 0 &&
      entry.translatedAddr &&& entry.addrMask == 0

/-- Whether a slot answers for an address. -/
def Slot.answers (slot : Slot) (iova : Word) : Bool :=
  slot.valid && iova &&& ~~~slot.entry.addrMask == slot.entry.iova

/-- The first slot that answers for an address. -/
def Iotlb.lookupSlot (iotlb : Iotlb) (iova : Word) : Option Nat :=
  firstSlot slotCount fun i => (iotlb.slots i).answers iova

/-- Write a slot, if the entry is acceptable. -/
def Iotlb.storeSlot (iotlb : Iotlb) (slot : Nat) (entry : Entry) : Option Iotlb :=
  if slotCount ≤ slot ∨ entry.valid = false then none
  else some ⟨Function.update iotlb.slots slot ⟨entry, true⟩⟩

/-- A slot after a purge: it is emptied if its page meets the purged range. -/
def Slot.purged (slot : Slot) (purge : Purge) : Slot :=
  if slot.valid then
    let purgeEnd := purge.iova + purge.size - 1
    let entryEnd := slot.entry.iova + slot.entry.addrMask
    if slot.entry.iova ≤ purgeEnd ∧ purge.iova ≤ entryEnd
      then { slot with valid := false } else slot
  else slot

/-- Purge a range; false if the range is malformed. -/
def Iotlb.invalidate (iotlb : Iotlb) (purge : Purge) : Bool × Iotlb :=
  if purge.size = 0 ∨ isPowerOfTwo purge.size = false ∨ purge.iova &&& (purge.size - 1) ≠ 0 ∨
      uint64Max - (purge.size - 1) < purge.iova then (false, iotlb)
  else
    (true, sweep slotCount (fun current i =>
      ⟨Function.update current.slots i ((current.slots i).purged purge)⟩) iotlb)

/-- The page shift that TCNFG selects. -/
def decodeTcnfg (tcnfg : Word) : Option Nat :=
  if tcnfg = 0 then some 12
  else if tcnfg = 1 then some 13
  else if tcnfg = 2 then some 14
  else if tcnfg = 3 then some 16
  else none

/-- The window of addresses that are translated. -/
structure Window where
  base : Word
  mask : Word
  apertureSize : Word
  pdirIndexMask : Word
  pageShift : Nat
  enabled : Bool
deriving DecidableEq, Repr

/-- Decode the window registers. -/
def decodeWindow (ibase imask : Word) (pageShift : Nat) : Option Window :=
  if pageShift = 0 ∨ 64 ≤ pageShift then none
  else
    let base := ibase &&& ~~~(1 : Word)
    let mask := imask ||| 0xffffffff00000000
    let apertureSize := ~~~mask + 1
    let pageSize : Word := 1#64 <<< pageShift
    if apertureSize < pageSize ∨ isPowerOfTwo apertureSize = false ∨
      base &&& (apertureSize - 1) ≠ 0 ∨
        uint64Max - apertureSize < base then none
    else
      let pageCount := apertureSize >>> pageShift
      some ⟨base, mask, apertureSize, pageCount - 1, pageShift, ibase &&& 1 != 0⟩

/-- Whether an address is not translated. -/
def Window.iovaIsBypass (window : Window) (iova : Word) (dvi : Bool) : Bool :=
  !window.enabled || dvi || iova &&& window.mask != window.base

/-- The index of an address in the page directory. -/
def Window.pdirIndex (window : Window) (iova : Word) (dvi : Bool) : Option Word :=
  if window.iovaIsBypass iova dvi ∨ window.pageShift = 0 ∨ 64 ≤ window.pageShift then none
  else some ((iova - window.base) >>> window.pageShift &&& window.pdirIndexMask)

end Ia64.Iommu
