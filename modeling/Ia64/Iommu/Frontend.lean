import Ia64.Iommu.Cache

/-! The front end of the I/O MMU: registers, translation and replacement. -/

namespace Ia64.Iommu

open Pages Sweep

/-- The registers of the front end. -/
inductive Register where
  | ibase
  | imask
  | pcom
  | tcnfg
  | pdirBase
deriving DecidableEq, Repr

/-- The register at an offset. -/
def regPtr (offset : Word) : Option Register :=
  if offset = 0x300 then some .ibase
  else if offset = 0x308 then some .imask
  else if offset = 0x310 then some .pcom
  else if offset = 0x318 then some .tcnfg
  else if offset = 0x320 then some .pdirBase
  else none

/-- The front end: register latches, cache and replacement cursor. -/
structure Frontend where
  register : Register → Word
  iotlb : Iotlb
  /-- The slot that the next replacement overwrites. -/
  rrNext : Nat

/-- The front end after reset. -/
def Frontend.reset (config : Register → Word) : Frontend := ⟨config, .clear, 0⟩

/-- Replace the enabled bytes of a register. -/
def mergeBytes (oldValue value : Word) (byteEnable : BitVec 8) : Word :=
  sweep 8 (fun current lane =>
    if byteEnable.getLsbD lane then
      let mask : Word := (0xff : Word) <<< (lane * 8)
      (current &&& ~~~mask) ||| (value &&& mask)
    else current) oldValue

variable (iommu : Frontend)

/-- Write a register; a purge command is carried out at once. -/
def Frontend.regWrite (offset value : Word) (byteEnable : BitVec 8) :
    Option (Option Purge × Frontend) :=
  match regPtr offset with
  | none => none
  | some reg =>
    let latched := { iommu with
      register :=
        Function.update iommu.register reg (mergeBytes (iommu.register reg) value byteEnable) }
    -- Only the low half of the command register issues a command.
    if reg = .pcom ∧ byteEnable &&& 0x0f ≠ 0 then
      match decodeTcnfg (latched.register .tcnfg) with
      | none => some (none, latched)
      | some pageShift =>
        match decodePcom (latched.register .pcom) pageShift with
        | none => some (none, latched)
        | some purge =>
          some (some purge, { latched with iotlb := (latched.iotlb.invalidate purge).2 })
    else some (none, latched)

/-- The page that maps an address to itself. -/
def identityEntry (iova : Word) (pageShift : Nat) : Entry :=
  let pageMask : Word := (1#64 <<< pageShift) - 1
  let pageBase := iova &&& ~~~pageMask
  ⟨pageBase, pageBase, pageMask⟩

/-- The address of a page directory entry; the whole directory has to be addressable. -/
def Frontend.pdirAddress (window : Window) (index : Word) : Option Word :=
  let base := iommu.register .pdirBase
  if base &&& 7 ≠ 0 ∨ physMask - 7 < base then none
  else
    let maxPdirIndex := (physMask - 7 - base) / 8
    if maxPdirIndex < window.pdirIndexMask ∨ window.pdirIndexMask < index then none
    else some (base + index * 8)

/-- The slot to fill, with the range that is given up for it. -/
def Frontend.selectFillSlot : Option (Nat × Option Purge) :=
  match firstSlot slotCount fun i => !(iommu.iotlb.slots i).valid with
  | some slot => some (slot, none)
  | none =>
    if slotCount ≤ iommu.rrNext then none
    else
      let entry := (iommu.iotlb.slots iommu.rrNext).entry
      some (iommu.rrNext, some ⟨entry.iova, entry.addrMask + 1⟩)

/-- Why a translation is refused. -/
inductive FaultReason where
  | addressWidth
  | pageSize
  | window
  | pdirRange
  | pdirRead
  | invalidPte
  | cache
deriving DecidableEq, Repr

/-- The report of a refused translation. -/
structure Fault where
  reason : FaultReason
  iova : Word
  pdirAddress : Word
  pte : Word
deriving DecidableEq, Repr

/-- The result of a translation. -/
inductive Outcome where
  | blocked (fault : Fault)
  | identity (entry : Entry)
  | translated (entry : Entry) (eviction : Option Purge)
deriving DecidableEq, Repr

/-- How an address is treated before the page directory is read. -/
inductive Route where
  | blocked (fault : Fault)
  | identity (entry : Entry)
  | cached (slot : Nat)
  | walk (pageShift : Nat) (pdirAddress : Word)
deriving DecidableEq, Repr

/-- The treatment of an address inside the window. -/
def Frontend.routeInside (window : Window) (iova : Word) : Route :=
  match iommu.iotlb.lookupSlot iova with
  | some slot => .cached slot
  | none =>
    match (window.pdirIndex iova false).bind (iommu.pdirAddress window) with
    | none => .blocked ⟨.pdirRange, iova, 0, 0⟩
    | some address => .walk window.pageShift address

/-- The checks of a translation, in the order of the source. -/
def Frontend.route (iova : Word) (dvi : Bool) : Route :=
  let pageShift := decodeTcnfg (iommu.register .tcnfg)
  if physMask < iova then .blocked ⟨.addressWidth, iova, 0, 0⟩
  else if dvi || iommu.register .ibase &&& 1 == 0 then
    -- An invalid page size falls back to the smallest one.
    .identity (identityEntry iova (pageShift.getD 12))
  else
    match pageShift with
    | none => .blocked ⟨.pageSize, iova, 0, 0⟩
    | some shift =>
      match decodeWindow (iommu.register .ibase) (iommu.register .imask) shift with
      | none => .blocked ⟨.window, iova, 0, 0⟩
      | some window =>
        if window.iovaIsBypass iova false then .identity (identityEntry iova shift)
        else iommu.routeInside window iova

/-- Whether a page directory entry may be used. -/
def pteUsable (pte : Word) : Bool :=
  pte &&& iopdirValidBit != 0 && pte &&& ~~~(iopdirValidBit ||| physMask) == 0

/-- The page that a page directory entry maps an address to. -/
def pdirEntry (iova : Word) (pageShift : Nat) (pte : Word) : Entry :=
  let pageMask : Word := (1#64 <<< pageShift) - 1
  ⟨iova &&& ~~~pageMask, (pte &&& physMask) &&& ~~~pageMask, pageMask⟩

/-- Put a translation into the cache. -/
def Frontend.fill (entry : Entry) (fault : Fault) : Outcome × Frontend :=
  match iommu.selectFillSlot with
  | none => (.blocked fault, iommu)
  | some (slot, eviction) =>
    match iommu.iotlb.storeSlot slot entry with
    | none => (.blocked fault, iommu)
    | some iotlb =>
      let rrNext := if eviction.isSome then (iommu.rrNext + 1) % slotCount else iommu.rrNext
      (.translated entry eviction, { iommu with iotlb := iotlb, rrNext := rrNext })

/-- Translate an address; the page directory is read from memory as it is at this moment. -/
def Frontend.translateEx (iova : Word) (dvi : Bool) (pdirRead : Word → Option Word) :
    Outcome × Frontend :=
  match iommu.route iova dvi with
  | .blocked fault => (.blocked fault, iommu)
  | .identity entry => (.identity entry, iommu)
  | .cached slot => (.translated (iommu.iotlb.slots slot).entry none, iommu)
  | .walk pageShift address =>
    match pdirRead address with
    | none => (.blocked ⟨.pdirRead, iova, address, 0⟩, iommu)
    | some pte =>
      if pteUsable pte then iommu.fill (pdirEntry iova pageShift pte) ⟨.cache, iova, address, pte⟩
      else (.blocked ⟨.invalidPte, iova, address, pte⟩, iommu)

end Ia64.Iommu
