import Ia64.Mmu.Fault

/-! The hashed page table walker. -/

namespace Ia64.Mmu

variable (mmu : State) (va : Word)

/-- The firmware image maps itself at the most privileged level while its own vectors are
installed. -/
def State.firmwareIdentityPa : Option Word :=
  let control := mmu.control
  if psrCpl control.psr == 0 && (control.iva == 0 || control.iva == 0x10000) &&
      control.firmwareContains va then
    some va
  else none

/-- Size and format of the page table, if they are legal. -/
def State.vhptConfigValid (mmu : State) : Option (Nat × Bool) :=
  let pta := mmu.control.pta
  let size := (pta.extractLsb' 2 6).toNat
  let longFormat := pta.getLsbD 8
  if size < 15 || decide ((if longFormat then 61 else 52) < size) then none
    else some (size, longFormat)

/-- Size and format of the page table, if the walker may answer a reference to an address. -/
def State.vhptWalkerEnabled (isIfetch isRse : Bool) : Option (Nat × Bool) :=
  let psr := mmu.control.psr
  if !mmu.control.pta.getLsbD 0 then none
  else
    match mmu.vhptConfigValid with
    | none => none
    | some config =>
      if !(mmu.rr (rrIndex va)).getLsbD 0 then none
      else if !psrDt psr || (isRse && !psrRt psr) then none
      else if isIfetch && !(psrIt psr && psrIc psr) then none
      else some config

variable (implVaMsb : Nat)

/-- The implemented bits of an address below its region. -/
def implementedVaPayload (va : Word) : Word :=
  va &&& (Pages.pageSize 64 (implVaMsb + 1) - 1)

/-- The page shift that a region register prefers. -/
def preferredPs (rr : Word) : Nat := if itirPs rr < 12 then 12 else itirPs rr

/-- The page shift a region prefers. -/
def State.regionPreferredPs : Nat := preferredPs (mmu.rr (rrIndex va))

/-- Whether the preferred page shift can be inserted. -/
def State.vhptPreferredPageSizeSupported : Bool :=
  mmu.model.pageShiftInsertable (itirPs (mmu.rr (rrIndex va)))

/-- The page number that is hashed, for any number of implemented address bits. -/
def hpn (rr va : Word) : Word :=
  implementedVaPayload implVaMsb va >>> preferredPs rr

/-- The page number that the processor hashes. -/
def State.vhptHpn : Word := hpn mmu.model.cls.implVaMsb (mmu.rr (rrIndex va)) va

/-- The tag of a long-format entry, for any number of implemented address bits. -/
def longTag (rr va : Word) : Word :=
  hpn implVaMsb rr va ^^^ ((rrRid rr).setWidth 64 <<< 39)

/-- The tag of the processor's long-format entry. -/
def State.vhptLongTag : Word :=
  longTag mmu.model.cls.implVaMsb (mmu.rr (rrIndex va)) va

/-- The address of a short-format entry. -/
def State.vhptShortHashAddress (size : Nat) : Word :=
  let region := va &&& ~~~region7PhysMask
  let offset := mmu.vhptHpn va <<< 3
  let mask := Pages.pageSize 64 size - 1
  let base := mmu.control.pta &&& (region7PhysMask &&& ~~~(0x7fff : Word))
  region ||| ((base &&& ~~~mask) ||| (offset &&& mask))

/-- The address of a long-format entry, for any number of implemented address bits. -/
def longHashAddress (pta rr va : Word) (size : Nat) : Word :=
  let base := pta &&& ~~~(0x7fff : Word)
  let entries := Pages.pageSize 64 (size - 5)
  let hash := (hpn implVaMsb rr va ^^^ (rrRid rr).setWidth 64) &&& (entries - 1)
  let mask := Pages.pageSize 64 size - 1
  (base &&& ~~~mask) ||| ((hash <<< 5) &&& mask)

/-- The address of the processor's long-format entry. -/
def State.vhptLongHashAddress (size : Nat) : Word :=
  longHashAddress mmu.model.cls.implVaMsb mmu.control.pta (mmu.rr (rrIndex va)) va size

/-- The hash address software sees. -/
def State.vhptHashAddress : Word :=
  match mmu.vhptConfigValid with
  | none => va
  | some (size, longFormat) =>
    if longFormat then mmu.vhptLongHashAddress va size else mmu.vhptShortHashAddress va size

/-- What becomes of the walker's own reference to the page table. -/
inductive VhptEntryStatus where
  | translated (pa : Word)
  | tlbMiss
  | abort
deriving DecidableEq, Repr

/-- Translate the walker's reference to the page table, at the most privileged level. -/
def State.vhptEntryPhys (mmu : State) (entryVa : Word) : VhptEntryStatus × State :=
  match mmu.firmwareIdentityPa entryVa with
  | some pa => (.translated pa, mmu)
  | none =>
    match mmu.tlbFindCached entryVa (mmu.regionRid entryVa) false with
    | (none, mmu) => (.tlbMiss, mmu)
    | (some entry, mmu) =>
      -- A translation that waits for its purge must not bring in new ones.
      if entry.pendingPurge then (.tlbMiss, mmu)
      else
        let (excp, mmu) :=
          mmu.tlbExceptionForAccess entry (entry.permAt 0) Access.load.needed false false false
        if excp == .none && pteMa entry.pte == 0 then (.translated (entry.physOf entryVa), mmu)
        else (.abort, mmu)

/-- Whether a data breakpoint stops the walker's reference. -/
def State.vhptDataBreakpointMatch (mmu : State) (address : Word) (size : Nat) : Bool :=
  let psr := mmu.control.psr
  psr.getLsbD 24 && !psr.getLsbD 39 && mmu.control.breakpointMatch address size

/-- Whether a page table entry read by the walker has legal fields. -/
def vhptPteValid (pte : Word) : Bool :=
  !ptePresent pte || (pte &&& pteReservedMask == 0 && (pteMa pte == 0 || 4 ≤ pteMa pte))

/-- Whether the ITIR word of a long-format entry has legal fields. -/
def State.vhptItirValid (mmu : State) (pte itir : Word) : Bool :=
  let reserved := if !ptePresent pte then itirReservedMask &&& 3 else itirReservedMask
  itir &&& reserved == 0 && mmu.model.pageShiftInsertable (itirPs itir)

/-- What a successful walk reports. -/
structure WalkResult where
  pa : Word
  perm : Perm
  pte : Word
  key : BitVec 32
  entry : Option TlbEntry

/-- Install a translation the walker has read. -/
def State.vhptInstall (rid : BitVec 32) (isIfetch : Bool) (level shift : Nat)
    (key : BitVec 32) (pte : Word) : WalkResult × State :=
  let pageSize := Pages.pageSize 64 shift
  let pa := ((pte &&& ptePpnMask) &&& ~~~(pageSize - 1)) ||| (va &&& (pageSize - 1))
  let perm := ptePerm pte level
  let (entry, mmu) := mmu.vhptInstallTc va rid isIfetch pa pageSize perm key pte
  (⟨pa, perm, pte, key, entry⟩, mmu)

/-- Walk the page table for an address and install what it holds. -/
def State.vhptWalkFull (rid : BitVec 32) (isIfetch isRse : Bool)
    (level : Nat) : Option WalkResult × State :=
  match mmu.vhptWalkerEnabled va isIfetch isRse with
  | none => (none, mmu)
  | some (size, longFormat) =>
    if !mmu.vhptPreferredPageSizeSupported va then (none, mmu)
    else
      let entryVa :=
        if longFormat then mmu.vhptLongHashAddress va size else mmu.vhptShortHashAddress va size
      match mmu.vhptEntryPhys entryVa with
      | (.tlbMiss, mmu) | (.abort, mmu) => (none, mmu)
      | (.translated entryPa, mmu) =>
        if mmu.vhptDataBreakpointMatch entryVa (if longFormat then 32 else 8) then (none, mmu)
        else
          let pte := mmu.control.load entryPa
          if !longFormat then
            if !vhptPteValid pte then (none, mmu)
            else
              let shift := mmu.regionPreferredPs va
              let (result, mmu) := mmu.vhptInstall va rid isIfetch level shift rid pte
              (some result, mmu)
          else
            let itir := mmu.control.load (entryPa + 8)
            let tag := mmu.control.load (entryPa + 16)
            if tag.getLsbD 63 || tag != mmu.vhptLongTag va then (none, mmu)
            else if !vhptPteValid pte || !mmu.vhptItirValid pte itir then (none, mmu)
            else
              let (result, mmu) :=
                mmu.vhptInstall va rid isIfetch level (itirPs itir) (itirKey itir) pte
              (some result, mmu)

end Ia64.Mmu
