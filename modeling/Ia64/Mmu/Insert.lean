import Ia64.Mmu.Lookup

/-! Insertion of translations: purge of overlapping cache entries, slot choice and replacement. -/

namespace Ia64.Mmu

open Sweep

/-- The exceptions that translation and TLB instructions raise. -/
inductive Excp where
  | none
  | vhptFault
  | itlbFault
  | dtlbFault
  | altItlb
  | altDtlb
  | dataNestedTlb
  | dataAccess
  | natConsumption
  | pageNotPresent
  | instAccess
  | dataDirty
  | instAccessBit
  | dataAccessBit
  | instKeyMiss
  | dataKeyMiss
  | keyPermission
  | unimplDataAddr
  | unimplInstAddr
  | reservedRegField
  | virtualization
deriving DecidableEq, Repr

/-- Reserved bits of an ITIR value. -/
def itirReservedMask : Word := 0xffffffff00000003

/-- Whether the page table entry and ITIR of an insertion have legal fields. -/
def State.translationInsertFieldsValid (mmu : State) (pte itir : Word) : Bool :=
  if !mmu.model.pageShiftInsertable (itirPs itir) then false
  else if !ptePresent pte then itir &&& (itirReservedMask &&& 3) == 0
  else
    pte &&& pteReservedMask == 0 && itir &&& itirReservedMask == 0 &&
      (pteMa pte == 0 || 4 ≤ pteMa pte)

/-- Whether the unimplemented bits of a virtual address copy its highest implemented bit. -/
def State.vaIsImplemented (mmu : State) (va : Word) : Bool :=
  let msb := mmu.model.cls.implVaMsb
  if 60 ≤ msb then true
  else
    let mask : Word := Pages.pageSize 64 (60 - msb) - 1
    (va >>> (msb + 1)) &&& mask == if va.getLsbD msb then mask else 0

/-- Whether TLB instructions are intercepted because a virtual machine runs. -/
def State.virtualizationFaults (mmu : State) : Bool :=
  mmu.model.cls.hasVirtualization && mmu.control.psr.getLsbD 46

/-- Remove from the software TLB what a replaced entry filled, unless a first-level copy lives
on. -/
def State.qemuTlbFlushReplacedEntry (mmu : State) (entry : TlbEntry) (isData : Bool) : State :=
  if !isData then mmu.qemuTlbFlushEntry entry
  else if entry.pendingPurge then (mmu.dtlb1InvalidateCopy entry).qemuTlbFlushEntry entry
  else if mmu.dtlb1Contains entry then mmu
  else mmu.qemuTlbFlushEntry entry

/-- Invalidate a slot: it no longer waits for a purge and its hints become stale. -/
def Tlb.retire (tlb : Tlb) (slot : Nat) : Tlb :=
  let tlb := tlb.discardPendingPurge slot
  (tlb.set slot { tlb.entry slot with valid := false }).bumpSlotGeneration slot

/-- Fill a slot; its version moves on from the one it had. -/
def Tlb.place (tlb : Tlb) (slot : Nat) (entry : TlbEntry) : Tlb :=
  let written := tlb.set slot { entry with microGeneration := (tlb.entry slot).microGeneration }
  let counted : Tlb := { written with count := if tlb.count ≤ slot then slot + 1 else tlb.count }
  counted.bumpSlotGeneration slot

/-- The first translation cache entry from a slot on, going around the table once. -/
def circularTcVictim (entry : Nat → TlbEntry) (capacity : Nat) : Nat → Nat → Option Nat
  | 0, _ => none
  | n + 1, i =>
    if (entry i).isTc then some i
    else circularTcVictim entry capacity n (if i + 1 = capacity then 0 else i + 1)

/-- Purge one slot if it holds a cache entry that meets the page, noting the first unused slot. -/
def State.purgeTcVisit (isData : Bool) (start ps : Word) (rid : BitVec 32)
    (progress : State × Option Nat) (i : Nat) : State × Option Nat :=
  let (mmu, empty) := progress
  let entry := (mmu.tlb isData).entry i
  if !entry.valid then (mmu, empty <|> some i)
  else if entry.rid != rid || entry.isTr then (mmu, empty)
  else if entry.overlaps start ps rid then
    let flushed := mmu.qemuTlbFlushEntry entry
    (flushed.setTlb isData ((flushed.tlb isData).retire i), empty <|> some i)
  else (mmu, empty)

variable (mmu : State) (isData : Bool)

/-- Purge the cache entries that meet a page and report the first unused slot in the used range. -/
def State.purgeTcEntries (va ps : Word) (rid : BitVec 32) :
    State × Option Nat :=
  let start := vaPageBase va ps
  let mmu := if isData then mmu.dtlb1PurgeRange start ps rid true else mmu
  let (mmu, empty) :=
    sweep (mmu.tlb isData).count (State.purgeTcVisit isData start ps rid) (mmu, none)
  (mmu.setTlb isData (mmu.tlb isData).trim, empty)

/-- The slot for a new cache entry after the purge, and the advance of circular replacement. -/
def State.insertSlot (empty : Option Nat) : Option Nat × State :=
  let capacity := mmu.model.tlbCapacity isData
  let tlb := mmu.tlb isData
  let unused := empty <|> if tlb.count < capacity then some tlb.count else none
  match unused <|> circularTcVictim tlb.entry capacity capacity tlb.replace with
  | some slot =>
    let next := slot + 1
    (some slot, mmu.setTlb isData { tlb with replace := if next = capacity then 0 else next })
  | none => (none, mmu)

/-- The slot for the copy of a replaced translation register. -/
def Tlb.selectTcSlot (tlb : Tlb) (capacity : Nat) (va : Word) (rid : BitVec 32) :
    Option Nat × Tlb :=
  -- A cache entry of the same base is reused; otherwise an unused slot is preferred.
  match firstSlot capacity fun i =>
      (tlb.entry i).isTc && (tlb.entry i).va == va && (tlb.entry i).rid == rid with
  | some i => (some i, tlb)
  | none =>
    match (firstSlot capacity fun i => !(tlb.entry i).valid) <|>
        circularTcVictim tlb.entry capacity capacity tlb.replace with
    | some slot => (some slot, { tlb with replace := (slot + 1) % capacity })
    | none => (none, tlb)

/-- Keep a replaced translation register as a cache entry; tells whether it was kept. -/
def State.cacheReplacedTr (oldTr : TlbEntry) : Bool × State :=
  if !oldTr.valid || !oldTr.isTr then (false, mmu)
  else
    match (mmu.tlb isData).selectTcSlot (mmu.model.tlbCapacity isData) oldTr.va oldTr.rid with
    | (none, tlb) => (false, mmu.setTlb isData tlb)
    | (some slot, tlb) =>
      let flushed := (mmu.setTlb isData tlb).qemuTlbFlushReplacedEntry (tlb.entry slot) isData
      let discarded := (flushed.tlb isData).discardPendingPurge slot
      let copy := { oldTr with isTr := false, slot := slot }
      (true, flushed.setTlb isData (discarded.place slot copy))

/-- The fields of a new entry, before it is given a slot. -/
def TlbEntry.make (va pa ps pte : Word) (perm : Perm) (rid key : BitVec 32) : TlbEntry :=
  { va := va, pa := pa, ps := ps, pte := pte, perm := perm, ar := pteAr pte, pl := ptePl pte,
    valid := true, isTr := false, pendingPurge := false, rid := rid, key := key, slot := 0,
    microGeneration := 0 }

/-- A new translation register. -/
def State.itrInsert (mmu : State) (pte slotReg : Word) (isData : Bool) : Except Excp State :=
  let slot := (slotReg &&& 0xff).toNat
  let itir := mmu.control.itir
  let ifa := mmu.control.ifa
  let ps := pageSizeFromShift (itirPs itir)
  let va := ifa &&& ~~~(ps - 1)
  let pa := (pte &&& ptePpnMask) &&& ~~~(ps - 1)
  let perm := ptePerm pte 0
  let rid := mmu.regionRid ifa
  if mmu.model.trCount isData ≤ slot then .error .reservedRegField
  else if !mmu.translationInsertFieldsValid pte itir then .error .reservedRegField
  else if !mmu.vaIsImplemented ifa then .error .unimplDataAddr
  else if mmu.virtualizationFaults then .error .virtualization
  else if ptePresent pte && perm == .none then .ok mmu
  else
    let oldTr := (mmu.tlb isData).entry slot
    let (mmu, _) := mmu.purgeTcEntries isData va ps rid
    let mmu := if oldTr.valid && !oldTr.isTr then mmu.qemuTlbFlushEntry oldTr else mmu
    let (cachedOldTr, mmu) := mmu.cacheReplacedTr isData oldTr
    let mmu := if isData then mmu.dtlb1InvalidateCopy oldTr else mmu
    let tlb := if cachedOldTr then mmu.tlb isData else (mmu.tlb isData).discardPendingPurge slot
    let entry :=
      { TlbEntry.make va pa ps pte perm rid (itirKey itir) with isTr := true, slot := slot }
    let placed := mmu.setTlb isData (tlb.place slot entry)
    .ok ((placed.qemuTlbFlushEntry oldTr).qemuTlbFlushEntry entry)

/-- Insert a cache entry; nothing is inserted when every slot holds a translation register. -/
def State.insertTc (entry : TlbEntry) : Option TlbEntry × State :=
  let (mmu, empty) := mmu.purgeTcEntries isData entry.va entry.ps entry.rid
  match mmu.insertSlot isData empty with
  | (none, mmu) => (none, mmu)
  | (some slot, mmu) =>
    let flushed := mmu.qemuTlbFlushReplacedEntry ((mmu.tlb isData).entry slot) isData
    let discarded := (flushed.tlb isData).discardPendingPurge slot
    let placed := { entry with slot := slot }
    let mmu := flushed.setTlb isData (discarded.place slot placed)
    (some ((mmu.tlb isData).entry slot), mmu.qemuTlbFlushEntry placed)

/-- A new translation cache entry made by software. -/
def State.itcInsert (mmu : State) (pte : Word) (isData : Bool) : Except Excp State :=
  let itir := mmu.control.itir
  let ifa := mmu.control.ifa
  let ps := pageSizeFromShift (itirPs itir)
  let perm := ptePerm pte 0
  if !mmu.translationInsertFieldsValid pte itir then .error .reservedRegField
  else if !mmu.vaIsImplemented ifa then .error .unimplDataAddr
  else if mmu.virtualizationFaults then .error .virtualization
  else if ptePresent pte && perm == .none then .ok mmu
  else
    let va := ifa &&& ~~~(ps - 1)
    let pa := (pte &&& ptePpnMask) &&& ~~~(ps - 1)
    let entry := TlbEntry.make va pa ps pte perm (mmu.regionRid ifa) (itirKey itir)
    .ok (mmu.insertTc isData entry).2

/-- A new translation cache entry made by the walker. -/
def State.vhptInstallTc (mmu : State) (va : Word) (rid : BitVec 32) (isIfetch : Bool)
    (pa pageSize : Word) (perm : Perm) (key : BitVec 32) (pte : Word) : Option TlbEntry × State :=
  let baseVa := va &&& ~~~(pageSize - 1)
  let basePa := pa &&& ~~~(pageSize - 1)
  mmu.insertTc (!isIfetch) (TlbEntry.make baseVa basePa pageSize pte perm rid key)

end Ia64.Mmu
