import Ia64.Mmu.Insert

/-! Purges: marking entries, completing the purge at a serialization, and remote purges. -/

namespace Ia64.Mmu

open Sweep

/-- Mark a slot as waiting for its purge. -/
def Tlb.markPendingPurge (tlb : Tlb) (slot : Nat) : Tlb :=
  let entry := tlb.entry slot
  if entry.pendingPurge then tlb
  else { tlb.set slot { entry with pendingPurge := true } with pending := tlb.pending + 1 }

/-- Mark the entries that meet a page, keeping translation registers if asked to. -/
def Tlb.markPendingPurgeEntries (tlb : Tlb) (va ps : Word) (rid : BitVec 32)
    (tcOnly : Bool) : Tlb :=
  let start := vaPageBase va ps
  sweep tlb.count (fun tlb i =>
    if (!tcOnly || !(tlb.entry i).isTr) && (tlb.entry i).overlaps start ps rid then
      tlb.markPendingPurge i
    else tlb) tlb

/-- Mark every translation cache entry. -/
def Tlb.markPendingPurgeAllTc (tlb : Tlb) : Tlb :=
  sweep tlb.count (fun tlb i => if (tlb.entry i).isTc then tlb.markPendingPurge i else tlb) tlb

variable (mmu : State)

/-- Mark every translation cache entry of both TLBs and empty the first-level data TLB. -/
def State.markPendingPurgeAllTcEnv : State :=
  let marked : State := { mmu with data := mmu.data.markPendingPurgeAllTc }
  let emptied :=
    if marked.dtlb1Enabled then sweep dtlb1Max State.dtlb1InvalidateSlot marked else marked
  { emptied with inst := emptied.inst.markPendingPurgeAllTc }

/-- Purge one slot if it waits for its purge. -/
def State.completeVisit (isIfetch targeted : Bool) (mmu : State) (i : Nat) : State :=
  let entry := (mmu.tlb !isIfetch).entry i
  if entry.valid && entry.pendingPurge then
    let dropped := if !isIfetch then mmu.dtlb1InvalidateCopy entry else mmu
    let flushed := if targeted then dropped.qemuTlbFlushEntry entry else dropped
    flushed.setTlb (!isIfetch) ((flushed.tlb !isIfetch).retire i)
  else mmu

/-- Purge every slot that waits for its purge. -/
def State.completePendingPurges (isIfetch targeted : Bool) : State :=
  let purged := sweep (mmu.tlb !isIfetch).count (State.completeVisit isIfetch targeted) mmu
  purged.setTlb (!isIfetch) (purged.tlb !isIfetch).trim

/-- Whether a completion purges at least one slot. -/
def Tlb.anyPending (tlb : Tlb) : Bool :=
  (firstSlot tlb.count fun i => (tlb.entry i).valid && (tlb.entry i).pendingPurge).isSome

/-- Serialization: purges take effect, one flush per entry when there are few of them. -/
def State.tlbSerialize (serializeData serializeInst : Bool) : State :=
  let pending :=
    (if serializeData then mmu.data.pending else 0) + if serializeInst then mmu.inst.pending else 0
  let targeted := decide (pending ≤ 8)
  let mmu :=
    if serializeData then { mmu with psrIcInflight := false, psrIDeferred := false } else mmu
  let completesData := serializeData && mmu.data.pending != 0
  let dataPurged := completesData && mmu.data.anyPending
  let mmu := if completesData then mmu.completePendingPurges false targeted else mmu
  let completesInst := serializeInst && mmu.inst.pending != 0
  let instPurged := completesInst && mmu.inst.anyPending
  let mmu := if completesInst then mmu.completePendingPurges true targeted else mmu
  if !targeted && (dataPurged || instPurged) then mmu.tlbFlush else mmu

/-- Purge of translation registers and cache entries of one TLB. -/
def State.ptrPurge (ifa sizeReg : Word) (isData : Bool) : Except Excp State :=
  let ps := pageSizeFromShift (itirPs sizeReg)
  let va := ifa &&& ~~~(ps - 1)
  let rid := mmu.regionRid ifa
  if !mmu.vaIsImplemented ifa then .error .unimplDataAddr
  else if mmu.virtualizationFaults then .error .virtualization
  else
    let marked := mmu.setTlb isData ((mmu.tlb isData).markPendingPurgeEntries va ps rid false)
    .ok (if isData then marked.dtlb1PurgeRange va ps rid false else marked)

/-- Mark the cache entries of both TLBs that meet a page. -/
def State.ptcMark (va ps : Word) (rid : BitVec 32) : State :=
  let purged := mmu.dtlb1PurgeRange va ps rid true
  { purged with
    data := purged.data.markPendingPurgeEntries va ps rid true
    inst := purged.inst.markPendingPurgeEntries va ps rid true }

/-- A global purge on one processor; on a remote one it completes at once. -/
def State.ptcMarkGlobal (va ps : Word) (rid : BitVec 32) (complete : Bool) : State :=
  let marked := mmu.ptcMark va ps rid
  if complete then marked.tlbSerialize true true else marked

/-- The forms of the cache purge instruction. -/
inductive PtcMode where
  | local
  | global
  | everything
  | globalAlat
deriving DecidableEq, Repr

/-- Purge of cache entries, on the processor that issues it. -/
def State.ptcPurge (va sizeReg : Word) (mode : PtcMode) : Except Excp State :=
  let ps := pageSizeFromShift (itirPs sizeReg)
  let rid := mmu.regionRid va
  if mode != .everything && !mmu.vaIsImplemented va then .error .unimplDataAddr
  else if mmu.virtualizationFaults then .error .virtualization
  else
    match mode with
    | .global | .globalAlat => .ok (mmu.ptcMarkGlobal (va &&& ~~~(ps - 1)) ps rid false)
    | .everything => .ok mmu.markPendingPurgeAllTcEnv
    | .local => .ok (mmu.ptcMark va ps rid)

/-- The work a global purge queues on another processor, given the issuer's address and RID. -/
def State.ptcGlobalRemoteWork (va sizeReg : Word) (rid : BitVec 32) : State :=
  let ps := pageSizeFromShift (itirPs sizeReg)
  mmu.ptcMarkGlobal (va &&& ~~~(ps - 1)) ps rid true

/-- Purge of every cache entry outside of the instruction stream. -/
def State.invalidateTc : State :=
  let purged := mmu.markPendingPurgeAllTcEnv.tlbSerialize true true
  -- Replacement of cache entries is no serialization of PSR.ic.
  { purged with psrIcInflight := mmu.psrIcInflight }

end Ia64.Mmu
