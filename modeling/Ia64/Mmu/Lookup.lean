import Ia64.Mmu.State

/-! Lookups: the first-level data TLB, the main TLBs and the hints in front of them. -/

namespace Ia64.Mmu

open Sweep Function

/-- The minimum page that a first-level hint is keyed by. -/
def dtlb1LookupPage (va : Word) : Word := va >>> 12

/-- The index of the first-level hint for a page. -/
def dtlb1LookupIndex (page : Word) (rid : BitVec 32) : Nat :=
  ((page ^^^ (page >>> 17) ^^^ rid.setWidth 64) &&& 63).toNat

/-- The first-level slot a hint leads to; a hint whose slot no longer matches is dropped. -/
def State.dtlb1Lookup (mmu : State) (va : Word) (rid : BitVec 32) : Option Nat × State :=
  let page := dtlb1LookupPage va
  let index := dtlb1LookupIndex page rid
  let hint := mmu.l1.lookup index
  if !hint.valid || hint.page != page || hint.rid != rid || decide (dtlb1Max ≤ hint.slot) then
    (none, mmu)
  else if !(mmu.l1.entry hint.slot).matches va rid then
    let dropped := update mmu.l1.lookup index { hint with valid := false }
    (none, { mmu with l1 := { mmu.l1 with lookup := dropped } })
  else (some hint.slot, mmu)

/-- Make a first-level slot the most recently used one. -/
def Dtlb1.stamp (l1 : Dtlb1) (slot : Nat) : Dtlb1 :=
  let rebased : Dtlb1 :=
    -- The clock is rebased before it would wrap.
    if l1.clock = uint64Max then
      { l1 with
        age := fun i =>
          if i < dtlb1Max then if (l1.entry i).valid then BitVec.ofNat 64 (i + 1)
            else 0 else l1.age i
        clock := BitVec.ofNat 64 dtlb1Max }
    else l1
  { rebased with
    age := update rebased.age slot (rebased.clock + 1)
    clock := rebased.clock + 1 }

/-- Leave a hint from a page to its first-level slot. -/
def Dtlb1.remember (l1 : Dtlb1) (va : Word) (rid : BitVec 32) (slot : Nat) : Dtlb1 :=
  let page := dtlb1LookupPage va
  { l1 with lookup := update l1.lookup (dtlb1LookupIndex page rid) ⟨page, rid, slot, true⟩ }

/-- Drop a first-level slot and what the software TLB took from it. -/
def State.dtlb1InvalidateSlot (mmu : State) (slot : Nat) : State :=
  let entry := mmu.l1.entry slot
  if !entry.valid then mmu
  else
    let flushed := mmu.qemuTlbFlushEntry entry
    { flushed with
      l1 :=
        { flushed.l1 with
          entry := update flushed.l1.entry slot { entry with valid := false }
          age := update flushed.l1.age slot 0
          count := flushed.l1.count - 1 } }

/-- Whether the first level holds a copy of an entry. -/
def State.dtlb1Contains (mmu : State) (entry : TlbEntry) : Bool :=
  mmu.dtlb1Enabled && entry.valid &&
    (firstSlot dtlb1Max fun i => (mmu.l1.entry i).equivalent entry).isSome

/-- Drop every first-level copy of an entry. -/
def State.dtlb1InvalidateCopy (mmu : State) (source : TlbEntry) : State :=
  if !mmu.dtlb1Enabled then mmu
  else
    sweep dtlb1Max (fun mmu i =>
      if (mmu.l1.entry i).equivalent source then mmu.dtlb1InvalidateSlot i else mmu) mmu

/-- Drop the first-level entries that meet a page, keeping translation registers if asked to. -/
def State.dtlb1PurgeRange (mmu : State) (va ps : Word) (rid : BitVec 32) (tcOnly : Bool) : State :=
  let start := vaPageBase va ps
  if !mmu.dtlb1Enabled then mmu
  else
    sweep dtlb1Max (fun mmu i =>
      if (!tcOnly || !(mmu.l1.entry i).isTr) && (mmu.l1.entry i).overlaps start ps rid then
        mmu.dtlb1InvalidateSlot i
      else mmu) mmu

/-- Progress of the scan for a first-level slot to hold a new copy. -/
structure Dtlb1Scan where
  mmu : State
  /-- The slot that already held a copy of the source, which ends the scan. -/
  held : Option Nat
  empty : Option Nat
  oldestAge : Word
  oldest : Nat

/-- Visit one first-level slot while looking for a place for a copy of an entry. -/
def Dtlb1Scan.visit (va : Word) (rid : BitVec 32) (source : TlbEntry) (scan : Dtlb1Scan) (i : Nat) :
    Dtlb1Scan :=
  if scan.held.isSome then scan
  else
    let entry := scan.mmu.l1.entry i
    if entry.matches va rid && entry.equivalent source then
      let l1 := scan.mmu.l1
      let refreshed : Dtlb1 := { l1 with entry := update l1.entry i source }
      { scan with
        mmu := { scan.mmu with l1 := (refreshed.remember va rid i).stamp i }
        held := some i }
    else
      let mmu := if entry.matches va rid then scan.mmu.dtlb1InvalidateSlot i else scan.mmu
      if !(mmu.l1.entry i).valid then { scan with mmu := mmu, empty := scan.empty <|> some i }
      else if mmu.l1.age i < scan.oldestAge then
        { scan with mmu := mmu, oldestAge := mmu.l1.age i, oldest := i }
      else { scan with mmu := mmu }

variable (mmu : State) (va : Word)

/-- Copy an entry of the main data TLB into the first level, replacing the oldest one if full. -/
def State.dtlb1Fill (rid : BitVec 32) (source : TlbEntry) : State :=
  let scan := sweep dtlb1Max (Dtlb1Scan.visit va rid source) ⟨mmu, none, none, uint64Max, 0⟩
  if scan.held.isSome then scan.mmu
  else
    let place := scan.empty.getD scan.oldest
    let mmu := if scan.empty.isSome then scan.mmu else scan.mmu.dtlb1InvalidateSlot place
    let l1 := mmu.l1
    let copied : Dtlb1 :=
      { l1 with entry := update l1.entry place source, count := l1.count + 1 }
    { mmu with l1 := (copied.remember va rid place).stamp place }

/-- Record a translated data reference in the first-level data TLB. -/
def State.dtlb1TouchOne : State :=
  let rid := mmu.regionRid va
  match mmu.dtlb1Lookup va rid with
  | (some slot, mmu) => { mmu with l1 := mmu.l1.stamp slot }
  | (none, mmu) =>
    let held :=
      if mmu.l1.count = 0 then none else firstSlot dtlb1Max fun i => (mmu.l1.entry i).matches va rid
    match held with
    | some i => { mmu with l1 := (mmu.l1.remember va rid i).stamp i }
    | none =>
      -- An entry that waits for its purge is not copied again.
      let source := firstSlot mmu.data.count fun i =>
        !(mmu.data.entry i).pendingPurge && (mmu.data.entry i).matches va rid
      match source with
      | some i => mmu.dtlb1Fill va rid (mmu.data.entry i)
      | none => mmu

/-- Record a translated data reference, which may touch two pages. -/
def State.dataAccess (size : Nat) (translated : Bool) : State :=
  if !mmu.dtlb1Enabled || !translated || size == 0 then mmu
  else
    let touched := mmu.dtlb1TouchOne va
    let last := va + BitVec.ofNat 64 size - 1
    if va ≤ last && targetPage (last ^^^ va) != 0 then touched.dtlb1TouchOne last else touched

/-- Leave a hint from an address to the slot that translates it, keeping the displaced hint. -/
def Tlb.remember (tlb : Tlb) (va : Word) (rid : BitVec 32) (slot : Nat) : Tlb :=
  let index := microTlbIndex va rid
  let cached := tlb.micro index
  let entry := tlb.entry slot
  let kept : Tlb :=
    if cached.valid && cached.generation == tlb.generation then
      { tlb with
        victim := update tlb.victim tlb.victimNext cached
        victimNext := (tlb.victimNext + 1) % 4 }
    else tlb
  { kept with
    micro := update kept.micro index
      ⟨entry.va, entry.pageMask, entry.pte, entry.rid, tlb.generation, entry.microGeneration, slot,
        true⟩ }

/-- The slot of a main TLB that translates an address: the first one that covers it. -/
def Tlb.scan (tlb : Tlb) (va : Word) (rid : BitVec 32) : Option Nat :=
  firstSlot tlb.count fun i => (tlb.entry i).covers va rid

/-- The full lookup: first-level copies first, then the main TLB. -/
def State.tlbFindSlow (rid : BitVec 32) (isIfetch : Bool) :
    Option TlbEntry × State :=
  let (cached, mmu) := if !isIfetch && mmu.dtlb1Enabled then mmu.dtlb1Lookup va rid else (none, mmu)
  let held :=
    match cached with
    | some slot => some slot
    | none =>
      if !isIfetch && mmu.dtlb1Enabled then
        firstSlot dtlb1Max fun i => (mmu.l1.entry i).matches va rid
      else none
  match held with
  | some slot => (some (mmu.l1.entry slot), mmu)
  | none =>
    let tlb := mmu.tlb !isIfetch
    match tlb.scan va rid with
    | some slot => (some (tlb.entry slot), mmu.setTlb (!isIfetch) (tlb.remember va rid slot))
    | none => (none, mmu)

/-- Whether a hint is current and leads an address to an unchanged slot. -/
def Tlb.hintHits (tlb : Tlb) (hint : MicroTlbEntry) (va : Word) (rid : BitVec 32) : Bool :=
  hint.valid && hint.generation == tlb.generation && hint.rid == rid &&
    (va ^^^ hint.va) &&& hint.pageMask == 0 && decide (hint.slot < tlb.count) &&
    hint.slotGeneration == (tlb.entry hint.slot).microGeneration

/-- The lookup through the hints: the direct one, then the displaced ones, then the full lookup. -/
def State.tlbFindCached (rid : BitVec 32) (isIfetch : Bool) :
    Option TlbEntry × State :=
  let tlb := mmu.tlb !isIfetch
  let index := microTlbIndex va rid
  let cached := tlb.micro index
  if tlb.hintHits cached va rid then (some (tlb.entry cached.slot), mmu)
  else
    match firstSlot 4 fun i => tlb.hintHits (tlb.victim i) va rid with
    | some i =>
      -- The displaced hint and the direct one change places.
      let swapped : Tlb :=
        { tlb with
          micro := update tlb.micro index (tlb.victim i)
          victim := update tlb.victim i cached }
      (some (tlb.entry (tlb.victim i).slot), mmu.setTlb (!isIfetch) swapped)
    | none => mmu.tlbFindSlow va rid isIfetch

end Ia64.Mmu
