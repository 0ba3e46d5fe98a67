import Ia64.Lib.Sweep
import Ia64.Mmu.Entry

/-! State of the memory management unit, slot versions and flushes of the software TLB. -/

namespace Ia64.Mmu

/-- The data or the instruction TLB, with its lookup hints and its purge bookkeeping. -/
structure Tlb where
  entry : Nat → TlbEntry
  /-- One more than the highest slot in use. -/
  count : Nat
  /-- The slot at which the next circular replacement starts. -/
  replace : Nat
  /-- The number of entries waiting for a serialization to purge them. -/
  pending : Nat
  /-- Version of all hints together. -/
  generation : BitVec 32
  micro : Nat → MicroTlbEntry
  victim : Nat → MicroTlbEntry
  victimNext : Nat

/-- The TLB after reset. -/
def Tlb.reset : Tlb :=
  ⟨fun _ => .empty, 0, 0, 0, 0, fun _ => .empty, fun _ => .empty, 0⟩

section

variable (tlb : Tlb) (slot : Nat)

/-- Write one slot. -/
def Tlb.set (entry : TlbEntry) : Tlb :=
  { tlb with entry := Function.update tlb.entry slot entry }

@[simp] theorem Tlb.set_entry_self (entry : TlbEntry) :
    (tlb.set slot entry).entry slot = entry := by
  simp [Tlb.set]

theorem Tlb.set_entry_ne (tlb : Tlb) {slot other : Nat} (entry : TlbEntry) (apart : other ≠ slot) :
    (tlb.set slot entry).entry other = tlb.entry other := by
  simp [Tlb.set, apart]

@[simp] theorem Tlb.set_count (entry : TlbEntry) :
    (tlb.set slot entry).count = tlb.count := rfl

/-- Make every hint stale; when the version wraps, clear the hints instead. -/
def Tlb.bumpGeneration (tlb : Tlb) : Tlb :=
  if tlb.generation + 1 = 0 then
    { tlb with generation := 1, micro := fun _ => .empty, victim := fun _ => .empty }
  else { tlb with generation := tlb.generation + 1 }

/-- Make the hints of one slot stale; when its version wraps, make all of them stale. -/
def Tlb.bumpSlotGeneration : Tlb :=
  let entry := tlb.entry slot
  if entry.microGeneration + 1 = 0 then
    (tlb.set slot { entry with microGeneration := 1 }).bumpGeneration
  else tlb.set slot { entry with microGeneration := entry.microGeneration + 1 }

/-- Forget that a slot waits for a purge. -/
def Tlb.discardPendingPurge : Tlb :=
  let entry := tlb.entry slot
  if entry.pendingPurge then
    { tlb.set slot { entry with pendingPurge := false } with pending := tlb.pending - 1 }
  else tlb

end

/-- Drop unused slots from the end of the used range. -/
def trimmedCount (entry : Nat → TlbEntry) : Nat → Nat
  | 0 => 0
  | count + 1 => if !(entry count).valid then trimmedCount entry count else count + 1

/-- Drop unused slots from the end of the used range. -/
def Tlb.trim (tlb : Tlb) : Tlb := { tlb with count := trimmedCount tlb.entry tlb.count }

/-- A hint of the first-level data TLB. -/
structure Dtlb1Lookup where
  page : Word
  rid : BitVec 32
  slot : Nat
  valid : Bool
deriving DecidableEq, Repr

/-- The first-level data TLB of Merced: copies of entries of the main data TLB. -/
structure Dtlb1 where
  entry : Nat → TlbEntry
  age : Nat → Word
  clock : Word
  count : Nat
  lookup : Nat → Dtlb1Lookup

/-- The number of slots of the first-level data TLB. -/
def dtlb1Max : Nat := 32

/-- The empty first-level data TLB. -/
def Dtlb1.reset : Dtlb1 := ⟨fun _ => .empty, fun _ => 0, 0, 0, fun _ => ⟨0, 0, 0, false⟩⟩

/-- Page protection of a software TLB entry. -/
structure Prot where
  read : Bool
  write : Bool
  exec : Bool
deriving DecidableEq, Repr

/-- How freely a page may be referenced speculatively. -/
inductive MemorySpeculation where
  | speculative
  | limitedSpeculation
  | nonSpeculative
deriving DecidableEq, Repr

/-- A software TLB entry: where a page lies and which references it serves. -/
structure HostEntry where
  physAddr : Word
  prot : Prot
  speculation : MemorySpeculation
  memoryAttribute : Nat
deriving DecidableEq, Repr

/-- The software TLB, by MMU index and page address. -/
abbrev HostTlb := Nat → Word → Option HostEntry

/-- A protection key register remembered for a key. -/
structure KeyCacheEntry where
  pkr : Word
  key : BitVec 32
  valid : Bool
deriving DecidableEq, Repr

/-- Registers and surroundings that steer translation without being part of a TLB. -/
structure Control where
  psr : Word
  rsc : Word
  ifa : Word
  itir : Word
  iha : Word
  pta : Word
  iva : Word
  /-- The addresses the firmware image occupies. -/
  firmwareContains : Word → Bool
  /-- Guest memory as the walker reads it, eight bytes at a physical address. -/
  load : Word → Word
  /-- Whether a data breakpoint register matches a privileged read. -/
  breakpointMatch : Word → Nat → Bool

/-- The memory management unit of one processor. -/
structure State where
  model : CpuModel
  data : Tlb
  inst : Tlb
  l1 : Dtlb1
  rr : Nat → Word
  pkr : Nat → Word
  keyCache : Nat → KeyCacheEntry
  host : HostTlb
  control : Control
  /-- A change of PSR.ic that no serialization has completed yet. -/
  psrIcInflight : Bool
  /-- A change of PSR.i that no serialization has completed yet. -/
  psrIDeferred : Bool

/-- The unit after reset, with no firmware and zeroed memory around it. -/
def State.reset (model : CpuModel) : State :=
  { model := model, data := .reset, inst := .reset, l1 := .reset
    rr := fun _ => 0, pkr := fun _ => 0
    keyCache := fun _ => ⟨0, 0, false⟩, host := fun _ _ => none
    control := ⟨0, 0, 0, 0, 0, 0, 0, fun _ => false, fun _ => 0, fun _ _ => false⟩
    psrIcInflight := false, psrIDeferred := false }

/-- One of the two TLBs. -/
def State.tlb (mmu : State) (isData : Bool) : Tlb := if isData then mmu.data else mmu.inst

/-- Replace one of the two TLBs. -/
def State.setTlb (mmu : State) (isData : Bool) (tlb : Tlb) : State :=
  if isData then { mmu with data := tlb } else { mmu with inst := tlb }

section

variable (mmu : State) (isData : Bool) (tlb : Tlb)

@[simp] theorem State.setTlb_tlb :
    (mmu.setTlb isData tlb).tlb isData = tlb := by
  cases isData <;> rfl

@[simp] theorem State.setTlb_tlb_not :
    (mmu.setTlb isData tlb).tlb (!isData) = mmu.tlb (!isData) := by
  cases isData <;> rfl

@[simp] theorem State.setTlb_model :
    (mmu.setTlb isData tlb).model = mmu.model := by
  cases isData <;> rfl

@[simp] theorem State.setTlb_l1 :
    (mmu.setTlb isData tlb).l1 = mmu.l1 := by
  cases isData <;> rfl

@[simp] theorem State.setTlb_rr :
    (mmu.setTlb isData tlb).rr = mmu.rr := by
  cases isData <;> rfl

@[simp] theorem State.setTlb_host :
    (mmu.setTlb isData tlb).host = mmu.host := by
  cases isData <;> rfl

end

/-- Region identifier an address is translated under. -/
def State.regionRid (mmu : State) (va : Word) : BitVec 32 := rrRid (mmu.rr (rrIndex va))

/-- The MMU index of untranslated accesses. -/
def mmuPhysIdx : Nat := 0

/-- The MMU index of translated accesses at a privilege level. -/
def mmuIdxVirtCpl (cpl : Nat) : Nat := 1 + cpl

/-- The MMU index of translated register stack accesses. -/
def mmuIdxRse : Nat := 5

/-- Whether accesses with this index go through the modeled TLBs. -/
def translatedIdx (idx : Nat) : Bool := 1 ≤ idx && idx ≤ 5

/-- The page of the software TLB that an address lies in. -/
def targetPage (va : Word) : Word := va &&& ~~~(0xfff : Word)

/-- Remove the pages of a range from the software TLB, at the translated indices. -/
def HostTlb.flushRange (host : HostTlb) (start length : Word) : HostTlb :=
  fun idx page =>
    if translatedIdx idx && decide (page - start < length) then none else host idx page

/-- Remove from the software TLB what an entry may have filled, in every region that uses its
RID. -/
def State.qemuTlbFlushEntry (mmu : State) (entry : TlbEntry) : State :=
  if !entry.valid || entry.ps < 4096 then mmu
  else
    let base := vaPageBase entry.va entry.ps
    let flushRegion (host : HostTlb) (region : Nat) : HostTlb :=
      if rrRid (mmu.rr region) != entry.rid then host
      else host.flushRange ((BitVec.ofNat 64 region <<< 61) ||| base) entry.ps
    { mmu with host := Sweep.sweep 8 flushRegion mmu.host }

/-- Remove every page from the software TLB. -/
def State.tlbFlush (mmu : State) : State := { mmu with host := fun _ _ => none }

/-- Whether the processor has the first-level data TLB. -/
def State.dtlb1Enabled (mmu : State) : Bool := mmu.model == .merced

end Ia64.Mmu
