import Ia64.Lib.Atomic
import Ia64.Lib.BitSets
import Ia64.Mmu.State

/-! The advanced load address table and the generations that tell it of stores made elsewhere. -/

namespace Ia64.Alat

open Atomic BitSets Function

/-- The number of entries. -/
def alatEntries : Nat := 32

/-- The number of general registers, and of floating-point registers. -/
def grCount : Nat := 128

/-- An advanced load that is tracked: its physical range and its target register. -/
structure Entry where
  physAddr : Word
  size : Nat
  reg : Nat
  fp : Bool
  valid : Bool
deriving DecidableEq, Repr

/-- An entry of zeros. -/
def Entry.empty : Entry := ⟨0, 0, 0, false, false⟩

/-- The table of one processor with its derived indexes and its store scope. -/
structure Table where
  entry : Nat → Entry
  activeCount : Nat
  /-- One more than the slot of a register, or zero. -/
  regSlot : Bool → Nat → Nat
  occupied : BitVec 32
  /-- Whether the full model is in use. -/
  full : Bool
  writeActive : Bool
  writeObserved : Bool
  writeGeneration : Word
  memoryWriteGeneration : Word

/-- The table after reset. -/
def Table.reset (full : Bool) : Table :=
  ⟨fun _ => .empty, 0, fun _ _ => 0, 0, full, false, false, 0, 0⟩

/-- The atomic accesses to what processors and devices share. -/
inductive Action where
  | sequence (cpu : Nat)
  | publish (cpu : Nat) (value : Word)
  | generation
  | advanceGeneration
  | writers
  | enterWriter
  | leaveWriter
  | readRam (bytes : List Word)
  | writeRam (bytes : List Word)

/-- What an access returns. -/
def Action.Answer : Action → Type
  -- The contents of RAM are left out, only which bytes are accessed and when.
  | sequence _ | generation | advanceGeneration => Word
  | writers => Nat
  | publish _ _ | enterWriter | leaveWriter | readRam _ | writeRam _ => Unit

/-- A computation of one processor. -/
abbrev Run (α : Type) := Prog Action Action.Answer α

/-- Read a processor's store sequence. -/
def readSequence (cpu : Nat) : Run Word := Prog.act (Action.sequence cpu)

/-- Write a processor's store sequence. -/
def publishSequence (cpu : Nat) (value : Word) : Run Unit := Prog.act (Action.publish cpu value)

/-- The generation of the stores that devices made. -/
def physicalMemoryWriteGeneration : Run Word := Prog.act Action.generation

/-- Advance the generation of the stores that devices made. -/
def physicalMemoryWriteGenerationAdvance : Run Word := Prog.act Action.advanceGeneration

/-- The number of devices that are writing. -/
def activeWriters : Run Nat := Prog.act Action.writers

/-- The processors: the one that computes and all of them in list order. -/
structure Host where
  own : Nat
  cpus : List Nat
deriving DecidableEq, Repr

namespace Table

/-- Forget one entry. -/
def invalidateEntry (a : Table) (i : Nat) : Table :=
  let entry := a.entry i
  if !entry.valid then a
  else
    { a with
      entry := update a.entry i { entry with valid := false }
      regSlot := update a.regSlot entry.fp (update (a.regSlot entry.fp) entry.reg 0)
      occupied := a.occupied &&& ~~~(1#32 <<< i)
      activeCount := if 0 < a.activeCount then a.activeCount - 1 else a.activeCount }

/-- Forget all entries. -/
def clear (a : Table) : Table :=
  -- The entries themselves are only touched if the count says that there are any.
  let a := { a with regSlot := fun _ _ => 0, occupied := 0 }
  if a.activeCount = 0 then a
  else
    { Sweep.sweep alatEntries (fun a i =>
        { a with entry := update a.entry i { a.entry i with valid := false } }) a with
      activeCount := 0 }

end Table

section Generations

variable (host : Host)

/-- The sum of the store sequences of all processors, and whether one of them is inside a store. -/
def cpuGeneration : Run (Word × Bool) :=
  if host.cpus.length = 1 then do
    let sequence ← readSequence host.own
    return (sequence, sequence.getLsbD 0)
  else
    host.cpus.foldlM (fun sum cpu => do
      let sequence ← readSequence cpu
      return (sum.1 + sequence, sum.2 || sequence.getLsbD 0)) (0, false)

/-- The sum of all generations. -/
def memoryGeneration : Run Word := do
  let external ← physicalMemoryWriteGeneration
  let sum ← cpuGeneration host
  return external + sum.1

/-- Whether a device writes or has written since the sample. -/
def writeGenerationChanged (generation : Word) : Run Bool := do
  let activeBefore ← activeWriters
  let current ← physicalMemoryWriteGeneration
  let activeAfter ← activeWriters
  return activeBefore != 0 || activeAfter != 0 || current != generation

/-- Whether anything was or is being written since the sample. -/
def memoryGenerationChanged (generation : Word) : Run Bool := do
  let external ← physicalMemoryWriteGeneration
  let (sum, active) ← cpuGeneration host
  -- The devices are looked at again only if the sums agree.
  if active || external + sum != generation then return true
  else writeGenerationChanged external

namespace Table

/-- Drop all entries if something was stored elsewhere. -/
def syncMemoryWrites (a : Table) : Run (Table × Bool) := do
  let generation ← memoryGeneration host
  if generation != a.memoryWriteGeneration then
    return ({ a.clear with memoryWriteGeneration := generation }, true)
  else return (a, false)

/-- Close a window: drop all entries if something was stored since the sample. -/
def memoryWindowChanged (a : Table) (generation : Word) : Run (Table × Bool) := do
  let changed ← memoryGenerationChanged host generation
  if !changed then return (a, false)
  else
    let current ← memoryGeneration host
    return ({ a.clear with memoryWriteGeneration := current }, true)

end Table

end Generations

/-- Whether two physical ranges overlap; a range that wraps ends at the last address. -/
def rangesOverlap (start size otherStart otherSize : Word) : Bool :=
  if size = 0 || otherSize = 0 then false
  else
    let rangeEnd := if start + size - 1 < start then BitVec.allOnes 64 else start + size - 1
    let otherEnd := if otherStart + otherSize - 1 < otherStart then BitVec.allOnes 64
      else otherStart + otherSize - 1
    decide (start ≤ otherEnd) && decide (otherStart ≤ rangeEnd)

/-- How a data address translates at present: its physical address and how freely it may be
referenced. -/
abbrev Translate := Word → Option (Word × Mmu.MemorySpeculation)

/-- Whether advanced loads of a page may be tracked. -/
def allowsAdvancedLoad (spec : Mmu.MemorySpeculation) : Bool := spec != .nonSpeculative

namespace Table

variable (host : Host) (translate : Translate)

variable (a : Table)

/-- Forget the entries of a range of registers. -/
def invalidateRegRange (first last : Nat) (fp : Bool) : Table :=
  sweepBits (fun a i =>
    if (a.entry i).fp = fp ∧ first ≤ (a.entry i).reg ∧ (a.entry i).reg < last
      then a.invalidateEntry i
    else a) a a.occupied

/-- Forget the entries that overlap a physical range. -/
def invalidateOverlapping (pa size : Word) : Table :=
  sweepBits (fun a i =>
    if rangesOverlap pa size (a.entry i).physAddr (BitVec.ofNat 64 (a.entry i).size)
      then a.invalidateEntry i
    else a) a a.occupied

/-- Forget the entries that overlap a physical range, or all if something was stored elsewhere. -/
def invalidatePhysRange (pa size : Word) : Run Table :=
  if a.activeCount = 0 then return a
  else do
    let (a, cleared) ← a.syncMemoryWrites host
    if cleared then return a else return a.invalidateOverlapping pa size

/-- The check of a register without an address; the answer says whether it hits, else it traps. -/
def chkA (reg : Nat) : Run (Table × Bool) :=
  if a.activeCount = 0 then return (a, false)
  else do
    let (a, cleared) ← a.syncMemoryWrites host
    if cleared then return (a, false)
    else
      -- Entries of either register file count.
      let found := reg < grCount ∧ (a.regSlot false reg ≠ 0 ∨ a.regSlot true reg ≠ 0)
      if found then
        let (a, changed) ← a.memoryWindowChanged host a.memoryWriteGeneration
        return (a, !changed)
      else return (a, false)

/-- Forget all entries and take a new sample. -/
def invala : Run Table := do
  let generation ← memoryGeneration host
  return { a.clear with memoryWriteGeneration := generation }

/-- The sample that an advanced load takes first. -/
def loadBegin : Run (Table × Word) := do
  let (a, _) ← a.syncMemoryWrites host
  return (a, a.memoryWriteGeneration)

/-- Write an entry into a slot and index it. -/
def publish (i : Nat) (reg : Nat) (fp : Bool) (pa : Word) (size : Nat) : Table :=
  { a with
    activeCount := if !(a.entry i).valid then a.activeCount + 1 else a.activeCount
    entry := update a.entry i ⟨pa, size % 256, reg % 256, fp, true⟩
    regSlot := update a.regSlot fp (update (a.regSlot fp) reg (i + 1))
    occupied := a.occupied ||| (1#32 <<< i) }

/-- The physical address to track: the given one unless it is missing, else the translated one. -/
def trackedAddress (addr pa : Word) : Option Word :=
  if pa = BitVec.allOnes 64 then
    match translate addr with
    | some (pa, spec) => if allowsAdvancedLoad spec then some pa else none
    | none => none
  else some pa

variable (reg : Nat) (addr : Word) (size : Nat)

/-- Track an advanced load, unless something was stored since the sample. -/
def setAlat (fp : Bool) (generation pa : Word) : Run Table :=
  if grCount ≤ reg then return a
  else do
    let (a, changed) ← a.memoryWindowChanged host generation
    if changed then return a
    else
      match trackedAddress translate addr pa with
      | none => return a
      | some pa =>
        if a.regSlot fp reg = 0 then
          -- A register without an entry takes the lowest free slot, if there is one.
          if a.occupied = BitVec.allOnes 32 then return a
          else
            let (a, _) ← (a.publish (lowest (~~~a.occupied)) reg fp pa size).memoryWindowChanged
                host generation
            return a
        else
          let (a, _) ← (a.publish (a.regSlot fp reg - 1) reg fp pa size).memoryWindowChanged
              host generation
          return a

/-- Track an integer load. -/
def set (generation : Word) : Run Table :=
  a.setAlat host translate reg addr size false generation (BitVec.allOnes 64)

/-- Track a floating-point load. -/
def setFp (generation : Word) : Run Table :=
  if 1 < reg then a.setAlat host translate reg addr size true generation (BitVec.allOnes 64)
    else return a

/-- Track a load whose physical address is known. -/
def setPa (generation pa : Word) (fp : Bool) : Run Table :=
  if !fp ∨ 1 < reg then a.setAlat host translate reg addr size fp generation pa else return a

/-- The slot of a register's entry and the generation it is valid for. -/
def findReg (reg : Nat) (fp closeWindow : Bool) : Run (Table × Option (Nat × Word)) :=
  if grCount ≤ reg ∨ a.activeCount = 0 then return (a, none)
  else do
    let (a, cleared) ← a.syncMemoryWrites host
    if cleared then return (a, none)
    else
      let generation := a.memoryWriteGeneration
      if a.regSlot fp reg = 0 then return (a, none)
      else if closeWindow then
        let (a, changed) ← a.memoryWindowChanged host generation
        return (a, if changed then none else some (a.regSlot fp reg - 1, generation))
      else return (a, some (a.regSlot fp reg - 1, generation))

/-- Whether an entry is that of an address. -/
def matchesAddr (entry : Entry) (addr : Word) (size : Nat) : Bool :=
  if entry.size ≠ size then false
  else
    match translate addr with
    | none => false
    | some (pa, _) => entry.physAddr == pa

/-- The check of a register, with or without an address; a clearing check uses its entry up. -/
def checkLoadAlat (reg : Nat) (fp verifyAddr : Bool) (addr : Word) (size : Nat) (clear : Bool) :
    Run (Table × Bool) :=
  if fp ∧ reg ≤ 1 then return (a, false)
  else do
    let (a, found) ← a.findReg host reg fp verifyAddr
    match found with
    | none => return (a, false)
    | some (i, generation) =>
      if verifyAddr ∧ !matchesAddr translate (a.entry i) addr size then
        return (if clear then a.invalidateEntry i else a, false)
      else
        let (a, changed) ← a.memoryWindowChanged host generation
        if changed then return (a, false)
        else return (if clear then a.invalidateEntry i else a, true)

/-- Forget a register's entry. -/
def invalidateRegister (reg : Nat) (fp : Bool) : Table :=
  if grCount ≤ reg then a
  else if a.regSlot fp reg = 0 then a
  else a.invalidateEntry (a.regSlot fp reg - 1)

/-- Tell every processor of a store made outside a store scope. -/
def notifyStore : Run Table :=
  if !a.full then return a
  else do
    let _ ← physicalMemoryWriteGenerationAdvance
    a.invala host

/-- Open a store scope: the processor's sequence becomes odd. -/
def writeBegin : Run Table := do
  let a :=
    { a with
      writeGeneration := a.memoryWriteGeneration, writeObserved := a.full, writeActive := true }
  if a.writeObserved then
    let sequence ← readSequence host.own
    let _ ← publishSequence host.own (sequence + 1)
    return a
  else return a

/-- Close a store scope: the sequence becomes even again. -/
def writeTakeToken : Run (Table × Bool) := do
  let observed := a.writeObserved
  let a := { a with writeActive := false, writeObserved := false }
  if observed then
    let sequence ← readSequence host.own
    let _ ← publishSequence host.own (sequence + 1)
    return (a, true)
  else return (a, false)

variable (addr : Word) (size : Nat)

/-- Forget the entries that an own store overlaps, by the data translation of its address. -/
def invalidateStore : Run Table :=
  if a.activeCount = 0 then return a
  else
    match translate addr with
    | none => return a
    | some (pa, _) => a.invalidatePhysRange host pa (BitVec.ofNat 64 size)

/-- What follows a store: forget its range if no one else stored, else everything. -/
def writeFinish (precise : Bool) : Run Table := do
  let generation := a.writeGeneration
  let (a, observed) ← a.writeTakeToken host
  let expected := generation + 2
  if observed ∧ a.activeCount ≠ 0 then
    if !precise ∨ a.memoryWriteGeneration ≠ generation then a.invala host
    else
      let changed ← memoryGenerationChanged host expected
      if changed then a.invala host
      else
        -- The expected generation includes this store.
        let a := { a with memoryWriteGeneration := expected }
        a.invalidateStore host translate addr size
  else return a

/-- A store that completed. -/
def writeEnd : Run Table := a.writeFinish host translate addr size true

/-- A compare-and-exchange that stored nothing. -/
def writeCancel : Run Table := do
  let (a, observed) ← a.writeTakeToken host
  if observed then return { a with memoryWriteGeneration := a.memoryWriteGeneration + 2 }
    else return a

/-- A store that faulted. -/
def writeAbort : Run Table :=
  if a.writeActive then a.writeFinish host translate 0 0 false else return a

/-- What a global purge that covers the table does to it. -/
def ptcGlobalClear : Table :=
  { a with entry := fun _ => .empty, activeCount := 0, occupied := 0, regSlot := fun _ _ => 0 }

end Table

end Ia64.Alat
