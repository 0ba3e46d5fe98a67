import Ia64.Lib.BitSets
import Ia64.Lib.CheckedBytes
import Mathlib

/-! The firmware RAS mailbox: its registers and its store of SAL error records. -/

namespace Ia64.Ras

open CheckedBytes

/-- A 64-bit register. -/
abbrev Word := BitVec 64

/-- The number of processors the mailbox serves. -/
def maxCpus : Nat := 64

/-- The kinds of SAL records. -/
inductive RecordType where
  | mca
  | init
  | cmc
  | cpe
  | deconfig
deriving DecidableEq, Repr

/-- The number of a record kind. -/
def RecordType.code : RecordType → Nat
  | .mca => 0
  | .init => 1
  | .cmc => 2
  | .cpe => 3
  | .deconfig => 4

/-- The number of record kinds. -/
def recordTypeCount : Nat := 5

/-- The number of record banks, one for each processor and kind. -/
def bankCount : Nat := maxCpus * recordTypeCount

/-- The records a bank can hold. -/
def recordDepth : Nat := 4

/-- The bytes of a record slot. -/
def maxRecordSize : Nat := 512

/-- The size of a record header. -/
def recordHeaderSize : Nat := 40

/-- The size of a section header. -/
def sectionHeaderSize : Nat := 24

/-- A record slot: the bytes in use, and the bytes. -/
structure RecordSlot where
  length : Nat
  data : Buffer

/-- A slot without a record. -/
def RecordSlot.clear : RecordSlot := ⟨0, .zeros maxRecordSize⟩

/-- A queue in a ring: where it starts, how long it is, and the slots. -/
structure Fifo (α : Type) where
  head : Nat
  count : Nat
  slot : Nat → α

/-- Put an element behind the others. -/
def Fifo.push {α : Type} (ring : Fifo α) (depth : Nat) (value : α) : Fifo α :=
  { ring with
    count := ring.count + 1
    slot := Function.update ring.slot ((ring.head + ring.count) % depth) value }

/-- Remove the first element and clear its slot; an empty queue starts at the first slot again. -/
def Fifo.pop {α : Type} (ring : Fifo α) (depth : Nat) (clear : α) : Fifo α :=
  let count := ring.count - 1
  { head := if count = 0 then 0 else (ring.head + 1) % depth
    count := count
    slot := Function.update ring.slot ring.head clear }

/-- The queue of records of one processor and kind. -/
structure Bank where
  queue : Fifo RecordSlot
  overflow : Bool

/-- The mailbox device. -/
structure Hub where
  mcaEntry : Word
  mcaGp : Word
  initEntry : Word
  initGp : Word
  cpeVector : Word
  rendezvousVector : Word
  rendezvousTimeout : Word
  rendezvousOptions : Word
  wakeupMechanism : Word
  wakeupValue : Word
  cpuOnline : Word
  rendezvousRequired : Word
  rendezvousArrived : Word
  wakeupPending : Word
  wakeupCurrent : Nat
  rendezvousActive : Bool
  rendezvousFallback : Bool
  nextRecordId : Word
  bank : Nat → Bank

/-- What the mailbox asks processors and memory to do. -/
inductive Signal where
  | interrupt (cpu : Nat) (vector : BitVec 8)
  | init (cpu : Nat)
  | initEntry (cpu : Nat) (entry gp : Word)
  | mca (cpu : Nat) (entry gp : Word) (recordId severity : Nat)
  | machineCheck (cpu severity : Nat) (status address information : Word)
  | store (address : Word) (value : Nat)
deriving DecidableEq, Repr

/-- The bank of a processor and a record kind. -/
def bankOf (cpu : Nat) (type : RecordType) : Nat := cpu * recordTypeCount + type.code

/-- The first record of a bank. -/
def Bank.headSlot (bank : Bank) : Option RecordSlot :=
  if bank.queue.count = 0 then none else some (bank.queue.slot bank.queue.head)

/-- The bank an address lies in and the offset there. -/
def bankDecode (addr : Nat) : Option (Nat × Nat) :=
  if addr < 0x10000 then none
  else
    let relative := addr - 0x10000
    if bankCount ≤ relative / 0x1000 then none else some (relative / 0x1000, relative % 0x1000)

/-- The number with the given bits. -/
def bits (positions : List Nat) : Nat :=
  positions.foldl (fun mask position => mask ||| 1 <<< position) 0

/-- The severity of a recoverable error. -/
def severityRecoverable : Nat := 0

/-- The severity of a fatal error. -/
def severityFatal : Nat := 1

/-- The severity of a corrected error. -/
def severityCorrected : Nat := 2

/-- The recovery byte of a severity. -/
def recoveryInfo (severity : Nat) : Nat :=
  if severity = severityCorrected then bits [7, 0]
  else if severity = severityFatal then bits [7, 1]
  else bits [7]

/-- The section GUID of processor errors. -/
def processorGuid : List Byte :=
  [0xf1, 0xfa, 0x29, 0xe4, 0xb7, 0x3c, 0xd4, 0x11, 0xbc, 0xa7, 0x00, 0x80, 0xc7, 0x3c, 0x88, 0x81]

/-- A field of a section body: its offset, its size and its value. -/
abbrev BodyField := Nat × Nat × Nat

/-- Store the fields of a section body behind the two headers. -/
def storeBody (data : Buffer) (fields : List BodyField) : Buffer :=
  fields.foldl (fun data (offset, size, value) =>
    data.store size (recordHeaderSize + sectionHeaderSize + offset) value) data

/-- Begin a record: it gets the next identifier, a header and the header of its only section. -/
def Hub.recordBegin (hub : Hub) (severity : Nat) (guid : List Byte) (sectionLength : Nat) :
    RecordSlot × Hub :=
  let length := recordHeaderSize + sectionLength
  let header := (Buffer.zeros maxRecordSize).store 8 0 hub.nextRecordId.toNat
    |>.store 1 8 0x07 |>.store 1 9 0x00
    |>.store 1 10 severity |>.store 1 11 (bits [1])
    |>.store 4 12 length
  let named := header.fill recordHeaderSize 16 fun i => guid.getD i 0
  let data := named
    |>.store 1 (recordHeaderSize + 16) 0x03 |>.store 1 (recordHeaderSize + 17) 0x00
    |>.store 1 (recordHeaderSize + 18) (recoveryInfo severity)
    |>.store 4 (recordHeaderSize + 20) sectionLength
  (⟨length, data⟩, { hub with nextRecordId := hub.nextRecordId + 1 })

/-- Replace one bank. -/
def Hub.setBank (hub : Hub) (index : Nat) (bank : Bank) : Hub :=
  { hub with bank := Function.update hub.bank index bank }

/-- Queue a record; a full bank only notes the overflow. -/
def Hub.queueRecord (hub : Hub) (cpu : Nat) (type : RecordType)
    (record : RecordSlot) : Bool × Hub :=
  let index := bankOf cpu type
  let bank := hub.bank index
  if bank.queue.count = recordDepth then (false, hub.setBank index { bank with overflow := true })
  else (true, hub.setBank index { bank with queue := bank.queue.push recordDepth record })

/-- Drop the first record of a bank. -/
def Hub.popRecord (hub : Hub) (index : Nat) : Hub :=
  let bank := hub.bank index
  if bank.queue.count = 0 then hub
  else
    let queue := bank.queue.pop recordDepth .clear
    hub.setBank index ⟨queue, bank.overflow && queue.count != 0⟩

/-- Whether an external interrupt can have a vector. -/
def externalInterruptVectorValid (vector : BitVec 8) : Bool :=
  vector == 0 || vector == 2 || 16 ≤ vector

/-- Whether a register holds the vector of an external interrupt. -/
def vectorValid (vector : Word) : Bool :=
  vector != 0 && vector ≤ 255 && externalInterruptVectorValid (vector.setWidth 8)

/-- The mask of one processor. -/
def bit (cpu : Nat) : Word := 1#64 <<< cpu

theorem getLsbD_bit (cpu : Nat) {i : Nat} (inside : i < 64) :
    (bit cpu).getLsbD i = decide (i = cpu) := by
  -- A shift beyond the word leaves no bit.
  rw [bit, BitVec.getLsbD_shiftLeft, BitVec.getLsbD_one]
  by_cases here : i = cpu
  · subst here
    simp [inside]
  · by_cases below : i < cpu
    · simp [below, here]
    · simp [here, show i - cpu ≠ 0 by omega]

/-- The processors of a mask that are present, lowest first. -/
def cpusOf (present mask : Word) : List Nat :=
  (List.range maxCpus).filter fun cpu => mask.getLsbD cpu && present.getLsbD cpu

variable (hub : Hub) (present : Word)

/-- Ask for the machine check handler on the processors that are online and have a record. -/
def Hub.tryDeliverMca : List Signal :=
  if hub.mcaEntry = 0 then []
  else
    (cpusOf present hub.cpuOnline).filterMap fun cpu =>
      (hub.bank (bankOf cpu .mca)).headSlot.map fun slot =>
        .mca cpu hub.mcaEntry hub.mcaGp (slot.data.load 8 0) (slot.data.load 1 10)

/-- Send INIT to the processors of a mask. -/
def signalInitMask (present mask : Word) : List Signal := (cpusOf present mask).map .init

/-- Send an interrupt to the processors of a mask. -/
def signalMask (present mask : Word) (vector : BitVec 8) : List Signal :=
  if !externalInterruptVectorValid vector then []
    else (cpusOf present mask).map (.interrupt · vector)

/-- Tell every processor the handler of INIT. -/
def Hub.setInitEntries : List Signal :=
  (cpusOf present (BitVec.allOnes 64)).map (.initEntry · hub.initEntry hub.initGp)

/-- Call the other online processors into a rendezvous. -/
def Hub.beginRendezvous (hub : Hub) (present initiator : Word) : Hub × List Signal :=
  if maxCpus ≤ initiator.toNat ∨ present.getLsbD initiator.toNat = false then (hub, [])
  else
    let required := hub.cpuOnline &&& present &&& ~~~bit initiator.toNat
    let begun := { hub with
      rendezvousRequired := required
      rendezvousArrived := 0
      rendezvousFallback := false
      rendezvousActive := required != 0 }
    if required = 0 then (begun, [])
    else if vectorValid hub.rendezvousVector then
      (begun, signalMask present required (hub.rendezvousVector.setWidth 8))
    else ({ begun with rendezvousFallback := true }, signalInitMask present required)

/-- Wake the next processor through memory; a store that fails ends the wake-up. -/
def Hub.startMemoryWakeup (hub : Hub) (stored : Bool) : Hub × List Signal :=
  if hub.wakeupMechanism ≠ 2 ∨ hub.wakeupPending = 0 then (hub, [])
  else
    let cpu := BitSets.lowest hub.wakeupPending
    let woken := { hub with wakeupCurrent := cpu }
    (if stored then woken else { woken with wakeupPending := 0 },
      [.store (hub.wakeupValue &&& ~~~(0x8000000000000000 : Word)) (cpu + 1)])

/-- End a rendezvous and wake its participants. -/
def Hub.releaseRendezvous (stored : Bool) : Hub × List Signal :=
  let participants := hub.rendezvousRequired
  let released :=
    { hub with rendezvousActive := false, rendezvousRequired := 0, rendezvousArrived := 0 }
  if hub.wakeupMechanism = 1 ∧ vectorValid hub.wakeupValue = true then
    (released, signalMask present participants (hub.wakeupValue.setWidth 8))
  else if hub.wakeupMechanism = 2 then
    ({ released with wakeupPending := participants }).startMemoryWakeup stored
  else (released, [])

/-- Record the INIT of a processor. -/
def Hub.queueInitRecord (cpu : Nat) (lid : Word) : Hub :=
  if maxCpus ≤ cpu ∨ present.getLsbD cpu = false then hub
  else
    let (record, hub) := hub.recordBegin severityRecoverable processorGuid (sectionHeaderSize + 80)
    let data := storeBody record.data [(0, 8, bits [2]), (24, 8, lid.toNat)]
    (hub.queueRecord cpu .init { record with data := data }).2

/-- The registers a write can name. -/
inductive Register where
  | mcaEntry
  | mcaGp
  | cpeVector
  | rendezvousVector
  | rendezvousTimeout
  | rendezvousOptions
  | wakeupMechanism
  | wakeupValue
  | cpuOnline
  | rendezvousBegin
  | rendezvousArrived
  | rendezvousRelease
  | rendezvousInit
  | initEntry
  | initGp
  | initCapture
  | wakeupAck
deriving DecidableEq, Repr

/-- The writable register at an offset. -/
def registerAt : Nat → Option Register
  | 0x20 => some .mcaEntry
  | 0x28 => some .mcaGp
  | 0x30 => some .cpeVector
  | 0x38 => some .rendezvousVector
  | 0x40 => some .rendezvousTimeout
  | 0x48 => some .rendezvousOptions
  | 0x50 => some .wakeupMechanism
  | 0x58 => some .wakeupValue
  | 0x60 => some .cpuOnline
  | 0x68 => some .rendezvousBegin
  | 0x80 => some .rendezvousArrived
  | 0x88 => some .rendezvousRelease
  | 0x90 => some .rendezvousInit
  | 0x98 => some .initEntry
  | 0xa0 => some .initGp
  | 0xa8 => some .initCapture
  | 0xb8 => some .wakeupAck
  | _ => none

/-- A write to a register; the processors' LIDs and whether a store to memory works are read from
outside. -/
def Hub.writeRegister (lid : Nat → Word) (stored : Bool) (value : Word) :
    Register → Hub × List Signal
  | .mcaEntry =>
    let hub := { hub with mcaEntry := value }
    (hub, hub.tryDeliverMca present)
  | .mcaGp =>
    let hub := { hub with mcaGp := value }
    (hub, hub.tryDeliverMca present)
  | .initEntry =>
    let hub := { hub with initEntry := value }
    (hub, hub.setInitEntries present)
  | .initGp =>
    let hub := { hub with initGp := value }
    (hub, hub.setInitEntries present)
  | .cpeVector =>
    let hub := { hub with cpeVector := if value = 0 ∨ vectorValid value = true then value else 0 }
    let waiting := (hub.bank (bankOf 0 .cpe)).headSlot.isSome
    (hub, if hub.cpeVector ≠ 0 ∧ waiting = true
      then signalMask present (bit 0) (hub.cpeVector.setWidth 8) else [])
  | .rendezvousVector =>
    ({ hub with rendezvousVector := if value = 0 ∨ vectorValid value = true then value else 0 }, [])
  | .rendezvousTimeout => ({ hub with rendezvousTimeout := value }, [])
  | .rendezvousOptions => ({ hub with rendezvousOptions := value &&& 3 }, [])
  | .wakeupMechanism => ({ hub with wakeupMechanism := if value ≤ 2 then value else 0 }, [])
  | .wakeupValue => ({ hub with wakeupValue := value }, [])
  | .cpuOnline =>
    let hub := { hub with cpuOnline := hub.cpuOnline ||| (value &&& present) }
    (hub, hub.tryDeliverMca present)
  | .rendezvousBegin => hub.beginRendezvous present value
  | .rendezvousArrived =>
    (if hub.rendezvousActive then
      { hub with rendezvousArrived := hub.rendezvousArrived ||| (value &&& hub.rendezvousRequired) }
    else hub, [])
  | .rendezvousRelease => if value = 1 then hub.releaseRendezvous present stored else (hub, [])
  | .rendezvousInit =>
    if hub.rendezvousActive then
      ({ hub with rendezvousFallback := true },
        signalInitMask present (hub.rendezvousRequired &&& ~~~hub.rendezvousArrived))
    else (hub, [])
  | .initCapture =>
    -- The number of the processor is cut to 32 bits.
    let cpu := value.toNat % 2 ^ 32
    (hub.queueInitRecord present cpu (lid cpu), [])
  | .wakeupAck =>
    let current := bit hub.wakeupCurrent
    if hub.wakeupPending &&& value &&& current ≠ 0 then
      ({ hub with wakeupPending := hub.wakeupPending &&& ~~~current }).startMemoryWakeup stored
    else (hub, [])

/-- A write of the guest. -/
def Hub.mmioWrite (lid : Nat → Word) (stored : Bool) (addr : Nat) (value : Word)
    (size : Nat) : Hub × List Signal :=
  if size ≠ 8 ∨ addr % 8 ≠ 0 then (hub, [])
  else
    match registerAt addr with
    | some register => hub.writeRegister present lid stored value register
    | none =>
      match bankDecode addr with
      | some (index, offset) =>
        if offset = 0x18 ∧ value = 1 then
          let hub := hub.popRecord index
          (hub, if index % recordTypeCount = RecordType.mca.code
            then hub.tryDeliverMca present else [])
        else (hub, [])
      | none => (hub, [])

/-- A new device. -/
def Hub.fresh : Hub :=
  { mcaEntry := 0, mcaGp := 0, initEntry := 0, initGp := 0, cpeVector := 0, rendezvousVector := 0
    rendezvousTimeout := 0, rendezvousOptions := 0, wakeupMechanism := 0, wakeupValue :=
      0, cpuOnline := 0
    rendezvousRequired := 0, rendezvousArrived := 0, wakeupPending := 0, wakeupCurrent := 0
    rendezvousActive := false, rendezvousFallback := false, nextRecordId := 1
    bank := fun _ => ⟨⟨0, 0, fun _ => .clear⟩, false⟩ }

end Ia64.Ras
