import Ia64.Lib.KeyedTable
import Ia64.Lib.Loops
import Ia64.Rse.Env

/-! NaT collections: the spill latch, the fill latch, the shadow table and the loadrs image. -/

namespace Ia64.Rse

/-- The NaT bit that collects the register stored at an address, 63 for a collection word. -/
def collectBit (addr : Word) : Nat :=
  -- Address bits 8 to 3.
  ((addr >>> 3) &&& 0x3f#64).toNat

/-- Address of the collection word that covers a backing-store address. -/
def collectWord (addr : Word) : Word :=
  -- The last word of the 512-byte block.
  (addr &&& ~~~0x1ff#64) ||| (63#64 <<< 3)

/-- NaT bits through and including the given one. -/
def rnatLowMask (bit : Nat) : Word :=
  -- Bit 63 of a collection is never a NaT bit.
  if 62 ≤ bit then int64Max else (1#64 <<< (bit + 1)) - 1#64

/-- NaT bits of one collection with the mask of those that are known. -/
structure Collection where
  value : Word
  defined : Word
deriving DecidableEq, Repr

/-- A collection nothing is known about. -/
def Collection.empty : Collection := ⟨0, 0⟩

/-- Replace the bits the newer collection knows. -/
def Collection.overlay (older newer : Collection) : Collection :=
  -- Only the 63 NaT bits of the newer mask count.
  let mask := newer.defined &&& int64Max
  ⟨(older.value &&& ~~~mask) ||| (newer.value &&& mask), older.defined ||| mask⟩

/-- Keep the known bits among the 63 NaT bits. -/
def Collection.masked (collection : Collection) : Collection :=
  -- An unknown bit reads as zero.
  let mask := collection.defined &&& int64Max
  ⟨collection.value &&& mask, mask⟩

variable (shadow : List RnatShadowEntry)

/-- Slot of the shadow entry for a collection address. -/
def shadowFind (addr : Word) : Option Nat :=
  -- Addresses in the table are distinct, so the last-hit shortcut cannot change the answer.
  KeyedTable.slotOf RnatShadowEntry.addr shadow addr

/-- What the shadow table knows about a collection. -/
def shadowAt (addr : Word) : Collection :=
  -- A missing entry knows nothing.
  match KeyedTable.lookup RnatShadowEntry.addr shadow addr with
  | some entry => ⟨entry.value, entry.defined⟩
  | none => .empty

/-- Free a slot by moving the last entry into it. -/
def shadowDelete (slot : Nat) : List RnatShadowEntry :=
  KeyedTable.swapDelete shadow slot

/-- Combine an existing shadow entry with incoming bits. -/
def shadowCombine (incomingNewer : Bool) (value defined : Word) (entry : RnatShadowEntry) :
    RnatShadowEntry :=
  -- Newer bits replace the stored ones, older bits only fill holes.
  let merged : RnatShadowEntry :=
    if incomingNewer then
      { entry with
        value := (entry.value &&& ~~~defined) ||| value, defined := entry.defined ||| defined }
    else
      let missing := defined &&& ~~~entry.defined
      { entry with
        value := entry.value ||| (value &&& missing), defined := entry.defined ||| missing }
  { merged with
    value := merged.value &&& (merged.defined &&& int64Max)
    defined := merged.defined &&& int64Max }

variable (latches : Latches)

/-- Give a collection that the shadow table does not hold a slot of its own. -/
def shadowInsert (entry : RnatShadowEntry) : Latches :=
  match latches.rnatShadow with
  | first :: rest =>
    if latches.rnatShadow.length = 96 then
      -- A full table replaces slot zero and logs the collection it displaces.
      { latches with
        rnatShadow := entry :: rest
        shadowOverflowLog := latches.shadowOverflowLog ++ [first.addr] }
    else { latches with rnatShadow := latches.rnatShadow ++ [entry] }
  | [] => { latches with rnatShadow := [entry] }

/-- Merge a displaced partial collection into the shadow table. -/
def shadowMerge (addr value defined : Word) (incomingNewer : Bool) : Latches :=
  let defined := defined &&& int64Max
  let value := value &&& defined
  -- An unbound latch and an unknown collection leave the table alone.
  if addr = uint64Max ∨ defined = 0 then latches
  else
    match shadowFind latches.rnatShadow addr with
    | some slot =>
      { latches with
        rnatShadow := latches.rnatShadow.modify slot (shadowCombine incomingNewer value defined) }
    | none => shadowInsert latches ⟨value, addr, defined⟩

/-- Save the fill latch before it takes another collection. -/
def loadRnatStash (nextAddr : Word) : Latches :=
  -- Filled bits are older than spilled ones, so they only complete an entry.
  if latches.loadRnatValid = false ∨ latches.loadRnatAddr = nextAddr then latches
  else shadowMerge latches latches.loadRnatAddr latches.loadRnat latches.loadRnatDefined false

/-- Restrict what an entry knows to the given bits. -/
def restrictEntry (keep : Word) (entry : RnatShadowEntry) : RnatShadowEntry :=
  let defined := entry.defined &&& keep
  { entry with value := entry.value &&& defined, defined := defined }

/-- Restrict a shadow slot to the given bits, freeing it when none remain. -/
def restrictSlot (shadow : List RnatShadowEntry) (slot : Nat) (keep : Word) :
    List RnatShadowEntry :=
  match shadow[slot]? with
  | some entry =>
    -- An entry that knows nothing would break the table's form.
    if (restrictEntry keep entry).defined = 0 then shadowDelete shadow slot
    else shadow.modify slot (restrictEntry keep)
  | none => shadow

/-- Restrict what the shadow table knows about a collection. -/
def shadowClip (shadow : List RnatShadowEntry) (addr keep : Word) : List RnatShadowEntry :=
  match shadowFind shadow addr with
  | some slot => restrictSlot shadow slot (keep &&& int64Max)
  | none => shadow

/-- What the spill latch knows about a collection. -/
def spillAt (addr : Word) : Collection :=
  -- The latch only speaks for the collection it is bound to.
  if latches.rnatAddr = addr then ⟨latches.rnat, latches.rnatDefined⟩ else .empty

/-- What the fill latch knows about a collection. -/
def loadAt (addr : Word) : Collection :=
  -- An invalid latch speaks for no collection.
  if latches.loadRnatValid ∧ latches.loadRnatAddr = addr then
    (Collection.mk latches.loadRnat latches.loadRnatDefined).masked
  else .empty

/-- Clip the collection that the store pointer lands in when the engine moves it. -/
def rnatClip (bspstore : Word) : Latches :=
  let addr := collectWord bspstore
  let keep := rnatLowMask (collectBit bspstore)
  -- Bits of registers above the new store pointer are no longer spilled.
  let clipped :=
    if latches.rnatAddr = addr then
      { latches with
        rnatDefined := latches.rnatDefined &&& keep
        rnat := latches.rnat &&& (latches.rnatDefined &&& keep) }
    else latches
  { clipped with rnatShadow := shadowClip clipped.rnatShadow addr keep }

end Ia64.Rse
