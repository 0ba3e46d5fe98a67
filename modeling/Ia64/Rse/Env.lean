import Mathlib.Tactic.Common

/-! Processor state read and written by the register stack engine. -/

namespace Ia64

/-- A 64-bit machine word, also used for addresses. -/
abbrev Word := BitVec 64

/-- The largest signed 64-bit value, which masks the 63 NaT bits of a collection. -/
def int64Max : Word := 0x7fffffffffffffff

/-- The all-ones word, used as the address of an unbound spill latch. -/
def uint64Max : Word := 0xffffffffffffffff

/-- The fields of the current frame marker. -/
structure Cfm where
  sof : Nat
  sol : Nat
  sor : Nat
  rrbGr : Nat
  rrbFr : Nat
  rrbPr : Nat
deriving DecidableEq, Repr

/-- The marker of the empty frame. -/
def Cfm.zero : Cfm := ⟨0, 0, 0, 0, 0, 0⟩

/-- The frame sizes that alloc accepts. -/
def Cfm.frameFieldsValid (cfm : Cfm) : Bool :=
  -- The locals and the rotating registers both lie inside a frame of at most 96 registers.
  cfm.sof ≤ 96 && cfm.sol ≤ cfm.sof && cfm.sor * 8 ≤ cfm.sof

/-- The rotation base of the general registers stays inside the rotating region. -/
def Cfm.rrbGrValid (cfm : Cfm) : Bool :=
  -- Without a rotating region the only base is zero.
  if cfm.sor = 0 then cfm.rrbGr = 0 else cfm.rrbGr < cfm.sor * 8

/-- A frame marker that alloc could have produced, with every rotation base in its region. -/
def Cfm.Valid (cfm : Cfm) : Prop :=
  cfm.frameFieldsValid = true ∧ cfm.rrbGrValid ∧ cfm.rrbFr < 96 ∧ cfm.rrbPr < 48

instance (cfm : Cfm) : Decidable cfm.Valid :=
  inferInstanceAs (Decidable (_ ∧ _ ∧ _ ∧ _))

theorem Cfm.zero_valid : Cfm.zero.Valid := by
  -- Every field is zero.
  decide

/-- NaT bits kept by loadrs for the store of the collection they belong to. -/
structure RnatWritebackImage where
  value : Word
  addr : Word
  defined : Word
  valid : Bool
deriving DecidableEq, Repr

/-- The cleared writeback image. -/
def RnatWritebackImage.cleared : RnatWritebackImage := ⟨0, 0, 0, false⟩

/-- A partial NaT collection displaced from one of the two latches. -/
structure RnatShadowEntry where
  value : Word
  addr : Word
  defined : Word
deriving DecidableEq, Repr

/-- Where the engine keeps NaT bits that are not in the physical file. -/
structure Latches where
  /-- The spill latch: NaT bits of the collection that BSPSTORE is filling. -/
  rnat : Word
  rnatAddr : Word
  rnatDefined : Word
  /-- The fill latch: NaT bits of the collection read by the last mandatory load. -/
  loadRnat : Word
  loadRnatAddr : Word
  loadRnatDefined : Word
  loadRnatValid : Bool
  writebackRnat : RnatWritebackImage
  /-- Occupied slots of the shadow table, in slot order. -/
  rnatShadow : List RnatShadowEntry
  /-- Collection addresses named by the shadow-overflow messages logged so far. -/
  shadowOverflowLog : List Word
deriving DecidableEq, Repr

/-- Register stack state: virtual view, physical file, partitions, latches and backing store. -/
structure Env where
  /-- Whether spilled registers stay in the file as a clean partition, a constant of the model. -/
  hasCleanPartition : Bool
  /-- General registers as the program sees them, the stacked ones starting at index 32. -/
  gr : Nat → Word
  nat : Nat → Bool
  /-- Stacked registers written since the physical file was last synchronized. -/
  grDirty : Nat → Bool
  /-- The circular file of 96 physical stacked registers. -/
  pgr : Nat → Word
  pgrNat : Nat → Bool
  /-- Physical index of the first register of the current frame. -/
  bol : Nat
  dirty : Int
  dirtyNat : Int
  clean : Int
  cleanNat : Int
  invalid : Int
  bsp : Word
  bspstore : Word
  latches : Latches
  cfm : Cfm
  pfs : Word
  ec : Word
  rsc : Word
  ifs : Word
  /-- Privilege level and interruption collection, the PSR fields the register stack uses. -/
  psrCpl : Nat
  psrIc : Bool
  /-- The same two fields as the last collected interruption saved them. -/
  ipsrCpl : Nat
  ipsrIc : Bool
  /-- Set while a mandatory load sequence is in progress. -/
  cfle : Bool
  /-- The 64-bit words of the backing store, by address. -/
  mem : Word → Word

end Ia64
