import Ia64.Rse.LoadSequence

/-! Register stack state received through migration: what is accepted, and what resuming it leads
to. -/

namespace Ia64.Rse

open Interleaving

/-- A slot of the migrated shadow table. -/
structure ShadowSlot where
  value : Word
  addr : Word
  defined : Word
  valid : Bool
deriving DecidableEq, Repr

/-- Migrated register stack state as the validator sees it. -/
structure MigrationView where
  bsp : Word
  bspstore : Word
  rnat : Word
  rnatAddr : Word
  rnatDefined : Word
  loadRnat : Word
  loadRnatAddr : Word
  loadRnatDefined : Word
  writebackRnat : RnatWritebackImage
  rnatShadow : Fin 96 → ShadowSlot
  /-- NaT bits of physical registers 0 through 63 and 64 through 95. -/
  pgrNat : Word × Word
  grDirty : Word × Word
  bol : Nat
  dirty : Int
  dirtyNat : Int
  clean : Int
  cleanNat : Int
  invalid : Int
  rnatShadowCount : Nat
  cfm : Cfm
  loadRnatValid : Bool
  completionPending : Bool
  completionSourceIp : Word
  completionSourceSlot : Nat

/-- Migrated addresses of collections are those of the last word of a block. -/
def rnatCollectionAddressValid (addr : Word) : Bool := addr &&& 0x1ff = 0x1f8

/-- Form of a migrated loadrs image. -/
def rnatWritebackImageValid (image : RnatWritebackImage) : Bool :=
  if !image.valid then image.value = 0 && image.addr = 0 && image.defined = 0
  else
    image.defined ≠ 0 && (image.value ||| image.defined) &&& ~~~int64Max = 0 &&
      image.value &&& ~~~image.defined = 0 && rnatCollectionAddressValid image.addr

variable (state : MigrationView)

/-- Sizes and bounds of the frame and of every counter. -/
def migratedBounds : Bool :=
  state.cfm.frameFieldsValid && state.bol < 96 && -96 ≤ state.dirty && state.dirty ≤ 96 &&
    0 ≤ state.clean && state.clean ≤ 96 && 0 ≤ state.invalid && state.invalid ≤ 96 &&
    -2 ≤ state.dirtyNat && state.dirtyNat ≤ 2 && 0 ≤ state.cleanNat && state.cleanNat ≤ 2 &&
    state.bsp &&& 7 = 0 && state.bspstore &&& 7 = 0 &&
    (if state.cfm.sor ≠ 0 then state.cfm.rrbGr < state.cfm.sor * 8 else state.cfm.rrbGr = 0) &&
    state.cfm.rrbFr < 96 && state.cfm.rrbPr < 48 &&
    -- The second words describe physical stacked registers 64 through 95.
    (state.pgrNat.2 ||| state.grDirty.2) &&& ~~~0xffffffff#64 = 0

/-- The partitions cover the file and the store pointer follows the dirty words. -/
def migratedPartitions (hasCleanPartition : Bool) : Bool :=
  let dirtyWords := state.dirty + state.dirtyNat
  let expectedBspstore :=
    if 0 ≤ dirtyWords then state.bsp - wordBytes dirtyWords else state.bsp + wordBytes (-dirtyWords)
  (state.cfm.sof : Int) + state.dirty + state.clean + state.invalid = 96 &&
    state.bspstore = expectedBspstore &&
    (hasCleanPartition || (state.clean = 0 && state.cleanNat = 0))

/-- The collection counts of a frame that is not missing registers. -/
def migratedCollections : Bool :=
  if 0 ≤ state.dirty then
    state.dirtyNat = collectionsBetween state.bspstore state.bsp &&
      state.cleanNat =
        collectionsBetween (state.bspstore - wordBytes (state.clean + state.cleanNat))
          state.bspstore
  -- Counts of an incomplete frame are taken as they come.
  else true

/-- Form of the migrated latches. -/
def migratedLatches : Bool :=
  (state.rnat ||| state.rnatDefined ||| state.loadRnat ||| state.loadRnatDefined) &&&
    ~~~int64Max = 0 &&
    state.rnat &&& ~~~state.rnatDefined = 0 && state.loadRnat &&& ~~~state.loadRnatDefined = 0 &&
    (if state.rnatAddr = uint64Max then state.rnat = 0 && state.rnatDefined = 0
     else rnatCollectionAddressValid state.rnatAddr) &&
    (if state.loadRnatValid then rnatCollectionAddressValid state.loadRnatAddr
     else state.loadRnat = 0 && state.loadRnatAddr = 0 && state.loadRnatDefined = 0) &&
    rnatWritebackImageValid state.writebackRnat && state.rnatShadowCount ≤ 96

/-- Form of one slot of the migrated shadow table. -/
def migratedSlot (i : Fin 96) : Bool :=
  let entry := state.rnatShadow i
  if state.rnatShadowCount ≤ i.val then
    -- Unused slots are all zero.
    !entry.valid && entry.value = 0 && entry.addr = 0 && entry.defined = 0
  else
    entry.valid && entry.defined ≠ 0 && (entry.value ||| entry.defined) &&& ~~~int64Max = 0 &&
      entry.value &&& ~~~entry.defined = 0 && rnatCollectionAddressValid entry.addr &&
      (List.finRange 96).all fun j =>
        !(i.val < j.val && j.val < state.rnatShadowCount) || (state.rnatShadow j).addr ≠ entry.addr

/-- The validator of migrated register stack state. -/
def migrationViewValid (hasCleanPartition : Bool) : Bool :=
  migratedBounds state && migratedPartitions state hasCleanPartition && migratedCollections state &&
    migratedLatches state && (List.finRange 96).all (migratedSlot state) &&
    !(state.completionPending &&
      (2 < state.completionSourceSlot || state.completionSourceIp &&& 0xf ≠ 0))

/-- The processor state into which the migrated one was loaded. -/
def resume (rest : Env) : Env :=
  { rest with
    bsp := state.bsp
    bspstore := state.bspstore
    bol := state.bol
    dirty := state.dirty
    dirtyNat := state.dirtyNat
    clean := state.clean
    cleanNat := state.cleanNat
    invalid := state.invalid
    cfm := state.cfm
    pgrNat := pairBit state.pgrNat
    grDirty := pairBit state.grDirty
    latches := {
      rnat := state.rnat
      rnatAddr := state.rnatAddr
      rnatDefined := state.rnatDefined
      loadRnat := state.loadRnat
      loadRnatAddr := state.loadRnatAddr
      loadRnatDefined := state.loadRnatDefined
      loadRnatValid := state.loadRnatValid
      writebackRnat := state.writebackRnat
      rnatShadow := ((List.finRange 96).take state.rnatShadowCount).map fun slot =>
        ⟨(state.rnatShadow slot).value, (state.rnatShadow slot).addr,
          (state.rnatShadow slot).defined⟩
      shadowOverflowLog := rest.latches.shadowOverflowLog } }

/-- What a resumed state satisfies once its mandatory loads are done. -/
structure Resumed (env : Env) : Prop where
  dirty : 0 ≤ env.dirty
  dirtyNat : 0 ≤ env.dirtyNat
  total : (env.cfm.sof : Int) + env.dirty + env.clean + env.invalid = 96
  clean : 0 ≤ env.clean
  invalid : 0 ≤ env.invalid
  bspstore : env.bspstore = env.bsp - wordBytes (env.dirty + env.dirtyNat)
  dirtyCollections : env.dirtyNat = collectionsBetween env.bspstore env.bsp
  cleanCollections :
    env.cleanNat = collectionsBetween (env.bspstore - wordBytes (env.clean + env.cleanNat))
      env.bspstore

/-- Migrated counts from which the mandatory loads arrive at counted partitions. -/
def Resumable (state : MigrationView) : Prop :=
  let base : Int := state.bsp.toNat / 8
  let load := base - (state.clean + state.cleanNat + state.dirty + state.dirtyNat)
  -- Loads go on to the first word below which enough registers and enough collections are present.
  let low :=
    min load (min (slot (rank base - state.clean)) ((base / 64 - state.cleanNat) * 64 + 63))
  -- Both partitions together hold the collections down to the load pointer.
  state.dirtyNat + state.cleanNat = collections load base ∧
    -- The clean partition has as many collections where the loads leave it as where it was.
    state.cleanNat = collections low (low + state.clean + state.cleanNat) ∧
    -- Every register loaded finds an invalid one.
    rank load - rank low ≤ state.invalid

instance (state : MigrationView) : Decidable (Resumable state) :=
  inferInstanceAs (Decidable (_ ∧ _ ∧ _))

/-- Numeric content of an accepted state. -/
structure AcceptedCounts (state : MigrationView) : Prop where
  aligned : state.bsp = wordBytes ((state.bsp.toNat / 8 : Nat) : Int)
  total : (state.cfm.sof : Int) + state.dirty + state.clean + state.invalid = 96
  bspstore : state.bspstore = state.bsp - wordBytes (state.dirty + state.dirtyNat)
  dirty : -96 ≤ state.dirty ∧ state.dirty ≤ 96
  dirtyNat : -2 ≤ state.dirtyNat ∧ state.dirtyNat ≤ 2
  clean : 0 ≤ state.clean ∧ state.clean ≤ 96
  cleanNat : 0 ≤ state.cleanNat ∧ state.cleanNat ≤ 2
  invalid : 0 ≤ state.invalid
  sof : state.cfm.sof ≤ 96

/-- Accepted counts are bounded and cover the file. -/
theorem acceptedCounts {state : MigrationView} {hasClean : Bool}
    (accepted : migrationViewValid state hasClean) : AcceptedCounts state := by
  simp only [migrationViewValid, Bool.and_eq_true] at accepted
  obtain ⟨⟨⟨⟨⟨bounds, partitions⟩, -⟩, -⟩, -⟩, -⟩ := accepted
  simp only [migratedBounds, Bool.and_eq_true, decide_eq_true_eq] at bounds
  simp only [migratedPartitions, Bool.and_eq_true, decide_eq_true_eq] at partitions
  have low : state.bsp.toNat % 8 = 0 := by
    have mask := Nat.and_two_pow_sub_one_eq_mod state.bsp.toNat 3
    have zero : (state.bsp &&& 7).toNat = 0 := by rw [bounds.1.1.1.1.1.2]; rfl
    rw [BitVec.toNat_and] at zero
    have seven : (7 : Word).toNat = 2 ^ 3 - 1 := by decide
    rw [seven, mask] at zero
    exact zero
  refine ⟨?_, partitions.1.1, ?_, by omega, by omega, by omega, by omega, by omega, ?_⟩
  · apply BitVec.eq_of_toNat_eq
    have number := toNat_wordBytes ((state.bsp.toNat / 8 : Nat) : Int)
    have := state.bsp.isLt
    omega
  · rw [partitions.1.2]
    split
    · rfl
    -- Adding the opposite number of words subtracts the words.
    · have opposite := wordBytes_sub 0 (state.dirty + state.dirtyNat)
      have zero : wordBytes 0 = 0 := by decide
      rw [Int.zero_sub, zero] at opposite
      rw [← opposite, BitVec.sub_eq_add_neg, BitVec.sub_eq_add_neg]
      exact congrArg _ (BitVec.zero_add _)
  · have fields := bounds.1.1.1.1.1.1.1.1.1.1.1.1.1.1.1.1.1
    simp only [Cfm.frameFieldsValid, Bool.and_eq_true, decide_eq_true_eq] at fields
    exact fields.1.1

/-- Where the loads stop. -/
theorem loads_stop {base load low : Int} (dirty : Int) {dirtyNat clean cleanNat : Int} (count : Nat)
    (span : load = base - (clean + cleanNat + dirty + dirtyNat))
    (counted : dirtyNat + cleanNat = collections load base)
    (low_eq : low = min load (min (slot (rank base - clean)) ((base / 64 - cleanNat) * 64 + 63)))
    (stopped : 0 ≤ dirty + (rank load - rank (load - count)) ∧
      0 ≤ dirtyNat + collections (load - count) load)
    (due : ∀ earlier < count, dirty + (rank load - rank (load - earlier)) < 0 ∨
      dirtyNat + collections (load - earlier) load < 0) : load - count = low := by
  have registers := rank_sub load base
  have below (word : Int) : word ≤ slot (rank base - clean) ↔ rank word ≤ rank base - clean := by
    have := slot_lt_iff (rank base - clean) word
    omega
  have here := below (load - count)
  simp only [collections] at *
  -- Both counts suffice at the last word, and one of them is short one word above it.
  cases count with
  | zero => omega
  | succ count =>
    have last := due count (by omega)
    have above := below (load - count)
    push_cast at *
    omega

theorem resumed_iff (start : Env) {env : Env} {base : Int} {count : Nat}
    (aligned : start.bsp = wordBytes base)
    (total : (start.cfm.sof : Int) + start.dirty + start.clean + start.invalid = 96)
    (bspstore : start.bspstore = start.bsp - wordBytes (start.dirty + start.dirtyNat))
    (clean : 0 ≤ start.clean)
    (small : start.clean + start.cleanNat.natAbs + start.dirty.natAbs + start.dirtyNat.natAbs +
      count < 2 ^ 29) (loaded : LoadedBy count (loadWord start base) start env)
    (complete : incomplete env = false) :
    Resumed env ↔
      start.dirtyNat + start.cleanNat = collections (loadWord start base) base ∧
      start.cleanNat = collections (loadWord start base - count)
        (loadWord start base - count + start.clean + start.cleanNat) ∧
      rank (loadWord start base) - rank (loadWord start base - count) ≤ start.invalid := by
  obtain ⟨bsp', cfm', clean', cleanNat', dirty', dirtyNat', invalid', bspstore'⟩ := loaded
  simp only [incomplete, Bool.or_eq_false_iff, decide_eq_false_iff_not] at complete
  have words := rank_sub (loadWord start base - count) (loadWord start base)
  have span : loadWord start base =
      base - (start.clean + start.cleanNat + start.dirty + start.dirtyNat) := rfl
  generalize loadWord start base = load at *
  -- The store pointer ends as far above the load pointer as it began.
  have store : env.bspstore = wordBytes (load - count + start.clean + start.cleanNat) := by
    rw [bspstore', bspstore, aligned, wordBytes_sub, wordBytes_sub]
    congr 1
    omega
  have lowest : env.bspstore - wordBytes (env.clean + env.cleanNat) = wordBytes (load - count) := by
    rw [store, clean', cleanNat', wordBytes_sub]
    congr 1
    omega
  have upper :=
    collectionsBetween_wordBytes (load - count + start.clean + start.cleanNat) base (by omega)
  have lower :=
    collectionsBetween_wordBytes (load - count) (load - count + start.clean + start.cleanNat)
    (by omega)
  constructor
  · rintro ⟨-, -, -, -, invalid, -, dirtyCollections, cleanCollections⟩
    rw [store, bsp', aligned, upper] at dirtyCollections
    rw [lowest, store, lower] at cleanCollections
    simp only [collections] at *
    omega
  · rintro ⟨counted, cleanCounted, room⟩
    refine ⟨by omega, by omega, by rw [cfm']; omega, by omega, by omega, ?_, ?_, ?_⟩
    · rw [store, bsp', aligned, wordBytes_sub]
      congr 1
      omega
    · rw [store, bsp', aligned, upper]
      simp only [collections] at *
      omega
    · rw [lowest, store, lower, cleanNat']
      exact cleanCounted

/-- Resuming an accepted state leads to counted partitions exactly from the counts described
above. -/
theorem resumed_iff_resumable (state : MigrationView) (rest : Env)
    (accepted : migrationViewValid state rest.hasCleanPartition = true) :
    Resumed (completeFrameLoads (resume state rest)) ↔ Resumable state := by
  obtain ⟨aligned, total, bspstore, dirty, dirtyNat, clean, cleanNat, -, -⟩ :=
    acceptedCounts accepted
  obtain ⟨count, within, loaded, complete, due⟩ :=
    completeFrameLoads_loaded (show (resume state rest).bsp =
      wordBytes (state.bsp.toNat / 8 : Nat) from aligned)
  rw [resumed_iff (resume state rest) aligned total bspstore clean.1 ?small loaded complete]
  case small =>
    simp only [loadBound, resume] at within ⊢
    omega
  have span : loadWord (resume state rest) ((state.bsp.toNat / 8 : Nat) : Int) =
    (state.bsp.toNat / 8 : Nat) - (state.clean + state.cleanNat + state.dirty + state.dirtyNat) :=
      rfl
  -- Once the counts agree, the loads end at the word that the condition names.
  refine and_congr_right fun counted => ?_
  have stop := loads_stop state.dirty count span counted rfl ?stopped ?due
  case stopped =>
    simp only [incomplete, Bool.or_eq_false_iff, decide_eq_false_iff_not, Int.not_lt] at complete
    rw [loaded.dirty, loaded.dirtyNat] at complete
    exact complete
  case due =>
    intro earlier below
    obtain ⟨before, loaded, missing⟩ := due earlier below
    simp only [incomplete, Bool.or_eq_true, decide_eq_true_eq] at missing
    rw [loaded.dirty, loaded.dirtyNat] at missing
    exact missing
  rw [stop, span]
  rfl

/-- A migrated frame of 96 registers at address 0x1000, of which some are still to be loaded. -/
def partialView (dirty dirtyNat invalid : Int) : MigrationView where
  bsp := 0x1000
  bspstore := 0x1000 - wordBytes (dirty + dirtyNat)
  rnat := 0
  rnatAddr := uint64Max
  rnatDefined := 0
  loadRnat := 0
  loadRnatAddr := 0
  loadRnatDefined := 0
  writebackRnat := .cleared
  rnatShadow := fun _ => ⟨0, 0, 0, false⟩
  pgrNat := (0, 0)
  grDirty := (0, 0)
  bol := 0
  dirty := dirty
  dirtyNat := dirtyNat
  clean := 0
  cleanNat := 0
  invalid := invalid
  rnatShadowCount := 0
  cfm := { Cfm.zero with sof := 96 }
  loadRnatValid := false
  completionPending := false
  completionSourceIp := 0
  completionSourceSlot := 0

/-- A frame missing two registers of its own block resumes. -/
theorem resumed_partialView :
    migrationViewValid (partialView (-2) 0 2) false = true ∧ Resumable (partialView (-2) 0 2) ∧
      Resumed (completeFrameLoads (resume (partialView (-2) 0 2) (reset false fun _ => 0))) :=
  ⟨by decide +kernel, by decide +kernel,
    (resumed_iff_resumable _ (reset false fun _ => 0) (by decide +kernel)).mpr (by decide +kernel)⟩

/-- A collection that does not lie between the pointers is accepted and makes one register too many
be loaded. -/
theorem not_resumed_partialView :
    migrationViewValid (partialView (-2) (-1) 2) false = true ∧
      (completeFrameLoads (resume (partialView (-2) (-1) 2) (reset false fun _ => 0))).invalid =
        -1 ∧
      ¬ Resumed
        (completeFrameLoads (resume (partialView (-2) (-1) 2) (reset false fun _ => 0))) := by
  have invalid :
      (completeFrameLoads (resume (partialView (-2) (-1) 2) (reset false fun _ => 0))).invalid =
        -1 := by
    decide +kernel
  refine ⟨by decide +kernel, invalid, fun resumed => ?_⟩
  have := resumed.invalid
  omega

end Ia64.Rse
