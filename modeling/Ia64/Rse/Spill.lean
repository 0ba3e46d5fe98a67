import Ia64.Rse.Latch
import Ia64.Rse.View

/-! Single mandatory stores and loads of the register stack engine. -/

namespace Ia64.Rse

/-- Byte offset of a signed number of backing-store words. -/
def wordBytes (words : Int) : Word := BitVec.ofInt 64 (words * 8)

/-- Truncation to a signed 32-bit integer. -/
def int32 (value : Int) : Int := value.bmod (2 ^ 32)

/-- Collection words that the source counts between two addresses. -/
def collectionsBetween (low high : Word) : Int :=
  -- The difference of the two block numbers, as a 32-bit integer.
  int32 ((high >>> 9).toNat - (low >>> 9).toNat)

/-- Whether an address is that of a collection word. -/
def atCollection (addr : Word) : Bool := collectBit addr = 63

/-- Known NaT bits of the collection that covers a mandatory load. -/
def fillSource (env : Env) (addr : Word) : Collection :=
  let latches := env.latches
  let collectionAddr := collectWord addr
  let base : Collection :=
    if latches.loadRnatValid ∧ latches.loadRnatAddr = collectionAddr
      then loadAt latches collectionAddr
    -- BSPSTORE has passed the collection word, so memory holds the architected collection.
    else if collectionAddr < env.bspstore then ⟨env.mem collectionAddr &&& int64Max, int64Max⟩
    else .empty
  (base.overlay (shadowAt latches.rnatShadow collectionAddr)).overlay
    (spillAt latches collectionAddr)

/-- Put a collection into the fill latch, saving the one it displaces. -/
def loadLatch (latches : Latches) (addr : Word) (collection : Collection) : Latches :=
  { loadRnatStash latches addr with
    loadRnat := collection.value
    loadRnatAddr := addr
    loadRnatDefined := collection.defined
    loadRnatValid := true }

/-- The fill-side image of the collection that covers a mandatory load. -/
def fillCollection (env : Env) (addr : Word) : Collection :=
  let source := fillSource env addr
  -- Unknown bits resolve to zero.
  ⟨source.value &&& (source.defined &&& int64Max), source.defined⟩

variable (env : Env) (bspload : Word)

/-- Reload the collection word below the clean partition. -/
def loadCollectionWord : Env :=
  { env with
    latches := loadLatch env.latches (collectWord bspload) ⟨env.mem bspload &&& int64Max, int64Max⟩
    cleanNat := env.cleanNat + 1 }

/-- Load the register below the clean partition into an invalid physical register. -/
def loadRegister : Env :=
  let value := env.mem bspload
  let p := wrapPhys ((env.bol : Int) - (env.clean + env.dirty + 1))
  let filled := fillCollection env bspload
  let nat := filled.value.getLsbD (collectBit bspload)
  let v := physToVirt env p
  { env with
    latches := loadLatch env.latches (collectWord bspload) filled
    pgr := Function.update env.pgr p value
    pgrNat := Function.update env.pgrNat p nat
    clean := env.clean + 1
    invalid := env.invalid - 1
    -- A load into the current frame keeps the virtual view in step.
    gr := if v < env.cfm.sof then Function.update env.gr (32 + v) value else env.gr
    nat := if v < env.cfm.sof then Function.update env.nat (32 + v) nat else env.nat }

/-- One mandatory load. -/
def loadOne : Env :=
  if atCollection bspload then loadCollectionWord env bspload else loadRegister env bspload

end Ia64.Rse
