import Ia64.Mmu.Insert

/-! Faults a translation raises, in the architected order, and the protection it grants. -/

namespace Ia64.Mmu

open Sweep

variable (psr : Word)

/-- PSR.pk: protection keys are checked. -/
def psrPk : Bool := psr.getLsbD 15

/-- PSR.dt: data references are translated. -/
def psrDt : Bool := psr.getLsbD 17

/-- PSR.rt: register stack references are translated. -/
def psrRt : Bool := psr.getLsbD 27

/-- PSR.it: instruction references are translated. -/
def psrIt : Bool := psr.getLsbD 36

/-- PSR.ic: interruptions are collected. -/
def psrIc : Bool := psr.getLsbD 13

/-- PSR.da: data access and dirty bit faults are disabled for one instruction. -/
def psrDa : Bool := psr.getLsbD 38

/-- PSR.ia: the instruction access bit fault is disabled for one instruction. -/
def psrIa : Bool := psr.getLsbD 45

/-- PSR.cpl: the current privilege level. -/
def psrCpl : Nat := (psr.extractLsb' 32 2).toNat

/-- Whether the granted rights include every needed one. -/
def Perm.includes (perm needed : Perm) : Bool :=
  (!needed.r || perm.r) && (!needed.w || perm.w) && (!needed.x || perm.x)

/-- The right a reference needs. -/
def Access.needed : Access → Perm
  | .load => ⟨true, false, false⟩
  | .store => ⟨false, true, false⟩
  | .fetch => ⟨false, false, true⟩

/-- Valid bit of a protection key register. -/
def pkrValid (pkr : Word) : Bool := pkr.getLsbD 0

/-- The rights a protection key register takes away: read, write and execute disable. -/
def pkrDisables (pkr : Word) : Perm := ⟨pkr.getLsbD 2, pkr.getLsbD 1, pkr.getLsbD 3⟩

variable (mmu : State)

/-- The key bits of a protection key register. -/
def State.pkrKeyMask : Word := (Pages.pageSize 64 mmu.model.cls.keyBits - 1) <<< 8

variable (key : BitVec 32)

/-- The first valid protection key register that holds a key, or zero. -/
def State.scanPkr : Word :=
  match firstSlot 16 fun i =>
      pkrValid (mmu.pkr i) && mmu.pkr i &&& mmu.pkrKeyMask == key.setWidth 64 <<< 8 with
  | some i => mmu.pkr i
  | none => 0

/-- The key cache slot of a key. -/
def keyCacheIndex : Nat := key.toNat % 4

/-- The protection key register a key resolves to, remembered or scanned for. -/
def State.resolveKey : Word :=
  let cached := mmu.keyCache (keyCacheIndex key)
  if cached.valid && cached.key == key then cached.pkr else mmu.scanPkr key

/-- Remember what a key resolves to. -/
def State.rememberKey : State :=
  { mmu with
    keyCache := Function.update mmu.keyCache (keyCacheIndex key) ⟨mmu.resolveKey key, key, true⟩ }

/-- The fault of a key check. -/
def State.keyExceptionForKey (needed : Perm) (isIfetch : Bool) :
    Excp × State :=
  let pkr := mmu.resolveKey key
  let disables := pkrDisables pkr
  let excp :=
    if !pkrValid pkr then if isIfetch then .instKeyMiss else .dataKeyMiss
    else if (needed.r && disables.r) || (needed.w && disables.w) || (needed.x && disables.x) then
      .keyPermission
    else .none
  (excp, mmu.rememberKey key)

/-- Whether references of a kind have their keys checked. -/
def State.keyCheckEnabled (isIfetch isRse : Bool) : Bool :=
  let psr := mmu.control.psr
  psrPk psr && if isIfetch then psrIt psr else if isRse then psrRt psr else psrDt psr

/-- The fault of a key check, if keys are checked at all. -/
def State.keyExceptionForAccess (needed : Perm)
    (isIfetch isRse : Bool) : Excp × State :=
  if !mmu.keyCheckEnabled isIfetch isRse then (.none, mmu)
  else mmu.keyExceptionForKey key needed isIfetch

variable (pte : Word)

/-- The faults of a page table entry's own bits, apart from the deferred ones. -/
def pteExceptionForAccessMasked (perm needed : Perm) (isIfetch isWrite : Bool)
    (psr : Word) (deferred : Excp → Bool) : Excp :=
  let access := if isIfetch then Excp.instAccess else .dataAccess
  let accessed := if isIfetch then Excp.instAccessBit else .dataAccessBit
  if !ptePresent pte then .pageNotPresent
  else if !perm.includes needed && !deferred access then access
  else if isIfetch then
    if !pteAccessed pte && !psrIa psr && !deferred accessed then .instAccessBit else .none
  -- The dirty bit fault outranks the access bit fault.
  else if isWrite && !pteDirty pte && !psrDa psr && !deferred .dataDirty then .dataDirty
  else if !pteAccessed pte && !psrDa psr && !deferred accessed then .dataAccessBit
  else .none

/-- The faults of a translation: not present, NaT page, key, rights, dirty bit, access bit. -/
def State.translationExceptionForAccessMasked (key : BitVec 32)
    (perm needed : Perm) (isIfetch isWrite isRse : Bool) (deferred : Excp → Bool) : Excp × State :=
  if !ptePresent pte then (.pageNotPresent, mmu)
  else if pteMa pte == maNatPage && !deferred .natConsumption then (.natConsumption, mmu)
  else
    let (excp, mmu) := mmu.keyExceptionForAccess key needed isIfetch isRse
    if excp != .none && !deferred excp then (excp, mmu)
    else
      (pteExceptionForAccessMasked pte perm needed isIfetch isWrite mmu.control.psr deferred, mmu)

/-- The faults of a translation when none is deferred. -/
def State.translationExceptionForAccess (key : BitVec 32)
    (perm needed : Perm) (isIfetch isWrite isRse : Bool) : Excp × State :=
  mmu.translationExceptionForAccessMasked pte key perm needed isIfetch isWrite isRse fun _ => false

/-- The faults of a translation held in a TLB. -/
def State.tlbExceptionForAccess (entry : TlbEntry) (perm needed : Perm)
    (isIfetch isWrite isRse : Bool) : Excp × State :=
  mmu.translationExceptionForAccess entry.pte entry.key perm needed isIfetch isWrite isRse

/-- The protection that rights stand for. -/
def tlbPermToProt (perm : Perm) : Prot := ⟨perm.r, perm.w, perm.x⟩

/-- The protection a software TLB entry gets from a page table entry and its rights. -/
def tlbProtForPtePsr (perm : Perm) (isIfetch : Bool) (psr : Word) : Prot :=
  let granted := tlbPermToProt perm
  -- Instruction and data translations are cached independently.
  let sided : Prot :=
    if isIfetch then ⟨false, false, granted.exec⟩ else ⟨granted.read, granted.write, false⟩
  if !isIfetch && !psrDa psr then
    let accessed : Prot := if !pteAccessed pte then ⟨false, false, sided.exec⟩ else sided
    -- A later store must come back for the dirty bit fault.
    if !pteDirty pte then { accessed with write := false } else accessed
  else if isIfetch && !psrIa psr && !pteAccessed pte then { sided with exec := false }
  else sided

/-- The protection under the current PSR. -/
def State.tlbProtForPte (perm : Perm) (isIfetch : Bool) : Prot :=
  tlbProtForPtePsr pte perm isIfetch mmu.control.psr

/-- How freely a page may be referenced, from its memory attribute. -/
def pteMemorySpeculation : MemorySpeculation :=
  match pteMa pte with
  | 0 | 6 | 7 => .speculative
  | _ => .nonSpeculative

end Ia64.Mmu
