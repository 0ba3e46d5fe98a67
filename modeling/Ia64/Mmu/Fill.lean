import Ia64.Mmu.Purge
import Ia64.Mmu.Vhpt

/-! Filling the software TLB, and the translation of data addresses without a reference. -/

namespace Ia64.Mmu

variable (mmu : State) (addr : Word)

/-- Whether an untranslated address has only implemented bits. -/
def State.paIsImplemented : Bool :=
  let implemented := Pages.pageSize 64 mmu.model.cls.physAddrBits - 1
  addr &&& ~~~((0x8000000000000000 : Word) ||| implemented) == 0

/-- The physical address an untranslated address names. -/
def physicalAddress (addr : Word) : Word := addr &&& ~~~(0x8000000000000000 : Word)

/-- The MMU index of a native reference. -/
def State.mmuIndex (mmu : State) (isIfetch : Bool) : Nat :=
  let psr := mmu.control.psr
  if if isIfetch then psrIt psr else psrDt psr then mmuIdxVirtCpl (psrCpl psr) else mmuPhysIdx

/-- Enter a page into the software TLB. -/
def State.tlbSetEntryPage (mmu : State) (addr pa : Word) (prot : Prot) (mmuIdx : Nat)
    (speculation : MemorySpeculation) (memoryAttribute : Nat) : State :=
  let entry : HostEntry := ⟨targetPage pa, prot, speculation, memoryAttribute⟩
  { mmu with
    host := fun idx page =>
      if idx = mmuIdx ∧ page = targetPage addr then some entry else mmu.host idx page }

/-- How a request to fill the software TLB ends. -/
inductive FillOutcome where
  | installed (prot : Prot)
  | refused
  | raised (excp : Excp)
deriving DecidableEq, Repr

/-- The registers an interruption of a fill leaves to the handler. -/
def State.fillRaise (excp : Excp) : State :=
  if psrIc mmu.control.psr then
    let keepsIha := excp == .altItlb || excp == .altDtlb || excp == .dataNestedTlb ||
      excp == .instKeyMiss || excp == .dataKeyMiss || excp == .keyPermission
    let iha := if keepsIha then mmu.control.iha else mmu.vhptHashAddress addr
    let rr := mmu.rr (rrIndex (if excp == .vhptFault then iha else addr))
    let itir := (rr &&& 0xfc) ||| ((rrRid rr).setWidth 64 <<< 8)
    { mmu with control := { mmu.control with ifa := addr, iha := iha, itir := itir } }
  else mmu

/-- A fill that cannot be served: a probe is refused, a reference raises. -/
def State.fillFails (probe : Bool) (excp : Excp) : FillOutcome × State :=
  if probe then (.refused, mmu) else (.raised excp, mmu.fillRaise addr excp)

/-- A translation found for a reference: where it leads, and what its checks read. -/
structure Translation where
  pa : Word
  perm : Perm
  pte : Word
  key : BitVec 32

/-- The translation of an address, from a TLB or from the walker. -/
def State.fillLookup (isIfetch isRse : Bool) (level : Nat) :
    Option Translation × State :=
  let rid := mmu.regionRid addr
  match mmu.tlbFindCached addr rid isIfetch with
  | (some entry, mmu) =>
    (some ⟨entry.physOf addr, entry.permAt level, entry.pte, entry.key⟩, mmu)
  | (none, mmu) =>
    match mmu.vhptWalkFull addr rid isIfetch isRse level with
    | (some walk, mmu) =>
      -- The checks read the installed entry, if there is one.
      let pte := (walk.entry.map (·.pte)).getD walk.pte
      let key := (walk.entry.map (·.key)).getD walk.key
      (some ⟨walk.pa, walk.perm, pte, key⟩, mmu)
    | (none, mmu) => (none, mmu)

/-- Fill the software TLB from a translation, unless it faults. -/
def State.fillFrom (size : Nat) (access : Access) (mmuIdx : Nat)
    (isRse probe : Bool) (found : Translation) : FillOutcome × State :=
  let isIfetch := access == .fetch
  let (excp, mmu) := mmu.translationExceptionForAccess found.pte found.key found.perm access.needed
    isIfetch (access == .store) isRse
  if excp != .none then mmu.fillFails addr probe excp
  else
    let prot := mmu.tlbProtForPte found.pte found.perm isIfetch
    -- The first-level data TLB is touched first: its replacement may flush the software TLB.
    let mmu := if !isIfetch && !probe then mmu.dataAccess addr size true else mmu
    (.installed prot, mmu.tlbSetEntryPage addr found.pa prot mmuIdx
      (pteMemorySpeculation found.pte) (pteMa found.pte))

/-- The privilege level of a translated reference. -/
def State.fillLevel (mmu : State) (mmuIdx : Nat) (isRse : Bool) : Nat :=
  if isRse then (mmu.control.rsc.extractLsb' 2 2).toNat else mmuIdx - 1

/-- The exception of a reference that neither a TLB nor the walker can translate. -/
def State.fillMiss (isIfetch isRse : Bool) : Excp × State :=
  let nested := !isIfetch && !psrIc mmu.control.psr && !mmu.psrIcInflight
  match mmu.vhptWalkerEnabled addr isIfetch isRse with
  | none =>
    (if nested then .dataNestedTlb else if isIfetch then .altItlb else .altDtlb, mmu)
  | some (size, longFormat) =>
    let miss : Excp := if isIfetch then .itlbFault else .dtlbFault
    if nested then (.dataNestedTlb, mmu)
    else if !mmu.vhptPreferredPageSizeSupported addr then (miss, mmu)
    else
      let entryVa :=
        if longFormat then mmu.vhptLongHashAddress addr size else mmu.vhptShortHashAddress addr size
      let breakpoint := mmu.vhptDataBreakpointMatch entryVa (if longFormat then 32 else 8)
      match mmu.vhptEntryPhys entryVa with
      | (.tlbMiss, mmu) => (.vhptFault, mmu)
      | (.abort, mmu) => (miss, mmu)
      | (.translated entryPa, mmu) =>
        let pte := mmu.control.load entryPa
        let itir := mmu.control.load (entryPa + 8)
        let tag := mmu.control.load (entryPa + 16)
        let readable :=
          if longFormat then
            !tag.getLsbD 63 && tag == mmu.vhptLongTag addr && vhptPteValid pte &&
              mmu.vhptItirValid pte itir
          else vhptPteValid pte
        (if !breakpoint && readable && !ptePresent pte then .pageNotPresent else miss, mmu)

/-- Answer a miss of the software TLB. -/
def State.tlbFill (size : Nat) (access : Access) (mmuIdx : Nat)
    (rseAccess probe : Bool) : FillOutcome × State :=
  let isIfetch := access == .fetch
  let isRse := !isIfetch && rseAccess
  let unimplemented : Excp := if isIfetch then .unimplInstAddr else .unimplDataAddr
  if mmuIdx = mmuPhysIdx then
    if !mmu.paIsImplemented addr then mmu.fillFails addr probe unimplemented
    else
      let uncached := addr.getLsbD 63
      let all : Prot := ⟨true, true, true⟩
      (.installed all, mmu.tlbSetEntryPage addr (physicalAddress addr) all mmuIdx
        (if uncached then .nonSpeculative else .limitedSpeculation) (if uncached then 4 else 0))
  else
    if !mmu.vaIsImplemented addr then mmu.fillFails addr probe unimplemented
    else
      match mmu.firmwareIdentityPa addr with
      | some pa =>
        let prot : Prot := if isIfetch then ⟨false, false, true⟩ else ⟨true, true, false⟩
        (.installed prot, mmu.tlbSetEntryPage addr pa prot mmuIdx .speculative 0)
      | none =>
        match mmu.fillLookup addr isIfetch isRse (mmu.fillLevel mmuIdx isRse) with
        | (some found, mmu) => mmu.fillFrom addr size access mmuIdx isRse probe found
        | (none, mmu) =>
          if probe then (.refused, mmu)
          else
            let (excp, mmu) := mmu.fillMiss addr isIfetch isRse
            mmu.fillFails addr probe excp

/-- The physical address of a data address, as operations other than references compute it. -/
def State.dataAddressToPhys (mmu : State) (va : Word) : Option Word × State :=
  if !psrDt mmu.control.psr then (some (physicalAddress va), mmu)
  else
    match mmu.firmwareIdentityPa va with
    | some pa => (some pa, mmu)
    | none =>
      let level := psrCpl mmu.control.psr
      let rid := mmu.regionRid va
      match mmu.tlbFindCached va rid false with
      | (some entry, mmu) =>
        (if (entry.permAt level).r then some (entry.physOf va) else none, mmu)
      | (none, mmu) =>
        match mmu.vhptWalkFull va rid false false level with
        | (some walk, mmu) => (if walk.perm.r then some walk.pa else none, mmu)
        | (none, mmu) => (none, mmu)

/-- A write to a region register. -/
def State.movRr (mmu : State) (rrAddr value : Word) : State :=
  let index := rrIndex rrAddr
  if mmu.rr index = value then mmu
  else
    let written : State :=
      { mmu with
        rr := Function.update mmu.rr index value
        data := mmu.data.bumpGeneration
        inst := mmu.inst.bumpGeneration }
    written.tlbFlush

end Ia64.Mmu
