import Ia64.Alat.Invariant
import Ia64.Mmu.RepeatedLookups

/-! Stores of the processor itself, and which of its advanced loads they end. -/

namespace Ia64.Alat

open Atomic BitSets Mmu State

section Stores

/-- The MMU index of a store: spills of the register stack go by PSR.rt, all other stores by
PSR.dt. -/
def storeIndex (mmu : State) (rse : Bool) : Nat :=
  if rse then if psrRt mmu.control.psr then mmuIdxRse else mmuPhysIdx else mmu.mmuIndex false

/-- The physical page that a store to one page reaches, unless the store faults. -/
def storePage (mmu : State) (va : Word) (size idx : Nat) (rse : Bool) : Option (Word × State) :=
  match (mmu.host idx (targetPage va)).filter (·.prot.write) with
  | some entry => some (entry.physAddr, mmu)
  | none =>
    match mmu.tlbFill va size .store idx rse false with
    | (.installed _, mmu) => (mmu.host idx (targetPage va)).map fun entry => (entry.physAddr, mmu)
    | _ => none

/-- The physical bytes that a store writes, unless it faults. -/
def storeBytes (mmu : State) (va : Word) (size : Nat) (rse : Bool) : Option (List Word × State) :=
  let idx := storeIndex mmu rse
  let offset := (va &&& 0xfff).toNat
  let near := min size (4096 - offset)
  match storePage mmu va near idx rse with
  | none => none
  | some (page, mmu) =>
    let written := (List.range near).map fun k => page + BitVec.ofNat 64 (offset + k)
    if near = size then some (written, mmu)
    else
      -- A store that leaves its page needs the next one before it writes anything.
      match storePage mmu (va + BitVec.ofNat 64 near) (size - near) idx rse with
      | none => none
      | some (next, mmu) =>
        some (written ++ (List.range (size - near)).map fun k => next + BitVec.ofNat 64 k, mmu)

/-- The data translation as the table uses it; what kind of memory the page is does not matter to a
store. -/
def dataTranslation (mmu : State) : Translate := fun va =>
  (mmu.dataAddressToPhys va).1.map fun pa => (pa, .speculative)

/-- A store of the processor inside its store scope. -/
def Table.ownStore (host : Host) (translate : Translate) (a : Table) (va : Word) (size : Nat)
    (bytes : List Word) : Run Table := do
  let a ← a.writeBegin host
  let _ ← (Prog.act (Action.writeRam bytes) : Run Unit)
  a.writeEnd host translate va size

/-- Whether a byte lies in the range of an entry. -/
def Entry.tracks (entry : Entry) (byte : Word) : Bool :=
  rangesOverlap byte 1 entry.physAddr (BitVec.ofNat 64 entry.size)

end Stores

theorem lastByte (byte : Word) :
    (if byte + 1 - 1 < byte then BitVec.allOnes 64 else byte + 1 - 1) = byte := by
  rw [BitVec.add_sub_cancel, if_neg (BitVec.lt_irrefl byte)]

theorem rangesOverlap_byte (start size byte : Word) :
    rangesOverlap start size byte 1 ↔
      size ≠ 0 ∧ start ≤ byte ∧
        byte ≤ if start + size - 1 < start then BitVec.allOnes 64 else start + size - 1 := by
  unfold rangesOverlap
  rw [lastByte]
  by_cases empty : size = 0 <;> simp [empty]

variable {byte va : Word} {mmu after : State} {size : Nat} {rse : Bool} {bytes : List Word}

theorem rangesOverlap_of_byte {pa size start length : Word} (inside : rangesOverlap pa size byte 1)
    (tracked : rangesOverlap byte 1 start length) : rangesOverlap pa size start length := by
  unfold rangesOverlap at inside tracked ⊢
  rw [lastByte] at inside tracked
  by_cases empty : size = 0
  · simp [empty] at inside
  · by_cases none : length = 0
    · simp [none] at tracked
    · simp only [empty, none, decide_false, Bool.or_self, Bool.false_eq_true, if_false,
        Bool.and_eq_true, decide_eq_true_eq, Bool.or_false, Bool.false_or] at inside tracked ⊢
      have one : ¬(1 : Word) = 0 := by decide
      simp only [one, if_false, Bool.and_eq_true, decide_eq_true_eq] at inside tracked
      exact ⟨BitVec.le_trans inside.1 tracked.1, BitVec.le_trans tracked.2 inside.2⟩

namespace Table

variable {base a : Table}

/-- A part of a table none of whose entries overlaps a range. -/
structure Freed (base : Table) (pa size : Word) (a : Table) : Prop where
  part : Part base a
  free : ∀ i < alatEntries, (a.entry i).valid →
    rangesOverlap pa size (a.entry i).physAddr (BitVec.ofNat 64 (a.entry i).size) = false

variable {pa size : Word}

theorem Part.freed_of_empty (part : Part base a)
    (empty : ∀ i < alatEntries, (a.entry i).valid = false) : Freed base pa size a :=
  ⟨part, fun i inside valid => by simp [empty i inside] at valid⟩

theorem Part.freed_clear (part : Part base a) (generation : Word) :
    Freed base pa size { a.clear with memoryWriteGeneration := generation } :=
  (part.clear generation).freed_of_empty fun _ inside => part.wf.clear_valid inside

/-- The loop misses no entry that overlaps. -/
theorem Part.freed_overlapping (part : Part base a) (pa size : Word) :
    Freed base pa size (a.invalidateOverlapping pa size) := by
  -- Entries that overlap are only left where the loop has still to go.
  have left : ∀ i < alatEntries, ((a.invalidateOverlapping pa size).entry i).valid →
      rangesOverlap pa size ((a.invalidateOverlapping pa size).entry i).physAddr
        (BitVec.ofNat 64 ((a.invalidateOverlapping pa size).entry i).size) →
      (0 : BitVec 32).getLsbD i := by
    refine sweepBits_induction (P := fun (rest : BitVec 32) (now : Table) => ∀ i < alatEntries,
      (now.entry i).valid →
      rangesOverlap pa size (now.entry i).physAddr (BitVec.ofNat 64 (now.entry i).size) →
      rest.getLsbD i) (fun i inside valid _ => (part.wf.occupied i inside).trans valid) ?_
    intro rest now nonzero remaining
    by_cases dropped : rangesOverlap pa size (now.entry (lowest rest)).physAddr
        (BitVec.ofNat 64 (now.entry (lowest rest)).size)
    · -- The visited entry is gone, the others are as before.
      rw [if_pos dropped]
      intro i inside valid overlaps
      rw [invalidateEntry_entry] at valid overlaps
      rw [getLsbD_and_pred nonzero]
      by_cases here : i = lowest rest
      · simp [here] at valid
      · rw [if_neg here] at valid overlaps
        simp [remaining i inside valid overlaps, here]
    · rw [if_neg dropped]
      intro i inside valid overlaps
      have apart : i ≠ lowest rest := fun here => dropped (here ▸ overlaps)
      rw [getLsbD_and_pred nonzero]
      simp [remaining i inside valid overlaps, apart]
  refine ⟨part.invalidateOverlapping pa size, fun i inside valid => ?_⟩
  by_contra overlaps
  have bit := left i inside valid (by simpa using overlaps)
  simp at bit

variable {host : Host} {translate : Translate}

theorem Part.freed_invala (part : Part base a) : (a.invala host).Always (Freed base pa size) := by
  unfold Table.invala
  exact Prog.always_bind_of_forall fun generation => part.freed_clear generation

theorem Part.freed_physRange (part : Part base a) (pa size : Word) :
    (a.invalidatePhysRange host pa size).Always (Freed base pa size) := by
  unfold Table.invalidatePhysRange
  split
  · rename_i none
    exact part.freed_of_empty fun _ => part.wf.empty_of_count none
  · refine (syncMemoryWrites_always a).bind fun result shape => ?_
    rcases shape with rfl | ⟨generation, rfl⟩
    · exact part.freed_overlapping pa size
    · exact part.freed_clear generation

variable {va : Word} {length : Nat} {spec : MemorySpeculation}

theorem Part.freed_writeEnd (part : Part base a) (observed : a.writeObserved)
    (translated : translate va = some (pa, spec)) :
    (a.writeEnd host translate va length).Always (Freed base pa (BitVec.ofNat 64 length)) := by
  unfold Table.writeEnd Table.writeFinish Table.writeTakeToken
  dsimp only
  rw [Prog.always_bind, if_pos observed, Prog.always_bind]
  refine Prog.always_of_forall (fun sequence => ?_) _
  refine Prog.always_bind_of_forall fun _ => ?_
  -- Closing the scope changes no entry.
  have closed : Part base { a with writeActive := false, writeObserved := false } :=
    part.of_eq rfl rfl rfl rfl
  rw [Prog.pure_eq, Prog.always_done]
  dsimp only
  split
  · rename_i active
    split
    · exact closed.freed_invala
    · refine Prog.always_bind_of_forall fun changed => ?_
      split
      · exact closed.freed_invala
      · have counted : ¬a.activeCount = 0 := active.2
        simp only [Table.invalidateStore, counted, if_false, translated]
        exact (closed.withGeneration _).freed_physRange pa _
  · rename_i inactive
    exact closed.freed_of_empty fun _ => closed.wf.empty_of_count (by simpa using inactive)

/-- A store in its scope frees its translated range. -/
theorem Wf.freed_ownStore (wf : a.Wf) (full : a.full)
    (translated : translate va = some (pa, spec)) (bytes : List Word) :
    (a.ownStore host translate va length bytes).Always (Freed a pa (BitVec.ofNat 64 length)) := by
  unfold Table.ownStore Table.writeBegin
  dsimp only
  rw [if_pos full, Prog.always_bind, Prog.always_bind]
  refine Prog.always_of_forall (fun sequence => ?_) _
  refine Prog.always_bind_of_forall fun _ => ?_
  rw [Prog.pure_eq, Prog.always_done, Prog.always_bind]
  refine Prog.always_of_forall (fun _ => ?_) _
  -- The scope is observed because the full model is in use.
  have opened : Part a { a with
      writeGeneration := a.memoryWriteGeneration, writeObserved := a.full, writeActive := true } :=
    wf.part.of_eq rfl rfl rfl rfl
  exact opened.freed_writeEnd full translated

theorem overlapping_keeps {i : Nat}
    (apart : rangesOverlap pa size (a.entry i).physAddr
      (BitVec.ofNat 64 (a.entry i).size) = false) :
    (a.invalidateOverlapping pa size).entry i = a.entry i := by
  -- The entry is as it was when its own slot is visited.
  refine sweepBits_induction (P := fun (_ : BitVec 32) (now : Table) => now.entry i = a.entry i) rfl
    fun rest now _ same => ?_
  by_cases here : i = lowest rest
  · subst here
    rw [same, apart]
    exact same
  · split
    · rw [invalidateEntry_entry, if_neg here, same]
    · exact same

end Table

/-- The data translation of a store's address leads to all bytes that the store wrote. -/
def Followed (after : State) (va : Word) (size : Nat) (bytes : List Word) : Prop :=
  ∃ pa, (after.dataAddressToPhys va).1 = some pa ∧
    ∀ byte ∈ bytes, rangesOverlap pa (BitVec.ofNat 64 size) byte 1

/-- The table of a single processor that tracks one byte. -/
def trackingTable (byte : Word) : Table := (Table.reset true).publish 0 8 false byte 1

theorem reachable_tracking (byte : Word) : Reachable ⟨0, [0]⟩ (trackingTable byte) := by
  -- No sequence has moved, so both windows of the load stay closed.
  refine .step (.reset true) (fun _ => some (byte, .speculative)) (.set 8 0 1 0) ?_
  exact ⟨(0 : Word), (0 : Word), (0 : Nat), (0 : Word), (0 : Nat), (0 : Word), (0 : Word),
    (0 : Nat), (0 : Word), (0 : Nat), rfl⟩

theorem tracks_own (byte : Word) : ((trackingTable byte).entry 0).tracks byte := by
  have first : ((trackingTable byte).entry 0).tracks byte = rangesOverlap byte 1 byte 1 := rfl
  rw [first, rangesOverlap_byte, lastByte]
  exact ⟨by decide, BitVec.le_refl byte, BitVec.le_refl byte⟩

/-- A store writes at least the byte at its address. -/
theorem storeBytes_first
    (sized : 0 < size) (stored : storeBytes mmu va size rse = some (bytes, after)) :
    ∃ byte, byte ∈ bytes := by
  have offset : (va &&& 0xfff).toNat < 4096 := by
    have bound := BitVec.toNat_and va 0xfff
    have small : va.toNat &&& (0xfff : Word).toNat ≤ 0xfff := Nat.and_le_right
    omega
  have near : 0 < min size (4096 - (va &&& 0xfff).toNat) := by omega
  unfold storeBytes at stored
  dsimp only at stored
  split at stored
  · cases stored
  · rename_i page first _
    have member : page + BitVec.ofNat 64 ((va &&& 0xfff).toNat + 0) ∈
        (List.range (min size (4096 - (va &&& 0xfff).toNat))).map fun k =>
          page + BitVec.ofNat 64 ((va &&& 0xfff).toNat + k) :=
      List.mem_map.mpr ⟨0, List.mem_range.mpr near, rfl⟩
    split at stored
    · obtain ⟨rfl, -⟩ := Prod.mk.inj (Option.some.inj stored)
      exact ⟨_, member⟩
    · split at stored
      · cases stored
      · obtain ⟨rfl, -⟩ := Prod.mk.inj (Option.some.inj stored)
        exact ⟨_, List.mem_append_left _ member⟩

theorem ownStore_survived {translate : Translate}
    (missed : ∀ pa spec, translate va = some (pa, spec) →
      rangesOverlap pa (BitVec.ofNat 64 size) byte 1 = false)
    (bytes : List Word) :
    ∃ b, ((trackingTable byte).ownStore ⟨0, [0]⟩ translate va size bytes).Returns b ∧
      (b.entry 0).valid := by
  let closed : Table := { trackingTable byte with memoryWriteGeneration := 2 }
  -- The processor's own sequence is the only one that moves, from zero to two.
  have finished : ∀ b, (closed.invalidateStore ⟨0, [0]⟩ translate va size).Returns b →
      ((trackingTable byte).ownStore ⟨0, [0]⟩ translate va size bytes).Returns b :=
        fun b returned =>
    ⟨(0 : Word), (), (), (1 : Word), (), (0 : Word), (2 : Word), (0 : Nat), (0 : Word),
      (0 : Nat), returned⟩
  have active : ¬closed.activeCount = 0 := Nat.one_ne_zero
  cases translated : translate va with
  | none =>
    -- The address has no translation, so nothing is looked for.
    refine ⟨closed, finished closed ?_, rfl⟩
    simp only [Table.invalidateStore, active, if_false, translated]
    rfl
  | some found =>
    obtain ⟨pa, spec⟩ := found
    have apart := missed pa spec translated
    -- The range that is looked for does not hold the byte.
    refine ⟨closed.invalidateOverlapping pa (BitVec.ofNat 64 size), finished _ ?_, ?_⟩
    · simp only [Table.invalidateStore, Table.invalidatePhysRange, active, if_false, translated]
      exact ⟨(0 : Word), (2 : Word), rfl⟩
    · rw [Table.overlapping_keeps (by exact apart)]
      rfl

/-- Whatever the other processors do, the store leaves no entry that tracks one of the bytes it
wrote. -/
def StoreForgets (after : State) (va : Word) (size : Nat) (bytes : List Word) : Prop :=
  ∀ (host : Host) (a : Table), Reachable host a → a.full →
    (a.ownStore host (dataTranslation after) va size bytes).Always fun b =>
      ∀ i < alatEntries, (a.entry i).valid → (∃ byte ∈ bytes, (a.entry i).tracks byte) →
        (b.entry i).valid = false

theorem forgets_iff_followed
    (sized : 0 < size) (stored : storeBytes mmu va size rse = some (bytes, after)) :
    StoreForgets after va size bytes ↔ Followed after va size bytes := by
  constructor
  · intro forgets
    -- A byte that is not followed could be tracked.
    have followed : ∀ byte ∈ bytes, ∃ pa, (after.dataAddressToPhys va).1 = some pa ∧
        rangesOverlap pa (BitVec.ofNat 64 size) byte 1 := by
      intro byte written
      by_contra lost
      have missed : ∀ pa spec, dataTranslation after va = some (pa, spec) →
          rangesOverlap pa (BitVec.ofNat 64 size) byte 1 = false := by
        intro pa spec translated
        obtain ⟨found, address, same⟩ := Option.map_eq_some_iff.mp translated
        obtain ⟨rfl, -⟩ := Prod.mk.inj same
        by_contra overlaps
        exact lost ⟨found, address, by simpa using overlaps⟩
      obtain ⟨b, returned, valid⟩ := ownStore_survived missed bytes
      have gone := (forgets _ _ (reachable_tracking byte) rfl).of_returns returned 0 (by decide) rfl
        ⟨byte, written, tracks_own byte⟩
      rw [gone] at valid
      cases valid
    obtain ⟨byte, written⟩ := storeBytes_first sized stored
    obtain ⟨pa, address, -⟩ := followed byte written
    refine ⟨pa, address, fun other member => ?_⟩
    obtain ⟨same, again, covered⟩ := followed other member
    rw [address] at again
    exact Option.some.inj again ▸ covered
  · rintro ⟨pa, address, covered⟩ host a reachable full
    have translated : dataTranslation after va = some (pa, .speculative) := by
      simp [dataTranslation, address]
    refine (reachable.wf.freed_ownStore full translated bytes).mono
      fun b freed i inside valid tracked => ?_
    obtain ⟨byte, written, tracks⟩ := tracked
    -- An entry that is left is an old one, and it is not in the range.
    by_contra left
    have still : (b.entry i).valid := by simpa using left
    have apart := freed.free i inside still
    rw [freed.part.entry i inside still,
      rangesOverlap_of_byte (covered byte written) tracks] at apart
    cases apart

section Bits

variable {mmu after : State} {va : Word} {rse : Bool} {entry : TlbEntry}

/-- Whether the references of a store are translated. -/
def translatesStore (psr : Word) (rse : Bool) : Bool := if rse then psrRt psr else psrDt psr

/-- A store whose address an entry of the data TLB translates, and which the software TLB, if it has
the page, sends where the entry or the untranslated address leads. -/
structure Consulted (mmu : State) (va : Word) (rse : Bool) (entry : TlbEntry) : Prop where
  plain : mmu.dtlb1Enabled = false
  outside : mmu.firmwareIdentityPa va = none
  placed : ∀ host, mmu.host (storeIndex mmu rse) (targetPage va) = some host → host.prot.write →
    host.physAddr = targetPage (if translatesStore mmu.control.psr rse then entry.physOf va
      else physicalAddress va)
  found : (mmu.tlbFindCached va (mmu.regionRid va) false).1 = some entry
  sized : entry.Sized

theorem storeIndex_phys_iff :
    storeIndex mmu rse = mmuPhysIdx ↔ translatesStore mmu.control.psr rse = false := by
  unfold storeIndex translatesStore mmuIndex
  cases rse <;> cases psrRt mmu.control.psr <;> cases data : psrDt mmu.control.psr <;>
    simp [data, mmuPhysIdx, mmuIdxRse, mmuIdxVirtCpl]

theorem tlbFindCached_of_data (first second : State) (plain : first.dtlb1Enabled = false)
    (other : second.dtlb1Enabled = false) (data : second.data = first.data) (rid : BitVec 32) :
    (second.tlbFindCached va rid false).1 = (first.tlbFindCached va rid false).1 := by
  unfold tlbFindCached
  simp only [tlb, Bool.not_false, if_true, data]
  split
  · rfl
  · split
    · rfl
    · rw [tlbFindSlow_plain second va rid false (by simp [other]),
        tlbFindSlow_plain first va rid false (by simp [plain])]
      simp [tlb, data]

variable {size : Nat} {address va : Word} {bytes : List Word}

/-- What a fill for such a store leaves. -/
theorem Consulted.filled (consulted : Consulted mmu va rse entry) {prot : Prot}
    (filled : mmu.tlbFill va size .store (storeIndex mmu rse) rse false =
      (.installed prot, after)) :
    (∃ host, after.host (storeIndex mmu rse) (targetPage va) = some host ∧
        host.physAddr = targetPage (if translatesStore mmu.control.psr rse then entry.physOf va
          else physicalAddress va)) ∧
      after.control = mmu.control ∧ after.rr = mmu.rr ∧
      (after.tlbFindCached va (mmu.regionRid va) false).1 = some entry := by
  by_cases phys : storeIndex mmu rse = mmuPhysIdx
  · -- An untranslated store looks nothing up.
    rw [if_neg (by simp [storeIndex_phys_iff.mp phys])]
    simp only [tlbFill, phys, if_true] at filled
    split at filled
    · simp [fillFails] at filled
    · obtain ⟨-, rfl⟩ := Prod.mk.inj filled
      refine ⟨⟨_, by rw [phys]; simp [tlbSetEntryPage]; rfl, rfl⟩, rfl, rfl, ?_⟩
      rw [← consulted.found]
      exact tlbFindCached_of_data mmu (mmu.tlbSetEntryPage _ _ _ _ _ _) consulted.plain
        consulted.plain rfl _
  · have on : translatesStore mmu.control.psr rse := by
      rw [← Bool.not_eq_false]
      exact fun off => phys (storeIndex_phys_iff.mpr off)
    rw [if_pos on]
    by_cases implemented : mmu.vaIsImplemented va
    · cases answer : mmu.tlbFindCached va (mmu.regionRid va) false with
      | mk found looked =>
        have hit : found = some entry := by rw [← consulted.found, answer]
        subst hit
        have lookup : mmu.fillLookup va false rse (mmu.fillLevel (storeIndex mmu rse) rse) =
            (some ⟨entry.physOf va, entry.permAt (mmu.fillLevel (storeIndex mmu rse) rse),
              entry.pte, entry.key⟩, looked) := by
          simp only [fillLookup, answer]
        rw [tlbFill_modeled (by decide) phys implemented consulted.outside lookup] at filled
        have registers := (@tlbFindCached_looks mmu va (mmu.regionRid va) false False).registers
        have again := tlbFindCached_again mmu va (mmu.regionRid va) false
        rw [answer] at registers again
        dsimp only at registers again
        have plain : looked.dtlb1Enabled = false := by
          rw [dtlb1Enabled, registers.model]
          exact consulted.plain
        -- The checks touch the key cache and the fill the software TLB, neither of which the lookup
        -- reads.
        obtain ⟨keyCache, checked⟩ := translationException_state looked entry.pte entry.key
          (entry.permAt (mmu.fillLevel (storeIndex mmu rse) rse)) Access.store.needed false true rse
        simp only [fillFrom, show (Access.store == Access.fetch) = false from rfl,
          show (Access.store == Access.store) = true from rfl, checked] at filled
        split at filled
        · simp [fillFails] at filled
        · have untouched : dataAccess { looked with keyCache := keyCache } va size true =
              { looked with keyCache := keyCache } := by
            simp [dataAccess, show dtlb1Enabled { looked with
              keyCache := keyCache } = false from plain]
          simp only [Bool.not_false, Bool.and_self, if_true, untouched] at filled
          obtain ⟨-, rfl⟩ := Prod.mk.inj filled
          refine ⟨⟨_, by simp [tlbSetEntryPage]; rfl, rfl⟩, registers.control, registers.rr, ?_⟩
          rw [tlbFindCached_of_data looked _ plain, again]
          · exact plain
          · rfl
    · exfalso
      simp [tlbFill, phys, implemented, fillFails] at filled

/-- The data translation after such a store. -/
theorem Consulted.translation (consulted : Consulted mmu va rse entry)
    (control : after.control = mmu.control) (rr : after.rr = mmu.rr)
    (found : (after.tlbFindCached va (mmu.regionRid va) false).1 = some entry) :
    (after.dataAddressToPhys va).1 =
      if psrDt mmu.control.psr then
        if (entry.permAt (psrCpl mmu.control.psr)).r then some (entry.physOf va) else none
      else some (physicalAddress va) := by
  have rid : after.regionRid va = mmu.regionRid va := by rw [regionRid, rr, regionRid]
  have outside : after.firmwareIdentityPa va = none := by
    rw [← consulted.outside, firmwareIdentityPa, control, firmwareIdentityPa]
  cases answer : after.tlbFindCached va (mmu.regionRid va) false with
  | mk hit looked =>
    have same : hit = some entry := by rw [← found, answer]
    subst same
    cases data : psrDt mmu.control.psr <;>
      simp [dataAddressToPhys, control, data, outside, rid, answer]

/-- A byte of a page, counted from another one. -/
theorem page_add (offset : address &&& 0xfff = va &&& 0xfff) (k : Nat) :
    targetPage address + BitVec.ofNat 64 ((va &&& 0xfff).toNat + k) =
      address + BitVec.ofNat 64 k := by
  have parts : targetPage address + (address &&& 0xfff) = address := by
    -- The two parts have no bit in common.
    have disjoint : targetPage address &&& (address &&& 0xfff) = 0 := by
      apply BitVec.eq_of_getLsbD_eq
      intro i _
      simp only [targetPage, BitVec.getLsbD_and, BitVec.getLsbD_not]
      cases BitVec.getLsbD (0xfff : Word) i <;> simp
    rw [BitVec.add_eq_or_of_and_eq_zero _ _ disjoint]
    apply BitVec.eq_of_getLsbD_eq
    intro i inside
    simp only [targetPage, BitVec.getLsbD_and, BitVec.getLsbD_not, BitVec.getLsbD_or,
      inside, decide_true]
    cases BitVec.getLsbD (0xfff : Word) i <;> simp
  rw [BitVec.ofNat_add, BitVec.ofNat_toNat, BitVec.setWidth_eq, ← offset, ← BitVec.add_assoc, parts]

theorem offset_mod (address : Word) : (address &&& 0xfff).toNat = address.toNat % 4096 := by
  rw [BitVec.toNat_and]
  exact Nat.and_two_pow_sub_one_eq_mod address.toNat 12

theorem range_covers_iff {other : Word} (sized : 0 < size)
    (inside : (va &&& 0xfff).toNat + size ≤ 4096) (offset : address &&& 0xfff = va &&& 0xfff)
    (same : other &&& 0xfff = va &&& 0xfff) :
    (∀ k < size, rangesOverlap address (BitVec.ofNat 64 size) (other + BitVec.ofNat 64 k) 1) ↔
      address = other := by
  have first := congrArg BitVec.toNat offset
  have second := congrArg BitVec.toNat same
  rw [offset_mod, offset_mod] at first second
  rw [offset_mod] at inside
  have bound := address.isLt
  have otherBound := other.isLt
  -- Inside a page no range wraps.
  have last : (address + BitVec.ofNat 64 size - 1).toNat = address.toNat + size - 1 := by
    bv_omega
  have byte : ∀ k < size, (other + BitVec.ofNat 64 k).toNat = other.toNat + k := by
    intro k below
    bv_omega
  have straight : ¬address + BitVec.ofNat 64 size - 1 < address := by
    rw [BitVec.lt_def, last]
    omega
  have nonempty : BitVec.ofNat 64 size ≠ 0 := by
    bv_omega
  constructor
  · intro covered
    have low := ((rangesOverlap_byte _ _ _).mp (covered 0 sized)).2.1
    have high := ((rangesOverlap_byte _ _ _).mp (covered (size - 1) (by omega))).2.2
    rw [if_neg straight] at high
    rw [BitVec.le_def] at low high
    rw [byte 0 sized] at low
    rw [byte _ (by omega), last] at high
    exact BitVec.eq_of_toNat_eq (by omega)
  · rintro rfl k below
    rw [rangesOverlap_byte, if_neg straight, BitVec.le_def, BitVec.le_def, byte k below, last]
    exact ⟨nonempty, by omega, by omega⟩

theorem offset_eq_of_low (low : ∀ i < 12, address.getLsbD i = va.getLsbD i) :
    address &&& 0xfff = va &&& 0xfff := by
  apply BitVec.eq_of_getLsbD_eq
  intro i _
  rw [show (0xfff : Word) = Pages.pageSize 64 12 - 1 from by decide, BitVec.getLsbD_and,
    BitVec.getLsbD_and, Pages.getLsbD_pageSize_sub_one (by decide)]
  by_cases small : i < 12
  · rw [low i small]
  · simp [small]

theorem physOf_offset (sized : entry.Sized) : entry.physOf va &&& 0xfff = va &&& 0xfff := by
  obtain ⟨shift, least, narrow, size⟩ := sized
  refine offset_eq_of_low fun i small => ?_
  rw [TlbEntry.physOf, size, BitVec.getLsbD_or, BitVec.getLsbD_and, BitVec.getLsbD_and,
    BitVec.getLsbD_not, Pages.getLsbD_pageSize_sub_one (by omega)]
  simp [show i < shift by omega]

theorem physicalAddress_offset : physicalAddress va &&& 0xfff = va &&& 0xfff := by
  refine offset_eq_of_low fun i small => ?_
  have clear : (0x8000000000000000 : Word).getLsbD i = false :=
    (by decide : ∀ i < 12, (0x8000000000000000 : Word).getLsbD i = false) i small
  rw [physicalAddress, BitVec.getLsbD_and, BitVec.getLsbD_not, clear]
  simp [show i < 64 by omega]

/-- What such a store inside one page writes. -/
theorem Consulted.stored (consulted : Consulted mmu va rse entry)
    (inside : (va &&& 0xfff).toNat + size ≤ 4096)
    (stored : storeBytes mmu va size rse = some (bytes, after)) :
    bytes = (List.range size).map (fun k =>
        (if translatesStore mmu.control.psr rse then entry.physOf va
          else physicalAddress va) + BitVec.ofNat 64 k) ∧
      after.control = mmu.control ∧ after.rr = mmu.rr ∧
      (after.tlbFindCached va (mmu.regionRid va) false).1 = some entry := by
  have whole : min size (4096 - (va &&& 0xfff).toNat) = size := by omega
  have offset : (if translatesStore mmu.control.psr rse then entry.physOf va
      else physicalAddress va) &&& 0xfff = va &&& 0xfff := by
    split
    · exact physOf_offset consulted.sized
    · exact physicalAddress_offset
  simp only [storeBytes, whole, if_true] at stored
  split at stored
  · cases stored
  · rename_i page filled paged
    obtain ⟨rfl, rfl⟩ := Prod.mk.inj (Option.some.inj stored)
    -- The page is in the software TLB, or a fill brings it in.
    unfold storePage at paged
    split at paged
    · rename_i host hit
      obtain ⟨present, writable⟩ := Option.filter_eq_some_iff.mp hit
      obtain ⟨rfl, rfl⟩ := Prod.mk.inj (Option.some.inj paged)
      refine ⟨?_, rfl, rfl, consulted.found⟩
      rw [consulted.placed host present writable]
      exact List.map_congr_left fun k _ => page_add offset k
    · split at paged
      · rename_i prot installed outcome
        obtain ⟨⟨host, present, leads⟩, control, rr, found⟩ := consulted.filled outcome
        rw [present, Option.map_some] at paged
        obtain ⟨rfl, rfl⟩ := Prod.mk.inj (Option.some.inj paged)
        refine ⟨?_, control, rr, found⟩
        rw [leads]
        exact List.map_congr_left fun k _ => page_add offset k
      · cases paged

/-- When data translation follows a store, inside one page. -/
theorem followed_iff (consulted : Consulted mmu va rse entry) (sized : 0 < size)
    (inside : (va &&& 0xfff).toNat + size ≤ 4096)
    (stored : storeBytes mmu va size rse = some (bytes, after)) :
    Followed after va size bytes ↔
      (psrDt mmu.control.psr → (entry.permAt (psrCpl mmu.control.psr)).r) ∧
        (translatesStore mmu.control.psr rse = psrDt mmu.control.psr ∨
          entry.physOf va = physicalAddress va) := by
  obtain ⟨rfl, control, rr, found⟩ := consulted.stored inside stored
  have translation := consulted.translation control rr found
  have physical : entry.physOf va &&& 0xfff = va &&& 0xfff := physOf_offset consulted.sized
  have untranslated : physicalAddress va &&& 0xfff = va &&& 0xfff := physicalAddress_offset
  unfold Followed
  rw [translation]
  simp only [List.mem_map, List.mem_range, forall_exists_index, and_imp, forall_apply_eq_imp_iff₂]
  -- Each combination of the two bits compares two addresses of the page.
  cases data : psrDt mmu.control.psr <;> cases own : translatesStore mmu.control.psr rse
  · simp only [Bool.false_eq_true, if_false, Option.some.injEq, exists_eq_left',
      range_covers_iff sized inside untranslated untranslated]
    simp
  · simp only [Bool.false_eq_true, if_false, if_true, Option.some.injEq, exists_eq_left',
      range_covers_iff sized inside untranslated physical]
    simp only [false_implies, true_and, reduceCtorEq, false_or]
    exact eq_comm
  · cases (entry.permAt (psrCpl mmu.control.psr)).r
    · simp
    · simp only [Bool.false_eq_true, if_false, if_true, Option.some.injEq, exists_eq_left',
        range_covers_iff sized inside physical untranslated]
      simp
  · cases (entry.permAt (psrCpl mmu.control.psr)).r
    · simp
    · simp only [if_true, Option.some.injEq, exists_eq_left',
        range_covers_iff sized inside physical physical]
      simp

end Bits

/-- A completed store ends every advanced load whose range it wrote to exactly if the data
translation of its address leads to the bytes it wrote. For an address that the data TLB translates
this means that the page is readable at PSR.cpl if PSR.dt is set, and that the store goes by a bit
equal to PSR.dt or its page maps to itself. -/
theorem ownStore_forgets_iff {mmu after : State} {va : Word} {size : Nat} {rse : Bool}
    {bytes : List Word} (sized : 0 < size)
    (stored : storeBytes mmu va size rse = some (bytes, after)) :
    (StoreForgets after va size bytes ↔ Followed after va size bytes) ∧
      ∀ entry, Consulted mmu va rse entry → (va &&& 0xfff).toNat + size ≤ 4096 →
        (StoreForgets after va size bytes ↔
          (psrDt mmu.control.psr = true → (entry.permAt (psrCpl mmu.control.psr)).r = true) ∧
            (translatesStore mmu.control.psr rse = psrDt mmu.control.psr ∨
              entry.physOf va = physicalAddress va)) := by
  have general := forgets_iff_followed sized stored
  exact ⟨general, fun entry consulted inside =>
    general.trans (followed_iff consulted sized inside stored)⟩

/-- A processor with one writable page that is mapped elsewhere. -/
def spillingUnit (psr : Word) : State :=
  let reset := reset .madison
  let pte : Word := 0x9461
  { reset with
    data :=
      { reset.data.set 0 (TlbEntry.make 0x4000 0x9000 0x1000 pte (ptePerm pte 0) 0 0) with
        count := 1 }
    control := { reset.control with psr := psr } }

/-- The bytes of eight at an address. -/
def eightBytes (pa : Word) : List Word := (List.range 8).map fun k => pa + BitVec.ofNat 64 k

theorem spillingUnit_stores (psr : Word) (rse : Bool) (bytes : List Word) (pa : Option Word)
    (evaluated : (storeBytes (spillingUnit psr) 0x4000 8 rse).map
      (fun result => (result.1, (result.2.dataAddressToPhys 0x4000).1)) = some (bytes, pa)) :
    ∃ after, storeBytes (spillingUnit psr) 0x4000 8 rse = some (bytes, after) ∧
      (after.dataAddressToPhys 0x4000).1 = pa := by
  obtain ⟨⟨written, after⟩, stored, same⟩ := Option.map_eq_some_iff.mp evaluated
  obtain ⟨rfl, rfl⟩ := Prod.mk.inj same
  exact ⟨after, stored, rfl⟩

/-- With PSR.rt set and PSR.dt clear, a spill to the page leaves the advanced load of a byte that it
overwrote. -/
theorem spill_keeps_overwritten_load :
    ∃ after b, storeBytes (spillingUnit 0x8000000) 0x4000 8 true = some (eightBytes 0x9000, after) ∧
      Reachable ⟨0, [0]⟩ (trackingTable 0x9000) ∧
        ((trackingTable 0x9000).entry 0).physAddr = 0x9000 ∧
      ((trackingTable 0x9000).ownStore ⟨0, [0]⟩ (dataTranslation after) 0x4000 8
        (eightBytes 0x9000)).Returns b ∧
      (b.entry 0).valid = true := by
  obtain ⟨after, stored, address⟩ :=
    spillingUnit_stores 0x8000000 true (eightBytes 0x9000) (some 0x4000) (by decide +kernel)
  -- The table looks for the range at the address itself.
  have missed : ∀ pa spec, dataTranslation after 0x4000 = some (pa, spec) →
      rangesOverlap pa (BitVec.ofNat 64 8) 0x9000 1 = false := by
    intro pa spec translated
    simp only [dataTranslation, address, Option.map_some, Option.some.injEq,
      Prod.mk.injEq] at translated
    rw [← translated.1]
    decide
  obtain ⟨b, returned, valid⟩ := ownStore_survived missed (eightBytes 0x9000)
  exact ⟨after, b, stored, reachable_tracking 0x9000, rfl, returned, valid⟩

/-- With PSR.dt set, an ordinary store to the page ends the advanced loads of the bytes it
writes. -/
theorem ownStore_forgets_data :
    ∃ after, storeBytes (spillingUnit 0x20000) 0x4000 8 false = some (eightBytes 0x9000, after) ∧
      StoreForgets after 0x4000 8 (eightBytes 0x9000) := by
  obtain ⟨after, stored, address⟩ :=
    spillingUnit_stores 0x20000 false (eightBytes 0x9000) (some 0x9000) (by decide +kernel)
  have covered : ∀ byte ∈ eightBytes 0x9000,
      rangesOverlap 0x9000 (BitVec.ofNat 64 8) byte 1 = true := by
    intro byte member
    obtain ⟨k, below, rfl⟩ := List.mem_map.mp member
    have whole : ∀ k < 8,
        rangesOverlap 0x9000 (BitVec.ofNat 64 8) (0x9000 + BitVec.ofNat 64 k) 1 = true :=
      (range_covers_iff (by decide) (by decide) (rfl : _ = (0x9000 : Word) &&& 0xfff) rfl).mpr rfl
    exact whole k (List.mem_range.mp below)
  exact ⟨after, stored, (ownStore_forgets_iff (by decide) stored).1.mpr ⟨0x9000, address, covered⟩⟩

end Ia64.Alat
