import Ia64.Mmu.PurgeLaws

/-! A global purge arriving from another processor, and the purge of all cache entries. -/

namespace Ia64.Mmu

open Sweep State

/-- What a purge of other translations must leave alone on the processor it arrives at. -/
structure Undisturbed (start ps : Word) (rid : BitVec 32) (before after : State) : Prop where
  icInflight : after.psrIcInflight = before.psrIcInflight
  iDeferred : after.psrIDeferred = before.psrIDeferred
  psr : after.control.psr = before.control.psr
  entries : ∀ isData i, ((before.tlb isData).entry i).overlaps start ps rid = false →
    (after.tlb isData).entry i = (before.tlb isData).entry i
  copies : ∀ i, (before.l1.entry i).overlaps start ps rid = false →
    after.l1.entry i = before.l1.entry i

/-- An entry outside the purged page waits for its purge, and the arriving purge will complete
it. -/
def Tlb.WaitsElsewhere (tlb : Tlb) (start ps : Word) (rid : BitVec 32) : Prop :=
  -- Completion starts if anything is counted as waiting once the page has been marked.
  (tlb.pending ≠ 0 ∨ ∃ i, i < tlb.count ∧ (tlb.entry i).isTr = false ∧
      (tlb.entry i).overlaps start ps rid ∧ (tlb.entry i).pendingPurge = false) ∧
    ∃ i, i < tlb.count ∧ (tlb.entry i).valid ∧ (tlb.entry i).pendingPurge ∧
      (tlb.entry i).overlaps start ps rid = false

section

variable (mmu : State)

/-- The part of a serialization that purges one TLB. -/
def State.serializeSide (isIfetch targeted : Bool) : State :=
  if (mmu.tlb !isIfetch).pending != 0 then mmu.completePendingPurges isIfetch targeted else mmu

theorem tlbSerialize_eq :
    ∃ targeted flushes, mmu.tlbSerialize true true =
      { (({ mmu with psrIcInflight := false, psrIDeferred := false } : State).serializeSide false
          targeted).serializeSide true targeted with host := flushes } := by
  have flushed : ∀ (purged : State) (all : Bool), (if all then purged.tlbFlush else purged) =
      { purged with host := if all then fun _ _ => none else purged.host } := by
    intro purged all
    cases all <;> rfl
  exact ⟨decide (mmu.data.pending + mmu.inst.pending ≤ 8), _, flushed _ _⟩

theorem serializeSide_entry (isIfetch targeted : Bool) (j : Nat) :
    ((mmu.serializeSide isIfetch targeted).tlb !isIfetch).entry j =
      if (mmu.tlb !isIfetch).pending ≠ 0 ∧ j < (mmu.tlb !isIfetch).count ∧
          (((mmu.tlb !isIfetch).entry j).valid && ((mmu.tlb !isIfetch).entry j).pendingPurge) then
        ((mmu.tlb !isIfetch).entry j).retired
      else (mmu.tlb !isIfetch).entry j := by
  unfold serializeSide
  by_cases counted : (mmu.tlb !isIfetch).pending = 0
  · simp [counted]
  · rw [if_pos (by simpa using counted), completePendingPurges_entry]
    simp [counted]

theorem serializeSide_frame (isIfetch targeted : Bool) :
    (mmu.serializeSide isIfetch targeted).tlb isIfetch = mmu.tlb isIfetch ∧
      SameRegisters mmu (mmu.serializeSide isIfetch targeted) := by
  unfold serializeSide
  split
  · exact completePendingPurges_frame mmu isIfetch targeted
  · exact ⟨rfl, SameRegisters.refl mmu⟩

theorem completePendingPurges_inst_l1 (targeted : Bool) :
    (mmu.completePendingPurges true targeted).l1 = mmu.l1 := by
  simp only [completePendingPurges, setTlb_l1]
  refine sweep_invariant (P := fun current : State => current.l1 = mmu.l1) rfl ?_
  intro i _ current same
  simp only [completeVisit, Bool.not_true, Bool.false_eq_true, if_false]
  split
  · rw [setTlb_l1]
    split
    · rw [flushEntry_l1, same]
    · exact same
  · exact same

theorem tlbSerialize_registers :
    (mmu.tlbSerialize true true).psrIcInflight = false ∧
      (mmu.tlbSerialize true true).psrIDeferred = false ∧
      (mmu.tlbSerialize true true).control = mmu.control := by
  obtain ⟨targeted, flushes, serialized⟩ := tlbSerialize_eq mmu
  rw [serialized]
  set cleared : State := { mmu with psrIcInflight := false, psrIDeferred := false }
  have both := (serializeSide_frame cleared false targeted).2.trans
    (serializeSide_frame (cleared.serializeSide false targeted) true targeted).2
  exact ⟨both.psrIcInflight, both.psrIDeferred, both.control⟩

/-- A serialization retires exactly what waits. -/
theorem tlbSerialize_entry (isData : Bool) (j : Nat) :
    ((mmu.tlbSerialize true true).tlb isData).entry j =
      if (mmu.tlb isData).pending ≠ 0 ∧ j < (mmu.tlb isData).count ∧
          (((mmu.tlb isData).entry j).valid && ((mmu.tlb isData).entry j).pendingPurge) then
        ((mmu.tlb isData).entry j).retired
      else (mmu.tlb isData).entry j := by
  obtain ⟨targeted, flushes, serialized⟩ := tlbSerialize_eq mmu
  rw [serialized]
  set cleared : State := { mmu with psrIcInflight := false, psrIDeferred := false }
  cases isData with
  | true =>
    -- The instruction pass does not touch the data TLB.
    have kept := (serializeSide_frame (cleared.serializeSide false targeted) true targeted).1
    have purged := serializeSide_entry cleared false targeted j
    exact (congrArg (fun tlb => tlb.entry j) kept).trans purged
  | false =>
    -- The data pass does not touch the instruction TLB.
    have kept := (serializeSide_frame cleared false targeted).1
    have purged := serializeSide_entry (cleared.serializeSide false targeted) true targeted j
    rw [Bool.not_true,
      show (cleared.serializeSide false targeted).tlb false = mmu.tlb false from kept] at purged
    exact purged

end

variable {mmu : State} {j : Nat} {ps va : Word} {rid : BitVec 32}

theorem tlbSerialize_copy
    (unlike : ∀ i, mmu.data.pending ≠ 0 → i < mmu.data.count → (mmu.data.entry i).valid →
      (mmu.data.entry i).pendingPurge → (mmu.l1.entry j).equivalent (mmu.data.entry i) = false) :
    (mmu.tlbSerialize true true).l1.entry j = mmu.l1.entry j := by
  obtain ⟨targeted, flushes, serialized⟩ := tlbSerialize_eq mmu
  rw [serialized]
  set cleared : State := { mmu with psrIcInflight := false, psrIDeferred := false }
  have instKept : ((cleared.serializeSide false targeted).serializeSide true targeted).l1 =
      (cleared.serializeSide false targeted).l1 := by
    rw [serializeSide]
    split
    · exact completePendingPurges_inst_l1 _ targeted
    · rfl
  have dataKept : (cleared.serializeSide false targeted).l1.entry j = mmu.l1.entry j := by
    unfold serializeSide
    split
    · rename_i counted
      have waiting : mmu.data.pending ≠ 0 := by
        intro none
        rw [show (cleared.tlb !false).pending = 0 from none] at counted
        exact absurd counted (by decide)
      have apart : ∀ i, i < (cleared.tlb !false).count → ((cleared.tlb !false).entry i).valid →
          ((cleared.tlb !false).entry i).pendingPurge →
          (cleared.l1.entry j).equivalent ((cleared.tlb !false).entry i) = false :=
        fun i below valid waits => unlike i waiting below valid waits
      exact completePendingPurges_copy false targeted apart
    · rfl
  exact (congrArg (fun l1 => l1.entry j) instKept).trans dataKept

theorem tlbSerialize_copies {start : Word}
    (meets : ∀ i, mmu.data.pending ≠ 0 → i < mmu.data.count → (mmu.data.entry i).valid →
      (mmu.data.entry i).pendingPurge → (mmu.data.entry i).overlaps start ps rid)
    (elsewhere : (mmu.l1.entry j).overlaps start ps rid = false) :
    (mmu.tlbSerialize true true).l1.entry j = mmu.l1.entry j := by
  refine tlbSerialize_copy fun i waiting below valid waits => ?_
  -- A copy of the purged entry would meet the page as well.
  by_contra alike
  rw [TlbEntry.overlaps_of_equivalent (by simpa using alike),
    meets i waiting below valid waits] at elsewhere
  exact absurd elsewhere (by decide)

section Mark

variable (mmu : State) (va ps : Word) (rid : BitVec 32)

theorem ptcMark_tlb (isData : Bool) :
    (mmu.ptcMark va ps rid).tlb isData = (mmu.tlb isData).markPendingPurgeEntries va
      ps rid true := by
  have same := (sheds_dtlb1PurgeRange mmu va ps rid true).same.tlb isData
  cases isData with
  | true => exact congrArg (fun tlb => tlb.markPendingPurgeEntries va ps rid true) same
  | false => exact congrArg (fun tlb => tlb.markPendingPurgeEntries va ps rid true) same

theorem ptcMark_overlaps (isData : Bool) (i : Nat) (start size : Word) (region : BitVec 32) :
    (((mmu.ptcMark va ps rid).tlb isData).entry i).overlaps start size region =
      ((mmu.tlb isData).entry i).overlaps start size region := by
  rw [ptcMark_tlb, Tlb.markPendingPurgeEntries_entry]
  split <;> rfl

theorem ptcMark_entry_elsewhere {isData : Bool} {i : Nat}
    (elsewhere : ((mmu.tlb isData).entry i).overlaps (vaPageBase va ps) ps rid = false) :
    ((mmu.ptcMark va ps rid).tlb isData).entry i = (mmu.tlb isData).entry i := by
  rw [ptcMark_tlb, Tlb.markPendingPurgeEntries_entry, if_neg]
  rintro ⟨-, marked⟩
  rw [elsewhere, Bool.and_false] at marked
  exact absurd marked (by decide)

theorem ptcMark_frame :
    (mmu.ptcMark va ps rid).control = mmu.control ∧
      ∀ i, (mmu.l1.entry i).overlaps (vaPageBase va ps) ps rid = false →
        (mmu.ptcMark va ps rid).l1.entry i = mmu.l1.entry i := by
  refine ⟨(sheds_dtlb1PurgeRange mmu va ps rid true).same.registers.control, fun i elsewhere => ?_⟩
  refine (dtlb1PurgeRange_entry mmu va ps rid true i).trans (if_neg ?_)
  rintro ⟨-, -, dropped⟩
  rw [elsewhere, Bool.and_false] at dropped
  exact absurd dropped (by decide)

/-- Something elsewhere is completed iff it waits. -/
theorem waitsElsewhere_iff (isData : Bool) :
    (mmu.tlb isData).WaitsElsewhere (vaPageBase va ps) ps rid ↔
      ((mmu.ptcMark va ps rid).tlb isData).pending ≠ 0 ∧
        ∃ i, i < ((mmu.ptcMark va ps rid).tlb isData).count ∧
          (((mmu.ptcMark va ps rid).tlb isData).entry i).valid ∧
          (((mmu.ptcMark va ps rid).tlb isData).entry i).pendingPurge ∧
          ((mmu.tlb isData).entry i).overlaps (vaPageBase va ps) ps rid = false := by
  rw [Tlb.WaitsElsewhere, ← markPendingPurgeEntries_pending, ← ptcMark_tlb]
  refine and_congr_right fun _ => exists_congr fun i => ?_
  have count : ((mmu.ptcMark va ps rid).tlb isData).count = (mmu.tlb isData).count := by
    rw [ptcMark_tlb, Tlb.markPendingPurgeEntries_count]
  rw [count]
  refine and_congr_right fun _ => ?_
  constructor
  · rintro ⟨valid, waits, elsewhere⟩
    rw [ptcMark_entry_elsewhere mmu va ps rid elsewhere]
    exact ⟨valid, waits, elsewhere⟩
  · rintro ⟨valid, waits, elsewhere⟩
    rw [ptcMark_entry_elsewhere mmu va ps rid elsewhere] at valid waits
    exact ⟨valid, waits, elsewhere⟩

end Mark

/-- With nothing waiting a purge touches its page alone. -/
theorem undisturbed_of_settled
    (icSettled : mmu.psrIcInflight = false) (iSettled : mmu.psrIDeferred = false)
    (nothingElse : ∀ isData, ¬(mmu.tlb isData).WaitsElsewhere (vaPageBase va ps) ps rid) :
    Undisturbed (vaPageBase va ps) ps rid mmu (mmu.ptcMarkGlobal va ps rid true) := by
  simp only [ptcMarkGlobal, if_true]
  obtain ⟨icCleared, iCleared, control⟩ := tlbSerialize_registers (mmu.ptcMark va ps rid)
  obtain ⟨markControl, markCopies⟩ := ptcMark_frame mmu va ps rid
  refine ⟨icCleared.trans icSettled.symm, iCleared.trans iSettled.symm, ?_, ?_, ?_⟩
  · rw [control, markControl]
  · intro isData i elsewhere
    rw [tlbSerialize_entry, if_neg, ptcMark_entry_elsewhere mmu va ps rid elsewhere]
    -- A retired slot elsewhere would be one that waits elsewhere.
    rintro ⟨counted, below, waits⟩
    simp only [Bool.and_eq_true] at waits
    exact nothingElse isData ((waitsElsewhere_iff mmu va ps rid isData).mpr
      ⟨counted, i, below, waits.1, waits.2, elsewhere⟩)
  · intro i elsewhere
    have survives :
        ((mmu.ptcMark va ps rid).l1.entry i).overlaps (vaPageBase va ps) ps rid = false := by
      rw [markCopies i elsewhere, elsewhere]
    rw [tlbSerialize_copies ?_ survives, markCopies i elsewhere]
    intro k counted below valid waits
    -- Otherwise the slot would wait elsewhere.
    have page := ptcMark_overlaps mmu va ps rid true k (vaPageBase va ps) ps rid
    cases meets : ((mmu.ptcMark va ps rid).data.entry k).overlaps (vaPageBase va ps) ps rid with
    | true => rfl
    | false =>
      exact absurd ((waitsElsewhere_iff mmu va ps rid true).mpr
        ⟨counted, k, below, valid, waits, page.symm.trans meets⟩) (nothingElse true)

/-- An arriving purge disturbs where something else waits. -/
theorem settled_of_undisturbed
    (kept : Undisturbed (vaPageBase va ps) ps rid mmu (mmu.ptcMarkGlobal va ps rid true)) :
    mmu.psrIcInflight = false ∧ mmu.psrIDeferred = false ∧
      ∀ isData, ¬(mmu.tlb isData).WaitsElsewhere (vaPageBase va ps) ps rid := by
  simp only [ptcMarkGlobal, if_true] at kept
  obtain ⟨icCleared, iCleared, -⟩ := tlbSerialize_registers (mmu.ptcMark va ps rid)
  refine ⟨kept.icInflight.symm.trans icCleared, kept.iDeferred.symm.trans iCleared, ?_⟩
  intro isData waiting
  obtain ⟨counted, i, below, valid, waits, elsewhere⟩ :=
    (waitsElsewhere_iff mmu va ps rid isData).mp waiting
  have same := kept.entries isData i elsewhere
  rw [tlbSerialize_entry, if_pos ⟨counted, below, by simp [valid, waits]⟩] at same
  -- The retired slot is invalid, the slot before was valid.
  have cleared := congrArg TlbEntry.valid same
  rw [← ptcMark_entry_elsewhere mmu va ps rid elsewhere, valid] at cleared
  exact absurd cleared (by simp [TlbEntry.retired])

/-- A remote purge leaves a processor alone exactly when nothing else waits there, and the purge of
all cache entries leaves the two flags alone exactly when no change of PSR.i is deferred. -/
theorem remotePurge_undisturbed_iff (mmu : State) (va sizeReg : Word) (rid : BitVec 32) :
    (Undisturbed (vaPageBase (va &&& ~~~(pageSizeFromShift (itirPs sizeReg) - 1))
          (pageSizeFromShift (itirPs sizeReg))) (pageSizeFromShift (itirPs sizeReg)) rid mmu
          (mmu.ptcGlobalRemoteWork va sizeReg rid) ↔
      mmu.psrIcInflight = false ∧ mmu.psrIDeferred = false ∧
        ∀ isData, ¬(mmu.tlb isData).WaitsElsewhere
          (vaPageBase (va &&& ~~~(pageSizeFromShift (itirPs sizeReg) - 1))
            (pageSizeFromShift (itirPs sizeReg))) (pageSizeFromShift (itirPs sizeReg)) rid) ∧
      (mmu.invalidateTc.psrIcInflight = mmu.psrIcInflight ∧
        mmu.invalidateTc.psrIDeferred = mmu.psrIDeferred ↔ mmu.psrIDeferred = false) := by
  have cleared : mmu.invalidateTc.psrIDeferred = false :=
    (tlbSerialize_registers mmu.markPendingPurgeAllTcEnv).2.1
  refine ⟨⟨settled_of_undisturbed, ?_⟩, fun same => same.2.symm.trans cleared,
    fun settled => ⟨rfl, ?_⟩⟩
  · rintro ⟨icSettled, iSettled, nothingElse⟩
    exact undisturbed_of_settled icSettled iSettled nothingElse
  · exact cleared.trans settled.symm

/-- A processor with one cache entry and nothing that waits. -/
def settledProcessor : State :=
  let entry := TlbEntry.make 0x10000 0 4096 1 ⟨true, false, false⟩ 5 0
  { State.reset .montecito with
    data := { Tlb.reset with entry := fun i => if i = 0 then entry else .empty, count := 1 } }

/-- A purge of another page leaves the entry of that processor. -/
theorem remotePurge_undisturbed_settled :
    Undisturbed 0 4096 7 settledProcessor (settledProcessor.ptcGlobalRemoteWork 0 (12 <<< 2) 7) ∧
      ((settledProcessor.tlb true).entry 0).valid = true ∧
      settledProcessor.invalidateTc.psrIDeferred = settledProcessor.psrIDeferred := by
  obtain ⟨remote, all⟩ := remotePurge_undisturbed_iff settledProcessor 0 (12 <<< 2) 7
  refine ⟨remote.mpr ⟨rfl, rfl, ?_⟩, rfl, (all.mpr rfl).2⟩
  rintro (_ | _) ⟨-, i, below, -, waits, -⟩
  · exact absurd below (Nat.not_lt_zero i)
  · obtain rfl : i = 0 := by
      change i < 1 at below
      omega
    exact absurd waits (by decide)

/-- A processor in the middle of a change of PSR.ic and PSR.i, with one purge of its own still
waiting. -/
def waitingProcessor : State :=
  let waiting : TlbEntry :=
    { TlbEntry.make 0x10000 0 4096 1 ⟨true, false, false⟩ 5 0 with pendingPurge := true }
  { State.reset .montecito with
    data :=
      { Tlb.reset with
        entry := fun i => if i = 0 then waiting else .empty, count := 1, pending := 1 }
    psrIcInflight := true
    psrIDeferred := true }

/-- A purge of another page under another RID completes everything that processor had waiting. -/
theorem remotePurge_disturbs :
    let purged := waitingProcessor.ptcGlobalRemoteWork 0 (12 <<< 2) 7
    ((waitingProcessor.tlb true).entry 0).overlaps 0 4096 7 = false ∧
      (purged.psrIcInflight, purged.psrIDeferred) = (false, false) ∧
      ((purged.tlb true).entry 0).valid = false ∧
        ((waitingProcessor.tlb true).entry 0).valid = true ∧
      waitingProcessor.invalidateTc.psrIDeferred = false ∧
        waitingProcessor.psrIDeferred = true := by
  decide

end Ia64.Mmu
