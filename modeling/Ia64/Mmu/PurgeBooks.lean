import Ia64.Lib.Tally
import Ia64.Mmu.RegisterInsert

/-! The books of pending purges: which slots wait, and the counter that is kept of them. -/

namespace Ia64.Mmu

open Sweep Tally Tlb

section Slots

/-- The counter of pending purges, apart from the mark of one slot that is about to be written. -/
structure Tlb.AccountedBut (slot : Nat) (tlb : Tlb) : Prop where
  unused : ∀ i, tlb.count ≤ i → (tlb.entry i).valid = false
  clean : ∀ i, (tlb.entry i).valid = false → (tlb.entry i).pendingPurge = false
  counts : Counts (fun i => (tlb.entry i).pendingPurge && i != slot) tlb.pending

/-- The counter of pending purges counts the marks, and only entries in use have one. -/
structure Tlb.Accounted (tlb : Tlb) : Prop where
  unused : ∀ i, tlb.count ≤ i → (tlb.entry i).valid = false
  clean : ∀ i, (tlb.entry i).valid = false → (tlb.entry i).pendingPurge = false
  counts : Counts (fun i => (tlb.entry i).pendingPurge) tlb.pending

variable {tlb after : Tlb} {slot : Nat} {entry : TlbEntry}

theorem Tlb.Accounted.congr (accounted : tlb.Accounted) (entries : after.entry = tlb.entry)
    (count : after.count = tlb.count) (pending : after.pending = tlb.pending) :
    after.Accounted := by
  refine ⟨?_, ?_, ?_⟩
  · rw [entries, count]
    exact accounted.unused
  · rw [entries]
    exact accounted.clean
  · rw [entries, pending]
    exact accounted.counts

/-- The counter is the number of entries that wait. -/
theorem Tlb.Accounted.pending_eq_card (accounted : tlb.Accounted) :
    tlb.pending = ((Finset.range tlb.count).filter fun i =>
      (tlb.entry i).valid = true ∧ (tlb.entry i).pendingPurge = true).card := by
  -- A mark stands on a valid entry, and valid entries are in the used range.
  have valid : ∀ i, (tlb.entry i).pendingPurge = true → (tlb.entry i).valid = true := by
    intro i marked
    by_contra invalid
    have clean := accounted.clean i (by simpa using invalid)
    exact absurd (marked.symm.trans clean) (by decide)
  have below : ∀ i, (tlb.entry i).pendingPurge = true → i < tlb.count := by
    intro i marked
    by_contra beyond
    have unused := accounted.unused i (by omega)
    exact absurd ((valid i marked).symm.trans unused) (by decide)
  rw [← accounted.counts.card below]
  congr 1
  refine Finset.filter_congr fun i _ => ?_
  exact (and_iff_right_of_imp (valid i)).symm

@[simp] theorem Tlb.bumpSlotGeneration_pending (tlb : Tlb) (slot : Nat) :
    (tlb.bumpSlotGeneration slot).pending = tlb.pending := by
  simp only [bumpSlotGeneration]
  split
  · rw [bumpGeneration_pending]
    rfl
  · rfl

@[simp] theorem Tlb.place_pending (tlb : Tlb) (slot : Nat) (entry : TlbEntry) :
    (tlb.place slot entry).pending = tlb.pending := by
  simp only [Tlb.place, bumpSlotGeneration_pending]
  rfl

@[simp] theorem Tlb.retire_pending (tlb : Tlb) (slot : Nat) :
    (tlb.retire slot).pending = (tlb.discardPendingPurge slot).pending := by
  simp only [retire, bumpSlotGeneration_pending]
  rfl

theorem Tlb.Accounted.withReplace (accounted : tlb.Accounted) (next : Nat) :
    Tlb.Accounted { tlb with replace := next } :=
  accounted.congr rfl rfl rfl

/-- A discarded mark is no longer counted. -/
theorem Tlb.Accounted.discard (accounted : tlb.Accounted) (slot : Nat) :
    (tlb.discardPendingPurge slot).AccountedBut slot := by
  have others : ∀ i, i ≠ slot → (tlb.discardPendingPurge slot).entry i = tlb.entry i :=
    fun i apart => discardPendingPurge_entry_ne tlb slot apart
  refine ⟨fun i beyond => ?_, fun i invalid => ?_, ?_⟩
  · rw [discardPendingPurge_count] at beyond
    have unused := accounted.unused i beyond
    by_cases here : i = slot
    · subst here
      rw [discardPendingPurge_entry_self]
      exact unused
    · rw [others i here]
      exact unused
  · by_cases here : i = slot
    · subst here
      rw [discardPendingPurge_entry_self]
    · rw [others i here] at invalid ⊢
      exact accounted.clean i invalid
  · -- The counter falls by one exactly if there was a mark to discard.
    cases marked : (tlb.entry slot).pendingPurge with
    | true =>
      have pending : (tlb.discardPendingPurge slot).pending = tlb.pending - 1 := by
        simp [discardPendingPurge, marked]
      rw [pending]
      refine accounted.counts.lower marked (by simp) fun i apart => ?_
      simp [others i apart, apart]
    | false =>
      have same : tlb.discardPendingPurge slot = tlb := by simp [discardPendingPurge, marked]
      rw [same]
      refine accounted.counts.congr fun i => ?_
      by_cases here : i = slot
      · simp [here, marked]
      · simp [here]

/-- An invalidated slot is out of the books. -/
theorem Tlb.Accounted.retire (accounted : tlb.Accounted) (slot : Nat) :
    (tlb.retire slot).Accounted := by
  have but := accounted.discard slot
  have others : ∀ i, i ≠ slot → (tlb.retire slot).entry i = tlb.entry i :=
    fun i apart => retire_entry_ne tlb slot apart
  have own : (tlb.retire slot).entry slot = (tlb.entry slot).retired := retire_entry_self tlb slot
  refine ⟨fun i beyond => ?_, fun i invalid => ?_, ?_⟩
  · by_cases here : i = slot
    · rw [here, own]
      rfl
    · rw [others i here]
      rw [retire_count] at beyond
      exact accounted.unused i beyond
  · by_cases here : i = slot
    · rw [here, own]
      rfl
    · rw [others i here] at invalid ⊢
      exact accounted.clean i invalid
  · rw [retire_pending]
    refine but.counts.congr fun i => ?_
    by_cases here : i = slot
    · simp [here, own, TlbEntry.retired]
    · simp [here, others i here, discardPendingPurge_entry_ne tlb slot here]

theorem place_unused (unused : ∀ i, tlb.count ≤ i → (tlb.entry i).valid = false)
    (entry : TlbEntry) (i : Nat) (beyond : (tlb.place slot entry).count ≤ i) :
    ((tlb.place slot entry).entry i).valid = false := by
  rw [place_count] at beyond
  have apart : i ≠ slot := by split at beyond <;> omega
  rw [place_entry_ne _ _ _ apart]
  exact unused i (by split at beyond <;> omega)

theorem Tlb.AccountedBut.place (but : tlb.AccountedBut slot)
    (unmarked : entry.pendingPurge = false) : (tlb.place slot entry).Accounted := by
  refine ⟨place_unused but.unused entry, fun i invalid => ?_, ?_⟩
  · by_cases here : i = slot
    · rw [here, place_entry_self]
      exact unmarked
    · rw [place_entry_ne _ _ _ here] at invalid ⊢
      exact but.clean i invalid
  · rw [place_pending]
    refine but.counts.congr fun i => ?_
    by_cases here : i = slot
    · simp [here, place_entry_self, unmarked]
    · simp [here, place_entry_ne _ _ _ here]

/-- A copy takes over the mark of its slot. -/
theorem Tlb.AccountedBut.placeCopy {source : Nat} (but : tlb.AccountedBut slot)
    (apart : source ≠ slot) (valid : entry.valid = true)
    (copied : entry.pendingPurge = (tlb.entry source).pendingPurge) :
    (tlb.place slot entry).AccountedBut source := by
  refine ⟨place_unused but.unused entry, fun i invalid => ?_, ?_⟩
  · by_cases here : i = slot
    · rw [here, place_entry_self] at invalid
      exact absurd (valid.symm.trans invalid) (by decide)
    · rw [place_entry_ne _ _ _ here] at invalid ⊢
      exact but.clean i invalid
  · rw [place_pending]
    cases marked : (tlb.entry source).pendingPurge with
    | false =>
      -- Neither slot is marked.
      refine but.counts.congr fun i => ?_
      by_cases here : i = slot
      · simp [here, place_entry_self, copied, marked]
      · by_cases there : i = source
        · simp [there, place_entry_ne _ _ _ apart, marked]
        · rw [place_entry_ne _ _ _ here, bne_iff_ne.2 here, bne_iff_ne.2 there]
    | true =>
      -- The mark of the source is ignored from here on, and that of the copy counts.
      have raised : ((tlb.entry source).pendingPurge && source != slot) = true := by
        simp [marked, apart]
      have lowered : Counts (fun i => (tlb.entry i).pendingPurge && i != slot && i != source)
          (tlb.pending - 1) :=
        but.counts.lower raised (by simp) fun i other => by simp [other]
      have unmarked : ((tlb.entry slot).pendingPurge && slot != slot && slot != source) =
          false := by simp
      have moved : Counts (fun i => ((tlb.place slot entry).entry i).pendingPurge && i != source)
          (tlb.pending - 1 + 1) :=
        lowered.raise unmarked (by simp [place_entry_self, copied, marked, Ne.symm apart])
          fun i other => by
          rw [place_entry_ne _ _ _ other, bne_iff_ne.2 other, Bool.and_true]
      have positive := but.counts.pos raised
      rwa [Nat.sub_add_cancel (by omega)] at moved

/-- Marking an entry in use counts it. -/
theorem Tlb.Accounted.mark (accounted : tlb.Accounted) (valid : (tlb.entry slot).valid = true) :
    (tlb.markPendingPurge slot).Accounted := by
  have others : ∀ i, i ≠ slot → (tlb.markPendingPurge slot).entry i = tlb.entry i :=
    fun i apart => markPendingPurge_entry_ne tlb slot apart
  refine ⟨fun i beyond => ?_, fun i invalid => ?_, ?_⟩
  · rw [markPendingPurge_count] at beyond
    have unused := accounted.unused i beyond
    have apart : i ≠ slot := by
      rintro rfl
      exact absurd (valid.symm.trans unused) (by decide)
    rw [others i apart]
    exact unused
  · by_cases here : i = slot
    · rw [here, markPendingPurge_entry_self] at invalid
      exact absurd (valid.symm.trans invalid) (by decide)
    · rw [others i here] at invalid ⊢
      exact accounted.clean i invalid
  · cases marked : (tlb.entry slot).pendingPurge with
    | true =>
      rw [show tlb.markPendingPurge slot = tlb by simp [markPendingPurge, marked]]
      exact accounted.counts
    | false =>
      have pending : (tlb.markPendingPurge slot).pending = tlb.pending + 1 := by
        simp [markPendingPurge, marked]
      rw [pending]
      refine accounted.counts.raise marked (by simp) fun i apart => ?_
      rw [others i apart]

theorem Tlb.Accounted.markSweep (accounted : tlb.Accounted) {test : TlbEntry → Bool}
    (used : ∀ entry, test entry = true → entry.valid = true) : (tlb.markSweep test).Accounted := by
  refine sweep_invariant (P := Tlb.Accounted) accounted fun i _ current kept => ?_
  split
  · rename_i meets
    exact kept.mark (used _ meets)
  · exact kept

theorem Tlb.Accounted.trim (accounted : tlb.Accounted) : tlb.trim.Accounted := by
  refine ⟨fun i beyond => ?_, accounted.clean, accounted.counts⟩
  by_cases used : i < tlb.count
  · exact (quiet_trim 0 tlb).dropped i beyond used
  · exact accounted.unused i (by omega)

end Slots

section State

/-- Both counters of pending purges are right. -/
def State.Accounted (mmu : State) : Prop := ∀ isData, (mmu.tlb isData).Accounted

variable {mmu : State}

theorem accounted_of_tlbs {isData : Bool} (own : (mmu.tlb isData).Accounted)
    (other : (mmu.tlb (!isData)).Accounted) : mmu.Accounted := by
  intro side
  by_cases same : side = isData
  · rwa [same]
  · rwa [show side = !isData by cases side <;> cases isData <;> simp_all]

theorem accounted_setTlb {isData : Bool} {tlb : Tlb} (settled : tlb.Accounted)
    (other : (mmu.tlb (!isData)).Accounted) : (mmu.setTlb isData tlb).Accounted :=
  @accounted_of_tlbs _ isData (by rwa [State.setTlb_tlb]) (by rwa [State.setTlb_tlb_not])

theorem State.Accounted.setTlb (accounted : mmu.Accounted) {isData : Bool} {tlb : Tlb}
    (settled : tlb.Accounted) : (mmu.setTlb isData tlb).Accounted :=
  accounted_setTlb settled (accounted _)

variable {after : State} {entry : TlbEntry}

section

variable (accounted : mmu.Accounted)

include accounted

theorem State.Accounted.outside (data : after.data = mmu.data)
    (inst : after.inst = mmu.inst) : after.Accounted := by
  intro isData
  cases isData
  · show after.inst.Accounted
    rw [inst]
    exact accounted false
  · show after.data.Accounted
    rw [data]
    exact accounted true

theorem State.Accounted.shed (sheds : Sheds mmu after) :
    after.Accounted :=
  accounted.outside (sheds.same.tlb true) (sheds.same.tlb false)

/-- The purge before an insertion keeps the books. -/
theorem State.Accounted.purgeTcEntries (isData : Bool) (va ps : Word)
    (rid : BitVec 32) : (mmu.purgeTcEntries isData va ps rid).1.Accounted := by
  have dropped := (sheds_dtlb1PurgeRange mmu (vaPageBase va ps) ps rid true).ite (isData = true)
  simp only [State.purgeTcEntries]
  generalize (if isData then mmu.dtlb1PurgeRange (vaPageBase va ps) ps rid true
    else mmu) = narrowed at dropped
  have swept : (sweep (narrowed.tlb isData).count
      (State.purgeTcVisit isData (vaPageBase va ps) ps rid) (narrowed, none)).1.Accounted := by
    refine sweep_invariant (P := fun progress : State × Option Nat => progress.1.Accounted)
      (accounted.shed dropped) ?_
    rintro i - ⟨current, empty⟩ kept
    cases meets : ((current.tlb isData).entry i).purgeable (vaPageBase va ps) ps rid with
    | true =>
      rw [purgeTcVisit_purge _ _ _ _ _ _ _ meets]
      exact (State.Accounted.shed kept (sheds_flushEntry _ _)).setTlb ((kept isData).retire i)
    | false =>
      rw [purgeTcVisit_keep _ _ _ _ _ _ _ meets]
      exact kept
  exact swept.setTlb (swept isData).trim

theorem State.Accounted.insertTc (formed : mmu.WellFormed) (isData : Bool)
    (unmarked : entry.pendingPurge = false) : (mmu.insertTc isData entry).2.Accounted := by
  have books := accounted.purgeTcEntries isData entry.va entry.ps entry.rid
  obtain ⟨slot, next, -, -, -, inserted⟩ := insertTc_eq formed isData entry
  rw [inserted]
  -- The mark of the old entry is discarded before the new one takes its place.
  refine State.Accounted.shed (@accounted_of_tlbs _ isData ?_ ?_) (sheds_flushEntry _ _)
  · rw [takeSlot_tlb]
    exact (((books isData).withReplace next).discard slot).place unmarked
  · rw [(takeSlot_filled ..).other]
    exact books _

/-- Replacing a translation register keeps the books. -/
theorem State.Accounted.replaceTr (formed : mmu.WellFormed) (isData : Bool)
    (slot : Nat) (unmarked : entry.pendingPurge = false) :
    (mmu.replaceTr isData slot entry).Accounted := by
  have books := accounted.purgeTcEntries isData entry.va entry.ps entry.rid
  cases held : ((mmu.tlb isData).entry slot).valid && ((mmu.tlb isData).entry slot).isTr with
  | false =>
    -- Whatever mark the slot has is discarded.
    obtain ⟨flushed, dropped, result, shed, drops, -⟩ :=
      @replaceTr_stages_fresh mmu formed isData slot entry held
    have books := books.shed (shed.trans drops)
    rw [result]
    exact State.Accounted.shed (books.setTlb (((books isData).discard slot).place unmarked))
      ((sheds_flushEntry _ _).trans (sheds_flushEntry _ entry))
  | true =>
    -- The copy takes the mark along.
    obtain ⟨valid, register⟩ := Bool.and_eq_true_iff.mp held
    obtain ⟨copy, next, dropped, result, -, -, apart, stored, drops, -⟩ :=
      @replaceTr_stages_held mmu formed isData slot entry valid register
    rw [result]
    refine State.Accounted.shed (accounted_setTlb ?_ ?_)
      ((sheds_flushEntry _ _).trans (sheds_flushEntry _ entry))
    · rw [drops.same.tlb, takeSlot_tlb]
      refine ((((books isData).withReplace next).discard copy).placeCopy apart.symm
        (by exact valid) ?_).place unmarked
      rw [discardPendingPurge_entry_ne _ _ apart.symm, stored]
    · rw [drops.same.tlb, (takeSlot_filled ..).other]
      exact books _

end

end State

section Purges

variable {mmu : State}

theorem Tlb.Accounted.markPendingPurgeEntries {tlb : Tlb} (accounted : tlb.Accounted) (va ps : Word)
    (rid : BitVec 32) (tcOnly : Bool) :
    (tlb.markPendingPurgeEntries va ps rid tcOnly).Accounted := by
  rw [markPendingPurgeEntries_eq]
  refine accounted.markSweep fun entry meets => ?_
  simp only [Bool.and_eq_true, TlbEntry.overlaps] at meets
  exact meets.2.1.1.2

theorem Tlb.Accounted.markPendingPurgeAllTc {tlb : Tlb} (accounted : tlb.Accounted) :
    tlb.markPendingPurgeAllTc.Accounted := by
  refine accounted.markSweep fun entry meets => ?_
  simp only [TlbEntry.isTc, Bool.and_eq_true] at meets
  exact meets.1

section

variable (accounted : mmu.Accounted)

include accounted

theorem State.Accounted.ptcMark (va ps : Word) (rid : BitVec 32) :
    (mmu.ptcMark va ps rid).Accounted := by
  have purged := accounted.shed (sheds_dtlb1PurgeRange mmu va ps rid true)
  intro isData
  cases isData
  · exact (purged false).markPendingPurgeEntries va ps rid true
  · exact (purged true).markPendingPurgeEntries va ps rid true

theorem State.Accounted.markPendingPurgeAllTcEnv :
    mmu.markPendingPurgeAllTcEnv.Accounted := by
  have data : State.Accounted { mmu with data := mmu.data.markPendingPurgeAllTc } :=
    @accounted_setTlb mmu true _ (accounted true).markPendingPurgeAllTc (accounted false)
  simp only [State.markPendingPurgeAllTcEnv]
  set marked : State := { mmu with data := mmu.data.markPendingPurgeAllTc }
  have books := data.shed (sheds_dtlb1Empty marked)
  exact @accounted_setTlb _ false _ (books false).markPendingPurgeAllTc (books true)

variable (isIfetch targeted : Bool)

theorem State.Accounted.completeVisit (i : Nat) :
    (State.completeVisit isIfetch targeted mmu i).Accounted := by
  simp only [State.completeVisit]
  split
  · have flushed := accounted.shed
      (sheds_completeFlush isIfetch targeted mmu ((mmu.tlb !isIfetch).entry i))
    exact flushed.setTlb ((flushed _).retire i)
  · exact accounted

theorem State.Accounted.completeSweep (bound : Nat) :
    (sweep bound (State.completeVisit isIfetch targeted) mmu).Accounted :=
  sweep_invariant accounted fun i _ _ kept => State.Accounted.completeVisit kept isIfetch targeted i

theorem State.Accounted.completePendingPurges :
    (mmu.completePendingPurges isIfetch targeted).Accounted := by
  have swept := accounted.completeSweep isIfetch targeted (mmu.tlb !isIfetch).count
  exact swept.setTlb (swept _).trim

theorem completePendingPurges_pending :
    ((mmu.completePendingPurges isIfetch targeted).tlb !isIfetch).pending = 0 := by
  have counts := (accounted.completePendingPurges isIfetch targeted (!isIfetch)).counts
  refine counts.unique (counts_none fun i => ?_)
  rw [completePendingPurges_entry]
  have books := accounted (!isIfetch)
  split
  · rfl
  · rename_i kept
    by_cases used : i < (mmu.tlb !isIfetch).count
    · -- A valid entry with a mark would have been purged.
      cases valid : ((mmu.tlb !isIfetch).entry i).valid with
      | false => exact books.clean i valid
      | true => simpa [used, valid] using kept
    · exact books.clean i (books.unused i (by omega))

/-- One side is completed if the counter says so. -/
theorem completeIf_accounted (isIfetch targeted serialize : Bool) :
    let after := if serialize && (mmu.tlb !isIfetch).pending != 0 then
      mmu.completePendingPurges isIfetch targeted else mmu
    after.Accounted ∧ after.tlb isIfetch = mmu.tlb isIfetch ∧
      (serialize = true → (after.tlb !isIfetch).pending = 0) := by
  intro after
  cases waits : serialize && (mmu.tlb !isIfetch).pending != 0 with
  | true =>
    have completed : after = mmu.completePendingPurges isIfetch targeted := if_pos waits
    rw [completed]
    exact ⟨accounted.completePendingPurges isIfetch targeted,
      (completePendingPurges_frame mmu isIfetch targeted).1,
      fun _ => completePendingPurges_pending accounted isIfetch targeted⟩
  | false =>
    have idle : after = mmu := if_neg (by simp [waits])
    rw [idle]
    refine ⟨accounted, rfl, fun serializes => ?_⟩
    simpa [serializes] using waits

theorem State.Accounted.serializeStart (serializeData : Bool) :
    (if serializeData then { mmu with psrIcInflight := false, psrIDeferred := false }
      else mmu).Accounted := by
  split
  · exact accounted.outside rfl rfl
  · exact accounted

theorem tlbSerialize_accounted (serializeData serializeInst : Bool) :
    (mmu.tlbSerialize serializeData serializeInst).Accounted ∧
      ∀ isData, (if isData then serializeData else serializeInst) = true →
        ((mmu.tlbSerialize serializeData serializeInst).tlb isData).pending = 0 := by
  simp only [State.tlbSerialize]
  generalize decide ((if serializeData then mmu.data.pending else 0) +
    (if serializeInst then mmu.inst.pending else 0) ≤ 8) = targeted
  have started := accounted.serializeStart serializeData
  generalize (if serializeData then
    { mmu with psrIcInflight := false, psrIDeferred := false } else mmu) = first at started
  obtain ⟨dataBooks, -, dataDone⟩ := completeIf_accounted started false targeted serializeData
  change State.Accounted (if serializeData && first.data.pending != 0 then
    first.completePendingPurges false targeted else first) at dataBooks
  change serializeData = true → (if serializeData && first.data.pending != 0 then
    first.completePendingPurges false targeted else first).data.pending = 0 at dataDone
  generalize (if serializeData && first.data.pending != 0 then
    first.completePendingPurges false targeted else first) = second at dataBooks dataDone
  obtain ⟨instBooks, kept, instDone⟩ := completeIf_accounted dataBooks true targeted serializeInst
  change State.Accounted (if serializeInst && second.inst.pending != 0 then
    second.completePendingPurges true targeted else second) at instBooks
  change (if serializeInst && second.inst.pending != 0 then
    second.completePendingPurges true targeted else second).data = second.data at kept
  change serializeInst = true → (if serializeInst && second.inst.pending != 0 then
    second.completePendingPurges true targeted else second).inst.pending = 0 at instDone
  generalize (if serializeInst && second.inst.pending != 0 then
    second.completePendingPurges true targeted else second) = third at instBooks kept instDone
  have settled : third.Accounted ∧ ∀ isData,
      (if isData then serializeData else serializeInst) = true →
      (third.tlb isData).pending = 0 := by
    refine ⟨instBooks, fun isData => ?_⟩
    cases isData
    · exact instDone
    · intro serializes
      show third.data.pending = 0
      rw [kept]
      exact dataDone serializes
  split
  · exact ⟨settled.1.outside rfl rfl, settled.2⟩
  · exact settled

end

end Purges

end Ia64.Mmu
