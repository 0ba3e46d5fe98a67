import Ia64.Mmu.HintLaws

/-! What the purge before an insertion and the choice of a slot do. -/

namespace Ia64.Mmu

open Pages Sweep State TlbEntry

/-- The entries that an insertion of a page purges. -/
def TlbEntry.purgeable (entry : TlbEntry) (start ps : Word) (rid : BitVec 32) : Bool :=
  !entry.isTr && entry.overlaps start ps rid

/-- What a slot holds once an insertion of a page has purged it. -/
def TlbEntry.afterPurge (entry : TlbEntry) (start ps : Word) (rid : BitVec 32) : TlbEntry :=
  if entry.purgeable start ps rid then entry.retired else entry

variable {entry : TlbEntry} {start ps : Word} {rid : BitVec 32}

theorem afterPurge_of_meets
    (meets : entry.purgeable start ps rid) : entry.afterPurge start ps rid = entry.retired :=
  if_pos meets

theorem afterPurge_of_apart
    (apart : entry.purgeable start ps rid = false) : entry.afterPurge start ps rid = entry :=
  if_neg (by simp [apart])

section Visit

variable (isData : Bool) (start ps : Word) (rid : BitVec 32) (mmu : State)
  (empty : Option Nat) (i : Nat)

theorem purgeTcVisit_purge (meets : ((mmu.tlb isData).entry i).purgeable start ps rid) :
    State.purgeTcVisit isData start ps rid (mmu, empty) i =
      ((mmu.qemuTlbFlushEntry ((mmu.tlb isData).entry i)).setTlb isData ((mmu.tlb isData).retire i),
        empty <|> some i) := by
  have same := (sheds_flushEntry mmu ((mmu.tlb isData).entry i)).same.tlb isData
  simp only [purgeable, Bool.and_eq_true, Bool.not_eq_eq_eq_not, Bool.not_true] at meets
  obtain ⟨cache, overlap⟩ := meets
  have parts := overlap
  simp only [overlaps, Bool.and_eq_true, beq_iff_eq] at parts
  obtain ⟨⟨⟨region, valid⟩, -⟩, -⟩ := parts
  simp [purgeTcVisit, valid, region, cache, overlap, same]

theorem purgeTcVisit_keep (apart : ((mmu.tlb isData).entry i).purgeable start ps rid = false) :
    State.purgeTcVisit isData start ps rid (mmu, empty) i =
      (mmu, if !((mmu.tlb isData).entry i).valid then empty <|> some i else empty) := by
  simp only [purgeable, Bool.and_eq_false_iff, Bool.not_eq_eq_eq_not, Bool.not_false] at apart
  simp only [purgeTcVisit]
  by_cases valid : ((mmu.tlb isData).entry i).valid
  · rcases apart with register | elsewhere
    · simp [valid, register]
    · simp [valid, elsewhere]
  · simp [valid]

theorem purgeTcVisit_entry (j : Nat) :
    ((State.purgeTcVisit isData start ps rid (mmu, empty) i).1.tlb isData).entry j =
      if j = i then ((mmu.tlb isData).entry i).afterPurge start ps rid
        else (mmu.tlb isData).entry j := by
  cases meets : ((mmu.tlb isData).entry i).purgeable start ps rid with
  | true =>
    rw [purgeTcVisit_purge _ _ _ _ _ _ _ meets, setTlb_tlb]
    split
    · rename_i here
      rw [here, Tlb.retire_entry_self, afterPurge_of_meets meets]
    · rename_i apart
      rw [Tlb.retire_entry_ne _ _ apart]
  | false =>
    rw [purgeTcVisit_keep _ _ _ _ _ _ _ meets, afterPurge_of_apart meets]
    by_cases here : j = i
    · rw [if_pos here, here]
    · rw [if_neg here]

theorem purgeTcVisit_bounds :
    ((State.purgeTcVisit isData start ps rid (mmu, empty) i).1.tlb isData).count =
      (mmu.tlb isData).count ∧
      ((State.purgeTcVisit isData start ps rid (mmu, empty) i).1.tlb isData).replace =
        (mmu.tlb isData).replace := by
  cases meets : ((mmu.tlb isData).entry i).purgeable start ps rid with
  | true =>
    rw [purgeTcVisit_purge _ _ _ _ _ _ _ meets, setTlb_tlb]
    simp [Tlb.retire, Tlb.set]
  | false =>
    rw [purgeTcVisit_keep _ _ _ _ _ _ _ meets]
    exact ⟨rfl, rfl⟩

theorem purgeTcVisit_frame :
    (State.purgeTcVisit isData start ps rid (mmu, empty) i).1.tlb (!isData) = mmu.tlb (!isData) ∧
      (State.purgeTcVisit isData start ps rid (mmu, empty) i).1.l1 = mmu.l1 ∧
      SameRegisters mmu (State.purgeTcVisit isData start ps rid (mmu, empty) i).1 := by
  cases meets : ((mmu.tlb isData).entry i).purgeable start ps rid with
  | true =>
    rw [purgeTcVisit_purge _ _ _ _ _ _ _ meets]
    have same := (sheds_flushEntry mmu ((mmu.tlb isData).entry i)).same
    refine ⟨?_, ?_, same.registers.trans (sameRegisters_setTlb _ _ _)⟩
    · rw [setTlb_tlb_not, same.tlb]
    · rw [setTlb_l1, flushEntry_l1]
  | false =>
    rw [purgeTcVisit_keep _ _ _ _ _ _ _ meets]
    exact ⟨rfl, rfl, SameRegisters.refl mmu⟩

theorem purgeTcVisit_empty :
    (State.purgeTcVisit isData start ps rid (mmu, empty) i).2 =
      (empty <|> if !(((mmu.tlb isData).entry i).afterPurge start ps rid).valid then some i
        else none) := by
  cases meets : ((mmu.tlb isData).entry i).purgeable start ps rid with
  | true =>
    rw [purgeTcVisit_purge _ _ _ _ _ _ _ meets, afterPurge_of_meets meets]
    simp [TlbEntry.retired]
  | false =>
    rw [purgeTcVisit_keep _ _ _ _ _ _ _ meets, afterPurge_of_apart meets]
    by_cases valid : ((mmu.tlb isData).entry i).valid
    · simp [valid]
    · simp [valid]

end Visit

section Purge

variable (isData : Bool) (start ps : Word) (rid : BitVec 32) (mmu : State)

/-- The loop of the purge over the used slots. -/
theorem purgeTcSweep_spec (bound : Nat) :
    let swept := sweep bound (State.purgeTcVisit isData start ps rid) (mmu, none)
    (∀ j, (swept.1.tlb isData).entry j =
        if j < bound then ((mmu.tlb isData).entry j).afterPurge start ps rid
        else (mmu.tlb isData).entry j) ∧
      (swept.1.tlb isData).count = (mmu.tlb isData).count ∧
      (swept.1.tlb isData).replace = (mmu.tlb isData).replace ∧
      swept.1.tlb (!isData) = mmu.tlb (!isData) ∧ swept.1.l1 = mmu.l1 ∧ SameRegisters mmu swept.1 ∧
      swept.2 = firstSlot bound fun i =>
        !(((mmu.tlb isData).entry i).afterPurge start ps rid).valid := by
  -- One visit handles its own slot, which is still as it was at the start.
  refine sweep_induction
    (P := fun reached (progress : State × Option Nat) =>
      (∀ j, (progress.1.tlb isData).entry j =
        if j < reached then ((mmu.tlb isData).entry j).afterPurge start ps rid
        else (mmu.tlb isData).entry j) ∧
      (progress.1.tlb isData).count = (mmu.tlb isData).count ∧
      (progress.1.tlb isData).replace = (mmu.tlb isData).replace ∧
      progress.1.tlb (!isData) = mmu.tlb (!isData) ∧ progress.1.l1 = mmu.l1 ∧
      SameRegisters mmu progress.1 ∧
      progress.2 = firstSlot reached fun i =>
        !(((mmu.tlb isData).entry i).afterPurge start ps rid).valid)
    ⟨fun j => by simp, rfl, rfl, rfl, rfl, SameRegisters.refl mmu, rfl⟩ ?_
  rintro i - ⟨current, empty⟩ ⟨entries, count, replace, other, l1, registers, noted⟩
  have stored : (current.tlb isData).entry i = (mmu.tlb isData).entry i := by
    rw [entries i, if_neg (Nat.lt_irrefl i)]
  obtain ⟨visitCount, visitReplace⟩ := purgeTcVisit_bounds isData start ps rid current empty i
  obtain ⟨visitOther, visitL1, visitRegisters⟩ :=
    purgeTcVisit_frame isData start ps rid current empty i
  refine ⟨fun j => ?_, visitCount.trans count, visitReplace.trans replace, visitOther.trans other,
    visitL1.trans l1, registers.trans visitRegisters, ?_⟩
  · rw [purgeTcVisit_entry, stored]
    by_cases here : j = i
    · rw [if_pos here, if_pos (by omega), here]
    · rw [if_neg here, entries j]
      by_cases below : j < i
      · rw [if_pos below, if_pos (by omega)]
      · rw [if_neg below, if_neg (by omega)]
  · rw [purgeTcVisit_empty, stored, firstSlot_succ]
    exact congrArg (fun found => found <|> _) noted

/-- What the purge before an insertion leaves. -/
structure Purged (before after : State) (empty : Option Nat) : Prop where
  entries : ∀ j, (after.tlb isData).entry j = ((before.tlb isData).entry j).afterPurge start ps rid
  count : (after.tlb isData).count = trimmedCount (after.tlb isData).entry (before.tlb isData).count
  replace : (after.tlb isData).replace = (before.tlb isData).replace
  other : after.tlb (!isData) = before.tlb (!isData)
  copies : after.l1 = if isData then (before.dtlb1PurgeRange start ps rid true).l1 else before.l1
  registers : SameRegisters before after
  empty : empty = firstSlot (before.tlb isData).count fun i => !((after.tlb isData).entry i).valid

theorem purgeTcEntries_spec (formed : mmu.WellFormed) (va : Word) :
    Purged isData (vaPageBase va ps) ps rid mmu (mmu.purgeTcEntries isData va ps rid).1
      (mmu.purgeTcEntries isData va ps rid).2 := by
  have dropped : Sheds mmu
      (if isData then mmu.dtlb1PurgeRange (vaPageBase va ps) ps rid true else mmu) :=
    (sheds_dtlb1PurgeRange mmu _ ps rid true).ite _
  have copied : (if isData then mmu.dtlb1PurgeRange (vaPageBase va ps) ps rid true else mmu).l1 =
      if isData then (mmu.dtlb1PurgeRange (vaPageBase va ps) ps rid true).l1 else mmu.l1 := by
    cases isData <;> rfl
  simp only [purgeTcEntries]
  set narrowed : State := if isData then mmu.dtlb1PurgeRange (vaPageBase va ps) ps rid true else mmu
  obtain ⟨entries, count, replace, other, l1, registers, noted⟩ :=
    purgeTcSweep_spec isData (vaPageBase va ps) ps rid narrowed (narrowed.tlb isData).count
  have kept := dropped.same.tlb isData
  -- Slots beyond the used range hold nothing to purge.
  have everywhere : ∀ j, ((sweep (narrowed.tlb isData).count
      (purgeTcVisit isData (vaPageBase va ps) ps rid) (narrowed, none)).1.tlb isData).entry j =
        ((mmu.tlb isData).entry j).afterPurge (vaPageBase va ps) ps rid := by
    intro j
    rw [entries j, kept]
    split
    · rfl
    · rename_i beyond
      refine (afterPurge_of_apart ?_).symm
      have unused := (formed.tlbs isData).unused j (by omega)
      simp [purgeable, overlaps, unused]
  refine ⟨?_, ?_, ?_, ?_, ?_, ?_, ?_⟩
  · simpa only [setTlb_tlb, Tlb.trim] using everywhere
  · rw [setTlb_tlb]
    show trimmedCount _ _ = trimmedCount _ _
    rw [count, kept]
    rfl
  · rw [setTlb_tlb]
    exact replace.trans (by rw [kept])
  · rw [setTlb_tlb_not, other, dropped.same.tlb]
  · rw [setTlb_l1, l1, copied]
  · exact dropped.same.registers.trans (registers.trans (sameRegisters_setTlb _ _ _))
  · rw [noted, ← kept]
    refine firstSlot_congr fun i _ => ?_
    have stored := everywhere i
    rw [← kept] at stored
    rw [setTlb_tlb]
    exact congrArg (fun entry => !entry.valid) stored.symm

/-- Flushing and retiring makes elementary changes. -/
theorem flushRetire_changes {strict : Prop} {isData : Bool} {before : State}
    (formed : before.WellFormed) {slot : Nat}
    (cache : ((before.tlb isData).entry slot).isTr = false) :
    Changes strict before ((before.qemuTlbFlushEntry ((before.tlb isData).entry slot)).setTlb isData
      ((before.tlb isData).retire slot)) := by
  have flushed := sheds_flushEntry before ((before.tlb isData).entry slot)
  have gone := unserved_flushEntry before ((formed.tlbs isData).sized slot)
  set after : State := before.qemuTlbFlushEntry ((before.tlb isData).entry slot)
  have same := flushed.same.tlb isData
  have retired : Change strict after (after.setTlb isData ((after.tlb isData).retire slot)) := by
    refine .retire after isData slot (fun _ => ?_) fun _ _ register => ?_
    · rw [same]
      exact gone
    · rw [same] at register
      exact absurd (cache.symm.trans register) (by decide)
  rw [same] at retired
  exact (Relation.ReflTransGen.single flushed.change).tail retired

theorem purgeTcEntries_changes {strict : Prop} (formed : mmu.WellFormed) (va : Word) :
    Changes strict mmu (mmu.purgeTcEntries isData va ps rid).1 := by
  have dropped : Sheds mmu
      (if isData then mmu.dtlb1PurgeRange (vaPageBase va ps) ps rid true else mmu) :=
    (sheds_dtlb1PurgeRange mmu _ ps rid true).ite _
  simp only [purgeTcEntries]
  set narrowed : State := if isData then mmu.dtlb1PurgeRange (vaPageBase va ps) ps rid true else mmu
  have swept : Changes strict mmu (sweep (narrowed.tlb isData).count
      (purgeTcVisit isData (vaPageBase va ps) ps rid) (narrowed, none)).1 := by
    refine sweep_invariant (P := fun progress : State × Option Nat => Changes strict mmu progress.1)
      (.single dropped.change) ?_
    rintro i - ⟨current, empty⟩ reached
    cases meets : ((current.tlb isData).entry i).purgeable (vaPageBase va ps) ps rid with
    | false =>
      rw [purgeTcVisit_keep _ _ _ _ _ _ _ meets]
      exact reached
    | true =>
      rw [purgeTcVisit_purge _ _ _ _ _ _ _ meets]
      simp only [purgeable, Bool.and_eq_true, Bool.not_eq_eq_eq_not, Bool.not_true] at meets
      exact reached.trans (flushRetire_changes (Changes.wellFormed reached formed) meets.1)
  exact swept.tail (.quiet _ isData (quiet_trim _ _))

end Purge

end Ia64.Mmu
