import Ia64.Mmu.SlotLaws

/-! What marking, completing and serializing purges do to each slot. -/

namespace Ia64.Mmu

open Sweep State

/-- The two states agree on everything but TLB contents. -/
structure SameRegisters (before after : State) : Prop where
  model : after.model = before.model
  rr : after.rr = before.rr
  control : after.control = before.control
  psrIcInflight : after.psrIcInflight = before.psrIcInflight
  psrIDeferred : after.psrIDeferred = before.psrIDeferred

theorem SameRegisters.refl (mmu : State) : SameRegisters mmu mmu := ⟨rfl, rfl, rfl, rfl, rfl⟩

theorem SameRegisters.trans {first second third : State} (early : SameRegisters first second)
    (late : SameRegisters second third) : SameRegisters first third :=
  ⟨late.model.trans early.model, late.rr.trans early.rr, late.control.trans early.control,
    late.psrIcInflight.trans early.psrIcInflight, late.psrIDeferred.trans early.psrIDeferred⟩

theorem SameTlbs.registers {before after : State} (same : SameTlbs before after) :
    SameRegisters before after := by
  rw [same]
  exact ⟨rfl, rfl, rfl, rfl, rfl⟩

theorem sameRegisters_setTlb (mmu : State) (isData : Bool) (tlb : Tlb) :
    SameRegisters mmu (mmu.setTlb isData tlb) := by
  cases isData <;> exact ⟨rfl, rfl, rfl, rfl, rfl⟩

variable (isIfetch targeted : Bool) (mmu : State)

theorem sheds_completeFlush (entry : TlbEntry) :
    Sheds mmu
      (if targeted then
        (if !isIfetch then mmu.dtlb1InvalidateCopy entry else mmu).qemuTlbFlushEntry entry
      else if !isIfetch then mmu.dtlb1InvalidateCopy entry else mmu) :=
  (sheds_dropCopies mmu (!isIfetch) entry).trans ((sheds_flushEntry _ entry).ite _)

theorem completeVisit_entry_self (i : Nat) :
    ((State.completeVisit isIfetch targeted mmu i).tlb !isIfetch).entry i =
      if ((mmu.tlb !isIfetch).entry i).valid && ((mmu.tlb !isIfetch).entry i).pendingPurge then
        ((mmu.tlb !isIfetch).entry i).retired
      else (mmu.tlb !isIfetch).entry i := by
  simp only [completeVisit]
  split
  · rw [setTlb_tlb, (sheds_completeFlush isIfetch targeted mmu _).same.tlb, Tlb.retire_entry_self]
  · rfl

theorem completeVisit_entry_ne {i j : Nat} (apart : j ≠ i) :
    ((State.completeVisit isIfetch targeted mmu i).tlb !isIfetch).entry j =
      (mmu.tlb !isIfetch).entry j := by
  simp only [completeVisit]
  split
  · rw [setTlb_tlb, (sheds_completeFlush isIfetch targeted mmu _).same.tlb,
      Tlb.retire_entry_ne _ _ apart]
  · rfl

theorem completeVisit_frame (i : Nat) :
    (State.completeVisit isIfetch targeted mmu i).tlb isIfetch = mmu.tlb isIfetch ∧
      SameRegisters mmu (State.completeVisit isIfetch targeted mmu i) := by
  simp only [completeVisit]
  split
  · have same := (sheds_completeFlush isIfetch targeted mmu ((mmu.tlb !isIfetch).entry i)).same
    refine ⟨?_, same.registers.trans (sameRegisters_setTlb _ _ _)⟩
    rw [← same.tlb isIfetch]
    cases isIfetch <;> rfl
  · exact ⟨rfl, SameRegisters.refl mmu⟩

/-- A completion retires exactly what waits. -/
theorem completePendingPurges_entry (mmu : State) (isIfetch targeted : Bool) (j : Nat) :
    ((mmu.completePendingPurges isIfetch targeted).tlb !isIfetch).entry j =
      if j < (mmu.tlb !isIfetch).count ∧ (((mmu.tlb !isIfetch).entry j).valid &&
          ((mmu.tlb !isIfetch).entry j).pendingPurge) then
        ((mmu.tlb !isIfetch).entry j).retired
      else (mmu.tlb !isIfetch).entry j := by
  have swept := sweep_pointwise (completeVisit isIfetch targeted)
    (fun mmu => (mmu.tlb !isIfetch).entry)
    (fun _ entry => if entry.valid && entry.pendingPurge then entry.retired else entry)
    (fun current i => completeVisit_entry_self isIfetch targeted current i)
    (fun current i j apart => completeVisit_entry_ne isIfetch targeted current apart)
    (mmu.tlb !isIfetch).count mmu j
  simp only [completePendingPurges, setTlb_tlb, Tlb.trim]
  refine swept.trans ?_
  by_cases below : j < (mmu.tlb !isIfetch).count
  · simp [below]
  · simp [below]

/-- A completion leaves the other TLB alone. -/
theorem completePendingPurges_frame (mmu : State) (isIfetch targeted : Bool) :
    (mmu.completePendingPurges isIfetch targeted).tlb isIfetch = mmu.tlb isIfetch ∧
      SameRegisters mmu (mmu.completePendingPurges isIfetch targeted) := by
  have swept :
      (sweep (mmu.tlb !isIfetch).count (completeVisit isIfetch targeted) mmu).tlb isIfetch =
        mmu.tlb isIfetch ∧
      SameRegisters mmu
        (sweep (mmu.tlb !isIfetch).count (completeVisit isIfetch targeted) mmu) := by
    refine sweep_invariant
      (P := fun current : State => current.tlb isIfetch = mmu.tlb isIfetch ∧
        SameRegisters mmu current)
      ⟨rfl, SameRegisters.refl mmu⟩ ?_
    rintro i _ current ⟨other, registers⟩
    obtain ⟨visitOther, visitRegisters⟩ := completeVisit_frame isIfetch targeted current i
    exact ⟨visitOther.trans other, registers.trans visitRegisters⟩
  simp only [completePendingPurges]
  refine ⟨?_, swept.2.trans (sameRegisters_setTlb _ _ _)⟩
  rw [← swept.1]
  cases isIfetch <;> rfl

theorem TlbEntry.overlaps_of_equivalent {a b : TlbEntry} (alike : a.equivalent b)
    (start ps : Word) (rid : BitVec 32) : a.overlaps start ps rid = b.overlaps start ps rid := by
  simp only [TlbEntry.equivalent, Bool.and_eq_true, beq_iff_eq] at alike
  obtain ⟨⟨⟨⟨⟨⟨⟨validA, validB⟩, va⟩, -⟩, size⟩, -⟩, region⟩, -⟩ := alike
  simp only [TlbEntry.overlaps, TlbEntry.pageMask, validA, validB, va, size, region]

theorem completePendingPurges_copy {mmu : State} (isIfetch targeted : Bool) {j : Nat}
    (unlike : ∀ i, i < (mmu.tlb !isIfetch).count → ((mmu.tlb !isIfetch).entry i).valid →
      ((mmu.tlb !isIfetch).entry i).pendingPurge →
      (mmu.l1.entry j).equivalent ((mmu.tlb !isIfetch).entry i) = false) :
    (mmu.completePendingPurges isIfetch targeted).l1.entry j = mmu.l1.entry j := by
  -- The slots not visited yet still hold what they held at the start of the loop.
  have swept : (∀ k, (mmu.tlb !isIfetch).count ≤ k →
        ((sweep (mmu.tlb !isIfetch).count (completeVisit isIfetch targeted) mmu).tlb
          !isIfetch).entry k = (mmu.tlb !isIfetch).entry k) ∧
      (sweep (mmu.tlb !isIfetch).count (completeVisit isIfetch targeted) mmu).l1.entry j =
        mmu.l1.entry j := by
    refine sweep_induction
      (P := fun i (current : State) =>
        (∀ k, i ≤ k → (current.tlb !isIfetch).entry k = (mmu.tlb !isIfetch).entry k) ∧
        current.l1.entry j = mmu.l1.entry j) ⟨fun _ _ => rfl, rfl⟩ ?_
    rintro i below current ⟨rest, copy⟩
    refine ⟨fun k after => ?_, ?_⟩
    · rw [completeVisit_entry_ne _ _ _ (by omega), rest k (by omega)]
    · have stored := rest i (Nat.le_refl i)
      simp only [completeVisit, stored]
      split
      · rename_i waits
        simp only [Bool.and_eq_true] at waits
        rw [setTlb_l1]
        have kept : (if !isIfetch then current.dtlb1InvalidateCopy ((mmu.tlb !isIfetch).entry i)
            else current).l1.entry j = mmu.l1.entry j := by
          split
          · rw [dtlb1InvalidateCopy_entry, if_neg, copy]
            rintro ⟨-, -, alike⟩
            rw [copy, unlike i below waits.1 waits.2] at alike
            exact absurd alike (by decide)
          · exact copy
        split
        · rw [flushEntry_l1]
          exact kept
        · exact kept
      · exact copy
  simp only [completePendingPurges, setTlb_l1]
  exact swept.2

/-- What waits after a page is marked. -/
theorem markPendingPurgeEntries_pending (tlb : Tlb) (va ps : Word) (rid : BitVec 32) :
    (tlb.markPendingPurgeEntries va ps rid true).pending ≠ 0 ↔
      tlb.pending ≠ 0 ∨ ∃ i, i < tlb.count ∧ (tlb.entry i).isTr = false ∧
        (tlb.entry i).overlaps (vaPageBase va ps) ps rid ∧ (tlb.entry i).pendingPurge = false := by
  -- The counter moves once for each slot marked so far; later slots are as they were.
  have swept : (∀ j, tlb.count ≤ j →
        (tlb.markPendingPurgeEntries va ps rid true).entry j = tlb.entry j) ∧
      ((tlb.markPendingPurgeEntries va ps rid true).pending ≠ 0 ↔
        tlb.pending ≠ 0 ∨ ∃ i, i < tlb.count ∧ (tlb.entry i).isTr = false ∧
          (tlb.entry i).overlaps (vaPageBase va ps) ps rid ∧
          (tlb.entry i).pendingPurge = false) := by
    refine sweep_induction
      (P := fun k (current : Tlb) => (∀ j, k ≤ j → current.entry j = tlb.entry j) ∧
        (current.pending ≠ 0 ↔ tlb.pending ≠ 0 ∨ ∃ i, i < k ∧ (tlb.entry i).isTr = false ∧
          (tlb.entry i).overlaps (vaPageBase va ps) ps rid ∧
          (tlb.entry i).pendingPurge = false))
      ⟨fun _ _ => rfl, by simp⟩ ?_
    rintro i - current ⟨rest, counted⟩
    have stored := rest i (Nat.le_refl i)
    simp only [stored, Bool.not_true, Bool.false_or]
    split
    · rename_i marks
      simp only [Bool.and_eq_true, Bool.not_eq_eq_eq_not, Bool.not_true] at marks
      refine ⟨fun j after => ?_, ?_⟩
      · rw [Tlb.markPendingPurge_entry_ne _ _ (by omega), rest j (by omega)]
      · simp only [Tlb.markPendingPurge, stored]
        split
        · rename_i already
          rw [counted, Nat.exists_lt_succ_right]
          simp [already]
        · rename_i fresh
          simp only [Bool.not_eq_true] at fresh
          simp only [ne_eq, Nat.add_eq_zero_iff, Nat.one_ne_zero, and_false,
            not_false_eq_true, true_iff]
          exact Or.inr ⟨i, Nat.lt_succ_self i, marks.1, marks.2, fresh⟩
    · rename_i skips
      refine ⟨fun j after => rest j (by omega), ?_⟩
      rw [counted, Nat.exists_lt_succ_right]
      simp only [Bool.and_eq_true, Bool.not_eq_eq_eq_not, Bool.not_true] at skips
      have notMarked : ¬((tlb.entry i).isTr = false ∧
          (tlb.entry i).overlaps (vaPageBase va ps) ps rid ∧
          (tlb.entry i).pendingPurge = false) :=
        fun marked => skips ⟨marked.1, marked.2.1⟩
      rw [or_iff_left notMarked]
  exact swept.2

end Ia64.Mmu
