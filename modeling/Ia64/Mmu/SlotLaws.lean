import Ia64.Mmu.Purge

/-! What each operation on slots changes, slot by slot. -/

namespace Ia64.Mmu

open Sweep State Tlb

/-- The version of a slot after one that it had; zero is skipped. -/
def nextVersion (version : BitVec 32) : BitVec 32 := if version + 1 = 0 then 1 else version + 1

/-- An entry under the next version of its slot. -/
def TlbEntry.bumped (entry : TlbEntry) : TlbEntry :=
  { entry with microGeneration := nextVersion entry.microGeneration }

/-- What a retired slot holds. -/
def TlbEntry.retired (entry : TlbEntry) : TlbEntry :=
  { entry with
    valid := false
    pendingPurge := false
    microGeneration := nextVersion entry.microGeneration }

section Slots

variable (tlb : Tlb) (slot : Nat)

@[simp] theorem Tlb.bumpGeneration_entry : tlb.bumpGeneration.entry = tlb.entry := by
  unfold bumpGeneration
  split <;> rfl

@[simp] theorem Tlb.bumpGeneration_count : tlb.bumpGeneration.count = tlb.count := by
  unfold bumpGeneration
  split <;> rfl

@[simp] theorem Tlb.bumpGeneration_replace : tlb.bumpGeneration.replace = tlb.replace := by
  unfold bumpGeneration
  split <;> rfl

@[simp] theorem Tlb.bumpGeneration_pending : tlb.bumpGeneration.pending = tlb.pending := by
  unfold bumpGeneration
  split <;> rfl

theorem Tlb.bumpSlotGeneration_entry_self :
    (tlb.bumpSlotGeneration slot).entry slot = (tlb.entry slot).bumped := by
  simp only [bumpSlotGeneration, TlbEntry.bumped, nextVersion]
  split
  · simp
  · exact set_entry_self _ _ _

variable {other : Nat}

theorem Tlb.bumpSlotGeneration_entry_ne (apart : other ≠ slot) :
    (tlb.bumpSlotGeneration slot).entry other = tlb.entry other := by
  simp only [bumpSlotGeneration]
  split
  · rw [bumpGeneration_entry, set_entry_ne _ _ apart]
  · rw [set_entry_ne _ _ apart]

@[simp] theorem Tlb.bumpSlotGeneration_count : (tlb.bumpSlotGeneration slot).count = tlb.count := by
  simp only [bumpSlotGeneration]
  split <;> simp

@[simp] theorem Tlb.bumpSlotGeneration_replace :
    (tlb.bumpSlotGeneration slot).replace = tlb.replace := by
  simp only [bumpSlotGeneration]
  split
  · rw [bumpGeneration_replace]
    rfl
  · rfl

@[simp] theorem Tlb.discardPendingPurge_replace :
    (tlb.discardPendingPurge slot).replace = tlb.replace := by
  simp only [discardPendingPurge]
  split <;> rfl

@[simp] theorem Tlb.discardPendingPurge_count :
    (tlb.discardPendingPurge slot).count = tlb.count := by
  simp only [discardPendingPurge]
  split <;> rfl

@[simp] theorem Tlb.discardPendingPurge_entry_self :
    (tlb.discardPendingPurge slot).entry slot = { tlb.entry slot with pendingPurge := false } := by
  simp only [discardPendingPurge]
  split
  · exact set_entry_self _ _ _
  · rename_i clear
    -- The mark was clear already, so the record is unchanged.
    cases stored : tlb.entry slot
    simp_all

theorem Tlb.discardPendingPurge_entry_ne (apart : other ≠ slot) :
    (tlb.discardPendingPurge slot).entry other = tlb.entry other := by
  simp only [discardPendingPurge]
  split
  · exact set_entry_ne _ _ apart
  · rfl

@[simp] theorem Tlb.retire_count : (tlb.retire slot).count = tlb.count := by
  simp [retire]

theorem Tlb.retire_entry_self : (tlb.retire slot).entry slot = (tlb.entry slot).retired := by
  simp only [retire]
  rw [bumpSlotGeneration_entry_self, set_entry_self, discardPendingPurge_entry_self]
  rfl

theorem Tlb.retire_entry_ne (apart : other ≠ slot) :
    (tlb.retire slot).entry other = tlb.entry other := by
  simp only [retire]
  rw [bumpSlotGeneration_entry_ne _ _ apart, set_entry_ne _ _ apart,
    discardPendingPurge_entry_ne _ _ apart]

theorem Tlb.place_entry_self (entry : TlbEntry) :
    (tlb.place slot entry).entry slot =
      { entry with microGeneration := nextVersion (tlb.entry slot).microGeneration } := by
  simp only [Tlb.place]
  rw [bumpSlotGeneration_entry_self]
  simp [TlbEntry.bumped]

theorem Tlb.place_entry_ne (entry : TlbEntry) (apart : other ≠ slot) :
    (tlb.place slot entry).entry other = tlb.entry other := by
  simp only [Tlb.place]
  rw [bumpSlotGeneration_entry_ne _ _ apart]
  exact set_entry_ne _ _ apart

theorem Tlb.place_count (entry : TlbEntry) :
    (tlb.place slot entry).count = if tlb.count ≤ slot then slot + 1 else tlb.count := by
  simp [Tlb.place]

@[simp] theorem Tlb.markPendingPurge_count : (tlb.markPendingPurge slot).count = tlb.count := by
  simp only [markPendingPurge]
  split <;> rfl

@[simp] theorem Tlb.markPendingPurge_entry_self :
    (tlb.markPendingPurge slot).entry slot = { tlb.entry slot with pendingPurge := true } := by
  simp only [markPendingPurge]
  split
  · rename_i marked
    -- The mark was set already, so the record is unchanged.
    cases stored : tlb.entry slot
    simp_all
  · exact set_entry_self _ _ _

theorem Tlb.markPendingPurge_entry_ne (apart : other ≠ slot) :
    (tlb.markPendingPurge slot).entry other = tlb.entry other := by
  simp only [markPendingPurge]
  split
  · rfl
  · exact set_entry_ne _ _ apart

end Slots

section

variable (test : TlbEntry → Bool) (tlb : Tlb)

/-- A loop that marks the slots that satisfy a test. -/
def Tlb.markSweep : Tlb :=
  sweep tlb.count (fun tlb i => if test (tlb.entry i) then tlb.markPendingPurge i else tlb) tlb

theorem Tlb.markSweep_entry (j : Nat) :
    (tlb.markSweep test).entry j =
      if j < tlb.count ∧ test (tlb.entry j) then { tlb.entry j with pendingPurge := true }
      else tlb.entry j := by
  -- Each visit decides about its own slot.
  have swept := sweep_pointwise
    (fun tlb i => if test (tlb.entry i) then tlb.markPendingPurge i else tlb) Tlb.entry
    (fun _ entry => if test entry then { entry with pendingPurge := true } else entry)
    (by intro current i; split <;> simp)
    (by
      intro current i j apart
      split
      · exact markPendingPurge_entry_ne _ _ apart
      · rfl)
    tlb.count tlb j
  rw [markSweep, swept]
  by_cases below : j < tlb.count
  · simp [below]
  · simp [below]

@[simp] theorem Tlb.markSweep_count :
    (tlb.markSweep test).count = tlb.count := by
  -- No visit changes the count.
  refine sweep_invariant (P := fun current : Tlb => current.count = tlb.count) rfl ?_
  intro i _ current same
  split
  · rw [markPendingPurge_count, same]
  · exact same

end

section

variable (tlb : Tlb) (va ps : Word) (rid : BitVec 32)

theorem Tlb.markPendingPurgeEntries_eq (tcOnly : Bool) :
    tlb.markPendingPurgeEntries va ps rid tcOnly =
      tlb.markSweep fun entry =>
        (!tcOnly || !entry.isTr) && entry.overlaps (vaPageBase va ps) ps rid := rfl

theorem Tlb.markPendingPurgeEntries_entry
    (tcOnly : Bool) (j : Nat) :
    (tlb.markPendingPurgeEntries va ps rid tcOnly).entry j =
      if j < tlb.count ∧ ((!tcOnly || !(tlb.entry j).isTr) &&
          (tlb.entry j).overlaps (vaPageBase va ps) ps rid) then
        { tlb.entry j with pendingPurge := true }
      else tlb.entry j := by
  rw [markPendingPurgeEntries_eq, markSweep_entry]

@[simp] theorem Tlb.markPendingPurgeEntries_count
    (tcOnly : Bool) : (tlb.markPendingPurgeEntries va ps rid tcOnly).count = tlb.count := by
  rw [markPendingPurgeEntries_eq, markSweep_count]

end

/-- The states differ at most in the software TLB and the first-level data TLB. -/
def SameTlbs (before after : State) : Prop :=
  after = { before with host := after.host, l1 := after.l1 }

variable {first second third before after : State}

theorem SameTlbs.trans (early : SameTlbs first second)
    (late : SameTlbs second third) : SameTlbs first third := by
  unfold SameTlbs at early late ⊢
  rw [late, early]

theorem SameTlbs.tlb (same : SameTlbs before after) (isData : Bool) :
    after.tlb isData = before.tlb isData := by
  rw [same]
  rfl

theorem SameTlbs.model (same : SameTlbs before after) :
    after.model = before.model := by
  rw [same]

theorem SameTlbs.rr (same : SameTlbs before after) :
    after.rr = before.rr := by
  rw [same]

/-- Pages leave the software TLB and entries leave the first level, and nothing else changes. -/
structure Sheds (before after : State) : Prop where
  same : SameTlbs before after
  copies : ∀ i, (after.l1.entry i).valid → after.l1.entry i = before.l1.entry i
  host : ∀ idx page entry, after.host idx page = some entry → before.host idx page = some entry

section

variable (mmu : State)

theorem Sheds.refl : Sheds mmu mmu := ⟨rfl, fun _ _ => rfl, fun _ _ _ present => present⟩

theorem Sheds.trans (early : Sheds first second) (late : Sheds second third) :
    Sheds first third where
  same := early.same.trans late.same
  copies i valid := by
    have kept := late.copies i valid
    rw [kept] at valid ⊢
    exact early.copies i valid
  host idx page entry present := early.host idx page entry (late.host idx page entry present)

theorem Sheds.ite (sheds : Sheds before after) (test : Prop) [Decidable test] :
    Sheds before (if test then after else before) := by
  split
  · exact sheds
  · exact .refl before

theorem Sheds.sweep {visit : State → Nat → State}
    (kept : ∀ mmu i, Sheds mmu (visit mmu i)) (bound : Nat) (mmu : State) :
    Sheds mmu (sweep bound visit mmu) :=
  sweep_invariant (Sheds.refl mmu) fun i _ _ reached => reached.trans (kept _ i)

@[simp] theorem flushEntry_l1 (entry : TlbEntry) :
    (mmu.qemuTlbFlushEntry entry).l1 = mmu.l1 := by
  unfold qemuTlbFlushEntry
  split <;> rfl

theorem flushRange_some {host : HostTlb} {start length : Word} {idx : Nat} {page : Word}
    {entry : HostEntry} (present : host.flushRange start length idx page = some entry) :
    host idx page = some entry := by
  unfold HostTlb.flushRange at present
  split at present
  · exact absurd present (by simp)
  · exact present

theorem sheds_flushEntry (entry : TlbEntry) : Sheds mmu (mmu.qemuTlbFlushEntry entry) where
  same := by
    unfold qemuTlbFlushEntry
    split <;> rfl
  copies i _ := by rw [flushEntry_l1]
  host idx page := by
    unfold qemuTlbFlushEntry
    split
    · exact fun _ present => present
    · -- Each region's flush only removes pages.
      refine sweep_invariant
        (P := fun current : HostTlb => ∀ held, current idx page = some held →
          mmu.host idx page = some held)
        (fun _ present => present) ?_
      intro region _ current kept held present
      refine kept held ?_
      split at present
      · exact present
      · exact flushRange_some present

theorem sheds_tlbFlush : Sheds mmu mmu.tlbFlush :=
  ⟨rfl, fun _ _ => rfl, fun _ _ _ present => absurd present (by simp [State.tlbFlush])⟩

@[simp] theorem dtlb1InvalidateSlot_entry_self (slot : Nat) :
    (mmu.dtlb1InvalidateSlot slot).l1.entry slot = { mmu.l1.entry slot with valid := false } := by
  simp only [dtlb1InvalidateSlot]
  split
  · rename_i clear
    cases stored : mmu.l1.entry slot
    simp_all
  · simp

theorem dtlb1InvalidateSlot_entry_ne {slot other : Nat} (apart : other ≠ slot) :
    (mmu.dtlb1InvalidateSlot slot).l1.entry other = mmu.l1.entry other := by
  simp only [dtlb1InvalidateSlot]
  split
  · rfl
  · simp [apart]

theorem sheds_dtlb1InvalidateSlot (slot : Nat) : Sheds mmu (mmu.dtlb1InvalidateSlot slot) where
  same := by
    simp only [dtlb1InvalidateSlot]
    split
    · rfl
    · exact (sheds_flushEntry mmu _).same.trans rfl
  copies i valid := by
    by_cases here : i = slot
    · rw [here, dtlb1InvalidateSlot_entry_self] at valid
      exact absurd valid (by simp)
    · exact dtlb1InvalidateSlot_entry_ne mmu here
  host idx page entry := by
    simp only [dtlb1InvalidateSlot]
    split
    · exact id
    · exact (sheds_flushEntry mmu _).host idx page entry

theorem sheds_dtlb1Sweep (test : State → Nat → Prop) [∀ mmu i, Decidable (test mmu i)] (bound : Nat)
    (mmu : State) :
    Sheds mmu (sweep bound (fun mmu i => if test mmu i then mmu.dtlb1InvalidateSlot i
      else mmu) mmu) :=
  Sheds.sweep (fun mmu i => (sheds_dtlb1InvalidateSlot mmu i).ite _) bound mmu

theorem sheds_dtlb1InvalidateCopy (source : TlbEntry) :
    Sheds mmu (mmu.dtlb1InvalidateCopy source) := by
  unfold dtlb1InvalidateCopy
  split
  · exact .refl mmu
  · exact sheds_dtlb1Sweep _ _ mmu

theorem sheds_dropCopies (isData : Bool) (source : TlbEntry) :
    Sheds mmu (if isData then mmu.dtlb1InvalidateCopy source else mmu) :=
  (sheds_dtlb1InvalidateCopy mmu source).ite _

theorem sheds_dtlb1PurgeRange (va ps : Word) (rid : BitVec 32) (tcOnly : Bool) :
    Sheds mmu (mmu.dtlb1PurgeRange va ps rid tcOnly) := by
  simp only [dtlb1PurgeRange]
  split
  · exact .refl mmu
  · exact sheds_dtlb1Sweep _ _ mmu

theorem sheds_dtlb1Empty :
    Sheds mmu (if mmu.dtlb1Enabled then sweep dtlb1Max State.dtlb1InvalidateSlot mmu else mmu) :=
  (Sheds.sweep sheds_dtlb1InvalidateSlot dtlb1Max mmu).ite _

theorem sheds_flushReplacedEntry (entry : TlbEntry) (isData : Bool) :
    Sheds mmu (mmu.qemuTlbFlushReplacedEntry entry isData) := by
  unfold qemuTlbFlushReplacedEntry
  split_ifs
  · exact sheds_flushEntry mmu entry
  · exact (sheds_dtlb1InvalidateCopy mmu entry).trans (sheds_flushEntry _ entry)
  · exact .refl mmu
  · exact sheds_flushEntry mmu entry

/-- The loop drops exactly the slots of the test. -/
theorem dtlb1Sweep_entry (test : TlbEntry → Bool) (bound : Nat) (mmu : State) (j : Nat) :
    (sweep bound (fun mmu i => if test (mmu.l1.entry i) then mmu.dtlb1InvalidateSlot i else mmu)
        mmu).l1.entry j =
      if j < bound ∧ test (mmu.l1.entry j) then { mmu.l1.entry j with valid := false }
      else mmu.l1.entry j := by
  -- Each visit decides about its own slot.
  have swept := sweep_pointwise
    (fun mmu i => if test (mmu.l1.entry i) then mmu.dtlb1InvalidateSlot i else mmu)
    (fun mmu => mmu.l1.entry)
    (fun _ entry => if test entry then { entry with valid := false } else entry)
    (by intro current i; split <;> simp)
    (by
      intro current i j apart
      split
      · exact dtlb1InvalidateSlot_entry_ne _ apart
      · rfl)
    bound mmu j
  refine swept.trans ?_
  by_cases below : j < bound
  · simp [below]
  · simp [below]

theorem dtlb1InvalidateCopy_entry (source : TlbEntry) (j : Nat) :
    (mmu.dtlb1InvalidateCopy source).l1.entry j =
      if mmu.dtlb1Enabled = true ∧ j < dtlb1Max ∧ (mmu.l1.entry j).equivalent source then
        { mmu.l1.entry j with valid := false }
      else mmu.l1.entry j := by
  unfold dtlb1InvalidateCopy
  cases enabled : mmu.dtlb1Enabled with
  | false => simp
  | true =>
    simp only [Bool.not_true, Bool.false_eq_true, if_false, true_and]
    exact dtlb1Sweep_entry (fun entry => entry.equivalent source) dtlb1Max mmu j

theorem dtlb1PurgeRange_entry (va ps : Word) (rid : BitVec 32) (tcOnly : Bool) (j : Nat) :
    (mmu.dtlb1PurgeRange va ps rid tcOnly).l1.entry j =
      if mmu.dtlb1Enabled = true ∧ j < dtlb1Max ∧ ((!tcOnly || !(mmu.l1.entry j).isTr) &&
          (mmu.l1.entry j).overlaps (vaPageBase va ps) ps rid) then
        { mmu.l1.entry j with valid := false }
      else mmu.l1.entry j := by
  simp only [dtlb1PurgeRange]
  cases enabled : mmu.dtlb1Enabled with
  | false => simp
  | true =>
    simp only [Bool.not_true, Bool.false_eq_true, if_false, true_and]
    exact dtlb1Sweep_entry
      (fun entry => (!tcOnly || !entry.isTr) &&
        entry.overlaps (vaPageBase va ps) ps rid) dtlb1Max mmu j

end

end Ia64.Mmu
