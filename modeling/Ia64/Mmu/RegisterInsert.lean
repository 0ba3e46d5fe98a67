import Ia64.Mmu.InsertSteps

/-! Insertion of translation registers: the replaced one lives on as a cache entry. -/

namespace Ia64.Mmu

open Pages Sweep State TlbEntry

/-- There is always a slot for the copy of a register. -/
theorem selectTcSlot_spec {mmu : State} (formed : mmu.WellFormed) (isData : Bool) (va : Word)
    (rid : BitVec 32) :
    ∃ slot next, (mmu.tlb isData).selectTcSlot (mmu.model.tlbCapacity isData) va rid =
        (some slot, { mmu.tlb isData with replace := next }) ∧
      slot < mmu.model.tlbCapacity isData ∧ next < mmu.model.tlbCapacity isData ∧
      (((mmu.tlb isData).entry slot).valid → ((mmu.tlb isData).entry slot).isTr = false) := by
  have room := mmu.model.trCount_lt_tlbCapacity isData
  unfold Tlb.selectTcSlot
  cases same : firstSlot (mmu.model.tlbCapacity isData) fun i =>
      ((mmu.tlb isData).entry i).isTc && ((mmu.tlb isData).entry i).va == va &&
        ((mmu.tlb isData).entry i).rid == rid with
  | some slot =>
    obtain ⟨inside, test, -⟩ := firstSlot_eq_some_iff.mp same
    simp only [TlbEntry.isTc, Bool.and_eq_true, Bool.not_eq_eq_eq_not, Bool.not_true] at test
    exact ⟨slot, _, rfl, inside, (formed.tlbs isData).replaceBounded, fun _ => test.1.1.2⟩
  | none =>
    -- An unused slot, or the next cache entry; the last slot is one of the two.
    have chosen : ∃ slot, ((firstSlot (mmu.model.tlbCapacity isData) fun i =>
          !((mmu.tlb isData).entry i).valid) <|>
        circularTcVictim (mmu.tlb isData).entry (mmu.model.tlbCapacity isData)
          (mmu.model.tlbCapacity isData) (mmu.tlb isData).replace) = some slot ∧
        slot < mmu.model.tlbCapacity isData ∧
        (((mmu.tlb isData).entry slot).valid → ((mmu.tlb isData).entry slot).isTr = false) := by
      cases free : firstSlot (mmu.model.tlbCapacity isData) fun i =>
          !((mmu.tlb isData).entry i).valid with
      | some slot =>
        obtain ⟨inside, unused, -⟩ := firstSlot_eq_some_iff.mp free
        exact ⟨slot, rfl, inside, fun valid => by simp [valid] at unused⟩
      | none =>
        have used := firstSlot_eq_none_iff.mp free (mmu.model.tlbCapacity isData - 1) (by omega)
        obtain ⟨slot, victim, inside, cache⟩ :=
          circularTcVictim_of_full formed isData (by simpa using used)
        exact ⟨slot, victim, inside, fun _ => cache⟩
    obtain ⟨slot, source, inside, cache⟩ := chosen
    refine ⟨slot, (slot + 1) % mmu.model.tlbCapacity isData, ?_, inside,
      Nat.mod_lt _ (by omega), cache⟩
    simp only [source]

theorem uncopied_dtlb1InvalidateCopy {mmu : State} (formed : mmu.WellFormed) (source : TlbEntry) :
    (mmu.dtlb1InvalidateCopy source).Uncopied source := by
  intro _ _ i
  rw [dtlb1InvalidateCopy_entry]
  split
  · simp [equivalent]
  · rename_i kept
    by_contra copy
    simp only [Bool.not_eq_false] at copy
    have valid : (mmu.l1.entry i).valid := by
      simp only [equivalent, Bool.and_eq_true] at copy
      exact copy.1.1.1.1.1.1.1
    obtain ⟨enabled, inside, -⟩ := formed.copies i valid
    exact kept ⟨enabled, inside, copy⟩

theorem State.Uncopied.shed {before after : State} {entry : TlbEntry}
    (uncopied : before.Uncopied entry) (sheds : Sheds before after) : after.Uncopied entry := by
  intro valid register i
  by_contra copy
  simp only [Bool.not_eq_false] at copy
  have held : (after.l1.entry i).valid := by
    simp only [equivalent, Bool.and_eq_true] at copy
    exact copy.1.1.1.1.1.1.1
  rw [sheds.copies i held, uncopied valid register i] at copy
  exact absurd copy (by decide)

section Cache

variable {mmu : State} (formed : mmu.WellFormed) {isData : Bool} {oldTr : TlbEntry}

include formed in
/-- A valid register is always kept. -/
theorem cacheReplacedTr_eq (valid : oldTr.valid) (register : oldTr.isTr) :
    ∃ slot next,
      ((mmu.tlb isData).selectTcSlot (mmu.model.tlbCapacity isData) oldTr.va oldTr.rid).1 =
        some slot ∧
      slot < mmu.model.tlbCapacity isData ∧ next < mmu.model.tlbCapacity isData ∧
      (((mmu.tlb isData).entry slot).valid → ((mmu.tlb isData).entry slot).isTr = false) ∧
      mmu.cacheReplacedTr isData oldTr =
        (true, mmu.takeSlot isData slot next { oldTr with isTr := false, slot := slot }) := by
  obtain ⟨slot, next, choice, inside, nextInside, free⟩ :=
    selectTcSlot_spec formed isData oldTr.va oldTr.rid
  have kept : (!oldTr.valid || !oldTr.isTr) = false := by simp [valid, register]
  refine ⟨slot, next, by rw [choice], inside, nextInside, free, ?_⟩
  simp [cacheReplacedTr, kept, choice, takeSlot]

end Cache

/-- An insertion of a translation register once its operands have passed their checks. -/
def State.replaceTr (mmu : State) (isData : Bool) (slot : Nat) (entry : TlbEntry) : State :=
  let oldTr := (mmu.tlb isData).entry slot
  let purged := (mmu.purgeTcEntries isData entry.va entry.ps entry.rid).1
  let flushed := if oldTr.valid && !oldTr.isTr then purged.qemuTlbFlushEntry oldTr else purged
  let cached := flushed.cacheReplacedTr isData oldTr
  let dropped := if isData then cached.2.dtlb1InvalidateCopy oldTr else cached.2
  let tlb := if cached.1 then dropped.tlb isData else (dropped.tlb isData).discardPendingPurge slot
  ((dropped.setTlb isData (tlb.place slot entry)).qemuTlbFlushEntry oldTr).qemuTlbFlushEntry entry

section Replace

variable {mmu : State} (formed : mmu.WellFormed) {isData : Bool} {slot : Nat} {entry : TlbEntry}
  (fresh : (((mmu.tlb isData).entry slot).valid && ((mmu.tlb isData).entry slot).isTr) = false)
  (valid : ((mmu.tlb isData).entry slot).valid) (register : ((mmu.tlb isData).entry slot).isTr)

include formed fresh in
/-- Without a register to replace, the slot is flushed. -/
theorem replaceTr_stages_fresh :
    let old := (mmu.tlb isData).entry slot
    let first := (mmu.purgeTcEntries isData entry.va entry.ps entry.rid).1
    ∃ flushed dropped, mmu.replaceTr isData slot entry = ((dropped.setTlb isData
        (((dropped.tlb isData).discardPendingPurge slot).place slot entry)).qemuTlbFlushEntry
          old).qemuTlbFlushEntry entry ∧
      Sheds first flushed ∧ Sheds flushed dropped ∧
        flushed.Unserved ((first.tlb isData).entry slot) := by
  intro old first
  have missing : (!old.valid || !old.isTr) := by
    rw [← Bool.not_and, fresh]
    rfl
  refine ⟨_, _, ?_, (sheds_flushEntry first old).ite ((old.valid && !old.isTr)),
    sheds_dropCopies _ isData old, ?_⟩
  · simp [replaceTr, cacheReplacedTr, old, first, missing]
  · -- Whatever the slot still holds was flushed here, or was purged before.
    rw [(purgeTcEntries_spec isData entry.ps entry.rid mmu formed entry.va).entries slot]
    show State.Unserved _ (old.afterPurge _ _ _)
    cases meets : old.purgeable (vaPageBase entry.va entry.ps) entry.ps entry.rid with
    | true =>
      rw [afterPurge_of_meets meets]
      exact unserved_of_invalid _ rfl
    | false =>
      rw [afterPurge_of_apart meets]
      cases live : old.valid with
      | false => exact unserved_of_invalid _ live
      | true =>
        have cache : old.isTr = false := by simpa [old, live] using fresh
        simp only [cache, Bool.not_false, Bool.and_self, if_true]
        exact unserved_flushEntry first ((formed.tlbs isData).sized slot)

include formed valid register in
theorem replaceTr_stages_held :
    let old := (mmu.tlb isData).entry slot
    let first := (mmu.purgeTcEntries isData entry.va entry.ps entry.rid).1
    ∃ copy next dropped,
      (let second := first.takeSlot isData copy next { old with isTr := false, slot := copy }
      mmu.replaceTr isData slot entry = ((dropped.setTlb isData
        ((dropped.tlb isData).place slot entry)).qemuTlbFlushEntry old).qemuTlbFlushEntry entry ∧
      ((first.tlb isData).selectTcSlot (mmu.model.tlbCapacity isData) old.va old.rid).1 =
        some copy ∧
      (∀ strict : Prop, (strict → mmu.dtlb1Enabled = false) → Changes strict mmu second) ∧
      copy ≠ slot ∧ (first.tlb isData).entry slot = old ∧ Sheds second dropped ∧
      (isData → dropped.Uncopied old)) := by
  intro old first
  have purged := purgeTcEntries_spec isData entry.ps entry.rid mmu formed entry.va
  have purging : ∀ strict : Prop, Changes strict mmu first :=
    fun strict => purgeTcEntries_changes isData entry.ps entry.rid mmu formed entry.va
  have stored : (first.tlb isData).entry slot = old := by
    rw [purged.entries slot, afterPurge_of_apart (by simp [purgeable, register])]
  have shape := Changes.wellFormed (purging False) formed
  obtain ⟨copy, next, chosen, inside, nextInside, free, cached⟩ :=
    @cacheReplacedTr_eq first shape isData old valid register
  have caching : ∀ strict : Prop, (strict → mmu.dtlb1Enabled = false) →
      Changes strict first (first.takeSlot isData copy next { old with
        isTr := false, slot := copy }) := by
    intro strict plain
    refine takeSlot_changes shape (fun holds => ?_)
      ((formed.tlbs isData).sized slot valid) rfl inside nextInside free
    rw [dtlb1Enabled, purged.registers.model]
    exact plain holds
  have apart : copy ≠ slot := by
    rintro rfl
    rw [stored] at free
    exact absurd (register.symm.trans (free valid)) (by decide)
  rw [purged.registers.model] at chosen
  refine ⟨copy, next, _, ?_, chosen, fun strict plain =>
    (purging strict).trans (caching strict plain), apart, stored,
    sheds_dropCopies _ isData old, fun data => ?_⟩
  · have noCache : (old.valid && !old.isTr) = false := by simp [old, register]
    unfold replaceTr
    simp only [old] at noCache cached ⊢
    simp [noCache, first, cached]
  · rw [if_pos data]
    exact uncopied_dtlb1InvalidateCopy (Changes.wellFormed (caching False False.elim) shape) old

include formed fresh in
/-- Without a register to replace, the slot is filled. -/
theorem replaceTr_changes_fresh {strict : Prop} (sized : entry.Sized)
    (inside : slot < mmu.model.trCount isData) :
    Changes strict mmu (mmu.replaceTr isData slot entry) := by
  have room := mmu.model.trCount_lt_tlbCapacity isData
  have purged := purgeTcEntries_spec isData entry.ps entry.rid mmu formed entry.va
  have purging : Changes strict mmu (mmu.purgeTcEntries isData entry.va entry.ps entry.rid).1 :=
    purgeTcEntries_changes isData entry.ps entry.rid mmu formed entry.va
  obtain ⟨flushed, dropped, result, shed, drops, gone⟩ :=
    @replaceTr_stages_fresh mmu formed isData slot entry fresh
  rw [result]
  set old : TlbEntry := (mmu.tlb isData).entry slot
  have both := shed.trans drops
  have filled : Changes strict dropped (dropped.setTlb isData
      (((dropped.tlb isData).discardPendingPurge slot).place slot entry)) := by
    refine discardPlace_changes sized ?_ (fun _ => ?_) (fun _ => ?_) fun _ live register => ?_
    · rw [both.same.model, purged.registers.model]
      omega
    · rw [both.same.model, purged.registers.model]
      exact inside
    · rw [both.same.tlb]
      exact gone.shed drops
    · rw [both.same.tlb, purged.entries slot] at live register
      -- What the purge leaves in the slot is no translation register.
      have cache : (old.valid && old.isTr) := by
        cases meets : old.purgeable (vaPageBase entry.va entry.ps) entry.ps entry.rid with
        | true =>
          rw [afterPurge_of_meets meets] at live
          exact absurd live (by simp [retired])
        | false =>
          rw [afterPurge_of_apart meets] at live register
          simp [old, live, register]
      rw [fresh] at cache
      exact absurd cache (by decide)
  exact (((purging.tail both.change).trans filled).tail (sheds_flushEntry _ old).change).tail
    (sheds_flushEntry _ entry).change

include formed valid register in
theorem replaceTr_changes_held {strict : Prop} (plain : strict → mmu.dtlb1Enabled = false)
    (sized : entry.Sized) (inside : slot < mmu.model.trCount isData) :
    Changes strict mmu (mmu.replaceTr isData slot entry) := by
  have room := mmu.model.trCount_lt_tlbCapacity isData
  have purged := purgeTcEntries_spec isData entry.ps entry.rid mmu formed entry.va
  have oldSized := (formed.tlbs isData).sized slot
  obtain ⟨copy, next, dropped, result, -, changes, apart, stored, drops, uncopied⟩ :=
    @replaceTr_stages_held mmu formed isData slot entry valid register
  rw [result]
  set old : TlbEntry := (mmu.tlb isData).entry slot
  have cached :=
    takeSlot_filled (mmu.purgeTcEntries isData entry.va entry.ps entry.rid).1 isData copy next
    { old with isTr := false, slot := copy }
  have flushes := sheds_flushEntry dropped old
  have gone := unserved_flushEntry dropped oldSized
  -- The flush of the old register may as well come first.
  rw [flushEntry_setTlb]
  set flushed : State := dropped.qemuTlbFlushEntry old
  have both := drops.trans flushes
  have slotKept : (flushed.tlb isData).entry slot = old := by
    rw [both.same.tlb, cached.entries slot apart.symm, stored]
  have filled :
      Change strict flushed (flushed.setTlb isData ((flushed.tlb isData).place slot entry)) := by
    refine .place flushed isData slot entry sized ?_ (fun _ => ?_) (fun _ => ?_) fun data => ?_
    · rw [both.same.model, cached.registers.model, purged.registers.model]
      omega
    · rw [both.same.model, cached.registers.model, purged.registers.model]
      exact inside
    · rw [slotKept]
      exact gone
    · rw [slotKept]
      exact (uncopied data).shed flushes
  rw [flushes.same.tlb] at filled
  exact (((changes strict plain).tail both.change).tail filled).tail
    (sheds_flushEntry _ entry).change

include formed in
theorem replaceTr_changes {strict : Prop} (plain : strict → mmu.dtlb1Enabled = false)
    (sized : entry.Sized) (inside : slot < mmu.model.trCount isData) :
    Changes strict mmu (mmu.replaceTr isData slot entry) := by
  cases held : (((mmu.tlb isData).entry slot).valid && ((mmu.tlb isData).entry slot).isTr) with
  | false => exact replaceTr_changes_fresh formed held sized inside
  | true =>
    rw [Bool.and_eq_true] at held
    exact replaceTr_changes_held formed held.1 held.2 plain sized inside

/-- What filling a translation register leaves; a replaced one lives on in the slot of its copy. -/
structure Replaced (isData : Bool) (slot : Nat) (entry : TlbEntry) (before after : State)
    (copy : Option Nat) : Prop where
  used : slot < (after.tlb isData).count
  placed : ∃ version, (after.tlb isData).entry slot = { entry with microGeneration := version }
  others : ∀ j, j ≠ slot → copy ≠ some j → (after.tlb isData).entry j =
    ((before.tlb isData).entry j).afterPurge (vaPageBase entry.va entry.ps) entry.ps entry.rid
  copied : ∀ t, copy = some t → t ≠ slot ∧ t < (after.tlb isData).count ∧ ∃ version,
    (after.tlb isData).entry t =
      { (before.tlb isData).entry slot with isTr := false, slot := t, microGeneration := version }
  copies : ∀ i, (after.l1.entry i).valid →
    after.l1.entry i =
      (if isData then before.dtlb1PurgeRange (vaPageBase entry.va entry.ps) entry.ps entry.rid true
        else before).l1.entry i
  registers : SameRegisters before after

include formed fresh in
theorem replaceTr_spec_fresh :
    Replaced isData slot entry mmu (mmu.replaceTr isData slot entry) none := by
  have purged := purgeTcEntries_spec isData entry.ps entry.rid mmu formed entry.va
  obtain ⟨flushed, dropped, result, shed, drops, -⟩ :=
    @replaceTr_stages_fresh mmu formed isData slot entry fresh
  rw [result]
  have filled := ((shed.trans drops).filled
    (filled_setTlb isData entry fun j => Tlb.discardPendingPurge_entry_ne _ slot)).shed
      ((sheds_flushEntry _ ((mmu.tlb isData).entry slot)).trans (sheds_flushEntry _ entry))
  refine ⟨filled.used, filled.placed, fun j apart _ =>
    (filled.entries j apart).trans (purged.entries j), nofun,
    fun i valid => ?_, purged.registers.trans filled.registers⟩
  rw [filled.copies i valid, purged.copies]
  cases isData <;> rfl

include formed valid register in
/-- A replaced register is copied to its slot. -/
theorem replaceTr_spec_held :
    ∃ copy, Replaced isData slot entry mmu (mmu.replaceTr isData slot entry) (some copy) ∧
      ((((mmu.purgeTcEntries isData entry.va entry.ps entry.rid).1.tlb isData).selectTcSlot
        (mmu.model.tlbCapacity isData) ((mmu.tlb isData).entry slot).va
        ((mmu.tlb isData).entry slot).rid).1 = some copy) ∧
      (isData → (mmu.replaceTr isData slot entry).Uncopied ((mmu.tlb isData).entry slot)) := by
  have purged := purgeTcEntries_spec isData entry.ps entry.rid mmu formed entry.va
  obtain ⟨copy, next, dropped, result, chosen, -, apart, -, drops, uncopied⟩ :=
    @replaceTr_stages_held mmu formed isData slot entry valid register
  rw [result]
  set old : TlbEntry := (mmu.tlb isData).entry slot
  have cached :=
    (takeSlot_filled (mmu.purgeTcEntries isData entry.va entry.ps entry.rid).1 isData copy next
      { old with isTr := false, slot := copy }).shed drops
  have last :=
    (sheds_flushEntry (dropped.setTlb isData ((dropped.tlb isData).place slot entry)) old).trans
    (sheds_flushEntry _ entry)
  have filled := (filled_setTlb isData entry fun j _ => rfl).shed last
  refine ⟨copy,
    ⟨filled.used, filled.placed, fun j elsewhere notCopy => ?_, fun t same => ?_, fun i live => ?_,
      purged.registers.trans (cached.registers.trans filled.registers)⟩, chosen, fun data => ?_⟩
  · rw [filled.entries j elsewhere, cached.entries j fun same => notCopy (by rw [same]),
      purged.entries j]
  · cases same
    refine ⟨apart, ?_, ?_⟩
    · rw [last.same.tlb, setTlb_tlb, Tlb.place_count]
      have used := cached.used
      split <;> omega
    · rw [filled.entries copy apart]
      exact cached.placed
  · have still := filled.copies i live
    rw [still] at live ⊢
    rw [cached.copies i live, purged.copies]
    cases isData <;> rfl
  · have same : (dropped.setTlb isData ((dropped.tlb isData).place slot entry)).Uncopied old := by
      intro live isRegister i
      rw [setTlb_l1]
      exact uncopied data live isRegister i
    exact same.shed last

end Replace

end Ia64.Mmu
