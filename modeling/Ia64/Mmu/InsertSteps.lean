import Ia64.Mmu.InsertLaws

/-! Slot choice and insertion, as elementary changes and slot by slot. -/

namespace Ia64.Mmu

open Pages Sweep State

section Circular

variable {entry : Nat → TlbEntry} {capacity : Nat}

variable {n i slot : Nat}

theorem circularTcVictim_some (inside : i < capacity)
    (found : circularTcVictim entry capacity n i = some slot) :
    slot < capacity ∧ (entry slot).isTc := by
  induction n generalizing i with
  | zero => exact absurd found (by simp [circularTcVictim])
  | succ n ih =>
    unfold circularTcVictim at found
    split at found
    · rename_i cache
      cases found
      exact ⟨inside, cache⟩
    · refine ih ?_ found
      split <;> omega

/-- The search fails only if there is no cache entry. -/
theorem circularTcVictim_none (inside : i < capacity)
    (missing : circularTcVictim entry capacity n i = none) (k : Nat) (visited : k < n) :
    (entry ((i + k) % capacity)).isTc = false := by
  induction n generalizing i k with
  | zero => exact absurd visited (Nat.not_lt_zero k)
  | succ n ih =>
    unfold circularTcVictim at missing
    split at missing
    · exact absurd missing (by simp)
    · rename_i apart
      cases k with
      | zero =>
        rw [Nat.add_zero, Nat.mod_eq_of_lt inside]
        simpa using apart
      | succ k =>
        -- The successor goes around at the end of the table.
        have next : (if i + 1 = capacity then 0 else i + 1) < capacity := by split <;> omega
        have later := ih next missing k (by omega)
        have position : ((if i + 1 = capacity then 0 else i + 1) + k) % capacity =
            (i + (k + 1)) % capacity := by
          split
          · rename_i wraps
            rw [show i + (k + 1) = capacity + k by omega, Nat.add_mod_left, Nat.zero_add]
          · rw [show i + 1 + k = i + (k + 1) by omega]
        rw [position] at later
        exact later

theorem circularTcVictim_round (inside : i < capacity)
    (missing : circularTcVictim entry capacity capacity i = none) (below : slot < capacity) :
    (entry slot).isTc = false := by
  have visited := circularTcVictim_none inside missing ((slot + capacity - i) % capacity)
    (Nat.mod_lt _ (by omega))
  have position : (i + (slot + capacity - i) % capacity) % capacity = slot := by
    rw [Nat.add_mod_mod, show i + (slot + capacity - i) = slot + capacity by omega,
      Nat.add_mod_right, Nat.mod_eq_of_lt below]
  rw [position] at visited
  exact visited

/-- The search stops at the first cache entry ahead. -/
theorem circularTcVictim_ahead {ahead : Nat} (order : i ≤ ahead) (inside : ahead < capacity)
    (cache : (entry ahead).isTc) (enough : ahead - i < n) :
    ∃ slot, circularTcVictim entry capacity n i = some slot ∧ i ≤ slot ∧ (entry slot).isTc ∧
      ∀ k, i ≤ k → k < slot → (entry k).isTc = false := by
  induction n generalizing i with
  | zero => exact absurd enough (Nat.not_lt_zero _)
  | succ n ih =>
    unfold circularTcVictim
    by_cases here : (entry i).isTc
    · exact ⟨i, by rw [if_pos here], Nat.le_refl i, here, fun k above below => by omega⟩
    · have further : i ≠ ahead := by
        rintro rfl
        exact here cache
      obtain ⟨slot, found, above, cached, none⟩ := ih (show i + 1 ≤ ahead by omega) (by omega)
      refine ⟨slot, ?_, by omega, cached, fun k from_ below => ?_⟩
      · rw [if_neg here, if_neg (by omega), found]
      · by_cases first : k = i
        · rw [first]
          simpa using here
        · exact none k (by omega) below

end Circular

variable {mmu : State} {isData : Bool} {slot : Nat} {entry : TlbEntry}

theorem tc_of_beyond (formed : mmu.WellFormed)
    (valid : ((mmu.tlb isData).entry slot).valid) (beyond : mmu.model.trCount isData ≤ slot) :
    ((mmu.tlb isData).entry slot).isTc := by
  have cache : ((mmu.tlb isData).entry slot).isTr = false := by
    by_contra register
    simp only [Bool.not_eq_false] at register
    have inside := (formed.tlbs isData).registers slot valid register
    omega
  simp [TlbEntry.isTc, valid, cache]

/-- In a full table the sweep finds a victim. -/
theorem circularTcVictim_of_full (formed : mmu.WellFormed) (isData : Bool)
    (full : ((mmu.tlb isData).entry (mmu.model.tlbCapacity isData - 1)).valid) :
    ∃ slot, circularTcVictim (mmu.tlb isData).entry (mmu.model.tlbCapacity isData)
        (mmu.model.tlbCapacity isData) (mmu.tlb isData).replace = some slot ∧
      slot < mmu.model.tlbCapacity isData ∧ ((mmu.tlb isData).entry slot).isTr = false := by
  have room := mmu.model.trCount_lt_tlbCapacity isData
  cases victim : circularTcVictim (mmu.tlb isData).entry (mmu.model.tlbCapacity isData)
      (mmu.model.tlbCapacity isData) (mmu.tlb isData).replace with
  | some slot =>
    obtain ⟨inside, cache⟩ := circularTcVictim_some (formed.tlbs isData).replaceBounded victim
    simp only [TlbEntry.isTc, Bool.and_eq_true, Bool.not_eq_eq_eq_not, Bool.not_true] at cache
    exact ⟨slot, rfl, inside, cache.2⟩
  | none =>
    -- The last slot lies beyond the translation registers, so the sweep would have stopped there.
    have cache := tc_of_beyond formed full (by omega)
    have none := circularTcVictim_round (formed.tlbs isData).replaceBounded victim
      (show mmu.model.tlbCapacity isData - 1 < mmu.model.tlbCapacity isData by omega)
    exact absurd (none.symm.trans cache) (by decide)

/-- After a purge there is always a slot. -/
theorem insertSlot_spec (formed : mmu.WellFormed) (isData : Bool) {used : Nat}
    {empty : Option Nat} (usedBound : used ≤ mmu.model.tlbCapacity isData)
    (noted : empty = firstSlot used fun i => !((mmu.tlb isData).entry i).valid)
    (trimmed : (mmu.tlb isData).count = trimmedCount (mmu.tlb isData).entry used) :
    ∃ slot next, mmu.insertSlot isData empty =
        (some slot, mmu.setTlb isData { mmu.tlb isData with replace := next }) ∧
      slot < mmu.model.tlbCapacity isData ∧ next < mmu.model.tlbCapacity isData ∧
      (((mmu.tlb isData).entry slot).valid → ((mmu.tlb isData).entry slot).isTr = false) := by
  have room := mmu.model.trCount_lt_tlbCapacity isData
  -- The three sources of a slot, in the order in which they are asked.
  have chosen : ∃ slot, ((empty <|> if (mmu.tlb isData).count < mmu.model.tlbCapacity isData then
        some (mmu.tlb isData).count else none) <|>
      circularTcVictim (mmu.tlb isData).entry (mmu.model.tlbCapacity isData)
        (mmu.model.tlbCapacity isData) (mmu.tlb isData).replace) = some slot ∧
      slot < mmu.model.tlbCapacity isData ∧
      (((mmu.tlb isData).entry slot).valid → ((mmu.tlb isData).entry slot).isTr = false) := by
    cases found : empty with
    | some slot =>
      have unused := firstSlot_eq_some_iff.mp (noted.symm.trans found)
      refine ⟨slot, rfl, by omega, fun valid => ?_⟩
      simp [valid] at unused
    | none =>
      by_cases short : (mmu.tlb isData).count < mmu.model.tlbCapacity isData
      · refine ⟨(mmu.tlb isData).count, by simp [short], short, fun valid => ?_⟩
        have unused := (formed.tlbs isData).unused _ (Nat.le_refl (mmu.tlb isData).count)
        exact absurd (unused.symm.trans valid) (by decide)
      · have last : mmu.model.tlbCapacity isData - 1 < used := by
          have shorter := (trimmedCount_spec (mmu.tlb isData).entry used).1
          omega
        have valid := firstSlot_eq_none_iff.mp (noted.symm.trans found) _ last
        obtain ⟨slot, victim, inside, cache⟩ :=
          circularTcVictim_of_full formed isData (by simpa using valid)
        exact ⟨slot, by simp [short, victim], inside, fun _ => cache⟩
  obtain ⟨slot, source, inside, cache⟩ := chosen
  refine ⟨slot, if slot + 1 = mmu.model.tlbCapacity isData then 0 else slot + 1, ?_,
    inside, ?_, cache⟩
  · simp only [insertSlot, source]
  · split <;> omega

theorem unserved_flushReplacedEntry (mmu : State) (isData : Bool)
    (sized : entry.valid → entry.Sized) (plain : mmu.dtlb1Enabled = false) :
    (mmu.qemuTlbFlushReplacedEntry entry isData).Unserved entry := by
  unfold qemuTlbFlushReplacedEntry
  split_ifs with inst waits copied
  · exact unserved_flushEntry mmu sized
  · exact unserved_flushEntry _ sized
  · exact absurd copied (by simp [dtlb1Contains, plain])
  · exact unserved_flushEntry mmu sized

theorem flushEntry_setTlb (mmu : State) (isData : Bool) (tlb : Tlb) (entry : TlbEntry) :
    (mmu.setTlb isData tlb).qemuTlbFlushEntry entry =
      (mmu.qemuTlbFlushEntry entry).setTlb isData tlb := by
  unfold qemuTlbFlushEntry
  cases isData <;> split <;> rfl

@[simp] theorem setTlb_setTlb (mmu : State) (isData : Bool) (first second : Tlb) :
    (mmu.setTlb isData first).setTlb isData second = mmu.setTlb isData second := by
  cases isData <;> rfl

/-- Filling a slot that held no register. -/
theorem discardPlace_changes {strict : Prop}
    (sized : entry.Sized) (inside : slot < mmu.model.tlbCapacity isData)
    (register : entry.isTr → slot < mmu.model.trCount isData)
    (unserved : strict → mmu.Unserved ((mmu.tlb isData).entry slot))
    (uncopied : isData → mmu.Uncopied ((mmu.tlb isData).entry slot)) :
    Changes strict mmu
      (mmu.setTlb isData (((mmu.tlb isData).discardPendingPurge slot).place slot entry)) := by
  have discarded : Change strict mmu
      (mmu.setTlb isData ((mmu.tlb isData).discardPendingPurge slot)) :=
    .quiet mmu isData ((marked_discardPendingPurge _ slot).quiet _)
  set after : State := mmu.setTlb isData ((mmu.tlb isData).discardPendingPurge slot) with afterDef
  have table : after.tlb isData = (mmu.tlb isData).discardPendingPurge slot := setTlb_tlb _ _ _
  have stored : (after.tlb isData).entry slot =
      { (mmu.tlb isData).entry slot with pendingPurge := false } := by
    rw [table, Tlb.discardPendingPurge_entry_self]
  have placed :
      Change strict after (after.setTlb isData ((after.tlb isData).place slot entry)) := by
    refine .place after isData slot entry sized ?_ ?_ (fun holds => ?_) fun data => ?_
    · rw [afterDef, setTlb_model]
      exact inside
    · rw [afterDef, setTlb_model]
      exact register
    · rw [stored]
      intro idx page host translated present
      rw [afterDef, setTlb_host] at present
      have region : after.regionRid page = mmu.regionRid page := by
        simp [regionRid, afterDef]
      rw [region]
      exact unserved holds idx page host translated present
    · rw [stored]
      intro valid isRegister i
      rw [afterDef, setTlb_l1]
      exact uncopied data valid isRegister i
  rw [table, afterDef, setTlb_setTlb] at placed
  exact (Relation.ReflTransGen.single discarded).tail placed

/-- What filling a slot leaves. -/
structure Filled (isData : Bool) (slot : Nat) (entry : TlbEntry) (before after : State) : Prop where
  used : slot < (after.tlb isData).count
  entries : ∀ j, j ≠ slot → (after.tlb isData).entry j = (before.tlb isData).entry j
  placed : ∃ version, (after.tlb isData).entry slot = { entry with microGeneration := version }
  other : after.tlb (!isData) = before.tlb (!isData)
  copies : ∀ i, (after.l1.entry i).valid → after.l1.entry i = before.l1.entry i
  registers : SameRegisters before after

section Fill

variable {before middle after : State} {isData : Bool} {slot : Nat} {entry : TlbEntry}

theorem filled_setTlb (isData : Bool) (entry : TlbEntry) {tlb : Tlb}
    (kept : ∀ j, j ≠ slot → tlb.entry j = (before.tlb isData).entry j) :
    Filled isData slot entry before (before.setTlb isData (tlb.place slot entry)) := by
  refine ⟨?_, fun j apart => ?_, ?_, setTlb_tlb_not _ _ _, fun i _ => ?_,
    sameRegisters_setTlb _ _ _⟩
  · rw [setTlb_tlb, Tlb.place_count]
    split <;> omega
  · rw [setTlb_tlb, Tlb.place_entry_ne _ _ _ apart, kept j apart]
  · rw [setTlb_tlb, Tlb.place_entry_self]
    exact ⟨_, rfl⟩
  · rw [setTlb_l1]

theorem Filled.shed (filled : Filled isData slot entry before middle) (sheds : Sheds middle after) :
    Filled isData slot entry before after where
  used := by rw [sheds.same.tlb]; exact filled.used
  entries j apart := by rw [sheds.same.tlb]; exact filled.entries j apart
  placed := by rw [sheds.same.tlb]; exact filled.placed
  other := by rw [sheds.same.tlb]; exact filled.other
  copies i valid := by
    have kept := sheds.copies i valid
    rw [kept] at valid ⊢
    exact filled.copies i valid
  registers := filled.registers.trans sheds.same.registers

theorem Sheds.filled (sheds : Sheds before middle)
    (filled : Filled isData slot entry middle after) : Filled isData slot entry before after where
  used := filled.used
  entries j apart := by rw [filled.entries j apart, sheds.same.tlb]
  placed := filled.placed
  other := by rw [filled.other, sheds.same.tlb]
  copies i valid := by
    have kept := filled.copies i valid
    rw [kept] at valid ⊢
    exact sheds.copies i valid
  registers := sheds.same.registers.trans filled.registers

/-- Give a slot to an entry: the replacement pointer moves, what the slot held is flushed, and the
slot is filled. -/
def State.takeSlot (mmu : State) (isData : Bool) (slot next : Nat) (entry : TlbEntry) : State :=
  let advanced := mmu.setTlb isData { mmu.tlb isData with replace := next }
  let flushed := advanced.qemuTlbFlushReplacedEntry ((mmu.tlb isData).entry slot) isData
  flushed.setTlb isData (((flushed.tlb isData).discardPendingPurge slot).place slot entry)

variable {mmu : State} {next : Nat}

theorem takeSlot_filled (mmu : State) (isData : Bool) (slot next : Nat) (entry : TlbEntry) :
    Filled isData slot entry mmu (mmu.takeSlot isData slot next entry) := by
  have filled : Filled isData slot entry (mmu.setTlb isData { mmu.tlb isData with replace := next })
      (mmu.takeSlot isData slot next entry) :=
    (sheds_flushReplacedEntry _ _ _).filled (filled_setTlb isData entry
      fun j => Tlb.discardPendingPurge_entry_ne _ slot)
  refine ⟨filled.used, fun j apart => ?_, filled.placed, ?_, fun i valid => ?_, ?_⟩
  · rw [filled.entries j apart, setTlb_tlb]
  · rw [filled.other, setTlb_tlb_not]
  · rw [filled.copies i valid, setTlb_l1]
  · exact (sameRegisters_setTlb _ _ _).trans filled.registers

theorem takeSlot_tlb (mmu : State) (isData : Bool) (slot next : Nat) (entry : TlbEntry) :
    (mmu.takeSlot isData slot next entry).tlb isData =
      (Tlb.discardPendingPurge { mmu.tlb isData with replace := next } slot).place slot entry := by
  simp only [takeSlot]
  rw [setTlb_tlb, (sheds_flushReplacedEntry _ _ _).same.tlb, setTlb_tlb]

theorem takeSlot_changes {strict : Prop} (formed : mmu.WellFormed)
    (plain : strict → mmu.dtlb1Enabled = false) (sized : entry.Sized) (cache : entry.isTr = false)
    (inside : slot < mmu.model.tlbCapacity isData)
    (nextInside : next < mmu.model.tlbCapacity isData)
    (free : ((mmu.tlb isData).entry slot).valid → ((mmu.tlb isData).entry slot).isTr = false) :
    Changes strict mmu (mmu.takeSlot isData slot next entry) := by
  have chosen : Change strict mmu (mmu.setTlb isData { mmu.tlb isData with replace := next }) :=
    .quiet mmu isData (quiet_replace _ nextInside)
  unfold takeSlot
  set advanced : State := mmu.setTlb isData { mmu.tlb isData with replace := next } with advancedDef
  have shed := sheds_flushReplacedEntry advanced ((mmu.tlb isData).entry slot) isData
  have gone : strict →
      (advanced.qemuTlbFlushReplacedEntry ((mmu.tlb isData).entry slot) isData).Unserved
      ((mmu.tlb isData).entry slot) := by
    intro holds
    refine unserved_flushReplacedEntry advanced isData ((formed.tlbs isData).sized slot) ?_
    rw [advancedDef, setTlb_dtlb1Enabled]
    exact plain holds
  set flushed : State := advanced.qemuTlbFlushReplacedEntry ((mmu.tlb isData).entry slot) isData
  have stored : (flushed.tlb isData).entry slot = (mmu.tlb isData).entry slot := by
    rw [shed.same.tlb, advancedDef, setTlb_tlb]
  refine ((Relation.ReflTransGen.single chosen).tail shed.change).trans
    (discardPlace_changes sized ?_ (fun register => ?_) ?_ fun _ valid register => ?_)
  · rw [shed.same.model, advancedDef, setTlb_model]
    exact inside
  · exact absurd (cache.symm.trans register) (by decide)
  · rw [stored]
    exact gone
  · rw [stored] at valid register
    exact absurd ((free valid).symm.trans register) (by decide)

end Fill

section Insert

variable {mmu : State} (formed : mmu.WellFormed) (isData : Bool) (entry : TlbEntry)

include formed in
/-- An insertion purges, takes a slot and flushes. -/
theorem insertTc_eq :
    let purged := (mmu.purgeTcEntries isData entry.va entry.ps entry.rid).1
    ∃ slot next, slot < mmu.model.tlbCapacity isData ∧ next < mmu.model.tlbCapacity isData ∧
      (((purged.tlb isData).entry slot).valid → ((purged.tlb isData).entry slot).isTr = false) ∧
      (let placed := { entry with slot := slot }
      let filled := purged.takeSlot isData slot next placed
      mmu.insertTc isData entry = (some ((filled.tlb isData).entry slot),
        filled.qemuTlbFlushEntry placed)) := by
  have purged := purgeTcEntries_spec isData entry.ps entry.rid mmu formed entry.va
  have purging : Changes False mmu (mmu.purgeTcEntries isData entry.va entry.ps entry.rid).1 :=
    purgeTcEntries_changes isData entry.ps entry.rid mmu formed entry.va
  have shape := Changes.wellFormed purging formed
  obtain ⟨slot, next, choice, inside, nextInside, cache⟩ := insertSlot_spec shape isData
    (by rw [purged.registers.model]; exact (formed.tlbs isData).bounded) purged.empty purged.count
  rw [purged.registers.model] at inside nextInside
  refine ⟨slot, next, inside, nextInside, cache, ?_⟩
  simp only [insertTc, choice, takeSlot, setTlb_tlb]

/-- What an insertion of a cache entry leaves. -/
structure Inserted (isData : Bool) (entry : TlbEntry) (before after : State)
    (slot : Nat) : Prop where
  inside : slot < before.model.tlbCapacity isData
  used : slot < (after.tlb isData).count
  entries : ∀ j, j ≠ slot → (after.tlb isData).entry j =
    ((before.tlb isData).entry j).afterPurge (vaPageBase entry.va entry.ps) entry.ps entry.rid
  placed : ∃ version,
    (after.tlb isData).entry slot = { entry with slot := slot, microGeneration := version }
  other : after.tlb (!isData) = before.tlb (!isData)
  copies : ∀ i, (after.l1.entry i).valid →
    after.l1.entry i =
      (if isData then before.dtlb1PurgeRange (vaPageBase entry.va entry.ps) entry.ps entry.rid true
        else before).l1.entry i
  registers : SameRegisters before after

include formed in
/-- An insertion holds the new entry in one slot. -/
theorem insertTc_spec :
    ∃ slot, Inserted isData entry mmu (mmu.insertTc isData entry).2 slot ∧
      (mmu.insertTc isData entry).1 =
        some (((mmu.insertTc isData entry).2.tlb isData).entry slot) := by
  have purged := purgeTcEntries_spec isData entry.ps entry.rid mmu formed entry.va
  obtain ⟨slot, next, inside, -, -, inserted⟩ := insertTc_eq formed isData entry
  rw [inserted]
  have flushes := sheds_flushEntry
    ((mmu.purgeTcEntries isData entry.va entry.ps entry.rid).1.takeSlot isData slot next
      { entry with slot := slot }) { entry with slot := slot }
  have filled := (takeSlot_filled _ isData slot next _).shed flushes
  refine ⟨slot,
    ⟨inside, filled.used, fun j apart => (filled.entries j apart).trans (purged.entries j),
      filled.placed, filled.other.trans purged.other, fun i valid => ?_,
      purged.registers.trans filled.registers⟩, ?_⟩
  · rw [filled.copies i valid, purged.copies]
    cases isData <;> rfl
  · rw [flushes.same.tlb]

include formed in
/-- Inserting a cache entry makes elementary changes. -/
theorem insertTc_changes {strict : Prop} (plain : strict → mmu.dtlb1Enabled = false)
    (sized : entry.Sized) (cache : entry.isTr = false) :
    Changes strict mmu (mmu.insertTc isData entry).2 := by
  have purged : Changes strict mmu (mmu.purgeTcEntries isData entry.va entry.ps entry.rid).1 :=
    purgeTcEntries_changes isData entry.ps entry.rid mmu formed entry.va
  have model := (purgeTcEntries_spec isData entry.ps entry.rid mmu formed entry.va).registers.model
  obtain ⟨slot, next, inside, nextInside, free, inserted⟩ := insertTc_eq formed isData entry
  rw [inserted]
  rw [← model] at inside nextInside
  have placed : TlbEntry.Sized { entry with slot := slot } := sized
  refine (purged.trans (takeSlot_changes (Changes.wellFormed purged formed)
    (fun holds => ?_) placed cache inside nextInside free)).tail (sheds_flushEntry _ _).change
  rw [dtlb1Enabled, model]
  exact plain holds

end Insert

end Ia64.Mmu
