import Ia64.Mmu.PurgeBooks
import Ia64.Mmu.Fill

/-! Lookups and walks, as elementary changes that keep the books of pending purges. -/

namespace Ia64.Mmu

open Pages Sweep State

theorem sheds_dtlb1Lookup (mmu : State) (va : Word) (rid : BitVec 32) :
    Sheds mmu (mmu.dtlb1Lookup va rid).2 := by
  simp only [dtlb1Lookup]
  split_ifs
  · exact .refl mmu
  · exact ⟨rfl, fun _ _ => rfl, fun _ _ _ present => present⟩
  · exact .refl mmu

variable {va : Word} {rid : BitVec 32} {entry : TlbEntry}

theorem covers_of_scan {tlb : Tlb} {slot : Nat}
    (found : tlb.scan va rid = some slot) : (tlb.entry slot).covers va rid :=
  (firstSlot_eq_some_iff.mp found).2.1

theorem valid_of_covers
    (covered : entry.covers va rid) : entry.valid := by
  simp only [TlbEntry.covers, Bool.and_eq_true] at covered
  exact covered.1.2

theorem valid_of_matches
    (found : entry.matches va rid) : entry.valid := by
  simp only [TlbEntry.matches, Bool.and_eq_true] at found
  exact found.1.1.1

/-- A sequence of elementary changes that keeps the books of pending purges. -/
structure Orderly (strict : Prop) (before after : State) : Prop where
  changes : Changes strict before after
  books : before.Accounted → after.Accounted

/-- A sequence of elementary changes that moves no translation and sets no register. -/
structure Looks (strict : Prop) (before after : State) :
    Prop extends Orderly strict before after where
  entries : ∀ isData, (after.tlb isData).entry = (before.tlb isData).entry
  registers : SameRegisters before after

section Rules

variable {strict : Prop}

theorem Orderly.refl (mmu : State) : Orderly strict mmu mmu := ⟨.refl, id⟩

variable {first second third before after : State}

theorem Orderly.trans (early : Orderly strict first second)
    (late : Orderly strict second third) : Orderly strict first third :=
  ⟨early.changes.trans late.changes, late.books ∘ early.books⟩

theorem Change.outside (change : Change strict before after)
    (data : after.data = before.data) (inst : after.inst = before.inst) :
    Orderly strict before after :=
  ⟨.single change, fun accounted => accounted.outside data inst⟩

theorem Sheds.orderly (sheds : Sheds before after) : Orderly strict before after :=
  sheds.change.outside (sheds.same.tlb true) (sheds.same.tlb false)

theorem Looks.refl (mmu : State) : Looks strict mmu mmu := ⟨.refl mmu, fun _ => rfl, .refl mmu⟩

theorem Looks.trans (early : Looks strict first second)
    (late : Looks strict second third) : Looks strict first third :=
  ⟨early.toOrderly.trans late.toOrderly, fun isData =>
    (late.entries isData).trans (early.entries isData), early.registers.trans late.registers⟩

theorem Sheds.looks (sheds : Sheds before after) : Looks strict before after :=
  ⟨sheds.orderly, fun isData => by rw [sheds.same.tlb], sheds.same.registers⟩

theorem looks_setTlb (mmu : State) {isData : Bool} {tlb : Tlb}
    (quiet : Tlb.Quiet (mmu.model.tlbCapacity isData) (mmu.tlb isData) tlb)
    (entries : tlb.entry = (mmu.tlb isData).entry) (count : tlb.count = (mmu.tlb isData).count)
    (pending : tlb.pending = (mmu.tlb isData).pending) :
    Looks strict mmu (mmu.setTlb isData tlb) := by
  refine ⟨⟨.single (.quiet _ _ quiet), fun accounted =>
    accounted.setTlb ((accounted isData).congr entries count pending)⟩,
    fun side => ?_, sameRegisters_setTlb mmu isData tlb⟩
  by_cases same : side = isData
  · rw [same, setTlb_tlb, entries]
  · have other : side = !isData := by
      cases side <;> cases isData <;> simp_all
    rw [other, setTlb_tlb_not]

theorem looks_keys (mmu : State) (keyCache : Nat → KeyCacheEntry) :
    Looks strict mmu { mmu with keyCache := keyCache } :=
  ⟨Change.outside (.control rfl) rfl rfl, fun isData => by cases isData <;> rfl,
    ⟨rfl, rfl, rfl, rfl, rfl⟩⟩

end Rules

section Find

variable (mmu : State) (va : Word) (rid : BitVec 32) (isIfetch : Bool)

theorem remember_slots (tlb : Tlb) (slot : Nat) : (tlb.remember va rid slot).entry = tlb.entry ∧
    (tlb.remember va rid slot).count = tlb.count ∧
      (tlb.remember va rid slot).pending = tlb.pending := by
  simp only [Tlb.remember]
  split <;> exact ⟨rfl, rfl, rfl⟩

theorem tlbFindSlow_looks {strict : Prop} :
    Looks strict mmu (mmu.tlbFindSlow va rid isIfetch).2 := by
  have narrowed : Sheds mmu
      (if !isIfetch && mmu.dtlb1Enabled then mmu.dtlb1Lookup va rid else (none, mmu)).2 := by
    split
    · exact sheds_dtlb1Lookup mmu va rid
    · exact .refl mmu
  simp only [tlbFindSlow]
  split
  · exact narrowed.looks
  · split
    · rename_i slot found
      obtain ⟨entries, count, pending⟩ := remember_slots va rid _ slot
      exact narrowed.looks.trans (looks_setTlb _
        (quiet_remember _ _ va rid (valid_of_covers (covers_of_scan found))) entries count pending)
    · exact narrowed.looks

theorem tlbFindSlow_plain (plain : (!isIfetch && mmu.dtlb1Enabled) = false) :
    (mmu.tlbFindSlow va rid isIfetch).1 =
      ((mmu.tlb !isIfetch).scan va rid).map (mmu.tlb !isIfetch).entry := by
  simp only [tlbFindSlow, plain, Bool.false_eq_true, if_false]
  cases (mmu.tlb !isIfetch).scan va rid <;> rfl

theorem tlbFindCached_looks {strict : Prop} :
    Looks strict mmu (mmu.tlbFindCached va rid isIfetch).2 := by
  simp only [tlbFindCached]
  split
  · exact .refl mmu
  · split
    · exact looks_setTlb mmu (quiet_swap _ _ _ _) rfl rfl rfl
    · exact tlbFindSlow_looks mmu va rid isIfetch

/-- Without copies, what is found covers the address. -/
theorem tlbFindCached_covers (plain : (!isIfetch && mmu.dtlb1Enabled) = false)
    (sound : (mmu.tlb !isIfetch).HintsSound) {entry : TlbEntry}
    (found : (mmu.tlbFindCached va rid isIfetch).1 = some entry) :
    ∃ i, (mmu.tlb !isIfetch).entry i = entry ∧ entry.covers va rid := by
  simp only [tlbFindCached] at found
  split at found
  · rename_i hits
    cases found
    exact ⟨_, rfl, covers_of_hintHits (sound.1 _) hits⟩
  · split at found
    · rename_i i displaced
      cases found
      exact ⟨_, rfl, covers_of_hintHits (sound.2 i) (firstSlot_eq_some_iff.mp displaced).2.1⟩
    · rw [tlbFindSlow_plain mmu va rid isIfetch plain] at found
      cases slot : (mmu.tlb !isIfetch).scan va rid with
      | none => simp [slot] at found
      | some i =>
        simp only [slot, Option.map_some, Option.some.injEq] at found
        exact ⟨i, found, found ▸ covers_of_scan slot⟩

end Find

theorem translationException_state (mmu : State) (pte : Word) (key : BitVec 32) (perm needed : Perm)
    (isIfetch isWrite isRse : Bool) :
    ∃ keyCache, (mmu.translationExceptionForAccess pte key perm needed isIfetch isWrite isRse).2 =
      { mmu with keyCache := keyCache } := by
  simp only [translationExceptionForAccess, translationExceptionForAccessMasked,
    keyExceptionForAccess]
  split_ifs
  all_goals first
    | exact ⟨mmu.keyCache, rfl⟩
    | exact ⟨_, rfl⟩

section Walk

variable (mmu : State)

variable {strict : Prop}

/-- The walker changes hints and keys at most. -/
theorem vhptEntryPhys_looks (entryVa : Word) : Looks strict mmu (mmu.vhptEntryPhys entryVa).2 := by
  have looked : Looks strict mmu (mmu.tlbFindCached entryVa (mmu.regionRid entryVa) false).2 :=
    tlbFindCached_looks mmu entryVa (mmu.regionRid entryVa) false
  simp only [vhptEntryPhys]
  split
  · exact .refl mmu
  · generalize mmu.tlbFindCached entryVa (mmu.regionRid entryVa) false = answer at looked
    obtain ⟨found, after⟩ := answer
    cases found with
    | none => exact looked
    | some entry =>
      obtain ⟨keyCache, remembered⟩ := translationException_state after entry.pte entry.key
        (entry.permAt 0) Access.load.needed false false false
      have both := looked.trans (looks_keys after keyCache)
      simp only [tlbExceptionForAccess, remembered]
      split_ifs
      · exact looked
      · exact both
      · exact both

/-- A walk finds nothing or installs an entry. -/
theorem vhptWalkFull_cases (va : Word) (rid : BitVec 32) (isIfetch isRse : Bool)
    (level : Nat) :
    ∃ walked, Looks strict mmu walked ∧
      (mmu.vhptWalkFull va rid isIfetch isRse level = (none, walked) ∨
        ∃ shift key pte, 12 ≤ shift ∧ shift ≤ 32 ∧
          mmu.vhptWalkFull va rid isIfetch isRse level =
            (some (walked.vhptInstall va rid isIfetch level shift key pte).1,
              (walked.vhptInstall va rid isIfetch level shift key pte).2)) := by
  unfold vhptWalkFull
  cases enabled : mmu.vhptWalkerEnabled va isIfetch isRse with
  | none => exact ⟨mmu, .refl mmu, Or.inl rfl⟩
  | some config =>
    obtain ⟨size, longFormat⟩ := config
    by_cases unsupported : (!mmu.vhptPreferredPageSizeSupported va)
    · exact ⟨mmu, .refl mmu, Or.inl (by simp only [unsupported, if_true])⟩
    · have preferred : mmu.model.pageShiftInsertable (itirPs (mmu.rr (rrIndex va))) := by
        simpa [vhptPreferredPageSizeSupported] using unsupported
      simp only [unsupported, Bool.false_eq_true, if_false]
      set entryVa := if longFormat = true then mmu.vhptLongHashAddress va size
        else mmu.vhptShortHashAddress va size
      have looked : Looks strict mmu (mmu.vhptEntryPhys entryVa).2 :=
        vhptEntryPhys_looks mmu entryVa
      generalize mmu.vhptEntryPhys entryVa = answer at looked
      obtain ⟨status, walked⟩ := answer
      refine ⟨walked, looked, ?_⟩
      cases status with
      | tlbMiss => exact Or.inl rfl
      | abort => exact Or.inl rfl
      | translated entryPa =>
        dsimp only
        generalize walked.vhptDataBreakpointMatch entryVa _ = stopped
        split_ifs with stops short badPte badTag badFields
        · exact Or.inl rfl
        · exact Or.inl rfl
        · -- A short entry has the page size its region prefers.
          have bounds := CpuModel.pageShiftInsertable_bounds preferred
          have shift : walked.regionPreferredPs va = itirPs (mmu.rr (rrIndex va)) := by
            rw [regionPreferredPs, preferredPs, show walked.rr = mmu.rr from looked.registers.rr]
            exact if_neg (by omega)
          exact Or.inr ⟨walked.regionPreferredPs va, rid, _, by omega, by omega, rfl⟩
        · exact Or.inl rfl
        · exact Or.inl rfl
        · -- A long entry has a page size of its own.
          simp only [Bool.or_eq_true, not_or, Bool.not_eq_eq_eq_not, Bool.not_true,
            Bool.not_eq_false] at badFields
          have valid := badFields.2
          simp only [vhptItirValid, Bool.and_eq_true] at valid
          have bounds := CpuModel.pageShiftInsertable_bounds valid.2
          exact Or.inr ⟨itirPs (walked.control.load (entryPa + 8)), _, _, bounds.1, bounds.2, rfl⟩

theorem frame_or_offset (frame va mask : Word) :
    (((((frame &&& ~~~mask) ||| (va &&& mask)) &&& ~~~mask) &&& ~~~mask) ||| (va &&& mask)) =
      (frame &&& ~~~mask) ||| (va &&& mask) := by
  apply BitVec.eq_of_getLsbD_eq
  intro i inside
  simp only [BitVec.getLsbD_or, BitVec.getLsbD_and, BitVec.getLsbD_not, inside,
    decide_true, Bool.true_and]
  cases frame.getLsbD i <;> cases va.getLsbD i <;> cases mask.getLsbD i <;> rfl

variable {mmu}

/-- An installed translation serves its address. -/
theorem vhptInstall_spec (formed : mmu.WellFormed)
    (plain : strict → mmu.dtlb1Enabled = false) (va : Word) (rid : BitVec 32) (isIfetch : Bool)
    (level : Nat) {shift : Nat} (least : 12 ≤ shift) (most : shift ≤ 32)
    (key : BitVec 32) (pte : Word) :
    Orderly strict mmu (mmu.vhptInstall va rid isIfetch level shift key pte).2 ∧
      SameRegisters mmu (mmu.vhptInstall va rid isIfetch level shift key pte).2 ∧
      ∃ i, (((mmu.vhptInstall va rid isIfetch level shift key pte).2.tlb !isIfetch).entry i).covers
        va rid =
          true ∧
        (mmu.vhptInstall va rid isIfetch level shift key pte).1.pa =
          (((mmu.vhptInstall va rid isIfetch level shift key pte).2.tlb !isIfetch).entry i).physOf
            va := by
  simp only [vhptInstall, vhptInstallTc]
  set frame : Word := ((pte &&& ptePpnMask) &&& ~~~(pageSize 64 shift - 1)) |||
    (va &&& (pageSize 64 shift - 1)) with frameDef
  set entry : TlbEntry := TlbEntry.make (va &&& ~~~(pageSize 64 shift - 1))
    (frame &&& ~~~(pageSize 64 shift - 1)) (pageSize 64 shift) pte
      (ptePerm pte level) rid key with entryDef
  have shape : entry.HasShift shift := ⟨least, by omega, rfl⟩
  obtain ⟨slot, inserted, -⟩ := insertTc_spec formed (!isIfetch) entry
  obtain ⟨version, placed⟩ := inserted.placed
  refine ⟨⟨insertTc_changes formed _ entry plain ⟨shift, shape⟩ rfl,
    fun accounted => accounted.insertTc formed _ rfl⟩, inserted.registers, slot, ?_, ?_⟩
  · rw [placed]
    refine (TlbEntry.covers_iff (show TlbEntry.HasShift _ shift from ⟨least, by omega, rfl⟩) va
      rid).mpr ⟨rfl, rfl, ?_⟩
    exact (clearOffset_samePage (by omega) va).symm
  · rw [placed]
    exact (frame_or_offset (pte &&& ptePpnMask) va (pageSize 64 shift - 1)).symm

/-- What a walk finds serves the address. -/
theorem vhptWalkFull_spec (formed : mmu.WellFormed)
    (plain : strict → mmu.dtlb1Enabled = false) (va : Word) (rid : BitVec 32)
    (isIfetch isRse : Bool) (level : Nat) :
    Orderly strict mmu (mmu.vhptWalkFull va rid isIfetch isRse level).2 ∧
      SameRegisters mmu (mmu.vhptWalkFull va rid isIfetch isRse level).2 ∧
      ∀ walk, (mmu.vhptWalkFull va rid isIfetch isRse level).1 = some walk →
        ∃ i,
          (((mmu.vhptWalkFull va rid isIfetch isRse level).2.tlb !isIfetch).entry i).covers va rid =
            true ∧
          walk.pa = (((mmu.vhptWalkFull va rid isIfetch isRse level).2.tlb !isIfetch).entry
            i).physOf va := by
  obtain ⟨walked, looked, answer⟩ := vhptWalkFull_cases mmu va rid isIfetch isRse level
  rcases answer with missing | ⟨shift, key, pte, least, most, installed⟩
  · rw [missing]
    exact ⟨looked.toOrderly, looked.registers, fun walk found => absurd found (by simp)⟩
  · rw [installed]
    have stillPlain : strict → walked.dtlb1Enabled = false := by
      intro holds
      rw [dtlb1Enabled, looked.registers.model]
      exact plain holds
    obtain ⟨install, registers, i, covered, address⟩ := vhptInstall_spec
      (Changes.wellFormed looked.changes formed) stillPlain va rid isIfetch level least most key pte
    refine ⟨looked.toOrderly.trans install, looked.registers.trans registers,
      fun walk found => ⟨i, covered, ?_⟩⟩
    cases found
    exact address

end Walk

end Ia64.Mmu
