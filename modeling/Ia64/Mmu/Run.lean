import Ia64.Mmu.FillSteps

/-! Runs of the memory management unit, and what every run keeps. -/

namespace Ia64.Mmu

open Pages Sweep Relation.ReflTransGen State Changes

section Complete

variable {strict : Prop} {mmu : State}

/-- Completing one purge makes elementary changes. -/
theorem completeVisit_changes (formed : mmu.WellFormed) (isIfetch targeted : Bool) (i : Nat)
    (flushes : strict → targeted) :
    Changes strict mmu (State.completeVisit isIfetch targeted mmu i) := by
  have sized := (formed.tlbs (!isIfetch)).sized i
  simp only [completeVisit]
  split
  · set entry : TlbEntry := (mmu.tlb !isIfetch).entry i with entryDef
    have drops := sheds_dropCopies mmu (!isIfetch) entry
    have uncopied : (!isIfetch) →
        (if !isIfetch then mmu.dtlb1InvalidateCopy entry else mmu).Uncopied entry := by
      intro data
      rw [if_pos data]
      exact uncopied_dtlb1InvalidateCopy formed entry
    set dropped : State := if !isIfetch then mmu.dtlb1InvalidateCopy entry else mmu
    have flush := (sheds_flushEntry dropped entry).ite (targeted)
    have gone : strict →
        (if targeted then dropped.qemuTlbFlushEntry entry else dropped).Unserved entry := by
      intro holds
      rw [if_pos (flushes holds)]
      exact unserved_flushEntry dropped sized
    set flushed : State := if targeted then dropped.qemuTlbFlushEntry entry else dropped
    have both := drops.trans flush
    have stored : (flushed.tlb !isIfetch).entry i = entry := by
      rw [both.same.tlb, entryDef]
    refine (single both.change).tail (.retire flushed (!isIfetch) i ?_ fun data => ?_)
    · rw [stored]
      exact gone
    · rw [stored]
      exact (uncopied data).shed flush
  · exact .refl

theorem completePendingPurges_changes (formed : mmu.WellFormed) (isIfetch targeted : Bool)
    (flushes : strict → targeted) :
    Changes strict mmu (mmu.completePendingPurges isIfetch targeted) := by
  simp only [completePendingPurges]
  refine Relation.ReflTransGen.tail ?_ (.quiet _ (!isIfetch) (quiet_trim _ _))
  refine sweep_invariant (P := fun current : State => Changes strict mmu current) .refl ?_
  intro i _ current reached
  exact reached.trans
    (completeVisit_changes (wellFormed reached formed) isIfetch targeted i flushes)

/-- Where nothing waits, a completion only trims. -/
theorem completePendingPurges_idle (isIfetch targeted : Bool)
    (idle : (mmu.tlb !isIfetch).anyPending = false) :
    mmu.completePendingPurges isIfetch targeted =
      mmu.setTlb (!isIfetch) (mmu.tlb !isIfetch).trim := by
  have nothing : ∀ i, i < (mmu.tlb !isIfetch).count →
      (((mmu.tlb !isIfetch).entry i).valid && ((mmu.tlb !isIfetch).entry i).pendingPurge) =
        false := by
    simp only [Tlb.anyPending, Option.isSome_eq_false_iff, Option.isNone_iff_eq_none] at idle
    exact firstSlot_eq_none_iff.mp idle
  have swept : sweep (mmu.tlb !isIfetch).count (completeVisit isIfetch targeted) mmu = mmu := by
    refine sweep_invariant (P := fun current : State => current = mmu) rfl ?_
    rintro i below current rfl
    simp [completeVisit, nothing i below]
  rw [completePendingPurges, swept]

theorem completeIf_changes (formed : mmu.WellFormed) (isIfetch targeted completes : Bool)
    (flushes : strict → targeted ∨ (completes && (mmu.tlb !isIfetch).anyPending) = false) :
    Changes strict mmu (if completes then mmu.completePendingPurges isIfetch targeted
      else mmu) := by
  cases completes with
  | false => exact .refl
  | true =>
    simp only [if_true]
    cases waiting : (mmu.tlb !isIfetch).anyPending with
    | true =>
      refine completePendingPurges_changes formed isIfetch targeted fun holds => ?_
      simpa [waiting] using flushes holds
    | false =>
      rw [completePendingPurges_idle isIfetch targeted waiting]
      exact .single (.quiet _ _ (quiet_trim _ _))

end Complete

/-- What every operation keeps: the shape of the unit and the backing of the software TLB. -/
structure Keeps (strict : Prop) (before after : State) : Prop where
  model : after.model = before.model
  formed : after.WellFormed
  backed : strict → before.HostBacked → after.HostBacked

variable {strict : Prop} {first mmu : State} {model : CpuModel} {admissible : State → Prop}

theorem Changes.keeps {before after : State} (changes : Changes strict before after)
    (formed : before.WellFormed) : Keeps strict before after :=
  ⟨model changes, wellFormed changes formed, fun holds => hostBacked changes holds⟩

theorem Keeps.trans {second third : State} (early : Keeps strict first second)
    (late : Keeps strict second third) : Keeps strict first third :=
  ⟨late.model.trans early.model, late.formed,
    fun holds backed => late.backed holds (early.backed holds backed)⟩

theorem completeBoth_keeps (formed : first.WellFormed)
    (targeted completesData : Bool) (completesInst : State → Bool) :
    let second := if completesData then first.completePendingPurges false targeted else first
    let third := if completesInst second then second.completePendingPurges true targeted else second
    Keeps strict first
      (if !targeted && (completesData && first.data.anyPending ||
          completesInst second && second.inst.anyPending) then third.tlbFlush else third) := by
  intro second third
  by_cases whole : (!targeted && (completesData && first.data.anyPending ||
      completesInst second && second.inst.anyPending))
  · -- Afterwards the software TLB is empty, and there is nothing to back.
    rw [if_pos whole]
    have data : Changes False first second :=
      completeIf_changes formed false targeted completesData False.elim
    have inst : Changes False second third :=
      completeIf_changes (wellFormed data formed) true targeted (completesInst second) False.elim
    have both := (data.trans inst).tail (sheds_tlbFlush third).change
    exact ⟨model both, wellFormed both formed,
      fun _ _ _ _ _ _ present => absurd present (by simp [tlbFlush])⟩
  · rw [if_neg whole]
    simp only [Bool.and_eq_true, Bool.or_eq_true, Bool.not_eq_eq_eq_not, Bool.not_true,
      not_and, not_or, Bool.not_eq_true] at whole
    have data : Changes strict first second := by
      refine completeIf_changes formed false targeted completesData fun _ => ?_
      cases each : targeted with
      | true => exact Or.inl rfl
      | false =>
        refine Or.inr ?_
        have idle := (whole each).1
        cases completesData with
        | false => rfl
        | true => exact idle rfl
    have inst : Changes strict second third := by
      refine completeIf_changes (wellFormed data formed) true targeted (completesInst second)
        fun _ => ?_
      cases each : targeted with
      | true => exact Or.inl rfl
      | false =>
        refine Or.inr ?_
        have idle := (whole each).2
        cases completes : completesInst second with
        | false => rfl
        | true => exact idle completes
    exact keeps (data.trans inst) formed

theorem tlbSerialize_keeps (formed : mmu.WellFormed)
    (serializeData serializeInst : Bool) :
    Keeps strict mmu (mmu.tlbSerialize serializeData serializeInst) := by
  have settles : Changes strict mmu (if serializeData then
      { mmu with psrIcInflight := false, psrIDeferred := false } else mmu) := by
    split
    · exact .single (.control rfl)
    · exact .refl
  exact (keeps settles formed).trans
    (completeBoth_keeps (wellFormed settles formed) _ _
      fun second => serializeInst && second.inst.pending != 0)

section Purge

variable {strict : Prop} (mmu : State)

/-- Marking a page makes elementary changes. -/
theorem ptcMark_changes (va ps : Word) (rid : BitVec 32) :
    Changes strict mmu (mmu.ptcMark va ps rid) := by
  have dropped := sheds_dtlb1PurgeRange mmu va ps rid true
  simp only [ptcMark]
  set purged : State := mmu.dtlb1PurgeRange va ps rid true
  have data : Change strict purged
      { purged with data := purged.data.markPendingPurgeEntries va ps rid true } :=
    .quiet purged true ((marked_markPendingPurgeEntries _ va ps rid true).quiet _)
  have inst : Change strict { purged with
      data := purged.data.markPendingPurgeEntries va ps rid true }
      { purged with
        data := purged.data.markPendingPurgeEntries va ps rid true
        inst := purged.inst.markPendingPurgeEntries va ps rid true } :=
    .quiet _ false ((marked_markPendingPurgeEntries _ va ps rid true).quiet _)
  exact ((single dropped.change).tail data).tail inst

theorem markPendingPurgeAllTcEnv_changes : Changes strict mmu mmu.markPendingPurgeAllTcEnv := by
  simp only [markPendingPurgeAllTcEnv]
  have data : Change strict mmu { mmu with data := mmu.data.markPendingPurgeAllTc } :=
    .quiet mmu true ((marked_markPendingPurgeAllTc _).quiet _)
  set marked : State := { mmu with data := mmu.data.markPendingPurgeAllTc }
  refine ((single data).tail (sheds_dtlb1Empty marked).change).tail ?_
  exact .quiet _ false ((marked_markPendingPurgeAllTc _).quiet _)

theorem ptrMark_changes (isData : Bool) (va ps : Word) (rid : BitVec 32) :
    Changes strict mmu
      (if isData then (mmu.setTlb isData ((mmu.tlb isData).markPendingPurgeEntries va ps rid
          false)).dtlb1PurgeRange va ps rid false
        else mmu.setTlb isData ((mmu.tlb isData).markPendingPurgeEntries va ps rid false)) := by
  have marked : Change strict mmu
      (mmu.setTlb isData ((mmu.tlb isData).markPendingPurgeEntries va ps rid false)) :=
    .quiet mmu isData ((marked_markPendingPurgeEntries _ va ps rid false).quiet _)
  split
  · exact (single marked).tail (sheds_dtlb1PurgeRange _ va ps rid false).change
  · exact .single marked

end Purge

/-- The operations that act on the unit. -/
inductive Op where
  | itr (pte slotReg : Word) (isData : Bool)
  | itc (pte : Word) (isData : Bool)
  | fill (addr : Word) (size : Nat) (access : Access) (mmuIdx : Nat) (rseAccess probe : Bool)
  | translate (va : Word)
  | lookup (va : Word) (rid : BitVec 32) (isIfetch : Bool)
  | cachedLookup (va : Word) (rid : BitVec 32) (isIfetch : Bool)
  | reference (va : Word) (size : Nat) (translated : Bool)
  | ptr (ifa sizeReg : Word) (isData : Bool)
  | ptc (va sizeReg : Word) (mode : PtcMode)
  | remotePurge (va sizeReg : Word) (rid : BitVec 32)
  | invalidateTc
  | serialize (data inst : Bool)
  | movRr (rrAddr value : Word)
  /-- Any change of the registers that steer translation. -/
  | registers (pkr : Nat → Word) (keyCache : Nat → KeyCacheEntry) (control : Control)
      (psrIcInflight psrIDeferred : Bool)
  /-- The software TLB gives up a page for room. -/
  | evict (idx : Nat) (page : Word)

/-- The state after an operation; one that faults leaves the unit alone. -/
def State.step (mmu : State) : Op → State
  | .itr pte slotReg isData => ((mmu.itrInsert pte slotReg isData).toOption).getD mmu
  | .itc pte isData => ((mmu.itcInsert pte isData).toOption).getD mmu
  | .fill addr size access mmuIdx rseAccess probe =>
    (mmu.tlbFill addr size access mmuIdx rseAccess probe).2
  | .translate va => (mmu.dataAddressToPhys va).2
  | .lookup va rid isIfetch => (mmu.tlbFindSlow va rid isIfetch).2
  | .cachedLookup va rid isIfetch => (mmu.tlbFindCached va rid isIfetch).2
  | .reference va size translated => mmu.dataAccess va size translated
  | .ptr ifa sizeReg isData => ((mmu.ptrPurge ifa sizeReg isData).toOption).getD mmu
  | .ptc va sizeReg mode => ((mmu.ptcPurge va sizeReg mode).toOption).getD mmu
  | .remotePurge va sizeReg rid => mmu.ptcGlobalRemoteWork va sizeReg rid
  | .invalidateTc => mmu.invalidateTc
  | .serialize data inst => mmu.tlbSerialize data inst
  | .movRr rrAddr value => mmu.movRr rrAddr value
  | .registers pkr keyCache control psrIcInflight psrIDeferred =>
    { mmu with
      pkr := pkr, keyCache := keyCache, control := control
      psrIcInflight := psrIcInflight, psrIDeferred := psrIDeferred }
  | .evict idx page =>
    { mmu with host := fun i p => if i = idx ∧ p = page then none else mmu.host i p }

/-- The states of the runs from reset all of whose states are admissible. -/
inductive Reachable (model : CpuModel) (admissible : State → Prop) : State → Prop
  | start : admissible (.reset model) → Reachable model admissible (.reset model)
  | step {mmu : State} (op : Op) :
      Reachable model admissible mmu → admissible (mmu.step op) →
        Reachable model admissible (mmu.step op)

section Insertion

variable {mmu : State} {pte : Word} {isData : Bool}

/-- The entry an insertion makes of the page table entry, IFA and ITIR. -/
def State.newEntry (mmu : State) (pte : Word) : TlbEntry :=
  let ps := pageSizeFromShift (itirPs mmu.control.itir)
  TlbEntry.make (mmu.control.ifa &&& ~~~(ps - 1)) ((pte &&& ptePpnMask) &&& ~~~(ps - 1)) ps pte
    (ptePerm pte 0) (mmu.regionRid mmu.control.ifa) (itirKey mmu.control.itir)

theorem newEntry_hasShift (valid : mmu.translationInsertFieldsValid pte mmu.control.itir) :
    (mmu.newEntry pte).HasShift (itirPs mmu.control.itir) := by
  have insertable : mmu.model.pageShiftInsertable (itirPs mmu.control.itir) := by
    by_contra refused
    simp [translationInsertFieldsValid, refused] at valid
  have bounds := CpuModel.pageShiftInsertable_bounds insertable
  refine ⟨bounds.1, by omega, ?_⟩
  show pageSizeFromShift _ = _
  rw [pageSizeFromShift, if_neg (by omega)]

theorem itcInsert_cases :
    (∃ excp, mmu.itcInsert pte isData = .error excp) ∨
      (ptePresent pte ∧ ptePerm pte 0 = .none ∧ mmu.itcInsert pte isData = .ok mmu) ∨
      (mmu.translationInsertFieldsValid pte mmu.control.itir ∧
        ¬(ptePresent pte ∧ ptePerm pte 0 = .none) ∧
        mmu.itcInsert pte isData = .ok (mmu.insertTc isData (mmu.newEntry pte)).2) := by
  unfold itcInsert
  dsimp only
  split_ifs with fields address virtual useless
  · exact Or.inl ⟨_, rfl⟩
  · exact Or.inl ⟨_, rfl⟩
  · exact Or.inl ⟨_, rfl⟩
  · simp only [Bool.and_eq_true, beq_iff_eq] at useless
    exact Or.inr (Or.inl ⟨useless.1, useless.2, rfl⟩)
  · simp only [Bool.and_eq_true, beq_iff_eq] at useless
    exact Or.inr (Or.inr ⟨by simpa using fields, useless, rfl⟩)

/-- An insertion faults, does nothing or fills its slot. -/
theorem itrInsert_cases (slotReg : Word) :
    (∃ excp, mmu.itrInsert pte slotReg isData = .error excp) ∨
      (ptePresent pte ∧ ptePerm pte 0 = .none ∧ mmu.itrInsert pte slotReg isData = .ok mmu) ∨
      (mmu.translationInsertFieldsValid pte mmu.control.itir ∧
        (slotReg &&& 0xff).toNat < mmu.model.trCount isData ∧
        ¬(ptePresent pte ∧ ptePerm pte 0 = .none) ∧
        mmu.itrInsert pte slotReg isData = .ok (mmu.replaceTr isData (slotReg &&& 0xff).toNat
          { mmu.newEntry pte with isTr := true, slot := (slotReg &&& 0xff).toNat })) := by
  have checks : mmu.itrInsert pte slotReg isData =
      if mmu.model.trCount isData ≤ (slotReg &&& 0xff).toNat then .error .reservedRegField
      else if !mmu.translationInsertFieldsValid pte mmu.control.itir then .error .reservedRegField
      else if !mmu.vaIsImplemented mmu.control.ifa then .error .unimplDataAddr
      else if mmu.virtualizationFaults then .error .virtualization
      else if ptePresent pte && ptePerm pte 0 == .none then .ok mmu
      else .ok (mmu.replaceTr isData (slotReg &&& 0xff).toNat
        { mmu.newEntry pte with isTr := true, slot := (slotReg &&& 0xff).toNat }) := rfl
  rw [checks]
  split_ifs with slot fields address virtual useless
  · exact Or.inl ⟨_, rfl⟩
  · exact Or.inl ⟨_, rfl⟩
  · exact Or.inl ⟨_, rfl⟩
  · exact Or.inl ⟨_, rfl⟩
  · simp only [Bool.and_eq_true, beq_iff_eq] at useless
    exact Or.inr (Or.inl ⟨useless.1, useless.2, rfl⟩)
  · simp only [Bool.and_eq_true, beq_iff_eq] at useless
    exact Or.inr (Or.inr ⟨by simpa using fields, by omega, useless, rfl⟩)

end Insertion

/-- Every operation keeps the shape and the backing. -/
theorem step_keeps (formed : mmu.WellFormed)
    (plain : strict → mmu.dtlb1Enabled = false)
    (window : strict → ∀ va, mmu.control.firmwareContains va = false) (op : Op) :
    Keeps strict mmu (mmu.step op) := by
  have idle : Keeps strict mmu mmu := keeps .refl formed
  cases op with
  | itr pte slotReg isData =>
    simp only [State.step]
    rcases itrInsert_cases slotReg with ⟨excp, faults⟩ | ⟨-, -, useless⟩ |
      ⟨fields, inside, -, filled⟩
    · rw [faults]
      exact idle
    · rw [useless]
      exact idle
    · rw [filled]
      exact keeps (replaceTr_changes formed plain ⟨_, newEntry_hasShift fields⟩ inside) formed
  | itc pte isData =>
    simp only [State.step]
    rcases itcInsert_cases with ⟨excp, faults⟩ | ⟨-, -, useless⟩ | ⟨fields, -, inserted⟩
    · rw [faults]
      exact idle
    · rw [useless]
      exact idle
    · rw [inserted]
      exact keeps
        (insertTc_changes formed isData _ plain ⟨_, newEntry_hasShift fields⟩ rfl) formed
  | fill addr size access mmuIdx rseAccess probe =>
    exact keeps
      (tlbFill_orderly formed plain window addr size access mmuIdx rseAccess probe).changes formed
  | translate va => exact keeps (dataAddressToPhys_orderly formed plain va).changes formed
  | lookup va rid isIfetch => exact keeps (tlbFindSlow_looks mmu va rid isIfetch).changes formed
  | cachedLookup va rid isIfetch =>
    exact keeps (tlbFindCached_looks mmu va rid isIfetch).changes formed
  | reference va size translated =>
    exact keeps (dataAccess_orderly mmu va size translated).changes formed
  | ptr ifa sizeReg isData =>
    simp only [State.step, ptrPurge]
    split
    · exact idle
    · split
      · exact idle
      · exact keeps (ptrMark_changes mmu isData _ _ _) formed
  | ptc va sizeReg mode =>
    simp only [State.step, ptcPurge]
    split_ifs
    · exact idle
    · exact idle
    · cases mode with
      | «local» => exact keeps (ptcMark_changes mmu va _ _) formed
      | «global» => exact keeps (ptcMark_changes mmu _ _ _) formed
      | globalAlat => exact keeps (ptcMark_changes mmu _ _ _) formed
      | everything => exact keeps (markPendingPurgeAllTcEnv_changes mmu) formed
  | remotePurge va sizeReg rid =>
    have marked : Keeps strict mmu _ :=
      keeps (ptcMark_changes mmu (va &&& ~~~(pageSizeFromShift (itirPs sizeReg) - 1))
        (pageSizeFromShift (itirPs sizeReg)) rid) formed
    exact marked.trans (tlbSerialize_keeps marked.formed true true)
  | invalidateTc =>
    have marked : Keeps strict mmu _ := keeps (markPendingPurgeAllTcEnv_changes mmu) formed
    have purged := marked.trans (tlbSerialize_keeps marked.formed true true)
    exact purged.trans (keeps (.single (.control rfl)) purged.formed)
  | serialize data inst => exact tlbSerialize_keeps formed data inst
  | movRr rrAddr value =>
    simp only [State.step, State.movRr]
    split
    · exact idle
    · exact keeps (.single (.region mmu _)) formed
  | registers pkr keyCache control psrIcInflight psrIDeferred =>
    exact keeps (.single (.control rfl)) formed
  | evict idx page =>
    have leaves : Sheds mmu (mmu.step (.evict idx page)) := by
      refine ⟨rfl, fun _ _ => rfl, fun i p entry present => ?_⟩
      simp only [State.step] at present
      split at present
      · exact absurd present (by simp)
      · exact present
    exact keeps (.single leaves.change) formed

/-- The unit after reset has its shape. -/
theorem reset_wellFormed (model : CpuModel) : (State.reset model).WellFormed := by
  refine ⟨fun isData => ?_,
    fun i valid => absurd valid (by simp [State.reset, Dtlb1.reset, TlbEntry.empty])⟩
  have empty : ∀ i, (Tlb.reset.entry i).valid = false := fun _ => rfl
  have room := model.trCount_lt_tlbCapacity isData
  have shape : Tlb.reset.WellFormed model isData :=
    { sized := fun i valid => absurd ((empty i).symm.trans valid) (by decide)
      unused := fun i _ => empty i
      registers := fun i valid => absurd ((empty i).symm.trans valid) (by decide)
      bounded := Nat.zero_le _
      replaceBounded := show 0 < model.tlbCapacity isData by omega
      hints := ⟨fun _ valid => absurd valid (by simp [Tlb.reset, MicroTlbEntry.empty]),
        fun _ valid => absurd valid (by simp [Tlb.reset, MicroTlbEntry.empty])⟩ }
  cases isData <;> exact shape

theorem Reachable.wellFormed
    (reachable : Reachable model admissible mmu) : mmu.WellFormed ∧ mmu.model = model := by
  induction reachable with
  | start _ => exact ⟨reset_wellFormed model, rfl⟩
  | step op _ _ kept =>
    have keeps : Keeps False _ _ := step_keeps kept.1 False.elim False.elim op
    exact ⟨keeps.formed, keeps.model.trans kept.2⟩

theorem Reachable.admits
    (reachable : Reachable model admissible mmu) : admissible mmu := by
  cases reachable with
  | start fine => exact fine
  | step _ _ fine => exact fine

theorem Reachable.hostBacked (plain : model ≠ .merced)
    (window : ∀ mmu, admissible mmu → ∀ va, mmu.control.firmwareContains va = false)
    (reachable : Reachable model admissible mmu) : mmu.HostBacked := by
  induction reachable with
  | start _ => exact fun _ _ _ _ present => absurd present (by simp [State.reset])
  | step op before _ backed =>
    obtain ⟨formed, same⟩ := before.wellFormed
    have keeps : Keeps True _ _ := step_keeps formed
      (fun _ => by rw [dtlb1Enabled, same]; simpa using plain) (fun _ => window _ before.admits) op
    exact keeps.backed trivial backed

end Ia64.Mmu
