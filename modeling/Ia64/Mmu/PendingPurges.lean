import Ia64.Mmu.Coherence

/-! Pending purges over whole runs: the counters, their decrements, and what a serialization
leaves. -/

namespace Ia64.Mmu

open Sweep Tally

/-- The values at which a completion of purges decrements its counter, in order. -/
def State.completeDecrements (mmu : State) (isIfetch targeted : Bool) : List Nat :=
  (List.range (mmu.tlb !isIfetch).count).filterMap fun i =>
    let current := sweep i (State.completeVisit isIfetch targeted) mmu
    let entry := (current.tlb !isIfetch).entry i
    if entry.valid && entry.pendingPurge then some (current.tlb !isIfetch).pending else none

/-- The values at which a serialization decrements the counters, in order. -/
def State.serializeDecrements (mmu : State) (serializeData serializeInst : Bool) : List Nat :=
  let pending :=
    (if serializeData then mmu.data.pending else 0) + if serializeInst then mmu.inst.pending else 0
  let targeted := decide (pending ≤ 8)
  let mmu :=
    if serializeData then { mmu with psrIcInflight := false, psrIDeferred := false } else mmu
  let completesData := serializeData && mmu.data.pending != 0
  let dataDecrements := if completesData then mmu.completeDecrements false targeted else []
  let mmu := if completesData then mmu.completePendingPurges false targeted else mmu
  let completesInst := serializeInst && mmu.inst.pending != 0
  dataDecrements ++ if completesInst then mmu.completeDecrements true targeted else []

/-- The values at which an operation completes purges. -/
def State.decrements (mmu : State) : Op → List Nat
  | .remotePurge va sizeReg rid =>
    let ps := pageSizeFromShift (itirPs sizeReg)
    (mmu.ptcMark (va &&& ~~~(ps - 1)) ps rid).serializeDecrements true true
  | .invalidateTc => mmu.markPendingPurgeAllTcEnv.serializeDecrements true true
  | .serialize data inst => mmu.serializeDecrements data inst
  | _ => []

/-- Whether an operation serializes one of the TLBs. -/
def Op.serializes : Op → Bool → Bool
  | .remotePurge _ _ _, _ => true
  | .invalidateTc, _ => true
  | .serialize data inst, isData => if isData then data else inst
  | _, _ => false

section Decrements

variable {mmu : State}

theorem completeDecrements_pos (accounted : mmu.Accounted) (isIfetch targeted : Bool) :
    ∀ n ∈ mmu.completeDecrements isIfetch targeted, 0 < n := by
  intro n member
  obtain ⟨i, -, decremented⟩ := List.mem_filterMap.mp member
  -- The counter is right at the visit, and the entry visited is marked.
  have books := accounted.completeSweep isIfetch targeted i (!isIfetch)
  dsimp only at decremented
  split at decremented
  · rename_i waits
    cases decremented
    exact books.counts.pos (Bool.and_eq_true_iff.mp waits).2
  · exact absurd decremented (by simp)

/-- No serialization decrements a counter at zero. -/
theorem serializeDecrements_pos (accounted : mmu.Accounted) (serializeData serializeInst : Bool) :
    ∀ n ∈ mmu.serializeDecrements serializeData serializeInst, 0 < n := by
  simp only [State.serializeDecrements]
  generalize decide ((if serializeData then mmu.data.pending else 0) +
    (if serializeInst then mmu.inst.pending else 0) ≤ 8) = targeted
  have started := accounted.serializeStart serializeData
  generalize (if serializeData then
    { mmu with psrIcInflight := false, psrIDeferred := false } else mmu) = first at started
  have data : State.Accounted (if serializeData && first.data.pending != 0 then
    first.completePendingPurges false targeted
      else first) := (completeIf_accounted started false targeted serializeData).1
  generalize (if serializeData && first.data.pending != 0 then
    first.completePendingPurges false targeted else first) = second at data
  intro n member
  rcases List.mem_append.mp member with early | late
  · split at early
    · exact completeDecrements_pos started false targeted n early
    · exact absurd early (by simp)
  · split at late
    · exact completeDecrements_pos data true targeted n late
    · exact absurd late (by simp)

end Decrements

section Run

/-- Every operation keeps the books. -/
theorem State.Accounted.step {mmu : State} (accounted : mmu.Accounted)
    (formed : mmu.WellFormed) (op : Op) : (mmu.step op).Accounted := by
  cases op with
  | itr pte slotReg isData =>
    simp only [State.step]
    rcases itrInsert_cases slotReg with ⟨excp, faults⟩ | ⟨-, -, useless⟩ | ⟨-, -, -, filled⟩
    · rw [faults]
      exact accounted
    · rw [useless]
      exact accounted
    · rw [filled]
      exact accounted.replaceTr formed isData _ rfl
  | itc pte isData =>
    simp only [State.step]
    rcases itcInsert_cases with ⟨excp, faults⟩ | ⟨-, -, useless⟩ | ⟨-, -, inserted⟩
    · rw [faults]
      exact accounted
    · rw [useless]
      exact accounted
    · rw [inserted]
      exact accounted.insertTc formed isData rfl
  | fill addr size access mmuIdx rseAccess probe =>
    exact (@tlbFill_orderly mmu formed False False.elim False.elim addr size access mmuIdx rseAccess
      probe).books accounted
  | translate va =>
    exact (@dataAddressToPhys_orderly mmu formed False False.elim va).books accounted
  | lookup va rid isIfetch => exact (@tlbFindSlow_looks mmu va rid isIfetch False).books accounted
  | cachedLookup va rid isIfetch =>
    exact (@tlbFindCached_looks mmu va rid isIfetch False).books accounted
  | reference va size translated =>
    exact (@dataAccess_orderly False mmu va size translated).books accounted
  | ptr ifa sizeReg isData =>
    simp only [State.step, State.ptrPurge]
    split
    · exact accounted
    · split
      · exact accounted
      · let ps := pageSizeFromShift (itirPs sizeReg)
        have marked := @State.Accounted.setTlb mmu accounted isData _
          ((accounted isData).markPendingPurgeEntries (ifa &&& ~~~(ps - 1)) ps
            (mmu.regionRid ifa) false)
        simp only [Except.toOption, Option.getD_some]
        split
        · exact marked.shed (sheds_dtlb1PurgeRange _ _ _ _ _)
        · exact marked
  | ptc va sizeReg mode =>
    simp only [State.step, State.ptcPurge]
    split_ifs
    · exact accounted
    · exact accounted
    · cases mode with
      | «local» => exact accounted.ptcMark va _ _
      | «global» => exact accounted.ptcMark _ _ _
      | globalAlat => exact accounted.ptcMark _ _ _
      | everything => exact accounted.markPendingPurgeAllTcEnv
  | remotePurge va sizeReg rid =>
    exact (tlbSerialize_accounted (accounted.ptcMark _ _ rid) true true).1
  | invalidateTc =>
    exact (tlbSerialize_accounted accounted.markPendingPurgeAllTcEnv true true).1.outside rfl rfl
  | serialize data inst => exact (tlbSerialize_accounted accounted data inst).1
  | movRr rrAddr value =>
    simp only [State.step, State.movRr]
    split
    · exact accounted
    · intro isData
      have kept := accounted isData
      cases isData <;> exact kept.congr (by simp [State.tlb, State.tlbFlush])
        (by simp [State.tlb, State.tlbFlush]) (by simp [State.tlb, State.tlbFlush])
  | registers pkr keyCache control psrIcInflight psrIDeferred => exact accounted.outside rfl rfl
  | evict idx page => exact accounted.outside rfl rfl

theorem reset_accounted (model : CpuModel) : (State.reset model).Accounted := by
  have empty : Tlb.reset.Accounted := ⟨fun _ _ => rfl, fun _ _ => rfl, counts_none fun _ => rfl⟩
  intro isData
  cases isData <;> exact empty

theorem Reachable.accounted {model : CpuModel} {admissible : State → Prop} {mmu : State}
    (reachable : Reachable model admissible mmu) : mmu.Accounted := by
  induction reachable with
  | start _ => exact reset_accounted model
  | step op before _ books => exact books.step before.wellFormed.1 op

/-- In every run, the counters count the valid entries that wait, and no purge completes at zero. -/
theorem pendingPurges_accounted {model : CpuModel} {mmu : State}
    (reachable : Reachable model (fun _ => True) mmu) :
    (∀ isData, (mmu.tlb isData).pending = ((Finset.range (mmu.tlb isData).count).filter fun i =>
        ((mmu.tlb isData).entry i).valid = true ∧
          ((mmu.tlb isData).entry i).pendingPurge = true).card) ∧
      (∀ isData i, (mmu.tlb isData).count ≤ i → ((mmu.tlb isData).entry i).valid = false) ∧
      ∀ op : Op, (∀ n ∈ mmu.decrements op, 0 < n) ∧
        ∀ isData, op.serializes isData = true → ((mmu.step op).tlb isData).pending = 0 := by
  have accounted := reachable.accounted
  refine ⟨fun isData => (accounted isData).pending_eq_card, fun isData => (accounted isData).unused,
    fun op => ?_⟩
  cases op with
  | remotePurge va sizeReg rid =>
    have marked := accounted.ptcMark (va &&& ~~~(pageSizeFromShift (itirPs sizeReg) - 1))
      (pageSizeFromShift (itirPs sizeReg)) rid
    exact ⟨serializeDecrements_pos marked true true,
      fun isData _ => (tlbSerialize_accounted marked true true).2 isData (by cases isData <;> rfl)⟩
  | invalidateTc =>
    have marked := accounted.markPendingPurgeAllTcEnv
    refine ⟨serializeDecrements_pos marked true true, fun isData _ => ?_⟩
    exact (tlbSerialize_accounted marked true true).2 isData (by cases isData <;> rfl)
  | serialize data inst =>
    exact ⟨serializeDecrements_pos accounted data inst,
      (tlbSerialize_accounted accounted data inst).2⟩
  | _ =>
    exact ⟨fun n member => absurd member (by simp [State.decrements]),
      fun _ no => absurd no (by simp [Op.serializes])⟩

/-- A translation register is purged, and then replaced before the purge takes effect. -/
def replacedWhilePending : List Op :=
  [insertionRegisters, .itr 0x10461 1 true, .ptr 0x4000 (12 <<< 2) true, .itr 0x20461 1 true]

/-- The mark has moved to the copy of the replaced register, and its purge finds the counter at
one. -/
theorem pendingPurges_accounted_replaced :
    ((runFrom .montecito replacedWhilePending).tlb true).pending = 1 ∧
      (runFrom .montecito replacedWhilePending).decrements (.serialize true false) = [1] ∧
      (((runFrom .montecito replacedWhilePending).step (.serialize true false)).tlb true).pending =
        0 := by
  have reachable : Reachable .montecito (fun _ => True) (runFrom .montecito replacedWhilePending) :=
    Reachable.run (.start trivial) ⟨trivial, trivial, trivial, trivial, trivial⟩
  exact ⟨by decide +kernel, by decide +kernel,
    ((pendingPurges_accounted reachable).2.2 (.serialize true false)).2 true rfl⟩

end Run

end Ia64.Mmu
