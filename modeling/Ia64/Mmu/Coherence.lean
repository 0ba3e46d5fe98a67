import Ia64.Mmu.Run

/-! Coherence of the software TLB with the modeled lookup. -/

namespace Ia64.Mmu

/-- No two valid translation registers of one TLB meet. -/
def State.RegistersApart (mmu : State) : Prop :=
  ∀ isData i j, i ≠ j → ((mmu.tlb isData).entry i).isTr → ((mmu.tlb isData).entry j).valid →
    ((mmu.tlb isData).entry j).isTr →
    ((mmu.tlb isData).entry i).overlaps
        (vaPageBase ((mmu.tlb isData).entry j).va ((mmu.tlb isData).entry j).ps)
        ((mmu.tlb isData).entry j).ps ((mmu.tlb isData).entry j).rid = false

/-- The states of the runs considered: registers apart and no firmware window. -/
def State.Admissible (mmu : State) : Prop :=
  mmu.RegistersApart ∧ ∀ va, mmu.control.firmwareContains va = false

/-- Entries of one TLB that share an address lead it to the same physical page. -/
def State.Agreeing (mmu : State) : Prop :=
  ∀ isData i j va rid, ((mmu.tlb isData).entry i).covers va rid →
    ((mmu.tlb isData).entry j).covers va rid →
    targetPage (((mmu.tlb isData).entry i).physOf va) =
      targetPage (((mmu.tlb isData).entry j).physOf va)

/-- Every translated page of the software TLB leads where the modeled lookup leads. -/
def State.Coherent (mmu : State) : Prop :=
  ∀ idx page host, translatedIdx idx → mmu.host idx page = some host →
    ∀ va, targetPage va = page → ∃ entry,
      (mmu.tlbFindSlow va (mmu.regionRid va) host.prot.exec).1 = some entry ∧
        host.physAddr = targetPage (entry.physOf va)

variable {mmu : State}

theorem scan_of_covers (formed : mmu.WellFormed) {isData : Bool} {i : Nat} {va : Word}
    {rid : BitVec 32} (covered : ((mmu.tlb isData).entry i).covers va rid) :
    ∃ j, (mmu.tlb isData).scan va rid = some j ∧ ((mmu.tlb isData).entry j).covers va rid := by
  cases found : (mmu.tlb isData).scan va rid with
  | some j => exact ⟨j, rfl, covers_of_scan found⟩
  | none =>
    have missing :=
      Sweep.firstSlot_eq_none_iff.mp found i ((formed.tlbs isData).used (valid_of_covers covered))
    exact absurd (missing.symm.trans covered) (by decide)

theorem coherent_of_backed (formed : mmu.WellFormed) (plain : mmu.dtlb1Enabled = false)
    (backed : mmu.HostBacked) (agreeing : mmu.Agreeing) : mmu.Coherent := by
  rintro idx page host translated present va rfl
  obtain ⟨i, covered, address⟩ := backed idx (targetPage va) host translated present
  have sized := (formed.tlbs _).sized i (valid_of_covers covered)
  rw [regionRid_targetPage, covers_targetPage sized] at covered
  rw [physOf_targetPage] at address
  obtain ⟨j, found, coveredToo⟩ := scan_of_covers formed covered
  refine ⟨(mmu.tlb !host.prot.exec).entry j, ?_, ?_⟩
  · rw [tlbFindSlow_plain _ _ _ _ (by simp [plain]), found]
    rfl
  · rw [address]
    exact agreeing _ i j va _ covered coveredToo

/-- Registers that name a page at 16K, for insertions. -/
def insertionRegisters : Op :=
  .registers (fun _ => 0) (fun _ => ⟨0, 0, false⟩)
    ⟨0, 0, 0x4000, 12 <<< 2, 0, 0, 0, fun _ => false, fun _ => 0, fun _ _ => false⟩ false false

/-- A translation register is used, then a cache entry for its page goes to a lower slot. -/
def shadowingRun : List Op :=
  [insertionRegisters, .itr 0x10461 1 true, .fill 0x4000 8 .load 1 false false, .itc 0x20461 true,
    .fill 0x4000 8 .load 1 false false]

/-- The state after a run from reset. -/
def runFrom (model : CpuModel) (ops : List Op) : State := ops.foldl State.step (.reset model)

/-- Every state of a run after its first one. -/
def AllAlong (admissible : State → Prop) : State → List Op → Prop
  | _, [] => True
  | mmu, op :: ops => admissible (mmu.step op) ∧ AllAlong admissible (mmu.step op) ops

theorem Reachable.run {model : CpuModel} {admissible : State → Prop}
    (reachable : Reachable model admissible mmu) {ops : List Op}
    (fine : AllAlong admissible mmu ops) :
    Reachable model admissible (ops.foldl State.step mmu) := by
  induction ops generalizing mmu with
  | nil => exact reachable
  | cons op ops ih => exact ih (.step op reachable fine.1) fine.2

theorem registersApart_of_single (formed : mmu.WellFormed) (slot : Nat)
    (single : ∀ isData, ∀ i < mmu.model.trCount isData, ((mmu.tlb isData).entry i).valid →
      ((mmu.tlb isData).entry i).isTr → i = slot) : mmu.RegistersApart := by
  intro isData i j apart register valid registerToo
  by_contra meets
  simp only [Bool.not_eq_false] at meets
  have live : ((mmu.tlb isData).entry i).valid := by
    simp only [TlbEntry.overlaps, Bool.and_eq_true] at meets
    exact meets.1.1.2
  have first := single isData i ((formed.tlbs isData).registers i live register) live register
  have second :=
    single isData j ((formed.tlbs isData).registers j valid registerToo) valid registerToo
  exact apart (first.trans second.symm)

theorem runFrom_wellFormed (model : CpuModel) (ops : List Op) : (runFrom model ops).WellFormed := by
  have free : ∀ mmu : State, AllAlong (fun _ => True) mmu ops := by
    intro mmu
    induction ops generalizing mmu with
    | nil => trivial
    | cons op ops ih => exact ⟨trivial, ih _⟩
  exact (Reachable.run (.start trivial) (free (.reset model))).wellFormed.1

theorem admissible_runFrom (model : CpuModel) (ops : List Op) (slot : Nat)
    (single : ∀ isData, ∀ i < (runFrom model ops).model.trCount isData,
      (((runFrom model ops).tlb isData).entry i).valid →
      (((runFrom model ops).tlb isData).entry i).isTr → i = slot)
    (window : ∀ va, (runFrom model ops).control.firmwareContains va = false) :
    (runFrom model ops).Admissible :=
  ⟨registersApart_of_single (runFrom_wellFormed model ops) slot single, window⟩

theorem shadowingRun_start_reachable :
    Reachable .montecito State.Admissible (runFrom .montecito (shadowingRun.take 3)) := by
  refine Reachable.run
    (.start (admissible_runFrom .montecito [] 1 (by decide +kernel) fun _ => rfl))
    ⟨?_, ?_, ?_, trivial⟩
  · exact admissible_runFrom .montecito (shadowingRun.take 1) 1 (by decide +kernel) fun _ => rfl
  · exact admissible_runFrom .montecito (shadowingRun.take 2) 1 (by decide +kernel) fun _ => rfl
  · exact admissible_runFrom .montecito (shadowingRun.take 3) 1 (by decide +kernel) fun _ => rfl

/-- In every run, the software TLB is coherent in the states whose TLB entries agree where they
meet. -/
theorem hostTlb_coherent {model : CpuModel} (plain : model ≠ .merced) {mmu : State}
    (reachable : Reachable model State.Admissible mmu) (agreeing : mmu.Agreeing) :
    mmu.Coherent := by
  obtain ⟨formed, same⟩ := reachable.wellFormed
  refine coherent_of_backed formed ?_ (reachable.hostBacked plain fun _ fine => fine.2) agreeing
  rw [State.dtlb1Enabled, same]
  simpa using plain

/-- With the register alone, the page it filled is coherent. -/
theorem hostTlb_coherent_filled :
    ((runFrom .montecito (shadowingRun.take 3)).host 1 0x4000).isSome = true ∧
      (runFrom .montecito (shadowingRun.take 3)).Coherent := by
  refine ⟨by decide +kernel, hostTlb_coherent (by decide) shadowingRun_start_reachable ?_⟩
  -- Only the slot of the register is in use.
  have single : ∀ isData i,
      (((runFrom .montecito (shadowingRun.take 3)).tlb isData).entry i).valid = true → i = 1 := by
    intro isData i valid
    have formed := runFrom_wellFormed .montecito (shadowingRun.take 3)
    have checked : ∀ isData, ∀ i < ((runFrom .montecito (shadowingRun.take 3)).tlb isData).count,
        (((runFrom .montecito (shadowingRun.take 3)).tlb isData).entry i).valid = true → i = 1 := by
      decide +kernel
    exact checked isData i ((formed.tlbs isData).used valid) valid
  intro isData i j va rid covered coveredToo
  rw [single isData i (valid_of_covers covered), single isData j (valid_of_covers coveredToo)]

theorem shadowingRun_reachable :
    Reachable .montecito State.Admissible (runFrom .montecito shadowingRun) := by
  have rest :
      AllAlong State.Admissible (runFrom .montecito (shadowingRun.take 3)) (shadowingRun.drop 3) :=
    ⟨admissible_runFrom .montecito (shadowingRun.take 4) 1 (by decide +kernel) fun _ => rfl,
      admissible_runFrom .montecito shadowingRun 1 (by decide +kernel) fun _ => rfl, trivial⟩
  exact shadowingRun_start_reachable.run rest

/-- The hint to the register survives the insertion, so the next fill disagrees with the lookup. -/
theorem hostTlb_incoherent :
    Reachable .montecito State.Admissible (runFrom .montecito shadowingRun) ∧
      ¬(runFrom .montecito shadowingRun).Coherent := by
  refine ⟨shadowingRun_reachable, fun coherent => ?_⟩
  have filled : ∃ host, (runFrom .montecito shadowingRun).host 1 0x4000 = some host ∧
      host.physAddr = 0x10000 ∧ host.prot.exec = false := by
    refine ⟨⟨0x10000, ⟨true, true, false⟩, .speculative, 0⟩, by decide +kernel, rfl, rfl⟩
  have answer : ((runFrom .montecito shadowingRun).tlbFindSlow 0x4000
      ((runFrom .montecito shadowingRun).regionRid 0x4000) false).1.map (fun entry =>
        targetPage (entry.physOf 0x4000)) = some 0x20000 := by
    decide +kernel
  obtain ⟨host, present, address, side⟩ := filled
  obtain ⟨entry, found, same⟩ := coherent 1 0x4000 host rfl present 0x4000 (by decide)
  rw [side] at found
  rw [found, Option.map_some, ← same, address] at answer
  exact absurd answer (by decide)

/-- In every run, on every processor, entries lie in the used part of a table that has room for it,
registers lie in the slots for registers, and the first level has copies of live registers only. -/
theorem tables_in_bounds (model : CpuModel) (ops : List Op) :
    let mmu := runFrom model ops
    (∀ isData i, ((mmu.tlb isData).entry i).valid = true →
      i < (mmu.tlb isData).count ∧ (mmu.tlb isData).count ≤ mmu.model.tlbCapacity isData ∧
        (((mmu.tlb isData).entry i).isTr = true → i < mmu.model.trCount isData)) ∧
    ∀ i, (mmu.l1.entry i).valid = true → i < dtlb1Max ∧
      ((mmu.l1.entry i).isTr = true → ∃ j, (mmu.data.entry j).valid = true ∧
        (mmu.data.entry j).isTr = true ∧
        (mmu.l1.entry i).equivalent (mmu.data.entry j) = true) := by
  have formed := runFrom_wellFormed model ops
  refine ⟨fun isData i valid => ?_, fun i valid => ?_⟩
  · have shape := formed.tlbs isData
    exact ⟨shape.used valid, shape.bounded, shape.registers i valid⟩
  · obtain ⟨-, inside, -, backed⟩ := formed.copies i valid
    exact ⟨inside, backed⟩

end Ia64.Mmu
