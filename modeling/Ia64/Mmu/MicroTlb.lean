import Ia64.Mmu.Coherence

/-! Lookup hints over whole runs: a lookup through them answers as a scan of the table would. -/

namespace Ia64.Mmu

open Sweep

/-- A step of a run in which hint versions may also be bumped on their own. -/
inductive MicroStep where
  | op (op : Op)
  | bump (isData : Bool)
  | bumpSlot (isData : Bool) (slot : Nat)

/-- The state after a step. -/
def State.microStep (mmu : State) : MicroStep → State
  | .op op => mmu.step op
  | .bump isData => mmu.setTlb isData (mmu.tlb isData).bumpGeneration
  | .bumpSlot isData slot => mmu.setTlb isData ((mmu.tlb isData).bumpSlotGeneration slot)

/-- No two slots translate one address of one region. -/
def Tlb.Apart (tlb : Tlb) : Prop :=
  -- Slots of different regions, and slots that are not in use, cover nothing in common.
  ∀ i j va rid, (tlb.entry i).covers va rid → (tlb.entry j).covers va rid → i = j

section Bumps

variable {mmu : State} {isData : Bool} {slot : Nat}

theorem wellFormed_bump (formed : mmu.WellFormed) :
    (mmu.microStep (.bump isData)).WellFormed := by
  -- Only the hints change, and they are all stale or gone afterwards.
  have change : Change False mmu (mmu.microStep (.bump isData)) :=
    .quiet mmu isData ((mmu.tlb isData).quiet_bumpGeneration _)
  exact change.wellFormed formed

theorem bumpSlotGeneration_entry (tlb : Tlb) (slot i : Nat) :
    ∃ version, (tlb.bumpSlotGeneration slot).entry i = { tlb.entry i with
      microGeneration := version } := by
  by_cases here : i = slot
  · rw [here, Tlb.bumpSlotGeneration_entry_self]
    exact ⟨_, rfl⟩
  · rw [Tlb.bumpSlotGeneration_entry_ne _ _ here]
    exact ⟨_, rfl⟩

/-- A new version of one slot keeps the shape of its TLB. -/
theorem Tlb.WellFormed.bumpSlot {model : CpuModel} {tlb : Tlb}
    (formed : tlb.WellFormed model isData) (slot : Nat) :
    (tlb.bumpSlotGeneration slot).WellFormed model isData where
  sized i valid := by
    obtain ⟨version, stored⟩ := bumpSlotGeneration_entry tlb slot i
    rw [stored] at valid ⊢
    exact formed.sized i valid
  unused i beyond := by
    obtain ⟨version, stored⟩ := bumpSlotGeneration_entry tlb slot i
    rw [stored]
    exact formed.unused i (by simpa using beyond)
  registers i valid register := by
    obtain ⟨version, stored⟩ := bumpSlotGeneration_entry tlb slot i
    rw [stored] at valid register
    exact formed.registers i valid register
  bounded := by simpa using formed.bounded
  replaceBounded := by simpa using formed.replaceBounded
  hints := by
    -- The slot is rewritten with what it holds.
    have same : tlb.set slot (tlb.entry slot) = tlb := by simp [Tlb.set]
    have sound := hintsSound_rewrite formed.hints slot (tlb.entry slot) rfl
    rwa [same] at sound

theorem wellFormed_bumpSlot (formed : mmu.WellFormed) :
    (mmu.microStep (.bumpSlot isData slot)).WellFormed := by
  refine ⟨setTlb_wellFormed formed.tlbs ((formed.tlbs isData).bumpSlot slot), ?_⟩
  refine copiesBacked_setTlb formed.copies isData _ fun data i j _ live register same => ?_
  subst data
  obtain ⟨version, stored⟩ := bumpSlotGeneration_entry (mmu.tlb true) slot j
  rw [stored]
  exact ⟨live, register, same⟩

end Bumps

/-- The states of the runs from reset. -/
inductive MicroReachable (model : CpuModel) : State → Prop
  | start : MicroReachable model (.reset model)
  | step {mmu : State} (step : MicroStep) : MicroReachable model mmu →
    MicroReachable model (mmu.microStep step)

theorem MicroReachable.wellFormed {model : CpuModel} {mmu : State}
    (reachable : MicroReachable model mmu) : mmu.WellFormed ∧ mmu.model = model := by
  induction reachable with
  | start => exact ⟨reset_wellFormed model, rfl⟩
  | step step _ kept =>
    cases step with
    | op op =>
      have keeps : Keeps False _ _ := step_keeps kept.1 False.elim False.elim op
      exact ⟨keeps.formed, keeps.model.trans kept.2⟩
    | bump isData => exact ⟨wellFormed_bump kept.1, (State.setTlb_model _ _ _).trans kept.2⟩
    | bumpSlot isData slot =>
      exact ⟨wellFormed_bumpSlot kept.1, (State.setTlb_model _ _ _).trans kept.2⟩

section Refinement

variable {mmu : State} {va : Word} {rid : BitVec 32} {isIfetch : Bool}

theorem tlbFindCached_none (plain : (!isIfetch && mmu.dtlb1Enabled) = false)
    (missed : (mmu.tlbFindCached va rid isIfetch).1 = none) :
    (mmu.tlb !isIfetch).scan va rid = none := by
  simp only [State.tlbFindCached] at missed
  split at missed
  · exact absurd missed (by simp)
  · split at missed
    · exact absurd missed (by simp)
    · rw [tlbFindSlow_plain mmu va rid isIfetch plain] at missed
      simpa using missed

/-- In every run, a lookup through the hints finds what a scan of a table of apart entries finds. -/
theorem tlbFindCached_refines_scan {model : CpuModel} (plain : model ≠ .merced) {mmu : State}
    (reachable : MicroReachable model mmu) (isIfetch : Bool)
    (apart : (mmu.tlb !isIfetch).Apart) (va : Word) (rid : BitVec 32) :
    (mmu.tlbFindCached va rid isIfetch).1 = ((mmu.tlb !isIfetch).scan va rid).map
      (mmu.tlb !isIfetch).entry ∧ ((mmu.tlbFindCached va rid isIfetch).1 = none ↔
        ∀ i, i < (mmu.tlb !isIfetch).count →
          ((mmu.tlb !isIfetch).entry i).covers va rid = false) := by
  obtain ⟨formed, same⟩ := reachable.wellFormed
  have disabled : (!isIfetch && mmu.dtlb1Enabled) = false := by
    simp [State.dtlb1Enabled, same, plain]
  have answer : (mmu.tlbFindCached va rid isIfetch).1 =
      ((mmu.tlb !isIfetch).scan va rid).map (mmu.tlb !isIfetch).entry := by
    cases found : (mmu.tlbFindCached va rid isIfetch).1 with
    | none => rw [tlbFindCached_none disabled found, Option.map_none]
    | some entry =>
      -- A hint leads to a slot that covers the address, and there is no other one.
      obtain ⟨i, stored, covered⟩ := tlbFindCached_covers mmu va rid isIfetch disabled
        (formed.tlbs (!isIfetch)).hints found
      rw [← stored] at covered
      obtain ⟨j, scanned, coveredToo⟩ := scan_of_covers formed covered
      rw [scanned, Option.map_some, ← apart i j va rid covered coveredToo, stored]
  refine ⟨answer, ?_⟩
  rw [answer, Option.map_eq_none_iff]
  exact firstSlot_eq_none_iff

/-- A cache entry is looked up, its slot gets a new version, and it is looked up again. -/
def bumpedWhileHinted : State :=
  ((runFrom .montecito [insertionRegisters, .itc 0x20461 true,
    .cachedLookup 0x4000 0 false]).microStep
    (.bumpSlot true 0)).microStep (.op (.cachedLookup 0x4000 0 false))

/-- The stale hint is not followed, and the lookup finds the entry that the scan finds. -/
theorem tlbFindCached_refines_scan_bumped :
    (bumpedWhileHinted.tlbFindCached 0x4000 0 false).1.map TlbEntry.pte = some 0x20461 ∧
      (bumpedWhileHinted.tlbFindCached 0x4000 0 false).1 =
        (bumpedWhileHinted.data.scan 0x4000 0).map bumpedWhileHinted.data.entry := by
  have reachable : MicroReachable .montecito bumpedWhileHinted :=
    .step _ (.step _ (.step (.op (.cachedLookup 0x4000 0 false)) (.step (.op (.itc 0x20461 true))
      (.step (.op insertionRegisters) .start))))
  have single : ∀ i, ((bumpedWhileHinted.tlb true).entry i).valid = true → i = 0 := by
    intro i valid
    have count : (bumpedWhileHinted.tlb true).count = 1 := by decide +kernel
    have used := (reachable.wellFormed.1.tlbs true).used valid
    omega
  have apart : (bumpedWhileHinted.tlb true).Apart := by
    intro i j va rid covered coveredToo
    rw [single i (valid_of_covers covered), single j (valid_of_covers coveredToo)]
  exact ⟨by decide +kernel,
    (tlbFindCached_refines_scan (by decide) reachable false apart 0x4000 0).1⟩

end Refinement

end Ia64.Mmu
