import Ia64.Mmu.Changes

/-! Every elementary change keeps the shape of the TLBs, and the strict ones keep the software TLB
backed. -/

namespace Ia64.Mmu

open State Tlb BitVec

theorem toNat_add_one_of_ne_zero {version : BitVec 32} (noWrap : version + 1 ≠ 0) :
    (version + 1).toNat = version.toNat + 1 := by
  have bound := version.isLt
  have notLast : version.toNat + 1 ≠ 2 ^ 32 := by
    intro last
    apply noWrap
    apply eq_of_toNat_eq
    rw [toNat_add]
    simp [last]
  rw [toNat_add]
  simp only [ofNat_eq_ofNat, toNat_ofNat, Nat.reducePow, Nat.reduceMod]
  omega

section Hints

variable {tlb : Tlb}

/-- The generation of every hint is at most the current one. -/
def Tlb.HintsBounded (tlb : Tlb) : Prop :=
  (∀ i, (tlb.micro i).valid → (tlb.micro i).generation.toNat ≤ tlb.generation.toNat) ∧
    ∀ i, (tlb.victim i).valid → (tlb.victim i).generation.toNat ≤ tlb.generation.toNat

theorem Tlb.HintsSound.bounded (sound : tlb.HintsSound) : tlb.HintsBounded :=
  ⟨fun i valid => (sound.1 i valid).1, fun i valid => (sound.2 i valid).1⟩

/-- When the generation moves on, old hints are stale. -/
theorem hintsSound_bumpGeneration (bounded : tlb.HintsBounded) : tlb.bumpGeneration.HintsSound := by
  unfold bumpGeneration
  by_cases wraps : tlb.generation + 1 = 0
  · -- The hints are cleared instead.
    rw [if_pos wraps]
    exact ⟨fun _ valid => absurd valid (by simp [MicroTlbEntry.empty]),
      fun _ valid => absurd valid (by simp [MicroTlbEntry.empty])⟩
  · rw [if_neg wraps]
    have forward := toNat_add_one_of_ne_zero wraps
    have stale : ∀ hint : MicroTlbEntry,
        (hint.valid → hint.generation.toNat ≤ tlb.generation.toNat) →
        ({ tlb with generation := tlb.generation + 1 } : Tlb).HintSound hint := by
      intro hint old valid
      have below := old valid
      refine ⟨by simp only [forward]; omega, fun current => ?_⟩
      have same := congrArg BitVec.toNat current
      simp only [forward] at same
      omega
    exact ⟨fun i => stale _ (bounded.1 i), fun i => stale _ (bounded.2 i)⟩

theorem Tlb.quiet_bumpGeneration (tlb : Tlb) (capacity : Nat) :
    Tlb.Quiet capacity tlb tlb.bumpGeneration where
  entries i := by rw [bumpGeneration_entry]
  count := by simp
  dropped i above below := by
    rw [bumpGeneration_count] at above
    omega
  replace := by simp
  hints sound := hintsSound_bumpGeneration sound.bounded

/-- Rewriting a slot keeps the hints sound. -/
theorem hintsSound_rewrite (sound : tlb.HintsSound) (slot : Nat) (entry : TlbEntry)
    (version : entry.microGeneration = (tlb.entry slot).microGeneration) :
    ((tlb.set slot entry).bumpSlotGeneration slot).HintsSound := by
  simp only [bumpSlotGeneration, set_entry_self]
  by_cases wraps : entry.microGeneration + 1 = 0
  · rw [if_pos wraps]
    exact hintsSound_bumpGeneration sound.bounded
  · rw [if_neg wraps]
    have forward := toNat_add_one_of_ne_zero wraps
    have kept : ∀ hint : MicroTlbEntry, tlb.HintSound hint →
        ((tlb.set slot entry).set slot
          { entry with microGeneration := entry.microGeneration + 1 }).HintSound hint := by
      intro hint hintSound valid
      obtain ⟨old, current⟩ := hintSound valid
      refine ⟨old, fun same => ?_⟩
      obtain ⟨below, named⟩ := current same
      by_cases here : hint.slot = slot
      · -- The slot has left the version that the hint knows.
        rw [here, set_entry_self]
        rw [here, ← version] at below
        refine ⟨by simp only [forward]; omega, fun equal => ?_⟩
        have value := congrArg BitVec.toNat equal
        simp only [forward] at value
        omega
      · rw [set_entry_ne _ _ here, set_entry_ne _ _ here]
        exact ⟨below, named⟩
    exact ⟨fun i => kept _ (sound.1 i), fun i => kept _ (sound.2 i)⟩

theorem hintsSound_of_entries {after : Tlb} (sound : tlb.HintsSound)
    (micro : after.micro = tlb.micro) (victim : after.victim = tlb.victim)
    (generation : after.generation = tlb.generation)
    (entries : ∀ i, after.entry i = { tlb.entry i with
      pendingPurge := (after.entry i).pendingPurge }) :
    after.HintsSound := by
  have kept : ∀ hint : MicroTlbEntry, tlb.HintSound hint → after.HintSound hint := by
    intro hint hintSound valid
    rw [generation, entries hint.slot]
    exact hintSound valid
  exact ⟨fun i => by rw [micro]; exact kept _ (sound.1 i),
    fun i => by rw [victim]; exact kept _ (sound.2 i)⟩

theorem hintsSound_discardPendingPurge (sound : tlb.HintsSound) (slot : Nat) :
    (tlb.discardPendingPurge slot).HintsSound := by
  simp only [discardPendingPurge]
  split
  · refine hintsSound_of_entries sound rfl rfl rfl fun i => ?_
    by_cases here : i = slot
    · subst here
      simp [Tlb.set]
    · simp [Tlb.set, here]
  · exact sound

end Hints

section Shape

variable {model : CpuModel} {isData : Bool} {tlb : Tlb}

theorem Tlb.WellFormed.quiet {after : Tlb} (formed : tlb.WellFormed model isData)
    (quiet : Tlb.Quiet (model.tlbCapacity isData) tlb after) : after.WellFormed model isData where
  sized i valid := by
    rw [quiet.entries i] at valid ⊢
    exact formed.sized i valid
  unused i beyond := by
    rw [quiet.entries i]
    by_cases used : i < tlb.count
    · exact quiet.dropped i beyond used
    · exact formed.unused i (by omega)
  registers i valid register := by
    rw [quiet.entries i] at valid register
    exact formed.registers i valid register
  bounded := Nat.le_trans quiet.count formed.bounded
  replaceBounded := quiet.replace formed.replaceBounded
  hints := quiet.hints formed.hints

/-- Invalidating a slot keeps the shape of a TLB. -/
theorem Tlb.WellFormed.retire (formed : tlb.WellFormed model isData) (slot : Nat) :
    (tlb.retire slot).WellFormed model isData where
  sized i valid := by
    by_cases here : i = slot
    · rw [here, retire_entry_self] at valid
      exact absurd valid (by simp [TlbEntry.retired])
    · rw [retire_entry_ne _ _ here] at valid ⊢
      exact formed.sized i valid
  unused i beyond := by
    by_cases here : i = slot
    · rw [here, retire_entry_self]
      rfl
    · rw [retire_entry_ne _ _ here]
      exact formed.unused i (by simpa using beyond)
  registers i valid register := by
    by_cases here : i = slot
    · rw [here, retire_entry_self] at valid
      exact absurd valid (by simp [TlbEntry.retired])
    · rw [retire_entry_ne _ _ here] at valid register
      exact formed.registers i valid register
  bounded := by simpa using formed.bounded
  replaceBounded := by
    have kept : (tlb.retire slot).replace = tlb.replace := by
      simp [Tlb.retire, Tlb.set]
    rw [kept]
    exact formed.replaceBounded
  hints :=
    hintsSound_rewrite (hintsSound_discardPendingPurge formed.hints slot) slot _ rfl

/-- Filling a slot keeps the shape of a TLB. -/
theorem Tlb.WellFormed.place (formed : tlb.WellFormed model isData) {slot : Nat} {entry : TlbEntry}
    (sized : entry.Sized) (inside : slot < model.tlbCapacity isData)
    (register : entry.isTr → slot < model.trCount isData) :
    (tlb.place slot entry).WellFormed model isData where
  sized i valid := by
    by_cases here : i = slot
    · rw [here, place_entry_self]
      exact sized
    · rw [place_entry_ne _ _ _ here] at valid ⊢
      exact formed.sized i valid
  unused i beyond := by
    rw [place_count] at beyond
    have apart : i ≠ slot := by
      split at beyond <;> omega
    rw [place_entry_ne _ _ _ apart]
    refine formed.unused i ?_
    split at beyond <;> omega
  registers i valid isRegister := by
    by_cases here : i = slot
    · rw [here, place_entry_self] at isRegister
      exact here ▸ register isRegister
    · rw [place_entry_ne _ _ _ here] at valid isRegister
      exact formed.registers i valid isRegister
  bounded := by
    rw [place_count]
    have bound := formed.bounded
    split <;> omega
  replaceBounded := by
    have kept : (tlb.place slot entry).replace = tlb.replace := by
      simp [Tlb.place, Tlb.set]
    rw [kept]
    exact formed.replaceBounded
  hints := by
    -- The used range plays no part in the hints.
    have counted :
        ({ tlb with count := if tlb.count ≤ slot then slot + 1 else tlb.count } : Tlb).HintsSound :=
      formed.hints
    exact hintsSound_rewrite counted slot _ rfl

end Shape

section State

variable {strict : Prop} {before after : State}

variable {isData : Bool} {tlb : Tlb} {slot : Nat}

theorem setTlb_wellFormed {mmu : State} (formed : ∀ side, (mmu.tlb side).WellFormed mmu.model side)
    (shape : tlb.WellFormed mmu.model isData) (side : Bool) :
    ((mmu.setTlb isData tlb).tlb side).WellFormed (mmu.setTlb isData tlb).model side := by
  rw [setTlb_model]
  by_cases same : side = isData
  · subst same
    rw [setTlb_tlb]
    exact shape
  · have other : side = !isData := by
      cases side <;> cases isData <;> simp_all
    rw [other, setTlb_tlb_not]
    exact formed _

@[simp] theorem setTlb_dtlb1Enabled (mmu : State) (isData : Bool) (tlb : Tlb) :
    (mmu.setTlb isData tlb).dtlb1Enabled = mmu.dtlb1Enabled := by
  simp [dtlb1Enabled]

/-- Copies stay backed while the registers they copy stay. -/
theorem copiesBacked_setTlb (backed : before.CopiesBacked) (isData : Bool) (tlb : Tlb)
    (kept : isData → ∀ i j, (before.l1.entry i).valid → (before.data.entry j).valid →
      (before.data.entry j).isTr → (before.l1.entry i).equivalent (before.data.entry j) →
      (tlb.entry j).valid ∧ (tlb.entry j).isTr ∧
        (before.l1.entry i).equivalent (tlb.entry j)) :
    (before.setTlb isData tlb).CopiesBacked := by
  intro i valid
  rw [setTlb_l1] at valid ⊢
  obtain ⟨enabled, inside, sized, copied⟩ := backed i valid
  refine ⟨by simpa using enabled, inside, sized, fun register => ?_⟩
  obtain ⟨j, live, isRegister, same⟩ := copied register
  cases isData with
  | false => exact ⟨j, live, isRegister, same⟩
  | true => exact ⟨j, kept rfl i j valid live isRegister same⟩

theorem copiesBacked_setTlb_slot (backed : before.CopiesBacked)
    (others : ∀ j, j ≠ slot → tlb.entry j = (before.tlb isData).entry j)
    (uncopied : isData → before.Uncopied ((before.tlb isData).entry slot)) :
    (before.setTlb isData tlb).CopiesBacked := by
  refine copiesBacked_setTlb backed isData tlb fun data i j _ live register same => ?_
  subst data
  have apart : j ≠ slot := by
    rintro rfl
    have gone := uncopied rfl live register i
    exact absurd (gone.symm.trans same) (by decide)
  rw [others j apart]
  exact ⟨live, register, same⟩

/-- Every elementary change keeps the shape of the unit. -/
theorem Change.wellFormed (change : Change strict before after) (formed : before.WellFormed) :
    after.WellFormed := by
  cases change with
  | shed same copies _ =>
    rw [same]
    refine ⟨formed.tlbs, fun i valid => ?_⟩
    have kept := copies i valid
    have old : (before.l1.entry i).valid := kept ▸ valid
    show _ ∧ _ ∧ (after.l1.entry i).Sized ∧ ((after.l1.entry i).isTr → ∃ j, _ ∧ _ ∧
      (after.l1.entry i).equivalent (before.data.entry j))
    rw [kept]
    exact formed.copies i old
  | control same =>
    rw [same]
    exact ⟨formed.tlbs, formed.copies⟩
  | region rr =>
    refine ⟨fun isData => ?_, fun i valid => ?_⟩
    · have shape := (formed.tlbs isData).quiet ((before.tlb isData).quiet_bumpGeneration _)
      cases isData <;> exact shape
    · obtain ⟨enabled, inside, sized, copied⟩ := formed.copies i valid
      refine ⟨enabled, inside, sized, fun register => ?_⟩
      simpa only [bumpGeneration_entry] using copied register
  | quiet isData quiet =>
    refine ⟨setTlb_wellFormed formed.tlbs ((formed.tlbs isData).quiet quiet), ?_⟩
    refine copiesBacked_setTlb formed.copies isData _ fun data i j _ live register same => ?_
    subst data
    rw [quiet.entries j]
    exact ⟨live, register, same⟩
  | retire isData slot _ uncopied =>
    exact ⟨setTlb_wellFormed formed.tlbs ((formed.tlbs isData).retire slot),
      copiesBacked_setTlb_slot formed.copies (fun j apart => retire_entry_ne _ _ apart) uncopied⟩
  | place isData slot entry sized inside register _ uncopied =>
    exact ⟨setTlb_wellFormed formed.tlbs ((formed.tlbs isData).place sized inside register),
      copiesBacked_setTlb_slot formed.copies (fun j apart => place_entry_ne _ _ _ apart) uncopied⟩
  | copy l1 enabled copies =>
    refine ⟨formed.tlbs, fun i valid => ?_⟩
    rcases copies i valid with old | ⟨inside, j, copied⟩
    · have held : (before.l1.entry i).valid := old ▸ valid
      show _ ∧ _ ∧ (l1.entry i).Sized ∧ ((l1.entry i).isTr → ∃ j, _ ∧ _ ∧
        (l1.entry i).equivalent (before.data.entry j))
      rw [old]
      exact formed.copies i held
    · have live : (before.data.entry j).valid := copied ▸ valid
      refine ⟨enabled, inside, ?_, fun register => ⟨j, live, ?_, ?_⟩⟩
      · show (l1.entry i).Sized
        rw [copied]
        exact (formed.tlbs true).sized j live
      · exact copied ▸ register
      · show (l1.entry i).equivalent (before.data.entry j) = true
        rw [copied]
        simp [TlbEntry.equivalent, live]
  | install idx page host _ => exact ⟨formed.tlbs, formed.copies⟩

theorem Changes.model (changes : Changes strict before after) : after.model = before.model := by
  induction changes with
  | refl => rfl
  | tail _ change kept =>
    rw [← kept]
    cases change with
    | shed same _ _ => exact same.model
    | control same => rw [same]
    | region rr => rfl
    | quiet isData _ => exact setTlb_model _ _ _
    | retire isData _ _ _ => exact setTlb_model _ _ _
    | place isData _ _ _ _ _ _ _ => exact setTlb_model _ _ _
    | copy l1 _ _ => rfl
    | install _ _ _ _ => rfl

theorem Changes.wellFormed (changes : Changes strict before after) (formed : before.WellFormed) :
    after.WellFormed := by
  induction changes with
  | refl => exact formed
  | tail _ change kept => exact change.wellFormed kept

theorem Backed.setTlb {page : Word} {host : HostEntry} {isData : Bool} {tlb : Tlb}
    (backed : before.Backed page host)
    (kept : ∀ i, ((before.tlb isData).entry i).covers page (before.regionRid page) →
      (tlb.entry i).covers page (before.regionRid page) ∧
        (tlb.entry i).physOf page = ((before.tlb isData).entry i).physOf page) :
    (before.setTlb isData tlb).Backed page host := by
  obtain ⟨i, covered, address⟩ := backed
  have region : (before.setTlb isData tlb).regionRid page = before.regionRid page := by
    simp [regionRid]
  by_cases side : (!host.prot.exec) = isData
  · rw [side] at covered address
    refine ⟨i, ?_, ?_⟩
    · rw [side, region, setTlb_tlb]
      exact (kept i covered).1
    · rw [side, setTlb_tlb, (kept i covered).2]
      exact address
  · have other : (!host.prot.exec) = !isData := by
      cases isData <;> simp_all
    refine ⟨i, ?_, ?_⟩
    · rw [other, region, setTlb_tlb_not, ← other]
      exact covered
    · rw [other, setTlb_tlb_not, ← other]
      exact address

theorem Backed.setTlb_slot {idx : Nat} {page : Word} {host : HostEntry}
    (backed : before.Backed page host) (translated : translatedIdx idx)
    (present : before.host idx page = some host)
    (others : ∀ j, j ≠ slot → tlb.entry j = (before.tlb isData).entry j)
    (unserved : before.Unserved ((before.tlb isData).entry slot)) :
    (before.setTlb isData tlb).Backed page host := by
  refine Backed.setTlb backed fun i covered => ?_
  have apart : i ≠ slot := by
    rintro rfl
    have gone := unserved idx page host translated present
    exact absurd (gone.symm.trans covered) (by decide)
  rw [others i apart]
  exact ⟨covered, rfl⟩

/-- Every strict change keeps the software TLB backed. -/
theorem Change.hostBacked (change : Change strict before after) (holds : strict)
    (backed : before.HostBacked) : after.HostBacked := by
  cases change with
  | shed same _ host =>
    intro idx page entry translated present
    have old := backed idx page entry translated (host idx page entry present)
    rw [same]
    exact old
  | control same =>
    rw [same]
    exact backed
  | region rr =>
    intro idx page entry _ present
    exact absurd present (by simp)
  | quiet isData quiet =>
    intro idx page entry translated present
    rw [setTlb_host] at present
    refine Backed.setTlb (backed idx page entry translated present) fun i covered => ?_
    rw [quiet.entries i]
    exact ⟨covered, rfl⟩
  | retire isData slot unserved _ =>
    intro idx page entry translated present
    rw [setTlb_host] at present
    exact Backed.setTlb_slot (backed idx page entry translated present) translated present
      (fun j apart => retire_entry_ne _ _ apart) (unserved holds)
  | place isData slot new _ _ _ unserved _ =>
    intro idx page entry translated present
    rw [setTlb_host] at present
    exact Backed.setTlb_slot (backed idx page entry translated present) translated present
      (fun j apart => place_entry_ne _ _ _ apart) (unserved holds)
  | copy l1 _ _ => exact backed
  | install at_ newPage new supported =>
    intro idx page entry translated present
    by_cases here : idx = at_ ∧ page = newPage
    · obtain ⟨rfl, rfl⟩ := here
      have same : new = entry := by simpa using present
      subst same
      exact supported holds translated
    · refine backed idx page entry translated ?_
      simpa [here] using present

theorem Changes.hostBacked (changes : Changes strict before after) (holds : strict)
    (backed : before.HostBacked) : after.HostBacked := by
  induction changes with
  | refl => exact backed
  | tail _ change kept => exact change.hostBacked holds kept

end State

end Ia64.Mmu
