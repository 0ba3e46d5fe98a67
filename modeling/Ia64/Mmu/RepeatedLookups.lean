import Ia64.Mmu.LookupSteps
import Ia64.Mmu.Protection

/-! A lookup repeated at once finds the same slot and changes nothing more. -/

namespace Ia64.Mmu

open Sweep State

section Again

variable (mmu : State) (va : Word) (rid : BitVec 32) (isIfetch : Bool)

/-- A first-level hint looked up again answers the same. -/
theorem dtlb1Lookup_again :
    (mmu.dtlb1Lookup va rid).2.dtlb1Lookup va rid = mmu.dtlb1Lookup va rid := by
  set hint := mmu.l1.lookup (dtlb1LookupIndex (dtlb1LookupPage va) rid) with hint_def
  by_cases miss : (!hint.valid || hint.page != dtlb1LookupPage va || hint.rid != rid ||
      decide (dtlb1Max ≤ hint.slot))
  · have same : mmu.dtlb1Lookup va rid = (none, mmu) := by
      simp [dtlb1Lookup, ← hint_def, miss]
    rw [same, same]
  · by_cases wrong : (!(mmu.l1.entry hint.slot).matches va rid)
    · -- A dropped hint is invalid, so it is not followed again.
      simp [dtlb1Lookup, ← hint_def, miss, wrong]
    · have same : mmu.dtlb1Lookup va rid = (some hint.slot, mmu) := by
        simp [dtlb1Lookup, ← hint_def, miss, wrong]
      rw [same, same]

/-- The lookup of the first level that a full lookup starts with. -/
def State.firstLevel (mmu : State) (va : Word) (rid : BitVec 32) (isIfetch : Bool) :
    Option Nat × State :=
  if !isIfetch && mmu.dtlb1Enabled then mmu.dtlb1Lookup va rid else (none, mmu)

theorem firstLevel_again :
    (mmu.firstLevel va rid isIfetch).2.firstLevel va rid isIfetch =
      mmu.firstLevel va rid isIfetch := by
  have enabled : (mmu.dtlb1Lookup va rid).2.dtlb1Enabled = mmu.dtlb1Enabled := by
    unfold dtlb1Lookup
    dsimp only
    split_ifs <;> rfl
  unfold firstLevel
  by_cases on : (!isIfetch && mmu.dtlb1Enabled)
  · simp [on, enabled, dtlb1Lookup_again]
  · simp [on]

theorem firstLevel_tlb : (mmu.firstLevel va rid isIfetch).2.tlb = mmu.tlb := by
  unfold firstLevel dtlb1Lookup
  dsimp only
  split_ifs <;> rfl

theorem tlbFindSlow_firstLevel :
    (mmu.firstLevel va rid isIfetch).2.tlbFindSlow va rid isIfetch =
      mmu.tlbFindSlow va rid isIfetch := by
  have again := firstLevel_again mmu va rid isIfetch
  unfold firstLevel at again ⊢
  conv_lhs => unfold tlbFindSlow
  conv_rhs => unfold tlbFindSlow
  rw [again]

theorem tlbFindCached_direct {mmu : State} {va : Word} {rid : BitVec 32} {isIfetch : Bool}
    (hit : (mmu.tlb !isIfetch).hintHits ((mmu.tlb !isIfetch).micro (microTlbIndex va rid)) va rid) :
    mmu.tlbFindCached va rid isIfetch =
      (some ((mmu.tlb !isIfetch).entry ((mmu.tlb !isIfetch).micro (microTlbIndex va rid)).slot),
        mmu) := by
  simp [tlbFindCached, hit]

/-- The hint for a slot leads back to it. -/
theorem remember_hits {tlb : Tlb} {slot : Nat} (scanned : tlb.scan va rid = some slot) :
    (tlb.remember va rid slot).hintHits ((tlb.remember va rid slot).micro (microTlbIndex va rid))
      va rid ∧ ((tlb.remember va rid slot).micro (microTlbIndex va rid)).slot = slot := by
  obtain ⟨below, covers, -⟩ := firstSlot_eq_some_iff.1 scanned
  simp only [TlbEntry.covers, Bool.and_eq_true, beq_iff_eq] at covers
  obtain ⟨⟨rids, -⟩, inside⟩ := covers
  have kept : (tlb.remember va rid slot).generation = tlb.generation ∧
      (tlb.remember va rid slot).count = tlb.count := by
    unfold Tlb.remember
    dsimp only
    split_ifs <;> exact ⟨rfl, rfl⟩
  have hint : (tlb.remember va rid slot).micro (microTlbIndex va rid) =
      ⟨(tlb.entry slot).va, (tlb.entry slot).pageMask, (tlb.entry slot).pte, (tlb.entry slot).rid,
        tlb.generation, (tlb.entry slot).microGeneration, slot, true⟩ := by
    simp [Tlb.remember]
  refine ⟨?_, by rw [hint]⟩
  rw [hint, Tlb.hintHits, (remember_slots va rid _ _).1, kept.1, kept.2]
  simp [rids, inside, below]

/-- A full lookup remembers the slot it found. -/
theorem tlbFindSlow_state :
    (mmu.tlbFindSlow va rid isIfetch).2 = (mmu.firstLevel va rid isIfetch).2 ∨
      ∃ slot, (mmu.tlb !isIfetch).scan va rid = some slot ∧
        mmu.tlbFindSlow va rid isIfetch =
          (some ((mmu.tlb !isIfetch).entry slot),
            (mmu.firstLevel va rid isIfetch).2.setTlb (!isIfetch)
              ((mmu.tlb !isIfetch).remember va rid slot)) := by
  have kept := firstLevel_tlb mmu va rid isIfetch
  unfold tlbFindSlow
  unfold firstLevel at kept ⊢
  generalize (if (!isIfetch && mmu.dtlb1Enabled) = true then mmu.dtlb1Lookup va rid
    else (none, mmu)) = answer at kept ⊢
  obtain ⟨cached, looked⟩ := answer
  dsimp only at kept ⊢
  rw [kept]
  split
  · exact Or.inl rfl
  · split
    · rename_i slot scanned
      exact Or.inr ⟨slot, scanned, rfl⟩
    · exact Or.inl rfl

/-- A lookup repeated answers the same. -/
theorem tlbFindCached_again :
    (mmu.tlbFindCached va rid isIfetch).2.tlbFindCached va rid isIfetch =
      mmu.tlbFindCached va rid isIfetch := by
  by_cases hit : (mmu.tlb !isIfetch).hintHits
    ((mmu.tlb !isIfetch).micro (microTlbIndex va rid)) va rid
  · rw [tlbFindCached_direct hit, tlbFindCached_direct hit]
  · cases displaced : firstSlot 4 fun i =>
      (mmu.tlb !isIfetch).hintHits ((mmu.tlb !isIfetch).victim i) va rid with
    | some i =>
      -- The displaced hint that hit is the direct one now.
      obtain ⟨-, hits, -⟩ := firstSlot_eq_some_iff.1 displaced
      have found : mmu.tlbFindCached va rid isIfetch =
          (some ((mmu.tlb !isIfetch).entry ((mmu.tlb !isIfetch).victim i).slot),
            mmu.setTlb (!isIfetch)
              { mmu.tlb !isIfetch with
                micro := Function.update (mmu.tlb !isIfetch).micro (microTlbIndex va rid)
                  ((mmu.tlb !isIfetch).victim i)
                victim := Function.update (mmu.tlb !isIfetch).victim i
                  ((mmu.tlb !isIfetch).micro (microTlbIndex va rid)) }) := by
        simp [tlbFindCached, hit, displaced]
      rw [found, tlbFindCached_direct]
      · simp [setTlb_tlb]
      · simp only [setTlb_tlb, Function.update_self]
        exact hits
    | none =>
      have slow : ∀ other : State, other.tlb = mmu.tlb →
          other.tlbFindCached va rid isIfetch = other.tlbFindSlow va rid isIfetch := by
        intro other tlbs
        simp [tlbFindCached, tlbs, hit, displaced]
      rw [slow mmu rfl]
      rcases tlbFindSlow_state mmu va rid isIfetch with unchanged | ⟨slot, scanned, answer⟩
      · -- Nothing new is remembered: the same full lookup is made again.
        rw [unchanged, slow _ (firstLevel_tlb mmu va rid isIfetch), tlbFindSlow_firstLevel]
      · -- The slot found is remembered, and the hint leads back to it.
        obtain ⟨hits, slots⟩ := remember_hits va rid scanned
        rw [answer, tlbFindCached_direct (by rw [setTlb_tlb]; exact hits), setTlb_tlb, slots,
          (remember_slots va rid _ _).1]

end Again

end Ia64.Mmu
