import Ia64.Mmu.ChangeLaws

/-! Flushes of the software TLB and of the first level, and changes of marks and hints. -/

namespace Ia64.Mmu

open Pages Sweep

variable {before after : State} {entry : TlbEntry}

theorem Sheds.change {strict : Prop} (sheds : Sheds before after) :
    Change strict before after :=
  .shed sheds.same sheds.copies sheds.host

theorem State.Unserved.shed (unserved : before.Unserved entry)
    (sheds : Sheds before after) : after.Unserved entry := by
  intro idx page host translated present
  have region : after.regionRid page = before.regionRid page := by
    simp [State.regionRid, sheds.same.rr]
  rw [region]
  exact unserved idx page host translated (sheds.host idx page host present)

theorem unserved_of_invalid (mmu : State) (invalid : entry.valid = false) :
    mmu.Unserved entry := by
  intro idx page host _ _
  simp [TlbEntry.covers, invalid]

/-- A covered page lies in the flushed range. -/
theorem covered_mem_flushRange {shift : Nat} (sized : entry.HasShift shift) {page : Word}
    {rid : BitVec 32} (covered : entry.covers page rid) :
    page - ((BitVec.ofNat 64 (rrIndex page) <<< 61) ||| vaPageBase entry.va entry.ps) <
      entry.ps := by
  obtain ⟨-, -, samePage⟩ := (TlbEntry.covers_iff sized page rid).mp covered
  obtain ⟨-, narrow, size⟩ := sized
  have inWord : shift < 64 := by omega
  have region : ∀ i, 61 ≤ i → i < 64 →
      (BitVec.ofNat 64 (rrIndex page) <<< 61).getLsbD i = page.getLsbD i := by
    intro i above below
    rw [BitVec.getLsbD_shiftLeft]
    have place : i = 61 + (i - 61) := by omega
    have digit : (BitVec.ofNat 64 (rrIndex page)).getLsbD (i - 61) = page.getLsbD i := by
      rw [rrIndex, BitVec.ofNat_toNat, BitVec.getLsbD_setWidth, BitVec.getLsbD_extractLsb', ← place]
      simp [show i - 61 < 64 by omega, show i - 61 < 3 by omega]
    simp [show ¬i < 61 by omega, below, digit]
  have below61 : ∀ i, i < 61 → (BitVec.ofNat 64 (rrIndex page) <<< 61).getLsbD i = false := by
    intro i below
    rw [BitVec.getLsbD_shiftLeft]
    simp [below]
  have base : ∀ i, (vaPageBase entry.va entry.ps).getLsbD i =
      (entry.va.getLsbD i && decide (shift ≤ i ∧ i < 61)) := by
    intro i
    rw [vaPageBase, size, BitVec.getLsbD_and, getLsbD_vaVpnMask inWord]
  -- The page and the start of the range agree from the page shift up.
  have offset := sub_base_eq_offset inWord (x := page)
    (show SamePage shift 64 page
        ((BitVec.ofNat 64 (rrIndex page) <<< 61) ||| vaPageBase entry.va entry.ps) by
      intro i above below
      rw [BitVec.getLsbD_or, base]
      by_cases low : i < 61
      · rw [below61 i low, samePage i above low]
        simp [above, low]
      · rw [region i (by omega) below]
        simp [low])
    (by
      intro i inside
      rw [BitVec.getLsbD_or, base, below61 i (by omega)]
      simp [show ¬shift ≤ i by omega])
  rw [offset, size]
  exact offset_lt_pageSize inWord page

/-- After a flush no page of the entry is left. -/
theorem unserved_flushEntry (mmu : State) (sized : entry.valid → entry.Sized) :
    (mmu.qemuTlbFlushEntry entry).Unserved entry := by
  cases valid : entry.valid with
  | false => exact unserved_of_invalid _ valid
  | true =>
    obtain ⟨shift, shaped⟩ := sized valid
    intro idx page host translated present
    have large : ¬entry.ps < 4096 := by
      rw [shaped.2.2, BitVec.not_lt, show (4096 : Word) = pageSize 64 12 from by decide,
        pageSize_le_iff (by decide) (by have := shaped.2.1; omega)]
      exact shaped.1
    by_contra covered
    simp only [Bool.not_eq_false] at covered
    have region : (mmu.qemuTlbFlushEntry entry).regionRid page = mmu.regionRid page := by
      simp [State.regionRid, (sheds_flushEntry mmu entry).same.rr]
    rw [region] at covered
    have matching : entry.rid = rrRid (mmu.rr (rrIndex page)) :=
      ((TlbEntry.covers_iff shaped page _).mp covered).2.1
    have index : rrIndex page < 8 := BitVec.isLt _
    -- The page leaves at the visit of its own region and no later visit brings it back.
    have gone : (mmu.qemuTlbFlushEntry entry).host idx page = none := by
      simp only [State.qemuTlbFlushEntry, valid, large, decide_false, Bool.not_true, Bool.or_self,
        Bool.false_eq_true, if_false]
      refine sweep_induction
        (P := fun region (current : HostTlb) => rrIndex page < region → current idx page = none)
        (fun early => absurd early (Nat.not_lt_zero _)) ?_ index
      intro i _ current removed reached
      by_cases here : rrIndex page = i
      · subst here
        rw [if_neg (by simp [matching])]
        simp [HostTlb.flushRange, translated, covered_mem_flushRange shaped covered]
      · have before := removed (by omega)
        split
        · exact before
        · unfold HostTlb.flushRange
          split
          · rfl
          · exact before
    rw [gone] at present
    exact absurd present (by simp)

end Ia64.Mmu
