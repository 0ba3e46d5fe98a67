import Ia64.Lib.XorFold
import Ia64.Mmu.Vhpt

/-! The long-format page table: an entry's address and tag together identify region and page. -/

namespace Ia64.Mmu

open BitVec

variable {implVaMsb i : Nat}

theorem hpn_getLsbD (narrow : implVaMsb ≤ 60) (rr va : Word) (high : 49 ≤ i) :
    (hpn implVaMsb rr va).getLsbD i = false := by
  have shift : 12 ≤ preferredPs rr := by
    unfold preferredPs
    split <;> omega
  -- The shift takes the bits from above the implemented address.
  rw [hpn, implementedVaPayload, getLsbD_ushiftRight, getLsbD_and,
    Pages.getLsbD_pageSize_sub_one (by omega)]
  simp [show ¬preferredPs rr + i < implVaMsb + 1 by omega]

theorem rrRid_getLsbD (rr : Word) (high : 24 ≤ i) :
    ((rrRid rr).setWidth 64).getLsbD i = false := by
  rw [getLsbD_setWidth, rrRid, getLsbD_setWidth, getLsbD_of_ge (rr.extractLsb' 8 24) i high]
  simp

theorem hash_getLsbD {size : Nat} {pta rr₁ rr₂ va₁ va₂ : Word} (large : 15 ≤ size)
    (small : size ≤ 61)
    (sameAddress : longHashAddress implVaMsb pta rr₁ va₁ size =
      longHashAddress implVaMsb pta rr₂ va₂ size) (indexed : i < size - 5) :
    (hpn implVaMsb rr₁ va₁ ^^^ (rrRid rr₁).setWidth 64).getLsbD i =
      (hpn implVaMsb rr₂ va₂ ^^^ (rrRid rr₂).setWidth 64).getLsbD i := by
  have bit := congrArg (·.getLsbD (i + 5)) sameAddress
  -- Bits of the offset lie inside the table, where the base has none.
  have inside : decide (i + 5 < size) := decide_eq_true (by omega)
  have width : decide (i + 5 < 64) := decide_eq_true (by omega)
  simp only [longHashAddress, getLsbD_or, getLsbD_and, getLsbD_not,
    getLsbD_shiftLeft, Pages.getLsbD_pageSize_sub_one (show size < 64 by omega),
    Pages.getLsbD_pageSize_sub_one (show size - 5 < 64 by omega), inside, width,
    show ¬i + 5 < 5 by omega, show i + 5 - 5 = i by omega, indexed, decide_true, decide_false,
    Bool.not_true, Bool.not_false, Bool.and_false, Bool.and_true, Bool.true_and,
      Bool.false_or] at bit
  exact bit

/-- Long-format entries with the same address and the same tag belong to the same region and page,
for every address width and every size of the table. -/
theorem longFormat_identifies (implVaMsb size : Nat) (pta rr₁ rr₂ va₁ va₂ : Word)
    (narrow : implVaMsb ≤ 60) (large : 15 ≤ size) (small : size ≤ 61)
    (sameTag : longTag implVaMsb rr₁ va₁ = longTag implVaMsb rr₂ va₂)
    (sameAddress : longHashAddress implVaMsb pta rr₁ va₁ size =
      longHashAddress implVaMsb pta rr₂ va₂ size) :
    rrRid rr₁ = rrRid rr₂ ∧ hpn implVaMsb rr₁ va₁ = hpn implVaMsb rr₂ va₂ := by
  -- Ten bits of the page number overlap the shifted identifier, and the index of every table covers
  -- them.
  obtain ⟨rids, pages⟩ := XorFold.eq_of_tag_of_index 39 10 (by decide) sameTag
    (fun i below => hash_getLsbD large small sameAddress (by omega))
    (fun i high => hpn_getLsbD narrow rr₁ va₁ high) (fun i high => hpn_getLsbD narrow rr₂ va₂ high)
    (fun i high => rrRid_getLsbD rr₁ (by omega)) (fun i high => rrRid_getLsbD rr₂ (by omega))
  refine ⟨?_, pages⟩
  -- Widening the identifiers for the hash loses nothing.
  have narrowed := congrArg (setWidth 32) rids
  rwa [setWidth_setWidth_of_le _ (by decide), setWidth_setWidth_of_le _ (by decide),
    setWidth_eq, setWidth_eq] at narrowed

/-- Two addresses of one page in a region with 16 KiB pages, in the smallest table. -/
theorem longFormat_identifies_smallest :
    rrRid 0x1234538 = rrRid 0x1234538 ∧ hpn 50 0x1234538 0x5000 = hpn 50 0x1234538 0x6000 :=
  longFormat_identifies 50 15 0x13c 0x1234538 0x1234538 0x5000 0x6000 (by decide)
    (by decide) (by decide) (by decide) (by decide)

end Ia64.Mmu
