import Ia64.Mmu.Entry

/-! Lookup and overlap of entries, as statements about pages. -/

namespace Ia64.Mmu

open Pages BitVec

/-- The page shift of an entry is one that can be inserted on some processor. -/
def TlbEntry.HasShift (entry : TlbEntry) (shift : Nat) : Prop :=
  12 ≤ shift ∧ shift < 61 ∧ entry.ps = pageSize 64 shift

/-- The entry has a page size that can be inserted. -/
def TlbEntry.Sized (entry : TlbEntry) : Prop := ∃ shift, entry.HasShift shift

variable {shift : Nat}

theorem getLsbD_vaVpnMask (narrow : shift < 64) (i : Nat) :
    (vaVpnMask (pageSize 64 shift)).getLsbD i = decide (shift ≤ i ∧ i < 61) := by
  have region : region7PhysMask = pageSize 64 61 - 1 := by decide
  rw [vaVpnMask, getLsbD_and, getLsbD_not, getLsbD_pageSize_sub_one narrow, region,
    getLsbD_pageSize_sub_one (by decide)]
  by_cases low : i < 61
  · by_cases inside : i < shift
    · simp [low, inside, Nat.not_le.mpr inside]
    · simp [low, inside, Nat.not_lt.mp inside, show i < 64 by omega]
  · simp [low]

theorem masked_xor_eq_zero_iff (narrow : shift < 64) (x y : Word) :
    (x ^^^ y) &&& vaVpnMask (pageSize 64 shift) = 0 ↔ SamePage shift 61 x y := by
  rw [xor_and_eq_zero_iff]
  constructor
  · intro agree i above below
    exact agree i (by rw [getLsbD_vaVpnMask narrow]; simp [above, below])
  · intro same i selected
    rw [getLsbD_vaVpnMask narrow, decide_eq_true_eq] at selected
    exact same i selected.1 selected.2

theorem vaPageBase_samePage (narrow : shift < 64) (va : Word) :
    SamePage shift 61 (vaPageBase va (pageSize 64 shift)) va := by
  intro i above below
  rw [vaPageBase, getLsbD_and, getLsbD_vaVpnMask narrow]
  simp [above, below]

theorem clearOffset_samePage (narrow : shift < 64) (va : Word) :
    SamePage shift 61 (va &&& ~~~(pageSize 64 shift - 1)) va := by
  intro i above below
  rw [getLsbD_and, getLsbD_not, getLsbD_pageSize_sub_one narrow]
  simp [show ¬i < shift by omega, show i < 64 by omega]

theorem pageSize_ne_zero (narrow : shift < 64) : pageSize 64 shift ≠ 0 := by
  intro zero
  have value := congrArg BitVec.toNat zero
  rw [pageSize_toNat narrow] at value
  have positive := Nat.two_pow_pos shift
  simp at value

namespace TlbEntry

variable {entry : TlbEntry} {shift : Nat}

theorem covers_iff (sized : entry.HasShift shift) (va : Word) (rid : BitVec 32) :
    entry.covers va rid ↔
      entry.valid ∧ entry.rid = rid ∧ SamePage shift 61 va entry.va := by
  obtain ⟨-, narrow, size⟩ := sized
  rw [covers, pageMask, size, ← masked_xor_eq_zero_iff (show shift < 64 by omega)]
  simp only [Bool.and_eq_true, beq_iff_eq]
  constructor
  · rintro ⟨⟨region, valid⟩, same⟩
    exact ⟨valid, region, same⟩
  · rintro ⟨valid, region, same⟩
    exact ⟨⟨region, valid⟩, same⟩

theorem matches_eq_covers (sized : entry.HasShift shift) (va : Word) (rid : BitVec 32) :
    entry.matches va rid = entry.covers va rid := by
  have nonzero : (entry.ps != 0) := by
    rw [sized.2.2]
    have narrow := sized.2.1
    simpa using pageSize_ne_zero (show shift < 64 by omega)
  rw [TlbEntry.matches, covers, nonzero, Bool.and_true, Bool.and_comm (entry.rid == rid)]

variable {size : Nat} {base : Word} {rid : BitVec 32}

/-- An entry meets a page iff it has an address there. -/
theorem overlaps_iff (sized : entry.HasShift shift) (small : size < 64) (va : Word)
    (rid : BitVec 32) :
    entry.overlaps (vaPageBase va (pageSize 64 size)) (pageSize 64 size) rid ↔
      entry.valid ∧ entry.rid = rid ∧ SamePage (max shift size) 61 entry.va va := by
  obtain ⟨-, narrow, stored⟩ := sized
  have nonzero : (entry.ps != 0) := by
    rw [stored]
    simpa using pageSize_ne_zero (show shift < 64 by omega)
  have larger : (if pageSize 64 size ≤ entry.ps then entry.pageMask
      else vaVpnMask (pageSize 64 size)) = vaVpnMask (pageSize 64 (max shift size)) := by
    have sizes : pageSize 64 size ≤ pageSize 64 shift ↔ size ≤ shift :=
      pageSize_le_iff (by omega) (by omega)
    rw [pageMask, stored]
    by_cases order : size ≤ shift
    · rw [if_pos (sizes.mpr order), max_eq_left order]
    · rw [if_neg (fun le => order (sizes.mp le)), max_eq_right (by omega)]
  have base : SamePage (max shift size) 61 (vaPageBase va (pageSize 64 size)) va :=
    (vaPageBase_samePage (by omega) va).mono (le_max_right _ _)
  have pages : (entry.va ^^^ vaPageBase va (pageSize 64 size)) &&&
        vaVpnMask (pageSize 64 (max shift size)) = 0 ↔
          SamePage (max shift size) 61 entry.va va := by
    rw [masked_xor_eq_zero_iff (by omega)]
    exact ⟨fun same => same.trans base, fun same => same.trans base.symm⟩
  rw [overlaps, larger, ← pages]
  simp only [nonzero, Bool.and_eq_true, beq_iff_eq, and_true]
  constructor
  · rintro ⟨⟨region, valid⟩, same⟩
    exact ⟨valid, region, same⟩
  · rintro ⟨valid, region, same⟩
    exact ⟨⟨region, valid⟩, same⟩

theorem overlaps_of_covers (sized : entry.HasShift shift) (small : size < 64)
    {va : Word} (covered : entry.covers va rid)
    (inside : SamePage size 61 va base) :
    entry.overlaps (vaPageBase base (pageSize 64 size)) (pageSize 64 size) rid := by
  obtain ⟨valid, region, same⟩ := (covers_iff sized va rid).mp covered
  refine (overlaps_iff sized small base rid).mpr ⟨valid, region, ?_⟩
  exact (same.symm.mono (le_max_left _ _)).trans (inside.mono (le_max_right _ _))

theorem exists_covers_of_overlaps (sized : entry.HasShift shift) (small : size < 64)
        (meets : entry.overlaps (vaPageBase base (pageSize 64 size)) (pageSize 64 size) rid) :
    ∃ va, SamePage size 61 va base ∧ entry.covers va rid := by
  obtain ⟨valid, region, same⟩ := (overlaps_iff sized small base rid).mp meets
  obtain ⟨va, inEntry, inPage⟩ := pages_meet_iff.mpr same
  exact ⟨va, inPage, (covers_iff sized va rid).mpr ⟨valid, region, inEntry⟩⟩

end TlbEntry

end Ia64.Mmu
