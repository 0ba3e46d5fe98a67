import Ia64.Lib.Words
import Mathlib.Data.Nat.Bitwise
import Mathlib.Order.Lattice

/-! Naturally aligned power-of-two pages of a bit-vector address space. -/

namespace Pages

variable {w : Nat}

/-- Two addresses agree on the bits from the page shift up to the given width. -/
def SamePage (shift width : Nat) (x y : BitVec w) : Prop :=
  -- The bits below the shift are the offset inside the page.
  ∀ i, shift ≤ i → i < width → x.getLsbD i = y.getLsbD i

variable {shift width first second : Nat} {x y base : BitVec w}

theorem SamePage.symm (same : SamePage shift width x y) :
    SamePage shift width y x :=
  fun i above below => (same i above below).symm

theorem SamePage.trans {z : BitVec w} (first : SamePage shift width x y)
    (second : SamePage shift width y z) : SamePage shift width x z :=
  fun i above below => (first i above below).trans (second i above below)

theorem SamePage.mono {larger : Nat} (same : SamePage shift width x y)
    (grown : shift ≤ larger) : SamePage larger width x y :=
  fun i above below => same i (Nat.le_trans grown above) below

theorem pages_meet_iff :
    (∃ a, SamePage first width a x ∧ SamePage second width a y) ↔
      SamePage (max first second) width x y := by
  constructor
  · rintro ⟨a, inFirst, inSecond⟩
    exact (inFirst.mono (le_max_left _ _)).symm.trans (inSecond.mono (le_max_right _ _))
  · intro same
    -- The base of the smaller page lies in both.
    rcases Nat.le_total first second with order | order
    · rw [max_eq_right order] at same
      exact ⟨x, fun _ _ _ => rfl, same⟩
    · rw [max_eq_left order] at same
      exact ⟨y, same.symm, fun _ _ _ => rfl⟩

theorem xor_and_eq_zero_iff {mask : BitVec w} :
    (x ^^^ y) &&& mask = 0 ↔ ∀ i, mask.getLsbD i → x.getLsbD i = y.getLsbD i := by
  constructor
  · intro zero i selected
    have bit := congrArg (fun z => z.getLsbD i) zero
    simpa [selected] using bit
  · intro agree
    apply BitVec.eq_of_getLsbD_eq
    intro i _
    cases selected : mask.getLsbD i with
    | false => simp [selected]
    | true => simp [selected, agree i selected]

/-- The size of a page, as the source computes it from the page shift. -/
def pageSize (w shift : Nat) : BitVec w :=
  1#w <<< shift

theorem pageSize_toNat (narrow : shift < w) : (pageSize w shift).toNat = 2 ^ shift := by
  -- The shifted bit is still inside the vector.
  have power := Nat.pow_lt_pow_right (show 1 < 2 by decide) narrow
  have one : 1 % 2 ^ w = 1 := Nat.mod_eq_of_lt (Nat.one_lt_two_pow (by omega))
  rw [pageSize, BitVec.toNat_shiftLeft, BitVec.toNat_ofNat, one, Nat.one_shiftLeft,
    Nat.mod_eq_of_lt power]

theorem pageSize_sub_one_toNat (narrow : shift < w) :
    (pageSize w shift - 1).toNat = 2 ^ shift - 1 := by
  -- The size is positive, so the subtraction does not wrap.
  have power := Nat.pow_lt_pow_right (show 1 < 2 by decide) narrow
  have positive := Nat.two_pow_pos shift
  have one : 1 % 2 ^ w = 1 := Nat.mod_eq_of_lt (Nat.one_lt_two_pow (by omega))
  rw [BitVec.toNat_sub, pageSize_toNat narrow, BitVec.ofNat_eq_ofNat, BitVec.toNat_ofNat, one,
    show 2 ^ w - 1 + 2 ^ shift = 2 ^ w + (2 ^ shift - 1) from by omega, Nat.add_mod_left,
    Nat.mod_eq_of_lt (by omega)]

theorem getLsbD_pageSize_sub_one (narrow : shift < w) (i : Nat) :
    (pageSize w shift - 1).getLsbD i = decide (i < shift) :=
  Words.getLsbD_mask narrow.le i

theorem pageSize_le_iff (narrowFirst : first < w) (narrowSecond : second < w) :
    pageSize w first ≤ pageSize w second ↔ first ≤ second := by
  -- Powers of two are ordered by their exponents.
  rw [BitVec.le_def, pageSize_toNat narrowFirst, pageSize_toNat narrowSecond]
  exact Nat.pow_le_pow_iff_right (by decide)

/-- The offset of an address from its page's base. -/
theorem sub_base_eq_offset (narrow : shift < w)
    (same : SamePage shift w x base) (aligned : ∀ i, i < shift → base.getLsbD i = false) :
    x - base = x &&& (pageSize w shift - 1) := by
  -- The base and the offset have no bit in common, so adding them is joining their bits.
  have split : x = base + (x &&& (pageSize w shift - 1)) := by
    rw [BitVec.add_eq_or_of_and_eq_zero]
    · apply BitVec.eq_of_getLsbD_eq
      intro i inside
      rw [BitVec.getLsbD_or, BitVec.getLsbD_and, getLsbD_pageSize_sub_one narrow]
      by_cases low : i < shift
      · simp [low, aligned i low]
      · simp [low, same i (by omega) inside]
    · apply BitVec.eq_of_getLsbD_eq
      intro i _
      rw [BitVec.getLsbD_and, BitVec.getLsbD_and, getLsbD_pageSize_sub_one narrow]
      by_cases low : i < shift
      · simp [low, aligned i low]
      · simp [low]
  generalize x &&& (pageSize w shift - 1) = offset at split ⊢
  rw [split, BitVec.add_comm, BitVec.add_sub_cancel]

theorem offset_lt_pageSize (narrow : shift < w) (x : BitVec w) :
    (x &&& (pageSize w shift - 1)).toNat < (pageSize w shift).toNat := by
  -- Masking never exceeds the mask, and the mask is one less than the size.
  have positive := Nat.two_pow_pos shift
  have bound : (x &&& (pageSize w shift - 1)).toNat ≤ (pageSize w shift - 1).toNat := by
    rw [BitVec.toNat_and]
    exact Nat.and_le_right
  rw [pageSize_sub_one_toNat narrow] at bound
  rw [pageSize_toNat narrow]
  omega

theorem exists_moved_into (narrow : shift < w)
    (same : SamePage shift width x base) :
    ∃ y, (y &&& ~~~(pageSize w shift - 1)) = (base &&& ~~~(pageSize w shift - 1)) ∧
      SamePage 0 width y x := by
  -- Take the offset of the address and the page of the base.
  refine ⟨(base &&& ~~~(pageSize w shift - 1)) ||| (x &&& (pageSize w shift - 1)), ?_, ?_⟩
  · apply BitVec.eq_of_getLsbD_eq
    intro i inside
    simp only [BitVec.getLsbD_and, BitVec.getLsbD_or, BitVec.getLsbD_not,
      getLsbD_pageSize_sub_one narrow, inside, decide_true, Bool.true_and]
    cases decide (i < shift) <;> simp
  · intro i _ below
    simp only [BitVec.getLsbD_and, BitVec.getLsbD_or, BitVec.getLsbD_not,
      getLsbD_pageSize_sub_one narrow]
    by_cases inside : i < w
    · by_cases offset : i < shift
      · simp [inside, offset]
      · rw [same i (by omega) below]
        simp [offset, inside]
    · simp [BitVec.getLsbD_of_ge x i (by omega), inside]

theorem and_offset_toNat (narrow : shift < w) (x : BitVec w) :
    (x &&& (pageSize w shift - 1)).toNat = x.toNat % 2 ^ shift := by
  -- The mask selects the low bits.
  rw [BitVec.toNat_and, pageSize_sub_one_toNat narrow, Nat.and_two_pow_sub_one_eq_mod]

/-- Clearing the offset rounds down to the page. -/
theorem and_not_offset_toNat (narrow : shift < w) (x : BitVec w) :
    (x &&& ~~~(pageSize w shift - 1)).toNat = x.toNat / 2 ^ shift * 2 ^ shift := by
  -- Shifting the offset out and back clears the same bits.
  have shifted : x &&& ~~~(pageSize w shift - 1) = (x >>> shift) <<< shift := by
    apply BitVec.eq_of_getLsbD_eq
    intro i inside
    simp only [BitVec.getLsbD_and, BitVec.getLsbD_not, getLsbD_pageSize_sub_one narrow,
      BitVec.getLsbD_shiftLeft, BitVec.getLsbD_ushiftRight, inside, decide_true, Bool.true_and]
    by_cases low : i < shift
    · simp [low]
    · simp [low, show shift + (i - shift) = i by omega]
  have bound : x.toNat / 2 ^ shift * 2 ^ shift < 2 ^ w :=
    Nat.lt_of_le_of_lt (Nat.div_mul_le_self _ _) x.isLt
  rw [shifted, BitVec.toNat_shiftLeft, BitVec.toNat_ushiftRight, Nat.shiftRight_eq_div_pow,
    Nat.shiftLeft_eq, Nat.mod_eq_of_lt bound]

/-- The test for powers of two: one bit is set. -/
def isPowerOfTwo (x : BitVec w) : Bool :=
  x != 0 && x &&& (x - 1) == 0

/-- A value that passes the test is a page size. -/
theorem exists_shift_of_isPowerOfTwo (power : isPowerOfTwo x) :
    ∃ shift, shift < w ∧ x = pageSize w shift := by
  simp only [isPowerOfTwo, Bool.and_eq_true, bne_iff_ne, ne_eq, beq_iff_eq] at power
  obtain ⟨nonzero, single⟩ := power
  have positive : x.toNat ≠ 0 := fun zero => nonzero (BitVec.eq_of_toNat_eq (by simpa using zero))
  have low := Nat.log2_self_le positive
  have high := Nat.lt_log2_self (n := x.toNat)
  have narrow : x.toNat.log2 < w := (Nat.log2_lt positive).mpr x.isLt
  refine ⟨x.toNat.log2, narrow, BitVec.eq_of_toNat_eq ?_⟩
  rw [pageSize_toNat narrow]
  by_contra other
  -- Above the power of two itself, the predecessor has the same top bit.
  have predecessor : (x - 1).toNat = x.toNat - 1 := by
    have one : 1 % 2 ^ w = 1 := Nat.mod_eq_of_lt (Nat.one_lt_two_pow (by omega))
    have below := x.isLt
    rw [BitVec.toNat_sub, BitVec.ofNat_eq_ofNat, BitVec.toNat_ofNat, one,
      show 2 ^ w - 1 + x.toNat = 2 ^ w + (x.toNat - 1) by omega, Nat.add_mod_left,
      Nat.mod_eq_of_lt (by omega)]
  have top : ∀ y, 2 ^ x.toNat.log2 ≤ y → y < 2 ^ (x.toNat.log2 + 1) → y.testBit x.toNat.log2 := by
    intro y above below
    rw [Nat.testBit_eq_decide_div_mod_eq, Nat.div_eq_of_lt_le (k := 1) (by omega)
      (by rw [Nat.pow_succ] at below; omega)]
    rfl
  have both := congrArg (fun z => z.toNat.testBit x.toNat.log2) single
  simp only [BitVec.toNat_and, Nat.testBit_and, predecessor] at both
  rw [top _ low high, top _ (by omega) (by omega)] at both
  simp at both

theorem isPowerOfTwo_pageSize (narrow : shift < w) :
    isPowerOfTwo (pageSize w shift) := by
  simp only [isPowerOfTwo, Bool.and_eq_true, bne_iff_ne, ne_eq, beq_iff_eq]
  constructor
  · intro zero
    have size := pageSize_toNat narrow
    rw [zero] at size
    exact absurd size (by simpa using (Nat.two_pow_pos shift).ne)
  · -- The only bit of the size is not a bit of the mask.
    apply BitVec.eq_of_toNat_eq
    rw [and_offset_toNat narrow, pageSize_toNat narrow, Nat.mod_self]
    simp

end Pages
