import Ia64.Rse.AddressLaws

/-! How far backing-store pointers move: the closed forms of the source against the slots they
pass. -/

namespace Ia64.Rse.Pointer

section Source

/-- Collection words among a total of registers, by comparisons while the total is small. -/
def natWordCount (total : BitVec 32) : BitVec 32 :=
  if total < 3 * 63 then (if total ≥ 63 then 1 else 0) + (if total ≥ 2 * 63 then 1 else 0)
    else total / 63

/-- Collection words that a pointer meets while it advances over registers. -/
def natWordsGrow (addr : Word) (nregs : BitVec 32) : BitVec 32 :=
  natWordCount (BitVec.ofNat 32 (collectBit addr) + nregs)

/-- Collection words that a pointer meets while it retreats over registers. -/
def natWordsShrink (addr : Word) (nregs : BitVec 32) : BitVec 32 :=
  natWordCount (62 - BitVec.ofNat 32 (collectBit addr) + nregs)

/-- Registers among the words below an address. -/
def registerWordsBelow (addr : Word) (words : BitVec 32) : BitVec 32 :=
  let firstNat := BitVec.ofNat 32 (collectBit addr) + 1
  let natWords := if words < firstNat then 0 else 1 + (words - firstNat) / 64
  words - natWords

end Source

variable (addr : Word)

/-- The address of a slot counted from another one. -/
def slot (index : Nat) : Word := addr + BitVec.ofNat 64 (8 * index)

/-- Consecutive slots from an address on. -/
def slots (count : Nat) : List Word := (List.range count).map (slot addr)

/-- A pointer advanced over registers and the collections among them. -/
def advanced (nregs : BitVec 32) : Word := slot addr (nregs.toNat + (natWordsGrow addr nregs).toNat)

theorem toNat_natWordCount (total : BitVec 32) : (natWordCount total).toNat = total.toNat / 63 := by
  unfold natWordCount
  simp only [BitVec.lt_def, BitVec.le_def, ge_iff_le]
  have constants : (3 * 63 : BitVec 32).toNat = 189 ∧ (63 : BitVec 32).toNat = 63 ∧
      (2 * 63 : BitVec 32).toNat = 126 := by
    decide
  rw [constants.1, constants.2.1, constants.2.2]
  by_cases small : total.toNat < 189
  · rw [if_pos small, BitVec.toNat_add]
    split_ifs <;> simp <;> omega
  · rw [if_neg small, BitVec.toNat_udiv, constants.2.1]

theorem collectBit_slot (index : Nat) :
    collectBit (slot addr index) = (collectBit addr + index) % 64 := by
  rw [collectBit_eq, collectBit_eq, slot, BitVec.toNat_add, BitVec.toNat_ofNat]
  omega

theorem collectBit_lt : collectBit addr < 64 := by
  rw [collectBit_eq]
  omega

theorem slot_slot (first second : Nat) :
    slot (slot addr first) second = slot addr (first + second) := by
  rw [slot, slot, slot, BitVec.add_assoc, ← BitVec.ofNat_add, Nat.mul_add]

theorem countP_collections (count : Nat) :
    (slots addr count).countP atCollection = (collectBit addr + count) / 64 := by
  -- The next slot is a collection exactly when it completes a block.
  have bit := collectBit_lt addr
  induction count with
  | zero =>
    rw [slots, List.range_zero, List.map_nil, List.countP_nil]
    omega
  | succ count ih =>
    rw [slots, List.range_succ, List.map_append, List.countP_append, ← slots, ih,
      List.map_singleton, List.countP_singleton, atCollection, collectBit_slot]
    by_cases ends : (collectBit addr + count) % 64 = 63
    · simp only [ends, decide_true, if_true]
      omega
    · simp only [ends, decide_false, Bool.false_eq_true, if_false]
      omega

theorem countP_registers (count : Nat) :
    (slots addr count).countP (fun slot => !atCollection slot) =
      count - (collectBit addr + count) / 64 := by
  have parts : (slots addr count).length = _ + _ := List.length_eq_countP_add_countP atCollection
  rw [countP_collections, slots, List.length_map, List.length_range, ← slots] at parts
  have same : (slots addr count).countP (fun slot => !atCollection slot) =
      (slots addr count).countP fun slot => decide ¬atCollection slot :=
    List.countP_congr fun slot _ => by simp
  rw [same]
  omega

variable {nregs : BitVec 32}

theorem toNat_natWordsGrow (addr : Word) (fits : nregs.toNat + 63 < 2 ^ 32) :
    (natWordsGrow addr nregs).toNat = (collectBit addr + nregs.toNat) / 63 := by
  have bit := collectBit_lt addr
  rw [natWordsGrow, toNat_natWordCount, BitVec.toNat_add, BitVec.toNat_ofNat]
  omega

theorem toNat_natWordsShrink (addr : Word) (register : atCollection addr = false)
    (fits : nregs.toNat + 63 < 2 ^ 32) :
    (natWordsShrink addr nregs).toNat = (62 - collectBit addr + nregs.toNat) / 63 := by
  have bit := collectBit_lt addr
  simp only [atCollection, decide_eq_false_iff_not] at register
  rw [natWordsShrink, toNat_natWordCount, BitVec.toNat_add, BitVec.toNat_sub, BitVec.toNat_ofNat,
    show (62 : BitVec 32).toNat = 62 from rfl]
  omega

theorem collectBit_advanced (addr : Word) (fits : nregs.toNat + 63 < 2 ^ 32) :
    collectBit (advanced addr nregs) = (collectBit addr + nregs.toNat) % 63 := by
  rw [advanced, collectBit_slot, toNat_natWordsGrow addr fits]
  omega

/-- An advance passes as many registers as it should, never ends at a collection, is undone by the
retreat and adds up; and the words below an address hold as many registers as are counted there. -/
theorem pointer_arithmetic :
    (∀ (addr : Word) (m n : BitVec 32), atCollection addr = false → n.toNat + 63 < 2 ^ 32 →
      (slots addr (n.toNat + (natWordsGrow addr n).toNat)).countP
        (fun slot => !atCollection slot) = n.toNat ∧
      (slots addr (n.toNat + (natWordsGrow addr n).toNat)).countP atCollection =
        (natWordsGrow addr n).toNat ∧
      atCollection (advanced addr n) = false ∧
      advanced addr n -
        BitVec.ofNat 64 (8 * (n.toNat + (natWordsShrink (advanced addr n) n).toNat)) = addr ∧
      (m.toNat + n.toNat + 63 < 2 ^ 32 → advanced (advanced addr m) n = advanced addr (m + n))) ∧
    ∀ (addr : Word) (w : BitVec 32), (registerWordsBelow addr w).toNat =
      (slots (addr - BitVec.ofNat 64 (8 * w.toNat)) w.toNat).countP fun slot =>
        !atCollection slot := by
  constructor
  · intro addr m n register fits
    have bit := collectBit_lt addr
    have grow := toNat_natWordsGrow addr fits
    have ends := collectBit_advanced addr fits
    have inside : collectBit addr ≠ 63 := by simpa [atCollection] using register
    have plain : atCollection (advanced addr n) = false := by
      rw [atCollection, ends]
      exact decide_eq_false (by omega)
    refine ⟨?_, ?_, plain, ?_, fun sum => ?_⟩
    · rw [countP_registers, grow]
      omega
    · rw [countP_collections, grow]
      omega
    · -- Both counts are of the collections in between.
      rw [toNat_natWordsShrink _ plain fits, ends, advanced, grow, slot,
        show (62 - (collectBit addr + n.toNat) % 63 + n.toNat) / 63 =
          (collectBit addr + n.toNat) / 63 by omega]
      exact BitVec.add_sub_cancel _ _
    · have both : (m + n).toNat = m.toNat + n.toNat := by
        rw [BitVec.toNat_add]
        omega
      have middle := collectBit_advanced addr (show m.toNat + 63 < 2 ^ 32 by omega)
      rw [advanced, toNat_natWordsGrow _ fits, middle, advanced, slot_slot,
        toNat_natWordsGrow _ (by omega), advanced, toNat_natWordsGrow _ (by omega), both]
      congr 1
      omega
  · intro addr w
    have bit := collectBit_lt addr
    have below : collectBit (addr - BitVec.ofNat 64 (8 * w.toNat)) =
        (collectBit addr + 64 * w.toNat - w.toNat) % 64 := by
      rw [collectBit_eq, collectBit_eq, BitVec.toNat_sub, BitVec.toNat_ofNat]
      have := w.isLt
      omega
    have first : (BitVec.ofNat 32 (collectBit addr) + 1).toNat = collectBit addr + 1 := by
      rw [BitVec.toNat_add, BitVec.toNat_ofNat]
      show (collectBit addr % 2 ^ 32 + 1) % 2 ^ 32 = _
      omega
    have bound := w.isLt
    rw [countP_registers, below, registerWordsBelow]
    simp only [BitVec.lt_def, first]
    -- The first collection is met after the words of the block that lie below.
    by_cases few : w.toNat < collectBit addr + 1
    · rw [if_pos few, show w - 0 = w from BitVec.sub_zero w]
      omega
    · rw [if_neg few, BitVec.toNat_sub, BitVec.toNat_add, BitVec.toNat_udiv,
        BitVec.toNat_sub, first]
      show (2 ^ 32 - (1 + (2 ^ 32 - (collectBit addr + 1) + w.toNat) % 2 ^ 32 / 64) % 2 ^ 32 +
        w.toNat) % 2 ^ 32 = _
      omega

/-- From the last register of a block, one register and then a whole block of them. -/
theorem pointer_arithmetic_block :
    advanced 0x1f0 1 = 0x200 ∧ advanced 0x200 63 = advanced 0x1f0 (1 + 63) ∧
    advanced 0x200 63 - BitVec.ofNat 64 (8 * (63 + (natWordsShrink (advanced 0x200 63) 63).toNat)) =
      0x200 ∧
    (registerWordsBelow 0x400 65).toNat = 63 := by
  obtain ⟨advances, counts⟩ := pointer_arithmetic
  have first : advanced 0x1f0 1 = 0x200 := by decide
  have below := counts 0x400 65
  refine ⟨first, ?_, (advances 0x200 0 63 (by decide) (by decide)).2.2.2.1, below.trans (by decide)⟩
  rw [← first]
  exact (advances 0x1f0 1 63 (by decide) (by decide)).2.2.2.2 (by decide)

end Ia64.Rse.Pointer
