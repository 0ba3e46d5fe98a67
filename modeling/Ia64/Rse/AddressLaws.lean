import Ia64.Lib.Interleaving
import Ia64.Rse.Check

/-! Backing-store addresses as word indices, and the collection words between them. -/

namespace Ia64.Rse

theorem toNat_wordBytes (word : Int) : ((wordBytes word).toNat : Int) = word * 8 % 2 ^ 64 := by
  -- Conversion from the integers reduces modulo the word size.
  simp only [wordBytes, BitVec.toNat_ofInt]
  omega

theorem wordBytes_add (word offset : Int) :
    wordBytes word + wordBytes offset = wordBytes (word + offset) := by
  -- Both sides are the same residue.
  simp only [wordBytes, Int.add_mul, BitVec.ofInt_add]

theorem wordBytes_sub (word offset : Int) :
    wordBytes word - wordBytes offset = wordBytes (word - offset) := by
  -- Adding the offset back recovers the word.
  have back := wordBytes_add (word - offset) offset
  rw [Int.sub_add_cancel] at back
  rw [← back]
  exact BitVec.add_sub_cancel _ _

theorem collectBit_eq (addr : Word) : collectBit addr = addr.toNat / 8 % 64 := by
  -- Shifting divides by eight and the mask keeps six bits.
  have mask := Nat.and_two_pow_sub_one_eq_mod (addr.toNat / 8) 6
  simpa [collectBit, Nat.shiftRight_eq_div_pow] using mask

theorem collectBit_wordBytes (word : Int) : (collectBit (wordBytes word) : Int) = word % 64 := by
  -- The address space holds a whole number of blocks.
  have := toNat_wordBytes word
  rw [collectBit_eq]
  omega

theorem atCollection_wordBytes (word : Int) : atCollection (wordBytes word) ↔ word % 64 = 63 := by
  -- The collection bit is the position in the block.
  have := collectBit_wordBytes word
  simp only [atCollection, decide_eq_true_eq]
  omega

theorem collectionsBetween_wordBytes (low high : Int) (near : (high - low).natAbs < 2 ^ 36) :
    collectionsBetween (wordBytes low) (wordBytes high) = Interleaving.collections low high := by
  -- Truncation to 32 bits removes the wrap-around of the address space.
  have lowAddr := toNat_wordBytes low
  have highAddr := toNat_wordBytes high
  simp only [collectionsBetween, int32, BitVec.toNat_ushiftRight, Nat.shiftRight_eq_div_pow,
    Interleaving.collections, Int.bmod_def]
  omega

end Ia64.Rse
