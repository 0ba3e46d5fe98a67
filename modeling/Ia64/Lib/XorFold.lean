import Mathlib.Tactic.Common

/-! Two numbers folded into a tag and an index by exclusive or, and when they can be told apart. -/

namespace XorFold

open BitVec

variable {w shift : Nat}

/-- A number folded with another one that is shifted up. -/
def tag (shift : Nat) (number extra : BitVec w) : BitVec w := number ^^^ (extra <<< shift)

variable {x y a b : BitVec w} {i : Nat}

theorem low_bits_of_tag (same : tag shift x a = tag shift y b)
    (low : i < shift) : x.getLsbD i = y.getLsbD i := by
  have bit := congrArg (·.getLsbD i) same
  -- The shifted number has no bits here.
  simpa [tag, low] using bit

theorem high_bits_of_tag (same : tag shift x a = tag shift y b)
    (inside : shift + i < w) (noX : x.getLsbD (shift + i) = false)
    (noY : y.getLsbD (shift + i) = false) : a.getLsbD i = b.getLsbD i := by
  have bit := congrArg (·.getLsbD (shift + i)) same
  simp only [tag, getLsbD_xor, getLsbD_shiftLeft, noX, noY, Bool.false_xor] at bit
  simpa only [inside, show ¬shift + i < shift by omega,
    show shift + i - shift = i by omega, decide_true,
    decide_false, Bool.not_false, Bool.true_and] using bit

theorem eq_of_tag_of_index (shift overlap : Nat) (short : overlap ≤ shift)
    (sameTag : tag shift x a = tag shift y b)
    (sameIndex : ∀ i < overlap, (x ^^^ a).getLsbD i = (y ^^^ b).getLsbD i)
    (boundedX : ∀ i, shift + overlap ≤ i → x.getLsbD i = false)
    (boundedY : ∀ i, shift + overlap ≤ i → y.getLsbD i = false)
    (boundedA : ∀ i, w ≤ shift + i → a.getLsbD i = false)
    (boundedB : ∀ i, w ≤ shift + i → b.getLsbD i = false) : a = b ∧ x = y := by
  have extras : a = b := by
    refine eq_of_getLsbD_eq fun i inside => ?_
    by_cases indexed : i < overlap
    · -- The index holds the sum, and the tag gives the bits of the first number.
      have sum := sameIndex i indexed
      rw [getLsbD_xor, getLsbD_xor, low_bits_of_tag sameTag (show i < shift by omega)] at sum
      simpa using sum
    · by_cases beyond : w ≤ shift + i
      · rw [boundedA i beyond, boundedB i beyond]
      · -- Above the overlap the tag shows the extra bits alone.
        exact high_bits_of_tag sameTag (by omega) (boundedX _ (by omega)) (boundedY _ (by omega))
  subst extras
  refine ⟨rfl, eq_of_getLsbD_eq fun i inside => ?_⟩
  have bit := congrArg (·.getLsbD i) sameTag
  simpa [tag] using bit

end XorFold
