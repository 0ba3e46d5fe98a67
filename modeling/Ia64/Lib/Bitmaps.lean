import Ia64.Lib.Words

/-! Sets of small numbers kept as bits of an array of words. -/

namespace Bitmaps

open BitVec

variable {w : Nat}

variable (bitmap : Nat → BitVec w) (v : Nat)

/-- Whether a number is in the set. -/
def contains : Bool :=
  -- The word is picked by the quotient, the bit by the remainder.
  bitmap (v / w) &&& (1#w <<< (v % w)) != 0#w

/-- Add a number to the set. -/
def insert : Nat → BitVec w :=
  Function.update bitmap (v / w) (bitmap (v / w) ||| (1#w <<< (v % w)))

/-- Remove a number from the set. -/
def erase : Nat → BitVec w :=
  Function.update bitmap (v / w) (bitmap (v / w) &&& ~~~(1#w <<< (v % w)))

/-- Take over one number's membership from another set. -/
def copy (bitmap source : Nat → BitVec w) (v : Nat) : Nat → BitVec w :=
  Function.update bitmap (v / w)
    ((bitmap (v / w) &&& ~~~(1#w <<< (v % w))) ||| (source (v / w) &&& (1#w <<< (v % w))))

section

variable (positive : 0 < w)

include positive

variable (bitmap : Nat → BitVec w)

/-- Membership is one bit of one word. -/
theorem contains_eq_getLsbD (v : Nat) :
    contains bitmap v = (bitmap (v / w)).getLsbD (v % w) := by
  have inside : v % w < w := Nat.mod_lt _ positive
  unfold contains
  cases bit : (bitmap (v / w)).getLsbD (v % w) with
  | true =>
    -- The masked word keeps the bit, so it is not zero.
    have kept : (bitmap (v / w) &&& (1#w <<< (v % w))).getLsbD (v % w) := by
      rw [getLsbD_and, bit, Words.getLsbD_one_shiftLeft inside]
      simp
    rw [bne_iff_ne]
    intro zero
    rw [zero] at kept
    simp at kept
  | false =>
    -- Every other bit is masked away.
    have zero : bitmap (v / w) &&& (1#w <<< (v % w)) = 0#w := by
      apply eq_of_getLsbD_eq
      intro i _
      rw [getLsbD_and, Words.getLsbD_one_shiftLeft inside]
      by_cases here : i = v % w
      · rw [here, bit]
        simp
      · simp [here]
    simp [zero]

theorem contains_update {v : Nat} {word : BitVec w} {member : Bool}
    (bits : ∀ i < w, word.getLsbD i = if i = v % w then member else (bitmap (v / w)).getLsbD i)
    (u : Nat) :
    contains (Function.update bitmap (v / w) word) u = if u = v then member
      else contains bitmap u := by
  rw [contains_eq_getLsbD positive, contains_eq_getLsbD positive]
  by_cases here : u / w = v / w
  · rw [here, Function.update_self, bits _ (Nat.mod_lt _ positive)]
    by_cases bit : u % w = v % w
    · rw [if_pos bit, if_pos (Nat.ext_div_mod here bit)]
    · rw [if_neg bit, if_neg fun same => bit (by rw [same])]
  · rw [Function.update_of_ne here, if_neg fun same => here (by rw [same])]

theorem contains_insert (u v : Nat) :
    contains (insert bitmap v) u = (decide (u = v) || contains bitmap u) := by
  refine (contains_update positive bitmap (fun i _ => ?_) u).trans (Bool.if_true_left ..)
  rw [getLsbD_or, Words.getLsbD_one_shiftLeft (Nat.mod_lt _ positive),
    Bool.if_true_left, Bool.or_comm]

theorem contains_erase (u v : Nat) :
    contains (erase bitmap v) u = (!decide (u = v) && contains bitmap u) := by
  refine (contains_update positive bitmap (fun i inside => ?_) u).trans (Bool.if_false_left ..)
  rw [getLsbD_and, getLsbD_not, Words.getLsbD_one_shiftLeft (Nat.mod_lt _ positive),
    Bool.if_false_left]
  simp [inside, Bool.and_comm]

theorem contains_copy (bitmap source : Nat → BitVec w) (u v : Nat) :
    contains (copy bitmap source v) u = if u = v then contains source u else contains bitmap u := by
  refine (contains_update positive bitmap (fun i inside => ?_) u).trans
    (ite_congr rfl (fun same => congrArg (contains source) same.symm) fun _ => rfl)
  rw [getLsbD_or, getLsbD_and, getLsbD_and, getLsbD_not,
    Words.getLsbD_one_shiftLeft (Nat.mod_lt _ positive), contains_eq_getLsbD positive]
  by_cases bit : i = v % w <;> simp [bit, inside]

theorem eq_of_contains {left right : Nat → BitVec w}
    (same : ∀ v, contains left v = contains right v) : left = right := by
  funext word
  apply eq_of_getLsbD_eq
  intro i inside
  -- Bit i of the word stands for one number.
  have member := same (w * word + i)
  rw [contains_eq_getLsbD positive, contains_eq_getLsbD positive, Nat.mul_add_div positive,
    Nat.mul_add_mod, Nat.div_eq_of_lt inside, Nat.mod_eq_of_lt inside, Nat.add_zero] at member
  exact member

theorem highest_bit {word : BitVec w} (nonzero : word ≠ 0#w) :
    word.getLsbD (w - 1 - word.clz.toNat) ∧
      ∀ i, word.getLsbD i → i ≤ w - 1 - word.clz.toNat := by
  refine ⟨getLsbD_true_clz_of_ne_zero positive nonzero, fun i set => ?_⟩
  by_contra above
  -- A higher bit would exceed the bound that the leading zeros give.
  have bound : word.toNat < 2 ^ (w - word.clz.toNat) := toNat_lt_two_pow_sub_clz
  have wide : word.toNat < 2 ^ i :=
    Nat.lt_of_lt_of_le bound (Nat.pow_le_pow_right (by decide) (by omega))
  rw [getLsbD, Nat.testBit_lt_two_pow wide] at set
  exact absurd set (by decide)

end

end Bitmaps
