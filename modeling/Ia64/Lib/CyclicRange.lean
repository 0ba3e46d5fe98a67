import Mathlib.Data.Nat.ModEq
import Mathlib.Tactic.Ring

/-! Ranges of an array that are moved or rotated in place. -/

namespace CyclicRange

variable {α : Type*} {base count : Nat}

variable (values : Nat → α)

/-- Copy entries of an array to another place in it. -/
def moveEntries (dst src count : Nat) : Nat → α :=
  fun i => if dst ≤ i ∧ i < dst + count then values (src + (i - dst)) else values i

theorem moveEntries_up {dst src : Nat} (first rest : Nat)
    (safe : dst ≤ src ∨ src + (first + rest) ≤ dst) :
    moveEntries (moveEntries values dst src first) (dst + first) (src + first) rest =
      moveEntries values dst src (first + rest) := by
  funext i
  simp only [moveEntries]
  by_cases later : dst + first ≤ i ∧ i < dst + first + rest
  · rw [if_pos later, if_neg (by omega), if_pos (by omega)]
    exact congrArg values (by omega)
  · rw [if_neg later]
    exact if_congr (by omega) rfl rfl

theorem moveEntries_down {dst src : Nat} (rest last : Nat) (safe : src ≤ dst) :
    moveEntries (moveEntries values (dst + rest) (src + rest) last) dst src rest =
      moveEntries values dst src (rest + last) := by
  funext i
  simp only [moveEntries]
  by_cases earlier : dst ≤ i ∧ i < dst + rest
  · rw [if_pos earlier, if_neg (by omega), if_pos (by omega)]
  · rw [if_neg earlier]
    by_cases moved : dst + rest ≤ i ∧ i < dst + rest + last
    · rw [if_pos moved, if_pos (by omega)]
      exact congrArg values (by omega)
    · rw [if_neg moved, if_neg (by omega)]

/-- Where an index goes when the range is rotated. -/
def turned (base count shift i : Nat) : Nat :=
  if base ≤ i ∧ i < base + count then base + (i - base + shift) % count else i

theorem turned_of_inside (shift : Nat) {i : Nat} (inside : base ≤ i ∧ i < base + count) :
    turned base count shift i = base + (i - base + shift) % count := if_pos inside

theorem turned_of_outside (shift : Nat) {i : Nat} (outside : ¬(base ≤ i ∧ i < base + count)) :
    turned base count shift i = i := if_neg outside

theorem turned_base_add (shift : Nat) {j : Nat} (inside : j < count) :
    turned base count shift (base + j) = base + (j + shift) % count := by
  rw [turned_of_inside shift (by omega), Nat.add_sub_cancel_left]

theorem turned_inside_iff (shift : Nat) {i : Nat} :
    (base ≤ turned base count shift i ∧ turned base count shift i < base + count) ↔
      base ≤ i ∧ i < base + count := by
  by_cases inside : base ≤ i ∧ i < base + count
  · have small := Nat.mod_lt (i - base + shift) (show 0 < count by omega)
    rw [turned_of_inside shift inside]
    omega
  · rw [turned_of_outside shift inside]

theorem turned_turned (first second i : Nat) :
    turned base count first (turned base count second i) =
      turned base count (second + first) i := by
  by_cases inside : base ≤ i ∧ i < base + count
  · rw [turned_of_inside first ((turned_inside_iff second).2 inside),
      turned_of_inside second inside,
      turned_of_inside _ inside, Nat.add_sub_cancel_left, Nat.mod_add_mod, Nat.add_assoc]
  · rw [turned_of_outside second inside, turned_of_outside first inside, turned_of_outside _ inside]

theorem turned_congr {first second : Nat} (same : first ≡ second [MOD count]) (i : Nat) :
    turned base count first i = turned base count second i := by
  unfold turned
  rw [show (i - base + first) % count = (i - base + second) % count from same.add_left _]

theorem turned_zero (i : Nat) : turned base count 0 i = i := by
  by_cases inside : base ≤ i ∧ i < base + count
  · rw [turned_of_inside 0 inside, Nat.add_zero, Nat.mod_eq_of_lt (by omega)]
    omega
  · exact turned_of_outside 0 inside

theorem turned_injective (positive : 0 < count) (shift : Nat) :
    Function.Injective (turned base count shift) := by
  -- Turning on to the full circle leads back.
  have full : shift + (count - shift % count) ≡ 0 [MOD count] := by
    have small := Nat.mod_lt shift positive
    rw [Nat.ModEq, ← Nat.mod_add_mod, Nat.add_sub_cancel' small.le, Nat.mod_self, Nat.zero_mod]
  have back : ∀ i, turned base count (count - shift % count) (turned base count shift i) = i :=
    fun i => by
    rw [turned_turned, turned_congr full, turned_zero]
  intro left right same
  rw [← back left, same, back]

theorem turned_add (shift j : Nat) :
    turned base count shift (base + j) = base + turned 0 count shift j := by
  by_cases inside : j < count
  · rw [turned_base_add shift inside, turned_of_inside shift (by omega), Nat.sub_zero, Nat.zero_add]
  · rw [turned_of_outside shift (by omega), turned_of_outside shift (by omega)]

theorem turned_pred (i : Nat) : turned base count (count - 1) i =
    if base ≤ i ∧ i < base + count then if i = base then base + (count - 1) else i - 1 else i := by
  by_cases inside : base ≤ i ∧ i < base + count
  · rw [turned_of_inside _ inside, if_pos inside]
    by_cases first : i = base
    · rw [if_pos first, first, Nat.sub_self, Nat.zero_add, Nat.mod_eq_of_lt (by omega)]
    · -- The full turn is taken off again.
      rw [if_neg first, show i - base + (count - 1) = i - base - 1 + count by omega,
        Nat.add_mod_right, Nat.mod_eq_of_lt (by omega)]
      omega
  · rw [turned_of_outside _ inside, if_neg inside]

theorem move_down (positive : 0 < count) (i : Nat) :
    Function.update (moveEntries values base (base + 1) (count - 1)) (base + count - 1)
      (values base) i = values (turned base count 1 i) := by
  by_cases last : i = base + count - 1
  · rw [last, Function.update_self, turned_of_inside 1 (by omega),
      show base + count - 1 - base + 1 = count by omega, Nat.mod_self, Nat.add_zero]
  rw [Function.update_of_ne last, moveEntries]
  by_cases inside : base ≤ i ∧ i < base + count
  · rw [if_pos (by omega), turned_of_inside 1 inside, Nat.mod_eq_of_lt (by omega)]
    exact congrArg values (by omega)
  · rw [if_neg (by omega), turned_of_outside 1 inside]

theorem move_up (positive : 0 < count) (i : Nat) :
    Function.update (moveEntries values (base + 1) base (count - 1)) base
      (values (base + count - 1)) i = values (turned base count (count - 1) i) := by
  rw [turned_pred]
  by_cases first : i = base
  · rw [first, Function.update_self, if_pos (by omega), if_pos rfl, Nat.add_sub_assoc positive]
  rw [Function.update_of_ne first, moveEntries, if_neg first]
  by_cases inside : base ≤ i ∧ i < base + count
  · rw [if_pos (by omega), if_pos inside]
    exact congrArg values (by omega)
  · rw [if_neg (by omega), if_neg inside]

end CyclicRange
