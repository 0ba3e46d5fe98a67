import Mathlib.Tactic.Ring
import Mathlib.Tactic.Linarith

/-! Counting at a rational rate: whole ticks per step, with the remainder carried to the next
conversion. -/

namespace RateConversion

variable (unit rate carry : Nat)

/-- The whole ticks after some steps, with what an earlier conversion left over. -/
def whole (steps : Nat) : Nat := (steps * rate + carry) / unit

/-- What is left for the next conversion. -/
def carried (steps : Nat) : Nat := (steps * rate + carry) % unit

section Composition

theorem whole_carried (steps : Nat) :
    unit * whole unit rate carry steps + carried unit rate carry steps = steps * rate + carry :=
  Nat.div_add_mod _ _

theorem carried_lt (positive : 0 < unit) (steps : Nat) : carried unit rate carry steps < unit :=
  Nat.mod_lt _ positive

theorem carried_zero (proper : carry < unit) : carried unit rate carry 0 = carry := by
  -- The product vanishes and the remainder is already reduced.
  rw [carried, Nat.zero_mul, Nat.zero_add, Nat.mod_eq_of_lt proper]

theorem whole_zero (proper : carry < unit) : whole unit rate carry 0 = 0 := by
  -- The carried remainder alone is shorter than a tick.
  rw [whole, Nat.zero_mul, Nat.zero_add, Nat.div_eq_of_lt proper]

theorem product_add (first second : Nat) :
    (first + second) * rate + carry =
      second * rate + carried unit rate carry first + unit * whole unit rate carry first := by
  -- Only the first part is replaced by its ticks and its remainder.
  have exact := whole_carried unit rate carry first
  rw [Nat.add_mul]
  omega

theorem whole_add (positive : 0 < unit) (first second : Nat) :
    whole unit rate carry (first + second) =
      whole unit rate carry first + whole unit rate (carried unit rate carry first) second := by
  -- The ticks of the first part are a whole number of units in the product of both.
  rw [whole, product_add, Nat.add_mul_div_left _ _ positive, Nat.add_comm]
  rfl

theorem carried_add (first second : Nat) :
    carried unit rate carry (first + second) =
      carried unit rate (carried unit rate carry first) second := by
  -- The ticks of the first part do not change the remainder.
  rw [carried, product_add, Nat.add_mul_mod_self_left]
  rfl

theorem whole_split (positive : 0 < unit) (steps : Nat) :
    whole unit rate carry steps = steps / unit * rate + whole unit rate carry (steps % unit) := by
  have parts : steps * rate + carry =
      steps % unit * rate + carry + unit * (steps / unit * rate) := by
    -- The quotient and the remainder of the steps are multiplied separately.
    conv_lhs => rw [← Nat.div_add_mod steps unit, Nat.add_mul, Nat.mul_assoc]
    omega
  rw [whole, parts, Nat.add_mul_div_left _ _ positive, Nat.add_comm]
  rfl

theorem carried_split (steps : Nat) :
    carried unit rate carry steps = carried unit rate carry (steps % unit) := by
  -- A whole unit of steps makes a whole number of ticks.
  have whole : steps = unit * (steps / unit) + steps % unit := (Nat.div_add_mod _ _).symm
  rw [carried, carried]
  conv_lhs => rw [whole, Nat.add_mul, Nat.mul_assoc, Nat.add_assoc, Nat.mul_add_mod]

end Composition

section Deadline

theorem le_whole_iff (positive : 0 < unit) (target steps : Nat) :
    target ≤ whole unit rate carry steps ↔ target * unit ≤ steps * rate + carry :=
  Nat.le_div_iff_mul_le positive

theorem le_whole_quotient_iff (positive : 0 < unit) (target : Nat) :
    target ≤ whole unit rate carry (target * unit / rate) ↔ target * unit % rate ≤ carry := by
  -- The product of the rounded-down steps misses the target by the remainder of the division.
  have exact := Nat.div_add_mod' (target * unit) rate
  rw [le_whole_iff unit rate carry positive]
  omega

theorem le_whole_quotient_succ (positive : 0 < unit) (moving : 0 < rate) (target : Nat) :
    target ≤ whole unit rate carry (target * unit / rate + 1) := by
  -- The remainder of the division is smaller than what one step adds.
  have exact := Nat.div_add_mod' (target * unit) rate
  have short := Nat.mod_lt (target * unit) moving
  rw [le_whole_iff unit rate carry positive, Nat.add_mul]
  omega

theorem whole_mono {fewer more : Nat} (steps : fewer ≤ more) :
    whole unit rate carry fewer ≤ whole unit rate carry more :=
  Nat.div_le_div_right (Nat.add_le_add_right (Nat.mul_le_mul_right _ steps) _)

theorem isLeast_iff_pred {target steps : Nat} (reached : target ≤ whole unit rate carry steps) :
    IsLeast { n | target ≤ whole unit rate carry n } steps ↔
      steps = 0 ∨ whole unit rate carry (steps - 1) < target := by
  constructor
  · rintro ⟨-, fewest⟩
    by_contra early
    rw [not_or, not_lt] at early
    have below := fewest early.2
    omega
  · intro short
    refine ⟨reached, fun other enough => ?_⟩
    by_contra fewer
    rcases short with none | short
    · omega
    -- Fewer steps stop at or before the last step, which is too early.
    · have bound := whole_mono unit rate carry (show other ≤ steps - 1 by omega)
      have enough : target ≤ whole unit rate carry other := enough
      omega

theorem isLeast_rounded_iff (positive : 0 < unit) (moving : 0 < rate) (target : Nat)
    (needed : carry < target * unit) :
    IsLeast { n | target ≤ whole unit rate carry n }
        (if whole unit rate carry (target * unit / rate) < target then target * unit / rate + 1
          else target * unit / rate) ↔
      carry < rate + target * unit % rate := by
  have exact := Nat.div_add_mod' (target * unit) rate
  have enough := le_whole_quotient_iff unit rate carry positive target
  have quotientPred : ∀ q, 0 < q → (q - 1) * rate + rate = q * rate := by
    intro q large
    rw [Nat.sub_mul, Nat.one_mul, Nat.sub_add_cancel (Nat.le_mul_of_pos_left _ large)]
  by_cases early : whole unit rate carry (target * unit / rate) < target
  · -- The added step is needed, and the remainder is short of the rounding.
    have short : carry < target * unit % rate := by omega
    rw [if_pos early, isLeast_iff_pred unit rate carry
      (le_whole_quotient_succ unit rate carry positive moving target)]
    exact iff_of_true (Or.inr early) (by omega)
  · -- The rounded number is the fewest unless a step less reaches the target as well.
    have covered : target * unit % rate ≤ carry := enough.1 (by omega)
    rw [if_neg early, isLeast_iff_pred unit rate carry (by omega), ← not_le,
      le_whole_iff unit rate carry positive]
    by_cases zero : target * unit / rate = 0
    · rw [zero] at exact
      omega
    · have step := quotientPred _ (Nat.pos_of_ne_zero zero)
      omega

end Deadline

end RateConversion
