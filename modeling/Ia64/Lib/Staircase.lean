import Mathlib.Tactic.Common

/-! Consecutive steps of given widths: where each starts, and the walks that find the step under a
position. -/

namespace Staircase

variable (width : Nat → Nat)

/-- Where a step starts. -/
def start : Nat → Nat
  | 0 => 0
  | step + 1 => start step + width step

/-- The total after adding the widths of some steps, upwards from one. -/
def rise : Nat → Nat → Int → Int
  | 0, _, total => total
  | count + 1, step, total => rise count (step + 1) (total + width step)

/-- The total after subtracting the widths of some steps, downwards from one. -/
def fall : Nat → Nat → Int → Int
  | 0, _, total => total
  | count + 1, step, total => fall count (step - 1) (total - width step)

/-- Walk up a bounded number of steps until the rest lies on the step reached. -/
def climb : Nat → Nat → Nat → Option (Nat × Nat)
  | 0, step, rest => if rest < width step then some (step, rest) else none
  | fuel + 1, step, rest =>
    if rest < width step then some (step, rest) else climb fuel (step + 1) (rest - width step)

/-- Walk down a bounded number of steps until the rest is not negative. -/
def descend : Nat → Nat → Int → Option (Nat × Nat)
  | 0, step, rest => if rest < 0 then none else some (step, rest.toNat)
  | fuel + 1, step, rest =>
    if rest < 0 then descend fuel (step - 1) (rest + width (step - 1)) else some (step, rest.toNat)

/-- Walk down and then up, between a lowest and a highest step, to the step under a position. -/
def locate (low high step : Nat) (rest : Int) : Option (Nat × Nat) :=
  (descend width (step - low) step rest).bind fun reached =>
    climb width (high - reached.1) reached.1 reached.2

variable {width}

theorem start_add_le (width : Nat → Nat) {lower upper : Nat} (before : lower < upper) :
    start width lower + width lower ≤ start width upper := by
  -- Each further step only moves the start up.
  induction before with
  | refl => exact Nat.le_refl _
  | step _ ih => exact Nat.le_trans ih (Nat.le_add_right _ _)

theorem rise_eq (count step : Nat) (total : Int) :
    rise width count step total = total + start width (step + count) - start width step := by
  -- Each turn adds the width between one start and the next.
  induction count generalizing step total with
  | zero => simp [rise]
  | succ count ih =>
    rw [rise, ih, show step + 1 + count = step + (count + 1) by omega]
    simp only [start]
    omega

theorem fall_eq (count step : Nat) (total : Int) (enough : count ≤ step + 1) :
    fall width count step total = total + start width (step + 1 - count) -
      start width (step + 1) := by
  -- Each turn subtracts the width between one start and the one before.
  induction count generalizing step total with
  | zero => simp [fall]
  | succ count ih =>
    rw [fall]
    rcases step with _ | step
    · obtain rfl : count = 0 := by omega
      simp [fall, start]
    · rw [Nat.add_sub_cancel, ih step _ (by omega),
        show step + 1 + 1 - (count + 1) = step + 1 - count by omega]
      simp only [start]
      omega

variable {fuel step found left : Nat} {rest : Int}

theorem climb_eq_some {rest : Nat} :
    climb width fuel step rest = some (found, left) ↔ step ≤ found ∧ found ≤ step + fuel ∧
      start width step + rest = start width found + left ∧ left < width found := by
  induction fuel generalizing step rest with
  | zero =>
    rw [climb]
    split_ifs with inside
    · constructor
      · rintro ⟨⟩
        exact ⟨Nat.le_refl _, Nat.le_refl _, rfl, inside⟩
      · rintro ⟨lower, upper, same, _⟩
        obtain rfl : found = step := by omega
        simp only [Option.some.injEq, Prod.mk.injEq, true_and]
        omega
    · constructor
      · rintro ⟨⟩
      · rintro ⟨lower, upper, same, below⟩
        obtain rfl : found = step := by omega
        omega
  | succ fuel ih =>
    rw [climb]
    split_ifs with inside
    · constructor
      · rintro ⟨⟩
        exact ⟨Nat.le_refl _, by omega, rfl, inside⟩
      · rintro ⟨lower, _, same, _⟩
        -- A later step would start beyond the position.
        rcases Nat.eq_or_lt_of_le lower with rfl | later
        · simp only [Option.some.injEq, Prod.mk.injEq, true_and]
          omega
        · have := start_add_le width later
          omega
    · rw [ih]
      simp only [start]
      constructor
      · rintro ⟨lower, upper, same, below⟩
        exact ⟨by omega, by omega, by omega, below⟩
      · rintro ⟨lower, upper, same, below⟩
        have later : step ≠ found := by
          rintro rfl
          omega
        exact ⟨by omega, by omega, by omega, below⟩

theorem descend_eq_some (enough : fuel ≤ step) :
    descend width fuel step rest = some (found, left) ↔ found ≤ step ∧ step ≤ found + fuel ∧
      (start width step : Int) + rest = start width found + left ∧
        (found < step → left < width found) := by
  induction fuel generalizing step rest with
  | zero =>
    rw [descend]
    split_ifs with below
    · constructor
      · rintro ⟨⟩
      · rintro ⟨lower, upper, same, _⟩
        obtain rfl : found = step := by omega
        omega
    · simp only [Option.some.injEq, Prod.mk.injEq]
      constructor
      · rintro ⟨rfl, rfl⟩
        exact ⟨Nat.le_refl _, Nat.le_refl _, by omega, by omega⟩
      · rintro ⟨lower, upper, same, _⟩
        obtain rfl : found = step := by omega
        exact ⟨rfl, by omega⟩
  | succ fuel ih =>
    obtain ⟨step, rfl⟩ : ∃ before, step = before + 1 := ⟨step - 1, by omega⟩
    rw [descend, Nat.add_sub_cancel]
    split_ifs with below
    · rw [ih (by omega)]
      simp only [start]
      constructor
      · rintro ⟨lower, upper, same, inside⟩
        refine ⟨by omega, by omega, by push_cast at same ⊢; omega, fun _ => ?_⟩
        rcases Nat.eq_or_lt_of_le lower with rfl | earlier
        · omega
        · exact inside earlier
      · rintro ⟨lower, upper, same, inside⟩
        push_cast at same
        have earlier : found ≠ step + 1 := by
          rintro rfl
          simp only [start] at same
          omega
        exact ⟨by omega, by omega, by omega, fun _ => inside (by omega)⟩
    · simp only [Option.some.injEq, Prod.mk.injEq]
      constructor
      · rintro ⟨rfl, rfl⟩
        exact ⟨Nat.le_refl _, by omega, by omega, by omega⟩
      · rintro ⟨lower, upper, same, inside⟩
        -- An earlier step ends before the one the walk stands on.
        rcases Nat.eq_or_lt_of_le lower with rfl | earlier
        · exact ⟨rfl, by omega⟩
        · have := start_add_le width earlier
          have := inside earlier
          omega

/-- The two walks find the step under the position. -/
theorem locate_eq_some {low high : Nat} (above : low ≤ step) (below : step ≤ high) :
    locate width low high step rest = some (found, left) ↔ low ≤ found ∧ found ≤ high ∧
      (start width step : Int) + rest = start width found + left ∧ left < width found := by
  rw [locate, Option.bind_eq_some_iff]
  constructor
  · rintro ⟨⟨reached, held⟩, down, up⟩
    rw [descend_eq_some (by omega)] at down
    rw [climb_eq_some] at up
    dsimp only at up
    exact ⟨by omega, by omega, by omega, up.2.2.2⟩
  · rintro ⟨lower, upper, same, inside⟩
    by_cases earlier : found < step
    · -- The walk down already ends on the step, and the walk up stays there.
      refine ⟨(found, left),
        (descend_eq_some (by omega)).mpr ⟨by omega, by omega, same, fun _ => inside⟩, ?_⟩
      exact climb_eq_some.mpr ⟨Nat.le_refl _, by omega, rfl, inside⟩
    · have further : start width step ≤ start width found := by
        rcases Nat.eq_or_lt_of_le (Nat.not_lt.mp earlier) with rfl | later
        · exact Nat.le_refl _
        · exact Nat.le_trans (Nat.le_add_right _ _) (start_add_le width later)
      refine ⟨(step, rest.toNat),
        (descend_eq_some (by omega)).mpr ⟨Nat.le_refl _, by omega, by omega, by omega⟩, ?_⟩
      exact climb_eq_some.mpr ⟨by omega, by dsimp only; omega, by dsimp only; omega, inside⟩

end Staircase
