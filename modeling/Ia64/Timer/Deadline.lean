import Ia64.Timer.Drift

/-! The delay after which the interval timer calls back, against the first instant at which it
could. -/

namespace Ia64.Timer

open RateConversion BitVec

variable {frequencyHz fraction : BitVec 32}

variable {required elapsed : Word}

theorem le_whole_of_le_ticks (slow : frequencyHz.toNat < 2 ^ 31) (proper : ProperFraction fraction)
    (reached : required ≤ (itcTicksForNs elapsed frequencyHz fraction).1) :
    required.toNat ≤ whole (10 ^ 9) frequencyHz.toNat fraction.toNat elapsed.toNat := by
  rw [itcTicksForNs_ticks elapsed slow proper, le_def, toNat_ofNat] at reached
  exact le_trans reached (Nat.mod_le _ _)

theorem le_ticks_iff (slow : frequencyHz.toNat < 2 ^ 31) (proper : ProperFraction fraction)
    (fits : whole (10 ^ 9) frequencyHz.toNat fraction.toNat elapsed.toNat < 2 ^ 64) :
    required ≤ (itcTicksForNs elapsed frequencyHz fraction).1 ↔
      required.toNat ≤ whole (10 ^ 9) frequencyHz.toNat fraction.toNat elapsed.toNat := by
  rw [itcTicksForNs_ticks elapsed slow proper, le_def, toNat_ofNat, Nat.mod_eq_of_lt fits]

theorem whole_quotient_le (rate : Nat) {carry : Nat} (proper : carry < 10 ^ 9) (target : Nat) :
    whole (10 ^ 9) rate carry (target * 10 ^ 9 / rate) ≤ target := by
  -- The product is at most that of the target plus a proper remainder.
  have product := Nat.div_mul_le_self (target * 10 ^ 9) rate
  exact Nat.lt_succ_iff.1 ((Nat.div_lt_iff_lt_mul (by decide)).2 (by omega))

/-- The delay before it is stored in 64 bits. -/
def roundedDelay (rate carry target : Nat) : Nat :=
  if whole (10 ^ 9) rate carry (target * 10 ^ 9 / rate) < target then target * 10 ^ 9 / rate + 1
  else target * 10 ^ 9 / rate

/-- The delay of ticks below the maximum fits in 64 bits. -/
theorem roundedDelay_fits (running : 0 < frequencyHz.toNat) (slow : frequencyHz.toNat < 2 ^ 31)
    (proper : ProperFraction fraction)
    (below : required ≤ (itcTicksForNs int64Max frequencyHz fraction).1) :
    roundedDelay frequencyHz.toNat fraction.toNat required.toNat < 2 ^ 64 ∧
      whole (10 ^ 9) frequencyHz.toNat fraction.toNat
        (roundedDelay frequencyHz.toNat fraction.toNat required.toNat) < 2 ^ 64 := by
  have proper : fraction.toNat < 10 ^ 9 := proper
  have bound := le_whole_of_le_ticks slow proper below
  rw [show int64Max.toNat = 2 ^ 63 - 1 from rfl] at bound
  have product := (le_whole_iff (10 ^ 9) frequencyHz.toNat fraction.toNat (by decide) _ _).1 bound
  have rounded := whole_quotient_le frequencyHz.toNat proper required.toNat
  have small := required.isLt
  have quotient : required.toNat * 10 ^ 9 / frequencyHz.toNat ≤ 2 ^ 63 - 1 + 10 ^ 9 := by
    -- A step of the clock makes at least one unit of a tick.
    refine Nat.div_le_of_le_mul ?_
    have unit : 10 ^ 9 ≤ frequencyHz.toNat * 10 ^ 9 := Nat.le_mul_of_pos_left _ running
    rw [Nat.mul_add, Nat.mul_comm frequencyHz.toNat (2 ^ 63 - 1)]
    omega
  unfold roundedDelay
  split
  · rename_i early
    -- The added step is still inside the longest interval that the code converts.
    have inside : required.toNat * 10 ^ 9 / frequencyHz.toNat + 1 ≤ 2 ^ 63 - 1 := by
      by_contra beyond
      have mono := whole_mono (10 ^ 9) frequencyHz.toNat fraction.toNat
        (show 2 ^ 63 - 1 ≤ required.toNat * 10 ^ 9 / frequencyHz.toNat by omega)
      omega
    refine ⟨by omega, ?_⟩
    have mono := whole_mono (10 ^ 9) frequencyHz.toNat fraction.toNat inside
    by_cases whole64 : whole (10 ^ 9) frequencyHz.toNat fraction.toNat (2 ^ 63 - 1) < 2 ^ 64
    · omega
    · -- The maximum itself has wrapped, so the required ticks are few.
      have longest : whole (10 ^ 9) frequencyHz.toNat fraction.toNat (2 ^ 63 - 1) <
          2 ^ 64 + 2 ^ 61 := by
        refine (Nat.div_lt_iff_lt_mul (by decide)).2 ?_
        have factor : (2 ^ 63 - 1) * frequencyHz.toNat ≤ (2 ^ 63 - 1) * 2 ^ 31 :=
          Nat.mul_le_mul_left _ slow.le
        omega
      have wrapped : required.toNat < 2 ^ 61 := by
        rw [itcTicksForNs_ticks _ slow proper, le_def, toNat_ofNat,
          show int64Max.toNat = 2 ^ 63 - 1 from rfl] at below
        omega
      have step : whole (10 ^ 9) frequencyHz.toNat fraction.toNat
          (required.toNat * 10 ^ 9 / frequencyHz.toNat + 1) < required.toNat + 4 := by
        refine (Nat.div_lt_iff_lt_mul (by decide)).2 ?_
        have product := Nat.div_mul_le_self (required.toNat * 10 ^ 9) frequencyHz.toNat
        rw [Nat.add_mul]
        omega
      omega
  · exact ⟨by omega, by omega⟩

/-- The delay that the code computes. -/
theorem delayNs_toNat {itc : Itc} {deltaTicks : Word} (running : 0 < itc.frequencyHz.toNat)
    (slow : itc.frequencyHz.toNat < 2 ^ 31) (proper : ProperFraction itc.fraction)
    (fits : deltaTicks.toNat + itc.tickDebt.toNat < 2 ^ 64)
    (below : deltaTicks + itc.tickDebt ≤ (itcTicksForNs int64Max itc.frequencyHz itc.fraction).1) :
    (itc.delayNs deltaTicks).toNat =
      roundedDelay itc.frequencyHz.toNat itc.fraction.toNat (deltaTicks + itc.tickDebt).toNat := by
  have bounds := roundedDelay_fits running slow proper below
  have proper' : itc.fraction.toNat < 10 ^ 9 := proper
  have unsaturated : ¬uint64Max - itc.tickDebt < deltaTicks := by
    have top : uint64Max.toNat = 2 ^ 64 - 1 := rfl
    bv_omega
  have inside : ¬(itcTicksForNs int64Max itc.frequencyHz itc.fraction).1 <
      deltaTicks + itc.tickDebt := by
    bv_omega
  set required := deltaTicks + itc.tickDebt with requiredDef
  -- The quotient is stored without loss.
  have quotient : required.toNat * 10 ^ 9 / itc.frequencyHz.toNat < 2 ^ 64 := by
    have := bounds.1
    unfold roundedDelay at this
    split at this <;> omega
  have stored : (muldiv64 required (nanosecondsPerSecond.setWidth 32) itc.frequencyHz).toNat =
      required.toNat * 10 ^ 9 / itc.frequencyHz.toNat := by
    rw [muldiv64, toNat_ofNat]
    exact Nat.mod_eq_of_lt quotient
  have rounded := whole_quotient_le itc.frequencyHz.toNat proper' required.toNat
  have small := required.isLt
  -- The test for a missing tick agrees with the exact count.
  have early : (itcTicksForNs (muldiv64 required (nanosecondsPerSecond.setWidth 32) itc.frequencyHz)
        itc.frequencyHz itc.fraction).1 < required ↔
      whole (10 ^ 9) itc.frequencyHz.toNat itc.fraction.toNat
        (required.toNat * 10 ^ 9 / itc.frequencyHz.toNat) < required.toNat := by
    rw [itcTicksForNs_ticks _ slow proper, stored, lt_def, toNat_ofNat,
      Nat.mod_eq_of_lt (by omega)]
  have result := bounds.1
  unfold roundedDelay at result ⊢
  rw [Itc.delayNs, if_neg unsaturated]
  dsimp only
  rw [← requiredDef, if_neg inside]
  by_cases missing : whole (10 ^ 9) itc.frequencyHz.toNat itc.fraction.toNat
      (required.toNat * 10 ^ 9 / itc.frequencyHz.toNat) < required.toNat
  · rw [if_pos missing] at result
    rw [if_pos (early.2 missing), if_pos missing, toNat_add, stored]
    exact Nat.mod_eq_of_lt result
  · rw [if_neg (fun reached => missing (early.1 reached)), if_neg missing, stored]

/-- The delay is the first nanosecond at which the required ticks have passed exactly if the carried
fraction is less than one nanosecond's worth beyond what rounding down loses. -/
theorem delayNs_first_iff (itc : Itc) (deltaTicks : Word) (running : 0 < itc.frequencyHz.toNat)
    (slow : itc.frequencyHz.toNat < 2 ^ 31) (proper : ProperFraction itc.fraction)
    (ahead : 0 < deltaTicks.toNat) (fits : deltaTicks.toNat + itc.tickDebt.toNat < 2 ^ 64)
    (below : deltaTicks + itc.tickDebt ≤ (itcTicksForNs int64Max itc.frequencyHz itc.fraction).1) :
    (deltaTicks + itc.tickDebt ≤
          (itcTicksForNs (itc.delayNs deltaTicks) itc.frequencyHz itc.fraction).1 ∧
        ∀ earlier, deltaTicks + itc.tickDebt ≤
            (itcTicksForNs earlier itc.frequencyHz itc.fraction).1 →
          itc.delayNs deltaTicks ≤ earlier) ↔
      itc.fraction.toNat < itc.frequencyHz.toNat +
        (deltaTicks.toNat + itc.tickDebt.toNat) * 10 ^ 9 % itc.frequencyHz.toNat := by
  have delay := delayNs_toNat running slow proper fits below
  have bounds := roundedDelay_fits running slow proper below
  have sum : (deltaTicks + itc.tickDebt).toNat = deltaTicks.toNat + itc.tickDebt.toNat := by
    rw [toNat_add, Nat.mod_eq_of_lt fits]
  have proper' : itc.fraction.toNat < 10 ^ 9 := proper
  rw [← sum,
    ← isLeast_rounded_iff (10 ^ 9) itc.frequencyHz.toNat itc.fraction.toNat (by decide) running
    (deltaTicks + itc.tickDebt).toNat (by omega)]
  change _ ↔ IsLeast _ (roundedDelay itc.frequencyHz.toNat itc.fraction.toNat
    (deltaTicks + itc.tickDebt).toNat)
  rw [le_ticks_iff slow proper (by rw [delay]; exact bounds.2), delay]
  constructor
  · rintro ⟨reached, first⟩
    refine ⟨reached, fun steps enough => ?_⟩
    by_contra fewer
    rw [not_le] at fewer
    -- Fewer steps than the delay fit 64 bits, and so do their ticks.
    have stored : (BitVec.ofNat 64 steps).toNat = steps := by
      rw [toNat_ofNat, Nat.mod_eq_of_lt (by omega)]
    have mono := whole_mono (10 ^ 9) itc.frequencyHz.toNat itc.fraction.toNat fewer.le
    have again := first (BitVec.ofNat 64 steps)
      ((le_ticks_iff slow proper (by rw [stored]; omega)).2 (by rw [stored]; exact enough))
    rw [le_def, delay, stored] at again
    omega
  · rintro ⟨reached, first⟩
    refine ⟨reached, fun earlier enough => ?_⟩
    rw [le_def, delay]
    exact first (le_whole_of_le_ticks slow proper enough)

/-- A counter at 1 GHz that owes ticks and carries a short fraction. -/
theorem delayNs_first_gigahertz :
    let itc : Itc := ⟨1000000000, 0, ⟨0, by decide⟩, 5, 3⟩
    (7 : Word) + itc.tickDebt ≤ (itcTicksForNs (itc.delayNs 7) itc.frequencyHz itc.fraction).1 ∧
      ∀ earlier,
        (7 : Word) + itc.tickDebt ≤ (itcTicksForNs earlier itc.frequencyHz itc.fraction).1 →
        itc.delayNs 7 ≤ earlier :=
  (delayNs_first_iff ⟨1000000000, 0, ⟨0, by decide⟩, 5, 3⟩ 7 (by decide) (by decide)
    (by unfold ProperFraction; decide) (by decide) (by decide) (by decide)).2 (by decide)

/-- At 400 MHz with four fifths of a tick carried, the next tick is due after one nanosecond and the
delay is two. -/
theorem delayNs_late :
    let itc : Itc := ⟨400000000, 0, ⟨0, by decide⟩, 800000000, 0⟩
    ProperFraction itc.fraction ∧ Supported itc.frequencyHz ∧ itc.delayNs 1 = 2 ∧
      (1 : Word) + itc.tickDebt ≤ (itcTicksForNs int64Max itc.frequencyHz itc.fraction).1 ∧
      (1 : Word) + itc.tickDebt ≤ (itcTicksForNs 1 itc.frequencyHz itc.fraction).1 := by
  -- One nanosecond adds two fifths of a tick to the four that are carried.
  refine ⟨?_, ?_, ?_, ?_, ?_⟩
  · unfold ProperFraction
    decide
  · unfold Supported
    decide
  · decide
  · decide
  · decide

end Ia64.Timer
