import Ia64.Timer.Itc
import Mathlib.Data.BitVec
import Mathlib.Tactic.LinearCombination

/-! The interval time counter follows the virtual clock exactly, and the deadline of a match. -/

namespace Ia64.Timer

open RateConversion

section Conversion

/-- A fraction is shorter than a tick. -/
def ProperFraction (fraction : BitVec 32) : Prop := fraction.toNat < 10 ^ 9

/-- The frequencies that a processor model may have. -/
def Supported (frequencyHz : BitVec 32) : Prop :=
  0 < frequencyHz.toNat ∧ frequencyHz.toNat ≤ 1600000000

/-- No product or sum of a conversion leaves 64 bits. -/
def ProductsFit (elapsed frequency fraction : Nat) : Prop :=
  if elapsed < 10 ^ 9 then elapsed * frequency + fraction < 2 ^ 64
  else
    elapsed % 10 ^ 9 * frequency + fraction < 2 ^ 64 ∧ elapsed / 10 ^ 9 * frequency < 2 ^ 64 ∧
      elapsed / 10 ^ 9 * frequency + (elapsed % 10 ^ 9 * frequency + fraction) / 10 ^ 9 < 2 ^ 64

variable {frequency : Nat} {elapsed : Word} {frequencyHz fraction : BitVec 32}

theorem shortProduct_lt {elapsed fraction : Nat} (short : elapsed < 10 ^ 9)
    (slow : frequency < 2 ^ 31) (proper : fraction < 10 ^ 9) :
    elapsed * frequency + fraction < 2 ^ 62 := by
  -- Both factors are bounded, and so is the carried fraction.
  have product : elapsed * frequency ≤ 10 ^ 9 * 2 ^ 31 := Nat.mul_le_mul short.le slow.le
  omega

theorem shortSum_toNat
    (short : elapsed.toNat < 10 ^ 9) (slow : frequencyHz.toNat < 2 ^ 31)
    (proper : ProperFraction fraction) :
    (elapsed * frequencyHz.setWidth 64 + fraction.setWidth 64).toNat =
      elapsed.toNat * frequencyHz.toNat + fraction.toNat := by
  have fits := shortProduct_lt short slow proper
  rw [BitVec.toNat_add, BitVec.toNat_mul, BitVec.toNat_setWidth_of_le (by decide),
    BitVec.toNat_setWidth_of_le (by decide), Nat.mod_eq_of_lt (a := elapsed.toNat * _) (by omega),
    Nat.mod_eq_of_lt (by omega)]

theorem shortTicks_eq
    (short : elapsed.toNat < 10 ^ 9) (slow : frequencyHz.toNat < 2 ^ 31)
    (proper : ProperFraction fraction) :
    ((elapsed * frequencyHz.setWidth 64 + fraction.setWidth 64) / nanosecondsPerSecond).toNat =
      whole (10 ^ 9) frequencyHz.toNat fraction.toNat elapsed.toNat := by
  rw [BitVec.toNat_udiv, shortSum_toNat short slow proper]
  rfl

theorem shortFraction_eq
    (short : elapsed.toNat < 10 ^ 9) (slow : frequencyHz.toNat < 2 ^ 31)
    (proper : ProperFraction fraction) :
    (((elapsed * frequencyHz.setWidth 64 + fraction.setWidth 64) % nanosecondsPerSecond).setWidth
      32).toNat = carried (10 ^ 9) frequencyHz.toNat fraction.toNat elapsed.toNat := by
  have remainder := carried_lt (10 ^ 9) frequencyHz.toNat fraction.toNat (by decide) elapsed.toNat
  rw [BitVec.toNat_setWidth, BitVec.toNat_umod, shortSum_toNat short slow proper]
  -- A remainder below a second fits the field.
  exact Nat.mod_eq_of_lt (lt_trans remainder (by decide))

theorem toNat_mod_second (elapsed : Word) :
    (elapsed % nanosecondsPerSecond).toNat = elapsed.toNat % 10 ^ 9 := by
  rw [BitVec.toNat_umod]
  rfl

/-- A conversion counts the whole ticks of an interval. -/
theorem itcTicksForNs_ticks (elapsed : Word)
    (slow : frequencyHz.toNat < 2 ^ 31) (proper : ProperFraction fraction) :
    (itcTicksForNs elapsed frequencyHz fraction).1 =
      BitVec.ofNat 64 (whole (10 ^ 9) frequencyHz.toNat fraction.toNat elapsed.toNat) := by
  apply BitVec.eq_of_toNat_eq
  rw [BitVec.toNat_ofNat]
  by_cases short : elapsed < nanosecondsPerSecond
  · have below : elapsed.toNat < 10 ^ 9 := short
    rw [itcTicksForNs, if_pos short]
    exact (shortTicks_eq below slow proper).trans
      (Nat.mod_eq_of_lt ((shortTicks_eq below slow proper) ▸ BitVec.isLt _)).symm
  · -- Whole seconds are multiplied by the frequency, the rest is a short conversion.
    have rest : (elapsed % nanosecondsPerSecond).toNat < 10 ^ 9 := by
      rw [toNat_mod_second]
      exact Nat.mod_lt _ (by decide)
    rw [itcTicksForNs, if_neg short]
    dsimp only
    rw [BitVec.toNat_add, shortTicks_eq rest slow proper, toNat_mod_second, BitVec.toNat_mul,
      BitVec.toNat_udiv, BitVec.toNat_setWidth_of_le (by decide), Nat.mod_add_mod,
      whole_split (10 ^ 9) frequencyHz.toNat fraction.toNat (by decide) elapsed.toNat]
    rfl

theorem itcTicksForNs_fraction (elapsed : Word)
    (slow : frequencyHz.toNat < 2 ^ 31) (proper : ProperFraction fraction) :
    (itcTicksForNs elapsed frequencyHz fraction).2.toNat =
      carried (10 ^ 9) frequencyHz.toNat fraction.toNat elapsed.toNat := by
  by_cases short : elapsed < nanosecondsPerSecond
  · rw [itcTicksForNs, if_pos short]
    exact shortFraction_eq short slow proper
  · have rest : (elapsed % nanosecondsPerSecond).toNat < 10 ^ 9 := by
      rw [toNat_mod_second]
      exact Nat.mod_lt _ (by decide)
    rw [itcTicksForNs, if_neg short]
    dsimp only
    rw [shortFraction_eq rest slow proper, toNat_mod_second, ← carried_split]

/-- At a supported frequency no conversion overflows. -/
theorem productsFit_of_supported (supported : Supported frequencyHz)
    (proper : ProperFraction fraction) {elapsed : Nat} (fits : elapsed < 2 ^ 63) :
    ProductsFit elapsed frequencyHz.toNat fraction.toNat := by
  unfold ProductsFit
  have slow : frequencyHz.toNat < 2 ^ 31 := lt_of_le_of_lt supported.2 (by decide)
  split
  · rename_i short
    exact lt_trans (shortProduct_lt short slow proper) (by decide)
  · -- There are at most 2^63 / 10^9 seconds, and each makes at most 1.6 * 10^9 ticks.
    have rest := shortProduct_lt (Nat.mod_lt elapsed (show 0 < 10 ^ 9 by decide)) slow proper
    have seconds : elapsed / 10 ^ 9 ≤ 9223372036 := by omega
    have product : elapsed / 10 ^ 9 * frequencyHz.toNat ≤ 9223372036 * 1600000000 :=
      Nat.mul_le_mul seconds supported.2
    have tail : (elapsed % 10 ^ 9 * frequencyHz.toNat + fraction.toNat) / 10 ^ 9 ≤
        2 ^ 62 / 10 ^ 9 :=
      Nat.div_le_div_right rest.le
    omega

theorem whole_lt_of_productsFit {elapsed fraction : Nat}
    (fits : ProductsFit elapsed frequency fraction) :
    whole (10 ^ 9) frequency fraction elapsed < 2 ^ 64 := by
  unfold ProductsFit at fits
  split at fits
  · exact lt_of_le_of_lt (Nat.div_le_self _ _) fits
  · rw [whole_split (10 ^ 9) frequency fraction (by decide)]
    exact fits.2.2

end Conversion

section Runs

/-- Calls that move the counter, and anything in between that leaves it alone. -/
inductive Call where
  | sync (now : Instant)
  | advancePendingItm (now : Instant)
  /-- Everything but the counter takes other values. -/
  | elsewhere (others : IntervalTimer)

/-- The reading of the clock that a call makes. -/
def Call.reading : Call → Option Instant
  | .sync now => some now
  | .advancePendingItm now => some now
  | .elsewhere _ => none

/-- What a call does. -/
def IntervalTimer.call (timer : IntervalTimer) : Call → IntervalTimer
  | .sync now => { timer with itc := timer.itc.sync now }
  | .advancePendingItm now => timer.itcAdvancePendingItm now
  | .elsewhere others => { others with itc := timer.itc }

/-- What a run of calls does. -/
def IntervalTimer.calls (timer : IntervalTimer) (run : List Call) : IntervalTimer :=
  run.foldl call timer

/-- The last reading of a run. -/
def lastReading (start : Instant) (run : List Call) : Instant :=
  run.foldl (fun reading call => call.reading.getD reading) start

/-- Whether a call would owe more ticks than the debt can hold. -/
def IntervalTimer.Saturates (timer : IntervalTimer) : Call → Prop
  | .advancePendingItm now =>
    let timer := { timer with itc := timer.itc.sync now }
    timer.exposesMatch ∧ uint64Max - timer.itc.tickDebt < timer.lastMatch + 1 - timer.itc.arItc
  | _ => False

/-- A run whose readings do not decrease and that saturates nowhere. -/
def IntervalTimer.Admits (timer : IntervalTimer) : List Call → Prop
  | [] => True
  | call :: rest =>
    (∀ now, call.reading = some now → timer.itc.lastNs.ns ≤ now.ns) ∧ ¬timer.Saturates call ∧
      (timer.call call).Admits rest

/-- The exact ticks between two readings. -/
def Itc.ticksUntil (start : Itc) (now : Instant) : Nat :=
  ((now.ns - start.lastNs.ns) * start.frequencyHz.toNat + start.fraction.toNat) / 10 ^ 9

/-- How far the counter has moved since the start of a run, without wrapping: the ticks that have
passed and those that are owed. -/
def Itc.moved (start current : Itc) : Nat :=
  start.ticksUntil current.lastNs + current.tickDebt.toNat

/-- What a counter keeps in step with the clock, seen from where a run started. -/
structure InStep (start current : Itc) : Prop where
  frequency : current.frequencyHz = start.frequencyHz
  later : start.lastNs.ns ≤ current.lastNs.ns
  counted : current.arItc - current.tickDebt =
    start.arItc - start.tickDebt + BitVec.ofNat 64 (start.ticksUntil current.lastNs)
  remainder : current.fraction.toNat =
    ((current.lastNs.ns - start.lastNs.ns) * start.frequencyHz.toNat + start.fraction.toNat) %
      10 ^ 9

variable {itc first second third start : Itc} {now : Instant} {timer : IntervalTimer}

theorem InStep.refl (proper : ProperFraction itc.fraction) : InStep itc itc where
  frequency := rfl
  later := le_rfl
  counted := by
    have none := whole_zero (10 ^ 9) itc.frequencyHz.toNat itc.fraction.toNat proper
    rw [Itc.ticksUntil, Nat.sub_self]
    change _ = _ + BitVec.ofNat 64 (whole _ _ _ _)
    rw [none, BitVec.add_zero]
  remainder := by
    rw [Nat.sub_self]
    exact (carried_zero (10 ^ 9) itc.frequencyHz.toNat itc.fraction.toNat proper).symm

/-- Keeping in step composes. -/
theorem InStep.trans (one : InStep first second) (two : InStep second third) :
    InStep first third ∧
      first.ticksUntil third.lastNs = first.ticksUntil second.lastNs +
        second.ticksUntil third.lastNs := by
  have interval : third.lastNs.ns - first.lastNs.ns =
      second.lastNs.ns - first.lastNs.ns + (third.lastNs.ns - second.lastNs.ns) := by
    have := one.later
    have := two.later
    omega
  have fraction :
      second.fraction.toNat = carried (10 ^ 9) first.frequencyHz.toNat first.fraction.toNat
      (second.lastNs.ns - first.lastNs.ns) := one.remainder
  -- The two conversions are one conversion over both intervals.
  have ticks : first.ticksUntil third.lastNs =
      first.ticksUntil second.lastNs + second.ticksUntil third.lastNs := by
    rw [Itc.ticksUntil, interval, Itc.ticksUntil, Itc.ticksUntil, one.frequency, fraction]
    exact whole_add (10 ^ 9) _ _ (by decide) _ _
  refine ⟨⟨two.frequency.trans one.frequency, le_trans one.later two.later, ?_, ?_⟩, ticks⟩
  · rw [two.counted, one.counted, ticks, BitVec.ofNat_add, BitVec.add_assoc]
  · rw [two.remainder, interval, one.frequency, fraction]
    exact (carried_add (10 ^ 9) _ _ _ _).symm

theorem InStep.moved_add (one : InStep first second) (two : InStep second third) :
    first.moved third + second.tickDebt.toNat = first.moved second + second.moved third := by
  rw [Itc.moved, Itc.moved, Itc.moved, (one.trans two).2]
  omega

/-- Going on moves the counter by the ticks in between. -/
theorem InStep.onward {middle final : Itc} (reached : InStep start middle)
    (onward : InStep middle final) (forward : middle.tickDebt.toNat ≤ middle.moved final) :
    start.moved middle ≤ start.moved final ∧
      final.arItc = middle.arItc + BitVec.ofNat 64 (start.moved final - start.moved middle) := by
  have sum := reached.moved_add onward
  refine ⟨by omega, ?_⟩
  -- The difference of the counters is that of the ticks and of the debts.
  have amount : start.moved final - start.moved middle + middle.tickDebt.toNat =
      middle.ticksUntil final.lastNs + final.tickDebt.toNat := by
    rw [show middle.moved final = middle.ticksUntil final.lastNs +
      final.tickDebt.toNat from rfl] at sum forward
    omega
  have words : BitVec.ofNat 64 (start.moved final - start.moved middle) + middle.tickDebt =
      BitVec.ofNat 64 (middle.ticksUntil final.lastNs) + final.tickDebt := by
    have := congrArg (BitVec.ofNat 64) amount
    rwa [BitVec.ofNat_add, BitVec.ofNat_add, BitVec.ofNat_toNat, BitVec.ofNat_toNat,
      BitVec.setWidth_eq, BitVec.setWidth_eq] at this
  linear_combination onward.counted - words

theorem InStep.proper {current : Itc} (together : InStep start current) :
    ProperFraction current.fraction := by
  unfold ProperFraction
  rw [together.remainder]
  exact Nat.mod_lt _ (by decide)

/-- Synchronising keeps the counter in step. -/
theorem sync_inStep (slow : itc.frequencyHz.toNat < 2 ^ 31)
    (proper : ProperFraction itc.fraction) (later : itc.lastNs.ns ≤ now.ns) :
    InStep itc (itc.sync now) ∧ (itc.sync now).lastNs = now := by
  unfold Itc.sync
  split
  case isFalse idle =>
    -- The reading has not moved.
    refine ⟨InStep.refl proper, ?_⟩
    cases now
    cases at_ : itc.lastNs
    simp only [at_] at idle later
    congr
    omega
  case isTrue elapsed =>
    have elapsedNs : (BitVec.ofNat 64 (now.ns - itc.lastNs.ns)).toNat = now.ns - itc.lastNs.ns := by
      have := now.fits
      rw [BitVec.toNat_ofNat, Nat.mod_eq_of_lt (by omega)]
    have ticks := itcTicksForNs_ticks (BitVec.ofNat 64 (now.ns - itc.lastNs.ns)) slow proper
    have remainder := itcTicksForNs_fraction (BitVec.ofNat 64 (now.ns - itc.lastNs.ns)) slow proper
    rw [elapsedNs] at ticks remainder
    dsimp only
    -- Whether the ticks repay a debt or move the counter, their difference grows by them.
    split
    · refine ⟨⟨rfl, later, ?_, remainder⟩, rfl⟩
      change itc.arItc - (itc.tickDebt - _) = _ + BitVec.ofNat 64 (whole _ _ _ _)
      rw [← ticks]
      bv_omega
    · refine ⟨⟨rfl, later, ?_, remainder⟩, rfl⟩
      change itc.arItc + (_ - itc.tickDebt) - 0 = _ + BitVec.ofNat 64 (whole _ _ _ _)
      rw [← ticks]
      bv_omega

/-- Synchronising never moves the counter back. -/
theorem sync_moved (supported : Supported itc.frequencyHz)
    (proper : ProperFraction itc.fraction) (later : itc.lastNs.ns ≤ now.ns) :
    itc.tickDebt.toNat ≤ itc.moved (itc.sync now) := by
  have slow : itc.frequencyHz.toNat < 2 ^ 31 := lt_of_le_of_lt supported.2 (by decide)
  rw [Itc.moved, (sync_inStep slow proper later).2]
  have elapsedFits : now.ns - itc.lastNs.ns < 2 ^ 63 := lt_of_le_of_lt (Nat.sub_le _ _) now.fits
  have exact := whole_lt_of_productsFit (productsFit_of_supported supported proper elapsedFits)
  have ticks := itcTicksForNs_ticks (BitVec.ofNat 64 (now.ns - itc.lastNs.ns)) slow proper
  rw [BitVec.toNat_ofNat, Nat.mod_eq_of_lt (by omega)] at ticks
  have count :
      (itcTicksForNs (BitVec.ofNat 64 (now.ns - itc.lastNs.ns)) itc.frequencyHz
        itc.fraction).1.toNat =
      itc.ticksUntil now := by
    rw [ticks, BitVec.toNat_ofNat, Nat.mod_eq_of_lt exact]
    rfl
  unfold Itc.sync
  split
  case isFalse => omega
  case isTrue =>
    dsimp only
    -- A debt shrinks by no more than the ticks that have passed.
    split
    · bv_omega
    · bv_omega

theorem advance_inStep {ticks : Word} (proper : ProperFraction itc.fraction)
    (unsaturated : ¬uint64Max - itc.tickDebt < ticks) :
    InStep itc (itc.advance ticks) ∧ itc.tickDebt.toNat ≤ itc.moved (itc.advance ticks) := by
  have same := InStep.refl proper
  have debt : (itc.advance ticks).tickDebt = itc.tickDebt + ticks := if_neg unsaturated
  have top : uint64Max.toNat = 2 ^ 64 - 1 := rfl
  refine ⟨⟨rfl, le_rfl, ?_, same.remainder⟩, ?_⟩
  · rw [debt]
    change itc.arItc + ticks - (itc.tickDebt + ticks) =
      _ + BitVec.ofNat 64 (itc.ticksUntil itc.lastNs)
    rw [← same.counted]
    bv_omega
  · rw [Itc.moved, debt]
    bv_omega

/-- One call keeps the counter in step. -/
theorem call_inStep {call : Call} (slow : timer.itc.frequencyHz.toNat < 2 ^ 31)
    (proper : ProperFraction timer.itc.fraction)
    (later : ∀ now, call.reading = some now → timer.itc.lastNs.ns ≤ now.ns)
    (unsaturated : ¬timer.Saturates call) :
    InStep timer.itc (timer.call call).itc ∧
      (timer.call call).itc.lastNs = call.reading.getD timer.itc.lastNs ∧
      (Supported timer.itc.frequencyHz →
        timer.itc.tickDebt.toNat ≤ timer.itc.moved (timer.call call).itc) := by
  cases call with
  | sync now =>
    obtain ⟨together, reached⟩ := sync_inStep slow proper (later now rfl)
    exact ⟨together, reached, fun supported => sync_moved supported proper (later now rfl)⟩
  | advancePendingItm now =>
    obtain ⟨together, reached⟩ := sync_inStep slow proper (later now rfl)
    have forward := fun supported : Supported timer.itc.frequencyHz =>
      sync_moved supported proper (later now rfl)
    simp only [IntervalTimer.call, IntervalTimer.itcAdvancePendingItm]
    split
    case isFalse => exact ⟨together, reached, forward⟩
    case isTrue exposed =>
      -- The ticks past the match come on top of what the clock has made.
      obtain ⟨ahead, owed⟩ := advance_inStep together.proper
        (fun saturated => unsaturated ⟨exposed, saturated⟩)
      obtain ⟨both, -⟩ := together.trans ahead
      refine ⟨both, reached, fun supported => ?_⟩
      have first := forward supported
      have distance := together.moved_add ahead
      change timer.itc.tickDebt.toNat ≤ timer.itc.moved ((timer.itc.sync now).advance _)
      dsimp only at owed distance
      omega
  | elsewhere others =>
    refine ⟨InStep.refl proper, rfl, fun _ => ?_⟩
    rw [Itc.moved]
    exact Nat.le_add_left _ _

/-- A run keeps the counter in step. -/
theorem calls_inStep {run : List Call}
    (slow : timer.itc.frequencyHz.toNat < 2 ^ 31) (proper : ProperFraction timer.itc.fraction)
    (admitted : timer.Admits run) :
    InStep timer.itc (timer.calls run).itc ∧
      (timer.calls run).itc.lastNs = lastReading timer.itc.lastNs run ∧
      (Supported timer.itc.frequencyHz →
        timer.itc.tickDebt.toNat ≤ timer.itc.moved (timer.calls run).itc) := by
  -- Each call starts where the one before it stopped.
  induction run generalizing timer with
  | nil =>
    refine ⟨InStep.refl proper, rfl, fun _ => ?_⟩
    rw [Itc.moved]
    exact Nat.le_add_left _ _
  | cons call rest ih =>
    obtain ⟨later, unsaturated, admitted⟩ := admitted
    obtain ⟨together, reached, forward⟩ := call_inStep slow proper later unsaturated
    obtain ⟨remaining, last, onward⟩ :=
      @ih (timer.call call) (by rw [together.frequency]; exact slow) together.proper admitted
    obtain ⟨both, -⟩ := together.trans remaining
    refine ⟨both, ?_, fun supported => ?_⟩
    · rw [reached] at last
      exact last
    · have first := forward supported
      have second := onward (by rw [together.frequency]; exact supported)
      have distance := together.moved_add remaining
      change _ ≤ timer.itc.moved ((timer.call call).calls rest).itc
      omega

theorem admits_append {earlier later : List Call} :
    timer.Admits (earlier ++ later) ↔ timer.Admits earlier ∧
      (timer.calls earlier).Admits later := by
  induction earlier generalizing timer with
  | nil => exact (and_iff_right trivial).symm
  | cons call rest ih =>
    rw [List.cons_append]
    simp only [IntervalTimer.Admits, ih, and_assoc]
    rfl

/-- In every run the counter less its debt has moved by the ticks between the first and the last
reading, the fraction is what they leave over, the counter never moves back and nothing
overflows. -/
theorem itc_follows_clock (timer : IntervalTimer) (earlier later : List Call)
    (slow : timer.itc.frequencyHz.toNat < 2 ^ 31) (proper : ProperFraction timer.itc.fraction)
    (admitted : timer.Admits (earlier ++ later)) :
    let start := timer.itc
    let middle := (timer.calls earlier).itc
    let final := (timer.calls (earlier ++ later)).itc
    let product := ((lastReading start.lastNs (earlier ++ later)).ns - start.lastNs.ns) *
      start.frequencyHz.toNat + start.fraction.toNat
    final.arItc - final.tickDebt = start.arItc - start.tickDebt +
      BitVec.ofNat 64 (product / 10 ^ 9) ∧
      final.fraction.toNat = product % 10 ^ 9 ∧ final.fraction.toNat < 10 ^ 9 ∧
      (Supported start.frequencyHz →
        (start.moved middle ≤ start.moved final ∧
          final.arItc = middle.arItc + BitVec.ofNat 64 (start.moved final - start.moved middle)) ∧
        ∀ now : Instant, ProductsFit (now.ns - middle.lastNs.ns) middle.frequencyHz.toNat
          middle.fraction.toNat) := by
  obtain ⟨together, last, -⟩ := calls_inStep slow proper admitted
  obtain ⟨before, after⟩ := admits_append.1 admitted
  obtain ⟨reached, -, -⟩ := calls_inStep slow proper before
  obtain ⟨onward, -, forward⟩ :=
    calls_inStep (by rw [reached.frequency]; exact slow) reached.proper after
  have split : timer.calls (earlier ++ later) = (timer.calls earlier).calls later :=
    List.foldl_append
  rw [← split] at onward forward
  intro start middle final product
  refine ⟨?_, ?_, together.proper, fun supported => ⟨?_, fun now => ?_⟩⟩
  · rw [together.counted, Itc.ticksUntil, last]
  · rw [together.remainder, last]
  · exact reached.onward onward (forward (by rw [reached.frequency]; exact supported))
  · rw [reached.frequency]
    exact productsFit_of_supported supported reached.proper
      (lt_of_le_of_lt (Nat.sub_le _ _) now.fits)

/-- A timer whose interrupt is in service, with the counter still at the match. -/
def servicedTimer : IntervalTimer where
  itc := ⟨1000000000, 10, .zero, 0, 0⟩
  crItm := 10
  crItv := 0x20
  armedValue := 10
  lastMatch := 10
  armed := false
  lastMatchValid := true
  deadline := none
  sapic :=
    { Sapic.Local.reset 0 ⟨false, false, false, false, 0, 0⟩ with
      isr := Bitmaps.insert (fun _ => 0) 0x20 }

/-- A tick that is handed out early and paid back five nanoseconds later. -/
theorem itc_follows_clock_serviced :
    let run : List Call := [.advancePendingItm ⟨0, by decide⟩, .sync ⟨5, by decide⟩]
    (servicedTimer.calls (run.take 1)).itc.arItc = 11 ∧
      (servicedTimer.calls run).itc.arItc - (servicedTimer.calls run).itc.tickDebt =
        servicedTimer.itc.arItc - servicedTimer.itc.tickDebt + 5 := by
  intro run
  have admitted :
      servicedTimer.Admits ([.advancePendingItm ⟨0, by decide⟩] ++ [.sync ⟨5, by decide⟩]) :=
    ⟨fun now same => by cases same; decide, fun saturated => absurd saturated.2 (by decide),
      fun now same => by cases same; decide, fun saturated => saturated, trivial⟩
  obtain ⟨counted, -⟩ :=
    itc_follows_clock servicedTimer _ _ (by decide) (by unfold ProperFraction; decide) admitted
  exact ⟨by decide, counted⟩

end Runs

end Ia64.Timer
