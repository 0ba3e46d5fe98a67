import Mathlib.Data.BitVec
import Mathlib.Data.List.Pairwise

/-! The timers of events: elapsed time is accumulated from poll to poll, and no phase is lost. -/

namespace Ia64.Efi.Events

/-- What SetTimer is asked for. -/
inductive TimerType where
  | cancel
  | periodic
  | relative
deriving DecidableEq, Repr

/-- The timer of an event; times are in units of 100 ns. -/
structure Timer where
  active : Bool
  type : TimerType
  lastTick : BitVec 64
  remaining100ns : Nat
  partialTicks : Nat
  period100ns : Nat
deriving DecidableEq, Repr

/-- A timer that is not set. -/
def Timer.idle : Timer := ⟨false, .cancel, 0, 0, 0, 0⟩

/-- Set or cancel a timer. -/
def setTimer (type : TimerType) (now : BitVec 64) (triggerTime : Nat) : Timer :=
  match type with
  | .cancel => .idle
  | .periodic => ⟨true, .periodic, now, triggerTime, 0, triggerTime⟩
  | .relative => ⟨true, .relative, now, triggerTime, 0, 0⟩

variable (ticksPer100ns : Nat) (timer : Timer)

/-- Account for the ticks since the last poll of a running timer, and tell whether it has
expired. -/
def Timer.consume (now : BitVec 64) : Bool × Timer :=
  let delta := (now - timer.lastTick).toNat
  if delta = 0 then (false, timer)
  else
    let timer := { timer with lastTick := now }
    if timer.remaining100ns = 0 then
      -- A trigger of zero expires on the first tick after SetTimer.
      (true, { timer with partialTicks := 0, active := timer.type == .periodic && timer.active })
    else
      let sum := timer.partialTicks + delta % ticksPer100ns
      let carries := ticksPer100ns ≤ sum
      let elapsed := if carries then delta / ticksPer100ns + 1 else delta / ticksPer100ns
      let timer := { timer with partialTicks := if carries then sum - ticksPer100ns else sum }
      if elapsed < timer.remaining100ns then
        (false, { timer with remaining100ns := timer.remaining100ns - elapsed })
      else
        let overrun := elapsed - timer.remaining100ns
        if timer.type = .periodic then
          if timer.period100ns = 0
            then (true, { timer with remaining100ns := 0, partialTicks := 0 })
          -- Missed periods are skipped at once.
          else (true,
            { timer with remaining100ns := timer.period100ns - overrun % timer.period100ns })
        else (true, { timer with active := false, remaining100ns := 0, partialTicks := 0 })

/-- Poll a timer, which expires only while it is running. -/
def Timer.poll (now : BitVec 64) : Bool × Timer :=
  if timer.active then timer.consume ticksPer100ns now else (false, timer)

/-- A timer after some polls. -/
def Timer.polled (polls : List (BitVec 64)) : Timer :=
  polls.foldl (fun timer now => (timer.poll ticksPer100ns now).2) timer

section Phase

variable {ticks : Nat} {start last now : BitVec 64} {period trigger : Nat}

/-- Whole units of 100 ns since the timer was set. -/
def elapsed (ticks : Nat) (start now : BitVec 64) : Nat := (now.toNat - start.toNat) / ticks

/-- Ticks since the last whole unit. -/
def leftover (ticks : Nat) (start now : BitVec 64) : Nat := (now.toNat - start.toNat) % ticks

/-- A poll adds the time since the last one. -/
theorem elapsed_add (positive : 0 < ticks) (begun : start ≤ last) (later : last ≤ now) :
    let delta := (now - last).toNat
    let sum := leftover ticks start last + delta % ticks
    elapsed ticks start now =
        elapsed ticks start last + (if ticks ≤ sum then delta / ticks + 1 else delta / ticks) ∧
      leftover ticks start now = if ticks ≤ sum then sum - ticks else sum := by
  intro delta sum
  rw [BitVec.le_def] at begun later
  have difference : delta = now.toNat - last.toNat := BitVec.toNat_sub_of_le (BitVec.le_def.2 later)
  have total : now.toNat - start.toNat = last.toNat - start.toNat + delta := by omega
  have first := Nat.mod_lt (last.toNat - start.toNat) positive
  have second := Nat.mod_lt delta positive
  -- The division of a sum carries when the remainders reach the divisor.
  have quotient := Nat.add_div (a := last.toNat - start.toNat) (b := delta) positive
  have remainder := Nat.add_mod (last.toNat - start.toNat) delta ticks
  have same : (last.toNat - start.toNat) % ticks + delta % ticks = sum := rfl
  rw [← total, same] at quotient remainder
  by_cases carries : ticks ≤ sum
  · rw [if_pos carries, if_pos carries]
    rw [if_pos carries] at quotient
    have wrapped : sum % ticks = sum - ticks := by
      rw [Nat.mod_eq_sub_mod carries]
      exact Nat.mod_eq_of_lt (by omega)
    exact ⟨quotient.trans (Nat.add_assoc _ _ _), remainder.trans wrapped⟩
  · rw [if_neg carries, if_neg carries]
    rw [if_neg carries] at quotient
    exact ⟨quotient, remainder.trans (Nat.mod_eq_of_lt (Nat.lt_of_not_le carries))⟩

theorem consume_same (timer : Timer) : timer.consume ticks timer.lastTick = (false, timer) := by
  simp [Timer.consume]

theorem delta_ne_zero (later : last < now) : (now - last).toNat ≠ 0 := by
  rw [BitVec.lt_def] at later
  rw [BitVec.toNat_sub_of_le (BitVec.le_def.2 (Nat.le_of_lt later))]
  omega

/-- A running periodic timer, from what has elapsed since it was set. -/
def periodicAt (ticks : Nat) (start : BitVec 64) (period : Nat) (last : BitVec 64) : Timer :=
  ⟨true, .periodic, last, period - elapsed ticks start last % period,
    leftover ticks start last, period⟩

/-- A running one-shot timer, from what has elapsed since it was set. -/
def relativeAt (ticks : Nat) (start : BitVec 64) (trigger : Nat) (last : BitVec 64) : Timer :=
  ⟨true, .relative, last, trigger - elapsed ticks start last, leftover ticks start last, 0⟩

/-- A later poll of a timer with time left. -/
theorem consume_of_running (positive : 0 < ticks) (begun : start ≤ last) (later : last < now)
    (timer : Timer) (polled : timer.lastTick = last)
    (carried : timer.partialTicks = leftover ticks start last) (left : timer.remaining100ns ≠ 0) :
    timer.consume ticks now =
      let passed := elapsed ticks start now - elapsed ticks start last
      let timer := { timer with lastTick := now, partialTicks := leftover ticks start now }
      if passed < timer.remaining100ns then
        (false, { timer with remaining100ns := timer.remaining100ns - passed })
      else if timer.type = .periodic then
        if timer.period100ns = 0 then (true, { timer with remaining100ns := 0, partialTicks := 0 })
        else
          (true, { timer with
            remaining100ns :=
              timer.period100ns - (passed - timer.remaining100ns) % timer.period100ns })
      else (true, { timer with active := false, remaining100ns := 0, partialTicks := 0 }) := by
  obtain ⟨units, rest⟩ := elapsed_add positive begun (BitVec.le_of_lt later)
  have some := delta_ne_zero later
  have passed := Nat.sub_eq_of_eq_add' units
  simp only [Timer.consume, polled, carried, if_neg some, if_neg left]
  rw [passed, rest]

/-- A periodic timer expires in phase. -/
theorem poll_periodic (positive : 0 < ticks) (proper : 0 < period) (begun : start ≤ last)
    (later : last ≤ now) :
    (periodicAt ticks start period last).poll ticks now =
      (decide (elapsed ticks start last / period < elapsed ticks start now / period),
        periodicAt ticks start period now) := by
  have running : (periodicAt ticks start period last).poll ticks now =
      (periodicAt ticks start period last).consume ticks now := rfl
  rw [running]
  by_cases same : last = now
  · subst same
    rw [show (periodicAt ticks start period last).consume ticks last = _ from
      consume_same (periodicAt ticks start period last)]
    simp
  have below := Nat.mod_lt (elapsed ticks start last) proper
  have grows : elapsed ticks start last ≤ elapsed ticks start now := by
    have units := (elapsed_add positive begun later).1
    omega
  have split := Nat.div_add_mod (elapsed ticks start last) period
  rw [consume_of_running positive begun (BitVec.lt_of_le_ne later same) _ rfl rfl
    (show period - elapsed ticks start last % period ≠ 0 by omega)]
  simp only [periodicAt]
  generalize elapsed ticks start last = before at *
  generalize elapsed ticks start now = after at *
  by_cases early : after - before < period - before % period
  · -- The period goes on.
    have total : after = period * (before / period) + (before % period + (after - before)) := by
      omega
    have quotient : after / period = before / period := by
      refine (congrArg (· / period) total).trans ?_
      rw [Nat.mul_add_div proper,
        Nat.div_eq_of_lt (show before % period + (after - before) < period by omega), Nat.add_zero]
    have remainder : after % period = before % period + (after - before) := by
      refine (congrArg (· % period) total).trans ?_
      rw [Nat.mul_add_mod]
      exact Nat.mod_eq_of_lt (by omega)
    rw [if_pos early, quotient, remainder, decide_eq_false (Nat.lt_irrefl _)]
    congr 2
    omega
  · have total :
        after = period * (before / period + 1) + (after - before - (period - before % period)) := by
      rw [Nat.mul_add, Nat.mul_one]
      omega
    have quotient : before / period < after / period := by
      have larger : after / period = _ / period := congrArg (· / period) total
      rw [Nat.mul_add_div proper] at larger
      exact Nat.lt_of_lt_of_le (Nat.lt_succ_self _) (larger ▸ Nat.le_add_right _ _)
    have remainder : after % period = (after - before - (period - before % period)) % period :=
      (congrArg (· % period) total).trans (Nat.mul_add_mod _ _ _)
    simp [early, Nat.ne_of_gt proper, remainder, quotient]

/-- A one-shot timer expires when its time comes. -/
theorem poll_relative (positive : 0 < ticks) (begun : start ≤ last) (later : last ≤ now)
    (waits : elapsed ticks start last < trigger) :
    if elapsed ticks start now < trigger then
      (relativeAt ticks start trigger last).poll ticks now = (false,
        relativeAt ticks start trigger now)
    else
      ((relativeAt ticks start trigger last).poll ticks now).1 = true ∧
        ((relativeAt ticks start trigger last).poll ticks now).2.active = false := by
  have running : (relativeAt ticks start trigger last).poll ticks now =
      (relativeAt ticks start trigger last).consume ticks now := rfl
  rw [running]
  by_cases same : last = now
  · subst same
    rw [if_pos waits]
    exact consume_same (relativeAt ticks start trigger last)
  rw [consume_of_running positive begun (BitVec.lt_of_le_ne later same) _ rfl rfl
    (show trigger - elapsed ticks start last ≠ 0 by omega)]
  have grows : elapsed ticks start last ≤ elapsed ticks start now := by
    have units := (elapsed_add positive begun later).1
    omega
  by_cases early : elapsed ticks start now < trigger
  · have left : elapsed ticks start now - elapsed ticks start last <
        trigger - elapsed ticks start last := by omega
    have rest :
        trigger - elapsed ticks start last - (elapsed ticks start now - elapsed ticks start last) =
        trigger - elapsed ticks start now := by omega
    simp [relativeAt, early, left, rest]
  · have gone : ¬elapsed ticks start now - elapsed ticks start last <
        trigger - elapsed ticks start last := by omega
    simp [relativeAt, early, gone]

/-- Ticks of polls, in order from the tick at which the timer was set. -/
def Ordered (start : BitVec 64) (polls : List (BitVec 64)) : Prop :=
  (start :: polls).Pairwise (· ≤ ·)

instance (start : BitVec 64) (polls : List (BitVec 64)) : Decidable (Ordered start polls) :=
  inferInstanceAs (Decidable (List.Pairwise _ _))

/-- The tick of the last poll, or the one at which the timer was set. -/
def lastPoll (start : BitVec 64) (polls : List (BitVec 64)) : BitVec 64 := polls.getLastD start

variable {polls : List (BitVec 64)}

theorem start_le_lastPoll (ordered : Ordered start polls) : start ≤ lastPoll start polls := by
  rcases List.eq_nil_or_concat polls with rfl | ⟨init, final, rfl⟩
  · exact BitVec.le_refl _
  · rw [lastPoll, List.concat_eq_append, List.getLastD_concat]
    exact (List.pairwise_cons.1 ordered).1 final (by simp)

theorem lastPoll_mem (polls : List (BitVec 64)) : lastPoll start polls ∈ start :: polls := by
  rcases List.eq_nil_or_concat polls with rfl | ⟨init, final, rfl⟩
  · simp [lastPoll]
  · simp [lastPoll]

theorem ordered_concat (ordered : Ordered start (polls ++ [now])) :
    Ordered start polls ∧ lastPoll start polls ≤ now := by
  rw [Ordered, ← List.cons_append, List.pairwise_append] at ordered
  exact ⟨ordered.1, ordered.2.2 _ (lastPoll_mem polls) now (List.mem_singleton_self now)⟩

/-- No poll before the last one has seen more time pass. -/
theorem elapsed_le_lastPoll (ordered : Ordered start polls) {earlier : BitVec 64}
    (member : earlier ∈ start :: polls) : elapsed ticks start earlier ≤ elapsed ticks start
    (lastPoll start polls) := by
  have later : earlier ≤ lastPoll start polls := by
    rcases List.eq_nil_or_concat polls with rfl | ⟨init, final, rfl⟩
    · rw [List.mem_singleton.1 member]
      exact BitVec.le_refl _
    · rw [List.concat_eq_append] at member ordered ⊢
      rw [show lastPoll start (init ++ [final]) = final by simp [lastPoll]]
      rw [← List.cons_append] at member
      rw [Ordered, ← List.cons_append, List.pairwise_append] at ordered
      rcases List.mem_append.1 member with here | here
      · exact ordered.2.2 _ here final (List.mem_singleton_self final)
      · rw [List.mem_singleton.1 here]
        exact BitVec.le_refl _
  exact Nat.div_le_div_right (Nat.sub_le_sub_right (BitVec.le_def.1 later) _)

theorem polled_concat (timer : Timer) (polls : List (BitVec 64)) (now : BitVec 64) :
    timer.polled ticks (polls ++ [now]) = ((timer.polled ticks polls).poll ticks now).2 := by
  rw [Timer.polled, List.foldl_append]
  rfl

theorem polled_periodic (positive : 0 < ticks) (proper : 0 < period)
    (ordered : Ordered start polls) :
    (setTimer .periodic start period).polled ticks polls =
      periodicAt ticks start period (lastPoll start polls) := by
  -- The induction is on the polls, the last one first.
  induction polls using List.reverseRecOn with
  | nil => simp [Timer.polled, setTimer, lastPoll, periodicAt, elapsed, leftover]
  | append_singleton polls now ih =>
    obtain ⟨before, later⟩ := ordered_concat ordered
    rw [polled_concat, ih before, poll_periodic positive proper (start_le_lastPoll before) later]
    simp [lastPoll]

/-- A one-shot timer is off once its time has come. -/
theorem polled_relative (positive : 0 < ticks) (proper : 0 < trigger)
    (ordered : Ordered start polls) :
    if elapsed ticks start (lastPoll start polls) < trigger then
      (setTimer .relative start trigger).polled ticks polls =
        relativeAt ticks start trigger (lastPoll start polls)
    else ((setTimer .relative start trigger).polled ticks polls).active = false := by
  induction polls using List.reverseRecOn with
  | nil =>
    have none : elapsed ticks start start = 0 := by simp [elapsed]
    rw [show lastPoll start [] = start from rfl, none, if_pos proper]
    simp [Timer.polled, setTimer, relativeAt, elapsed, leftover]
  | append_singleton polls now ih =>
    obtain ⟨before, later⟩ := ordered_concat ordered
    have begun := start_le_lastPoll before
    have grows := (elapsed_add positive begun later).1
    rw [polled_concat, show lastPoll start (polls ++ [now]) = now by simp [lastPoll]]
    have earlier := ih before
    by_cases waits : elapsed ticks start (lastPoll start polls) < trigger
    · rw [if_pos waits] at earlier
      have polled := poll_relative positive begun later waits
      rw [earlier]
      split_ifs at polled ⊢
      · rw [polled]
      · exact polled.2
    · rw [if_neg waits] at earlier
      rw [if_neg (by omega), Timer.poll, earlier]
      simpa using earlier

theorem polled_immediate {type : TimerType} (still : ∀ now ∈ polls, now = start)
    (set : type ≠ .cancel) :
    (setTimer type start 0).polled ticks polls = setTimer type start 0 := by
  induction polls with
  | nil => rfl
  | cons now polls ih =>
    have here : now = start := still now List.mem_cons_self
    have unchanged : ((setTimer type start 0).poll ticks start).2 = setTimer type start 0 := by
      cases type <;> simp [setTimer, Timer.poll, Timer.consume, Timer.idle]
    rw [Timer.polled, List.foldl_cons, here, unchanged]
    exact ih fun now member => still now (List.mem_cons_of_mem _ member)

/-- Timers keep phase: a periodic timer expires at a poll exactly if a period has ended since the
last one, a one-shot timer at the first poll at which its time has come, and a timer with trigger
zero first at the first later tick. -/
theorem timers_keep_phase (positive : 0 < ticks) {polls : List (BitVec 64)}
    (ordered : Ordered start (polls ++ [now])) :
    (∀ period > 0,
      (((setTimer .periodic start period).polled ticks polls).poll ticks now).1 = true ↔
        elapsed ticks start (lastPoll start polls) / period < elapsed ticks start now / period) ∧
      (∀ trigger > 0,
        (((setTimer .relative start trigger).polled ticks polls).poll ticks now).1 = true ↔
        trigger ≤ elapsed ticks start now ∧ ∀ earlier ∈ start :: polls,
          elapsed ticks start earlier < trigger) ∧
      ∀ type ≠ .cancel, (∀ earlier ∈ polls, earlier = start) →
        ((((setTimer type start 0).polled ticks polls).poll ticks now).1 = true ↔ start < now) := by
  obtain ⟨before, later⟩ := ordered_concat ordered
  have begun := start_le_lastPoll before
  refine ⟨fun period proper => ?_, fun trigger proper => ?_, fun type set still => ?_⟩
  · rw [polled_periodic positive proper before, poll_periodic positive proper begun later]
    simp
  · have polled := polled_relative positive proper before
    by_cases waits : elapsed ticks start (lastPoll start polls) < trigger
    · -- The timer is still running at this poll.
      have earlier : ∀ earlier ∈ start :: polls, elapsed ticks start earlier < trigger :=
        fun earlier member =>
        Nat.lt_of_le_of_lt (elapsed_le_lastPoll before member) waits
      rw [if_pos waits] at polled
      have expires := poll_relative positive begun later waits
      rw [polled]
      split_ifs at expires with early
      · rw [expires]
        simp [early]
      · exact ⟨fun _ => ⟨Nat.le_of_not_lt early, earlier⟩, fun _ => expires.1⟩
    · rw [if_neg waits] at polled
      rw [Timer.poll, polled]
      simp only [Bool.false_eq_true, if_false, false_iff, not_and, not_forall]
      exact fun _ => ⟨_, lastPoll_mem polls, waits⟩
  · rw [polled_immediate still set]
    by_cases same : start = now
    · subst same
      cases type <;> simp [setTimer, Timer.poll, Timer.consume, Timer.idle]
    · have after : start < now :=
        BitVec.lt_of_le_ne ((List.pairwise_cons.1 ordered).1 now (by simp)) same
      have some := delta_ne_zero after
      cases type with
      | cancel => exact absurd rfl set
      | periodic =>
        simp only [setTimer, Timer.poll, Timer.consume, if_true, if_neg some, after]
      | relative =>
        simp only [setTimer, Timer.poll, Timer.consume, if_true, if_neg some, after]

/-- Three polls of a timer with two ticks in a unit. -/
theorem timers_keep_phase_three :
    (∀ period > 0, (((setTimer .periodic 10#64 period).polled 2 [13, 20]).poll 2 25).1 = true ↔
        elapsed 2 10 (lastPoll 10 [13, 20]) / period < elapsed 2 10 25 / period) ∧
      (∀ trigger > 0, (((setTimer .relative 10#64 trigger).polled 2 [13, 20]).poll 2 25).1 = true ↔
        trigger ≤ elapsed 2 10 25 ∧ ∀ earlier ∈ [10, 13, 20], elapsed 2 10 earlier < trigger) ∧
      ∀ type ≠ .cancel, (∀ earlier ∈ [13, 20], earlier = 10#64) →
        ((((setTimer type 10#64 0).polled 2 [13, 20]).poll 2 25).1 = true ↔ 10#64 < 25) :=
  timers_keep_phase (by decide) (by decide)

end Phase

end Ia64.Efi.Events
