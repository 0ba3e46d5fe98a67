import Ia64.Timer.Itc
import Mathlib.Data.BitVec

/-! The interval timer interrupt: matching, arming the host timer, and its callback. -/

namespace Ia64.Timer

open IntervalTimer

/-- One comparison of the counter with the match value, and whether it raised the interrupt. -/
structure Observation where
  itc : Word
  raised : Bool
deriving DecidableEq, Repr

/-- The outcome of a comparison: whether there is nothing left to wait for, and whether it raised
the interrupt. -/
structure Pending where
  settled : Bool
  raised : Bool
  timer : IntervalTimer

namespace IntervalTimer

variable (timer : IntervalTimer)

/-- Make the vector in ITV pending, once for each match. -/
def itmRaise (value : Word) : Bool × IntervalTimer :=
  match timer.itvVector with
  | none => (false, timer)
  | some vector =>
    if timer.lastMatchValid && timer.lastMatch == value then
      (false, { timer with sapic := timer.sapic.updateInterrupt })
    else
      (true, { timer with
        lastMatch := value, lastMatchValid := true, sapic := timer.sapic.setIrq vector })

/-- Compare the counter with a match value. -/
def itmUpdatePending (itc value : Word) (wasArmed : Bool) : Pending :=
  let deltaTicks := value - itc
  if timer.itvVector.isNone then ⟨true, false, timer⟩
  else if timer.itvMasked then ⟨true, false, timer⟩
  else if 0 < deltaTicks.toInt then ⟨false, false, timer⟩
  -- A value that was never ahead of the counter has missed its match.
  else if deltaTicks == 0 || wasArmed then
    let (raised, timer) := timer.itmRaise value
    ⟨true, raised, timer⟩
  else ⟨true, false, timer⟩

/-- When the host timer calls back for a match that is some ticks ahead. -/
def deadlineNs (deltaTicks : Word) : Int :=
  let delayNs := timer.itc.delayNs deltaTicks
  if delayNs = int64Max ∨ int64Max.toInt - delayNs.toInt < timer.itc.lastNs.ns then int64Max.toInt
  else timer.itc.lastNs.ns + delayNs.toInt

variable (value : Word) (first second : Instant)

/-- Compare the counter with a match value and arm the host timer if it is ahead. -/
def itmUpdate : Observation × IntervalTimer :=
  let wasArmed := timer.armed && timer.armedValue == value
  let timer := timer.itcAdvancePendingItm first
  let itc := timer.itc.arItc
  let pending := timer.itmUpdatePending itc value wasArmed
  if pending.settled then
    (⟨itc, pending.raised⟩,
      ({ pending.timer with deadline := none, armed := false } : IntervalTimer).itcAdvancePendingItm
        second)
  else
    (⟨itc, pending.raised⟩,
      { pending.timer with
        armed := true, armedValue := value, deadline :=
          some (pending.timer.deadlineNs (value - itc)) })

/-- The work of the host timer's callback. -/
def itmTimerWork (first second third : Instant) : List Observation × IntervalTimer :=
  if !timer.armed then ([], timer)
  else
    let wasArmed := timer.armed
    let itm := timer.crItm
    let timer := ({ timer with armed := false } : IntervalTimer).itcAdvancePendingItm first
    let itc := timer.itc.arItc
    let pending := timer.itmUpdatePending itc itm wasArmed
    if pending.settled then ([⟨itc, pending.raised⟩], pending.timer)
    else
      -- The callback was early: the match is still ahead, and the host timer is armed again.
      let (again, timer) := pending.timer.itmUpdate itm second third
      ([⟨itc, pending.raised⟩, again], timer)

/-- A read of the counter. -/
def itcRead (now : Instant) : Word × IntervalTimer :=
  let timer := timer.itcAdvancePendingItm now
  (timer.itc.arItc, timer)

/-- Check for a match without waiting for the callback. -/
def itcCheckTimer (first second : Instant) : Observation × IntervalTimer :=
  let timer := timer.itcAdvancePendingItm first
  let wasArmed := timer.armed && timer.armedValue == timer.crItm
  let timer :=
    if wasArmed && decide ((timer.crItm - timer.itc.arItc).toInt ≤ 0)
      then { timer with armed := false }
    else timer
  let itc := timer.itc.arItc
  let pending := timer.itmUpdatePending itc timer.crItm wasArmed
  (⟨itc, pending.raised⟩, pending.timer.itcAdvancePendingItm second)

/-- The processor halts. -/
def itcEnterHalt (first second third : Instant) : Observation × IntervalTimer :=
  let timer := timer.itcAdvancePendingItm first
  timer.itmUpdate timer.crItm second third

/-- A write to ITM. -/
def writeItm : Observation × IntervalTimer :=
  ({ timer with crItm := value } : IntervalTimer).itmUpdate value first second

/-- A write to ITV. -/
def writeItv : Observation × IntervalTimer :=
  ({ timer with crItv := value } : IntervalTimer).itmUpdate timer.crItm first second

end IntervalTimer

section Runs

/-- What happens to a timer whose ITM and ITC are not written. -/
inductive Operation where
  | callback (first second third : Instant)
  | read (now : Instant)
  | check (first second : Instant)
  | halt (first second third : Instant)
  | rewriteItv (value : Word) (first second : Instant)
  /-- Interrupts are accepted, raised and ended between the operations of the timer. -/
  | interrupts (sapic : Sapic.Local)

namespace IntervalTimer

/-- What an operation observes, and the timer after it. -/
def operate (timer : IntervalTimer) : Operation → List Observation × IntervalTimer
  | .callback first second third => timer.itmTimerWork first second third
  | .read now => ([], (timer.itcRead now).2)
  | .check first second =>
    ([(timer.itcCheckTimer first second).1], (timer.itcCheckTimer first second).2)
  | .halt first second third =>
    ([(timer.itcEnterHalt first second third).1], (timer.itcEnterHalt first second third).2)
  | .rewriteItv value first second =>
    ([(timer.writeItv value first second).1], (timer.writeItv value first second).2)
  | .interrupts sapic => ([], { timer with sapic := sapic })

/-- What the operations of a run observe, one list for each. -/
def observed (timer : IntervalTimer) : List Operation → List (List Observation)
  | [] => []
  | operation :: rest => (timer.operate operation).1 :: (timer.operate operation).2.observed rest

/-- ITV holds a vector and does not mask it. -/
def ItvLive (timer : IntervalTimer) : Prop := timer.itvVector.isSome ∧ timer.itvMasked = false

end IntervalTimer

/-- The counter is at or after a match value. -/
def Reached (value itc : Word) : Prop := (value - itc).toInt ≤ 0

instance (value itc : Word) : Decidable (Reached value itc) := inferInstanceAs (Decidable (_ ≤ _))

/-- The operations keep ITV live, and no callback finds the counter before the match value at its
first reading and past it at its second. -/
def IntervalTimer.Unhurried (value : Word) (timer : IntervalTimer) : List Operation → Prop
  | [] => True
  | operation :: rest =>
    (match operation with
      | .rewriteItv itv _ _ => ({ timer with crItv := itv } : IntervalTimer).ItvLive
      | .callback first second _ =>
        let early := ({ timer with armed := false } : IntervalTimer).itcAdvancePendingItm first
        timer.armed → 0 < (value - early.itc.arItc).toInt →
          0 ≤ (value - (early.itcAdvancePendingItm second).itc.arItc).toInt
      | _ => True) ∧
    (timer.operate operation).2.Unhurried value rest

/-- How often an operation raised the interrupt. -/
def raises (observations : List Observation) : Nat := observations.countP (·.raised)

/-- A match has raised nothing. -/
structure Unfired (value : Word) (timer : IntervalTimer) : Prop where
  live : timer.ItvLive
  itm : timer.crItm = value
  fresh : ¬(timer.lastMatchValid ∧ timer.lastMatch = value)

/-- A match is ahead: the host timer waits for it and it has raised nothing. -/
structure Waiting (value : Word) (timer : IntervalTimer) : Prop extends Unfired value timer where
  armed : timer.armed
  armedValue : timer.armedValue = value

/-- A match has raised its interrupt. -/
structure Fired (value : Word) (timer : IntervalTimer) : Prop where
  live : timer.ItvLive
  itm : timer.crItm = value
  valid : timer.lastMatchValid
  lastMatch : timer.lastMatch = value

variable {timer : IntervalTimer} {value itc : Word} {wasArmed : Bool}

theorem itcAdvancePendingItm_frame (timer : IntervalTimer) (now : Instant) :
    ∃ itc, timer.itcAdvancePendingItm now = { timer with itc := itc } := by
  unfold itcAdvancePendingItm
  dsimp only
  split
  · exact ⟨_, rfl⟩
  · exact ⟨_, rfl⟩

theorem Unfired.advance (unfired : Unfired value timer) (now : Instant) :
    Unfired value (timer.itcAdvancePendingItm now) := by
  obtain ⟨itc, frame⟩ := itcAdvancePendingItm_frame timer now
  rw [frame]
  exact ⟨unfired.live, unfired.itm, unfired.fresh⟩

theorem Waiting.advance (waiting : Waiting value timer) (now : Instant) :
    Waiting value (timer.itcAdvancePendingItm now) := by
  obtain ⟨itc, frame⟩ := itcAdvancePendingItm_frame timer now
  refine ⟨waiting.toUnfired.advance now, ?_, ?_⟩
  · rw [frame]
    exact waiting.armed
  · rw [frame]
    exact waiting.armedValue

theorem Fired.advance (fired : Fired value timer) (now : Instant) :
    Fired value (timer.itcAdvancePendingItm now) := by
  obtain ⟨itc, frame⟩ := itcAdvancePendingItm_frame timer now
  rw [frame]
  exact ⟨fired.live, fired.itm, fired.valid, fired.lastMatch⟩

theorem Fired.rearm (fired : Fired value timer) (armed : Bool) (armedValue : Word)
    (deadline : Option Int) :
    Fired value { timer with armed := armed, armedValue := armedValue, deadline := deadline } :=
  ⟨fired.live, fired.itm, fired.valid, fired.lastMatch⟩

theorem itmUpdatePending_before (live : timer.ItvLive) (before : ¬Reached value itc) :
    timer.itmUpdatePending itc value wasArmed = ⟨false, false, timer⟩ := by
  have ahead : 0 < (value - itc).toInt := not_le.1 before
  obtain ⟨vector, itv⟩ := Option.isSome_iff_exists.1 live.1
  simp only [itmUpdatePending, itv, live.2, ahead, Option.isNone_some, Bool.false_eq_true,
    if_false, if_true]

/-- A comparison that reaches its match first fires. -/
theorem itmUpdatePending_fires {timer : IntervalTimer} (unfired : Unfired value timer)
    (reached : Reached value itc) (due : value = itc ∨ wasArmed) :
    (timer.itmUpdatePending itc value wasArmed).settled ∧
      (timer.itmUpdatePending itc value wasArmed).raised ∧
      Fired value (timer.itmUpdatePending itc value wasArmed).timer := by
  have passed : ¬0 < (value - itc).toInt := not_lt.2 reached
  obtain ⟨vector, itv⟩ := Option.isSome_iff_exists.1 unfired.live.1
  have chosen : (value - itc == 0 || wasArmed) := by
    rcases due with hit | armed
    · simp [hit]
    · simp [armed]
  have unmatched : (timer.lastMatchValid && timer.lastMatch == value) = false := by
    simpa using unfired.fresh
  have raised : timer.itmRaise value = (true, { timer with
      lastMatch := value, lastMatchValid := true, sapic := timer.sapic.setIrq vector }) := by
    simp only [itmRaise, itv, unmatched, Bool.false_eq_true, if_false]
  have outcome : timer.itmUpdatePending itc value wasArmed = ⟨true, true, { timer with
      lastMatch := value, lastMatchValid := true, sapic := timer.sapic.setIrq vector }⟩ := by
    simp only [itmUpdatePending, itv, unfired.live.2, passed, chosen, raised, Option.isNone_some,
      Bool.false_eq_true, if_false, if_true]
  rw [outcome]
  exact ⟨rfl, rfl, unfired.live, unfired.itm, rfl, rfl⟩

/-- No comparison fires a match again. -/
theorem itmUpdatePending_fired (fired : Fired value timer) (itc : Word) (wasArmed : Bool) :
    (timer.itmUpdatePending itc value wasArmed).raised = false ∧
      Fired value (timer.itmUpdatePending itc value wasArmed).timer := by
  obtain ⟨vector, itv⟩ := Option.isSome_iff_exists.1 fired.live.1
  have raised :
      timer.itmRaise value = (false, { timer with sapic := timer.sapic.updateInterrupt }) := by
    simp [itmRaise, itv, fired.valid, fired.lastMatch]
  unfold itmUpdatePending
  dsimp only
  rw [raised]
  -- Every branch leaves the record of the last match alone.
  split
  · exact ⟨rfl, fired⟩
  split
  · exact ⟨rfl, fired⟩
  split
  · exact ⟨rfl, fired⟩
  split
  · exact ⟨rfl, fired.live, fired.itm, fired.valid, fired.lastMatch⟩
  · exact ⟨rfl, fired⟩

/-- What operations on a waiting match do: nothing before it is reached, and one interrupt when it
is. -/
def Progresses (value : Word) (result : List Observation × IntervalTimer) : Prop :=
  (∀ o ∈ result.1, o.raised → Reached value o.itc) ∧
    ((∃ o ∈ result.1, Reached value o.itc) ∧ raises result.1 = 1 ∧ Fired value result.2 ∨
      (∀ o ∈ result.1, ¬Reached value o.itc) ∧ raises result.1 = 0 ∧ Waiting value result.2)

theorem progresses_fired {observation : Observation} {after : IntervalTimer}
    (reached : Reached value observation.itc) (raised : observation.raised)
    (fired : Fired value after) : Progresses value ([observation], after) := by
  refine ⟨fun o member _ => ?_,
    Or.inl ⟨⟨observation, List.mem_singleton_self _, reached⟩, ?_, fired⟩⟩
  · rw [List.mem_singleton.1 member]
    exact reached
  · simp [raises, raised]

theorem progresses_waiting {result : List Observation × IntervalTimer}
    (before : ∀ o ∈ result.1, ¬Reached value o.itc ∧ o.raised = false)
    (waiting : Waiting value result.2) : Progresses value result := by
  refine ⟨fun o member raised => ?_, Or.inr ⟨fun o member => (before o member).1, ?_, waiting⟩⟩
  · rw [(before o member).2] at raised
    cases raised
  · exact List.countP_eq_zero.2
      fun o member => by rw [(before o member).2]; exact Bool.false_ne_true

theorem itmUpdate_before (first second : Instant) (unfired : Unfired value timer)
    (before : ¬Reached value (timer.itcAdvancePendingItm first).itc.arItc) :
    (timer.itmUpdate value first second).1 = ⟨(timer.itcAdvancePendingItm first).itc.arItc, false⟩ ∧
      Waiting value (timer.itmUpdate value first second).2 := by
  obtain ⟨itc, frame⟩ := itcAdvancePendingItm_frame timer first
  rw [frame] at before
  have live : ({ timer with itc := itc } : IntervalTimer).ItvLive := unfired.live
  unfold itmUpdate
  rw [frame]
  dsimp only
  rw [itmUpdatePending_before live before]
  exact ⟨rfl, ⟨unfired.live, unfired.itm, unfired.fresh⟩, rfl, rfl⟩

/-- An update that reaches its match fires. -/
theorem itmUpdate_fires (first second : Instant) (unfired : Unfired value timer)
    (reached : Reached value (timer.itcAdvancePendingItm first).itc.arItc)
    (due : value = (timer.itcAdvancePendingItm first).itc.arItc ∨
      timer.armed ∧ timer.armedValue = value) :
    (timer.itmUpdate value first second).1 = ⟨(timer.itcAdvancePendingItm first).itc.arItc, true⟩ ∧
      Fired value (timer.itmUpdate value first second).2 := by
  have due' : value = (timer.itcAdvancePendingItm first).itc.arItc ∨
      (timer.armed && timer.armedValue == value) := by simpa using due
  obtain ⟨itc, frame⟩ := itcAdvancePendingItm_frame timer first
  rw [frame] at reached due'
  have synced : Unfired value { timer with itc := itc } :=
    ⟨unfired.live, unfired.itm, unfired.fresh⟩
  obtain ⟨settled, raised, fired⟩ := itmUpdatePending_fires synced reached due'
  unfold itmUpdate
  rw [frame]
  dsimp only at settled raised fired ⊢
  rw [if_pos settled, raised]
  exact ⟨rfl, (fired.rearm _ _ _).advance second⟩

theorem itmUpdate_progresses (waiting : Waiting value timer) (first second : Instant) :
    Progresses value ([(timer.itmUpdate value first second).1],
      (timer.itmUpdate value first second).2) := by
  by_cases reached : Reached value (timer.itcAdvancePendingItm first).itc.arItc
  · obtain ⟨observation, fired⟩ := itmUpdate_fires first second waiting.toUnfired reached
      (Or.inr ⟨waiting.armed, waiting.armedValue⟩)
    exact progresses_fired (by rw [observation]; exact reached) (by rw [observation]) fired
  · obtain ⟨observation, still⟩ := itmUpdate_before first second waiting.toUnfired reached
    refine progresses_waiting (fun o member => ?_) still
    rw [List.mem_singleton.1 member, observation]
    exact ⟨reached, rfl⟩

theorem itmUpdate_fired (fired : Fired value timer) (first second : Instant) :
    (timer.itmUpdate value first second).1.raised = false ∧
      Fired value (timer.itmUpdate value first second).2 := by
  obtain ⟨silent, after⟩ := itmUpdatePending_fired (fired.advance first)
    (timer.itcAdvancePendingItm first).itc.arItc (timer.armed && timer.armedValue == value)
  unfold itmUpdate
  dsimp only
  split
  · exact ⟨silent, (after.rearm _ _ _).advance second⟩
  · exact ⟨silent, after.rearm _ _ _⟩

theorem raises_singleton {observation : Observation} (silent : observation.raised = false) :
    raises [observation] = 0 := by
  simp [raises, silent]

/-- No operation raises a match that has fired. -/
theorem operate_fired (fired : Fired value timer) (operation : Operation)
    (unhurried : timer.Unhurried value [operation]) :
    raises (timer.operate operation).1 = 0 ∧ Fired value (timer.operate operation).2 := by
  have itm := fired.itm
  subst itm
  cases operation with
  | callback first second third =>
    simp only [operate, itmTimerWork]
    split
    · exact ⟨rfl, fired⟩
    -- The callback compares the match once, and once more if it seems to be ahead.
    have disarmed : Fired timer.crItm { timer with armed := false } :=
      ⟨fired.live, fired.itm, fired.valid, fired.lastMatch⟩
    obtain ⟨silent, after⟩ := itmUpdatePending_fired (disarmed.advance first)
      (({ timer with armed := false } : IntervalTimer).itcAdvancePendingItm first).itc.arItc
        timer.armed
    split
    · exact ⟨raises_singleton silent, after⟩
    · obtain ⟨again, last⟩ := itmUpdate_fired after second third
      exact ⟨by simp [raises, silent, again], last⟩
  | read now => exact ⟨rfl, fired.advance now⟩
  | check first second =>
    obtain ⟨itc, frame⟩ := itcAdvancePendingItm_frame timer first
    have synced : Fired timer.crItm { timer with itc := itc } :=
      ⟨fired.live, rfl, fired.valid, fired.lastMatch⟩
    simp only [operate, itcCheckTimer, frame]
    -- Disarming the host timer does not concern a match that has fired.
    split
    · obtain ⟨silent, after⟩ :=
        itmUpdatePending_fired (synced.rearm false timer.armedValue timer.deadline) _ _
      exact ⟨raises_singleton silent, after.advance second⟩
    · obtain ⟨silent, after⟩ := itmUpdatePending_fired synced _ _
      exact ⟨raises_singleton silent, after.advance second⟩
  | halt first second third =>
    have synced := fired.advance first
    simp only [operate, itcEnterHalt]
    rw [synced.itm]
    obtain ⟨silent, after⟩ := itmUpdate_fired synced second third
    exact ⟨raises_singleton silent, after⟩
  | rewriteItv itv first second =>
    have rewritten : Fired timer.crItm { timer with crItv := itv } :=
      ⟨unhurried.1, rfl, fired.valid, fired.lastMatch⟩
    obtain ⟨silent, after⟩ := itmUpdate_fired rewritten first second
    exact ⟨raises_singleton silent, after⟩
  | interrupts sapic => exact ⟨rfl, fired.live, fired.itm, fired.valid, fired.lastMatch⟩

/-- An early callback compares again and makes progress. -/
theorem callback_progresses (waiting : Waiting value timer) (first second third : Instant)
    (unhurried : timer.Unhurried value [.callback first second third]) :
    Progresses value (timer.itmTimerWork first second third) := by
  have closeEnough := unhurried.1 waiting.armed
  have itm := waiting.itm
  simp only [itmTimerWork, waiting.armed, Bool.not_true, Bool.false_eq_true, if_false]
  have disarmed : Unfired value { timer with armed := false } := ⟨waiting.live, itm, waiting.fresh⟩
  have unfired := disarmed.advance first
  generalize (({ timer with armed := false } : IntervalTimer).itcAdvancePendingItm first) =
    early at *
  rw [itm]
  by_cases reached : Reached value early.itc.arItc
  · obtain ⟨settled, raised, fired⟩ := itmUpdatePending_fires unfired reached (Or.inr (rfl : true))
    rw [if_pos settled, raised]
    exact progresses_fired reached rfl fired
  -- The first comparison is early, so the second decides.
  have ahead : 0 < (value - early.itc.arItc).toInt := not_le.1 reached
  rw [itmUpdatePending_before unfired.live reached]
  simp only [Bool.false_eq_true, if_false]
  by_cases late : Reached value (early.itcAdvancePendingItm second).itc.arItc
  · have exact : value = (early.itcAdvancePendingItm second).itc.arItc :=
      sub_eq_zero.1 (BitVec.toInt_inj.1 (le_antisymm late (closeEnough ahead)))
    obtain ⟨observation, fired⟩ := itmUpdate_fires second third unfired late (Or.inl exact)
    refine ⟨?_, Or.inl ⟨⟨_, List.mem_cons_of_mem _ (List.mem_singleton_self _), ?_⟩, ?_, fired⟩⟩
    · intro o member raised
      simp only [List.mem_cons, List.not_mem_nil, or_false] at member
      rcases member with rfl | rfl
      · cases raised
      · rw [observation]
        exact late
    · rw [observation]
      exact late
    · rw [observation]
      rfl
  · obtain ⟨observation, still⟩ := itmUpdate_before second third unfired late
    refine progresses_waiting (fun o member => ?_) still
    simp only [List.mem_cons, List.not_mem_nil, or_false] at member
    rcases member with rfl | rfl
    · exact ⟨reached, rfl⟩
    · rw [observation]
      exact ⟨late, rfl⟩

/-- Every operation on a waiting match makes progress. -/
theorem operate_progresses (waiting : Waiting value timer) (operation : Operation)
    (unhurried : timer.Unhurried value [operation]) :
    Progresses value (timer.operate operation) := by
  have itm := waiting.itm
  subst itm
  cases operation with
  | callback first second third => exact callback_progresses waiting first second third unhurried
  | read now =>
    exact progresses_waiting (fun o member => absurd member (List.not_mem_nil))
      (waiting.advance now)
  | check first second =>
    obtain ⟨itc, frame⟩ := itcAdvancePendingItm_frame timer first
    have synced : Waiting timer.crItm { timer with itc := itc } :=
      ⟨⟨waiting.live, rfl, waiting.fresh⟩, waiting.armed, waiting.armedValue⟩
    have wasArmed : (timer.armed && timer.armedValue == timer.crItm) := by
      simp [waiting.armed, waiting.armedValue]
    simp only [operate, itcCheckTimer, frame, wasArmed, Bool.true_and]
    by_cases reached : Reached timer.crItm itc.arItc
    · have disarmed : Unfired timer.crItm { timer with itc := itc, armed := false } :=
        ⟨waiting.live, rfl, waiting.fresh⟩
      obtain ⟨-, raised, fired⟩ := itmUpdatePending_fires disarmed reached (Or.inr (rfl : true))
      have test : decide ((timer.crItm - itc.arItc).toInt ≤ 0) := decide_eq_true reached
      simp only [test, if_true]
      exact progresses_fired reached raised (fired.advance second)
    · have test : decide ((timer.crItm - itc.arItc).toInt ≤ 0) = false := decide_eq_false reached
      simp only [test, Bool.false_eq_true, if_false]
      rw [itmUpdatePending_before synced.live reached]
      refine progresses_waiting (fun o member => ?_) (synced.advance second)
      rw [List.mem_singleton.1 member]
      exact ⟨reached, rfl⟩
  | halt first second third =>
    have synced := waiting.advance first
    simp only [operate, itcEnterHalt]
    rw [synced.itm]
    exact itmUpdate_progresses synced second third
  | rewriteItv itv first second =>
    have rewritten : Waiting timer.crItm { timer with crItv := itv } :=
      ⟨⟨unhurried.1, rfl, waiting.fresh⟩, waiting.armed, waiting.armedValue⟩
    exact itmUpdate_progresses rewritten first second
  | interrupts sapic =>
    exact progresses_waiting (fun o member => absurd member (List.not_mem_nil))
      ⟨⟨waiting.live, waiting.itm, waiting.fresh⟩, waiting.armed, waiting.armedValue⟩

theorem observed_fired (fired : Fired value timer) (operations : List Operation)
    (unhurried : timer.Unhurried value operations) :
    ∀ observations ∈ timer.observed operations, raises observations = 0 := by
  induction operations generalizing timer with
  | nil => exact fun observations member => absurd member List.not_mem_nil
  | cons operation rest ih =>
    obtain ⟨silent, after⟩ := operate_fired fired operation ⟨unhurried.1, trivial⟩
    intro observations member
    rcases List.mem_cons.1 member with rfl | member
    · exact silent
    · exact ih after unhurried.2 observations member

theorem observed_waiting (waiting : Waiting value timer) (operations : List Operation)
    (unhurried : timer.Unhurried value operations) {earlier later : List (List Observation)}
    {observations : List Observation}
    (split : timer.observed operations = earlier ++ observations :: later) :
    (∀ o ∈ observations, o.raised → Reached value o.itc) ∧
      raises observations =
        if (∃ o ∈ observations, Reached value o.itc) ∧
            ∀ prior ∈ earlier, ∀ o ∈ prior, ¬Reached value o.itc then 1 else 0 := by
  -- The run is followed until the operation in question; the match fires at most once on the way.
  induction operations generalizing timer earlier with
  | nil => cases earlier <;> cases split
  | cons operation rest ih =>
    obtain ⟨late, progress⟩ := operate_progresses waiting operation ⟨unhurried.1, trivial⟩
    cases earlier with
    | nil =>
      obtain ⟨rfl, -⟩ := List.cons.inj split
      refine ⟨late, ?_⟩
      rcases progress with ⟨reached, once, -⟩ | ⟨before, never, -⟩
      · rw [once, if_pos ⟨reached, fun prior member => absurd member List.not_mem_nil⟩]
      · rw [never, if_neg]
        rintro ⟨⟨o, member, reached⟩, -⟩
        exact before o member reached
    | cons prior earlier =>
      obtain ⟨rfl, tail⟩ := List.cons.inj split
      have tail : (timer.operate operation).2.observed rest = earlier ++ observations :: later :=
        tail
      rcases progress with ⟨⟨o, member, reached⟩, -, fired⟩ | ⟨before, -, still⟩
      · -- The match has fired before, so the operation is silent.
        have silent := observed_fired fired rest unhurried.2 observations (by rw [tail]; simp)
        refine ⟨fun o member raised => ?_, ?_⟩
        · exact absurd raised (List.countP_eq_zero.1 silent o member)
        · rw [silent, if_neg]
          rintro ⟨-, none⟩
          exact none _ List.mem_cons_self o member reached
      · obtain ⟨honest, count⟩ := ih still unhurried.2 tail
        refine ⟨honest, count.trans (if_congr (and_congr_right fun _ => ?_) rfl rfl)⟩
        -- The first operation did not reach the match and adds nothing to the condition.
        rw [List.forall_mem_cons]
        exact (and_iff_right before).symm

/-- After ITM is written with a value ahead of the counter, the interrupt is raised once, by the
first operation that observes the counter at or after the value, whatever the clock does in
between. -/
theorem itm_fires_once (timer : IntervalTimer) (value : Word) (first second : Instant)
    (operations : List Operation) (live : timer.ItvLive)
    (ahead : 0 < (value - (timer.writeItm value first second).1.itc).toInt)
    (fresh : ¬(timer.lastMatchValid = true ∧ timer.lastMatch = value))
    (unhurried : (timer.writeItm value first second).2.Unhurried value operations) :
    (timer.writeItm value first second).1.raised = false ∧
      ∀ earlier observations later,
        (timer.writeItm value first second).2.observed operations =
          earlier ++ observations :: later →
        (∀ o ∈ observations, o.raised = true → Reached value o.itc) ∧
          raises observations =
            if (∃ o ∈ observations, Reached value o.itc) ∧
                ∀ prior ∈ earlier, ∀ o ∈ prior, ¬Reached value o.itc then 1 else 0 := by
  -- The observation of the write itself is made after the counter is synchronised.
  have before : ¬Reached value
      (({ timer with crItm := value } : IntervalTimer).itcAdvancePendingItm first).itc.arItc := by
    have observed : (timer.writeItm value first second).1.itc =
        (({ timer with crItm := value } : IntervalTimer).itcAdvancePendingItm first).itc.arItc := by
      unfold writeItm itmUpdate
      dsimp only
      split
      · rfl
      · rfl
    rw [observed] at ahead
    exact not_le.2 ahead
  have written : Unfired value { timer with crItm := value } := ⟨live, rfl, fresh⟩
  obtain ⟨observation, waiting⟩ := itmUpdate_before first second written before
  refine ⟨congrArg Observation.raised observation, fun earlier observations later split => ?_⟩
  exact observed_waiting waiting operations unhurried split

/-- A timer at 1 GHz that starts with the virtual clock. -/
def freshTimer : IntervalTimer where
  itc := ⟨1000000000, 0, .zero, 0, 0⟩
  crItm := 0
  crItv := 0x20
  armedValue := 0
  lastMatch := 0
  armed := false
  lastMatchValid := false
  deadline := none
  sapic := Sapic.Local.reset 0 ⟨false, false, false, false, 0, 0⟩

/-- An early callback that hits the match at its second reading, and a check after it. -/
theorem itm_fires_once_early :
    let armed := freshTimer.writeItm 5 ⟨0, by decide⟩ ⟨0, by decide⟩
    let operations : List Operation :=
      [.callback ⟨0, by decide⟩ ⟨5, by decide⟩ ⟨7, by decide⟩, .check ⟨8, by decide⟩ ⟨9, by decide⟩]
    armed.1.raised = false ∧
      armed.2.observed operations = [[⟨0, false⟩, ⟨5, true⟩], [⟨8, false⟩]] := by
  intro armed operations
  have unhurried : armed.2.Unhurried 5 operations := ⟨by decide, trivial, trivial⟩
  obtain ⟨silent, -⟩ := itm_fires_once freshTimer 5 ⟨0, by decide⟩ ⟨0, by decide⟩ operations
    (by unfold IntervalTimer.ItvLive; decide) (by decide) (by decide) unhurried
  exact ⟨silent, by decide⟩

/-- A callback that is early at its first reading and late at its second loses the interrupt. -/
theorem itm_lost :
    let armed := freshTimer.writeItm 5 ⟨0, by decide⟩ ⟨0, by decide⟩
    let operations : List Operation :=
      [.callback ⟨0, by decide⟩ ⟨9, by decide⟩ ⟨9, by decide⟩, .check ⟨9, by decide⟩ ⟨9, by decide⟩]
    freshTimer.ItvLive ∧ 0 < ((5 : Word) - armed.1.itc).toInt ∧
      ¬(freshTimer.lastMatchValid = true ∧ freshTimer.lastMatch = 5) ∧ Reached 5 9 ∧
      armed.2.observed operations = [[⟨0, false⟩, ⟨9, false⟩], [⟨9, false⟩]] := by
  intro armed operations
  refine ⟨?_, by decide, by decide, by decide, by decide⟩
  unfold IntervalTimer.ItvLive
  decide

end Runs

end Ia64.Timer
