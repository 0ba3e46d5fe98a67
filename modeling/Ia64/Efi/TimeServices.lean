import Ia64.Efi.Time
import Mathlib.Algebra.Group.Int.Defs
import Mathlib.Algebra.Group.Nat.Defs

/-! The time services over the two hardware clocks: the host's second counter and the CMOS
registers. -/

namespace Ia64.Efi.Time

/-- Contents of the CMOS registers. -/
abbrev Registers := Nat → Nat

/-- CMOS register of the seconds. -/
def cmosSeconds : Nat := 0x00

/-- CMOS register of the minutes. -/
def cmosMinutes : Nat := 0x02

/-- CMOS register of the hours. -/
def cmosHours : Nat := 0x04

/-- CMOS register of the day of the week. -/
def cmosDayOfWeek : Nat := 0x06

/-- CMOS register of the day of the month. -/
def cmosDayOfMonth : Nat := 0x07

/-- CMOS register of the month. -/
def cmosMonth : Nat := 0x08

/-- CMOS register of the year within its century. -/
def cmosYear : Nat := 0x09

/-- CMOS register that says whether an update is in progress. -/
def cmosRegA : Nat := 0x0a

/-- CMOS register that says how the others are written. -/
def cmosRegB : Nat := 0x0b

/-- CMOS register of the century. -/
def cmosCentury : Nat := 0x32

/-- Whether register A says that an update is in progress. -/
def updateInProgress (registers : Registers) : Bool := (registers cmosRegA).testBit 7

/-- Whether register B asks for binary values rather than decimal digits. -/
def binaryMode (regB : Nat) : Bool := regB.testBit 2

/-- Whether register B asks for hours up to twenty-three rather than twelve. -/
def hours24 (regB : Nat) : Bool := regB.testBit 1

/-- A register's contents replaced; it keeps what was written. -/
def cmosWriteRegister (registers : Registers) (register value : Nat) : Registers :=
  fun other => if other = register then value else registers other

/-- The value that a register's byte stands for. -/
def cmosDecode (value : Nat) (binary : Bool) : Option Nat :=
  if binary then some value
  else if 9 < value % 16 ∨ 9 < value / 16 then none
  else some (value / 16 * 10 + value % 16)

/-- The byte that stands for a value. -/
def cmosEncode (value : Nat) (binary : Bool) : Nat :=
  if binary then value else ((value / 10) <<< 4 ||| value % 10) % 256

/-- The hour that the hour register's byte stands for; bit seven marks the afternoon. -/
def decodeHour (regB raw : Nat) : Option Nat :=
  let pm := raw.testBit 7
  (cmosDecode (raw % 128) (binaryMode regB)).bind fun hour =>
  if hours24 regB then if 23 < hour then none else some hour
  else if hour = 0 ∨ 12 < hour then none
  else if pm then some (hour % 12 + 12)
  else if hour = 12 then some 0 else some hour

/-- The byte that stands for an hour. -/
def encodeHour (regB hour : Nat) : Nat :=
  if hours24 regB then cmosEncode hour (binaryMode regB)
  else
    let half := if hour % 12 = 0 then 12 else hour % 12
    let byte := cmosEncode half (binaryMode regB)
    if 12 ≤ hour then byte ||| 0x80 else byte

/-- The century that a byte stands for, the twenty-first if it stands for none from 1900 on. -/
def decodeCentury (raw : Nat) (binary : Bool) : Nat :=
  match cmosDecode raw binary with
  | none => 20
  | some century => if century < 19 then 20 else century

/-- Read the time from the CMOS; sixteen attempts on registers that do not change come to one. -/
def cmosGetTime (portsMapped : Bool) (registers : Registers) : Option EfiTime :=
  if !portsMapped || updateInProgress registers then none
  else
    let regB := registers cmosRegB
    let binary := binaryMode regB
    do
      let second ← (cmosDecode (registers cmosSeconds) binary).filter (· ≤ 59)
      let minute ← (cmosDecode (registers cmosMinutes) binary).filter (· ≤ 59)
      let hour ← decodeHour regB (registers cmosHours)
      let day ← cmosDecode (registers cmosDayOfMonth) binary
      let month ← cmosDecode (registers cmosMonth) binary
      let year ← cmosDecode (registers cmosYear) binary
      let time : EfiTime :=
        { year := decodeCentury (registers
          cmosCentury) binary * 100 + year, month, day, hour, minute, second,
          nanosecond := 0, timeZone := 0, daylight := 0#8 }
      if time.Valid then some time else none

/-- The day of the week of a second count, the first of January 1970 being a Thursday. -/
def weekday (epoch : Int) : Nat :=
  let days := if epoch < 0 ∧ epoch.tmod 86400 ≠ 0 then epoch.tdiv 86400 - 1 else epoch.tdiv 86400
  let day := (days + 4).tmod 7
  (if day < 0 then day + 7 else day).toNat

/-- Write a time to the CMOS, with updates held off by register B meanwhile. -/
def cmosSetTime (portsMapped : Bool) (registers : Registers) (time : EfiTime) : Option Registers :=
  if !portsMapped then none
  else
    (toEpoch time).map fun epoch =>
    let regB := registers cmosRegB
    let binary := binaryMode regB
    let registers := cmosWriteRegister registers cmosRegB (regB ||| 0x80)
    let registers := cmosWriteRegister registers cmosSeconds (cmosEncode time.second binary)
    let registers := cmosWriteRegister registers cmosMinutes (cmosEncode time.minute binary)
    let registers := cmosWriteRegister registers cmosHours (encodeHour regB time.hour)
    let registers :=
      cmosWriteRegister registers cmosDayOfWeek (cmosEncode (weekday epoch + 1) binary)
    let registers := cmosWriteRegister registers cmosDayOfMonth (cmosEncode time.day binary)
    let registers := cmosWriteRegister registers cmosMonth (cmosEncode time.month binary)
    let registers := cmosWriteRegister registers cmosYear (cmosEncode (time.year % 100) binary)
    let registers := cmosWriteRegister registers cmosCentury (cmosEncode (time.year / 100) binary)
    cmosWriteRegister registers cmosRegB regB

/-- Mark of a stored clock state. -/
def rtcStateMagic : Nat := 0x54464f3436545249

/-- The state that the firmware keeps beside the hardware clock. -/
structure RtcState where
  magic : Nat
  version : Nat
  reserved : Nat
  offsetSeconds : Int
  nanosecond : Nat
  timeZone : Int
  daylight : BitVec 8
  pad : Nat

/-- Whether the stored state is one that the firmware wrote. -/
def RtcState.Valid (state : RtcState) : Prop :=
  state.magic = rtcStateMagic ∧ state.version = 1 ∧ state.reserved = 0 ∧ state.pad = 0 ∧
    state.nanosecond < nanosecondsPerSecond ∧ ZoneValid state.timeZone state.daylight
deriving Decidable

/-- The state that setting a time stores. -/
def RtcState.next (offsetSeconds : Int) (time : EfiTime) : RtcState :=
  { magic := rtcStateMagic, version := 1, reserved := 0, offsetSeconds
    nanosecond := time.nanosecond, timeZone := time.timeZone, daylight := time.daylight, pad := 0 }

/-- What the time services work on. -/
structure Clock where
  timeServicesAvailable : Bool
  runtimeRtcLegacyCmos : Bool
  portsMapped : Bool
  runtimeRtcMapped : Bool
  hostCounter : BitVec 64
  registers : Registers
  state : RtcState

/-- Results of the time services. -/
inductive Status where
  | success
  | unsupported
  | invalidParameter
  | deviceError
deriving DecidableEq

/-- Read the host's second counter, as a signed number. -/
def rtcReadSeconds (clock : Clock) : Option Int :=
  if !clock.timeServicesAvailable || !clock.runtimeRtcMapped then none
  else if 2 ^ 63 ≤ clock.hostCounter.toNat then none
  else some clock.hostCounter.toNat

/-- Whether a sum of a host time and an offset leaves the signed 64-bit range. -/
def sumOverflows (hostSeconds offsetSeconds : Int) : Prop :=
  (0 < offsetSeconds ∧ 2 ^ 63 - 1 - offsetSeconds < hostSeconds) ∨
    (offsetSeconds < 0 ∧ hostSeconds < -2 ^ 63 - offsetSeconds)
deriving Decidable

/-- The service that reads the time. -/
def rsGetTime (clock : Clock) : Except Status EfiTime :=
  if !clock.timeServicesAvailable then .error .unsupported
  else if clock.runtimeRtcLegacyCmos then
    match cmosGetTime clock.portsMapped clock.registers with
    | none => .error .deviceError
    | some time =>
      if clock.state.Valid then
        .ok { time with
          nanosecond := clock.state.nanosecond, timeZone := clock.state.timeZone, daylight :=
            clock.state.daylight }
      else .ok time
  else
    match rtcReadSeconds clock with
    | none => .error .deviceError
    | some hostSeconds =>
      let (offsetSeconds, nanosecond, timeZone, daylight) :=
        if clock.state.Valid then
          (clock.state.offsetSeconds, clock.state.nanosecond, clock.state.timeZone,
            clock.state.daylight)
        else (0, 0, 0, 0#8)
      if sumOverflows hostSeconds offsetSeconds then .error .deviceError
      else match fromEpoch (hostSeconds + offsetSeconds) nanosecond with
        | none => .error .deviceError
        | some time => .ok { time with timeZone, daylight }

/-- The service that sets the time. -/
def rsSetTime (clock : Clock) (time : EfiTime) : Status × Clock :=
  if !clock.timeServicesAvailable then (.unsupported, clock)
  else if ¬time.Valid then (.invalidParameter, clock)
  else if clock.runtimeRtcLegacyCmos then
    match cmosSetTime clock.portsMapped clock.registers time with
    | none => (.deviceError, clock)
    | some registers => (.success, { clock with registers, state := .next 0 time })
  else
    match toEpoch time, rtcReadSeconds clock with
    | some guestSeconds, some hostSeconds =>
      if guestSeconds < -2 ^ 63 + hostSeconds then (.deviceError, clock)
      else (.success, { clock with state := .next (guestSeconds - hostSeconds) time })
    | _, _ => (.deviceError, clock)

section Registers

variable {registers : Registers} {register other value : Nat}

theorem cmosDecode_encode {binary : Bool} (small : value < 100) :
    cmosDecode (cmosEncode value binary) binary = some value := by
  cases binary
  · revert small value
    decide
  · rfl

theorem decodeHour_encode {regB hour : Nat} (small : hour ≤ 23) :
    decodeHour regB (encodeHour regB hour) = some hour := by
  unfold decodeHour encodeHour
  generalize hours24 regB = long
  generalize binaryMode regB = binary
  revert binary long hour
  decide

theorem decodeCentury_encode {binary : Bool} (lower : 19 ≤ value) (upper : value < 100) :
    decodeCentury (cmosEncode value binary) binary = value := by
  rw [decodeCentury, cmosDecode_encode upper]
  exact if_neg (by omega)

end Registers

theorem daysInMonth_lt (year month : Nat) : daysInMonth year month < 100 := by
  unfold daysInMonth
  split_ifs with outside leap
  · decide
  · decide
  · obtain ⟨index, within, rfl⟩ : ∃ index, index < 12 ∧ month = index + 1 :=
      ⟨month - 1, by omega, by omega⟩
    rw [Nat.add_sub_cancel]
    clear leap outside
    revert index
    decide

section Services

variable {clock : Clock} {time : EfiTime} {registers : Registers}

theorem toEpoch_of_valid (valid : time.Valid) : ∃ seconds, toEpoch time = some seconds :=
  ⟨_, if_pos valid⟩

/-- A time written to the CMOS reads back. -/
theorem cmosGetTime_set (valid : time.Valid) (still : updateInProgress registers = false) :
    ∃ after, cmosSetTime true registers time = some after ∧
      cmosGetTime true after = some { time with
        nanosecond := 0, timeZone := 0, daylight := 0#8 } := by
  obtain ⟨epoch, counted⟩ := toEpoch_of_valid valid
  rw [cmosSetTime, counted]
  refine ⟨_, rfl, ?_⟩
  have fields := valid.1
  have day := valid.2.1
  have dayLimit := daysInMonth_lt time.year time.month
  rw [updateInProgress] at still
  -- Every register read is the last one written under its number, and register A is the old one.
  simp only [cmosGetTime, updateInProgress, cmosWriteRegister, cmosRegA, cmosRegB, cmosSeconds,
    cmosMinutes, cmosHours,
    cmosDayOfWeek, cmosDayOfMonth, cmosMonth, cmosYear, cmosCentury] at still ⊢
  simp only [Nat.reduceEqDiff, ↓reduceIte, still, Bool.not_true, Bool.or_false, Bool.false_eq_true]
  rw [cmosDecode_encode (by omega), cmosDecode_encode (by omega), decodeHour_encode (by omega),
    cmosDecode_encode (by omega), cmosDecode_encode (by omega), cmosDecode_encode (by omega),
    decodeCentury_encode (by omega) (by omega)]
  simp only [Option.filter_some, decide_eq_true fields.2.2.2.2.2.1,
    decide_eq_true fields.2.2.2.2.2.2.1, ↓reduceIte,
    Option.bind_eq_bind, Option.bind_some,
      show time.year / 100 * 100 + time.year % 100 = time.year by omega]
  exact if_pos ⟨⟨fields.1, fields.2.1, fields.2.2.1, fields.2.2.2.1, fields.2.2.2.2.1,
    fields.2.2.2.2.2.1,
    fields.2.2.2.2.2.2.1, (by decide : 0 < nanosecondsPerSecond)⟩, day,
      (by decide : ZoneValid 0 0#8)⟩

theorem next_valid (valid : time.Valid) (offsetSeconds : Int) :
    (RtcState.next offsetSeconds time).Valid :=
  ⟨rfl, rfl, rfl, rfl, valid.1.2.2.2.2.2.2.2, valid.2.2⟩

/-- On the CMOS clock a valid time that was set reads back. -/
theorem rsGetTime_set_cmos (available : clock.timeServicesAvailable)
    (legacy : clock.runtimeRtcLegacyCmos) (mapped : clock.portsMapped)
    (still : updateInProgress clock.registers = false) (valid : time.Valid) :
    (rsSetTime clock time).1 = .success ∧ rsGetTime (rsSetTime clock time).2 = .ok time := by
  obtain ⟨after, written, readBack⟩ := cmosGetTime_set valid still
  have setTime : rsSetTime clock time = (.success,
      { clock with registers := after, state := .next 0 time }) := by
    simp [rsSetTime, available, ↓reduceIte, legacy, mapped, written, valid]
  rw [setTime]
  refine ⟨rfl, ?_⟩
  simp only [rsGetTime, available, Bool.not_true, Bool.false_eq_true, ↓reduceIte, legacy,
    mapped, readBack, next_valid valid 0]
  rfl

variable {seconds : Int}

theorem fromEpoch_toEpoch {nanosecond : Nat} (counted : toEpoch time = some seconds)
    (small : nanosecond < nanosecondsPerSecond) :
    fromEpoch seconds nanosecond = some { time with
      nanosecond, timeZone := 0, daylight := 0#8 } := by
  obtain ⟨⟨fields, day, _⟩, total⟩ := Option.ite_none_right_eq_some.mp counted
  refine fromEpoch_eq_some.mpr ⟨Option.ite_none_right_eq_some.mpr ⟨⟨?_, day, ?_⟩, total⟩, rfl,
    rfl, rfl⟩
  · exact ⟨fields.1, fields.2.1, fields.2.2.1, fields.2.2.2.1, fields.2.2.2.2.1, fields.2.2.2.2.2.1,
      fields.2.2.2.2.2.2.1, small⟩
  · exact (by decide : ZoneValid 0 0#8)

/-- On the host's clock a time is set if its offset fits. -/
theorem rsSetTime_host (available : clock.timeServicesAvailable)
    (host : clock.runtimeRtcLegacyCmos = false) (mapped : clock.runtimeRtcMapped)
    (counted : toEpoch time = some seconds) :
    rsSetTime clock time =
      if clock.hostCounter.toNat < 2 ^ 63 ∧ (clock.hostCounter.toNat : Int) - 2 ^ 63 ≤ seconds then
        (.success, { clock with state := .next (seconds - clock.hostCounter.toNat) time })
      else (.deviceError, clock) := by
  have valid : time.Valid := (Option.ite_none_right_eq_some.mp counted).1
  simp only [rsSetTime, rtcReadSeconds, available, host, mapped, counted, valid,
    Bool.not_true, Bool.or_self, Bool.false_eq_true, ↓reduceIte, not_true_eq_false]
  by_cases large : 2 ^ 63 ≤ clock.hostCounter.toNat
  · rw [if_pos large, if_neg (by omega)]
  · rw [if_neg large]
    by_cases low : seconds < -2 ^ 63 + (clock.hostCounter.toNat : Int)
    · rw [if_neg (by omega)]
      exact if_pos low
    · rw [if_pos (by omega)]
      exact if_neg low

theorem start_daysInYear_le (year : Nat) : Staircase.start daysInYear year ≤ 366 * year := by
  induction year with
  | zero => exact Nat.le_refl _
  | succ year ih =>
    have : daysInYear year ≤ 366 := by
      unfold daysInYear
      split_ifs <;> decide
    rw [Staircase.start]
    omega

theorem toEpoch_bounds (counted : toEpoch time = some seconds) :
    -2 ^ 62 < seconds ∧ seconds < 2 ^ 62 := by
  obtain ⟨⟨fields, day, _⟩, total⟩ := Option.ite_none_right_eq_some.mp counted
  rw [days_eq fields.2.2.1, Option.some.injEq] at total
  have inside := dayOfYear_lt fields.2.2.2.1 day.1 day.2
  have first := start_daysInYear_le 1970
  have last := start_daysInYear_le (time.year + 1)
  rw [Staircase.start] at last
  omega

/-- On the host's clock a time that was set reads back. -/
theorem rsGetTime_next (available : clock.timeServicesAvailable)
    (host : clock.runtimeRtcLegacyCmos = false) (mapped : clock.runtimeRtcMapped)
    (counted : toEpoch time = some seconds) (readable : clock.hostCounter.toNat < 2 ^ 63) :
    rsGetTime { clock with
      state := .next (seconds - clock.hostCounter.toNat) time } = .ok time := by
  have valid : time.Valid := (Option.ite_none_right_eq_some.mp counted).1
  have within : ¬sumOverflows clock.hostCounter.toNat (seconds - clock.hostCounter.toNat) := by
    have := toEpoch_bounds counted
    rw [sumOverflows]
    omega
  simp only [rsGetTime, rtcReadSeconds, available, host, mapped, Bool.not_true, Bool.or_self,
    Bool.false_eq_true, ↓reduceIte, next_valid valid, Nat.not_le.mpr readable]
  simp only [RtcState.next, within, ↓reduceIte]
  rw [show (clock.hostCounter.toNat : Int) + (seconds - clock.hostCounter.toNat) = seconds by omega,
    fromEpoch_toEpoch counted valid.1.2.2.2.2.2.2.2]

end Services

/-- The calendar conversion grows with the calendar and is inverted by its counterpart, and a time
that was set reads back: on the host's clock exactly when its offset from the host's time fits in
the signed 64-bit range, with nothing changed otherwise, and on the CMOS clock in every register
mode. -/
theorem time_services_exact :
    (∀ before after earlier later, toEpoch before = some earlier → toEpoch after = some later →
      before.calendar < after.calendar → earlier < later) ∧
    (∀ time : EfiTime, time.Valid → ∃ seconds, toEpoch time = some seconds ∧
      ∀ nanosecond < nanosecondsPerSecond,
        fromEpoch seconds nanosecond = some { time with
          nanosecond, timeZone := 0, daylight := 0#8 }) ∧
    (∀ seconds nanosecond time, fromEpoch seconds nanosecond = some time →
      toEpoch time = some seconds) ∧
    (∀ clock time seconds, clock.timeServicesAvailable = true → clock.runtimeRtcLegacyCmos = false →
      clock.runtimeRtcMapped = true → toEpoch time = some seconds →
      if clock.hostCounter.toNat < 2 ^ 63 ∧ (clock.hostCounter.toNat : Int) - 2 ^ 63 ≤ seconds then
        (rsSetTime clock time).1 = .success ∧ rsGetTime (rsSetTime clock time).2 = .ok time
      else rsSetTime clock time = (.deviceError, clock)) ∧
    (∀ clock (time : EfiTime), clock.timeServicesAvailable = true →
      clock.runtimeRtcLegacyCmos = true →
      clock.portsMapped = true → updateInProgress clock.registers = false → time.Valid →
      (rsSetTime clock time).1 = .success ∧ rsGetTime (rsSetTime clock time).2 = .ok time) := by
  refine ⟨fun _ _ _ _ first second ordered => epoch_lt first second ordered, ?_, ?_, ?_, ?_⟩
  · intro time valid
    obtain ⟨seconds, counted⟩ := toEpoch_of_valid valid
    exact ⟨seconds, counted, fun nanosecond small => fromEpoch_toEpoch counted small⟩
  · intro seconds nanosecond time converted
    exact (fromEpoch_eq_some.mp converted).1
  · intro clock time seconds available host mapped counted
    rw [rsSetTime_host available host mapped counted]
    split_ifs with fits
    · exact ⟨rfl, rsGetTime_next available host mapped counted fits.1⟩
    · rfl
  · intro clock time available legacy mapped still valid
    exact rsGetTime_set_cmos available legacy mapped still valid

/-- The leap day of 2000, a second before midnight. -/
def leapDay : EfiTime :=
  { year := 2000, month := 2, day := 29, hour := 23, minute := 59, second := 59
    nanosecond := 5, timeZone := -60, daylight := 3#8 }

/-- The start of 1970. -/
def epochStart : EfiTime :=
  { year := 1970, month := 1, day := 1, hour := 0, minute := 0, second := 0
    nanosecond := 0, timeZone := 0, daylight := 0#8 }

/-- A second before the last one of 1969. -/
def epochEve : EfiTime :=
  { epochStart with year := 1969, month := 12, day := 31, hour := 23, minute := 59, second := 58 }

/-- A clock of either kind, with a host counter at the end of its range and set to the start of
1970. -/
def lastClock (runtimeRtcLegacyCmos : Bool) : Clock :=
  { timeServicesAvailable := true, runtimeRtcLegacyCmos, portsMapped := true
    runtimeRtcMapped := true, hostCounter := 0x7fffffffffffffff#64, registers := fun _ => 0
    state := .next (-0x7fffffffffffffff) epochStart }

/-- The leap day of 2000 set on a twelve-hour decimal CMOS clock reads back. -/
theorem time_services_exact_leapDay :
    leapDay.Valid ∧ rsGetTime (rsSetTime (lastClock true) leapDay).2 = .ok leapDay :=
  ⟨by decide, (time_services_exact.2.2.2.2 (lastClock true) leapDay rfl rfl rfl rfl (by decide)).2⟩

/-- A time before 1970 cannot be set, and the old one still reads, when the host's counter is at the
end of its range. -/
theorem epochEve_not_set :
    epochEve.Valid ∧ (rsSetTime (lastClock false) epochEve).1 = .deviceError ∧
      (rsGetTime (rsSetTime (lastClock false) epochEve).2).toOption = some epochStart :=
  ⟨by decide, by decide +kernel, by decide +kernel⟩

end Ia64.Efi.Time
