import Ia64.Lib.Staircase

/-! The firmware's calendar: valid times and their conversion to and from seconds since 1970. -/

namespace Ia64.Efi.Time

open Staircase

/-- Nanoseconds in a second. -/
def nanosecondsPerSecond : Nat := 1000000000

/-- A calendar time; the two padding bytes are left out. -/
structure EfiTime where
  year : Nat
  month : Nat
  day : Nat
  hour : Nat
  minute : Nat
  second : Nat
  nanosecond : Nat
  timeZone : Int
  daylight : BitVec 8
deriving DecidableEq

/-- Whether a year has a leap day. -/
def isLeapYear (year : Nat) : Bool :=
  (year % 4 == 0 && year % 100 != 0) || year % 400 == 0

/-- Days of a year. -/
def daysInYear (year : Nat) : Nat := if isLeapYear year then 366 else 365

/-- Days of a month, none outside the twelve. -/
def daysInMonth (year month : Nat) : Nat :=
  if month = 0 ∨ 12 < month then 0
  else if month = 2 ∧ isLeapYear year then 29
  else [31, 28, 31, 30, 31, 30, 31, 31, 30, 31, 30, 31].getD (month - 1) 0

/-- Whether a time zone and a daylight byte are defined ones. -/
def ZoneValid (timeZone : Int) (daylight : BitVec 8) : Prop :=
  daylight &&& ~~~3#8 = 0#8 ∧ (timeZone = 2047 ∨ -1440 ≤ timeZone ∧ timeZone ≤ 1440)
deriving Decidable

/-- Whether every field of a time is in its range. -/
def EfiTime.Valid (time : EfiTime) : Prop :=
  (1900 ≤ time.year ∧ time.year ≤ 9999 ∧ 1 ≤ time.month ∧ time.month ≤ 12 ∧ time.hour ≤ 23 ∧
    time.minute ≤ 59 ∧ time.second ≤ 59 ∧ time.nanosecond < nanosecondsPerSecond) ∧
  (1 ≤ time.day ∧ time.day ≤ daysInMonth time.year time.month) ∧
    ZoneValid time.timeZone time.daylight
deriving Decidable

/-- Days from the first of January 1970 to a date. -/
def EfiTime.days (time : EfiTime) : Int :=
  let days := if 1970 ≤ time.year then rise daysInYear (time.year - 1970) 1970 0
    else fall daysInYear (1970 - time.year) 1969 0
  rise (daysInMonth time.year) (time.month - 1) 1 days + (time.day - 1 : Nat)

/-- Seconds from the start of 1970 to a valid time. -/
def toEpoch (time : EfiTime) : Option Int :=
  if time.Valid then some (((time.days * 24 + time.hour) * 60 + time.minute) * 60 + time.second)
    else none

/-- Days and left-over seconds of a second count: the division truncates, and a negative rest
borrows a day. -/
def splitDays (seconds : Int) : Int × Int :=
  let days := seconds.tdiv 86400
  let remainder := seconds.tmod 86400
  if remainder < 0 then (days - 1, remainder + 86400) else (days, remainder)

/-- The time a number of seconds from the start of 1970; the walk over the months needs no bound of
its own, since the days of the twelve months are those of the year. -/
def fromEpoch (seconds : Int) (nanosecond : Nat) : Option EfiTime :=
  if nanosecondsPerSecond ≤ nanosecond then none
  else
    let (days, remainder) := splitDays seconds
    (locate daysInYear 1900 9999 1970 days).bind fun (year, days) =>
    (climb (daysInMonth year) 11 1 days).bind fun (month, days) =>
    let remainder := remainder.toNat
    some { year, month, day := days + 1, hour := remainder / 3600, minute := remainder % 3600 / 60,
           second := remainder % 3600 % 60, nanosecond, timeZone := 0, daylight := 0#8 }

/-- The date and time of day of a time, in the order in which they are compared. -/
def EfiTime.calendar (time : EfiTime) : List Nat :=
  [time.year, time.month, time.day, time.hour, time.minute, time.second]

/-- The day of a date within its year. -/
def EfiTime.dayOfYear (time : EfiTime) : Nat :=
  start (daysInMonth time.year) time.month + (time.day - 1)

/-- The split rounds down. -/
theorem splitDays_eq (seconds : Int) : splitDays seconds = (seconds / 86400, seconds % 86400) := by
  rw [splitDays]
  have whole := Int.mul_tdiv_add_tmod seconds 86400
  by_cases sign : 0 ≤ seconds
  · have lower := Int.tmod_nonneg 86400 sign
    have upper := Int.tmod_lt_of_pos seconds (by decide : (0 : Int) < 86400)
    rw [if_neg (by omega)]
    exact Prod.ext (by dsimp only; omega) (by dsimp only; omega)
  · have upper : seconds.tmod 86400 ≤ 0 := by
      have := Int.tmod_nonneg 86400 (by omega : 0 ≤ -seconds)
      rw [Int.neg_tmod] at this
      omega
    have lower : -86400 < seconds.tmod 86400 := by
      have := Int.tmod_lt_of_pos (-seconds) (by decide : (0 : Int) < 86400)
      rw [Int.neg_tmod] at this
      omega
    split_ifs with borrow
    · exact Prod.ext (by dsimp only; omega) (by dsimp only; omega)
    · exact Prod.ext (by dsimp only; omega) (by dsimp only; omega)

theorem start_january (year : Nat) : start (daysInMonth year) 1 = 0 := rfl

theorem start_thirteen (year : Nat) : start (daysInMonth year) 13 = daysInYear year := by
  cases leap : isLeapYear year <;> simp [start, daysInMonth, daysInYear, leap]

variable {time before after : EfiTime}

theorem dayOfYear_lt (month : time.month ≤ 12) (first : 1 ≤ time.day)
    (last : time.day ≤ daysInMonth time.year time.month) :
    time.dayOfYear < daysInYear time.year := by
  have upto := start_add_le (daysInMonth time.year) (show time.month < 13 by omega)
  rw [start_thirteen] at upto
  rw [EfiTime.dayOfYear]
  omega

theorem days_eq (month : 1 ≤ time.month) :
    time.days = (start daysInYear time.year : Int) - start daysInYear 1970 + time.dayOfYear := by
  have years : (if 1970 ≤ time.year then rise daysInYear (time.year - 1970) 1970 0
      else fall daysInYear (1970 - time.year) 1969 0) = (start daysInYear time.year : Int) -
        start daysInYear 1970 := by
    split_ifs with later
    · rw [rise_eq, show 1970 + (time.year - 1970) = time.year by omega]
      omega
    · rw [fall_eq _ _ _ (by omega), show 1969 + 1 - (1970 - time.year) = time.year by omega,
        show 1969 + 1 = 1970 from rfl]
      omega
  rw [EfiTime.days, years, rise_eq, start_january, show 1 + (time.month - 1) = time.month by omega]
  rw [EfiTime.dayOfYear]
  push_cast
  omega

theorem start_year_lt (year : before.year < after.year)
    (inside : before.dayOfYear < daysInYear before.year) :
    start daysInYear before.year + before.dayOfYear <
      start daysInYear after.year + after.dayOfYear := by
  have := start_add_le daysInYear year
  omega

theorem dayOfYear_lt_of_month (year : before.year = after.year)
    (month : before.month < after.month) (first : 1 ≤ before.day)
    (last : before.day ≤ daysInMonth before.year before.month) :
    before.dayOfYear < after.dayOfYear := by
  rw [EfiTime.dayOfYear, EfiTime.dayOfYear, ← year]
  have := start_add_le (daysInMonth before.year) month
  omega

/-- Seconds since 1970 grow along the calendar. -/
theorem epoch_lt {earlier later : Int} (first : toEpoch before = some earlier)
    (second : toEpoch after = some later) (ordered : before.calendar < after.calendar) :
    earlier < later := by
  rw [toEpoch, Option.ite_none_right_eq_some] at first second
  obtain ⟨⟨fields, day, _⟩, ⟨⟩⟩ := first
  obtain ⟨⟨fields', day', _⟩, ⟨⟩⟩ := second
  rw [days_eq fields.2.2.1, days_eq fields'.2.2.1]
  have inside := dayOfYear_lt fields.2.2.2.1 day.1 day.2
  -- The first field that differs decides; those after it make up less than one unit of it.
  simp only [EfiTime.calendar, List.cons_lt_cons_iff, List.not_lt_nil, and_false,
    or_false] at ordered
  rcases ordered with year | ⟨year, month | ⟨month, rest⟩⟩
  · have := start_year_lt year inside
    omega
  · have := dayOfYear_lt_of_month year month day.1 day.2
    rw [year]
    omega
  · have base : (start daysInYear before.year : Int) = start daysInYear after.year := by rw [year]
    have months : start (daysInMonth before.year) before.month =
        start (daysInMonth after.year) after.month := by
      rw [year, month]
    simp only [EfiTime.dayOfYear]
    omega

theorem fromEpoch_eq_some {seconds : Int} {nanosecond : Nat} :
    fromEpoch seconds nanosecond = some time ↔
      toEpoch time = some seconds ∧ time.nanosecond = nanosecond ∧
      time.timeZone = 0 ∧ time.daylight = 0#8 := by
  rw [fromEpoch, toEpoch, splitDays_eq, Option.ite_none_left_eq_some, Option.ite_none_right_eq_some]
  simp only [Option.bind_eq_some_iff, Prod.exists]
  constructor
  · rintro ⟨small, year, days, located, month, day, climbed, ⟨⟩⟩
    rw [locate_eq_some (by decide) (by decide)] at located
    rw [climb_eq_some, start_january] at climbed
    refine ⟨⟨⟨⟨located.1, located.2.1, climbed.1, climbed.2.1, ?_, ?_, ?_, ?_⟩, ⟨?_, climbed.2.2.2⟩,
      (by decide : 0#8 &&& ~~~3#8 = 0#8), ?_⟩, ?_⟩,
      rfl, rfl, rfl⟩
    all_goals dsimp only
    · omega
    · omega
    · omega
    · omega
    · omega
    · omega
    · rw [days_eq climbed.1, EfiTime.dayOfYear]
      dsimp only
      simp only [Option.some.injEq]
      omega
  · rintro ⟨⟨⟨fields, ⟨first, last⟩, _⟩, total⟩, rfl, zone, daylight⟩
    rw [days_eq fields.2.2.1, Option.some.injEq] at total
    have inside := dayOfYear_lt fields.2.2.2.1 first last
    refine ⟨by omega, time.year, time.dayOfYear, (locate_eq_some (by decide) (by decide)).mpr ?_,
      time.month, time.day - 1, climb_eq_some.mpr ?_, ?_⟩
    · exact ⟨fields.1, fields.2.1, by omega, inside⟩
    · exact ⟨fields.2.2.1, by omega, by rw [start_january, EfiTime.dayOfYear]; omega, by omega⟩
    · obtain ⟨year, month, day, hour, minute, second, nanosecond, timeZone, daylightByte⟩ := time
      dsimp only at *
      subst zone daylight
      simp only [Option.some.injEq, EfiTime.mk.injEq, true_and, and_true]
      omega

end Ia64.Efi.Time
