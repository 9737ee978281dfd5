import Mathlib.Data.Int.Basic

/-!
# Durations, timestamps, dates and times of day

Source: `lib/global/src/time.koja` and `lib/global/src/time/calendar.koja`. An `Int` is an
integer and `/` and `%` round toward zero, as the language's do. A trap is `none`, that of the
year check and that of a result past 64 bits alike. Timestamps, durations and the data of a zone
are free, so what is computed from them is `checked`; the fields of a `Date` or a `Time` are
ranged, so that day counts and times of day stay far below 64 bits.
-/
namespace Koja.Source.Time

/-- A result of the language's arithmetic, which traps past 64 bits. -/
def checked (result : Int) : Option Int :=
  if -0x8000000000000000 ≤ result ∧ result < 0x8000000000000000 then some result else none

/-- `Duration.Unit`. -/
inductive DurationUnit where
  | hours | microseconds | milliseconds | minutes | nanoseconds | seconds
  deriving DecidableEq, Repr

/-- `Duration.nanoseconds_per`. -/
def DurationUnit.nanosecondsPer : DurationUnit → Int
  | .hours => 3600000000000
  | .microseconds => 1000
  | .milliseconds => 1000000
  | .minutes => 60000000000
  | .nanoseconds => 1
  | .seconds => 1000000000

/-- `Duration`. -/
structure Duration where
  unit : DurationUnit
  value : Int
  deriving DecidableEq, Repr

namespace Duration

/-- `Duration.finer`. -/
def finer (a b : DurationUnit) : DurationUnit :=
  if a.nanosecondsPer ≤ b.nanosecondsPer then a else b

/-- `Duration.in_unit`. -/
def inUnit (duration : Duration) (unit : DurationUnit) : Option Int :=
  let source := duration.unit.nanosecondsPer
  let target := unit.nanosecondsPer
  if source < target then some (duration.value.tdiv (target.tdiv source))
  else checked (duration.value * source.tdiv target)

/-- `Duration.to_microseconds`. -/
def toMicroseconds (duration : Duration) : Option Int :=
  duration.inUnit .microseconds

/-- `Duration.minus`. -/
def minus (duration other : Duration) : Option Duration := do
  let unit := finer duration.unit other.unit
  return ⟨unit, ← checked ((← duration.inUnit unit) - (← other.inUnit unit))⟩

/-- `Equality.equals?` of durations. -/
def equals (duration other : Duration) : Option Bool := do
  let unit := finer duration.unit other.unit
  return (← duration.inUnit unit) = (← other.inUnit unit)

end Duration

/-- `Timestamp`. -/
structure Timestamp where
  sinceEpoch : Duration
  deriving DecidableEq, Repr

/-- `Timestamp.new`. -/
def Timestamp.new (value : Int) (unit : DurationUnit) : Timestamp :=
  ⟨⟨unit, value⟩⟩

/-- `Timestamp.since`. -/
def Timestamp.since (timestamp earlier : Timestamp) : Option Duration :=
  timestamp.sinceEpoch.minus earlier.sinceEpoch

/-! ## Constants and floored division -/

def daysPerEra : Int := 146097
def daysToEpoch : Int := 719468
def maxYear : Int := 9999
def microsecondsPerDay : Int := 86400000000
def microsecondsPerHour : Int := 3600000000
def microsecondsPerMinute : Int := 60000000
def microsecondsPerSecond : Int := 1000000

/-- `floor_div`. -/
def floorDiv (a b : Int) : Int :=
  let q := a.tdiv b
  if a.tmod b ≠ 0 ∧ decide (a < 0) ≠ decide (b < 0) then q - 1 else q

/-- `floor_mod`. -/
def floorMod (a b : Int) : Int :=
  a - floorDiv a b * b

/-! ## Weekdays -/

inductive Weekday where
  | monday | tuesday | wednesday | thursday | friday | saturday | sunday
  deriving DecidableEq, Repr

/-- `Weekday.iso_number`. -/
def Weekday.isoNumber : Weekday → Int
  | .monday => 1
  | .tuesday => 2
  | .wednesday => 3
  | .thursday => 4
  | .friday => 5
  | .saturday => 6
  | .sunday => 7

/-! ## Dates -/

/-- `Date`. The source builds one from a struct literal without a check in `TimeZone.Rule.Point.at`,
so the fields are free; `Date.new` is the check. -/
structure Date where
  day : Int
  month : Int
  year : Int
  deriving DecidableEq, Repr

/-- `Date.Error`, the variants `Date.new` reports. -/
inductive DateError where
  | invalidDay (day : Int)
  | invalidMonth (month : Int)
  | invalidYear (year : Int)
  deriving DecidableEq, Repr

namespace Date

variable (date : Date) (year : Int)

/-- `Date.leap?`. -/
def leap : Bool :=
  year.tmod 4 = 0 && (year.tmod 100 ≠ 0 || year.tmod 400 = 0)

/-- `Date.last_day`. -/
def lastDay (month : Int) : Int :=
  if month = 2 then if leap year then 29 else 28
  else if month = 4 ∨ month = 6 ∨ month = 9 ∨ month = 11 then 30
  else 31

/-- `Date.days_in_month`. -/
def daysInMonth : Int :=
  lastDay date.year date.month

/-- `Date.new`. -/
def new (month day : Int) : Except DateError Date :=
  if year < 0 ∨ year > maxYear then .error (.invalidYear year)
  else if month < 1 ∨ month > 12 then .error (.invalidMonth month)
  else if day < 1 ∨ day > lastDay year month then .error (.invalidDay day)
  else .ok ⟨day, month, year⟩

/-- `Date.checked_year`. -/
def checkedYear : Option Int :=
  if year < 0 ∨ year > maxYear then none else some year

/-- The civil date `days` after 1970-01-01, before the year check. -/
def civil (days : Int) : Date :=
  let z := days + daysToEpoch
  let era := (if 0 ≤ z then z else z - daysPerEra + 1).tdiv daysPerEra
  let doe := z - era * daysPerEra
  let yoe := (doe - doe.tdiv 1460 + doe.tdiv 36524 - doe.tdiv 146096).tdiv 365
  let doy := doe - (365 * yoe + yoe.tdiv 4 - yoe.tdiv 100)
  let mp := (5 * doy + 2).tdiv 153
  let day := doy - (153 * mp + 2).tdiv 5 + 1
  let month := if mp < 10 then mp + 3 else mp - 9
  ⟨day, month, yoe + era * 400 + if month ≤ 2 then 1 else 0⟩

/-- `Date.from_epoch_days`. -/
def fromEpochDays (days : Int) : Option Date :=
  (checkedYear (civil days).year).map fun year => { civil days with year }

/-- `Date.to_epoch_days`. -/
def toEpochDays : Int :=
  let y := if date.month ≤ 2 then date.year - 1 else date.year
  let era := (if 0 ≤ y then y else y - 399).tdiv 400
  let yoe := y - era * 400
  let mp := if 2 < date.month then date.month - 3 else date.month + 9
  let doy := (153 * mp + 2).tdiv 5 + date.day - 1
  let doe := yoe * 365 + yoe.tdiv 4 - yoe.tdiv 100 + doy
  era * daysPerEra + doe - daysToEpoch

/-- `Date.to_epoch_days` of a date whose month and day are not checked; those of its year alone
stay small. -/
def uncheckedEpochDays : Option Int := do
  let mp := if 2 < date.month then date.month - 3 else date.month + 9
  let months ← checked ((← checked (153 * mp)) + 2)
  let doy ← checked ((← checked (months.tdiv 5 + date.day)) - 1)
  let y := if date.month ≤ 2 then date.year - 1 else date.year
  let yoe := y - (if 0 ≤ y then y else y - 399).tdiv 400 * 400
  let _ ← checked (yoe * 365 + yoe.tdiv 4 - yoe.tdiv 100 + doy)
  let _ ← checked (date.toEpochDays + daysToEpoch)
  checked date.toEpochDays

/-- `Date.day_of_week`. -/
def dayOfWeek : Weekday :=
  let n := floorMod (date.toEpochDays + 3) 7
  if n = 0 then .monday
  else if n = 1 then .tuesday
  else if n = 2 then .wednesday
  else if n = 3 then .thursday
  else if n = 4 then .friday
  else if n = 5 then .saturday
  else .sunday

end Date

/-! ## Times of day -/

-- the source's own name for a time of day
set_option linter.dupNamespace false

/-- `Time`. -/
structure Time where
  hour : Int
  microsecond : Int
  minute : Int
  second : Int
  deriving DecidableEq, Repr

/-- `Time.Error`, the variants `Time.new` reports. -/
inductive TimeError where
  | invalidHour (hour : Int)
  | invalidMicrosecond (microsecond : Int)
  | invalidMinute (minute : Int)
  | invalidSecond (second : Int)
  deriving DecidableEq, Repr

namespace Time

/-- `Time.new`. -/
def new (hour minute second microsecond : Int) : Except TimeError Time :=
  if hour < 0 ∨ hour > 23 then .error (.invalidHour hour)
  else if minute < 0 ∨ minute > 59 then .error (.invalidMinute minute)
  else if second < 0 ∨ second > 59 then .error (.invalidSecond second)
  else if microsecond < 0 ∨ microsecond > 999999 then .error (.invalidMicrosecond microsecond)
  else .ok ⟨hour, microsecond, minute, second⟩

/-- `Time.after_midnight`. -/
def afterMidnight (duration : Duration) : Option Time := do
  let total := floorMod (← duration.toMicroseconds) microsecondsPerDay
  return { hour := total.tdiv microsecondsPerHour
           microsecond := total.tmod microsecondsPerSecond
           minute := (total.tmod microsecondsPerHour).tdiv microsecondsPerMinute
           second := (total.tmod microsecondsPerMinute).tdiv microsecondsPerSecond }

/-- `Time.since_midnight`. -/
def sinceMidnight (time : Time) : Duration :=
  ⟨.microseconds, time.hour * microsecondsPerHour + time.minute * microsecondsPerMinute +
    time.second * microsecondsPerSecond + time.microsecond⟩

end Time

/-- `LocalDateTime`. -/
structure LocalDateTime where
  date : Date
  time : Time
  deriving DecidableEq, Repr

end Koja.Source.Time
