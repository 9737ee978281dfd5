import Koja.Source.Time.Calendar

/-!
# Time zones and instants in them

Source: `lib/global/src/time/time_zone.koja`, `lib/global/src/time/date_time.koja` and
`LocalDateTime.in_zone` of `lib/global/src/time/calendar.koja`. Rendering offsets and zones as
text is left out.
-/
namespace Koja.Source.Time

def daysPerWeek : Int := 7
def maxOffsetSeconds : Int := 64800
def secondsPerDay : Int := 86400

/-- `TimeZone.Offset`, with the range `TimeZone.Offset.new` checks. -/
structure Offset where
  seconds : Int
  lower : -maxOffsetSeconds ≤ seconds
  upper : seconds ≤ maxOffsetSeconds
  deriving DecidableEq, Repr

namespace Offset

/-- `TimeZone.Offset.new`; the error carries the rejected count. -/
def new (seconds : Int) : Except Int Offset :=
  if fits : -maxOffsetSeconds ≤ seconds ∧ seconds ≤ maxOffsetSeconds then
    .ok ⟨seconds, fits.1, fits.2⟩
  else .error seconds

/-- `TimeZone.Offset.UTC`. -/
def utc : Offset := ⟨0, by decide, by decide⟩

end Offset

/-- `TimeZone.Rule.Point`. -/
structure Point where
  month : Int
  seconds : Int
  week : Int
  weekday : Weekday
  deriving DecidableEq, Repr

/-- `TimeZone.Rule.Point.at`. A point's month and week are not checked, so its dates need not be
dates of the calendar. -/
def Point.at (point : Point) (year : Int) (offset : Offset) : Option Int := do
  let first : Date := ⟨1, point.month, year⟩
  let _ ← checked ((← first.uncheckedEpochDays) + 3)
  let firstWeekday := first.dayOfWeek.isoNumber.tmod daysPerWeek
  let wanted := point.weekday.isoNumber.tmod daysPerWeek
  let weeks ← checked ((← checked (point.week - 1)) * daysPerWeek)
  let day ← checked (1 + (wanted - firstWeekday + daysPerWeek).tmod daysPerWeek + weeks)
  let day := if day > first.daysInMonth then day - daysPerWeek else day
  let seconds ← checked ((← (⟨day, point.month, year⟩ : Date).uncheckedEpochDays) * secondsPerDay)
  checked ((← checked (seconds + point.seconds)) - offset.seconds)

/-- `TimeZone.Rule.Daylight`. -/
structure Daylight where
  offset : Offset
  start : Point
  stop : Point
  deriving DecidableEq, Repr

/-- `TimeZone.Rule`. -/
structure Rule where
  daylight : Option Daylight
  standard : Offset
  deriving DecidableEq, Repr

/-- `TimeZone.Rule.offset_at`. -/
def Rule.offsetAt (rule : Rule) (seconds : Int) : Option Offset :=
  match rule.daylight with
  | none => some rule.standard
  | some daylight => do
      let date ← Date.fromEpochDays (floorDiv (seconds + rule.standard.seconds) secondsPerDay)
      let start ← daylight.start.at date.year rule.standard
      let stop ← daylight.stop.at date.year daylight.offset
      let inDaylight := if start < stop then decide (seconds ≥ start ∧ seconds < stop)
        else decide (seconds ≥ start ∨ seconds < stop)
      return if inDaylight then daylight.offset else rule.standard

/-- `epoch_seconds`. -/
def epochSeconds (at_ : Timestamp) : Option Int := do
  return floorDiv (← at_.sinceEpoch.toMicroseconds) microsecondsPerSecond

/-- `TimeZone.Transition`. -/
structure Transition where
  at_ : Timestamp
  offset : Offset
  deriving DecidableEq, Repr

/-- `TimeZone.Rules`. -/
structure Rules where
  final : Rule
  identifier : String
  initial : Offset
  transitions : List Transition
  deriving DecidableEq, Repr

namespace Rules

/-- The loop of `transition_index`. Every round shrinks the interval, so as many rounds as
transitions are enough. -/
def search (rules : Rules) (seconds : Int) : Nat → Int → Int → Option Int
  | 0, _, high => some high
  | rounds + 1, low, high =>
    if low ≤ high then do
      let middle := (low + high).tdiv 2
      let transition ← rules.transitions[middle.toNat]?
      if (← epochSeconds transition.at_) ≤ seconds then
        rules.search seconds rounds (middle + 1) high
      else rules.search seconds rounds low (middle - 1)
    else some high

/-- `TimeZone.Rules.transition_index`. -/
def transitionIndex (rules : Rules) (seconds : Int) : Option Int :=
  rules.search seconds rules.transitions.length 0 (rules.transitions.length - 1)

/-- `TimeZone.Rules.offset_at`. -/
def offsetAt (rules : Rules) (at_ : Timestamp) : Option Offset := do
  let seconds ← epochSeconds at_
  let last : Int := rules.transitions.length - 1
  let index ← rules.transitionIndex seconds
  if index = last then rules.final.offsetAt seconds
  else if index < 0 then some rules.initial
  else rules.transitions[index.toNat]?.map (·.offset)

end Rules

/-- `TimeZone`. -/
inductive TimeZone where
  | fixed (offset : Offset)
  | named (rules : Rules)
  | utc
  deriving DecidableEq, Repr

/-- `TimeZone.offset_at`. -/
def TimeZone.offsetAt (zone : TimeZone) (at_ : Timestamp) : Option Offset :=
  match zone with
  | .fixed offset => some offset
  | .named rules => rules.offsetAt at_
  | .utc => some .utc

/-- `DateTime`. -/
structure DateTime where
  timestamp : Timestamp
  zone : TimeZone
  deriving DecidableEq, Repr

namespace DateTime

variable (value : DateTime)

/-- `DateTime.offset`. -/
def offset : Option Offset :=
  value.zone.offsetAt value.timestamp

/-- `DateTime.local_microseconds`. -/
def localMicroseconds : Option Int := do
  let offset ← value.offset
  checked ((← value.timestamp.sinceEpoch.toMicroseconds) + offset.seconds * microsecondsPerSecond)

/-- `DateTime.date`. -/
def date : Option Date := do
  Date.fromEpochDays (floorDiv (← value.localMicroseconds) microsecondsPerDay)

/-- `DateTime.time`. -/
def time : Option Time := do
  let remainder := floorMod (← value.localMicroseconds) microsecondsPerDay
  Time.afterMidnight ⟨.microseconds, remainder⟩

/-- `DateTime.local`. -/
def «local» : Option LocalDateTime := do
  return ⟨← value.date, ← value.time⟩

/-- `DateTime.since`. -/
def since (value earlier : DateTime) : Option Duration :=
  value.timestamp.since earlier.timestamp

/-- Two values are equal when they name the same instant in the same zone. -/
def equals (value other : DateTime) : Option Bool := do
  return (← value.timestamp.sinceEpoch.equals other.timestamp.sinceEpoch) &&
    value.zone = other.zone

end DateTime

/-- `TimeZone.Resolution`. -/
inductive ZoneResolution where
  | ambiguous (earlier later : DateTime)
  | gap (before following : DateTime)
  | unique (value : DateTime)
  deriving DecidableEq, Repr

namespace LocalDateTime

/-- Microseconds from 1970-01-01 on the clock this value was read from, as `in_zone` counts
them. `since_midnight` is a count of microseconds. -/
def microseconds (value : LocalDateTime) : Int :=
  value.date.toEpochDays * microsecondsPerDay + value.time.sinceMidnight.value

/-- `LocalDateTime.instant`. -/
def instant (clock : Int) (offset : Offset) (zone : TimeZone) : DateTime :=
  ⟨.new (clock - offset.seconds * microsecondsPerSecond) .microseconds, zone⟩

/-- `LocalDateTime.candidate`; the outer `none` is a trap. -/
def candidate (clock : Int) (offset : Offset) (zone : TimeZone) : Option (Option DateTime) := do
  let value := instant clock offset zone
  return if (← value.offset) = offset then some value else none

/-- `LocalDateTime.earlier`. -/
def earlier (a b : DateTime) : Option DateTime := do
  return if (← (← a.since b).toMicroseconds) < 0 then a else b

/-- `LocalDateTime.later`. -/
def later (a b : DateTime) : Option DateTime := do
  return if (← (← a.since b).toMicroseconds) < 0 then b else a

/-- `LocalDateTime.in_zone`. -/
def inZone (value : LocalDateTime) (zone : TimeZone) : Option ZoneResolution := do
  let clock := value.microseconds
  let dayBefore ← zone.offsetAt (.new (clock - microsecondsPerDay) .microseconds)
  let dayAfter ← zone.offsetAt (.new (clock + microsecondsPerDay) .microseconds)
  let first ← candidate clock dayBefore zone
  let second ← candidate clock dayAfter zone
  match first, second with
  | some a, some b =>
    if ← a.equals b then return .unique a
    else return .ambiguous (← earlier a b) (← later a b)
  | some a, none => return .unique a
  | none, some b => return .unique b
  | none, none => return .gap (instant clock dayAfter zone) (instant clock dayBefore zone)

end LocalDateTime

end Koja.Source.Time
