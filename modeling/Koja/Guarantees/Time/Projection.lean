import Koja.Guarantees.Time.InZone

/-!
# Projecting an instant onto a clock

Converting a count of nanoseconds to microseconds rounds toward zero, and the calendar then
floors whole microseconds. The two agree from the epoch on; before it an instant between two
microseconds is shown as the later one.
-/
namespace Koja.Guarantees.Time

open Koja.Source.Time
open Option (bind_some bind_eq_some_iff)
open LocalDateTime (microseconds)

variable (instant : Timestamp)

/-- The instant, in nanoseconds after the epoch. -/
def nanoseconds : Int :=
  instant.sinceEpoch.value * instant.sinceEpoch.unit.nanosecondsPer

/-- The second of the instant, and the clock time shown at an offset, are the greatest that do
not lie after the instant. -/
def Floors (offset : Offset) : Prop :=
  (∃ second, epochSeconds instant = some second ∧
    IsGreatest { second | second * 1000000000 ≤ nanoseconds instant } second) ∧
  ∃ shown : LocalDateTime, ValidDate shown.date ∧ ValidTime shown.time ∧
    DateTime.date ⟨instant, .fixed offset⟩ = some shown.date ∧
    DateTime.time ⟨instant, .fixed offset⟩ = some shown.time ∧
    IsGreatest { micros | micros * 1000 ≤ nanoseconds instant + offset.seconds * 1000000000 }
      shown.microseconds

/-- The clock reads a year from 0 to 9999. -/
def ClockInRange (offset : Offset) : Prop :=
  rangeStart * 1000 ≤ nanoseconds instant + offset.seconds * 1000000000 ∧
    nanoseconds instant + offset.seconds * 1000000000 < rangeEnd * 1000

variable (instant : Timestamp) {offset : Offset} {shown : LocalDateTime}

/-- The conversion truncates the count of nanoseconds, where it does not trap. -/
theorem toMicroseconds_eq :
    instant.sinceEpoch.toMicroseconds =
      if instant.sinceEpoch.unit = .nanoseconds then some ((nanoseconds instant).tdiv 1000)
    else checked ((nanoseconds instant).tdiv 1000) := by
  obtain ⟨unit, value⟩ := instant
  have coarser : ∀ count : Int, value * count = (value * (count * 1000)).tdiv 1000 := by
    intro count
    rw [← mul_assoc, Int.mul_tdiv_cancel _ (by decide)]
  cases unit with
  | nanoseconds => exact congrArg (fun count : Int => some (count.tdiv 1000)) (mul_one value).symm
  | _ => exact congrArg checked (coarser _)

/-- The clock of an instant whose microseconds fit 64 bits. -/
theorem fixed_clock (low : -2 ^ 62 ≤ (nanoseconds instant).tdiv 1000)
    (high : (nanoseconds instant).tdiv 1000 < 2 ^ 62) :
    instant.sinceEpoch.toMicroseconds = some ((nanoseconds instant).tdiv 1000) ∧
    (DateTime.mk instant (.fixed offset)).localMicroseconds =
      some ((nanoseconds instant).tdiv 1000 + offset.seconds * 1000000) := by
  have converted : instant.sinceEpoch.toMicroseconds = some ((nanoseconds instant).tdiv 1000) := by
    rw [toMicroseconds_eq, checked_of_fits (by omega) (by omega), ite_self]
  have range := offset_range offset
  refine ⟨converted, ?_⟩
  unfold DateTime.localMicroseconds
  simp only [converted]
  exact checked_of_fits (by unfold microsecondsPerSecond; omega)
    (by unfold microsecondsPerSecond; omega)

/-- A clock time is shown exactly if the clock reads it, and then it is a valid one. -/
theorem fixed_shows :
    (DateTime.mk instant (.fixed offset)).local = some shown ↔
      ValidDate shown.date ∧ ValidTime shown.time ∧
      shown.microseconds = (nanoseconds instant).tdiv 1000 + offset.seconds * 1000000 := by
  constructor
  · intro reads
    cases stands : (DateTime.mk instant (.fixed offset)).localMicroseconds with
    | none => cases (local_of_trap stands).symm.trans reads
    | some clock =>
      obtain ⟨date, time, rfl⟩ := (local_eq_some_iff stands).mp reads
      obtain ⟨micros, converted, sum⟩ := bind_eq_some_iff.mp stands
      refine ⟨date, time, (checked_eq_some.mp sum).2.symm.trans ?_⟩
      rw [toMicroseconds_eq] at converted
      split at converted
      · cases converted
        rfl
      · obtain ⟨-, rfl⟩ := checked_eq_some.mp converted
        rfl
  · rintro ⟨date, time, reads⟩
    have range := microseconds_range date time
    have small := offset_range offset
    unfold rangeStart rangeEnd firstDay endDay microsecondsPerDay at range
    have clock := (@fixed_clock instant offset (by omega) (by omega)).2
    exact (local_eq_some_iff clock).mpr ⟨date, time, reads⟩

theorem date_and_time : (DateTime.date ⟨instant, .fixed offset⟩ = some shown.date ∧
      DateTime.time ⟨instant, .fixed offset⟩ = some shown.time) ↔
    (DateTime.mk instant (.fixed offset)).local = some shown := by
  obtain ⟨date, time⟩ := shown
  cases dated : DateTime.date ⟨instant, .fixed offset⟩ <;>
    cases timed : DateTime.time ⟨instant, .fixed offset⟩ <;> simp [DateTime.local, dated, timed]

/-- Every clock reading in the supported years is a valid clock time. -/
theorem exists_microseconds {clock : Int} (low : rangeStart ≤ clock) (high : clock < rangeEnd) :
    ∃ shown : LocalDateTime, ValidDate shown.date ∧ ValidTime shown.time ∧
      shown.microseconds = clock := by
  unfold rangeStart microsecondsPerDay at low
  unfold rangeEnd microsecondsPerDay at high
  have inside : firstDay ≤ clock / 86400000000 ∧ clock / 86400000000 < endDay := by omega
  have start := Int.emod_nonneg clock (show (86400000000 : Int) ≠ 0 by decide)
  have stop := Int.emod_lt_of_pos clock (show (0 : Int) < 86400000000 by decide)
  obtain ⟨date, validDate, days⟩ :
      ∃ date, ValidDate date ∧ date.toEpochDays = clock / 86400000000 :=
    ⟨_, fromEpochDays_eq_some.mp (fromEpochDays_iff.mpr ⟨rfl, inside⟩)⟩
  obtain ⟨time, validTime, micros⟩ :
      ∃ time, ValidTime time ∧ time.sinceMidnight.value = clock % 86400000000 :=
    ⟨_, (afterMidnight_iff start stop).mp (afterMidnight_eq start stop)⟩
  refine ⟨⟨date, time⟩, validDate, validTime, ?_⟩
  change date.toEpochDays * 86400000000 + time.sinceMidnight.value = clock
  omega

theorem isGreatest_floor {n k x : Int} (positive : 0 < k) :
    IsGreatest { q | q * k ≤ n } x ↔ x = n / k := by
  have greatest : IsGreatest { q | q * k ≤ n } (n / k) :=
    ⟨Int.ediv_mul_le n positive.ne', fun _ below => (Int.le_ediv_iff_mul_le positive).mpr below⟩
  exact ⟨fun other => other.unique greatest, fun same => same ▸ greatest⟩

/-- Rounding toward zero floors, except between two microseconds before the epoch. -/
theorem truncates_down_iff (n : Int) : n.tdiv 1000 = n / 1000 ↔ 0 ≤ n ∨ 1000 ∣ n := by
  rw [Int.tdiv_eq_ediv]
  split
  · next down => exact iff_of_true (add_zero _) down
  · next up => exact iff_of_false (by simp) up

/-- The projection floors exactly for instants in the supported years that lie at or after the
epoch or on a whole microsecond; and in any case a later instant is not shown as an earlier clock
time. -/
theorem projection_floors_iff (instant : Timestamp) (offset : Offset) :
    (Floors instant offset ↔
      ClockInRange instant offset ∧ (0 ≤ nanoseconds instant ∨ 1000 ∣ nanoseconds instant)) ∧
    ∀ later shown shown', nanoseconds instant ≤ nanoseconds later →
      (DateTime.mk instant (.fixed offset)).local = some shown →
      (DateTime.mk later (.fixed offset)).local = some shown' →
      shown.microseconds ≤ shown'.microseconds := by
  have truncates := truncates_down_iff (nanoseconds instant)
  constructor
  · unfold Floors ClockInRange
    simp only [isGreatest_floor (show (0 : Int) < 1000 by decide),
      isGreatest_floor (show (0 : Int) < 1000000000 by decide)]
    constructor
    · rintro ⟨-, shown, date, time, dated, timed, floored⟩
      have reads := ((fixed_shows instant).mp ((date_and_time instant).mp ⟨dated, timed⟩)).2.2
      have range := microseconds_range date time
      rw [← truncates]
      omega
    · rintro ⟨inside, down⟩
      rw [← truncates] at down
      obtain ⟨shown, date, time, reads⟩ := @exists_microseconds
        ((nanoseconds instant).tdiv 1000 + offset.seconds * 1000000) (by omega) (by omega)
      obtain ⟨dated, timed⟩ :=
        (date_and_time instant).mpr ((fixed_shows instant).mpr ⟨date, time, reads⟩)
      unfold rangeStart rangeEnd firstDay endDay microsecondsPerDay at inside
      have small := offset_range offset
      have converted := (@fixed_clock instant offset (by omega) (by omega)).1
      refine ⟨⟨_, by rw [epochSeconds, converted]; rfl, ?_⟩, shown, date, time, dated, timed, ?_⟩
      · rw [floorDiv_eq _ (by decide)]
        unfold microsecondsPerSecond
        omega
      · omega
  · intro later shown shown' before reads reads'
    rw [((fixed_shows instant).mp reads).2.2, ((fixed_shows later).mp reads').2.2]
    exact add_le_add_left (Int.tdiv_le_tdiv (by decide) before) _

/-- An hour before the epoch is a whole number of microseconds. -/
theorem hour_before_epoch_floors : Floors (.new (-1) .hours) .utc :=
  (projection_floors_iff _ _).1.mpr ⟨⟨by decide, by decide⟩, .inr (by decide)⟩

/-- The nanosecond before the epoch is placed in the second after it. -/
theorem nanosecond_before_epoch_not_floored : ¬ Floors (.new (-1) .nanoseconds) .utc := by
  rintro ⟨⟨_, same, notAfter, -⟩, -⟩
  cases same
  exact absurd notAfter (by decide)

end Koja.Guarantees.Time
