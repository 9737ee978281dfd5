import Koja.Guarantees.Time.CivilTime

/-!
# Placing a clock time in a zone

`LocalDateTime.in_zone` asks the zone for its offset a day before and a day after the clock time
and tries the instant each of the two offsets proposes. An offset is at most 18 hours, so every
instant that shows the clock time lies within that day on either side, where the zone changes its
offset at most once: before the change it has the first probed offset, from the change on the
second.
-/
namespace Koja.Guarantees.Time

open Koja.Source.Time List
open Option (bind_eq_bind bind_some bind_congr bind_eq_some_iff)
open LocalDateTime (microseconds earlier later candidate inZone)

/-- The instant `t` microseconds after the epoch, in a zone. -/
def instantAt (zone : TimeZone) (t : Int) : DateTime :=
  ⟨.new t .microseconds, zone⟩

/-- The offset of a zone at an instant; `none` where the year check traps. -/
def offsetAtInstant (zone : TimeZone) (t : Int) : Option Offset :=
  (instantAt zone t).offset

/-- At `t` the clocks of the zone show `value`. -/
def Shows (zone : TimeZone) (t : Int) (value : LocalDateTime) : Prop :=
  (instantAt zone t).local = some value

/-- The offset changes at most once among the instants of any 48 hours. -/
def ChangesOnceIn48Hours (zone : TimeZone) : Prop :=
  ∀ start, ∃ change, ∀ t u o o', start ≤ t → t ≤ start + 2 * microsecondsPerDay →
    start ≤ u → u ≤ start + 2 * microsecondsPerDay → (t < change ↔ u < change) →
    offsetAtInstant zone t = some o → offsetAtInstant zone u = some o' → o = o'

/-- The first microsecond of the supported years. -/
def rangeStart : Int := firstDay * microsecondsPerDay

/-- The first microsecond after the supported years. -/
def rangeEnd : Int := endDay * microsecondsPerDay

/-- A clock time more than two days inside the supported years. -/
def WellInside (value : LocalDateTime) : Prop :=
  rangeStart + 2 * microsecondsPerDay < value.microseconds ∧
    value.microseconds + 2 * microsecondsPerDay < rangeEnd

instance (value : LocalDateTime) : Decidable (WellInside value) := by
  unfold WellInside
  infer_instance

/-- The zone's clocks go from the offset before `change` past `value` to the one after it. -/
def SkippedAt (zone : TimeZone) (change : Int) (value : LocalDateTime) : Prop :=
  ∃ before after, offsetAtInstant zone (change - 1) = some before ∧
    offsetAtInstant zone change = some after ∧
    change + before.seconds * microsecondsPerSecond ≤ value.microseconds ∧
    value.microseconds < change + after.seconds * microsecondsPerSecond

/-- Nothing of the zone's own data leaves 64 bits: neither a recorded transition, counted in
microseconds, nor the points of its yearly rule in a supported year. -/
def DataFits : TimeZone → Prop
  | .named rules => (∀ transition ∈ rules.transitions, epochSeconds transition.at_ ≠ none) ∧
      ∀ daylight, rules.final.daylight = some daylight → ∀ year, 0 ≤ year → year ≤ maxYear →
        daylight.start.at year rules.final.standard ≠ none ∧
        daylight.stop.at year daylight.offset ≠ none
  | .fixed _ | .utc => True

/-! ## Clock times -/

variable {zone : TimeZone} {t clock change seconds : Int} {value : LocalDateTime}
  {before after : Offset} {rules : Rules} {second : Transition → Int}

theorem microseconds_range (date : ValidDate value.date) (time : ValidTime value.time) :
    rangeStart ≤ value.microseconds ∧ value.microseconds < rangeEnd := by
  obtain ⟨-, low, high⟩ := fromEpochDays_iff.mp (fromEpochDays_toEpochDays date)
  have ofDay := sinceMidnight_range time
  unfold rangeStart rangeEnd microseconds microsecondsPerDay at *
  omega

/-- What a value shows when its clock stands at `clock` microseconds. -/
theorem local_eq_some_iff {shown : DateTime} {clock : Int}
    (stands : shown.localMicroseconds = some clock) : shown.local = some value ↔
      ValidDate value.date ∧ ValidTime value.time ∧ value.microseconds = clock := by
  have parts : shown.local = some value ↔
      Date.fromEpochDays (clock / 86400000000) = some value.date ∧
        Time.afterMidnight ⟨.microseconds, clock % 86400000000⟩ = some value.time := by
    unfold DateTime.local DateTime.date DateTime.time microsecondsPerDay
    rw [stands]
    simp only [bind_eq_bind, bind_some]
    rw [floorDiv_eq _ (by decide), floorMod_eq _ (by decide)]
    obtain ⟨date, time⟩ := value
    cases Date.fromEpochDays (clock / 86400000000) <;>
      cases Time.afterMidnight ⟨.microseconds, clock % 86400000000⟩ <;> simp
  have low := Int.emod_nonneg clock (show (86400000000 : Int) ≠ 0 by decide)
  have high := Int.emod_lt_of_pos clock (show (0 : Int) < 86400000000 by decide)
  rw [parts, fromEpochDays_eq_some, afterMidnight_iff low high]
  constructor
  · rintro ⟨⟨date, days⟩, time, micros⟩
    refine ⟨date, time, ?_⟩
    unfold microseconds microsecondsPerDay
    omega
  · rintro ⟨date, time, rfl⟩
    have ofDay := sinceMidnight_range time
    unfold microsecondsPerDay at ofDay
    unfold microseconds microsecondsPerDay
    exact ⟨⟨date, by omega⟩, time, by omega⟩

theorem local_of_trap {shown : DateTime} (trap : shown.localMicroseconds = none) :
    shown.local = none := by
  unfold DateTime.local DateTime.date
  rw [trap]
  rfl

theorem instantAt_clock {o : Offset} (offset : offsetAtInstant zone t = some o) :
    (instantAt zone t).localMicroseconds =
      (checked t).bind fun t => checked (t + o.seconds * microsecondsPerSecond) := by
  unfold offsetAtInstant at offset
  unfold DateTime.localMicroseconds
  rw [offset, ← microseconds_toMicroseconds]
  rfl

theorem offset_range (o : Offset) : -64800 ≤ o.seconds ∧ o.seconds ≤ 64800 :=
  ⟨o.lower, o.upper⟩

/-- An instant shows a clock time when the offset in force takes it there. -/
theorem shows_iff : Shows zone t value ↔ ValidDate value.date ∧ ValidTime value.time ∧
      ∃ o, offsetAtInstant zone t = some o ∧
        t + o.seconds * microsecondsPerSecond = value.microseconds := by
  unfold Shows
  cases offset : offsetAtInstant zone t with
  | none =>
    have trap : (instantAt zone t).localMicroseconds = none := by
      unfold offsetAtInstant at offset
      unfold DateTime.localMicroseconds
      rw [offset]
      rfl
    simp [local_of_trap trap]
  | some o =>
    have clock := instantAt_clock offset
    simp only [Option.some.injEq, exists_eq_left']
    constructor
    · intro shown
      cases stands : (instantAt zone t).localMicroseconds with
      | none => cases (local_of_trap stands).symm.trans shown
      | some count =>
        obtain ⟨date, time, reads⟩ := (local_eq_some_iff stands).mp shown
        obtain ⟨_, same, sum⟩ := bind_eq_some_iff.mp (clock.symm.trans stands)
        obtain ⟨-, rfl⟩ := checked_eq_some.mp same
        exact ⟨date, time, (checked_eq_some.mp sum).2.trans reads.symm⟩
    · rintro ⟨date, time, reached⟩
      have range := microseconds_range date time
      have small := offset_range o
      unfold rangeStart rangeEnd firstDay endDay microsecondsPerDay at range
      unfold microsecondsPerSecond at reached clock
      rw [checked_of_fits (by omega) (by omega), bind_some,
        checked_of_fits (by omega) (by omega)] at clock
      exact (local_eq_some_iff clock).mpr ⟨date, time, reached.symm⟩

/-! ## Offsets -/

/-- With every transition in 64 bits the search ends, at an index below `high + 1`. -/
theorem search_isSome {rules : Rules}
    (fits : ∀ transition ∈ rules.transitions, epochSeconds transition.at_ ≠ none) (seconds : Int)
    (rounds : Nat) {low high : Int} (nonneg : 0 ≤ low) (inside : high < rules.transitions.length) :
    ∃ index ≤ high, rules.search seconds rounds low high = some index := by
  induction rounds generalizing low high with
  | zero => exact ⟨high, le_refl high, rfl⟩
  | succ _ ih =>
    unfold Rules.search
    split
    · have middle : (low + high).tdiv 2 = (low + high) / 2 :=
        Int.tdiv_eq_ediv_of_nonneg (by omega)
      have bound : ((low + high).tdiv 2).toNat < rules.transitions.length := by omega
      obtain ⟨second, dated⟩ := Option.ne_none_iff_exists'.mp (fits _ (getElem_mem bound))
      simp only [getElem?_eq_getElem bound, dated, bind_eq_bind, bind_some]
      split
      · exact ih (by omega) inside
      · obtain ⟨index, le, found⟩ := ih nonneg (show (low + high).tdiv 2 - 1 < _ by omega)
        exact ⟨index, by omega, found⟩
    · exact ⟨high, le_refl high, rfl⟩

theorem epochSeconds_microseconds (t : Int) :
    epochSeconds (.new t .microseconds) = (checked t).map (· / 1000000) := by
  have division (count : Int) : floorDiv count microsecondsPerSecond = count / 1000000 :=
    floorDiv_eq count (by decide)
  unfold epochSeconds Timestamp.new
  rw [microseconds_toMicroseconds]
  simp only [division]
  cases checked t <;> rfl

/-- Away from the ends of the supported years no probe of a zone whose data fit traps. -/
theorem offsetAtInstant_isSome (fits : DataFits zone)
    (low : rangeStart + maxOffsetSeconds * microsecondsPerSecond ≤ t)
    (high : t + maxOffsetSeconds * microsecondsPerSecond < rangeEnd) :
    ∃ o, offsetAtInstant zone t = some o := by
  unfold rangeStart firstDay microsecondsPerDay maxOffsetSeconds microsecondsPerSecond at low
  unfold rangeEnd endDay microsecondsPerDay maxOffsetSeconds microsecondsPerSecond at high
  cases zone with
  | fixed offset => exact ⟨offset, rfl⟩
  | utc => exact ⟨.utc, rfl⟩
  | named rules =>
    obtain ⟨index, le, found⟩ := search_isSome fits.1 (t / 1000000) rules.transitions.length
      (le_refl 0) (show (rules.transitions.length : Int) - 1 < _ by omega)
    change ∃ o, rules.offsetAt (.new t .microseconds) = some o
    unfold Rules.offsetAt Rules.transitionIndex
    rw [epochSeconds_microseconds, checked_of_fits (by omega) (by omega), Option.map_some]
    simp only [bind_eq_bind, bind_some, found]
    split_ifs with last before
    · unfold Rule.offsetAt
      split
      · exact ⟨_, rfl⟩
      · next daylight observed =>
        have standard := offset_range rules.final.standard
        have day : firstDay ≤ floorDiv (t / 1000000 + rules.final.standard.seconds) secondsPerDay ∧
            floorDiv (t / 1000000 + rules.final.standard.seconds) secondsPerDay < endDay := by
          rw [floorDiv_eq _ (by decide)]
          unfold firstDay endDay secondsPerDay
          omega
        have dated := fromEpochDays_iff.mpr ⟨rfl, day⟩
        obtain ⟨⟨yearLow, yearHigh, -⟩, -⟩ := fromEpochDays_eq_some.mp dated
        obtain ⟨starts, stops⟩ := fits.2 daylight observed _ yearLow yearHigh
        obtain ⟨start, started⟩ := Option.ne_none_iff_exists'.mp starts
        obtain ⟨stop, stopped⟩ := Option.ne_none_iff_exists'.mp stops
        simp only [dated, bind_eq_bind, bind_some, started, stopped]
        exact ⟨_, rfl⟩
    · exact ⟨_, rfl⟩
    · rw [getElem?_eq_getElem (show index.toNat < rules.transitions.length by omega)]
      exact ⟨_, rfl⟩

/-! ## The two probes -/

/-- The offsets around a clock time: `before` up to the change, `after` from it on. -/
structure Probes (zone : TimeZone) (clock : Int) (before after : Offset) (change : Int) : Prop where
  early : offsetAtInstant zone (clock - microsecondsPerDay) = some before
  late : offsetAtInstant zone (clock + microsecondsPerDay) = some after
  first : ∀ t o, clock - microsecondsPerDay ≤ t → t ≤ clock + microsecondsPerDay → t < change →
    offsetAtInstant zone t = some o → o = before
  second : ∀ t o, clock - microsecondsPerDay ≤ t → t ≤ clock + microsecondsPerDay → change ≤ t →
    offsetAtInstant zone t = some o → o = after
  inside : before = after ∨ clock - microsecondsPerDay < change ∧
    change ≤ clock + microsecondsPerDay

theorem probes_exist (once : ChangesOnceIn48Hours zone)
    (early : offsetAtInstant zone (clock - microsecondsPerDay) = some before)
    (late : offsetAtInstant zone (clock + microsecondsPerDay) = some after) :
    ∃ change, Probes zone clock before after change := by
  obtain ⟨change, same⟩ := once (clock - microsecondsPerDay)
  have width : clock - microsecondsPerDay + 2 * microsecondsPerDay = clock + microsecondsPerDay :=
    by
    ring
  have positive : 0 < microsecondsPerDay := by decide
  rw [width] at same
  refine ⟨change, early, late, ?_, ?_, ?_⟩
  · intro t o low high less offset
    exact same _ _ _ _ low high (le_refl _) (by omega) (by omega) offset early
  · intro t o low high more offset
    exact same _ _ _ _ low high (by omega) (le_refl _) (by omega) offset late
  · rw [or_iff_not_imp_right]
    intro outside
    exact same _ _ _ _ (le_refl _) (by omega) (by omega) (le_refl _) (by omega) early late

/-- The instant an offset proposes lies between the probes. -/
theorem proposed_near (clock : Int) (o : Offset) :
    clock - microsecondsPerDay ≤ clock - o.seconds * microsecondsPerSecond ∧
      clock - o.seconds * microsecondsPerSecond ≤ clock + microsecondsPerDay := by
  have range := offset_range o
  unfold microsecondsPerDay microsecondsPerSecond
  omega

/-- Between the probes a proposed instant has one of the two offsets. -/
theorem Probes.proposed
    (probes : Probes zone clock before after change) (o : Offset) {first : Offset}
    (offset : offsetAtInstant zone (clock - o.seconds * microsecondsPerSecond) = some first) :
    if clock - o.seconds * microsecondsPerSecond < change then first = before else first = after :=
      by
  have near := proposed_near clock o
  split
  · next less => exact probes.first _ _ near.1 near.2 less offset
  · next more => exact probes.second _ _ near.1 near.2 (not_lt.mp more) offset

/-- Only the two probed offsets are in force between the probes. -/
theorem Probes.either (probes : Probes zone clock before after change) {o : Offset}
    (offset : offsetAtInstant zone t = some o)
    (reached : t + o.seconds * microsecondsPerSecond = clock) : o = before ∨ o = after := by
  obtain rfl : t = clock - o.seconds * microsecondsPerSecond := by omega
  have found := probes.proposed o offset
  split at found
  · exact .inl found
  · exact .inr found

/-- What `in_zone` computes from the two probed offsets. -/
def placed (zone : TimeZone) (clock : Int) (before after : Offset) : Option ZoneResolution := do
  let a := clock - before.seconds * microsecondsPerSecond
  let b := clock - after.seconds * microsecondsPerSecond
  let first ← offsetAtInstant zone a
  let second ← offsetAtInstant zone b
  return if first = before then
      if second = after then
        if a = b then .unique (instantAt zone a)
        else .ambiguous (instantAt zone (min a b)) (instantAt zone (max a b))
      else .unique (instantAt zone a)
    else if second = after then .unique (instantAt zone b)
    else .gap (instantAt zone b) (instantAt zone a)

theorem inUnit_microseconds (value : Int) :
    Duration.inUnit ⟨.microseconds, value⟩ .microseconds = checked value :=
  microseconds_toMicroseconds value

theorem instantAt_equals {a b : Int} (left : checked a = some a) (right : checked b = some b) :
    (instantAt zone a).equals (instantAt zone b) = some (decide (a = b)) := by
  unfold DateTime.equals Duration.equals instantAt Timestamp.new
  simp [Duration.finer, inUnit_microseconds, left, right]

section Instants
variable {a b : Int}

theorem instantAt_since (left : checked a = some a) (right : checked b = some b)
    (apart : checked (a - b) = some (a - b)) :
    (instantAt zone a).since (instantAt zone b) = some ⟨.microseconds, a - b⟩ := by
  unfold DateTime.since Timestamp.since Duration.minus instantAt Timestamp.new
  simp [Duration.finer, inUnit_microseconds, left, right, apart]

theorem earlier_instantAt (left : checked a = some a) (right : checked b = some b)
    (apart : checked (a - b) = some (a - b)) :
    earlier (instantAt zone a) (instantAt zone b) = some (instantAt zone (min a b)) := by
  unfold earlier
  simp only [instantAt_since left right apart, bind_eq_bind, bind_some,
    microseconds_toMicroseconds, apart, Option.pure_def, Option.some.injEq]
  split
  · rw [min_eq_left (by omega)]
  · rw [min_eq_right (by omega)]

theorem later_instantAt (left : checked a = some a) (right : checked b = some b)
    (apart : checked (a - b) = some (a - b)) :
    later (instantAt zone a) (instantAt zone b) = some (instantAt zone (max a b)) := by
  unfold later
  simp only [instantAt_since left right apart, bind_eq_bind, bind_some,
    microseconds_toMicroseconds, apart, Option.pure_def, Option.some.injEq]
  split
  · rw [max_eq_right (by omega)]
  · rw [max_eq_left (by omega)]

end Instants

theorem candidate_eq (zone : TimeZone) (clock : Int) (o : Offset) :
    candidate clock o zone =
      (offsetAtInstant zone (clock - o.seconds * microsecondsPerSecond)).map fun first =>
        if first = o then some (instantAt zone (clock - o.seconds * microsecondsPerSecond))
        else none := by
  change (do
    let first ← offsetAtInstant zone (clock - o.seconds * microsecondsPerSecond)
    return if first = o then some (instantAt zone (clock - o.seconds * microsecondsPerSecond))
      else none) = _
  cases offsetAtInstant zone (clock - o.seconds * microsecondsPerSecond) <;> rfl

/-- For a clock time of the supported years nothing `in_zone` itself computes leaves 64 bits. -/
theorem inZone_eq (near : rangeStart ≤ value.microseconds ∧ value.microseconds < rangeEnd)
    (zone : TimeZone) : value.inZone zone = (do
      let before ← offsetAtInstant zone (value.microseconds - microsecondsPerDay)
      let after ← offsetAtInstant zone (value.microseconds + microsecondsPerDay)
      placed zone value.microseconds before after) := by
  unfold inZone
  refine bind_congr fun before _ => bind_congr fun after _ => ?_
  rw [candidate_eq, candidate_eq]
  dsimp only [placed]
  have firstRange := offset_range before
  have secondRange := offset_range after
  unfold rangeStart rangeEnd firstDay endDay microsecondsPerDay at near
  generalize firstTime : value.microseconds - before.seconds * microsecondsPerSecond = a
  generalize secondTime : value.microseconds - after.seconds * microsecondsPerSecond = b
  unfold microsecondsPerSecond at firstTime secondTime
  have left : checked a = some a := checked_of_fits (by omega) (by omega)
  have right : checked b = some b := checked_of_fits (by omega) (by omega)
  have apart : checked (a - b) = some (a - b) := checked_of_fits (by omega) (by omega)
  cases offsetAtInstant zone a with
  | none => rfl
  | some first =>
    cases offsetAtInstant zone b with
    | none => rfl
    | some second =>
      simp only [Option.map_some, bind_eq_bind, bind_some]
      by_cases isBefore : first = before <;> by_cases isAfter : second = after
      · simp only [isBefore, isAfter, if_true, instantAt_equals left right, bind_some,
          earlier_instantAt left right apart, later_instantAt left right apart, decide_eq_true_eq]
        split <;> rfl
      all_goals simp only [isBefore, isAfter, if_true, if_false]
      all_goals rw [← firstTime, ← secondTime]
      all_goals rfl

/-! ## Zones with recorded transitions -/

/-- The transitions before index `low` are reached by the second, those after `high` are not. -/
structure Brackets (rules : Rules) (second : Transition → Int) (seconds low high : Int) :
    Prop where
  below : ∀ (i : Nat) transition, rules.transitions[i]? = some transition → (i : Int) < low →
    second transition ≤ seconds
  above : ∀ (i : Nat) transition, rules.transitions[i]? = some transition → high < (i : Int) →
    seconds < second transition

section Sorted

/-- The binary search closes the bracket it is given. -/
theorem search_spec
    (dated : ∀ transition ∈ rules.transitions,
      epochSeconds transition.at_ = some (second transition))
    (sorted : rules.transitions.Pairwise fun a b => second a ≤ second b) (rounds : Nat)
    {low high : Int} (nonneg : 0 ≤ low) (ordered : low ≤ high + 1)
    (fits : high < rules.transitions.length) (enough : high + 1 - low ≤ rounds)
    (brackets : Brackets rules second seconds low high) :
    ∃ index, rules.search seconds rounds low high = some index ∧ -1 ≤ index ∧ index ≤ high ∧
      Brackets rules second seconds (index + 1) index := by
  induction rounds generalizing low high with
  | zero =>
    obtain rfl : low = high + 1 := by omega
    exact ⟨high, rfl, by omega, le_refl high, brackets⟩
  | succ _ ih =>
    unfold Rules.search
    split
    · next active =>
      have middle : (low + high).tdiv 2 = (low + high) / 2 :=
        Int.tdiv_eq_ediv_of_nonneg (by omega)
      obtain ⟨m, index⟩ : ∃ m : Nat, (low + high) / 2 = m := ⟨((low + high) / 2).toNat, by omega⟩
      have inside : m < rules.transitions.length := by omega
      simp only [middle, index, Int.toNat_natCast, getElem?_eq_getElem inside, bind_eq_bind,
        bind_some, dated _ (getElem_mem inside)]
      have pairwise := pairwise_iff_getElem.mp sorted
      split
      · next reached =>
        refine ih (by omega) (by omega) fits (by omega) ⟨fun i _ listed less => ?_, brackets.above⟩
        obtain ⟨bound, rfl⟩ := List.getElem?_eq_some_iff.mp listed
        rcases Nat.lt_or_ge i m with before | later
        · exact (pairwise i m bound inside before).trans reached
        · obtain rfl : i = m := by omega
          exact reached
      · next missed =>
        obtain ⟨found, search, low, le, closed⟩ := ih nonneg (by omega) (by omega) (by omega)
          (show Brackets rules second seconds low (m - 1) from
            ⟨brackets.below, fun i _ listed more => by
              obtain ⟨bound, rfl⟩ := List.getElem?_eq_some_iff.mp listed
              rcases Nat.lt_or_ge m i with after | earlier
              · exact lt_of_lt_of_le (not_le.mp missed) (pairwise m i inside bound after)
              · obtain rfl : i = m := by omega
                exact not_le.mp missed⟩)
        exact ⟨found, search, low, by omega, closed⟩
    · next done =>
      obtain rfl : low = high + 1 := by omega
      exact ⟨high, rfl, by omega, le_refl high, brackets⟩

/-- The index is that of the last transition at or before the second. -/
theorem transitionIndex_spec
    (dated : ∀ transition ∈ rules.transitions,
      epochSeconds transition.at_ = some (second transition))
    (sorted : rules.transitions.Pairwise fun a b => second a ≤ second b) (seconds : Int) : ∃ index,
    rules.transitionIndex seconds = some index ∧
    -1 ≤ index ∧ index < rules.transitions.length ∧
    ∀ (i : Nat) transition, rules.transitions[i]? = some transition →
      (second transition ≤ seconds ↔ (i : Int) ≤ index) := by
  have whole : Brackets rules second seconds 0 (rules.transitions.length - 1) := by
    refine ⟨fun i _ _ less => absurd less (by omega), fun i _ listed more => ?_⟩
    obtain ⟨bound, -⟩ := List.getElem?_eq_some_iff.mp listed
    omega
  obtain ⟨index, found, low, high, brackets⟩ := search_spec dated sorted rules.transitions.length
    (le_refl 0) (by omega) (by omega) (by omega) whole
  refine ⟨index, found, low, by omega, fun i transition listed =>
    ⟨fun reached => ?_, fun within => ?_⟩⟩
  · refine not_lt.mp fun more => absurd reached (not_le.mpr ?_)
    exact brackets.above i transition listed more
  · exact brackets.below i transition listed (Int.lt_add_one_of_le within)

/-- A second that reaches every transition another one reaches has no smaller index. -/
theorem transitionIndex_le
    (dated : ∀ transition ∈ rules.transitions,
      epochSeconds transition.at_ = some (second transition))
    (sorted : rules.transitions.Pairwise fun a b => second a ≤ second b) {s s' index index' : Int}
    (found : rules.transitionIndex s = some index)
    (found' : rules.transitionIndex s' = some index')
    (reached : ∀ transition ∈ rules.transitions, second transition ≤ s → second transition ≤ s') :
    index ≤ index' := by
  obtain ⟨_, isFound, low, upper, spec⟩ := transitionIndex_spec dated sorted s
  obtain ⟨_, isFound', low', -, spec'⟩ := transitionIndex_spec dated sorted s'
  cases found.symm.trans isFound
  cases found'.symm.trans isFound'
  by_contra less
  have inside : index.toNat < rules.transitions.length := by omega
  have listed := getElem?_eq_getElem inside
  have := (spec' _ _ listed).mp (reached _ (getElem_mem inside) ((spec _ _ listed).mpr (by omega)))
  omega

end Sorted

/-- Without daylight saving after the last transition the offset is decided by the index of the
last transition reached. -/
theorem offsetAt_index (final : rules.final.daylight = none) {o : Offset}
    (offset : offsetAtInstant (.named rules) t = some o) : ∃ index,
      rules.transitionIndex (t / 1000000) = some index ∧
      (if index = rules.transitions.length - 1 then some rules.final.standard
        else if index < 0 then some rules.initial
        else rules.transitions[index.toNat]?.map (·.offset)) = some o := by
  change rules.offsetAt (.new t .microseconds) = some o at offset
  unfold Rules.offsetAt at offset
  rw [epochSeconds_microseconds] at offset
  obtain ⟨_, second, offset⟩ := bind_eq_some_iff.mp offset
  obtain ⟨_, same, rfl⟩ := Option.map_eq_some_iff.mp second
  obtain ⟨-, rfl⟩ := checked_eq_some.mp same
  obtain ⟨index, found, offset⟩ := bind_eq_some_iff.mp offset
  simp only [Rule.offsetAt, final] at offset
  exact ⟨index, found, offset⟩

/-- Recorded transitions more than 48 hours apart, with no daylight saving after the last one,
make a zone that changes its offset at most once in any 48 hours. -/
theorem changesOnce_of_spaced (dated : ∀ transition ∈ rules.transitions,
      epochSeconds transition.at_ = some (second transition))
    (spaced : rules.transitions.Pairwise fun a b => second a + 2 * secondsPerDay < second b)
    (final : rules.final.daylight = none) : ChangesOnceIn48Hours (.named rules) := by
  unfold secondsPerDay at spaced
  intro start
  -- The change is the transition inside the 48 hours, if there is one.
  obtain ⟨change, only⟩ : ∃ change, ∀ transition ∈ rules.transitions,
      start / 1000000 < second transition →
      second transition ≤ (start + 2 * microsecondsPerDay) / 1000000 →
      second transition * 1000000 = change := by
    by_contra never
    push Not at never
    obtain ⟨first, member, low, high, -⟩ := never 0
    obtain ⟨other, member', low', high', differ⟩ := never (second first * 1000000)
    obtain ⟨i, inside, rfl⟩ := getElem_of_mem member
    obtain ⟨j, inside', rfl⟩ := getElem_of_mem member'
    have ahead := pairwise_iff_getElem.mp spaced i j inside inside'
    have behind := pairwise_iff_getElem.mp spaced j i inside' inside
    unfold microsecondsPerDay at high high'
    rcases Nat.lt_trichotomy i j with less | rfl | more
    · have := ahead less
      omega
    · exact differ rfl
    · have := behind more
      omega
  refine ⟨change, fun t u o o' lowT highT lowU highU same offT offU => ?_⟩
  obtain ⟨index, found, offT⟩ := offsetAt_index final offT
  obtain ⟨index', found', offU⟩ := offsetAt_index final offU
  -- The offset depends on the transitions reached only, and both instants reach the same ones.
  have sorted := spaced.imp fun {a b} (apart : second a + 2 * 86400 < second b) =>
    show second a ≤ second b by omega
  have forth := transitionIndex_le dated sorted found found' fun transition member reached => by
    have := only transition member
    omega
  have back := transitionIndex_le dated sorted found' found fun transition member reached => by
    have := only transition member
    omega
  rw [le_antisymm forth back] at offT
  exact Option.some.inj (offT.symm.trans offU)

/-! ## The guarantee -/

/-- An instant that shows the clock time is one of the two proposed ones. -/
theorem Probes.shows_iff {first second : Offset} (probes : Probes zone clock before after change)
    (firstAt : offsetAtInstant zone (clock - before.seconds * microsecondsPerSecond) = some first)
    (secondAt : offsetAtInstant zone (clock - after.seconds * microsecondsPerSecond) = some second)
    (t : Int) :
    (∃ o, offsetAtInstant zone t = some o ∧ t + o.seconds * microsecondsPerSecond = clock) ↔
      first = before ∧ t = clock - before.seconds * microsecondsPerSecond ∨
        second = after ∧ t = clock - after.seconds * microsecondsPerSecond := by
  constructor
  · rintro ⟨o, offset, reached⟩
    rcases probes.either offset reached with rfl | rfl
    · have shownAt : t = clock - o.seconds * microsecondsPerSecond := by omega
      rw [← shownAt, offset] at firstAt
      exact .inl ⟨(Option.some.inj firstAt).symm, shownAt⟩
    · have shownAt : t = clock - o.seconds * microsecondsPerSecond := by omega
      rw [← shownAt, offset] at secondAt
      exact .inr ⟨(Option.some.inj secondAt).symm, shownAt⟩
  · rintro (⟨rfl, rfl⟩ | ⟨rfl, rfl⟩)
    · exact ⟨first, firstAt, by ring⟩
    · exact ⟨second, secondAt, by ring⟩

/-- What a resolution says about the instants that show a clock time. -/
def Describes (zone : TimeZone) (value : LocalDateTime) (resolution : ZoneResolution) : Prop :=
  (∀ a, resolution = .unique a ↔ ∃ t, a = instantAt zone t ∧ ∀ u, Shows zone u value ↔ u = t) ∧
  (∀ a b, resolution = .ambiguous a b ↔ ∃ t u, a = instantAt zone t ∧ b = instantAt zone u ∧ t < u ∧
    ∀ w, Shows zone w value ↔ w = t ∨ w = u) ∧
  ((∃ a b, resolution = .gap a b) ↔ ∀ w, ¬ Shows zone w value) ∧
  ∀ a b, resolution = .gap a b → ∃ t u change, a = instantAt zone t ∧ b = instantAt zone u ∧
    t < change ∧ change ≤ u ∧ SkippedAt zone change value

theorem describes_unique (only : ∀ u, Shows zone u value ↔ u = t) :
    Describes zone value (.unique (instantAt zone t)) := by
  refine ⟨fun a => ?_, fun a b => ?_, ?_, fun a b same => (nomatch same)⟩
  · rw [ZoneResolution.unique.injEq]
    constructor
    · rintro rfl
      exact ⟨t, rfl, only⟩
    · rintro ⟨u, rfl, onlyU⟩
      rw [(onlyU t).mp ((only t).mpr rfl)]
  · refine ⟨fun same => (nomatch same), ?_⟩
    rintro ⟨u, w, -, -, less, both⟩
    have first := (only u).mp ((both u).mpr (.inl rfl))
    have second := (only w).mp ((both w).mpr (.inr rfl))
    omega
  · refine ⟨fun ⟨_, _, same⟩ => (nomatch same), fun never => absurd ((only t).mpr rfl) (never t)⟩

theorem describes_ambiguous {u : Int} (less : t < u)
    (both : ∀ w, Shows zone w value ↔ w = t ∨ w = u) :
    Describes zone value (.ambiguous (instantAt zone t) (instantAt zone u)) := by
  refine ⟨fun a => ?_, fun a b => ?_, ?_, fun a b same => (nomatch same)⟩
  · refine ⟨fun same => (nomatch same), ?_⟩
    rintro ⟨w, -, only⟩
    have first := (only t).mp ((both t).mpr (.inl rfl))
    have second := (only u).mp ((both u).mpr (.inr rfl))
    omega
  · rw [ZoneResolution.ambiguous.injEq]
    constructor
    · rintro ⟨rfl, rfl⟩
      exact ⟨t, u, rfl, rfl, less, both⟩
    · rintro ⟨t', u', rfl, rfl, less', both'⟩
      have first := (both t').mp ((both' t').mpr (.inl rfl))
      have second := (both u').mp ((both' u').mpr (.inr rfl))
      have sameFirst : t = t' := by omega
      have sameSecond : u = u' := by omega
      rw [sameFirst, sameSecond]
      exact ⟨rfl, rfl⟩
  · exact ⟨fun ⟨_, _, same⟩ => (nomatch same),
      fun never => absurd ((both t).mpr (.inl rfl)) (never t)⟩

theorem describes_gap {u : Int} (never : ∀ w, ¬ Shows zone w value) (before : t < change)
    (after : change ≤ u) (skipped : SkippedAt zone change value) :
    Describes zone value (.gap (instantAt zone t) (instantAt zone u)) := by
  refine ⟨fun a => ?_, fun a b => ?_, ⟨fun _ => never, fun _ => ⟨_, _, rfl⟩⟩, fun a b same => ?_⟩
  · exact ⟨fun same => (nomatch same), fun ⟨w, _, only⟩ => absurd ((only w).mpr rfl) (never w)⟩
  · exact ⟨fun same => (nomatch same),
      fun ⟨w, _, _, _, _, both⟩ => absurd ((both w).mpr (.inl rfl)) (never w)⟩
  · obtain ⟨rfl, rfl⟩ := same
    exact ⟨t, u, change, rfl, rfl, before, after, skipped⟩

theorem WellInside.range (inside : WellInside value) :
    rangeStart ≤ value.microseconds ∧ value.microseconds < rangeEnd := by
  unfold WellInside microsecondsPerDay at inside
  omega

/-- Between the probes no offset is missing. -/
theorem offset_between (fits : DataFits zone) (inside : WellInside value)
    (low : value.microseconds - microsecondsPerDay ≤ t)
    (high : t ≤ value.microseconds + microsecondsPerDay) :
    ∃ o, offsetAtInstant zone t = some o := by
  obtain ⟨start, finish⟩ := inside
  have day : maxOffsetSeconds * microsecondsPerSecond < microsecondsPerDay := by decide
  exact offsetAtInstant_isSome fits (by omega) (by omega)

/-- Well inside the supported years `in_zone` returns. -/
theorem inZone_isSome (fits : DataFits zone) (inside : WellInside value) :
    ∃ resolution, value.inZone zone = some resolution := by
  have positive : 0 < microsecondsPerDay := by decide
  obtain ⟨before, early⟩ := offset_between fits inside (le_refl _) (by omega)
  obtain ⟨after, late⟩ := offset_between fits inside (by omega) (le_refl _)
  have nearFirst := proposed_near value.microseconds before
  have nearSecond := proposed_near value.microseconds after
  obtain ⟨first, firstAt⟩ := offset_between fits inside nearFirst.1 nearFirst.2
  obtain ⟨second, secondAt⟩ := offset_between fits inside nearSecond.1 nearSecond.2
  rw [inZone_eq inside.range, early, late]
  simp only [bind_eq_bind, bind_some, placed, firstAt, secondAt]
  exact ⟨_, rfl⟩

/-- Well inside the supported years what `in_zone` returns describes the instants that show the
clock time. -/
theorem inZone_describes (fits : DataFits zone) (once : ChangesOnceIn48Hours zone)
    (date : ValidDate value.date) (time : ValidTime value.time) (inside : WellInside value)
    {resolution : ZoneResolution} (returned : value.inZone zone = some resolution) :
    Describes zone value resolution := by
  rw [inZone_eq inside.range] at returned
  obtain ⟨before, early, returned⟩ := bind_eq_some_iff.mp returned
  obtain ⟨after, late, returned⟩ := bind_eq_some_iff.mp returned
  obtain ⟨first, firstAt, returned⟩ := bind_eq_some_iff.mp returned
  obtain ⟨second, secondAt, returned⟩ := bind_eq_some_iff.mp returned
  cases returned
  obtain ⟨change, probes⟩ := probes_exist once early late
  have shown : ∀ t, Shows zone t value ↔ _ := fun t =>
    (shows_iff.trans ((and_iff_right date).trans (and_iff_right time))).trans
      (probes.shows_iff firstAt secondAt t)
  have nearer := probes.proposed before firstAt
  have farther := probes.proposed after secondAt
  by_cases isBefore : first = before
  · by_cases isAfter : second = after
    · rw [if_pos isBefore, if_pos isAfter]
      simp only [isBefore, isAfter, true_and] at shown
      split
      · next same =>
        refine describes_unique fun u => ?_
        rw [shown, ← same, or_self]
      · next differ =>
        refine describes_ambiguous (by omega) fun w => ?_
        rw [shown]
        rcases lt_or_gt_of_ne differ with less | more
        · rw [min_eq_left less.le, max_eq_right less.le]
        · rw [min_eq_right more.le, max_eq_left more.le, or_comm]
    · rw [if_pos isBefore, if_neg isAfter]
      refine describes_unique fun u => ?_
      rw [shown, and_iff_right isBefore, or_iff_left fun both => isAfter both.1]
  · by_cases isAfter : second = after
    · rw [if_neg isBefore, if_pos isAfter]
      refine describes_unique fun u => ?_
      rw [shown, and_iff_right isAfter, or_iff_right fun both => isBefore both.1]
    · rw [if_neg isBefore, if_neg isAfter]
      -- Neither proposed instant has its offset: the first comes too late, the second too early.
      have late' : change ≤ value.microseconds - before.seconds * microsecondsPerSecond := by
        by_contra less
        rw [if_pos (not_le.mp less)] at nearer
        exact isBefore nearer
      have early' : value.microseconds - after.seconds * microsecondsPerSecond < change := by
        by_contra more
        rw [if_neg more] at farther
        exact isAfter farther
      have differ : before ≠ after := by
        rintro rfl
        omega
      obtain ⟨lowChange, highChange⟩ := probes.inside.resolve_left differ
      obtain ⟨offBefore, beforeAt⟩ := offset_between fits inside
        (show value.microseconds - microsecondsPerDay ≤ change - 1 by omega) (by omega)
      obtain ⟨offAfter, afterAt⟩ := offset_between fits inside lowChange.le highChange
      have isOld := probes.first _ _ (by omega) (by omega) (by omega) beforeAt
      have isNew := probes.second _ _ lowChange.le highChange (le_refl _) afterAt
      refine describes_gap (fun w seen => ?_) early' late' ⟨_, _, beforeAt, afterAt, ?_, ?_⟩
      · rcases (shown w).mp seen with ⟨is, _⟩ | ⟨is, _⟩
        · exact isBefore is
        · exact isAfter is
      · rw [isOld]
        omega
      · rw [isNew]
        omega

/-- The resolution names the instant. -/
def Names (resolution : ZoneResolution) (instant : DateTime) : Prop :=
  resolution = .unique instant ∨ (∃ later, resolution = .ambiguous instant later) ∨
    ∃ earlier, resolution = .ambiguous earlier instant

/-- Whenever `in_zone` returns for the clock time an instant shows, it names that instant. -/
theorem inZone_names (once : ChangesOnceIn48Hours zone) (shown : Shows zone t value)
    {resolution : ZoneResolution} (returned : value.inZone zone = some resolution) :
    Names resolution (instantAt zone t) := by
  obtain ⟨date, time, o, offset, reached⟩ := shows_iff.mp shown
  rw [inZone_eq (microseconds_range date time)] at returned
  obtain ⟨before, early, returned⟩ := bind_eq_some_iff.mp returned
  obtain ⟨after, late, returned⟩ := bind_eq_some_iff.mp returned
  obtain ⟨first, firstAt, returned⟩ := bind_eq_some_iff.mp returned
  obtain ⟨second, secondAt, returned⟩ := bind_eq_some_iff.mp returned
  cases returned
  obtain ⟨change, probes⟩ := probes_exist once early late
  rcases (probes.shows_iff firstAt secondAt t).mp ⟨o, offset, reached⟩ with
    ⟨is, shownAt⟩ | ⟨is, shownAt⟩
  · rw [if_pos is, ← shownAt]
    split
    · split
      · exact .inl rfl
      · rcases le_total t (value.microseconds - after.seconds * microsecondsPerSecond) with le | le
        · rw [min_eq_left le]
          exact .inr (.inl ⟨_, rfl⟩)
        · rw [max_eq_left le]
          exact .inr (.inr ⟨_, rfl⟩)
    · exact .inl rfl
  · rw [← shownAt]
    split
    · split
      · next same => exact .inl (by rw [same])
      · rcases le_total (value.microseconds - before.seconds * microsecondsPerSecond) t with le | le
        · rw [max_eq_right le]
          exact .inr (.inr ⟨_, rfl⟩)
        · rw [min_eq_right le]
          exact .inr (.inl ⟨_, rfl⟩)
    · exact .inl rfl

/-- `in_zone` finds exactly the instants that show a clock time well inside the supported years,
and for the clock time a microsecond instant shows it names that instant whenever it returns,
which it does well inside the supported years. -/
theorem in_zone_finds_instants (zone : TimeZone) (fits : DataFits zone)
    (once : ChangesOnceIn48Hours zone) :
    (∀ value : LocalDateTime, ValidDate value.date → ValidTime value.time → WellInside value →
      ∃ resolution, value.inZone zone = some resolution ∧ Describes zone value resolution) ∧
    ∀ (instant : DateTime) (value : LocalDateTime), instant.zone = zone →
      instant.timestamp.sinceEpoch.unit = .microseconds → instant.local = some value →
      (WellInside value → ∃ resolution, value.inZone instant.zone = some resolution) ∧
      ∀ resolution, value.inZone instant.zone = some resolution → Names resolution instant := by
  constructor
  · intro value date time inside
    obtain ⟨resolution, returned⟩ := inZone_isSome fits inside
    exact ⟨resolution, returned, inZone_describes fits once date time inside returned⟩
  · rintro ⟨⟨unit, micros⟩, zone⟩ value rfl rfl shown
    exact ⟨fun inside => inZone_isSome fits inside,
      fun resolution returned => inZone_names once shown returned⟩

/-- Six hours west of UTC. -/
def sixWest : Offset := ⟨-21600, by decide, by decide⟩

/-- Five hours west of UTC. -/
def fiveWest : Offset := ⟨-18000, by decide, by decide⟩

/-- A zone with the daylight saving of one year recorded. -/
def chicago : Rules :=
  { final := ⟨none, sixWest⟩
    identifier := "America/Chicago"
    initial := sixWest
    transitions := [⟨.new 1772956800 .seconds, fiveWest⟩, ⟨.new 1793516400 .seconds, sixWest⟩] }

/-- 02:30 on the day daylight saving starts, which the clocks skip. -/
def skippedMorning : LocalDateTime := ⟨⟨8, 3, 2026⟩, ⟨2, 0, 30, 0⟩⟩

theorem in_zone_finds_instants_chicago :
    DataFits (.named chicago) ∧ ChangesOnceIn48Hours (.named chicago) ∧
    (∃ resolution, skippedMorning.inZone (.named chicago) = some resolution ∧
      Describes (.named chicago) skippedMorning resolution) ∧
    ∀ value, (instantAt (.named chicago) 1772956800000000).local = some value →
      ∀ resolution, value.inZone (.named chicago) = some resolution →
        Names resolution (instantAt (.named chicago) 1772956800000000) := by
  have fits : DataFits (.named chicago) := ⟨by decide, by simp [chicago]⟩
  have once : ChangesOnceIn48Hours (.named chicago) :=
    @changesOnce_of_spaced chicago (·.at_.sinceEpoch.value) (by decide) (by decide) rfl
  obtain ⟨finds, names⟩ := in_zone_finds_instants (.named chicago) fits once
  exact ⟨fits, once, finds skippedMorning (by decide) (by decide) (by decide),
    fun value shown => (names _ value rfl rfl shown).2⟩

example : skippedMorning.inZone (.named chicago) =
    some (.gap (instantAt (.named chicago) 1772955000000000)
      (instantAt (.named chicago) 1772958600000000)) := by
  decide

/-- A zone whose yearly rule switches between equal offsets. -/
def idleRule : Rules :=
  { final := ⟨some ⟨.utc, ⟨3, 7200, 2, .sunday⟩, ⟨11, 7200, 1, .sunday⟩⟩, .utc⟩
    identifier := "Etc/UTC"
    initial := .utc
    transitions := [] }

/-- A zone with a transition 2^62 hours after the epoch. -/
def farTransition : Rules :=
  { final := ⟨none, .utc⟩
    identifier := "Etc/UTC"
    initial := .utc
    transitions := [⟨.new (2 ^ 62) .hours, .utc⟩] }

theorem farTransition_traps (t : Int) : offsetAtInstant (.named farTransition) t = none := by
  have index : ∀ seconds, farTransition.transitionIndex seconds = none := fun _ => rfl
  change farTransition.offsetAt (.new t .microseconds) = none
  unfold Rules.offsetAt
  simp [index]

/-- Noon on the last supported day is shown by an instant of a zone that never changes its offset,
and placing it back in that zone traps: the probe a day later asks the yearly rule for the year
10000. And where a transition leaves 64 bits in microseconds, every probe traps. -/
theorem in_zone_traps :
    (ChangesOnceIn48Hours (.named idleRule) ∧
      ∃ instant : DateTime, instant.zone = .named idleRule ∧
        instant.timestamp.sinceEpoch.unit = .microseconds ∧
        ∃ value, instant.local = some value ∧ value.inZone instant.zone = none) ∧
    ChangesOnceIn48Hours (.named farTransition) ∧
      ∀ value : LocalDateTime, value.inZone (.named farTransition) = none := by
  refine ⟨⟨fun start => ⟨start, fun t u o o' _ _ _ _ _ offT offU => ?_⟩,
    instantAt (.named idleRule) 253402257600000000, rfl, rfl,
    ⟨⟨31, 12, 9999⟩, ⟨12, 0, 0, 0⟩⟩, by decide, by decide⟩,
    fun start => ⟨start, fun t u o o' _ _ _ _ _ offT => ?_⟩, fun value => ?_⟩
  · have same : ∀ t o, offsetAtInstant (.named idleRule) t = some o → o = .utc := by
      intro t o offset
      obtain ⟨seconds, -, offset⟩ := bind_eq_some_iff.mp offset
      change idleRule.final.offsetAt seconds = some o at offset
      obtain ⟨_, -, offset⟩ := bind_eq_some_iff.mp offset
      obtain ⟨_, -, offset⟩ := bind_eq_some_iff.mp offset
      obtain ⟨_, -, offset⟩ := bind_eq_some_iff.mp offset
      cases offset
      exact ite_self _
    rw [same t o offT, same u o' offU]
  · rw [farTransition_traps] at offT
    cases offT
  · have probe : (TimeZone.named farTransition).offsetAt
        (.new (value.microseconds - microsecondsPerDay) .microseconds) = none :=
      farTransition_traps _
    unfold inZone
    simp only [probe]
    rfl

end Koja.Guarantees.Time
