import Koja.Source.Time.Zone
import Mathlib.Tactic.Ring
import Mathlib.Tactic.Linarith

/-!
# Day counts and civil dates are inverse to each other

The calendar counts days in eras of 400 years that start on 1 March. `daysBeforeYear` is the day
of an era on which a year starts, so a day of an era has exactly one year, and a day of such a
year exactly one month.
-/
namespace Koja.Guarantees.Time

open Koja.Source.Time Option
open Date (civil toEpochDays lastDay fromEpochDays)

/-! ## Division -/

theorem floorDiv_eq (a : Int) {b : Int} (positive : 0 < b) : floorDiv a b = a / b := by
  have signOne : b.sign = 1 := Int.sign_eq_one_of_pos positive
  unfold floorDiv
  simp only [Int.tdiv_eq_ediv, signOne, decide_eq_false (not_lt.mpr positive.le), ne_eq,
    ← Int.dvd_iff_tmod_eq_zero, decide_eq_false_iff_not, not_lt]
  by_cases nonneg : 0 ≤ a
  · rw [if_neg fun both => both.2 nonneg, if_pos (.inl nonneg)]
    exact add_zero _
  · by_cases dvd : b ∣ a
    · rw [if_neg fun both => both.1 dvd, if_pos (.inr dvd)]
      exact add_zero _
    · rw [if_pos ⟨dvd, nonneg⟩, if_neg (not_or.mpr ⟨nonneg, dvd⟩)]
      exact add_sub_cancel_right _ _

theorem floorMod_eq (a : Int) {b : Int} (positive : 0 < b) : floorMod a b = a % b := by
  unfold floorMod
  rw [floorDiv_eq a positive, Int.emod_def, mul_comm]

/-- The source's era division: a count before the first era is moved down by an era less one
before it is divided toward zero. -/
theorem tdiv_shifted (z : Int) {n : Int} (positive : 0 < n) :
    (if 0 ≤ z then z else z - n + 1).tdiv n = z / n := by
  split
  · next nonneg => exact Int.tdiv_eq_ediv_of_nonneg nonneg
  · next neg =>
    have shift : z - n + 1 = -(n - 1 - z) := by ring
    rw [shift, Int.neg_tdiv, Int.tdiv_eq_ediv_of_nonneg (by omega)]
    have whole := Int.mul_ediv_add_emod z n
    have low := Int.emod_nonneg z positive.ne'
    have high := Int.emod_lt_of_pos z positive
    have split : n - 1 - z = (n - 1 - z % n) + n * -(z / n) := by linarith
    rw [split, Int.add_mul_ediv_left _ _ positive.ne', Int.ediv_eq_zero_of_lt (by omega) (by omega)]
    ring

/-! ## Years and months of an era -/

/-- The day of the era on which a year of the era starts; it starts on 1 March. -/
def daysBeforeYear (year : Int) : Int :=
  365 * year + year / 4 - year / 100 + year / 400

/-- The day of the year on which a month starts, counted from March. -/
def daysBeforeMonth (month : Int) : Int :=
  (153 * month + 2) / 5

/-- The year the source computes from a day of the era. -/
def yearOfEra (doe : Int) : Int :=
  (doe - doe / 1460 + doe / 36524 - doe / 146096) / 365

theorem daysBeforeYear_mono {y y' : Int} (le : y ≤ y') : daysBeforeYear y ≤ daysBeforeYear y' := by
  unfold daysBeforeYear
  omega

variable {doe year days : Int} {date : Date} {time : Time}

/-- The day lies in the year the source computes. Four years have 1460 or 1461 days, so the year
is close to four times the number of 1460-day spans; the cases are how far it is from that, in
each of the era's centuries. -/
theorem yearOfEra_spec (low : 0 ≤ doe) (high : doe < 146097) :
    daysBeforeYear (yearOfEra doe) ≤ doe ∧ doe < daysBeforeYear (yearOfEra doe + 1) := by
  obtain ⟨k, year⟩ : ∃ k, yearOfEra doe = 4 * (doe / 1460) + k :=
    ⟨yearOfEra doe - 4 * (doe / 1460), by ring⟩
  have definition : yearOfEra doe = (doe - doe / 1460 + doe / 36524 - doe / 146096) / 365 := rfl
  have near : k = -1 ∨ k = 0 ∨ k = 1 ∨ k = 2 ∨ k = 3 ∨ k = 4 := by omega
  have century : doe / 36524 = 0 ∨ doe / 36524 = 1 ∨ doe / 36524 = 2 ∨ doe / 36524 = 3 ∨
      doe / 36524 = 4 := by omega
  unfold daysBeforeYear
  rcases near with rfl | rfl | rfl | rfl | rfl | rfl <;>
    rcases century with c | c | c | c | c <;> omega

/-- A day of the era lies in one year only. -/
theorem yearOfEra_unique {yoe : Int} (yearLow : 0 ≤ yoe) (yearHigh : yoe ≤ 399)
    (starts : daysBeforeYear yoe ≤ doe) (ends : doe < daysBeforeYear (yoe + 1)) :
    yearOfEra doe = yoe := by
  have low : 0 ≤ doe := by unfold daysBeforeYear at starts; omega
  have high : doe < 146097 := by
    have last := daysBeforeYear_mono (show yoe + 1 ≤ 400 by omega)
    unfold daysBeforeYear at ends
    omega
  obtain ⟨starts', ends'⟩ := yearOfEra_spec low high
  rcases lt_trichotomy (yearOfEra doe) yoe with less | same | more
  · have := daysBeforeYear_mono (show yearOfEra doe + 1 ≤ yoe by omega)
    omega
  · exact same
  · have := daysBeforeYear_mono (show yoe + 1 ≤ yearOfEra doe by omega)
    omega

/-- All eras are alike. -/
theorem daysBeforeYear_era (year era : Int) :
    daysBeforeYear (year + era * 400) = daysBeforeYear year + era * 146097 := by
  unfold daysBeforeYear
  omega

/-- Every day lies in a year. -/
theorem year_of_day (day : Int) :
    ∃ year, daysBeforeYear year ≤ day ∧ day < daysBeforeYear (year + 1) := by
  obtain ⟨starts, ends⟩ := @yearOfEra_spec (day % 146097) (by omega) (by omega)
  refine ⟨yearOfEra (day % 146097) + day / 146097 * 400, ?_, ?_⟩
  · rw [daysBeforeYear_era]
    omega
  · rw [add_right_comm, daysBeforeYear_era]
    omega

theorem daysBeforeYear_succ (year : Int) : daysBeforeYear year + 365 ≤ daysBeforeYear (year + 1) ∧
    daysBeforeYear (year + 1) ≤ daysBeforeYear year + 366 := by
  unfold daysBeforeYear
  omega

theorem monthOfYear_spec {doy : Int} (low : 0 ≤ doy) (high : doy ≤ 365) :
    0 ≤ (5 * doy + 2) / 153 ∧ (5 * doy + 2) / 153 ≤ 11 := by
  omega

theorem monthOfYear_unique {doy mp : Int} (starts : daysBeforeMonth mp ≤ doy)
    (ends : doy < daysBeforeMonth (mp + 1)) : (5 * doy + 2) / 153 = mp := by
  unfold daysBeforeMonth at starts ends
  omega

/-! ## The two conversions -/

/-- The calendar month of a month counted from March. -/
def monthFromMarch (mp : Int) : Int :=
  if mp < 10 then mp + 3 else mp - 9

/-- The civil date of a day of a year, in the parts the source computes it from. -/
theorem civil_of_parts {doy : Int} (low : 0 ≤ doy)
    (high : daysBeforeYear year + doy < daysBeforeYear (year + 1)) :
    civil (daysBeforeYear year + doy - 719468) =
      ⟨doy - daysBeforeMonth ((5 * doy + 2) / 153) + 1, monthFromMarch ((5 * doy + 2) / 153),
        year + if monthFromMarch ((5 * doy + 2) / 153) ≤ 2 then 1 else 0⟩ := by
  obtain ⟨era, yoe, yearLow, yearHigh, rfl⟩ : ∃ era yoe, 0 ≤ yoe ∧ yoe ≤ 399 ∧
      year = yoe + era * 400 := ⟨year / 400, year % 400, by omega, by omega, by omega⟩
  rw [add_right_comm, daysBeforeYear_era, daysBeforeYear_era] at high
  have unique := @yearOfEra_unique (daysBeforeYear yoe + doy) yoe yearLow yearHigh (by omega)
    (by omega)
  have start : daysBeforeYear yoe = 365 * yoe + yoe / 4 - yoe / 100 := by
    unfold daysBeforeYear
    omega
  have last := daysBeforeYear_mono (show yoe + 1 ≤ 400 by omega)
  have total : daysBeforeYear 400 = 146097 := by decide
  obtain ⟨doe, doeDef⟩ : ∃ doe, doe = daysBeforeYear yoe + doy := ⟨_, rfl⟩
  have eraEq : (doe + era * 146097) / 146097 = era := by omega
  have yoeEq : (doe - doe.tdiv 1460 + doe.tdiv 36524 - doe.tdiv 146096).tdiv 365 = yoe := by
    simp only [Int.tdiv_eq_ediv_of_nonneg (show 0 ≤ doe by omega)]
    rw [Int.tdiv_eq_ediv_of_nonneg (by omega), doeDef]
    exact unique
  have doyEq : doe - (365 * yoe + yoe / 4 - yoe / 100) = doy := by omega
  rw [daysBeforeYear_era, add_right_comm, ← doeDef]
  unfold civil daysToEpoch daysPerEra
  simp only [sub_add_cancel, tdiv_shifted _ (show (0 : Int) < 146097 by decide), eraEq,
    add_sub_cancel_right, yoeEq, Int.tdiv_eq_ediv_of_nonneg yearLow, doyEq]
  rw [Int.tdiv_eq_ediv_of_nonneg (show 0 ≤ 5 * doy + 2 by omega),
    Int.tdiv_eq_ediv_of_nonneg (show 0 ≤ 153 * ((5 * doy + 2) / 153) + 2 by omega)]
  rfl

theorem toEpochDays_of_parts {mp day : Int} (mpLow : 0 ≤ mp) (mpHigh : mp ≤ 11) :
    toEpochDays ⟨day, monthFromMarch mp, year + if monthFromMarch mp ≤ 2 then 1 else 0⟩ =
      daysBeforeYear year + (daysBeforeMonth mp + day - 1) - 719468 := by
  have marchYear : (if monthFromMarch mp ≤ 2 then
        year + (if monthFromMarch mp ≤ 2 then 1 else 0) - 1
      else year + if monthFromMarch mp ≤ 2 then 1 else 0) = year := by
    split <;> ring
  have marchMonth : (if 2 < monthFromMarch mp then monthFromMarch mp - 3
      else monthFromMarch mp + 9) = mp := by
    unfold monthFromMarch
    split_ifs <;> omega
  have shifted := tdiv_shifted year (show (0 : Int) < 400 by decide)
  rw [show year - 400 + 1 = year - 399 by ring] at shifted
  have yearLow : 0 ≤ year - year / 400 * 400 := by omega
  unfold toEpochDays daysToEpoch daysPerEra
  simp only [marchYear, marchMonth, shifted]
  rw [Int.tdiv_eq_ediv_of_nonneg (show 0 ≤ 153 * mp + 2 by omega),
    Int.tdiv_eq_ediv_of_nonneg yearLow, Int.tdiv_eq_ediv_of_nonneg yearLow]
  unfold daysBeforeMonth daysBeforeYear
  omega

/-- A day in parts counted from March: its year, and the month and day of that year. -/
theorem day_parts (days : Int) : ∃ year doy, days = daysBeforeYear year + doy - 719468 ∧ 0 ≤ doy ∧
    doy ≤ 365 ∧ daysBeforeYear year + doy < daysBeforeYear (year + 1) := by
  obtain ⟨year, starts, ends⟩ := year_of_day (days + 719468)
  have length := daysBeforeYear_succ year
  exact ⟨year, days + 719468 - daysBeforeYear year, by ring, by omega, by omega, by omega⟩

theorem toEpochDays_civil (days : Int) : (civil days).toEpochDays = days := by
  obtain ⟨year, doy, rfl, low, high, ends⟩ := day_parts days
  obtain ⟨mpLow, mpHigh⟩ := monthOfYear_spec low high
  rw [civil_of_parts low ends, toEpochDays_of_parts mpLow mpHigh]
  ring

/-- What `Date.new` checks. -/
def ValidDate (date : Date) : Prop :=
  0 ≤ date.year ∧ date.year ≤ maxYear ∧ 1 ≤ date.month ∧ date.month ≤ 12 ∧ 1 ≤ date.day ∧
    date.day ≤ Date.lastDay date.year date.month

instance (date : Date) : Decidable (ValidDate date) := by
  unfold ValidDate
  infer_instance

theorem date_new_iff {month day : Int} :
    Date.new year month day = .ok date ↔ date = ⟨day, month, year⟩ ∧ ValidDate date := by
  unfold Date.new ValidDate
  constructor
  · intro accepted
    split_ifs at accepted
    cases accepted
    simp only [true_and]
    omega
  · rintro ⟨rfl, valid⟩
    simp only at valid
    rw [if_neg (by omega), if_neg (by omega), if_neg (by omega)]

/-- Before February a month ends where the next one starts, counted from March. -/
theorem lastDay_month (year : Int) {mp : Int} (low : 0 ≤ mp) (high : mp ≤ 10) :
    daysBeforeMonth mp + lastDay year (monthFromMarch mp) = daysBeforeMonth (mp + 1) := by
  have months : mp = 0 ∨ mp = 1 ∨ mp = 2 ∨ mp = 3 ∨ mp = 4 ∨ mp = 5 ∨ mp = 6 ∨ mp = 7 ∨ mp = 8 ∨
      mp = 9 ∨ mp = 10 := by omega
  rcases months with rfl | rfl | rfl | rfl | rfl | rfl | rfl | rfl | rfl | rfl | rfl <;> rfl

/-- February is as long as the year that ends with it allows. -/
theorem lastDay_february (nonneg : 0 ≤ year + 1) :
    daysBeforeYear year + daysBeforeMonth 11 + lastDay (year + 1) 2 =
      daysBeforeYear (year + 1) := by
  unfold lastDay Date.leap daysBeforeMonth daysBeforeYear
  simp only [Int.tmod_eq_emod_of_nonneg nonneg, Bool.and_eq_true, Bool.or_eq_true,
    decide_eq_true_eq, if_pos]
  split <;> omega

/-- A date with a month, in parts counted from March. -/
theorem date_parts (low : 1 ≤ date.month) (high : date.month ≤ 12) :
    ∃ year mp, 0 ≤ mp ∧ mp ≤ 11 ∧ date = ⟨date.day, monthFromMarch mp,
        year + if monthFromMarch mp ≤ 2 then 1 else 0⟩ := by
  obtain ⟨day, month, year⟩ := date
  simp only at low high
  by_cases early : month ≤ 2
  · have march : monthFromMarch (month + 9) = month := by unfold monthFromMarch; split_ifs <;> omega
    refine ⟨year - 1, month + 9, by omega, by omega, ?_⟩
    simp only [Date.mk.injEq, true_and]
    omega
  · have march : monthFromMarch (month - 3) = month := by unfold monthFromMarch; split_ifs <;> omega
    refine ⟨year, month - 3, by omega, by omega, ?_⟩
    simp only [Date.mk.injEq, true_and]
    omega

/-- A month ends before the next one starts, and before the year does; only February reaches the
end of the year. -/
theorem lastDay_within {mp : Int} (mpLow : 0 ≤ mp) (mpHigh : mp ≤ 11)
    (checked : 0 ≤ year + if monthFromMarch mp ≤ 2 then 1 else 0) :
    daysBeforeMonth mp + lastDay (year + if monthFromMarch mp ≤ 2 then 1 else 0)
        (monthFromMarch mp) ≤ daysBeforeMonth (mp + 1) ∧
      daysBeforeYear year + daysBeforeMonth mp + lastDay
        (year + if monthFromMarch mp ≤ 2 then 1 else 0) (monthFromMarch mp) ≤
          daysBeforeYear (year + 1) := by
  by_cases february : mp = 11
  · subst february
    have length := @lastDay_february year checked
    have longest := daysBeforeYear_succ year
    change daysBeforeMonth 11 + lastDay (year + 1) 2 ≤ _ ∧
      daysBeforeYear year + daysBeforeMonth 11 + lastDay (year + 1) 2 ≤ _
    exact ⟨by unfold daysBeforeMonth at length ⊢; omega, length.le⟩
  · have length := lastDay_month (year + if monthFromMarch mp ≤ 2 then 1 else 0) mpLow (by omega)
    have longer := daysBeforeYear_succ year
    have months : daysBeforeMonth (mp + 1) ≤ 337 := by unfold daysBeforeMonth; omega
    exact ⟨by omega, by omega⟩

/-- Every valid date is the date of its day count. -/
theorem fromEpochDays_toEpochDays (valid : ValidDate date) :
    fromEpochDays date.toEpochDays = some date := by
  obtain ⟨checkLow, checkHigh, monthLow, monthHigh, dayLow, dayHigh⟩ := valid
  obtain ⟨year, mp, mpLow, mpHigh, parts⟩ := date_parts monthLow monthHigh
  generalize date.day = day at parts dayLow dayHigh
  subst parts
  simp only at checkLow checkHigh dayHigh
  have monthStart : 0 ≤ daysBeforeMonth mp := by unfold daysBeforeMonth; omega
  obtain ⟨monthEnd, yearEnd⟩ := lastDay_within mpLow mpHigh checkLow
  have month := monthOfYear_unique (show daysBeforeMonth mp ≤ daysBeforeMonth mp + day - 1 by omega)
    (by omega)
  have civil := @civil_of_parts year (daysBeforeMonth mp + day - 1) (by omega) (by omega)
  rw [← toEpochDays_of_parts mpLow mpHigh, month] at civil
  unfold fromEpochDays
  rw [civil]
  simp only [Date.checkedYear]
  rw [if_neg (not_or.mpr ⟨not_lt.mpr checkLow, not_lt.mpr checkHigh⟩), map_some,
    Option.some.injEq, Date.mk.injEq]
  exact ⟨by ring, rfl, rfl⟩

/-! ## The supported years -/

/-- The day of 0000-01-01. -/
def firstDay : Int := -719528

/-- The day after 9999-12-31. -/
def endDay : Int := 2932897

theorem civil_year_iff (days : Int) :
    (0 ≤ (civil days).year ∧ (civil days).year ≤ maxYear) ↔
      firstDay ≤ days ∧ days < endDay := by
  obtain ⟨year, doy, rfl, low, high, ends⟩ := day_parts days
  have before : daysBeforeYear (-1) = -366 := by decide
  have first : daysBeforeYear 0 = 0 := by decide
  have last : daysBeforeYear 9999 = 3652059 := by decide
  have after : daysBeforeYear 10000 = 3652425 := by decide
  -- Only January and February of the years at either end depend on the month.
  have years : year + 1 ≤ -1 ∧ daysBeforeYear (year + 1) ≤ -366 ∨
      year = -1 ∧ daysBeforeYear year = -366 ∨
      (0 ≤ year ∧ year + 1 ≤ 9999 ∧ 0 ≤ daysBeforeYear year ∧ daysBeforeYear (year + 1) ≤ 3652059) ∨
      year = 9999 ∧ daysBeforeYear year = 3652059 ∨
      10000 ≤ year ∧ 3652425 ≤ daysBeforeYear year := by
    have early := @daysBeforeYear_mono (year + 1) (-1)
    have positive := @daysBeforeYear_mono 0 year
    have small := @daysBeforeYear_mono (year + 1) 9999
    have late := @daysBeforeYear_mono 10000 year
    by_cases isFirst : year = -1
    · subst isFirst
      omega
    by_cases isLast : year = 9999
    · subst isLast
      omega
    omega
  rw [civil_of_parts low ends]
  simp only [monthFromMarch, maxYear, firstDay, endDay]
  split_ifs <;> omega

theorem fromEpochDays_iff : fromEpochDays days = some date ↔
      date = civil days ∧ firstDay ≤ days ∧ days < endDay := by
  rw [← civil_year_iff]
  unfold fromEpochDays Date.checkedYear
  split
  · next outside =>
    refine iff_of_false nofun ?_
    omega
  · next inside =>
    rw [map_some, Option.some.injEq, eq_comm]
    exact (and_iff_left (by omega)).symm

/-! ## Dates in order -/

/-- The date of a day in the supported years passes the checks of `Date.new`. -/
theorem civil_valid (low : firstDay ≤ days) (high : days < endDay) :
    ValidDate (civil days) := by
  have checked := (civil_year_iff days).mpr ⟨low, high⟩
  clear low high
  obtain ⟨year, doy, rfl, low, high, ends⟩ := day_parts days
  rw [civil_of_parts low ends] at checked ⊢
  obtain ⟨mpLow, mpHigh⟩ := monthOfYear_spec low high
  have within : daysBeforeMonth ((5 * doy + 2) / 153) ≤ doy ∧
      doy < daysBeforeMonth ((5 * doy + 2) / 153 + 1) := by
    unfold daysBeforeMonth
    omega
  generalize (5 * doy + 2) / 153 = mp at *
  have month : 1 ≤ monthFromMarch mp ∧ monthFromMarch mp ≤ 12 := by
    unfold monthFromMarch
    split_ifs <;> omega
  refine ⟨checked.1, checked.2, month.1, month.2, ?_, ?_⟩
  · change 1 ≤ doy - daysBeforeMonth mp + 1
    omega
  · change doy - daysBeforeMonth mp + 1 ≤ _
    by_cases february : mp = 11
    · subst february
      have length := @lastDay_february year checked.1
      change _ ≤ lastDay (year + 1) 2
      omega
    · have length := lastDay_month (year + if monthFromMarch mp ≤ 2 then 1 else 0) mpLow (by omega)
      dsimp only
      omega

/-- Earlier by year, then month, then day. -/
def Earlier (date other : Date) : Prop :=
  date.year < other.year ∨ date.year = other.year ∧
    (date.month < other.month ∨ date.month = other.month ∧ date.day < other.day)

theorem toEpochDays_lt {other : Date} (valid : ValidDate date) (valid' : ValidDate other)
    (earlier : Earlier date other) : date.toEpochDays < other.toEpochDays := by
  obtain ⟨checked, -, monthLow, monthHigh, -, dayHigh⟩ := valid
  obtain ⟨-, -, monthLow', monthHigh', dayLow', -⟩ := valid'
  obtain ⟨year, mp, mpLow, mpHigh, parts⟩ := date_parts monthLow monthHigh
  obtain ⟨year', mp', mpLow', mpHigh', parts'⟩ := date_parts monthLow' monthHigh'
  generalize date.day = day at parts dayHigh
  generalize other.day = day' at parts' dayLow'
  subst parts parts'
  obtain ⟨monthEnd, yearEnd⟩ := lastDay_within mpLow mpHigh checked
  rw [toEpochDays_of_parts mpLow mpHigh, toEpochDays_of_parts mpLow' mpHigh']
  have monthStart : 0 ≤ daysBeforeMonth mp' := by unfold daysBeforeMonth; omega
  have order : year < year' ∨ year = year' ∧ (mp < mp' ∨ mp = mp' ∧ day < day') := by
    unfold Earlier monthFromMarch at earlier
    dsimp only at earlier
    split_ifs at earlier <;> omega
  dsimp only at dayHigh
  rcases order with less | ⟨rfl, less | ⟨rfl, less⟩⟩
  · have := daysBeforeYear_mono (show year + 1 ≤ year' by omega)
    omega
  · have : daysBeforeMonth (mp + 1) ≤ daysBeforeMonth mp' := by unfold daysBeforeMonth; omega
    omega
  · omega

/-- The date that follows on the calendar. -/
def nextDate (date : Date) : Date :=
  if date.day < Date.lastDay date.year date.month then { date with day := date.day + 1 }
  else if date.month < 12 then ⟨1, date.month + 1, date.year⟩
  else ⟨1, 1, date.year + 1⟩

/-- After the last day of a month counted from March. -/
theorem nextDate_of_parts {mp day : Int} (mpLow : 0 ≤ mp) (mpHigh : mp ≤ 11)
    (ended : ¬ day < lastDay (year + if monthFromMarch mp ≤ 2 then 1 else 0)
      (monthFromMarch mp)) :
    nextDate ⟨day, monthFromMarch mp, year + if monthFromMarch mp ≤ 2 then 1 else 0⟩ =
      if mp = 11 then ⟨1, monthFromMarch 0, year + 1 + if monthFromMarch 0 ≤ 2 then 1 else 0⟩
      else ⟨1, monthFromMarch (mp + 1), year + if monthFromMarch (mp + 1) ≤ 2 then 1 else 0⟩ := by
  unfold nextDate
  rw [if_neg ended]
  dsimp only
  unfold monthFromMarch
  split_ifs <;> first | omega | (simp only [Date.mk.injEq, true_and, and_true]; omega)

theorem toEpochDays_nextDate (valid : ValidDate date) :
    (nextDate date).toEpochDays = date.toEpochDays + 1 := by
  obtain ⟨checked, -, monthLow, monthHigh, -, dayHigh⟩ := valid
  obtain ⟨year, mp, mpLow, mpHigh, parts⟩ := date_parts monthLow monthHigh
  generalize date.day = day at parts dayHigh
  subst parts
  dsimp only at checked dayHigh
  rw [toEpochDays_of_parts mpLow mpHigh]
  by_cases inside : day < lastDay (year + if monthFromMarch mp ≤ 2 then 1 else 0)
      (monthFromMarch mp)
  · unfold nextDate
    rw [if_pos inside, toEpochDays_of_parts mpLow mpHigh]
    ring
  rw [nextDate_of_parts mpLow mpHigh inside]
  split
  · next february =>
    subst february
    have length := @lastDay_february year checked
    have start : daysBeforeMonth 0 = 0 := by decide
    change ¬ day < lastDay (year + 1) 2 at inside
    change day ≤ lastDay (year + 1) 2 at dayHigh
    rw [toEpochDays_of_parts (by decide) (by decide)]
    omega
  · have length := lastDay_month (year + if monthFromMarch mp ≤ 2 then 1 else 0) mpLow (by omega)
    rw [toEpochDays_of_parts (by omega) (by omega)]
    omega

/-- A day count has a valid date exactly where that date has the day count. -/
theorem fromEpochDays_eq_some :
    fromEpochDays days = some date ↔ ValidDate date ∧ date.toEpochDays = days := by
  constructor
  · intro dated
    obtain ⟨rfl, low, high⟩ := fromEpochDays_iff.mp dated
    exact ⟨civil_valid low high, toEpochDays_civil days⟩
  · rintro ⟨valid, rfl⟩
    exact fromEpochDays_toEpochDays valid

/-- Dates that `Date.new` accepts and the day numbers from 0000-01-01 to 9999-12-31 correspond one
to one and in order, the next date has the next number, and every other number traps. -/
theorem civil_dates_numbered :
    (∀ days, Date.toEpochDays ⟨1, 1, 0⟩ ≤ days → days ≤ Date.toEpochDays ⟨31, 12, 9999⟩ →
      ∃ date, Date.fromEpochDays days = some date ∧
        Date.new date.year date.month date.day = .ok date ∧ date.toEpochDays = days) ∧
    (∀ year month day date, Date.new year month day = .ok date →
      Date.fromEpochDays date.toEpochDays = some date ∧
        (nextDate date).toEpochDays = date.toEpochDays + 1 ∧
        ∀ year' month' day' other, Date.new year' month' day' = .ok other → Earlier date other →
          date.toEpochDays < other.toEpochDays) ∧
    ∀ days, Date.fromEpochDays days = none ↔
      days < Date.toEpochDays ⟨1, 1, 0⟩ ∨ Date.toEpochDays ⟨31, 12, 9999⟩ < days := by
  have first : toEpochDays ⟨1, 1, 0⟩ = firstDay := by decide
  have last : toEpochDays ⟨31, 12, 9999⟩ + 1 = endDay := by decide
  refine ⟨fun days low high => ?_, fun year month day date accepted => ?_, fun days => ?_⟩
  · have dated := fromEpochDays_iff.mpr ⟨rfl, show firstDay ≤ days ∧ days < endDay by omega⟩
    obtain ⟨valid, counted⟩ := fromEpochDays_eq_some.mp dated
    exact ⟨_, dated, date_new_iff.mpr ⟨rfl, valid⟩, counted⟩
  · have valid := (date_new_iff.mp accepted).2
    exact ⟨fromEpochDays_toEpochDays valid, toEpochDays_nextDate valid,
      fun _ _ _ _ accepted' => toEpochDays_lt valid (date_new_iff.mp accepted').2⟩
  · rw [eq_none_iff_forall_ne_some]
    constructor
    · intro trapped
      by_contra inside
      exact trapped _ (fromEpochDays_iff.mpr ⟨rfl, by omega⟩)
    · intro outside date dated
      have inside := (fromEpochDays_iff.mp dated).2
      omega

theorem leap_day_numbered : Date.new 2000 2 29 = .ok ⟨29, 2, 2000⟩ ∧
      Date.fromEpochDays (Date.toEpochDays ⟨29, 2, 2000⟩) = some ⟨29, 2, 2000⟩ :=
  have accepted : Date.new 2000 2 29 = .ok ⟨29, 2, 2000⟩ := by decide
  ⟨accepted, (civil_dates_numbered.2.1 2000 2 29 _ accepted).1⟩

/-! ## Times of day -/

/-- `Time.new` accepts the fields. -/
def ValidTime (time : Time) : Prop :=
  Time.new time.hour time.minute time.second time.microsecond = .ok time

instance (time : Time) : Decidable (ValidTime time) := by
  unfold ValidTime
  infer_instance

theorem validTime_iff :
    ValidTime time ↔
      0 ≤ time.hour ∧ time.hour ≤ 23 ∧ 0 ≤ time.minute ∧ time.minute ≤ 59 ∧ 0 ≤ time.second ∧
      time.second ≤ 59 ∧ 0 ≤ time.microsecond ∧ time.microsecond ≤ 999999 := by
  unfold ValidTime Time.new
  constructor
  · intro accepted
    split_ifs at accepted
    omega
  · intro valid
    rw [if_neg (by omega), if_neg (by omega), if_neg (by omega), if_neg (by omega)]

theorem checked_eq_some {n m : Int} :
    checked n = some m ↔ (-0x8000000000000000 ≤ n ∧ n < 0x8000000000000000) ∧ n = m := by
  unfold checked
  split
  · next fits => rw [Option.some.injEq, and_iff_right fits]
  · next past => exact iff_of_false (by simp) fun both => past both.1

theorem checked_of_fits {n : Int} (low : -0x8000000000000000 ≤ n)
    (high : n < 0x8000000000000000) :
    checked n = some n :=
  if_pos ⟨low, high⟩

@[simp] theorem microseconds_toMicroseconds (value : Int) :
    Duration.toMicroseconds ⟨.microseconds, value⟩ = checked value :=
  congrArg checked (mul_one value)

/-- The time of day of a count of microseconds within a day. -/
theorem afterMidnight_eq {total : Int} (low : 0 ≤ total) (high : total < microsecondsPerDay) :
    Time.afterMidnight ⟨.microseconds, total⟩ = some ⟨total / 3600000000, total % 1000000,
      total % 3600000000 / 60000000, total % 60000000 / 1000000⟩ := by
  unfold microsecondsPerDay at high
  unfold Time.afterMidnight microsecondsPerDay microsecondsPerHour microsecondsPerMinute
    microsecondsPerSecond
  rw [microseconds_toMicroseconds, checked_of_fits (by omega) (by omega)]
  have whole : floorMod total 86400000000 = total := by
    rw [floorMod_eq total (by decide), Int.emod_eq_of_lt low high]
  simp only [bind_eq_bind, bind_some, whole, Int.tmod_eq_emod_of_nonneg low,
    Int.tdiv_eq_ediv_of_nonneg low]
  rw [Int.tdiv_eq_ediv_of_nonneg (Int.emod_nonneg _ (by decide)),
    Int.tdiv_eq_ediv_of_nonneg (Int.emod_nonneg _ (by decide))]
  rfl

/-- Times of day and counts of microseconds within a day correspond. -/
theorem afterMidnight_iff {total : Int} (low : 0 ≤ total) (high : total < microsecondsPerDay) :
    Time.afterMidnight ⟨.microseconds, total⟩ = some time ↔
      ValidTime time ∧ time.sinceMidnight.value = total := by
  rw [afterMidnight_eq low high, Option.some.injEq, validTime_iff]
  unfold microsecondsPerDay at high
  unfold Time.sinceMidnight microsecondsPerHour microsecondsPerMinute microsecondsPerSecond
  obtain ⟨hour, microsecond, minute, second⟩ := time
  simp only [Time.mk.injEq]
  omega

theorem sinceMidnight_range (valid : ValidTime time) : 0 ≤ time.sinceMidnight.value ∧
      time.sinceMidnight.value < microsecondsPerDay := by
  rw [validTime_iff] at valid
  unfold Time.sinceMidnight microsecondsPerHour microsecondsPerMinute microsecondsPerSecond
    microsecondsPerDay
  dsimp only
  omega

end Koja.Guarantees.Time
