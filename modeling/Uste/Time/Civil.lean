import Mathlib

/-!
The proleptic Gregorian calendar of the normalizer: instants, civil date-times and the day
arithmetic between them. Days are counted in eras of 400 years whose years start in March.
-/

namespace Uste.Time

/-! ### Day numbers -/

def daysFromCivil (year month day : Int) : Int :=
  let adjustedYear := year - if month ≤ 2 then 1 else 0
  let era := adjustedYear / 400
  let yearOfEra := adjustedYear - era * 400
  let shiftedMonth := month + if month > 2 then -3 else 9
  let dayOfYear := (153 * shiftedMonth + 2).tdiv 5 + day - 1
  let dayOfEra := yearOfEra * 365 + yearOfEra / 4 - yearOfEra / 100 + dayOfYear
  era * 146097 + dayOfEra - 719468

/-- The year of its era in which a day of the era falls; years start in March. -/
def yearOfEra (dayOfEra : Int) : Int :=
  (dayOfEra - dayOfEra / 1460 + dayOfEra / 36524 - dayOfEra / 146096) / 365

def dayOfYear (dayOfEra : Int) : Int :=
  dayOfEra - (365 * yearOfEra dayOfEra + yearOfEra dayOfEra / 4 - yearOfEra dayOfEra / 100)

def civilFromDays (days : Int) : Int × Int × Int :=
  let shiftedDays := days + 719468
  let era := shiftedDays / 146097
  let dayOfEra := shiftedDays - era * 146097
  let monthPrime := (5 * dayOfYear dayOfEra + 2) / 153
  let day := dayOfYear dayOfEra - (153 * monthPrime + 2) / 5 + 1
  let month := monthPrime + if monthPrime < 10 then 3 else -9
  (yearOfEra dayOfEra + era * 400 + (if month ≤ 2 then 1 else 0), month, day)

def civilFromEpoch (seconds : Int) : Int × Int × Int × Int × Int × Int :=
  let days := seconds / 86400
  let secondsOfDay := seconds % 86400
  let (year, month, day) := civilFromDays days
  (year, month, day, secondsOfDay / 3600, secondsOfDay % 3600 / 60, secondsOfDay % 60)

def isLeapYear (year : Int) : Bool :=
  year % 4 = 0 ∧ (year % 100 ≠ 0 ∨ year % 400 = 0)

def daysInMonth (year month : Int) : Int :=
  if month = 2 then if isLeapYear year then 29 else 28
  else if month = 4 ∨ month = 6 ∨ month = 9 ∨ month = 11 then 30
  else 31

theorem daysInMonth_le (year month : Int) : daysInMonth year month ≤ 31 := by
  unfold daysInMonth
  split
  · split <;> omega
  · split <;> omega

/-- A day of the era by century, four-year cycle and year. Only the last year of a cycle has a
leap day, and the last cycle of a century only at the end of the era. -/
structure EraSplit (dayOfEra century cycle year day : Int) : Prop where
  sum : dayOfEra = 36524 * century + 1461 * cycle + 365 * year + day
  centuries : 0 ≤ century ∧ century ≤ 3
  cycles : 0 ≤ cycle ∧ cycle ≤ 24
  years : 0 ≤ year ∧ year ≤ 3
  days : 0 ≤ day ∧ day ≤ 365
  leap : day = 365 → year = 3 ∧ (cycle < 24 ∨ century = 3)

theorem exists_eraSplit (dayOfEra : Int) (low : 0 ≤ dayOfEra) (high : dayOfEra < 146097) :
    ∃ century cycle year day, EraSplit dayOfEra century cycle year day := by
  obtain ⟨c, hc⟩ : ∃ c, c = min 3 (dayOfEra / 36524) := ⟨_, rfl⟩
  obtain ⟨k, hk⟩ : ∃ k, k = (dayOfEra - 36524 * c) / 1461 := ⟨_, rfl⟩
  obtain ⟨y, hy⟩ : ∃ y, y = min 3 ((dayOfEra - 36524 * c - 1461 * k) / 365) := ⟨_, rfl⟩
  refine ⟨c, k, y, dayOfEra - 36524 * c - 1461 * k - 365 * y, ?_, ?_, ?_, ?_, ?_, ?_⟩ <;> omega

namespace EraSplit

variable {dayOfEra century cycle year day : Int}

theorem yearOfEra (split : EraSplit dayOfEra century cycle year day) :
    yearOfEra dayOfEra = 100 * century + 4 * cycle + year := by
  obtain ⟨sum, ⟨_, _⟩, ⟨_, _⟩, ⟨_, _⟩, ⟨_, _⟩, leap⟩ := split
  have centuries : dayOfEra / 36524 - dayOfEra / 146096 = century := by
    by_cases last : dayOfEra = 146096
    · omega
    · have : dayOfEra / 146096 = 0 := by omega
      omega
  have units : dayOfEra / 1460 =
      25 * century + cycle + (24 * century + cycle + 365 * year + day) / 1460 := by omega
  unfold Time.yearOfEra
  omega

theorem dayOfYear (split : EraSplit dayOfEra century cycle year day) : dayOfYear dayOfEra = day := by
  unfold Time.dayOfYear
  rw [split.yearOfEra]
  have sum := split.sum
  have centuries := split.centuries
  have cycles := split.cycles
  have years := split.years
  omega

theorem leapYear (split : EraSplit dayOfEra century cycle year 365) (era : Int) :
    isLeapYear (100 * century + 4 * cycle + year + era * 400 + 1) = true := by
  obtain ⟨rfl, ends⟩ := split.leap rfl
  have cycles := split.cycles
  simp only [isLeapYear, decide_eq_true_eq]
  omega

end EraSplit

/-- The place of a day in its year: the month counts from March. -/
def MonthOf (month day : Int) : Prop :=
  0 ≤ month ∧ month ≤ 11 ∧ (153 * month + 2) / 5 ≤ day ∧ day < (153 * (month + 1) + 2) / 5

variable {days year day month : Int}

theorem EraSplit.civilFromDays {era century cycle : Int}
    (split : EraSplit (days + 719468 - era * 146097) century cycle year day) (place : MonthOf month day) :
    civilFromDays days = (100 * century + 4 * cycle + year + era * 400 + (if month < 10 then 0 else 1),
      (if month < 10 then month + 3 else month - 9), day - (153 * month + 2) / 5 + 1) := by
  obtain ⟨low, high, starts, ends⟩ := place
  have eras : (days + 719468) / 146097 = era := by
    obtain ⟨sum, centuries, cycles, years, bounds, -⟩ := split
    omega
  have months : (5 * day + 2) / 153 = month := by omega
  simp only [Time.civilFromDays, eras, split.dayOfYear, split.yearOfEra, months, Prod.mk.injEq, and_true]
  split <;> constructor <;> omega

theorem civilFromDays_split (days : Int) : ∃ era century cycle year day month,
      EraSplit (days + 719468 - era * 146097) century cycle year day ∧ MonthOf month day ∧
      civilFromDays days =
        (100 * century + 4 * cycle + year + era * 400 + (if month < 10 then 0 else 1),
          (if month < 10 then month + 3 else month - 9), day - (153 * month + 2) / 5 + 1) := by
  obtain ⟨c, k, y, d, split⟩ := exists_eraSplit
    (days + 719468 - (days + 719468) / 146097 * 146097) (by omega) (by omega)
  -- The month starts at or before the day, and the next one after it.
  have place : MonthOf ((5 * d + 2) / 153) d := by
    have := split.days
    unfold MonthOf
    omega
  exact ⟨_, c, k, y, d, _, split, place, split.civilFromDays place⟩

theorem civilFromDays_valid (h : civilFromDays days = (year, month, day)) :
    1 ≤ month ∧ month ≤ 12 ∧ 1 ≤ day ∧ day ≤ daysInMonth year month := by
  obtain ⟨e, c, k, y, d, m, split, ⟨low, high, starts, ends⟩, date⟩ := civilFromDays_split days
  rw [date] at h
  simp only [Prod.mk.injEq] at h
  obtain ⟨hyear, hmonth, rfl⟩ := h
  have bounds : 1 ≤ month ∧ month ≤ 12 := by split at hmonth <;> omega
  unfold daysInMonth
  by_cases february : m = 11
  · subst february
    have longest := split.days
    rw [if_pos (by omega)]
    split
    · omega
    · next common =>
      have : d ≠ 365 := by
        rintro rfl
        exact common (hyear ▸ split.leapYear e)
      omega
  · split
    · next short =>
      have : m = 1 ∨ m = 3 ∨ m = 6 ∨ m = 8 := by split at hmonth <;> omega
      rcases this with rfl | rfl | rfl | rfl <;> omega
    · omega

theorem daysFromCivil_civilFromDays
    (h : civilFromDays days = (year, month, day)) : daysFromCivil year month day = days := by
  obtain ⟨e, c, k, y, d, m, split, ⟨low, high, starts, ends⟩, date⟩ := civilFromDays_split days
  rw [date] at h
  obtain ⟨rfl, rfl, rfl⟩ := h
  obtain ⟨sum, centuries, cycles, years, days_bounds, leap⟩ := split
  obtain ⟨march, hmarch⟩ : ∃ march, march = 100 * c + 4 * k + y + e * 400 := ⟨_, rfl⟩
  have adjusted : march + (if m < 10 then 0 else 1) -
      (if (if m < 10 then m + 3 else m - 9) ≤ 2 then 1 else 0) = march := by
    split <;> split <;> omega
  have shifted : (if m < 10 then m + 3 else m - 9) +
      (if (if m < 10 then m + 3 else m - 9) > 2 then -3 else 9) = m := by
    split <;> split <;> omega
  unfold daysFromCivil
  simp only [← hmarch, adjusted, shifted]
  rw [Int.tdiv_eq_ediv_of_nonneg (by omega)]
  have era : march / 400 = e := by omega
  omega

/-! ### Stepping through the calendar -/

def CalendarDate (year month day : Int) : Prop :=
  1 ≤ month ∧ month ≤ 12 ∧ 1 ≤ day ∧ day ≤ daysInMonth year month

theorem civilFromDays_daysFromCivil (date : CalendarDate year month day) :
    civilFromDays (daysFromCivil year month day) = (year, month, day) := by
  obtain ⟨first, last, low, high⟩ := date
  obtain ⟨march, hmarch⟩ : ∃ march, march = year - if month ≤ 2 then 1 else 0 := ⟨_, rfl⟩
  obtain ⟨m, hm⟩ : ∃ m, m = month + if month > 2 then -3 else 9 := ⟨_, rfl⟩
  have leap : day = 29 → month = 2 → year % 4 = 0 ∧ (year % 100 ≠ 0 ∨ year % 400 = 0) := by
    rintro rfl rfl
    by_contra common
    have common : isLeapYear year = false := decide_eq_false common
    simp [daysInMonth, common] at high
  have place : MonthOf m ((153 * m + 2) / 5 + day - 1) ∧ (m = 11 → day ≤ 29) := by
    have months : m = 0 ∨ m = 1 ∨ m = 2 ∨ m = 3 ∨ m = 4 ∨ m = 5 ∨ m = 6 ∨ m = 7 ∨ m = 8 ∨ m = 9 ∨ m = 10 ∨ m = 11 := by
      omega
    have length : day ≤ 31 ∧ (month = 4 ∨ month = 6 ∨ month = 9 ∨ month = 11 → day ≤ 30) ∧ (month = 2 → day ≤ 29) := by
      unfold daysInMonth at high
      split at high
      · split at high <;> omega
      · split at high <;> omega
    clear high
    unfold MonthOf
    rcases months with rfl | rfl | rfl | rfl | rfl | rfl | rfl | rfl | rfl | rfl | rfl | rfl <;> omega
  have split : EraSplit (daysFromCivil year month day + 719468 - march / 400 * 146097) (march % 400 / 100)
      (march % 100 / 4) (march % 4) ((153 * m + 2) / 5 + day - 1) := by
    have number : daysFromCivil year month day = march / 400 * 146097 + ((march - march / 400 * 400) * 365 +
        (march - march / 400 * 400) / 4 - (march - march / 400 * 400) / 100 + ((153 * m + 2) / 5 + day - 1)) - 719468 := by
      unfold daysFromCivil
      simp only [← hmarch, ← hm]
      rw [Int.tdiv_eq_ediv_of_nonneg (by omega)]
    have bounds := place.1
    unfold MonthOf at bounds
    refine ⟨?_, ?_, ?_, ?_, ?_, ?_⟩ <;> omega
  rw [split.civilFromDays place.1]
  simp only [Prod.mk.injEq]
  refine ⟨?_, ?_, ?_⟩ <;> omega

def nextDay (date : Int × Int × Int) : Int × Int × Int :=
  let (year, month, day) := date
  if day < daysInMonth year month then (year, month, day + 1)
  else if month < 12 then (year, month + 1, 1)
  else (year + 1, 1, 1)

def previousDay (date : Int × Int × Int) : Int × Int × Int :=
  let (year, month, day) := date
  if 1 < day then (year, month, day - 1)
  else if 1 < month then (year, month - 1, daysInMonth year (month - 1))
  else (year - 1, 12, 31)

def steppedDate : Int → Int × Int × Int
  | .ofNat n => nextDay^[n] (1970, 1, 1)
  | .negSucc n => previousDay^[n + 1] (1970, 1, 1)

theorem daysInMonth_pos (year month : Int) : 28 ≤ daysInMonth year month := by
  unfold daysInMonth
  split
  · split <;> omega
  · split <;> omega

theorem nextDay_spec (date : CalendarDate year month day) :
    ∃ year' month' day', nextDay (year, month, day) = (year', month', day') ∧ CalendarDate year' month' day' ∧
      daysFromCivil year' month' day' = daysFromCivil year month day + 1 := by
  obtain ⟨first, last, low, high⟩ := date
  simp only [nextDay]
  split
  · refine ⟨_, _, _, rfl, ⟨first, last, by omega, by omega⟩, ?_⟩
    simp only [daysFromCivil]
    omega
  · obtain rfl : day = daysInMonth year month := by omega
    have long := daysInMonth_pos year (month + 1)
    split
    · refine ⟨_, _, _, rfl, ⟨by omega, by omega, by omega, by omega⟩, ?_⟩
      -- The months of a year one after the other; only the end of February depends on the year.
      have months : month = 1 ∨ month = 2 ∨ month = 3 ∨ month = 4 ∨ month = 5 ∨ month = 6 ∨ month = 7 ∨ month = 8 ∨
          month = 9 ∨ month = 10 ∨ month = 11 := by omega
      rcases months with rfl | rfl | rfl | rfl | rfl | rfl | rfl | rfl | rfl | rfl | rfl
      · simp [daysFromCivil, daysInMonth]
        omega
      · simp only [daysFromCivil, daysInMonth, isLeapYear]
        simp
        split <;> omega
      all_goals
        simp [daysFromCivil, daysInMonth]
        try omega
    · obtain rfl : month = 12 := by omega
      refine ⟨_, _, _, rfl, ⟨by omega, by omega, by omega, ?_⟩, ?_⟩
      · have := daysInMonth_pos (year + 1) 1
        omega
      · simp [daysFromCivil, daysInMonth]
        omega

theorem previousDay_spec (date : CalendarDate year month day) :
    ∃ year' month' day', previousDay (year, month, day) = (year', month', day') ∧ CalendarDate year' month' day' ∧
      nextDay (year', month', day') = (year, month, day) := by
  obtain ⟨first, last, low, high⟩ := date
  simp only [previousDay]
  split
  · refine ⟨_, _, _, rfl, ⟨first, last, by omega, by omega⟩, ?_⟩
    rw [nextDay, if_pos (by omega), Int.sub_add_cancel]
  · obtain rfl : day = 1 := by omega
    split
    · have long := daysInMonth_pos year (month - 1)
      refine ⟨_, _, _, rfl, ⟨by omega, by omega, by omega, by omega⟩, ?_⟩
      rw [nextDay, if_neg (by omega), if_pos (by omega), Int.sub_add_cancel]
    · obtain rfl : month = 1 := by omega
      refine ⟨_, _, _, rfl, ⟨by omega, by omega, by omega, by simp [daysInMonth]⟩, ?_⟩
      rw [nextDay, if_neg (by simp [daysInMonth]), if_neg (by omega), Int.sub_add_cancel]

theorem civilFromDays_next (days : Int) : civilFromDays (days + 1) = nextDay (civilFromDays days) := by
  rcases h : civilFromDays days with ⟨year, month, day⟩
  obtain ⟨year', month', day', next, date, number⟩ := nextDay_spec (civilFromDays_valid h)
  rw [next, ← daysFromCivil_civilFromDays h, ← number, civilFromDays_daysFromCivil date]

theorem civilFromDays_previous (days : Int) : civilFromDays (days - 1) = previousDay (civilFromDays days) := by
  rcases h : civilFromDays days with ⟨year, month, day⟩
  obtain ⟨year', month', day', previous, date, next⟩ := previousDay_spec (civilFromDays_valid h)
  obtain ⟨_, _, _, next', -, number⟩ := nextDay_spec date
  obtain ⟨rfl, rfl, rfl⟩ := next'.symm.trans next
  have same : daysFromCivil year' month' day' = days - 1 := by
    rw [← daysFromCivil_civilFromDays h, number, Int.add_sub_cancel]
  rw [previous, ← same, civilFromDays_daysFromCivil date]

theorem civilFromDays_stepped (days : Int) : civilFromDays days = steppedDate days := by
  cases days with
  | ofNat n =>
    induction n with
    | zero => decide
    | succ n ih =>
      show civilFromDays (Int.ofNat n + 1) = nextDay^[n + 1] (1970, 1, 1)
      rw [civilFromDays_next, ih, Function.iterate_succ_apply']
      rfl
  | negSucc n =>
    induction n with
    | zero => decide
    | succ n ih =>
      show civilFromDays (Int.negSucc n - 1) = previousDay^[n + 2] (1970, 1, 1)
      rw [civilFromDays_previous, ih, Function.iterate_succ_apply']
      rfl

/-- The closed forms are the calendar: every second has the date that stepping day by day reaches, with the time since
its midnight, and the day number of a date is the number of steps to it. -/
theorem civil_dates_stepped :
    (∀ seconds : Int, ∃ year month day hour minute second,
      civilFromEpoch seconds = (year, month, day, hour, minute, second) ∧
      steppedDate (seconds / 86400) = (year, month, day) ∧ (0 ≤ hour ∧ hour < 24) ∧ (0 ≤ minute ∧ minute < 60) ∧
      (0 ≤ second ∧ second < 60) ∧ seconds = seconds / 86400 * 86400 + hour * 3600 + minute * 60 + second) ∧
    ∀ days year month day : Int,
      steppedDate days = (year, month, day) ↔ CalendarDate year month day ∧ daysFromCivil year month day = days := by
  refine ⟨fun seconds => ?_, fun days year month day => ?_⟩
  · rcases h : civilFromDays (seconds / 86400) with ⟨year, month, day⟩
    refine ⟨year, month, day, seconds % 86400 / 3600, seconds % 86400 % 3600 / 60, seconds % 86400 % 60, ?_, ?_, ?_, ?_, ?_, ?_⟩
    · simp only [civilFromEpoch, h]
    · rw [← civilFromDays_stepped, h]
    all_goals omega
  · rw [← civilFromDays_stepped]
    constructor
    · intro h
      exact ⟨civilFromDays_valid h, daysFromCivil_civilFromDays h⟩
    · rintro ⟨date, rfl⟩
      exact civilFromDays_daysFromCivil date


/-- 0001-01-01T00:00:00Z. -/
def minEpochSeconds : Int := -62135596800

/-- 9999-12-31T23:59:59Z. -/
def maxEpochSeconds : Int := 253402300799

/-- A POSIX instant as its floor second and the nanoseconds after it. -/
structure UtcInstant where
  seconds : Int
  nanoseconds : Nat
  inRange : minEpochSeconds ≤ seconds ∧ seconds ≤ maxEpochSeconds ∧ nanoseconds ≤ 999999999
  deriving DecidableEq

namespace UtcInstant

def epoch : UtcInstant := ⟨0, 0, by decide⟩

@[ext] theorem ext {a b : UtcInstant} (seconds : a.seconds = b.seconds)
    (nanoseconds : a.nanoseconds = b.nanoseconds) : a = b := by
  cases a
  cases b
  cases seconds
  cases nanoseconds
  rfl

def new (seconds : Int) (nanoseconds : Nat) : Option UtcInstant :=
  if h : minEpochSeconds ≤ seconds ∧ seconds ≤ maxEpochSeconds ∧ nanoseconds ≤ 999999999 then
    some ⟨seconds, nanoseconds, h⟩
  else none

theorem new_eq_some {seconds : Int} {nanoseconds : Nat} {instant : UtcInstant} :
    new seconds nanoseconds = some instant ↔
      seconds = instant.seconds ∧ nanoseconds = instant.nanoseconds := by
  unfold new
  constructor
  · intro h
    split at h
    · cases h
      exact ⟨rfl, rfl⟩
    · cases h
  · rintro ⟨rfl, rfl⟩
    rw [dif_pos instant.inRange]

end UtcInstant

/-! ### Civil date-times -/

def ValidDateTime (year month day hour minute second subsecNanosecond : Int) : Prop :=
  (-9999 ≤ year ∧ year ≤ 9999) ∧ (1 ≤ month ∧ month ≤ 12) ∧
    (1 ≤ day ∧ day ≤ daysInMonth year month) ∧ (0 ≤ hour ∧ hour ≤ 23) ∧
    (0 ≤ minute ∧ minute ≤ 59) ∧ (0 ≤ second ∧ second ≤ 59) ∧
    (0 ≤ subsecNanosecond ∧ subsecNanosecond ≤ 999999999)

instance (year month day hour minute second subsecNanosecond : Int) :
    Decidable (ValidDateTime year month day hour minute second subsecNanosecond) :=
  inferInstanceAs (Decidable (_ ∧ _))

structure DateTime where
  year : Int
  month : Int
  day : Int
  hour : Int
  minute : Int
  second : Int
  subsecNanosecond : Int
  valid : ValidDateTime year month day hour minute second subsecNanosecond
  deriving DecidableEq

namespace DateTime

def new (year month day hour minute second subsecNanosecond : Int) : Option DateTime :=
  if h : ValidDateTime year month day hour minute second subsecNanosecond then
    some ⟨year, month, day, hour, minute, second, subsecNanosecond, h⟩
  else none

/-- The clock reading in seconds from the reading 1970-01-01T00:00:00. -/
def wallSeconds (datetime : DateTime) : Int :=
  daysFromCivil datetime.year datetime.month datetime.day * 86400 + datetime.hour * 3600 +
    datetime.minute * 60 + datetime.second

end DateTime

/-- No sum overflows here: the year of a civil date-time has at most four digits. -/
def instantFromDatetimeOffset (datetime : DateTime) (offsetSeconds : Int) : Option UtcInstant :=
  UtcInstant.new (datetime.wallSeconds - offsetSeconds) datetime.subsecNanosecond.toNat

def datetimeFromEpoch (seconds : Int) (nanoseconds : Nat) : Option DateTime :=
  let (year, month, day, hour, minute, second) := civilFromEpoch seconds
  DateTime.new year month day hour minute second nanoseconds

theorem civilFromDays_year (h : civilFromDays days = (year, month, day))
    (low : minEpochSeconds / 86400 ≤ days) (high : days ≤ maxEpochSeconds / 86400) : 1 ≤ year ∧ year ≤ 9999 := by
  obtain ⟨e, c, k, y, d, m, split, ⟨first, last, starts, ends⟩, date⟩ := civilFromDays_split days
  rw [date] at h
  obtain ⟨rfl, rfl, rfl⟩ := h
  obtain ⟨sum, centuries, cycles, years, days_bounds, leap⟩ := split
  unfold minEpochSeconds at low
  unfold maxEpochSeconds at high
  have era : 0 ≤ e ∧ e ≤ 24 := by omega
  split <;> omega

theorem datetimeFromEpoch_ok {seconds : Int} {nanoseconds : Nat}
    (low : minEpochSeconds ≤ seconds) (high : seconds ≤ maxEpochSeconds) (nanos : nanoseconds ≤ 999999999) :
    ∃ datetime, datetimeFromEpoch seconds nanoseconds = some datetime ∧
      datetime.wallSeconds = seconds ∧ datetime.subsecNanosecond = nanoseconds ∧
      1 ≤ datetime.year := by
  rcases h : civilFromDays (seconds / 86400) with ⟨year, month, day⟩
  have calendar := civilFromDays_valid h
  have supported := civilFromDays_year h (by unfold minEpochSeconds at *; omega)
    (by unfold maxEpochSeconds at *; omega)
  have days := daysFromCivil_civilFromDays h
  have valid : ValidDateTime year month day (seconds % 86400 / 3600) (seconds % 86400 % 3600 / 60)
      (seconds % 86400 % 60) nanoseconds := by
    unfold ValidDateTime
    omega
  refine ⟨⟨_, _, _, _, _, _, _, valid⟩, ?_, ?_, rfl, supported.1⟩
  · simp only [datetimeFromEpoch, civilFromEpoch, h, DateTime.new, dif_pos valid]
  · simp only [DateTime.wallSeconds, days]
    omega

end Uste.Time
