import Mathlib.Data.Int.Basic

/-!
# The calendar

The proleptic Gregorian calendar, given by how long its months are: the years and months are counted
up from an epoch year, forwards and backwards without end. Every date gets the number of days from the
start of the epoch year, and every date and time of day an instant in milliseconds.

## What is proved

* `yearLength_eq`: how long the years are.
* `daysBeforeYear_eq`: the days before a year in closed form, by the number of leap years.
* `Date.number_lt`, `instantMs_lt`: a later date has a greater number, and a later date and time of day
  at one offset a greater instant.
-/

namespace Calendar

/-! ### Months and years -/

/-- A year with a leap day. -/
def IsLeap (year : ℤ) : Prop := year % 4 = 0 ∧ (year % 100 ≠ 0 ∨ year % 400 = 0)

instance (year : ℤ) : Decidable (IsLeap year) := inferInstanceAs (Decidable (_ ∧ _))

/-- The days of a month of a year. -/
def monthLength (year : ℤ) : ℕ → ℕ
  | 2 => if IsLeap year then 29 else 28
  | 4 | 6 | 9 | 11 => 30
  | _ => 31

/-- The days of a year before a month. -/
def daysBeforeMonth (year : ℤ) : ℕ → ℕ
  | 0 | 1 => 0
  | month + 2 => daysBeforeMonth year (month + 1) + monthLength year (month + 1)

/-- The days of a year. -/
def yearLength (year : ℤ) : ℕ := daysBeforeMonth year 13

/-- The days of the years from an epoch on. -/
def daysForward (epoch : ℤ) : ℕ → ℤ
  | 0 => 0
  | years + 1 => daysForward epoch years + yearLength (epoch + years)

/-- The days of the years before an epoch, as a negative number. -/
def daysBackward (epoch : ℤ) : ℕ → ℤ
  | 0 => 0
  | years + 1 => daysBackward epoch years - yearLength (epoch - (years + 1))

/-- The days from the start of the epoch year to the start of a year. -/
def daysBeforeYear (epoch year : ℤ) : ℤ :=
  if epoch ≤ year then daysForward epoch (year - epoch).toNat else daysBackward epoch (epoch - year).toNat

/-- Each year before the end of a given one counts 365 days and those with a leap day one more. -/
def daysThroughYear (year : ℤ) : ℤ := 365 * year + year / 4 - year / 100 + year / 400

theorem monthLength_le (year : ℤ) (month : ℕ) : monthLength year month ≤ 31 := by
  rw [monthLength.eq_def]
  split
  · split <;> omega
  all_goals omega

theorem yearLength_eq (year : ℤ) : yearLength year = if IsLeap year then 366 else 365 := by
  simp only [yearLength, daysBeforeMonth, monthLength]
  split <;> rfl

theorem daysThroughYear_eq (year : ℤ) : daysThroughYear year = daysThroughYear (year - 1) + yearLength year := by
  rw [yearLength_eq, daysThroughYear, daysThroughYear]
  split
  · rename_i hleap
    obtain ⟨hfour, hhundred⟩ := hleap
    omega
  · rename_i hleap
    rw [IsLeap] at hleap
    omega

theorem daysForward_eq (epoch : ℤ) (years : ℕ) :
    daysForward epoch years = daysThroughYear (epoch + years - 1) - daysThroughYear (epoch - 1) := by
  induction years with
  | zero =>
    rw [daysForward, show epoch + ((0 : ℕ) : ℤ) - 1 = epoch - 1 by omega, Int.sub_self]
  | succ years ih =>
    have hyear := daysThroughYear_eq (epoch + years)
    rw [daysForward, ih, show epoch + ((years + 1 : ℕ) : ℤ) - 1 = epoch + years by omega]
    omega

theorem daysBackward_eq (epoch : ℤ) (years : ℕ) :
    daysBackward epoch years = daysThroughYear (epoch - years - 1) - daysThroughYear (epoch - 1) := by
  induction years with
  | zero =>
    rw [daysBackward, show epoch - ((0 : ℕ) : ℤ) - 1 = epoch - 1 by omega, Int.sub_self]
  | succ years ih =>
    have hyear := daysThroughYear_eq (epoch - (years + 1))
    rw [daysBackward, ih, show epoch - (years : ℤ) - 1 = epoch - (years + 1) by omega,
      show epoch - ((years + 1 : ℕ) : ℤ) - 1 = epoch - (years + 1) - 1 by omega]
    omega

/-- The days before a year are those of all years up to it without those up to the epoch. -/
theorem daysBeforeYear_eq (epoch year : ℤ) :
    daysBeforeYear epoch year = daysThroughYear (year - 1) - daysThroughYear (epoch - 1) := by
  rw [daysBeforeYear]
  split
  · rw [daysForward_eq, show epoch + ((year - epoch).toNat : ℤ) = year by omega]
  · rw [daysBackward_eq, show epoch - ((epoch - year).toNat : ℤ) = year by omega]

theorem daysBeforeYear_le {epoch year later : ℤ} (h : year < later) :
    daysBeforeYear epoch year + yearLength year ≤ daysBeforeYear epoch later := by
  have hyear := daysThroughYear_eq year
  have hlater : daysThroughYear year ≤ daysThroughYear (later - 1) := by
    rw [daysThroughYear, daysThroughYear]
    omega
  rw [daysBeforeYear_eq, daysBeforeYear_eq]
  omega

theorem daysBeforeMonth_le (year : ℤ) {month later : ℕ} (hmonth : 1 ≤ month) (h : month < later) :
    daysBeforeMonth year month + monthLength year month ≤ daysBeforeMonth year later := by
  induction later with
  | zero => omega
  | succ later ih =>
    obtain ⟨before, rfl⟩ := Nat.exists_eq_add_of_le' (Nat.le_trans hmonth (Nat.le_of_lt_succ h))
    rw [daysBeforeMonth]
    rcases Nat.lt_or_ge month (before + 1) with hlt | hge
    · have hbefore := ih hlt
      omega
    · obtain rfl : month = before + 1 := by omega
      exact Nat.le_refl _

/-! ### Dates -/

/-- A date of the calendar. -/
structure Date where
  year : ℤ
  month : ℕ
  day : ℕ
  month_pos : 1 ≤ month
  month_le : month ≤ 12
  day_pos : 1 ≤ day
  day_le : day ≤ monthLength year month

namespace Date

/-- The days from the start of the epoch year to a date. -/
def number (epoch : ℤ) (date : Date) : ℤ :=
  daysBeforeYear epoch date.year + daysBeforeMonth date.year date.month + (date.day - 1)

/-- One date is earlier than another. -/
def Before (date later : Date) : Prop :=
  date.year < later.year ∨ date.year = later.year ∧
    (date.month < later.month ∨ date.month = later.month ∧ date.day < later.day)

/-- A date is in its month, so its number is less than that of the month after it. -/
theorem number_lt_month (epoch : ℤ) (date : Date) :
    date.number epoch < daysBeforeYear epoch date.year +
      (daysBeforeMonth date.year date.month + monthLength date.year date.month : ℕ) := by
  have hday := date.day_le
  rw [number]
  omega

theorem le_number (epoch : ℤ) (date : Date) :
    daysBeforeYear epoch date.year + daysBeforeMonth date.year date.month ≤ date.number epoch := by
  have hday := date.day_pos
  rw [number]
  omega

/-- Of two dates the later one has the greater number. -/
theorem number_lt (epoch : ℤ) {date later : Date} (h : date.Before later) : date.number epoch < later.number epoch := by
  have hdate := date.number_lt_month epoch
  have hlater := later.le_number epoch
  rcases h with hyear | ⟨hyear, hmonth | ⟨hmonth, hday⟩⟩
  · have hmonths : _ ≤ daysBeforeMonth date.year 13 :=
      daysBeforeMonth_le date.year date.month_pos (Nat.lt_succ_of_le date.month_le)
    have hyears := @daysBeforeYear_le epoch _ _ hyear
    rw [yearLength] at hyears
    omega
  · have hmonths := daysBeforeMonth_le date.year date.month_pos hmonth
    rw [← hyear] at hlater
    omega
  · rw [number, number, hyear, hmonth]
    omega

end Date

/-! ### Times of day -/

/-- A time of day, to the millisecond. -/
structure TimeOfDay where
  hour : ℕ
  minute : ℕ
  second : ℕ
  milli : ℕ
  hour_lt : hour < 24
  minute_lt : minute < 60
  second_lt : second < 60
  milli_lt : milli < 1000

namespace TimeOfDay

/-- The seconds of the day before a time. -/
def seconds (time : TimeOfDay) : ℕ := time.hour * 3600 + time.minute * 60 + time.second

/-- One time of day is earlier than another. -/
def Before (time later : TimeOfDay) : Prop :=
  time.hour < later.hour ∨ time.hour = later.hour ∧
    (time.minute < later.minute ∨ time.minute = later.minute ∧
      (time.second < later.second ∨ time.second = later.second ∧ time.milli < later.milli))

theorem seconds_lt (time : TimeOfDay) : time.seconds < 86400 := by
  have hhour := time.hour_lt
  have hminute := time.minute_lt
  have hsecond := time.second_lt
  rw [seconds]
  omega

end TimeOfDay

/-- The milliseconds from the start of the epoch year at offset zero to a date and time of day at an offset, which is
given in seconds and is positive to the east. -/
def instantMs (epoch : ℤ) (date : Date) (time : TimeOfDay) (offsetSeconds : ℤ) : ℤ :=
  (date.number epoch * 86400 + time.seconds - offsetSeconds) * 1000 + time.milli

/-- At one offset, a later date or a later time of the same date is a later instant. -/
theorem instantMs_lt (epoch offsetSeconds : ℤ) {date later : Date} {time laterTime : TimeOfDay}
    (h : date.Before later ∨ date = later ∧ time.Before laterTime) :
    instantMs epoch date time offsetSeconds < instantMs epoch later laterTime offsetSeconds := by
  have hmilli := time.milli_lt
  rw [instantMs, instantMs]
  rcases h with hdate | ⟨rfl, htime⟩
  · have hnumber := Date.number_lt epoch hdate
    have hseconds := time.seconds_lt
    omega
  · have hminute := time.minute_lt
    have hsecond := time.second_lt
    rw [TimeOfDay.seconds, TimeOfDay.seconds]
    rcases htime with h | ⟨h, h' | ⟨h', h'' | ⟨h'', h'''⟩⟩⟩ <;> omega

end Calendar
