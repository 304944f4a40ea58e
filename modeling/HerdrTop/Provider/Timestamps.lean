import HerdrTop.Library.Calendar
import HerdrTop.Model.State
import Mathlib.Tactic.IntervalCases
import Mathlib.Tactic.Linarith
import Mathlib.Tactic.Positivity
import Mathlib.Tactic.Ring

/-!
# Timestamps of provider logs

The date and time texts of log records and the instants they are read as. The count of days goes by eras
of four hundred years and by years that begin in March, in 64-bit arithmetic.

A text is the list of its characters. An arithmetic step that leaves `i64` gives `none`, whether the
source checks it or not.

## What is proved

* `daysFromCivil_eq`: whenever the count of days stays in range it is the calendar's, and it stays in range
  for twenty-five thousand million million years on both sides of year zero.
* `parseTimestampMs_eq_some`: the texts that are accepted are those that spell a timestamp, and each is
  read as the instant of that timestamp.
* `parseTimestampMs_exact`: both together, and at one offset a later timestamp is a later instant.
-/

namespace HerdrTop

open Calendar

/-! ### Numbers -/

/-- The number that an ASCII digit stands for. -/
def digitValue (c : Char) : ℕ := c.toNat - '0'.toNat

/-- The number that a text of digits stands for. -/
def decimalValue (digits : List Char) : ℕ := digits.foldl (fun value c => 10 * value + digitValue c) 0

/-- A text of one or more ASCII digits. -/
def isDecimalText (value : List Char) : Bool := !value.isEmpty && value.all Char.isDigit

def parseDecimal (value : List Char) : Option ℕ :=
  if isDecimalText value ∧ decimalValue value < 2 ^ 32 then some (decimalValue value) else none

/-- The first three digits of a fraction, as milliseconds. -/
def fractionMillis (fraction : List Char) : Option ℕ :=
  if isDecimalText fraction then
    some (((fraction.take 3).zipIdx).foldl (fun millis e => millis + digitValue e.1 * 10 ^ (2 - e.2)) 0)
  else none

/-! ### Days -/

def daysInMonth (year month : ℕ) : ℕ :=
  match month with
  | 1 | 3 | 5 | 7 | 8 | 10 | 12 => 31
  | 4 | 6 | 9 | 11 => 30
  | 2 => if year % 400 = 0 ∨ year % 4 = 0 ∧ ¬ year % 100 = 0 then 29 else 28
  | _ => 0

/-- The year that is divided by four hundred for the era, as division rounds towards zero. -/
def eraDividend (year : ℤ) : Option ℤ := if 0 ≤ year then some year else checkedI64 (year - 399)

/-- The days from the start of 1970 to a date. -/
def daysFromCivil (year : ℤ) (month day : ℕ) : Option ℤ := do
  let year ← checkedI64 (year - if month ≤ 2 then 1 else 0)
  let dividend ← eraDividend year
  let era := dividend.tdiv 400
  let eraYears ← checkedI64 (era * 400)
  let yearOfEra ← checkedI64 (year - eraYears)
  let shiftedMonth : ℤ := month + if 2 < month then -3 else 9
  let dayOfYear := (153 * shiftedMonth + 2).tdiv 5 + day - 1
  let dayOfEra := yearOfEra * 365 + yearOfEra.tdiv 4 - yearOfEra.tdiv 100 + dayOfYear
  let eraDays ← checkedI64 (era * 146097)
  let days ← checkedI64 (eraDays + dayOfEra)
  checkedI64 (days - 719468)

/-! ### Parts of a text -/

/-- What stands before and after the first place of a character. -/
def splitOnce (separator : Char) : List Char → Option (List Char × List Char)
  | [] => none
  | c :: text =>
    if c = separator then some ([], text)
    else (splitOnce separator text).map fun parts => (c :: parts.1, parts.2)

/-- What stands before the last sign of a text and what stands from there on; the sign must start after the tenth byte,
where the text itself starts at a given byte. -/
def splitSign (start : ℕ) : List Char → Option (List Char × List Char)
  | [] => none
  | c :: text =>
    match splitSign (start + c.utf8Size) text with
    | some (value, offset) => some (c :: value, offset)
    | none => if 10 < start ∧ (c = '+' ∨ c = '-') then some ([], c :: text) else none

/-- The text of date and time, and the offset in seconds. -/
def splitOffset (timestamp : List Char) : Option (List Char × ℤ) :=
  if timestamp.getLast? = some 'Z' then some (timestamp.dropLast, 0)
  else do
    let (value, offset) ← splitSign 0 timestamp
    let sign : ℤ := if offset.head? = some '+' then 1 else -1
    let (hours, minutes) ← splitOnce ':' offset.tail
    let hours ← parseDecimal hours
    let minutes ← parseDecimal minutes
    if 23 < hours ∨ 59 < minutes then none
    else some (value, sign * ((hours * 3600 + minutes * 60 : ℕ) : ℤ))

/-- Year, month and day. -/
def parseDate (date : List Char) : Option (ℕ × ℕ × ℕ) :=
  match date.splitOn '-' with
  | [year, month, day] => do
    let year ← parseDecimal year
    let month ← parseDecimal month
    let day ← parseDecimal day
    if 9999 < year ∨ ¬ (1 ≤ month ∧ month ≤ 12) ∨ day = 0 ∨ daysInMonth year month < day then none
    else some (year, month, day)
  | _ => none

/-- Seconds and milliseconds. -/
def parseSeconds (seconds : List Char) : Option (ℕ × ℕ) :=
  match splitOnce '.' seconds with
  | some (second, fraction) => do
    let second ← parseDecimal second
    let millis ← fractionMillis fraction
    some (second, millis)
  | none => (parseDecimal seconds).map (·, 0)

/-- Hour, minute, second and milliseconds. -/
def parseTime (time : List Char) : Option (ℕ × ℕ × ℕ × ℕ) :=
  match time.splitOn ':' with
  | [hour, minute, seconds] => do
    let hour ← parseDecimal hour
    let minute ← parseDecimal minute
    if 23 < hour ∨ 59 < minute then none
    else
      let (second, millis) ← parseSeconds seconds
      if 59 < second then none else some (hour, minute, second, millis)
  | _ => none

/-- The instant that a text of date, time and offset stands for. -/
def parseTimestampMs (timestamp : String) : Option ℤ := do
  let (dateTime, offsetSeconds) ← splitOffset timestamp.toList
  let (date, time) ← splitOnce 'T' dateTime
  let (year, month, day) ← parseDate date
  let (hour, minute, second, millis) ← parseTime time
  let days ← daysFromCivil year month day
  let seconds ← checkedI64 (days * 86400)
  let seconds ← checkedI64 (seconds + ((hour * 3600 + minute * 60 + second : ℕ) : ℤ))
  let seconds ← checkedI64 (seconds - offsetSeconds)
  let milliseconds ← checkedI64 (seconds * 1000)
  checkedI64 (milliseconds + millis)

/-! ### What texts spell -/

/-- The text is a decimal notation of the number. -/
def Denotes (digits : List Char) (n : ℕ) : Prop := isDecimalText digits ∧ decimalValue digits = n

/-- How far local time is from universal time. -/
inductive Offset
  | utc
  /-- Ahead of universal time or behind it. -/
  | shifted (ahead : Bool) (hours minutes : ℕ) (hours_lt : hours < 24) (minutes_lt : minutes < 60)

/-- The offset in seconds, positive to the east. -/
def Offset.seconds : Offset → ℤ
  | .utc => 0
  | .shifted ahead hours minutes _ _ => (if ahead then 1 else -1) * ((hours * 3600 + minutes * 60 : ℕ) : ℤ)

/-- The text is a notation of the offset. -/
def Offset.SpelledBy (text : List Char) : Offset → Prop
  | .utc => text = ['Z']
  | .shifted ahead hours minutes _ _ => ∃ hoursText minutesText, Denotes hoursText hours ∧
      Denotes minutesText minutes ∧ text = (if ahead then '+' else '-') :: (hoursText ++ ':' :: minutesText)

/-- The text is a notation of a second and a fraction of it, of which the whole milliseconds count. -/
def SpellsSeconds (text : List Char) (second milli : ℕ) : Prop :=
  (Denotes text second ∧ milli = 0) ∨ ∃ whole fraction value, text = whole ++ '.' :: fraction ∧
    Denotes whole second ∧ Denotes fraction value ∧ milli = value * 1000 / 10 ^ fraction.length

/-- A date with a year of at most four places, a time of day and an offset. -/
structure Timestamp where
  date : Date
  time : TimeOfDay
  offset : Offset
  year_nonneg : 0 ≤ date.year
  year_le : date.year ≤ 9999

namespace Timestamp

/-- The text is a notation of the timestamp. -/
def SpelledBy (text : List Char) (stamp : Timestamp) : Prop :=
  ∃ year month day hour minute seconds offset,
    text = year ++ '-' :: (month ++ '-' :: (day ++ 'T' :: (hour ++ ':' :: (minute ++ ':' :: (seconds ++ offset))))) ∧
    Denotes year stamp.date.year.toNat ∧ Denotes month stamp.date.month ∧ Denotes day stamp.date.day ∧
    Denotes hour stamp.time.hour ∧ Denotes minute stamp.time.minute ∧
    SpellsSeconds seconds stamp.time.second stamp.time.milli ∧ stamp.offset.SpelledBy offset

/-- The milliseconds from the start of 1970 to the timestamp. -/
def unixMs (stamp : Timestamp) : ℤ := instantMs 1970 stamp.date stamp.time stamp.offset.seconds

end Timestamp

/-! ### The count of days -/

theorem checkedI64_eq_some {value result : ℤ} :
    checkedI64 value = some result ↔ value = result ∧ i64Min ≤ result ∧ result ≤ i64Max := by
  rw [checkedI64]
  split
  · rename_i hrange
    rw [Option.some.injEq]
    exact ⟨fun h => h ▸ ⟨rfl, hrange⟩, fun h => h.1⟩
  · rename_i hrange
    exact iff_of_false (Option.some_ne_none _).symm fun h => hrange (h.1 ▸ h.2)

/-- Of the years counted from March, those from one era on have this many days. -/
theorem era_days (year : ℤ) :
    year / 400 * 146097 + ((year - year / 400 * 400) * 365 + (year - year / 400 * 400) / 4 -
      (year - year / 400 * 400) / 100) = daysThroughYear year := by
  rw [daysThroughYear]
  omega

/-- The months from March on end with the year. -/
theorem daysBeforeMonth_eq (year : ℤ) {month : ℕ} (hfirst : 2 < month) (hlast : month ≤ 12) :
    (daysBeforeMonth year month : ℤ) + 306 = yearLength year + (153 * (month - 3) + 2) / 5 := by
  rw [yearLength_eq]
  interval_cases month <;> simp only [daysBeforeMonth, monthLength] <;> split <;> rfl

theorem eraDividend_tdiv {year dividend : ℤ} (h : eraDividend year = some dividend) :
    dividend.tdiv 400 = year / 400 := by
  rw [eraDividend] at h
  split at h
  · rename_i hnonneg
    obtain rfl := Option.some.inj h
    exact Int.tdiv_eq_ediv_of_nonneg hnonneg
  · have hdividend := (checkedI64_eq_some.mp h).1
    rw [Int.tdiv_eq_ediv]
    split
    · omega
    · rw [show Int.sign 400 = 1 from rfl]
      omega

/-- The years counted from March, and the days of the shifted year before a date. -/
theorem civil_days (year : ℤ) {month day : ℕ} (hfirst : 1 ≤ month) (hlast : month ≤ 12) :
    daysThroughYear (year - if month ≤ 2 then 1 else 0) +
      ((153 * ((month : ℤ) + if 2 < month then -3 else 9) + 2) / 5 + day - 1) - 719468 =
      daysBeforeYear 1970 year + daysBeforeMonth year month + (day - 1) := by
  rw [daysBeforeYear_eq, show daysThroughYear (1970 - 1) = 719162 from rfl]
  rcases Nat.lt_or_ge 2 month with hmonth | hmonth
  · have hyear := daysThroughYear_eq year
    have hmonths := daysBeforeMonth_eq year hmonth hlast
    rw [if_neg (Nat.not_le.mpr hmonth), if_pos hmonth, Int.sub_zero]
    omega
  · rw [if_pos hmonth, if_neg (Nat.not_lt.mpr hmonth)]
    interval_cases month
    all_goals
      simp only [daysBeforeMonth, monthLength]
      omega

/-- How far a month is from March, in months. -/
theorem shiftedMonth_mem {month : ℕ} (hlast : month ≤ 12) :
    ((month : ℤ) + if 2 < month then -3 else 9) ≤ 11 ∧ 0 ≤ (month : ℤ) + if 2 < month then -3 else 9 := by
  split <;> omega

/-- The day of the year that began in March, as the division that rounds towards zero gives it. -/
theorem dayOfYear_tdiv {month : ℕ} (hlast : month ≤ 12) :
    (153 * ((month : ℤ) + if 2 < month then -3 else 9) + 2).tdiv 5 =
      (153 * ((month : ℤ) + if 2 < month then -3 else 9) + 2) / 5 := by
  have hmonth := shiftedMonth_mem hlast
  exact Int.tdiv_eq_ediv_of_nonneg (by omega)

/-- The day of the era in the source's divisions. -/
theorem dayOfEra_tdiv {yearOfEra : ℤ} (h : 0 ≤ yearOfEra) :
    yearOfEra.tdiv 4 = yearOfEra / 4 ∧ yearOfEra.tdiv 100 = yearOfEra / 100 :=
  ⟨Int.tdiv_eq_ediv_of_nonneg h, Int.tdiv_eq_ediv_of_nonneg h⟩

/-- Whenever the count of days stays in range it is that of the calendar. -/
theorem daysFromCivil_sound {year result : ℤ} {month day : ℕ} (hfirst : 1 ≤ month) (hlast : month ≤ 12)
    (h : daysFromCivil year month day = some result) :
    result = daysBeforeYear 1970 year + daysBeforeMonth year month + (day - 1) := by
  simp only [daysFromCivil, Option.bind_eq_bind, Option.bind_eq_some_iff, checkedI64_eq_some] at h
  obtain ⟨shifted, ⟨hshifted, -⟩, dividend, hdividend, _, ⟨rfl, -⟩, _, ⟨rfl, -⟩, _, ⟨rfl, -⟩, _, ⟨rfl, -⟩, rfl, -⟩ := h
  have hera := era_days shifted
  obtain ⟨hfour, hhundred⟩ := dayOfEra_tdiv (show 0 ≤ shifted - shifted / 400 * 400 by omega)
  rw [← civil_days year hfirst hlast, hshifted, eraDividend_tdiv hdividend, dayOfYear_tdiv hlast, hfour, hhundred]
  omega

/-- For the years that 64-bit days can count, the count stays in range. -/
theorem daysFromCivil_isSome {year : ℤ} {month day : ℕ} (hlow : -25 * 10 ^ 15 ≤ year) (hhigh : year ≤ 25 * 10 ^ 15)
    (hlast : month ≤ 12) (hday : day ≤ 31) : ∃ result, daysFromCivil year month day = some result := by
  simp only [daysFromCivil, Option.bind_eq_bind, Option.bind_eq_some_iff, checkedI64_eq_some]
  obtain ⟨shifted, hshifted, hbelow, habove⟩ : ∃ shifted : ℤ, (year - if month ≤ 2 then 1 else 0) = shifted ∧
      year - 1 ≤ shifted ∧ shifted ≤ year := by
    refine ⟨_, rfl, ?_⟩
    split <;> omega
  obtain ⟨dividend, hdividend⟩ : ∃ dividend, eraDividend shifted = some dividend := by
    rw [eraDividend]
    split
    · exact ⟨_, rfl⟩
    · exact ⟨_, checkedI64_eq_some.mpr ⟨rfl, by rw [i64Min, i64Max]; omega⟩⟩
  have hmonth := shiftedMonth_mem hlast
  obtain ⟨hfour, hhundred⟩ := dayOfEra_tdiv (show 0 ≤ shifted - shifted / 400 * 400 by omega)
  rw [← eraDividend_tdiv hdividend] at hfour hhundred
  have hera := eraDividend_tdiv hdividend
  refine ⟨_, shifted, ⟨hshifted, ?_⟩, dividend, hdividend, _, ⟨rfl, ?_⟩, _, ⟨rfl, ?_⟩, _, ⟨rfl, ?_⟩, _, ⟨rfl, ?_⟩,
    rfl, ?_⟩
  all_goals
    rw [i64Min, i64Max]
    try rw [hfour, hhundred, dayOfYear_tdiv hlast]
    omega

/-- For every valid date the count of days is the calendar's, as far as it stays in range. -/
theorem daysFromCivil_eq (date : Date) :
    (∀ result, daysFromCivil date.year date.month date.day = some result → result = date.number 1970) ∧
      (-25 * 10 ^ 15 ≤ date.year → date.year ≤ 25 * 10 ^ 15 →
        daysFromCivil date.year date.month date.day = some (date.number 1970)) := by
  have hsound : ∀ result, daysFromCivil date.year date.month date.day = some result → result = date.number 1970 :=
    fun result h => daysFromCivil_sound date.month_pos date.month_le h
  refine ⟨hsound, fun hlow hhigh => ?_⟩
  have hday : date.day ≤ 31 := Nat.le_trans date.day_le (monthLength_le date.year date.month)
  obtain ⟨result, hresult⟩ := daysFromCivil_isSome hlow hhigh date.month_le hday
  rw [hresult, hsound result hresult]

/-! ### Reading numbers -/

theorem parseDecimal_eq_some {value : List Char} {n : ℕ} :
    parseDecimal value = some n ↔ Denotes value n ∧ n < 2 ^ 32 := by
  rw [parseDecimal, Option.ite_none_right_eq_some, Option.some.injEq, Denotes]
  constructor
  · rintro ⟨⟨hdigits, hrange⟩, rfl⟩
    exact ⟨⟨hdigits, rfl⟩, hrange⟩
  · rintro ⟨⟨hdigits, rfl⟩, hrange⟩
    exact ⟨⟨hdigits, hrange⟩, rfl⟩

/-- A decimal notation consists of digits. -/
theorem Denotes.notMem {digits : List Char} {n : ℕ} (h : Denotes digits n) {c : Char} (hc : c.isDigit = false) :
    c ∉ digits := by
  have hdigits := h.1
  rw [isDecimalText, Bool.and_eq_true, List.all_eq_true] at hdigits
  intro hmem
  exact Bool.false_ne_true (hc.symm.trans (hdigits.2 c hmem))

theorem decimalValue_append (digits more : List Char) :
    decimalValue (digits ++ more) = decimalValue digits * 10 ^ more.length + decimalValue more := by
  induction more using List.reverseRecOn with
  | nil => rw [List.append_nil, List.length_nil, pow_zero, Nat.mul_one, show decimalValue [] = 0 from rfl, Nat.add_zero]
  | append_singleton more c ih =>
    have hlast : ∀ digits, decimalValue (digits ++ [c]) = 10 * decimalValue digits + digitValue c := by
      intro digits
      rw [decimalValue, List.foldl_append, List.foldl_cons, List.foldl_nil, decimalValue]
    rw [← List.append_assoc, hlast, hlast, ih, List.length_append, List.length_singleton, pow_succ]
    ring

theorem digitValue_lt {c : Char} (h : c.isDigit) : digitValue c < 10 := by
  rw [Char.isDigit, Bool.and_eq_true, decide_eq_true_iff, decide_eq_true_iff] at h
  have hnine : c.toNat ≤ '9'.toNat := h.2
  rw [digitValue]
  have hval : '9'.toNat = 57 ∧ '0'.toNat = 48 := ⟨rfl, rfl⟩
  omega

theorem decimalValue_lt {digits : List Char} (h : digits.all Char.isDigit) :
    decimalValue digits < 10 ^ digits.length := by
  induction digits with
  | nil => exact Nat.one_pos
  | cons c digits ih =>
    rw [List.all_cons, Bool.and_eq_true] at h
    have hsplit := decimalValue_append [c] digits
    have hdigit := digitValue_lt h.1
    have hrest := ih h.2
    rw [show decimalValue [c] = digitValue c from Nat.zero_add _] at hsplit
    rw [← List.singleton_append, hsplit, List.singleton_append, List.length_cons, pow_succ]
    nlinarith

/-- The first three digits of a fraction are its whole milliseconds. -/
theorem fractionMillis_eq_some {fraction : List Char} {milli : ℕ} :
    fractionMillis fraction = some milli ↔
      ∃ value, Denotes fraction value ∧ milli = value * 1000 / 10 ^ fraction.length := by
  have hdigits : isDecimalText fraction → ((fraction.take 3).zipIdx).foldl
      (fun millis e => millis + digitValue e.1 * 10 ^ (2 - e.2)) 0 =
      decimalValue fraction * 1000 / 10 ^ fraction.length := by
    intro h
    rw [isDecimalText, Bool.and_eq_true] at h
    rcases fraction with _ | ⟨first, _ | ⟨second, _ | ⟨third, rest⟩⟩⟩
    · exact absurd h.1 (by decide)
    · simp [decimalValue, List.zipIdx]
      omega
    · simp [decimalValue, List.zipIdx]
      omega
    · have hrest : rest.all Char.isDigit := by
        simp only [List.all_cons, Bool.and_eq_true] at h
        exact h.2.2.2.2
      have hlt := decimalValue_lt hrest
      have hsplit := decimalValue_append [first, second, third] rest
      rw [List.cons_append, List.cons_append, List.singleton_append] at hsplit
      rw [hsplit, show (first :: second :: third :: rest).length = rest.length + 3 from rfl, pow_add]
      rw [Nat.mul_comm (10 ^ rest.length), show (10 : ℕ) ^ 3 = 1000 from rfl]
      rw [Nat.mul_comm (_ + _) 1000, Nat.mul_div_mul_left _ _ (by decide : 0 < 1000)]
      rw [Nat.mul_comm (decimalValue _), Nat.mul_add_div (by positivity), Nat.div_eq_of_lt hlt]
      simp [decimalValue, List.zipIdx]
      omega
  rw [fractionMillis, Option.ite_none_right_eq_some, Option.some.injEq]
  constructor
  · rintro ⟨htext, rfl⟩
    exact ⟨_, ⟨htext, rfl⟩, hdigits htext⟩
  · rintro ⟨_, ⟨htext, rfl⟩, rfl⟩
    exact ⟨htext, hdigits htext⟩

/-! ### Taking texts apart -/

theorem splitOnce_eq_some {separator : Char} {text before after : List Char} :
    splitOnce separator text = some (before, after) ↔ text = before ++ separator :: after ∧ separator ∉ before := by
  induction text generalizing before with
  | nil => simp [splitOnce]
  | cons c text ih =>
    rw [splitOnce]
    split
    · rename_i hc
      cases before with
      | nil => simp [hc]
      | cons b before =>
        refine iff_of_false (by simp) ?_
        rintro ⟨htext, hbefore⟩
        rw [List.cons_append, List.cons.injEq] at htext
        exact hbefore (List.mem_cons.mpr (.inl (hc.symm.trans htext.1)))
    · rename_i hc
      rw [Option.map_eq_some_iff]
      constructor
      · rintro ⟨⟨front, back⟩, hsplit, heq⟩
        obtain ⟨rfl, rfl⟩ := Prod.mk.inj heq
        obtain ⟨rfl, hfront⟩ := ih.mp hsplit
        exact ⟨rfl, fun hmem => (List.mem_cons.mp hmem).elim (fun h => hc h.symm) hfront⟩
      · rintro ⟨htext, hbefore⟩
        cases before with
        | nil => exact absurd (List.cons.inj htext).1 hc
        | cons b before =>
          rw [List.cons_append, List.cons.injEq] at htext
          obtain ⟨rfl, htext⟩ := htext
          exact ⟨(before, after), ih.mpr ⟨htext, fun h => hbefore (List.mem_cons_of_mem _ h)⟩, rfl⟩

theorem mem_of_splitOnce_eq_none {separator : Char} {text : List Char} (h : splitOnce separator text = none) :
    separator ∉ text := by
  induction text with
  | nil => exact List.not_mem_nil
  | cons c text ih =>
    rw [splitOnce] at h
    split at h
    · exact absurd h (Option.some_ne_none _)
    · rename_i hc
      intro hmem
      exact (List.mem_cons.mp hmem).elim (fun h => hc h.symm) (ih (Option.map_eq_none_iff.mp h))

/-- A text in three parts. -/
theorem of_splitOn_three {separator : Char} {text first second third : List Char}
    (h : text.splitOn separator = [first, second, third]) :
    text = first ++ separator :: (second ++ separator :: third) := by
  have htext := @List.intercalate_splitOn _ text _ _ separator
  rw [h] at htext
  rw [← htext]
  simp [List.intercalate]

theorem splitOn_three {separator : Char} {first second third : List Char} (hfirst : separator ∉ first)
    (hsecond : separator ∉ second) (hthird : separator ∉ third) :
    (first ++ separator :: (second ++ separator :: third)).splitOn separator = [first, second, third] := by
  rw [List.splitOn_append_cons_self_of_not_mem hfirst, List.splitOn_append_cons_self_of_not_mem hsecond,
    List.splitOn_eq_singleton hthird]

/-- The place where the offset starts. -/
theorem splitSign_eq_some {start : ℕ} {text value offset : List Char} (h : splitSign start text = some (value, offset)) :
    text = value ++ offset ∧ ∃ sign rest, offset = sign :: rest ∧ (sign = '+' ∨ sign = '-') := by
  induction text generalizing start value with
  | nil => exact absurd h.symm (Option.some_ne_none _)
  | cons c text ih =>
    rw [splitSign] at h
    split at h
    · rename_i hrest
      obtain ⟨rfl, rfl⟩ := Prod.mk.inj (Option.some.inj h)
      obtain ⟨htext, hsign⟩ := ih hrest
      exact ⟨congrArg (c :: ·) htext, hsign⟩
    · rw [Option.ite_none_right_eq_some, Option.some.injEq] at h
      obtain ⟨⟨-, hsign⟩, heq⟩ := h
      obtain ⟨rfl, rfl⟩ := Prod.mk.inj heq
      exact ⟨rfl, c, text, rfl, hsign⟩

theorem splitSign_eq_none {start : ℕ} {text : List Char} (h : ∀ c ∈ text, ¬ (c = '+' ∨ c = '-')) :
    splitSign start text = none := by
  induction text generalizing start with
  | nil => rfl
  | cons c text ih =>
    rw [splitSign, ih fun c hc => h c (List.mem_cons_of_mem _ hc)]
    exact if_neg fun hsign => h c List.mem_cons_self hsign.2

/-- The last sign is found when it stands late enough. -/
theorem splitSign_append {start : ℕ} {value rest : List Char} {sign : Char} (hsign : sign = '+' ∨ sign = '-')
    (hrest : ∀ c ∈ rest, ¬ (c = '+' ∨ c = '-')) (hlate : 10 < start + value.length) :
    splitSign start (value ++ sign :: rest) = some (value, sign :: rest) := by
  induction value generalizing start with
  | nil =>
    rw [List.nil_append, splitSign, splitSign_eq_none hrest]
    exact if_pos ⟨hlate, hsign⟩
  | cons c value ih =>
    have hsize := c.utf8Size_pos
    rw [List.length_cons] at hlate
    rw [List.cons_append, splitSign, ih (by omega)]

/-! ### The parts of a timestamp -/

/-- What is split off as the offset is a notation of one. -/
theorem splitOffset_sound {text value : List Char} {seconds : ℤ} (h : splitOffset text = some (value, seconds)) :
    ∃ (offset : Offset) (rest : List Char), text = value ++ rest ∧ offset.SpelledBy rest ∧ offset.seconds = seconds := by
  rw [splitOffset] at h
  split at h
  · rename_i hlast
    obtain ⟨rfl, rfl⟩ := Prod.mk.inj (Option.some.inj h)
    obtain ⟨front, rfl⟩ := List.getLast?_eq_some_iff.mp hlast
    exact ⟨.utc, ['Z'], by rw [List.dropLast_concat], rfl, rfl⟩
  · simp only [Option.bind_eq_bind, Option.bind_eq_some_iff] at h
    obtain ⟨⟨front, rest⟩, hsign, ⟨hoursText, minutesText⟩, hcolon, hours, hhours, minutes, hminutes, h⟩ := h
    rw [Option.ite_none_left_eq_some, Option.some.injEq] at h
    obtain ⟨hrange, heq⟩ := h
    obtain ⟨rfl, rfl⟩ := Prod.mk.inj heq
    obtain ⟨rfl, sign, rest, rfl, hsigns⟩ := splitSign_eq_some hsign
    have hrest := (splitOnce_eq_some.mp hcolon).1
    rw [List.tail_cons] at hrest
    subst hrest
    have hspells : ∀ ahead : Bool, sign = (if ahead then '+' else '-') →
        (Offset.shifted ahead hours minutes (by omega) (by omega)).SpelledBy
          (sign :: (hoursText ++ ':' :: minutesText)) :=
      fun ahead hahead => ⟨hoursText, minutesText, (parseDecimal_eq_some.mp hhours).1,
        (parseDecimal_eq_some.mp hminutes).1, hahead ▸ rfl⟩
    rcases hsigns with rfl | rfl
    · exact ⟨_, _, rfl, hspells true rfl, rfl⟩
    · exact ⟨_, _, rfl, hspells false rfl, rfl⟩

/-- A notation of an offset is split off, after what is long enough. -/
theorem splitOffset_complete {value rest : List Char} {offset : Offset} (hlong : 10 < value.length)
    (h : offset.SpelledBy rest) : splitOffset (value ++ rest) = some (value, offset.seconds) := by
  cases offset with
  | utc =>
    obtain rfl := h
    rw [splitOffset, if_pos (List.getLast?_concat ..), List.dropLast_concat]
    rfl
  | shifted ahead hours minutes hhours hminutes =>
    obtain ⟨hoursText, minutesText, hhoursText, hminutesText, rfl⟩ := h
    have hsign : (if ahead then '+' else '-') = '+' ∨ (if ahead then '+' else '-') = '-' := by
      cases ahead
      · exact .inr rfl
      · exact .inl rfl
    have hnosign : ∀ c ∈ hoursText ++ ':' :: minutesText, ¬ (c = '+' ∨ c = '-') := by
      rintro c hmem (rfl | rfl)
      all_goals
        rw [List.mem_append, List.mem_cons] at hmem
        rcases hmem with hmem | hmem | hmem
        · exact hhoursText.notMem (by decide) hmem
        · exact absurd hmem (by decide)
        · exact hminutesText.notMem (by decide) hmem
    have hlast : (value ++ (if ahead then '+' else '-') :: (hoursText ++ ':' :: minutesText)).getLast? ≠ some 'Z' := by
      have hne : minutesText ≠ [] := by
        rintro rfl
        exact absurd hminutesText.1 (by decide)
      intro hlast
      have hmem : 'Z' ∈ minutesText := by
        obtain ⟨c, minutesText, rfl⟩ := List.exists_cons_of_ne_nil hne
        rw [List.getLast?_append, List.getLast?_cons, List.getLast?_append, List.getLast?_cons_cons] at hlast
        refine List.mem_of_getLast? ?_
        simpa [List.getLast?_cons] using hlast
      exact hminutesText.notMem (by decide) hmem
    rw [splitOffset, if_neg hlast, splitSign_append hsign hnosign (by omega)]
    simp only [Option.bind_eq_bind, Option.bind_some, List.tail_cons, List.head?_cons]
    rw [splitOnce_eq_some.mpr ⟨rfl, hhoursText.notMem (by decide)⟩, Option.bind_some]
    rw [parseDecimal_eq_some.mpr ⟨hhoursText, by omega⟩, Option.bind_some]
    rw [parseDecimal_eq_some.mpr ⟨hminutesText, by omega⟩, Option.bind_some, if_neg (by omega)]
    cases ahead
    · rfl
    · rfl

theorem daysInMonth_eq (year : ℤ) (hyear : 0 ≤ year) {month : ℕ} (hfirst : 1 ≤ month) (hlast : month ≤ 12) :
    daysInMonth year.toNat month = monthLength year month := by
  obtain ⟨year, rfl⟩ := Int.eq_ofNat_of_zero_le hyear
  interval_cases month <;> try rfl
  rw [daysInMonth, monthLength, Int.toNat_natCast]
  refine if_congr ?_ rfl rfl
  rw [IsLeap]
  omega

/-- A date is read as what its text denotes. -/
theorem parseDate_eq_some {date : List Char} {year month day : ℕ} :
    parseDate date = some (year, month, day) ↔
      (year ≤ 9999 ∧ 1 ≤ month ∧ month ≤ 12 ∧ 1 ≤ day ∧ day ≤ daysInMonth year month) ∧
      ∃ yearText monthText dayText, date = yearText ++ '-' :: (monthText ++ '-' :: dayText) ∧
        Denotes yearText year ∧ Denotes monthText month ∧ Denotes dayText day := by
  constructor
  · intro h
    rw [parseDate] at h
    split at h
    · rename_i yearText monthText dayText hparts
      simp only [Option.bind_eq_bind, Option.bind_eq_some_iff, parseDecimal_eq_some] at h
      obtain ⟨_, ⟨hyear, -⟩, _, ⟨hmonth, -⟩, _, ⟨hday, -⟩, h⟩ := h
      rw [Option.ite_none_left_eq_some, Option.some.injEq, Prod.mk.injEq, Prod.mk.injEq] at h
      obtain ⟨hrange, rfl, rfl, rfl⟩ := h
      exact ⟨by omega, yearText, monthText, dayText, of_splitOn_three hparts, hyear, hmonth, hday⟩
    · exact absurd h.symm (Option.some_ne_none _)
  · rintro ⟨hrange, yearText, monthText, dayText, rfl, hyear, hmonth, hday⟩
    have hlength : daysInMonth year month ≤ 31 := by
      rw [daysInMonth.eq_def]
      split <;> try split
      all_goals omega
    rw [parseDate, splitOn_three (hyear.notMem (by decide)) (hmonth.notMem (by decide)) (hday.notMem (by decide))]
    simp only [Option.bind_eq_bind, Option.bind_eq_some_iff, parseDecimal_eq_some]
    exact ⟨year, ⟨hyear, by omega⟩, month, ⟨hmonth, by omega⟩, day, ⟨hday, by omega⟩, if_neg (by omega)⟩

/-- A notation of seconds consists of digits and a point. -/
theorem SpellsSeconds.notMem {text : List Char} {second milli : ℕ} (h : SpellsSeconds text second milli) {c : Char}
    (hdigit : c.isDigit = false) (hpoint : c ≠ '.') : c ∉ text := by
  rcases h with ⟨hsecond, -⟩ | ⟨whole, fraction, value, rfl, hwhole, hfraction, -⟩
  · exact hsecond.notMem hdigit
  · intro hmem
    rw [List.mem_append, List.mem_cons] at hmem
    rcases hmem with hmem | hmem | hmem
    · exact hwhole.notMem hdigit hmem
    · exact hpoint hmem
    · exact hfraction.notMem hdigit hmem

/-- Seconds are read as what their text spells. -/
theorem parseSeconds_eq_some {text : List Char} {second milli : ℕ} :
    parseSeconds text = some (second, milli) ↔ SpellsSeconds text second milli ∧ second < 2 ^ 32 := by
  rw [parseSeconds, SpellsSeconds]
  split
  · rename_i whole fraction hdot
    simp only [Option.bind_eq_bind, Option.bind_eq_some_iff, parseDecimal_eq_some, fractionMillis_eq_some,
      Option.some.injEq, Prod.mk.injEq]
    obtain ⟨rfl, hwhole⟩ := splitOnce_eq_some.mp hdot
    constructor
    · rintro ⟨_, ⟨hsecond, hrange⟩, _, ⟨value, hvalue, rfl⟩, rfl, rfl⟩
      exact ⟨.inr ⟨whole, fraction, value, rfl, hsecond, hvalue, rfl⟩, hrange⟩
    · rintro ⟨⟨htext, -⟩ | ⟨whole', fraction', value, htext, hsecond, hvalue, rfl⟩, hrange⟩
      · exact absurd (List.mem_append_right _ List.mem_cons_self) (htext.notMem (c := '.') (by decide))
      · have hdot' := splitOnce_eq_some.mpr ⟨htext, hsecond.notMem (by decide)⟩
        rw [hdot, Option.some.injEq, Prod.mk.injEq] at hdot'
        obtain ⟨rfl, rfl⟩ := hdot'
        exact ⟨second, ⟨hsecond, hrange⟩, _, ⟨value, hvalue, rfl⟩, rfl, rfl⟩
  · rename_i hdot
    rw [Option.map_eq_some_iff]
    simp only [parseDecimal_eq_some, Prod.mk.injEq]
    constructor
    · rintro ⟨_, ⟨hsecond, hrange⟩, rfl, rfl⟩
      exact ⟨.inl ⟨hsecond, rfl⟩, hrange⟩
    · rintro ⟨⟨hsecond, rfl⟩ | ⟨whole, fraction, value, rfl, -⟩, hrange⟩
      · exact ⟨second, ⟨hsecond, hrange⟩, rfl, rfl⟩
      · exact absurd (List.mem_append_right _ List.mem_cons_self) (mem_of_splitOnce_eq_none hdot)

/-- A time of day is read as what its text spells. -/
theorem parseTime_eq_some {time : List Char} {hour minute second milli : ℕ} :
    parseTime time = some (hour, minute, second, milli) ↔ (hour < 24 ∧ minute < 60 ∧ second < 60) ∧
      ∃ hourText minuteText secondsText, time = hourText ++ ':' :: (minuteText ++ ':' :: secondsText) ∧
        Denotes hourText hour ∧ Denotes minuteText minute ∧ SpellsSeconds secondsText second milli := by
  constructor
  · intro h
    rw [parseTime] at h
    split at h
    · rename_i hourText minuteText secondsText hparts
      simp only [Option.bind_eq_bind, Option.bind_eq_some_iff, parseDecimal_eq_some, Option.ite_none_left_eq_some,
        Prod.exists, parseSeconds_eq_some, Option.some.injEq, Prod.mk.injEq] at h
      obtain ⟨_, ⟨hhour, -⟩, _, ⟨hminute, -⟩, hrange, _, _, ⟨hseconds, -⟩, hsecond, rfl, rfl, rfl, rfl⟩ := h
      exact ⟨by omega, hourText, minuteText, secondsText, of_splitOn_three hparts, hhour, hminute, hseconds⟩
    · exact absurd h.symm (Option.some_ne_none _)
  · rintro ⟨hrange, hourText, minuteText, secondsText, rfl, hhour, hminute, hseconds⟩
    rw [parseTime, splitOn_three (hhour.notMem (by decide)) (hminute.notMem (by decide))
      (hseconds.notMem (by decide) (by decide))]
    simp only [Option.bind_eq_bind, Option.bind_eq_some_iff, parseDecimal_eq_some, Option.ite_none_left_eq_some,
      Prod.exists, parseSeconds_eq_some]
    exact ⟨hour, ⟨hhour, by omega⟩, minute, ⟨hminute, by omega⟩, by omega, second, milli, ⟨hseconds, by omega⟩, by omega,
      rfl⟩

/-! ### Timestamps -/

theorem Offset.seconds_lt (offset : Offset) : -86400 < offset.seconds ∧ offset.seconds < 86400 := by
  cases offset with
  | utc => exact ⟨by decide, by decide⟩
  | shifted ahead hours minutes hhours hminutes =>
    rw [Offset.seconds]
    cases ahead
    · rw [if_neg Bool.false_ne_true]
      omega
    · rw [if_pos rfl]
      omega

namespace Timestamp

/-- Four places of a year keep the count of days small. -/
theorem number_mem (stamp : Timestamp) :
    -1000000 ≤ stamp.date.number 1970 ∧ stamp.date.number 1970 ≤ 4000000 := by
  have hlow := stamp.year_nonneg
  have hhigh := stamp.year_le
  have hbefore := stamp.date.le_number 1970
  have hafter := stamp.date.number_lt_month 1970
  have hmonths : _ ≤ daysBeforeMonth stamp.date.year 13 :=
    daysBeforeMonth_le stamp.date.year stamp.date.month_pos (Nat.lt_succ_of_le stamp.date.month_le)
  have hyear : daysBeforeMonth stamp.date.year 13 ≤ 366 := by
    rw [← yearLength, yearLength_eq]
    split <;> omega
  rw [daysBeforeYear_eq, daysThroughYear, daysThroughYear] at hbefore hafter
  omega

/-- The steps from days to milliseconds stay in range. -/
theorem checked_unixMs (stamp : Timestamp) :
    ((checkedI64 (stamp.date.number 1970 * 86400)).bind fun seconds =>
      (checkedI64 (seconds + (stamp.time.seconds : ℤ))).bind fun seconds =>
      (checkedI64 (seconds - stamp.offset.seconds)).bind fun seconds =>
      (checkedI64 (seconds * 1000)).bind fun milliseconds =>
      checkedI64 (milliseconds + stamp.time.milli)) = some stamp.unixMs := by
  have hnumber := stamp.number_mem
  have hseconds := stamp.time.seconds_lt
  have hoffset := stamp.offset.seconds_lt
  have hmilli := stamp.time.milli_lt
  simp only [Option.bind_eq_some_iff, checkedI64_eq_some]
  refine ⟨_, ⟨rfl, ?_⟩, _, ⟨rfl, ?_⟩, _, ⟨rfl, ?_⟩, _, ⟨rfl, ?_⟩, rfl, ?_⟩
  all_goals
    rw [i64Min, i64Max]
    try rw [unixMs, instantMs]
    omega

/-- The parts of a text that are read one by one spell a timestamp. -/
theorem spelledBy_iff {text : List Char} {stamp : Timestamp} :
    stamp.SpelledBy text ↔ ∃ date time rest, text = (date ++ 'T' :: time) ++ rest ∧
      parseDate date = some (stamp.date.year.toNat, stamp.date.month, stamp.date.day) ∧
      parseTime time = some (stamp.time.hour, stamp.time.minute, stamp.time.second, stamp.time.milli) ∧
      stamp.offset.SpelledBy rest := by
  simp only [parseDate_eq_some, parseTime_eq_some]
  constructor
  · rintro ⟨year, month, day, hour, minute, seconds, rest, rfl, hyear, hmonth, hday, hhour, hminute, hseconds, hoffset⟩
    have hlength := daysInMonth_eq stamp.date.year stamp.year_nonneg stamp.date.month_pos stamp.date.month_le
    have hle := stamp.year_le
    refine ⟨_, _, rest, ?_, ⟨⟨by omega, stamp.date.month_pos, stamp.date.month_le, stamp.date.day_pos,
      hlength ▸ stamp.date.day_le⟩, year, month, day, rfl, hyear, hmonth, hday⟩,
      ⟨⟨stamp.time.hour_lt, stamp.time.minute_lt, stamp.time.second_lt⟩, hour, minute, seconds, rfl, hhour, hminute,
        hseconds⟩, hoffset⟩
    simp only [List.append_assoc, List.cons_append]
  · rintro ⟨date, time, rest, rfl, ⟨-, year, month, day, rfl, hyear, hmonth, hday⟩,
      ⟨-, hour, minute, seconds, rfl, hhour, hminute, hseconds⟩, hoffset⟩
    refine ⟨year, month, day, hour, minute, seconds, rest, ?_, hyear, hmonth, hday, hhour, hminute, hseconds, hoffset⟩
    simp only [List.append_assoc, List.cons_append]

end Timestamp

theorem Denotes.length_pos {digits : List Char} {n : ℕ} (h : Denotes digits n) : 0 < digits.length := by
  refine List.length_pos_iff.mpr ?_
  rintro rfl
  exact absurd h.1 (by decide)

theorem SpellsSeconds.length_pos {text : List Char} {second milli : ℕ} (h : SpellsSeconds text second milli) :
    0 < text.length := by
  rcases h with ⟨hsecond, -⟩ | ⟨whole, fraction, value, rfl, -⟩
  · exact hsecond.length_pos
  · simp only [List.length_append, List.length_cons]
    omega

theorem SpellsSeconds.milli_lt {text : List Char} {second milli : ℕ} (h : SpellsSeconds text second milli) :
    milli < 1000 := by
  rcases h with ⟨-, rfl⟩ | ⟨whole, fraction, value, -, -, ⟨hdigits, rfl⟩, rfl⟩
  · decide
  · rw [isDecimalText, Bool.and_eq_true] at hdigits
    have hvalue := decimalValue_lt hdigits.2
    rw [Nat.div_lt_iff_lt_mul (by positivity)]
    omega

/-- Date and time are together long enough for a sign after them to be looked for. -/
theorem length_dateTime {date time : List Char} {day : ℕ × ℕ × ℕ} {clock : ℕ × ℕ × ℕ × ℕ}
    (hdate : parseDate date = some day) (htime : parseTime time = some clock) :
    10 < (date ++ 'T' :: time).length := by
  obtain ⟨-, year, month, day, rfl, hyear, hmonth, hday⟩ := parseDate_eq_some.mp hdate
  obtain ⟨-, hour, minute, seconds, rfl, hhour, hminute, hseconds⟩ := parseTime_eq_some.mp htime
  have hyear := hyear.length_pos
  have hmonth := hmonth.length_pos
  have hday := hday.length_pos
  have hhour := hhour.length_pos
  have hminute := hminute.length_pos
  have hseconds := hseconds.length_pos
  simp only [List.length_append, List.length_cons]
  omega

/-- A date consists of digits and dashes. -/
theorem notMem_of_parseDate {date : List Char} {day : ℕ × ℕ × ℕ} (hdate : parseDate date = some day) {c : Char}
    (hdigit : c.isDigit = false) (hdash : c ≠ '-') : c ∉ date := by
  obtain ⟨-, year, month, day, rfl, hyear, hmonth, hday⟩ := parseDate_eq_some.mp hdate
  intro hmem
  simp only [List.mem_append, List.mem_cons] at hmem
  rcases hmem with hmem | hmem | hmem | hmem | hmem
  · exact hyear.notMem hdigit hmem
  · exact hdash hmem
  · exact hmonth.notMem hdigit hmem
  · exact hdash hmem
  · exact hday.notMem hdigit hmem

/-- The accepted texts are those that spell a timestamp, and each is read as the instant of that timestamp. -/
theorem parseTimestampMs_eq_some {text : String} {ms : ℤ} :
    parseTimestampMs text = some ms ↔ ∃ stamp : Timestamp, stamp.SpelledBy text.toList ∧ stamp.unixMs = ms := by
  have hdays : ∀ stamp : Timestamp,
      daysFromCivil stamp.date.year stamp.date.month stamp.date.day = some (stamp.date.number 1970) := by
    intro stamp
    have hlow := stamp.year_nonneg
    have hhigh := stamp.year_le
    exact (daysFromCivil_eq stamp.date).2 (by omega) (by omega)
  constructor
  · intro h
    simp only [parseTimestampMs, Option.bind_eq_bind] at h
    obtain ⟨⟨value, offsetSeconds⟩, hoffset, h⟩ := Option.bind_eq_some_iff.mp h
    obtain ⟨⟨date, time⟩, hsplit, h⟩ := Option.bind_eq_some_iff.mp h
    obtain ⟨⟨year, month, day⟩, hdate, h⟩ := Option.bind_eq_some_iff.mp h
    obtain ⟨⟨hour, minute, second, milli⟩, htime, h⟩ := Option.bind_eq_some_iff.mp h
    obtain ⟨offset, rest, htext, hspelled, rfl⟩ := splitOffset_sound hoffset
    obtain ⟨rfl, -⟩ := splitOnce_eq_some.mp hsplit
    obtain ⟨⟨hyear, hfirst, hlast, hday, hlength⟩, -⟩ := parseDate_eq_some.mp hdate
    obtain ⟨⟨hhour, hminute, hsecond⟩, _, _, _, -, -, -, hseconds⟩ := parseTime_eq_some.mp htime
    rw [← Int.toNat_natCast year, daysInMonth_eq year (Int.natCast_nonneg year) hfirst hlast] at hlength
    let stamp : Timestamp := {
      date := ⟨year, month, day, hfirst, hlast, hday, hlength⟩
      time := ⟨hour, minute, second, milli, hhour, hminute, hsecond, hseconds.milli_lt⟩
      offset
      year_nonneg := Int.natCast_nonneg year
      year_le := Int.ofNat_le.mpr hyear }
    refine ⟨stamp, Timestamp.spelledBy_iff.mpr ⟨date, time, rest, htext, hdate, htime, hspelled⟩, ?_⟩
    rw [hdays stamp, Option.bind_some] at h
    exact Option.some.inj (stamp.checked_unixMs.symm.trans h)
  · rintro ⟨stamp, hspelled, rfl⟩
    obtain ⟨date, time, rest, htext, hdate, htime, hoffset⟩ := Timestamp.spelledBy_iff.mp hspelled
    have hlong : 10 < (date ++ 'T' :: time).length := length_dateTime hdate htime
    have hnoT : 'T' ∉ date := notMem_of_parseDate hdate (by decide) (by decide)
    simp only [parseTimestampMs, Option.bind_eq_bind]
    rw [htext, splitOffset_complete hlong hoffset, Option.bind_some, splitOnce_eq_some.mpr ⟨rfl, hnoT⟩,
      Option.bind_some, hdate, Option.bind_some, htime, Option.bind_some, Int.toNat_of_nonneg stamp.year_nonneg,
      hdays stamp, Option.bind_some]
    exact stamp.checked_unixMs

/-- The accepted texts are those that spell a timestamp, and each is read as the instant of that timestamp in
milliseconds from the start of 1970, with fractions cut to milliseconds; the count of days is the calendar's for every
date, as far as it stays in range; and at one offset a later timestamp is a later instant. -/
theorem parseTimestampMs_exact :
    (∀ (text : String) (ms : ℤ), parseTimestampMs text = some ms ↔
      ∃ stamp : Timestamp, stamp.SpelledBy text.toList ∧ stamp.unixMs = ms) ∧
    (∀ date : Date,
      (∀ days, daysFromCivil date.year date.month date.day = some days → days = date.number 1970) ∧
        (-25 * 10 ^ 15 ≤ date.year → date.year ≤ 25 * 10 ^ 15 →
          daysFromCivil date.year date.month date.day = some (date.number 1970))) ∧
    ∀ stamp later : Timestamp, stamp.offset = later.offset →
      (stamp.date.Before later.date ∨ stamp.date = later.date ∧ stamp.time.Before later.time) →
      stamp.unixMs < later.unixMs := by
  refine ⟨fun text ms => parseTimestampMs_eq_some, daysFromCivil_eq, fun stamp later hoffset hbefore => ?_⟩
  rw [Timestamp.unixMs, Timestamp.unixMs, hoffset]
  exact instantMs_lt 1970 later.offset.seconds hbefore

end HerdrTop
