import Mathlib.Tactic.IntervalCases

namespace Winex.NtTime

/-!
# File times and calendar fields

`RtlTimeToTimeFields` and `RtlTimeFieldsToTime`, from `dlls/ntdll/time.c`.  A file time
counts units of 100 nanoseconds since the beginning of 1601.  Both functions go through
the years and the months one by one.
-/

/-- The fields of `TIME_FIELDS`, in which every number has 16 bits. -/
structure TimeFields where
  (year month day hour minute second milliseconds weekday : Int)

def cshort (value : Int) : Int :=
  value.bmod 65536

theorem cshort_le {value : Int} (inRange : -32768 ≤ value) : cshort value ≤ value := by
  unfold cshort
  rw [Int.bmod_def]
  split <;> omega

theorem cshort_eq {value : Int} (nonneg : 0 ≤ value) (small : value < 32768) :
    cshort value = value :=
  Int.bmod_eq_of_le_mul_two (by omega) (by omega)

def long (value : Int) : Int :=
  value.bmod 4294967296

def isLeapYear (year : Int) : Bool :=
  year % 4 = 0 ∧ (year % 100 ≠ 0 ∨ year % 400 = 0)

def yearLength (year : Int) : Nat :=
  if isLeapYear year then 366 else 365

def monthLengths (year : Int) : List Nat :=
  [31, if isLeapYear year then 29 else 28, 31, 30, 31, 30, 31, 31, 30, 31, 30, 31]

theorem yearLength_pos (year : Int) : 365 ≤ yearLength year := by
  unfold yearLength
  split <;> decide

/-- The first loop of `RtlTimeToTimeFields` borrows days for negative seconds. -/
def borrowDays (secondsInDay days : Int) : Int × Int :=
  if secondsInDay < 0 then borrowDays (secondsInDay + 86400) (days - 1) else (secondsInDay, days)
termination_by (-secondsInDay).toNat

def carryDays (secondsInDay days : Int) : Int × Int :=
  if 86400 ≤ secondsInDay then carryDays (secondsInDay - 86400) (days + 1)
  else (secondsInDay, days)
termination_by secondsInDay.toNat

/-- The loop that counts the years, with the days that are left of the last one. -/
def countYears (curYear days : Int) : Int × Int :=
  if days < yearLength curYear then (curYear, days)
  else countYears (curYear + 1) (days - yearLength curYear)
termination_by days.toNat
decreasing_by
  have := yearLength_pos curYear
  omega

/-- The loop that counts the months.  It fails if it would read behind the table. -/
def countMonths : List Nat → Int → Int → Option (Int × Int)
  | [], _, _ => none
  | length :: lengths, curMonth, days =>
    if length ≤ days then countMonths lengths (curMonth + 1) (days - length)
    else some (curMonth, days)

def rtlTimeToTimeFields (liTime : Int) : Option TimeFields :=
  let time := liTime.tdiv 10000000
  let (secondsInDay, days) := borrowDays (time.tmod 86400) (long (time.tdiv 86400))
  let (secondsInDay, days) := carryDays secondsInDay days
  let (curYear, daysInYear) := countYears 1601 days
  match countMonths (monthLengths curYear) 0 daysInYear with
  | none => none
  | some (curMonth, daysInMonth) =>
    some {
      year := cshort curYear
      month := cshort (curMonth + 1)
      day := cshort (daysInMonth + 1)
      hour := cshort (secondsInDay.tdiv 3600)
      minute := cshort ((secondsInDay.tmod 3600).tdiv 60)
      second := cshort ((secondsInDay.tmod 3600).tmod 60)
      milliseconds := cshort ((liTime.tmod 10000000).tdiv 10000)
      weekday := cshort ((1 + days).tmod 7)
    }

/-- A loop of `NormalizeTimeFields`, for a field from a limit on. -/
def normalize (limit modulus : Int) (large : 0 < modulus ∧ modulus ≤ limit) (field carry : Int) :
    Int × Int :=
  if limit ≤ field then
    normalize limit modulus large (cshort (field - modulus)) (cshort (carry + 1))
  else (field, carry)
termination_by field.toNat
decreasing_by
  have := @cshort_le (field - modulus)
  omega

/-- The loop for the days, which takes 60 of them for a month.  It fails if it would read
outside of the table. -/
def normalizeDays (year day month : Int) : Option (Int × Int) :=
  match if 1 ≤ month then (monthLengths year)[(month - 1).toNat]? else none with
  | none => none
  | some length =>
    if length < day then normalizeDays year (cshort (day - 60)) (cshort (month + 1))
    else some (day, month)
termination_by day.toNat
decreasing_by
  have := @cshort_le (day - 60)
  omega

def addYears (curYear year rcTime : Int) : Int × Int :=
  if curYear < year then addYears (curYear + 1) year (rcTime + yearLength curYear)
  else (curYear, rcTime)
termination_by (year - curYear).toNat

def addMonths : List Nat → Int → Int → Int → Option Int
  | [], curMonth, month, rcTime => if curMonth < month then none else some rcTime
  | length :: lengths, curMonth, month, rcTime =>
    if curMonth < month then addMonths lengths (curMonth + 1) month (rcTime + length)
    else some rcTime

/-- `rcTime`, in 64 bits. -/
def ticks (days seconds milliseconds : Int) : Int :=
  ((days * 86400 + seconds) * 10000000 + milliseconds * 10000).bmod 18446744073709551616

def rtlTimeFieldsToTime (fields : TimeFields) : Option Int :=
  let (second, minute) := normalize 60 60 (by decide) fields.second fields.minute
  let (minute, hour) := normalize 60 60 (by decide) minute fields.hour
  let (hour, day) := normalize 24 24 (by decide) hour fields.day
  match normalizeDays fields.year day fields.month with
  | none => none
  | some (day, month) =>
    let (month, year) := normalize 13 12 (by decide) month fields.year
    let (curYear, rcTime) := addYears 1601 year 0
    match addMonths (monthLengths curYear) 1 month rcTime with
    | none => none
    | some rcTime =>
      some (ticks (rcTime + (day - 1)) (hour * 3600 + minute * 60 + second) fields.milliseconds)

/-- The number of days of a month in the Gregorian calendar. -/
def gregorianDays (year month : Int) : Int :=
  if month = 2 then if 4 ∣ year ∧ (100 ∣ year → 400 ∣ year) then 29 else 28
  else if month = 4 ∨ month = 6 ∨ month = 9 ∨ month = 11 then 30
  else 31

structure TimeFields.InRange (fields : TimeFields) : Prop where
  month : 1 ≤ fields.month ∧ fields.month ≤ 12
  day : 1 ≤ fields.day ∧ fields.day ≤ gregorianDays fields.year fields.month
  hour : 0 ≤ fields.hour ∧ fields.hour < 24
  minute : 0 ≤ fields.minute ∧ fields.minute < 60
  second : 0 ≤ fields.second ∧ fields.second < 60
  milliseconds : 0 ≤ fields.milliseconds ∧ fields.milliseconds < 1000

variable {curMonth days daysInYear year : Int}

theorem countYears_spec (curYear : Int) {days : Int} (nonneg : 0 ≤ days) :
    ∃ year rest, countYears curYear days = (year, rest) ∧ 0 ≤ rest ∧ rest < yearLength year ∧
      curYear ≤ year ∧ 365 * (year - curYear) ≤ days ∧
      ∀ rcTime, addYears curYear year rcTime = (year, rcTime + (days - rest)) := by
  fun_induction countYears curYear days with
  | case1 curYear days within =>
    refine ⟨curYear, days, rfl, nonneg, within, Int.le_refl _, by omega, fun rcTime => ?_⟩
    rw [addYears]
    simp
  | case2 curYear days beyond ih =>
    have long := yearLength_pos curYear
    obtain ⟨year, rest, same, atLeast, less, later, bound, added⟩ := ih (by omega)
    refine ⟨year, rest, same, atLeast, less, by omega, by omega, fun rcTime => ?_⟩
    rw [addYears, if_pos (by omega), added]
    congr 1
    omega

/-- The days of all the months in a list. -/
def total : List Nat → Nat
  | [] => 0
  | length :: lengths => length + total lengths

theorem countMonths_spec {lengths : List Nat} (curMonth : Int) {days : Int} (nonneg : 0 ≤ days)
    (within : days < total lengths) :
    ∃ (passed length : Nat) (rest : Int),
      countMonths lengths curMonth days = some (curMonth + passed, rest) ∧
      lengths[passed]? = some length ∧ 0 ≤ rest ∧ rest < length ∧
      ∀ first rcTime, addMonths lengths first (first + passed) rcTime =
        some (rcTime + (days - rest)) := by
  induction lengths generalizing curMonth days with
  | nil => exact absurd nonneg (Int.not_le.2 within)
  | cons length lengths ih =>
    rw [total] at within
    rw [countMonths]
    split
    next beyond =>
      obtain ⟨passed, length', rest, same, there, atLeast, less, added⟩ :=
        ih (curMonth + 1) (by omega : 0 ≤ days - length) (by omega)
      refine ⟨passed + 1, length', rest, ?_, there, atLeast, less, fun first rcTime => ?_⟩
      · rw [same]
        congr 2
        omega
      · rw [addMonths, if_pos (by omega), Nat.cast_add_one, Int.add_comm passed, ← Int.add_assoc,
          added]
        congr 1
        omega
    next within' =>
      refine ⟨0, length, days, by simp, rfl, nonneg, by omega, fun first rcTime => ?_⟩
      rw [addMonths]
      simp

theorem total_monthLengths (year : Int) : total (monthLengths year) = yearLength year := by
  unfold monthLengths yearLength
  split <;> rfl

theorem gregorianDays_of_length {passed length : Nat}
    (there : (monthLengths year)[passed]? = some length) :
    passed < 12 ∧ length = gregorianDays year (passed + 1) ∧ length ≤ 31 := by
  have leap : isLeapYear year ↔ 4 ∣ year ∧ (100 ∣ year → 400 ∣ year) := by
    simp [isLeapYear]
    omega
  simp only [monthLengths, gregorianDays, ← leap] at there ⊢
  have inside : passed < 12 := (List.getElem?_eq_some_iff.1 there).1
  generalize isLeapYear year = leapYear at there ⊢
  cases leapYear <;> interval_cases passed <;> cases there <;> decide

theorem normalize_of_lt {limit modulus field carry : Int} {large} (less : field < limit) :
    normalize limit modulus large field carry = (field, carry) := by
  rw [normalize, if_neg (by omega)]

/-- The fields of a time on the given day. -/
def fieldsAt (t year curMonth days : Int) : TimeFields where
  year := year
  month := curMonth + 1
  day := days + 1
  hour := t / 36000000000 % 24
  minute := t / 600000000 % 60
  second := t / 10000000 % 60
  milliseconds := t / 10000 % 1000
  weekday := (t / 864000000000 + 1) % 7

theorem rtlTimeToTimeFields_eq {t : Int} (nonneg : 0 ≤ t) (below : t < 9223372036854775808)
    (years : countYears 1601 (t / 864000000000) = (year, daysInYear))
    (months : countMonths (monthLengths year) 0 daysInYear = some (curMonth, days))
    (laterYear : 1601 ≤ year) (early : year < 32768)
    (inYear : 0 ≤ curMonth ∧ curMonth < 12) (inMonth : 0 ≤ days ∧ days < 31) :
    rtlTimeToTimeFields t = some (fieldsAt t year curMonth days) := by
  have daysFit : long (t / 10000000 / 86400) = t / 864000000000 := by
    rw [long, Int.bmod_eq_of_le_mul_two (by omega) (by omega)]
    omega
  unfold rtlTimeToTimeFields
  simp (disch := omega) only [Int.tdiv_eq_ediv_of_nonneg, Int.tmod_eq_emod_of_nonneg, daysFit]
  rw [borrowDays, if_neg (by omega), carryDays, if_neg (by omega)]
  simp only [years, months]
  simp (disch := omega) only [Int.tdiv_eq_ediv_of_nonneg, Int.tmod_eq_emod_of_nonneg, cshort_eq]
  simp [fieldsAt]
  omega

theorem monthLengths_of_month {month : Int} (inYear : 1 ≤ month ∧ month ≤ 12) (year : Int) :
    ∃ length : Nat, (monthLengths year)[(month - 1).toNat]? = some length ∧
      length = gregorianDays year month ∧ length ≤ 31 := by
  have inside : (month - 1).toNat < (monthLengths year).length := by
    simp only [monthLengths, List.length_cons, List.length_nil]
    omega
  have there := List.getElem?_eq_getElem inside
  obtain ⟨-, same, small⟩ := gregorianDays_of_length there
  rw [show ((month - 1).toNat : Int) + 1 = month by omega] at same
  exact ⟨_, there, same, small⟩

theorem rtlTimeFieldsToTime_eq {fields : TimeFields} (inRange : fields.InRange) {years months : Int}
    (yearsAdded : addYears 1601 fields.year 0 = (fields.year, years))
    (monthsAdded : addMonths (monthLengths fields.year) 1 fields.month years = some months) :
    rtlTimeFieldsToTime fields =
      some (ticks (months + (fields.day - 1))
        (fields.hour * 3600 + fields.minute * 60 + fields.second) fields.milliseconds) := by
  obtain ⟨month, day, hour, minute, second, milliseconds⟩ := inRange
  have days : normalizeDays fields.year fields.day fields.month =
      some (fields.day, fields.month) := by
    obtain ⟨length, there, same, -⟩ := monthLengths_of_month month fields.year
    rw [normalizeDays, if_pos month.1, there]
    exact if_neg (by omega)
  unfold rtlTimeFieldsToTime
  simp (disch := omega) only [normalize_of_lt, days, yearsAdded, monthsAdded]

/-- The year, the month and the day of all times of one day, which are converted back. -/
theorem fieldsAt_day {t : Int} (nonneg : 0 ≤ t) (below : t < 9223372036854775808) :
    ∃ year curMonth days : Int, 1601 ≤ year ∧ ∀ t' ≥ 0, t' < 9223372036854775808 →
      t' / 864000000000 = t / 864000000000 →
      rtlTimeToTimeFields t' = some (fieldsAt t' year curMonth days) ∧
        (fieldsAt t' year curMonth days).InRange ∧
        rtlTimeFieldsToTime (fieldsAt t' year curMonth days) = some (t' - t' % 10000) := by
  obtain ⟨year, daysInYear, years, atLeast, inYear, later, bound, yearsAdded⟩ :=
    countYears_spec 1601 (by omega : 0 ≤ t / 864000000000)
  rw [← total_monthLengths] at inYear
  obtain ⟨passed, length, days, months, there, first, inMonth, monthsAdded⟩ :=
    countMonths_spec 0 atLeast inYear
  obtain ⟨inTable, gregorian, small⟩ := gregorianDays_of_length there
  rw [Int.zero_add] at months
  refine ⟨year, passed, days, later, fun t' nonneg' below' sameDay => ?_⟩
  have inRange : (fieldsAt t' year passed days).InRange := by
    constructor <;> simp only [fieldsAt] <;> omega
  rw [← sameDay] at years
  refine ⟨rtlTimeToTimeFields_eq nonneg' below' years months later (by omega) (by omega)
    (by omega), inRange, ?_⟩
  have counted := monthsAdded 1 (0 + (t / 864000000000 - daysInYear))
  rw [Int.add_comm 1] at counted
  rw [rtlTimeFieldsToTime_eq inRange (yearsAdded 0) counted]
  simp only [fieldsAt]
  rw [ticks, Int.bmod_eq_of_le_mul_two (by omega) (by omega)]
  congr 1
  omega

theorem timeFields_roundTrip (t : Int) (nonneg : 0 ≤ t) (below : t < 9223372036854775808) :
    ∃ fields, rtlTimeToTimeFields t = some fields ∧ fields.InRange ∧
      fields.weekday = (t / 864000000000 + 1) % 7 ∧
      rtlTimeFieldsToTime fields = some (t - t % 10000) := by
  obtain ⟨year, curMonth, days, -, ofDay⟩ := fieldsAt_day nonneg below
  obtain ⟨same, inRange, back⟩ := ofDay t nonneg below rfl
  exact ⟨_, same, inRange, rfl, back⟩

/-- The years up to a later one have days that are counted as these years. -/
theorem countYears_addYears {curYear year : Int} (later : curYear ≤ year) :
    ∃ days, 0 ≤ days ∧ days ≤ 366 * (year - curYear) ∧
      (∀ rcTime, addYears curYear year rcTime = (year, rcTime + days)) ∧
      ∀ rest : Int, 0 ≤ rest → rest < yearLength year →
        countYears curYear (days + rest) = (year, rest) := by
  by_cases same : curYear = year
  · subst same
    refine ⟨0, by omega, by omega, fun rcTime => ?_, fun rest _ less => ?_⟩
    · rw [addYears, if_neg (by omega), Int.add_zero]
    · rw [Int.zero_add, countYears, if_pos less]
  have long : 365 ≤ yearLength curYear ∧ yearLength curYear ≤ 366 := by
    unfold yearLength
    split <;> decide
  obtain ⟨days, nonneg, bound, added, counted⟩ :=
    countYears_addYears (show curYear + 1 ≤ year by omega)
  refine ⟨yearLength curYear + days, by omega, by omega, ?_, ?_⟩
  · intro _
    rw [addYears, if_pos (by omega), added, Int.add_assoc]
  · intro rest atLeast less
    rw [countYears, if_neg (by omega), ← counted rest atLeast less]
    congr 1
    omega
termination_by (year - curYear).toNat

/-- The months in front of another one have days that are counted as these months. -/
theorem countMonths_addMonths {lengths : List Nat} {passed length : Nat}
    (there : lengths[passed]? = some length) :
    ∃ days : Int, 0 ≤ days ∧ days + length ≤ total lengths ∧
      (∀ first rcTime, addMonths lengths first (first + passed) rcTime = some (rcTime + days)) ∧
      ∀ curMonth rest : Int, 0 ≤ rest → rest < length →
        countMonths lengths curMonth (days + rest) = some (curMonth + passed, rest) := by
  induction lengths generalizing passed with
  | nil => cases there
  | cons length' lengths ih =>
    cases passed with
    | zero =>
      cases there
      refine ⟨0, by omega, by simp [total], fun first rcTime => ?_, fun curMonth rest _ less => ?_⟩
      · simp [addMonths]
      · simp [countMonths, less]
    | succ passed =>
      obtain ⟨days, nonneg, bound, added, counted⟩ := ih there
      refine ⟨length' + days, by omega, by simp only [total]; omega, fun first rcTime => ?_,
        fun curMonth rest atLeast less => ?_⟩
      · rw [addMonths, if_pos (by omega), Nat.cast_add_one, Int.add_comm passed, ← Int.add_assoc,
          added, Int.add_assoc]
      · rw [countMonths, if_pos (by omega), Nat.cast_add_one, Int.add_comm passed, ← Int.add_assoc,
          ← counted _ rest atLeast less]
        congr 1
        omega

/-- A date of the years that a file time has is converted to a time and back. -/
theorem timeFields_of_date {fields : TimeFields} (inRange : fields.InRange)
    (years : 1601 ≤ fields.year ∧ fields.year ≤ 9999) :
    ∃ t, rtlTimeFieldsToTime fields = some t ∧ 0 ≤ t ∧ t < 9223372036854775808 ∧
      rtlTimeToTimeFields t = some { fields with weekday := (t / 864000000000 + 1) % 7 } := by
  obtain ⟨month, day, hour, minute, second, milliseconds⟩ := id inRange
  obtain ⟨before, _, _, yearsAdded, yearsCounted⟩ := countYears_addYears years.1
  obtain ⟨length, there, same, small⟩ := monthLengths_of_month month fields.year
  obtain ⟨days, _, within, monthsAdded, monthsCounted⟩ := countMonths_addMonths there
  have leap : yearLength fields.year ≤ 366 := by
    unfold yearLength
    split <;> decide
  rw [total_monthLengths] at within
  have counted := monthsAdded 1 (0 + before)
  rw [show (1 : Int) + (fields.month - 1).toNat = fields.month by omega] at counted
  rw [rtlTimeFieldsToTime_eq inRange (yearsAdded 0) counted, ticks,
    Int.bmod_eq_of_le_mul_two (by omega) (by omega)]
  refine ⟨_, rfl, by omega, by omega, ?_⟩
  have inDay : ((0 + before + days + (fields.day - 1)) * 86400 +
      (fields.hour * 3600 + fields.minute * 60 + fields.second)) * 10000000 +
        fields.milliseconds * 10000 =
      (before + (days + (fields.day - 1))) * 864000000000 + ((fields.hour * 3600 +
        fields.minute * 60 + fields.second) * 10000000 + fields.milliseconds * 10000) := by
    omega
  rw [inDay, rtlTimeToTimeFields_eq (by omega) (by omega)
    (by rw [← yearsCounted _ (by omega : 0 ≤ days + (fields.day - 1)) (by omega)]; congr 1; omega)
    (monthsCounted 0 (fields.day - 1) (by omega) (by omega)) years.1 (by omega) (by omega)
    (by omega)]
  simp only [fieldsAt]
  congr 2 <;> omega

/-- The last millisecond of a leap day. -/
theorem timeFields_roundTrip_leapDay :
    ∃ fields, rtlTimeToTimeFields 125963423999999999 = some fields ∧ fields.InRange ∧
      fields.weekday = 2 ∧ rtlTimeFieldsToTime fields = some 125963423999990000 :=
  timeFields_roundTrip 125963423999999999 (by decide) (by decide)

end Winex.NtTime
