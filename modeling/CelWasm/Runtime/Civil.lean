import CelWasm.Library.AbslTime
import CelWasm.Library.Gregorian
import CelWasm.Runtime.TimeArithmetic

/-!
# Runtime/Civil — a second count as a second of the calendar

`cel_civil_from_seconds` divides 64-bit counts, narrows the day of the era to 32 bits and goes on
unsigned. Within 2⁵⁴ seconds of the epoch nothing wraps on the way, and what comes out is the one
second of the Gregorian calendar with that count.
-/

namespace CelWasm

open Gregorian

/-! ## The helper -/

/-- `CelCivil`. -/
structure CelCivil where
  year : Int32
  month0 : Int32
  day1 : Int32
  day0 : Int32
  hour : Int32
  minute : Int32
  second : Int32
  dayOfYear : Int32
  dayOfWeek : Int32
  deriving DecidableEq

/-- `kCumulativeDaysBeforeMonthNonLeap`. -/
def kCumulativeDaysBeforeMonthNonLeap : List Int32 :=
  [0, 31, 59, 90, 120, 151, 181, 212, 243, 273, 304, 334]

/-- `kCumulativeDaysBeforeMonthLeap`. -/
def kCumulativeDaysBeforeMonthLeap : List Int32 :=
  [0, 31, 60, 91, 121, 152, 182, 213, 244, 274, 305, 335]

/-- `is_leap_year`. -/
def isLeapYear (year : Int32) : Bool :=
  if year % 4 ≠ 0 then false
  else if year % 100 ≠ 0 then true
  else year % 400 == 0

/-- `split_days`. -/
def splitDays (epochSeconds : Int64) : Int64 × Int64 :=
  let d := epochSeconds / 86400
  let r := epochSeconds - d * 86400
  if r < 0 then (d - 1, r + 86400) else (d, r)

/-- The day of the era, and the era. -/
def eraOf (days : Int64) : Int64 × UInt32 :=
  let z := days + 719468
  let era := (if 0 ≤ z then z else z - 146096) / 146097
  (era, (z - era * 146097).toUInt64.toUInt32)

/-- Hinnant's `civil_from_days`: the year, the month and the day. -/
def civilFromDays (days : Int64) : Int32 × UInt32 × UInt32 :=
  let (era, doe) := eraOf days
  let yoe := (doe - doe / 1460 + doe / 36524 - doe / 146096) / 365
  let y := (Int64.ofNat yoe.toNat + era * 400).toInt32
  let doy := doe - (365 * yoe + yoe / 4 - yoe / 100)
  let mp := (5 * doy + 2) / 153
  let d := doy - (153 * mp + 2) / 5 + 1
  let m := if mp < 10 then mp + 3 else mp - 9
  (y + if m ≤ 2 then 1 else 0, m, d)

/-- **`cel_civil_from_seconds`**. -/
def celCivilFromSeconds (epochSeconds : Int64) : CelCivil :=
  let (days, daySecs) := splitDays epochSeconds
  let (y, m, d) := civilFromDays days
  let month0 := Int32.ofNat m.toNat - 1
  let table := if isLeapYear y then kCumulativeDaysBeforeMonthLeap
    else kCumulativeDaysBeforeMonthNonLeap
  { year := y
    month0
    day1 := Int32.ofNat d.toNat
    day0 := Int32.ofNat d.toNat - 1
    hour := (daySecs / 3600).toInt32
    minute := (daySecs % 3600 / 60).toInt32
    second := (daySecs % 60).toInt32
    dayOfYear := table.getD month0.toInt.toNat 0 + Int32.ofNat d.toNat - 1
    dayOfWeek := ((days % 7 + 4 + 7) % 7).toInt32 }

/-! ## The divisions -/

theorem toInt_mul64 {a b : Int64} (hl : -2 ^ 63 ≤ a.toInt * b.toInt) (hg : a.toInt * b.toInt < 2 ^ 63) :
    (a * b).toInt = a.toInt * b.toInt := by
  rw [Int64.toInt_mul]
  exact Int.bmod_eq_of_le (by omega) (by omega)

/-- Division by a number in C rounds toward zero. -/
theorem toInt_div64 {a b : Int64} (hb : b.toInt ≠ -1) : (a / b).toInt = a.toInt.tdiv b.toInt :=
  Int64.toInt_div_of_ne_right a b fun h => hb (by rw [h]; rfl)

theorem toInt_toInt32 {x : Int64} (hl : -2 ^ 31 ≤ x.toInt) (hg : x.toInt < 2 ^ 31) :
    x.toInt32.toInt = x.toInt := by
  rw [Int64.toInt_toInt32]
  exact Int.bmod_eq_of_le (by omega) (by omega)

/-- Rounding toward zero, from rounding down. -/
theorem tdiv_eq_ite (a : ℤ) {n : ℤ} (h : 0 < n) :
    a.tdiv n = if 0 ≤ a ∨ n ∣ a then a / n else a / n + 1 := by
  rw [Int.tdiv_eq_ediv, Int.sign_eq_one_of_pos h]
  split_ifs
  · exact add_zero _
  · rfl

/-- **Days and what is left of one**, rounded down. -/
theorem splitDays_eq (s : Int64) : (splitDays s).1.toInt = s.toInt / 86400 ∧
    (splitDays s).2.toInt = s.toInt % 86400 := by
  have hlow := s.le_toInt
  have hhigh := s.toInt_lt
  have hday : (86400 : Int64).toInt = 86400 := rfl
  have hone : (1 : Int64).toInt = 1 := rfl
  have hzero : (0 : Int64).toInt = 0 := rfl
  have hdiv : (s / 86400).toInt
      = if 0 ≤ s.toInt ∨ 86400 ∣ s.toInt then s.toInt / 86400 else s.toInt / 86400 + 1 := by
    rw [toInt_div64 (by decide), hday, tdiv_eq_ite _ (by decide)]
  rw [splitDays]
  generalize s / 86400 = d at hdiv ⊢
  have hmul : (d * 86400).toInt = d.toInt * 86400 :=
    toInt_mul64 (by rw [hday]; omega) (by rw [hday]; omega)
  have hrest : (s - d * 86400).toInt = s.toInt - d.toInt * 86400 := by
    rw [toInt_sub64 (by omega) (by omega), hmul]
  simp only [Int64.lt_iff_toInt_lt, hrest, hzero]
  split_ifs
  · rw [toInt_sub64 (by omega) (by omega), toInt_add64 (by omega) (by omega)]
    omega
  · dsimp only
    omega

/-- The bias makes the division one that rounds down. -/
theorem toInt_era {z : Int64} (h : -2 ^ 62 ≤ z.toInt) :
    ((if 0 ≤ z then z else z - 146096) / 146097).toInt = z.toInt / 146097 := by
  have hera : (146097 : Int64).toInt = 146097 := rfl
  have hbias : (146096 : Int64).toInt = 146096 := rfl
  have hzero : (0 : Int64).toInt = 0 := rfl
  have hlt := z.toInt_lt
  have hbiased : (if 0 ≤ z then z else z - 146096).toInt
      = if 0 ≤ z.toInt then z.toInt else z.toInt - 146096 := by
    simp only [Int64.le_iff_toInt_le, hzero]
    split_ifs
    · rfl
    · rw [toInt_sub64 (by rw [hbias]; omega) (by rw [hbias]; omega), hbias]
  rw [toInt_div64 (by decide), hera, hbiased, tdiv_eq_ite _ (by decide)]
  split_ifs <;> omega

/-- **The era, and the day of it**, rounded down. -/
theorem eraOf_eq {days : Int64} (h : -2 ^ 40 ≤ days.toInt ∧ days.toInt ≤ 2 ^ 40) :
    (eraOf days).1.toInt = (days.toInt + 719468) / 146097 ∧
      ((eraOf days).2.toNat : ℤ) = (days.toInt + 719468) % 146097 := by
  have hz : (days + 719468).toInt = days.toInt + 719468 := by
    have hshift : (719468 : Int64).toInt = 719468 := rfl
    rw [toInt_add64 (by rw [hshift]; omega) (by rw [hshift]; omega), hshift]
  rw [eraOf]
  generalize days + 719468 = z at hz ⊢
  have hdiv := toInt_era (z := z) (by omega)
  generalize (if 0 ≤ z then z else z - 146096) / 146097 = era at hdiv ⊢
  have hmul : (era * 146097).toInt = era.toInt * 146097 := by
    have hera : (146097 : Int64).toInt = 146097 := rfl
    exact toInt_mul64 (by rw [hera]; omega) (by rw [hera]; omega)
  generalize era * 146097 = whole at hmul ⊢
  have hdoe : (z - whole).toInt = z.toInt % 146097 := by
    rw [toInt_sub64 (by omega) (by omega)]
    omega
  refine ⟨by rw [hdiv, hz], ?_⟩
  have hnonneg : 0 ≤ z - whole := by
    rw [Int64.le_iff_toInt_le, hdoe]
    exact Int.emod_nonneg _ (by decide)
  dsimp only
  rw [UInt64.toNat_toUInt32, Int64.toNat_toUInt64_of_le hnonneg]
  change (((z - whole).toInt.toNat % 2 ^ 32 : ℕ) : ℤ) = _
  rw [hdoe, ← hz]
  omega

/-! ## The unsigned steps -/

section Unsigned

/-- What does not wrap. -/
theorem toNat_subU {a b : UInt32} (h : b.toNat ≤ a.toNat) : (a - b).toNat = a.toNat - b.toNat :=
  UInt32.toNat_sub_of_le a b (UInt32.le_iff_toNat_le.mpr h)

theorem toNat_addU {a b : UInt32} (h : a.toNat + b.toNat < 2 ^ 32) :
    (a + b).toNat = a.toNat + b.toNat :=
  (UInt32.toNat_add a b).trans (Nat.mod_eq_of_lt h)

theorem toNat_mulU {a b : UInt32} (h : a.toNat * b.toNat < 2 ^ 32) :
    (a * b).toNat = a.toNat * b.toNat :=
  (UInt32.toNat_mul a b).trans (Nat.mod_eq_of_lt h)

theorem toNat_yoe {doe : UInt32} (h : doe.toNat < 146097) :
    ((doe - doe / 1460 + doe / 36524 - doe / 146096) / 365).toNat = yearOfEra doe.toNat := by
  have hfour : (doe / 1460).toNat = doe.toNat / 1460 := UInt32.toNat_div doe 1460
  have hcentury : (doe / 36524).toNat = doe.toNat / 36524 := UInt32.toNat_div doe 36524
  have hera : (doe / 146096).toNat = doe.toNat / 146096 := UInt32.toNat_div doe 146096
  have hdays : (doe - doe / 1460 + doe / 36524 - doe / 146096).toNat
      = doe.toNat - doe.toNat / 1460 + doe.toNat / 36524 - doe.toNat / 146096 := by
    have hless : (doe - doe / 1460).toNat = doe.toNat - doe.toNat / 1460 := by
      rw [toNat_subU (by omega), hfour]
    have hmore : (doe - doe / 1460 + doe / 36524).toNat
        = doe.toNat - doe.toNat / 1460 + doe.toNat / 36524 := by
      rw [toNat_addU (by omega), hless, hcentury]
    rw [toNat_subU (by omega), hmore, hera]
  rw [yearOfEra, ← hdays]
  exact UInt32.toNat_div _ 365

theorem toNat_doy {doe yoe : UInt32} (hyoe : yoe.toNat < 400)
    (h : daysBeforeYearOfEra yoe.toNat ≤ doe.toNat) :
    (doe - (365 * yoe + yoe / 4 - yoe / 100)).toNat
      = doe.toNat - daysBeforeYearOfEra yoe.toNat := by
  have hfour : (yoe / 4).toNat = yoe.toNat / 4 := UInt32.toNat_div yoe 4
  have hcentury : (yoe / 100).toNat = yoe.toNat / 100 := UInt32.toNat_div yoe 100
  have hunit : (365 : UInt32).toNat = 365 := rfl
  have hyears : (365 * yoe).toNat = 365 * yoe.toNat := toNat_mulU (by rw [hunit]; omega)
  have hbefore : (365 * yoe + yoe / 4 - yoe / 100).toNat = daysBeforeYearOfEra yoe.toNat := by
    have hmore : (365 * yoe + yoe / 4).toNat = 365 * yoe.toNat + yoe.toNat / 4 := by
      rw [toNat_addU (by omega), hyears, hfour]
    rw [toNat_subU (by omega), hmore, hcentury, daysBeforeYearOfEra]
  rw [toNat_subU (by omega), hbefore]

theorem toNat_mp {doy : UInt32} (h : doy.toNat < 366) :
    ((5 * doy + 2) / 153).toNat = marchMonth doy.toNat := by
  have hunit : (5 : UInt32).toNat = 5 := rfl
  have htwo : (2 : UInt32).toNat = 2 := rfl
  have hfive : (5 * doy).toNat = 5 * doy.toNat := toNat_mulU (by rw [hunit]; omega)
  have hsum : (5 * doy + 2).toNat = 5 * doy.toNat + 2 := by
    rw [toNat_addU (by omega), hfive, htwo]
  rw [marchMonth, ← hsum]
  exact UInt32.toNat_div _ 153

theorem toNat_day {doy mp : UInt32} (hdoy : doy.toNat < 366) (hmp : mp.toNat ≤ 11)
    (h : (153 * mp.toNat + 2) / 5 ≤ doy.toNat) :
    (doy - (153 * mp + 2) / 5 + 1).toNat = doy.toNat - (153 * mp.toNat + 2) / 5 + 1 := by
  have hunit : (153 : UInt32).toNat = 153 := rfl
  have htwo : (2 : UInt32).toNat = 2 := rfl
  have hone : (1 : UInt32).toNat = 1 := rfl
  have hmonths : (153 * mp).toNat = 153 * mp.toNat := toNat_mulU (by rw [hunit]; omega)
  have hsum : (153 * mp + 2).toNat = 153 * mp.toNat + 2 := by
    rw [toNat_addU (by omega), hmonths, htwo]
  have hfirst : ((153 * mp + 2) / 5).toNat = (153 * mp.toNat + 2) / 5 := by
    rw [← hsum]
    exact UInt32.toNat_div _ 5
  have hless : (doy - (153 * mp + 2) / 5).toNat = doy.toNat - (153 * mp.toNat + 2) / 5 := by
    rw [toNat_subU (by omega), hfirst]
  rw [toNat_addU (by omega), hless, hone]

theorem toNat_month {mp : UInt32} (h : mp.toNat ≤ 11) :
    (if mp < 10 then mp + 3 else mp - 9).toNat = civilMonth mp.toNat := by
  have hlt : mp < 10 ↔ mp.toNat < 10 := UInt32.lt_iff_toNat_lt
  have hthree : (3 : UInt32).toNat = 3 := rfl
  have hnine : (9 : UInt32).toNat = 9 := rfl
  rw [civilMonth]
  simp only [hlt]
  split_ifs
  · rw [toNat_addU (by omega), hthree]
  · rw [toNat_subU (by omega), hnine]

end Unsigned

/-! ## The tables -/

theorem isLeapYear_iff (y : Int32) : isLeapYear y = true ↔ IsLeap y.toInt := by
  have hmod : ∀ n : Int32, n.toInt ≠ 0 → (y % n = 0 ↔ n.toInt ∣ y.toInt) := by
    intro n _
    rw [← Int32.toInt_inj, Int32.toInt_mod]
    exact Int.dvd_iff_tmod_eq_zero.symm
  have hfour : y % 4 = 0 ↔ (4 : ℤ) ∣ y.toInt := hmod 4 (by decide)
  have hcentury : y % 100 = 0 ↔ (100 : ℤ) ∣ y.toInt := hmod 100 (by decide)
  have hera : y % 400 = 0 ↔ (400 : ℤ) ∣ y.toInt := hmod 400 (by decide)
  rw [isLeapYear, IsLeap]
  simp only [ne_eq, hfour, hcentury]
  split_ifs
  · rw [beq_iff_eq, hera]
    omega
  · exact iff_of_true rfl (by omega)
  · exact iff_of_false id (by omega)

/-- **The tables hold the days before each month.** -/
theorem cumulativeDays_eq (y : Int32) {m : ℕ} (h : 1 ≤ m ∧ m ≤ 12) :
    ((if isLeapYear y then kCumulativeDaysBeforeMonthLeap
      else kCumulativeDaysBeforeMonthNonLeap).getD (m - 1) 0).toInt = daysBeforeMonth y.toInt m := by
  have hleap : leapDay y.toInt = if isLeapYear y then 1 else 0 := if_congr (isLeapYear_iff y).symm rfl rfl
  obtain ⟨hlow, hhigh⟩ := h
  interval_cases m <;> simp only [daysBeforeMonth, daysInMonth, hleap] <;> split_ifs <;> rfl

/-! ## The calendar -/

/-- **The fields describe a second of the calendar.** Months and days are given from zero, days from one
as well. -/
structure CelCivil.Describes (c : CelCivil) (t : CivilSecond) : Prop where
  year : c.year.toInt = t.date.year
  month0 : c.month0.toInt + 1 = t.date.month
  day1 : c.day1.toInt = t.date.day
  day0 : c.day0.toInt + 1 = t.date.day
  hour : c.hour.toInt = t.hour
  minute : c.minute.toInt = t.minute
  second : c.second.toInt = t.second
  dayOfYear : c.dayOfYear.toInt = t.date.yearDay
  dayOfWeek : c.dayOfWeek.toInt = t.date.weekday

/-- An unsigned number of a few bits, as a signed one. -/
theorem toInt_ofNat32 {n : ℕ} (h : n < 2 ^ 31) : (Int32.ofNat n).toInt = n :=
  Int32.toInt_ofNat_of_lt h

/-- The hour, the minute and the second of a day. -/
theorem secs_fields {secs : Int64} (h : 0 ≤ secs.toInt ∧ secs.toInt < 86400) :
    (secs / 3600).toInt32.toInt = (secs.toInt.toNat / 3600 : ℕ) ∧
      (secs % 3600 / 60).toInt32.toInt = (secs.toInt.toNat % 3600 / 60 : ℕ) ∧
      (secs % 60).toInt32.toInt = (secs.toInt.toNat % 60 : ℕ) := by
  have hhour : (secs / 3600).toInt = secs.toInt / 3600 :=
    (toInt_div64 (by decide)).trans (Int.tdiv_eq_ediv_of_nonneg h.1)
  have hrest : (secs % 3600).toInt = secs.toInt % 3600 :=
    (Int64.toInt_mod secs 3600).trans (Int.tmod_eq_emod_of_nonneg h.1)
  have hminute : (secs % 3600 / 60).toInt = secs.toInt % 3600 / 60 := by
    rw [← hrest]
    exact (toInt_div64 (by decide)).trans (Int.tdiv_eq_ediv_of_nonneg (by omega))
  have hsecond : (secs % 60).toInt = secs.toInt % 60 :=
    (Int64.toInt_mod secs 60).trans (Int.tmod_eq_emod_of_nonneg h.1)
  refine ⟨?_, ?_, ?_⟩
  · rw [toInt_toInt32 (by omega) (by omega)]
    omega
  · rw [toInt_toInt32 (by omega) (by omega)]
    omega
  · rw [toInt_toInt32 (by omega) (by omega)]
    omega

/-- The day of the year, from the days before the month. -/
theorem toInt_dayOfYear {first day : Int32} {before n : ℕ} (hfirst : first.toInt = before)
    (hday : day.toInt = n) (hpos : 1 ≤ n) (hle : before + n ≤ 2 ^ 16) :
    (first + day - 1).toInt = (before + (n - 1) : ℕ) := by
  have hone : (1 : Int32).toInt = 1 := rfl
  have hsum : (first + day).toInt = before + n := by
    rw [toInt_add32 (by omega) (by omega), hfirst, hday]
  rw [toInt_sub32 (by omega) (by omega), hsum, hone]
  omega

/-- The year, in 32 bits. -/
theorem toInt_year {yoe m : UInt32} {era : Int64} (hyoe : yoe.toNat < 400)
    (hera : -2 ^ 30 ≤ era.toInt * 400 ∧ era.toInt * 400 ≤ 2 ^ 30) :
    ((Int64.ofNat yoe.toNat + era * 400).toInt32 + if m ≤ 2 then 1 else 0).toInt
      = yoe.toNat + era.toInt * 400 + if m.toNat ≤ 2 then 1 else 0 := by
  have hunit : (400 : Int64).toInt = 400 := rfl
  have hone : (1 : Int32).toInt = 1 := rfl
  have hofNat : (Int64.ofNat yoe.toNat).toInt = yoe.toNat := Int64.toInt_ofNat_of_lt (by omega)
  have hmul : (era * 400).toInt = era.toInt * 400 :=
    toInt_mul64 (by rw [hunit]; omega) (by rw [hunit]; omega)
  have hsum : (Int64.ofNat yoe.toNat + era * 400).toInt = yoe.toNat + era.toInt * 400 := by
    rw [toInt_add64 (by omega) (by omega), hofNat, hmul]
  have hnarrow : (Int64.ofNat yoe.toNat + era * 400).toInt32.toInt = yoe.toNat + era.toInt * 400 := by
    rw [toInt_toInt32 (by omega) (by omega), hsum]
  have hle : m ≤ 2 ↔ m.toNat ≤ 2 := UInt32.le_iff_toNat_le
  simp only [hle]
  split_ifs
  · rw [toInt_add32 (by omega) (by omega), hnarrow, hone]
  · rw [Int32.add_zero, hnarrow, add_zero]

/-- The day of the week. -/
theorem dayOfWeek_eq {days : Int64} :
    ((days % 7 + 4 + 7) % 7).toInt32.toInt = (days.toInt + 4) % 7 := by
  have hrem : (days % 7).toInt = days.toInt.tmod 7 := Int64.toInt_mod days 7
  have htmod := Int.tmod_add_tdiv_mul days.toInt 7
  have hlt := Int.tmod_lt_of_pos days.toInt (b := 7) (by decide)
  have hgt := Int.lt_tmod_of_pos days.toInt (b := 7) (by decide)
  have hfour : (days % 7 + 4).toInt = days.toInt.tmod 7 + 4 := by
    rw [← hrem]
    exact toInt_add64 (b := 4) (by rw [hrem]; change _ ≤ _ + (4 : ℤ); omega)
      (by rw [hrem]; change _ + (4 : ℤ) < _; omega)
  have hseven : (days % 7 + 4 + 7).toInt = days.toInt.tmod 7 + 11 := by
    rw [toInt_add64 (b := 7) (by rw [hfour]; change _ ≤ _ + (7 : ℤ); omega)
      (by rw [hfour]; change _ + (7 : ℤ) < _; omega), hfour, add_assoc]
    rfl
  have hweek : ((days % 7 + 4 + 7) % 7).toInt = (days.toInt + 4) % 7 := by
    rw [Int64.toInt_mod, hseven]
    change (days.toInt.tmod 7 + 11).tmod 7 = _
    rw [Int.tmod_eq_emod_of_nonneg (by omega)]
    omega
  rw [toInt_toInt32 (by omega) (by omega), hweek]

/-- **The date of a day.** -/
theorem civilFromDays_eq {days : Int64} (h : -2 ^ 38 ≤ days.toInt ∧ days.toInt ≤ 2 ^ 38) :
    ∃ d : Date, d.number = days.toInt ∧ (civilFromDays days).1.toInt = d.year ∧
      (civilFromDays days).2.1.toNat = d.month ∧ (civilFromDays days).2.2.toNat = d.day := by
  obtain ⟨hera, hdoe⟩ := @eraOf_eq days (by omega)
  rw [civilFromDays]
  generalize eraOf days = era at hera hdoe ⊢
  obtain ⟨era, doe⟩ := era
  dsimp only at hera hdoe ⊢
  have hdoe' : doe.toNat < 146097 := by omega
  obtain ⟨hyoe, hbefore, hdoy⟩ := yearOfEra_spec hdoe'
  obtain ⟨d, hyear, hmonth, hday, hnumber⟩ := exists_date era.toInt hdoe'
  have hyoe' := toNat_yoe hdoe'
  generalize (doe - doe / 1460 + doe / 36524 - doe / 146096) / 365 = yoe at hyoe' ⊢
  rw [← hyoe'] at hyoe hbefore hdoy hyear hmonth hday
  have hdoy' := toNat_doy hyoe hbefore
  generalize doe - (365 * yoe + yoe / 4 - yoe / 100) = doy at hdoy' ⊢
  replace hdoy := hdoy era.toInt
  have hleap := leapDay_le (yoe.toNat + era.toInt * 400 + 1)
  rw [← hdoy'] at hdoy hyear hmonth hday
  have hmp := @toNat_mp doy (by omega)
  obtain ⟨hmp11, hfirst, -⟩ := @marchMonth_spec doy.toNat (by omega)
  generalize (5 * doy + 2) / 153 = mp at hmp ⊢
  rw [← hmp] at hmp11 hfirst hyear hmonth hday
  have hm := toNat_month hmp11
  refine ⟨d, by omega, ?_, ?_, ?_⟩
  · rw [toInt_year hyoe (by omega), hm, hyear]
    rfl
  · rw [hm, hmonth]
  · rw [toNat_day (by omega) hmp11 hfirst, hday]

/-- **`cel_civil_from_seconds` is the Gregorian calendar.** -/
theorem celCivilFromSeconds_describes {s : Int64} (h : -2 ^ 54 ≤ s.toInt ∧ s.toInt ≤ 2 ^ 54) :
    ∃ t : CivilSecond, t.epochSeconds = s.toInt ∧ (celCivilFromSeconds s).Describes t := by
  obtain ⟨hdays, hsecs⟩ := splitDays_eq s
  rw [celCivilFromSeconds]
  generalize splitDays s = split at hdays hsecs ⊢
  obtain ⟨days, secs⟩ := split
  dsimp only at hdays hsecs ⊢
  obtain ⟨d, hnumber, hyear, hmonth, hday⟩ := @civilFromDays_eq days (by omega)
  generalize civilFromDays days = date at hyear hmonth hday ⊢
  obtain ⟨y, m, dd⟩ := date
  dsimp only at hyear hmonth hday ⊢
  have hmonths := d.month_bounds
  have hpos := d.day_pos
  have hle : d.day ≤ 31 := d.day_le.trans (daysInMonth_le _ _)
  have hone : (1 : Int32).toInt = 1 := rfl
  have hm32 : (Int32.ofNat m.toNat).toInt = d.month := by
    rw [toInt_ofNat32 (by omega), hmonth]
  have hd32 : (Int32.ofNat dd.toNat).toInt = d.day := by
    rw [toInt_ofNat32 (by omega), hday]
  have hmonth0 : (Int32.ofNat m.toNat - 1).toInt = d.month - 1 := by
    rw [toInt_sub32 (by omega) (by omega), hm32, hone]
  have hday0 : (Int32.ofNat dd.toNat - 1).toInt = d.day - 1 := by
    rw [toInt_sub32 (by omega) (by omega), hd32, hone]
  have hindex : (Int32.ofNat m.toNat - 1).toInt.toNat = d.month - 1 := by omega
  have htable := cumulativeDays_eq y hmonths
  rw [hyear, ← hindex] at htable
  have hbefore := daysBeforeMonth_mono (y := d.year) (show d.month ≤ 13 by omega)
  rw [daysBeforeMonth_year] at hbefore
  have hleap := leapDay_le d.year
  have hyearDay := toInt_dayOfYear htable hd32 hpos (by omega)
  obtain ⟨hhour, hminute, hsecond⟩ := @secs_fields secs (by omega)
  refine ⟨.ofSecondOfDay d secs.toInt.toNat (by omega), ?_, ?_⟩
  · rw [CivilSecond.epochSeconds_ofSecondOfDay]
    omega
  · constructor
    · exact hyear
    · change (Int32.ofNat m.toNat - 1).toInt + 1 = (d.month : ℤ)
      omega
    · exact hd32
    · change (Int32.ofNat dd.toNat - 1).toInt + 1 = (d.day : ℤ)
      omega
    · exact hhour
    · exact hminute
    · exact hsecond
    · exact hyearDay
    · change _ = (d.number + 4) % 7
      rw [hnumber]
      exact dayOfWeek_eq

/-- **Civil decomposition is the calendar.** Of every second in the range of timestamps there is one
second of the calendar that composes to it, and it is the one described: with a month of the year and a
day of the month, in a leap year as well, and with the calendar's days of the week and of the year. -/
theorem celCivilFromSeconds_calendar {s : Int64}
    (h : -62135596800 ≤ s.toInt ∧ s.toInt ≤ 253402300799) :
    ∃ t : CivilSecond, t.epochSeconds = s.toInt ∧ (∀ t' : CivilSecond, t'.epochSeconds = s.toInt → t' = t) ∧
      (1 ≤ t.date.month ∧ t.date.month ≤ 12) ∧
      (1 ≤ t.date.day ∧ t.date.day ≤ daysInMonth t.date.year t.date.month) ∧
      (celCivilFromSeconds s).Describes t := by
  obtain ⟨t, hseconds, hdescribes⟩ := celCivilFromSeconds_describes (s := s) (by omega)
  exact ⟨t, hseconds, fun t' h' => CivilSecond.epochSeconds_injective (h'.trans hseconds.symm),
    t.date.month_bounds, ⟨t.date.day_pos, t.date.day_le⟩, hdescribes⟩

/-- The last second before the epoch. -/
theorem celCivilFromSeconds_calendar_beforeEpoch :
    ∃ t : CivilSecond, t.epochSeconds = -1 ∧ (celCivilFromSeconds (-1)).Describes t := by
  obtain ⟨t, hseconds, -, -, -, hdescribes⟩ := celCivilFromSeconds_calendar (s := -1) (by decide)
  exact ⟨t, hseconds, hdescribes⟩

end CelWasm
