import Mathlib.Data.Int.Basic
import Mathlib.Data.Nat.Notation
import Mathlib.Tactic.IntervalCases

/-!
# Library/Gregorian — the proleptic Gregorian calendar

A date is a year, a month and a day that the month has. Dates are numbered, the first of January 1970
being day zero, and every number is of one date. Which date it is comes out of a count that begins in
March: the leap day is then the last of a year, 400 years are 146097 days, and within them the year is
a division of the day with three corrections.

    day ──▸ (era, day of the era) ──▸ (year, day of the year) ──▸ (month, day of the month)
-/

namespace CelWasm.Gregorian

/-! ## Years and months -/

/-- A leap year. -/
def IsLeap (y : ℤ) : Prop := y % 4 = 0 ∧ (y % 100 ≠ 0 ∨ y % 400 = 0)

instance (y : ℤ) : Decidable (IsLeap y) := inferInstanceAs (Decidable (_ ∧ _))

/-- The leap day of a year, if it has one. -/
def leapDay (y : ℤ) : ℕ := if IsLeap y then 1 else 0

theorem leapDay_le (y : ℤ) : leapDay y ≤ 1 := by
  rw [leapDay]
  split_ifs <;> decide

/-- The length of a month, 1 to 12. -/
def daysInMonth (y : ℤ) : ℕ → ℕ
  | 1 | 3 | 5 | 7 | 8 | 10 | 12 => 31
  | 4 | 6 | 9 | 11 => 30
  | 2 => 28 + leapDay y
  | _ => 0

/-- The days of a year that are before a month. -/
def daysBeforeMonth (y : ℤ) : ℕ → ℕ
  | 0 => 0
  | m + 1 => daysBeforeMonth y m + daysInMonth y m

/-- The days from the first of January of year 1 to the first of a year. -/
def daysBeforeYear (y : ℤ) : ℤ := 365 * (y - 1) + (y - 1) / 4 - (y - 1) / 100 + (y - 1) / 400

theorem daysInMonth_le (y : ℤ) (m : ℕ) : daysInMonth y m ≤ 31 := by
  have h := leapDay_le y
  unfold daysInMonth
  split <;> omega

theorem daysInMonth_pos {y : ℤ} {m : ℕ} (h : 0 < daysInMonth y m) : 1 ≤ m ∧ m ≤ 12 := by
  unfold daysInMonth at h
  split at h <;> omega

theorem daysBeforeMonth_mono {y : ℤ} {m n : ℕ} (h : m ≤ n) :
    daysBeforeMonth y m ≤ daysBeforeMonth y n := by
  induction h with
  | refl => exact le_rfl
  | step _ ih => exact ih.trans (Nat.le_add_right _ _)

/-- From March on the months are in step: 31, 30, 31, 30, 31 days and over again. -/
theorem daysBeforeMonth_march (y : ℤ) {i : ℕ} (h : i ≤ 10) :
    daysBeforeMonth y (i + 3) = 59 + leapDay y + (153 * i + 2) / 5 := by
  interval_cases i <;> simp only [daysBeforeMonth, daysInMonth] <;> omega

/-- A year is its twelve months. -/
theorem daysBeforeMonth_year (y : ℤ) : daysBeforeMonth y 13 = 365 + leapDay y := by
  rw [daysBeforeMonth_march y le_rfl]
  omega

/-- The leap day moves what is counted by fours up to the year itself. -/
theorem daysBeforeYear_add_leapDay (y : ℤ) :
    daysBeforeYear y + leapDay y = 365 * (y - 1) + y / 4 - y / 100 + y / 400 := by
  rw [daysBeforeYear, leapDay]
  split_ifs with h <;> rw [IsLeap] at h <;> omega

/-- **A year follows on the days of the year before.** -/
theorem daysBeforeYear_succ (y : ℤ) :
    daysBeforeYear (y + 1) = daysBeforeYear y + (365 + leapDay y : ℕ) := by
  have h := daysBeforeYear_add_leapDay y
  have hnext : daysBeforeYear (y + 1) = 365 * y + y / 4 - y / 100 + y / 400 := by
    rw [daysBeforeYear, Int.add_sub_cancel]
  omega

theorem daysBeforeYear_mono {y z : ℤ} (h : y ≤ z) : daysBeforeYear y ≤ daysBeforeYear z := by
  induction z, h using Int.leInduction with
  | base => exact le_rfl
  | succ z _ ih =>
    rw [daysBeforeYear_succ]
    omega

/-! ## Dates -/

/-- **A date**: the day is one that the month has. -/
@[ext] structure Date where
  year : ℤ
  month : ℕ
  day : ℕ
  day_pos : 1 ≤ day
  day_le : day ≤ daysInMonth year month

namespace Date

theorem month_bounds (d : Date) : 1 ≤ d.month ∧ d.month ≤ 12 :=
  daysInMonth_pos (Nat.lt_of_lt_of_le d.day_pos d.day_le)

/-- The day of the year, the first of January being day zero. -/
def yearDay (d : Date) : ℕ := daysBeforeMonth d.year d.month + (d.day - 1)

/-- **The number of a date**, in days from the first of January 1970. -/
def number (d : Date) : ℤ := daysBeforeYear d.year + d.yearDay - 719162

example : (⟨1970, 1, 1, by decide, by decide⟩ : Date).number = 0 := by decide

/-- The day of the week, Sunday being day zero; the day numbered zero is a Thursday. -/
def weekday (d : Date) : ℤ := (d.number + 4) % 7

/-- A day is before the months after its own. -/
theorem yearDay_lt {d : Date} {n : ℕ} (h : d.month < n) : d.yearDay < daysBeforeMonth d.year n := by
  have hmono : daysBeforeMonth d.year (d.month + 1) ≤ daysBeforeMonth d.year n := daysBeforeMonth_mono h
  have hpos := d.day_pos
  have hle := d.day_le
  rw [daysBeforeMonth] at hmono
  rw [yearDay]
  omega

/-- …and before the years after its own. -/
theorem number_lt_of_year_lt {d e : Date} (h : d.year < e.year) : d.number < e.number := by
  have hlt := yearDay_lt (d := d) (n := 13) (by have := d.month_bounds; omega)
  have hnext := daysBeforeYear_succ d.year
  have hmono : daysBeforeYear (d.year + 1) ≤ daysBeforeYear e.year := daysBeforeYear_mono h
  rw [daysBeforeMonth_year] at hlt
  rw [number, number]
  omega

/-- **There is one date of a number.** -/
theorem number_injective : Function.Injective number := by
  intro d e h
  have hyear : d.year = e.year := by
    obtain hlt | heq | hgt := lt_trichotomy d.year e.year
    · exact absurd h (number_lt_of_year_lt hlt).ne
    · exact heq
    · exact absurd h (number_lt_of_year_lt hgt).ne'
  have hday : d.yearDay = e.yearDay := by
    rw [number, number, hyear] at h
    omega
  have hmonth : d.month = e.month := by
    obtain hlt | heq | hgt := lt_trichotomy d.month e.month
    · have hd := yearDay_lt hlt
      have he : daysBeforeMonth e.year e.month ≤ e.yearDay := Nat.le_add_right _ _
      rw [hyear] at hd
      omega
    · exact heq
    · have he := yearDay_lt hgt
      have hd : daysBeforeMonth d.year d.month ≤ d.yearDay := Nat.le_add_right _ _
      rw [hyear] at hd
      omega
  rw [yearDay, yearDay, hyear, hmonth] at hday
  have hd := d.day_pos
  have he := e.day_pos
  exact Date.ext hyear hmonth (by omega)

end Date

/-! ## The count from March

A year of this count begins on the first of March. Four hundred of them are an era; of its days, a
century takes 36524, four years take 1461 and a year 365, and what is left over is a leap day at the
end. -/

/-- The year of a day of the era. -/
def yearOfEra (doe : ℕ) : ℕ := (doe - doe / 1460 + doe / 36524 - doe / 146096) / 365

/-- The days of the era before a year of it. -/
def daysBeforeYearOfEra (yoe : ℕ) : ℕ := 365 * yoe + yoe / 4 - yoe / 100

/-- The month of a day of such a year, March being month zero. -/
def marchMonth (doy : ℕ) : ℕ := (5 * doy + 2) / 153

/-- A month of the count, as January to December. -/
def civilMonth (mp : ℕ) : ℕ := if mp < 10 then mp + 3 else mp - 9

/-- A day of the era as centuries, four years, years and days; the leap days are the last. -/
theorem exists_parts {doe : ℕ} (h : doe < 146097) : ∃ c q k u, c ≤ 3 ∧ q ≤ 24 ∧ k ≤ 3 ∧ u ≤ 365 ∧
    (u = 365 → k = 3 ∧ (q = 24 → c = 3)) ∧ doe = 36524 * c + 1461 * q + 365 * k + u := by
  obtain ⟨c, hc⟩ : ∃ c, c = min 3 (doe / 36524) := ⟨_, rfl⟩
  have hrest : doe - 36524 * c ≤ 36524 ∧ (doe - 36524 * c = 36524 → c = 3) := by omega
  obtain ⟨t, ht⟩ : ∃ t, t = (doe - 36524 * c) % 1461 := ⟨_, rfl⟩
  refine ⟨c, (doe - 36524 * c) / 1461, min 3 (t / 365), t - 365 * min 3 (t / 365), ?_⟩
  omega

/-- **The corrected division finds the year.** -/
theorem yearOfEra_parts {c q k u : ℕ} (hc : c ≤ 3) (hq : q ≤ 24) (hk : k ≤ 3) (hu : u ≤ 365)
    (hlast : u = 365 → k = 3 ∧ (q = 24 → c = 3)) :
    yearOfEra (36524 * c + 1461 * q + 365 * k + u) = 100 * c + 4 * q + k := by
  obtain ⟨t, ht⟩ : ∃ t, t = 365 * k + u := ⟨_, rfl⟩
  obtain ⟨doe, hdoe⟩ : ∃ doe, doe = 36524 * c + 1461 * q + t := ⟨_, rfl⟩
  have hfour : doe / 1460 = 25 * c + q + (24 * c + q + t) / 1460 := by omega
  -- only the last day of an era is in a fifth century
  have hcentury : doe / 36524 = c + if t = 1460 ∧ q = 24 then 1 else 0 := by split_ifs <;> omega
  have hera : doe / 146096 = if t = 1460 ∧ q = 24 then 1 else 0 := by split_ifs <;> omega
  rw [Nat.add_assoc _ (365 * k), ← ht, ← hdoe, yearOfEra, hfour, hcentury, hera]
  split_ifs <;> omega

theorem daysBeforeYearOfEra_parts {c q k : ℕ} (hq : q ≤ 24) (hk : k ≤ 3) :
    daysBeforeYearOfEra (100 * c + 4 * q + k) = 36524 * c + 1461 * q + 365 * k := by
  rw [daysBeforeYearOfEra]
  omega

/-- **What the year of the era leaves**: a day of it, the last one only where there is a leap day. -/
theorem yearOfEra_spec {doe : ℕ} (h : doe < 146097) :
    yearOfEra doe < 400 ∧ daysBeforeYearOfEra (yearOfEra doe) ≤ doe ∧
      ∀ era : ℤ, doe - daysBeforeYearOfEra (yearOfEra doe) < 365
        + leapDay (yearOfEra doe + era * 400 + 1) := by
  obtain ⟨c, q, k, u, hc, hq, hk, hu, hlast, rfl⟩ := exists_parts h
  rw [yearOfEra_parts hc hq hk hu hlast, daysBeforeYearOfEra_parts hq hk]
  refine ⟨by omega, by omega, fun era => ?_⟩
  rw [leapDay]
  by_cases hleap : u = 365
  · obtain ⟨rfl, hcentury⟩ := hlast hleap
    rw [if_pos]
    · omega
    · rw [IsLeap]
      omega
  · omega

/-- The days before a year, by the count. -/
theorem daysBeforeYear_era {yoe : ℕ} (h : yoe < 400) (era : ℤ) :
    daysBeforeYear (yoe + era * 400 + 1) = 146097 * era + daysBeforeYearOfEra yoe := by
  rw [daysBeforeYear, daysBeforeYearOfEra]
  omega

/-- A month of the count begins on a day of it, and its days come out of the division. -/
theorem marchMonth_spec {doy : ℕ} (h : doy < 366) : marchMonth doy ≤ 11 ∧
    (153 * marchMonth doy + 2) / 5 ≤ doy ∧ doy < (153 * (marchMonth doy + 1) + 2) / 5 := by
  rw [marchMonth]
  omega

/-- The year of a day. -/
def yearOf (era : ℤ) (yoe mp : ℕ) : ℤ := yoe + era * 400 + if civilMonth mp ≤ 2 then 1 else 0

/-- **A day of the count is a day of the calendar.** -/
theorem exists_date (era : ℤ) {doe : ℕ} (h : doe < 146097) :
    let doy := doe - daysBeforeYearOfEra (yearOfEra doe)
    ∃ d : Date, d.year = yearOf era (yearOfEra doe) (marchMonth doy) ∧
      d.month = civilMonth (marchMonth doy) ∧
      d.day = doy - (153 * marchMonth doy + 2) / 5 + 1 ∧
      d.number = 146097 * era + doe - 719468 := by
  obtain ⟨hyoe, hbefore, hdoy⟩ := yearOfEra_spec h
  have hera := daysBeforeYear_era hyoe era
  replace hdoy := hdoy era
  have hleap := leapDay_le (yearOfEra doe + era * 400 + 1)
  generalize yearOfEra doe = yoe at hyoe hbefore hdoy hera hleap ⊢
  obtain ⟨doy, hdoy'⟩ : ∃ doy, doy = doe - daysBeforeYearOfEra yoe := ⟨_, rfl⟩
  obtain ⟨hmonth, hfirst, hnext⟩ := @marchMonth_spec doy (by omega)
  dsimp only
  rw [← hdoy'] at hdoy ⊢
  generalize marchMonth doy = mp at hmonth hfirst hnext ⊢
  by_cases hmp : mp < 10
  · have hcivil : civilMonth mp = mp + 3 := if_pos hmp
    have hyear : yearOf era yoe mp = yoe + era * 400 := by
      rw [yearOf, hcivil, if_neg (by omega), add_zero]
    have hmarch := daysBeforeMonth_march (yoe + era * 400) (i := mp) (by omega)
    have hmarch' := daysBeforeMonth_march (yoe + era * 400) (i := mp + 1) (by omega)
    have hjanuary := daysBeforeYear_succ (yoe + era * 400)
    rw [Nat.add_right_comm, daysBeforeMonth] at hmarch'
    rw [hcivil, hyear]
    refine ⟨⟨yoe + era * 400, mp + 3, doy - (153 * mp + 2) / 5 + 1, by omega, by omega⟩, rfl, rfl, rfl,
      ?_⟩
    rw [Date.number, Date.yearDay]
    dsimp only
    omega
  · have hcivil : civilMonth mp = mp - 9 := if_neg hmp
    have hyear : yearOf era yoe mp = yoe + era * 400 + 1 := by
      rw [yearOf, hcivil, if_pos (by omega)]
    rw [hcivil, hyear]
    obtain rfl | rfl : mp = 10 ∨ mp = 11 := by omega
    · refine ⟨⟨yoe + era * 400 + 1, 1, doy - 306 + 1, by omega, ?_⟩, rfl, rfl, rfl, ?_⟩
      · change doy - 306 + 1 ≤ 31
        omega
      · rw [Date.number, Date.yearDay]
        change daysBeforeYear (yoe + era * 400 + 1) + ((0 + 0 + (doy - 306 + 1 - 1) : ℕ) : ℤ) - 719162 = _
        omega
    · refine ⟨⟨yoe + era * 400 + 1, 2, doy - 337 + 1, by omega, ?_⟩, rfl, rfl, rfl, ?_⟩
      · change doy - 337 + 1 ≤ 28 + leapDay (yoe + era * 400 + 1)
        omega
      · rw [Date.number, Date.yearDay]
        change daysBeforeYear (yoe + era * 400 + 1) + ((0 + 0 + 31 + (doy - 337 + 1 - 1) : ℕ) : ℤ)
          - 719162 = _
        omega

/-- **The date of a number.** -/
def Date.ofNumber (n : ℤ) : Date :=
  let era := (n + 719468) / 146097
  let doe := ((n + 719468) % 146097).toNat
  let doy := doe - daysBeforeYearOfEra (yearOfEra doe)
  let mp := marchMonth doy
  { year := yearOf era (yearOfEra doe) mp
    month := civilMonth mp
    day := doy - (153 * mp + 2) / 5 + 1
    day_pos := Nat.le_add_left 1 _
    day_le := by
      obtain ⟨d, hyear, hmonth, hday, -⟩ := @exists_date era doe (by omega)
      rw [← hyear, ← hmonth, ← hday]
      exact d.day_le }

theorem Date.number_ofNumber (n : ℤ) : (Date.ofNumber n).number = n := by
  obtain ⟨d, hyear, hmonth, hday, hnumber⟩ :=
    @exists_date ((n + 719468) / 146097) ((n + 719468) % 146097).toNat (by omega)
  have heq : Date.ofNumber n = d := Date.ext hyear.symm hmonth.symm hday.symm
  rw [heq, hnumber]
  omega

/-! ## Seconds -/

/-- **A second of the calendar**: a date, and the hour, the minute and the second of the day. -/
structure CivilSecond where
  date : Date
  hour : ℕ
  minute : ℕ
  second : ℕ
  hour_lt : hour < 24
  minute_lt : minute < 60
  second_lt : second < 60

namespace CivilSecond

/-- Its second of the day. -/
def secondOfDay (t : CivilSecond) : ℕ := t.hour * 3600 + t.minute * 60 + t.second

/-- **The seconds from the first of January 1970**, in days of 86400 seconds. -/
def epochSeconds (t : CivilSecond) : ℤ := t.date.number * 86400 + t.secondOfDay

/-- **There is one second of the calendar for a number of seconds.** -/
theorem epochSeconds_injective : Function.Injective epochSeconds := by
  rintro ⟨d, h, m, s, hh, hm, hs⟩ ⟨d', h', m', s', hh', hm', hs'⟩ heq
  rw [epochSeconds, epochSeconds, secondOfDay, secondOfDay] at heq
  dsimp only at heq
  obtain rfl := @Date.number_injective d d' (by omega)
  obtain ⟨rfl, rfl, rfl⟩ : h = h' ∧ m = m' ∧ s = s' := by omega
  rfl

/-- The second of a day. -/
def ofSecondOfDay (d : Date) (secs : ℕ) (h : secs < 86400) : CivilSecond :=
  ⟨d, secs / 3600, secs % 3600 / 60, secs % 60, by omega, by omega, by omega⟩

theorem epochSeconds_ofSecondOfDay {d : Date} {secs : ℕ} (h : secs < 86400) :
    (ofSecondOfDay d secs h).epochSeconds = d.number * 86400 + secs := by
  rw [epochSeconds, secondOfDay, ofSecondOfDay]
  dsimp only
  omega

/-- **The second of the calendar of a count.** -/
def ofEpochSeconds (s : ℤ) : CivilSecond :=
  ofSecondOfDay (.ofNumber (s / 86400)) (s % 86400).toNat (by omega)

theorem epochSeconds_ofEpochSeconds (s : ℤ) : (ofEpochSeconds s).epochSeconds = s := by
  rw [ofEpochSeconds, epochSeconds_ofSecondOfDay, Date.number_ofNumber]
  omega

end CivilSecond

end CelWasm.Gregorian
