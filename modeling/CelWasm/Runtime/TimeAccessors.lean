import CelWasm.Runtime.Civil
import CelWasm.Runtime.SlotStrings

/-!
# Runtime/TimeAccessors — the fields of a timestamp, and integers

The accessors of `cel_time.c` that take no zone project the second count onto the calendar, each in a
kernel of its own; the milliseconds come out of the nanoseconds instead. The conversions to an integer
and from one keep the seconds.
-/

namespace CelWasm

open CellProg Gregorian

/-! ## One operand -/

/-- A kernel of one operand: absorption, a check of the kind, and a result from the payload. -/
def unaryKernelAt {α : Type} (want : CelKind) (mismatch : CelErr) (arm : CelValue → Option α)
    (compute : α → CelValue) (out a : Slot) : SlotKernel Unit := do
  if ← absorb3vlUnaryAt out a then return
  if (← loadKind a) ≠ want then poisonAt out mismatch
  else store out (compute (← payload arm a))

/-- What it comes to. -/
def unaryKernel {α : Type} (want : CelKind) (mismatch : CelErr) (arm : CelValue → Option α)
    (compute : α → CelValue) (a : CelValue) : Kernel CelValue :=
  unlessAbsorbedUnary a <|
    if a.kind ≠ want then return .error mismatch
    else do
      let x ← (arm a).elim (Prog.stop .wildRead) pure
      return compute x

theorem computes_unaryKernelAt {α : Type} (want : CelKind) (mismatch : CelErr)
    (arm : CelValue → Option α) (compute : α → CelValue) (a : Slot) :
    Computes (unaryKernelAt want mismatch arm compute · a) fun cells =>
      unaryKernel want mismatch arm compute (cells a) :=
  computes_unlessAbsorbedUnary a <| .read (reads_loadKind a) fun _ =>
    .ite (computes_store _) (.read (reads_payload arm a) fun _ => computes_store _)

/-! ## The accessors -/

/-- `DEFINE_TS_ACCESSOR`. -/
def tsAccessorAt (projection : CelCivil → Int32) : Slot → Slot → SlotKernel Unit :=
  unaryKernelAt .timestamp .typeMismatch CelValue.durTs? fun ts =>
    .int (projection (celCivilFromSeconds ts.seconds)).toInt64

/-- `cel_ts_year_utc_at_v`. -/
def celTsYearUtcAt : Slot → Slot → SlotKernel Unit := tsAccessorAt (·.year)

/-- `cel_ts_month_utc_at_v`. -/
def celTsMonthUtcAt : Slot → Slot → SlotKernel Unit := tsAccessorAt (·.month0)

/-- `cel_ts_day_of_month_1_utc_at_v`. -/
def celTsDayOfMonth1UtcAt : Slot → Slot → SlotKernel Unit := tsAccessorAt (·.day1)

/-- `cel_ts_day_of_month_utc_at_v`. -/
def celTsDayOfMonthUtcAt : Slot → Slot → SlotKernel Unit := tsAccessorAt (·.day0)

/-- `cel_ts_day_of_year_utc_at_v`. -/
def celTsDayOfYearUtcAt : Slot → Slot → SlotKernel Unit := tsAccessorAt (·.dayOfYear)

/-- `cel_ts_day_of_week_utc_at_v`. -/
def celTsDayOfWeekUtcAt : Slot → Slot → SlotKernel Unit := tsAccessorAt (·.dayOfWeek)

/-- `cel_ts_hours_utc_at_v`. -/
def celTsHoursUtcAt : Slot → Slot → SlotKernel Unit := tsAccessorAt (·.hour)

/-- `cel_ts_minutes_utc_at_v`. -/
def celTsMinutesUtcAt : Slot → Slot → SlotKernel Unit := tsAccessorAt (·.minute)

/-- `cel_ts_seconds_utc_at_v`. -/
def celTsSecondsUtcAt : Slot → Slot → SlotKernel Unit := tsAccessorAt (·.second)

/-- The milliseconds of the second that nanoseconds are in, which go back from it when negative. -/
def millisecondsIn (n : Int32) : Int32 := (if n < 0 then n + 1000000000 else n) / 1000000

/-- `cel_ts_milliseconds_utc_at_v`. -/
def celTsMillisecondsUtcAt : Slot → Slot → SlotKernel Unit :=
  unaryKernelAt .timestamp .typeMismatch CelValue.durTs? fun ts =>
    .int (millisecondsIn ts.nanos).toInt64

/-- The accessor without a zone. -/
def TzAccessorKind.utcAt : TzAccessorKind → Slot → Slot → SlotKernel Unit
  | year => celTsYearUtcAt
  | month => celTsMonthUtcAt
  | dayOfMonth1 => celTsDayOfMonth1UtcAt
  | dayOfMonth => celTsDayOfMonthUtcAt
  | dayOfYear => celTsDayOfYearUtcAt
  | dayOfWeek => celTsDayOfWeekUtcAt
  | hours => celTsHoursUtcAt
  | minutes => celTsMinutesUtcAt
  | seconds => celTsSecondsUtcAt
  | milliseconds => celTsMillisecondsUtcAt

/-! ## Integers -/

/-- `cel_ts_to_int_at_v`. -/
def celTsToIntAt : Slot → Slot → SlotKernel Unit :=
  unaryKernelAt .timestamp .typeMismatch CelValue.durTs? fun ts => .int ts.seconds

/-- `cel_int_to_ts_at_v`. -/
def celIntToTsAt : Slot → Slot → SlotKernel Unit :=
  unaryKernelAt .int .typeMismatch CelValue.int? fun s =>
    if timestampInRange ⟨s, 0⟩ then .timestamp ⟨s, 0⟩ else .error .overflow

/-- `payload_in_range`. -/
def payloadInRange (d : CelDurTs) (lo hi : Int64) : Bool :=
  if hi < d.seconds || d.seconds < lo then false
  else if d.seconds == hi && 0 < d.nanos then false
  else !(d.seconds == lo && d.nanos < 0)

/-- `duration_in_range`. -/
def durationInRange (d : CelDurTs) : Bool := payloadInRange d (-315576000000) 315576000000

/-- `cel_int_to_dur_at_v`. -/
def celIntToDurAt : Slot → Slot → SlotKernel Unit :=
  unaryKernelAt .int .typeMismatch CelValue.int? fun s =>
    if durationInRange ⟨s, 0⟩ then .duration ⟨s, 0⟩ else .error .overflow

/-! ## What they write -/

section Written

variable {ts : CelDurTs} {s : Slot} {cells : Slot → CelValue}

/-- A kernel on a timestamp. -/
theorem run_unaryKernelAt_timestamp {mismatch : CelErr} {compute : CelDurTs → CelValue}
    (h : cells s = .timestamp ts) (out : Slot) :
    (unaryKernelAt .timestamp mismatch CelValue.durTs? compute out s).run cells
      = pure ((), Function.update cells out (compute ts)) := by
  rw [computes_unaryKernelAt .timestamp mismatch CelValue.durTs? compute s out cells]
  simp only [h]
  rfl

theorem run_tsAccessorAt (projection : CelCivil → Int32) (h : cells s = .timestamp ts) (out : Slot) :
    (tsAccessorAt projection out s).run cells = pure ((), Function.update cells out
      (.int (projection (celCivilFromSeconds ts.seconds)).toInt64)) :=
  run_unaryKernelAt_timestamp h out

theorem run_celTsToIntAt (h : cells s = .timestamp ts) (out : Slot) :
    (celTsToIntAt out s).run cells = pure ((), Function.update cells out (.int ts.seconds)) :=
  run_unaryKernelAt_timestamp h out

end Written

/-! ## What they are to write -/

/-- **The field of an instant**, given its second of the calendar and the milliseconds past it. -/
def TzAccessorKind.of (t : CivilSecond) (millis : ℤ) : TzAccessorKind → ℤ
  | year => t.date.year
  | month => t.date.month - 1
  | dayOfMonth1 => t.date.day
  | dayOfMonth => t.date.day - 1
  | dayOfYear => t.date.yearDay
  | dayOfWeek => t.date.weekday
  | hours => t.hour
  | minutes => t.minute
  | seconds => t.second
  | milliseconds => millis

/-- An instant is known by its fields. -/
theorem eq_of_fields {t t' : CivilSecond} {millis millis' : ℤ}
    (h : ∀ kind : TzAccessorKind, kind.of t millis = kind.of t' millis') : t = t' := by
  obtain ⟨d, hh, hm, hs, _, _, _⟩ := t
  obtain ⟨d', hh', hm', hs', _, _, _⟩ := t'
  have hyear : d.year = d'.year := h .year
  have hmonth : (d.month : ℤ) - 1 = d'.month - 1 := h .month
  have hday : (d.day : ℤ) = d'.day := h .dayOfMonth1
  obtain rfl : d = d' := Date.ext hyear (by omega) (by omega)
  obtain rfl : hh = hh' := Int.ofNat.inj (h .hours)
  obtain rfl : hm = hm' := Int.ofNat.inj (h .minutes)
  obtain rfl : hs = hs' := Int.ofNat.inj (h .seconds)
  rfl

/-- The second a timestamp is in. -/
def CelDurTs.floorSecond (ts : CelDurTs) : ℤ := ts.totalNanos / 10 ^ 9

/-- …and the milliseconds past it. -/
def CelDurTs.floorMillis (ts : CelDurTs) : ℤ := ts.totalNanos % 10 ^ 9 / 10 ^ 6

section Floor

variable {ts : CelDurTs} (hts : ts.Canonical)

include hts

/-- Negative nanoseconds go back into the second before. -/
theorem floorSecond_eq :
    ts.floorSecond = if 0 ≤ ts.nanos.toInt then ts.seconds.toInt else ts.seconds.toInt - 1 := by
  obtain ⟨hhi, hlo, -, -⟩ := hts
  rw [CelDurTs.floorSecond, CelDurTs.totalNanos, units]
  split_ifs <;> omega

/-- **The milliseconds are right** on either side of the epoch. -/
theorem toInt_millisecondsIn : (millisecondsIn ts.nanos).toInt = ts.floorMillis := by
  obtain ⟨hhi, hlo, -, -⟩ := hts
  have hborrow : (if ts.nanos < 0 then ts.nanos + 1000000000 else ts.nanos).toInt
      = ts.totalNanos % 10 ^ 9 := by
    have hneg : ts.nanos < 0 ↔ ts.nanos.toInt < 0 := Int32.lt_iff_toInt_lt
    rw [CelDurTs.totalNanos, units]
    simp only [hneg]
    split_ifs
    · change (ts.nanos + nanosPerSec).toInt = _
      rw [toInt_add32 (by rw [toInt_nanosPerSec]; omega) (by rw [toInt_nanosPerSec]; omega),
        toInt_nanosPerSec]
      omega
    · omega
  have hdivisor : (1000000 : Int32).toInt = 10 ^ 6 := rfl
  rw [millisecondsIn, Int32.toInt_div_of_ne_right _ _ (by decide), hborrow, hdivisor,
    Int.tdiv_eq_ediv_of_nonneg (Int.emod_nonneg _ (by decide)), CelDurTs.floorMillis]

end Floor

/-- **The fields come out right of a second that is described.** -/
theorem run_utcAt {ts : CelDurTs} (hts : ts.Canonical) {t : CivilSecond}
    (ht : (celCivilFromSeconds ts.seconds).Describes t) {s : Slot} {cells : Slot → CelValue}
    (h : cells s = .timestamp ts) (out : Slot) (kind : TzAccessorKind) :
    ∃ v : Int32, (kind.utcAt out s).run cells
        = pure ((), Function.update cells out (.int v.toInt64)) ∧
      v.toInt = kind.of t ts.floorMillis := by
  cases kind with
  | year => exact ⟨_, run_tsAccessorAt (·.year) h out, ht.year⟩
  | month => exact ⟨_, run_tsAccessorAt (·.month0) h out, eq_sub_of_add_eq ht.month0⟩
  | dayOfMonth1 => exact ⟨_, run_tsAccessorAt (·.day1) h out, ht.day1⟩
  | dayOfMonth => exact ⟨_, run_tsAccessorAt (·.day0) h out, eq_sub_of_add_eq ht.day0⟩
  | dayOfYear => exact ⟨_, run_tsAccessorAt (·.dayOfYear) h out, ht.dayOfYear⟩
  | dayOfWeek => exact ⟨_, run_tsAccessorAt (·.dayOfWeek) h out, ht.dayOfWeek⟩
  | hours => exact ⟨_, run_tsAccessorAt (·.hour) h out, ht.hour⟩
  | minutes => exact ⟨_, run_tsAccessorAt (·.minute) h out, ht.minute⟩
  | seconds => exact ⟨_, run_tsAccessorAt (·.second) h out, ht.second⟩
  | milliseconds => exact ⟨_, run_unaryKernelAt_timestamp h out, toInt_millisecondsIn hts⟩

end CelWasm
