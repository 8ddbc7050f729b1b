import CelWasm.Eval.HostEncode
import CelWasm.Library.DecimalDigits
import CelWasm.Runtime.TimeAccessors

/-!
# Eval/HostTime — the accessors with a time zone

One trampoline serves the ten accessors that take a zone: it resolves the name, asks for the civil time
of the instant, and projects. The zones and the calendar are those of Abseil. An instant within a second
is in the second it is past, on either side of the epoch; the accessors without a zone read the seconds
of the payload, which are rounded toward zero.

    (s, n), n < 0:      with a zone ──▸ the second s − 1        without ──▸ the second s
-/

namespace CelWasm

open CellProg Gregorian

/-! ## The trampoline -/

/-- **The time zones of Abseil**: the civil time of an instant in a zone, the day of the year from one,
and the day of the week, Monday being day zero. -/
structure AbslZones where
  Zone : Type
  utcTimeZone : Zone
  fixedTimeZone : ℤ → Zone
  loadTimeZone : List UInt8 → Option Zone
  civil : Zone → AbslTime → CivilSecond
  getYearDay : Date → ℤ
  getWeekday : Date → Fin 7

/-- `CelTzAccessorKind`, as the number handed over. -/
def TzAccessorKind.wire : TzAccessorKind → UInt32
  | year => 0
  | month => 1
  | dayOfMonth1 => 2
  | dayOfMonth => 3
  | dayOfYear => 4
  | dayOfWeek => 5
  | hours => 6
  | minutes => 7
  | seconds => 8
  | milliseconds => 9

/-- …and back. -/
def TzAccessorKind.ofWire (n : UInt32) : Option TzAccessorKind :=
  if n = 0 then some year
  else if n = 1 then some month
  else if n = 2 then some dayOfMonth1
  else if n = 3 then some dayOfMonth
  else if n = 4 then some dayOfYear
  else if n = 5 then some dayOfWeek
  else if n = 6 then some hours
  else if n = 7 then some minutes
  else if n = 8 then some seconds
  else if n = 9 then some milliseconds
  else none

theorem TzAccessorKind.ofWire_wire (kind : TzAccessorKind) : ofWire kind.wire = some kind := by
  cases kind <;> rfl

/-- `ProjectCivilField`. -/
def projectCivilField (cs : CivilSecond) (weekday : Fin 7) (dayOfYear : ℤ) (nsInSecond : ℤ) :
    TzAccessorKind → ℤ
  | .year => cs.date.year
  | .month => cs.date.month - 1
  | .dayOfMonth1 => cs.date.day
  | .dayOfMonth => cs.date.day - 1
  | .dayOfYear => dayOfYear - 1
  | .dayOfWeek => (weekday.val + 1) % 7
  | .hours => cs.hour
  | .minutes => cs.minute
  | .seconds => cs.second
  | .milliseconds =>
    let n := if nsInSecond < 0 then nsInSecond + 1000000000 else nsInSecond
    n.tdiv 1000000

section Zones

variable (zones : AbslZones)

/-- `ResolveTimeZone`: `UTC` or `Z`, an offset of hours and minutes, or a name. -/
def resolveTimeZone (name : List UInt8) : Option zones.Zone :=
  if name = [0x55, 0x54, 0x43] ∨ name = [0x5A] then some zones.utcTimeZone
  else
    let negative := name.head? = some 0x2D
    let rest := if name.head? = some 0x2B ∨ negative then name.tail else name
    match rest with
    | [h1, h0, colon, m1, m0] =>
      if colon = 0x3A ∧ IsDigit h1 ∧ IsDigit h0 ∧ IsDigit m1 ∧ IsDigit m0 then
        let hours := digitValue h1 * 10 + digitValue h0
        let minutes := digitValue m1 * 10 + digitValue m0
        if 23 < hours ∨ 59 < minutes then none
        else
          let offset : ℤ := hours * 3600 + minutes * 60
          some (zones.fixedTimeZone (if negative then -offset else offset))
      else zones.loadTimeZone name
    | _ => zones.loadTimeZone name

/-- **`CelTimestampTzAccessorImpl`**: the prelude, the zone, the civil time and the field. -/
def celTimestampTzAccessor (ts tz : CelValue) (accessorKind : UInt32) : CelValue :=
  match absorb3vlUnary ts with
  | some poison => poison
  | none =>
    match absorb3vlUnary tz with
    | some poison => poison
    | none =>
      match ts, tz, TzAccessorKind.ofWire accessorKind with
      | .timestamp pair, .string name, some kind =>
        match resolveTimeZone zones name with
        | none => .error .invalidArgument
        | some zone =>
          let t : AbslTime := .ofSecondsNanos pair.seconds pair.nanos
          let cs := zones.civil zone t
          .int (Int64.ofInt (projectCivilField cs (zones.getWeekday cs.date)
            (zones.getYearDay cs.date) pair.nanos.toInt kind))
      | _, _, _ => .error .typeMismatch

end Zones

/-! ## One instant -/

/-- **UTC is the calendar**: the civil time of a finite instant in UTC is that of the second it is in,
and days are counted as the calendar counts them. -/
structure AbslZones.UtcIsCalendar (zones : AbslZones) : Prop where
  civil_utc : ∀ hi lo,
    (zones.civil zones.utcTimeZone (.finite hi lo)).epochSeconds = hi.toInt
  getYearDay_eq : ∀ d : Date, zones.getYearDay d = d.yearDay + 1
  getWeekday_eq : ∀ d : Date, ((zones.getWeekday d).val : ℤ) = (d.weekday + 6) % 7

/-- The zones by the calendar, with no names. -/
def calendarZones : AbslZones where
  Zone := ℤ
  utcTimeZone := 0
  fixedTimeZone := id
  loadTimeZone _ := none
  civil offset t := .ofEpochSeconds (t.toUnixSeconds.toInt + offset)
  getYearDay d := d.yearDay + 1
  getWeekday d := ⟨((d.weekday + 6) % 7).toNat, by omega⟩

theorem utcIsCalendar_calendarZones : calendarZones.UtcIsCalendar where
  civil_utc hi lo := by
    change (CivilSecond.ofEpochSeconds (hi.toInt + 0)).epochSeconds = _
    rw [CivilSecond.epochSeconds_ofEpochSeconds, Int.add_zero]
  getYearDay_eq _ := rfl
  getWeekday_eq d := by
    change (((d.weekday + 6) % 7).toNat : ℤ) = _
    omega

/-- The instant of a canonical pair is in the second rounded down to. -/
theorem ofSecondsNanos_floorSecond {ts : CelDurTs} (hts : ts.Canonical)
    (hlow : -2 ^ 63 < ts.seconds.toInt) : ∃ hi lo,
      AbslDuration.ofSecondsNanos ts.seconds ts.nanos = .finite hi lo ∧ hi.toInt = ts.floorSecond := by
  rw [floorSecond_eq hts]
  split_ifs with h
  · obtain ⟨lo, heq, -⟩ := @AbslDuration.ofSecondsNanos_nonneg ts.seconds _ h hts.nanos_lt
    exact ⟨ts.seconds, lo, heq, rfl⟩
  · obtain ⟨hi, lo, heq, hhi, -⟩ := AbslDuration.ofSecondsNanos_neg hlow (by omega) hts.neg_lt_nanos
    exact ⟨hi, lo, heq, hhi⟩

/-- **With a zone the fields are those of the second an instant is in.** -/
theorem celTimestampTzAccessor_utc {zones : AbslZones} (hzones : zones.UtcIsCalendar) {ts : CelDurTs}
    (hts : ts.Canonical) (hlow : -2 ^ 63 < ts.seconds.toInt) {t : CivilSecond}
    (ht : t.epochSeconds = ts.floorSecond) (kind : TzAccessorKind) :
    celTimestampTzAccessor zones (.timestamp ts) (.string [0x55, 0x54, 0x43]) kind.wire
      = .int (Int64.ofInt (kind.of t ts.floorMillis)) := by
  obtain ⟨hi, lo, htime, hhi⟩ := ofSecondsNanos_floorSecond hts hlow
  have hcivil : zones.civil zones.utcTimeZone (.ofSecondsNanos ts.seconds ts.nanos) = t := by
    rw [htime]
    exact CivilSecond.epochSeconds_injective ((hzones.civil_utc hi lo).trans (hhi.trans ht.symm))
  have hresolve : resolveTimeZone zones [0x55, 0x54, 0x43] = some zones.utcTimeZone :=
    if_pos (.inl rfl)
  have hfield : projectCivilField t (zones.getWeekday t.date) (zones.getYearDay t.date) ts.nanos.toInt
      kind = kind.of t ts.floorMillis := by
    cases kind with
    | dayOfYear =>
      change zones.getYearDay t.date - 1 = t.date.yearDay
      rw [hzones.getYearDay_eq, Int.add_sub_cancel]
    | dayOfWeek =>
      change (((zones.getWeekday t.date).val + 1 : ℤ)) % 7 = t.date.weekday
      rw [hzones.getWeekday_eq, Date.weekday]
      omega
    | milliseconds =>
      obtain ⟨hnanos, hback, -, -⟩ := hts
      change (if ts.nanos.toInt < 0 then ts.nanos.toInt + 1000000000 else ts.nanos.toInt).tdiv 1000000
        = ts.floorMillis
      rw [Int.tdiv_eq_ediv_of_nonneg (by split_ifs <;> omega), CelDurTs.floorMillis,
        CelDurTs.totalNanos, units]
      split_ifs <;> omega
    | _ => rfl
  have hpair : absorb3vlUnary (.timestamp ts) = none := rfl
  have hname : absorb3vlUnary (.string [0x55, 0x54, 0x43]) = none := rfl
  simp only [celTimestampTzAccessor, hpair, hname, TzAccessorKind.ofWire_wire, hresolve, hcivil, hfield]

/-- An int that two runs write to one cell. -/
theorem int_of_run {cells : Slot → CelValue} {out : Slot} {v w : Int64}
    (h : (pure ((), Function.update cells out (.int v)) : Kernel (Unit × (Slot → CelValue)))
      = pure ((), Function.update cells out (.int w))) : v = w := by
  have hcells := congrFun (Prod.mk.inj (Prog.ret.inj h)).2 out
  rw [Function.update_self, Function.update_self] at hcells
  exact CelValue.int.inj hcells

/-- **The accessors describe one instant**, rounded toward the past: those without a zone give the
fields of the second it is in, as those with a zone do for UTC. -/
def AccessorsDescribe (zones : AbslZones) (ts : CelDurTs) : Prop :=
  ∃ t : CivilSecond, t.epochSeconds = ts.floorSecond ∧
    ∀ (kind : TzAccessorKind) (out s : Slot) (cells : Slot → CelValue), cells s = .timestamp ts →
      ∃ v : Int64, (kind.utcAt out s).run cells = pure ((), Function.update cells out (.int v)) ∧
        v.toInt = kind.of t ts.floorMillis ∧
        celTimestampTzAccessor zones (.timestamp ts) (.string [0x55, 0x54, 0x43]) kind.wire = .int v

/-- …and so does the conversion to an int. -/
def IntDescribes (ts : CelDurTs) : Prop :=
  ∀ (out s : Slot) (cells : Slot → CelValue), cells s = .timestamp ts →
    ∃ v : Int64, (celTsToIntAt out s).run cells = pure ((), Function.update cells out (.int v)) ∧
      v.toInt = ts.floorSecond

section Instant

variable {ts : CelDurTs} (hts : ts.Canonical)

include hts

theorem intDescribes_iff : IntDescribes ts ↔ 0 ≤ ts.nanos.toInt := by
  have hfloor := floorSecond_eq hts
  constructor
  · intro h
    obtain ⟨v, hrun, hv⟩ := h 0 0 (fun _ => .timestamp ts) rfl
    rw [run_celTsToIntAt rfl] at hrun
    obtain rfl := int_of_run hrun
    by_contra hneg
    rw [if_neg hneg] at hfloor
    omega
  · intro h out s cells hs
    rw [if_pos h] at hfloor
    exact ⟨ts.seconds, run_celTsToIntAt hs out, hfloor.symm⟩

/-- **The accessors without a zone are right exactly where nothing is to be borrowed.** -/
theorem accessorsDescribe_iff {zones : AbslZones} (hzones : zones.UtcIsCalendar)
    (hrange : timestampInRange ts = true) : AccessorsDescribe zones ts ↔ 0 ≤ ts.nanos.toInt := by
  have hfloor := floorSecond_eq hts
  have hseconds : -62135596800 ≤ ts.seconds.toInt ∧ ts.seconds.toInt ≤ 253402300799 := by
    have htotal := (timestampInRange_iff hts).mp hrange
    obtain ⟨hhi, hlo, hpos, hneg⟩ := hts
    rw [InTimeRange, if_pos rfl, CelDurTs.totalNanos, units] at htotal
    omega
  obtain ⟨t, ht, hdescribes⟩ := celCivilFromSeconds_describes (s := ts.seconds) (by omega)
  constructor
  · rintro ⟨t', ht', hfields⟩
    -- the kernels give the fields of `t`, whose second is that of the payload
    have hsame : t = t' := eq_of_fields fun kind => by
      obtain ⟨v, hrun, hv, -⟩ := hfields kind 0 0 (fun _ => .timestamp ts) rfl
      let cells : Slot → CelValue := fun _ => .timestamp ts
      have hcell : cells 0 = .timestamp ts := rfl
      obtain ⟨w, hrun', hw⟩ := run_utcAt hts hdescribes hcell 0 kind
      rw [hrun'] at hrun
      obtain rfl := int_of_run hrun
      rw [← hw, ← hv, Int32.toInt_toInt64]
    rw [← hsame, ht] at ht'
    by_contra hneg
    rw [if_neg hneg] at hfloor
    omega
  · intro h
    rw [if_pos h] at hfloor
    rw [← hfloor] at ht
    refine ⟨t, ht, fun kind out s cells hs => ?_⟩
    obtain ⟨v, hrun, hv⟩ := run_utcAt hts hdescribes hs out kind
    refine ⟨v.toInt64, hrun, (Int32.toInt_toInt64 v).trans hv, ?_⟩
    rw [celTimestampTzAccessor_utc hzones hts (by omega) ht, ← hv, ← Int32.toInt_toInt64,
      Int64.ofInt_toInt]

end Instant

/-- **Timestamp accessors and instants.** Of every canonical timestamp in the range the accessors without
a zone and the conversion to an int describe the one instant, as the accessors with a zone do for UTC,
exactly when its nanoseconds are not negative; and neither half of it holds otherwise. -/
theorem timestampAccessors_iff {zones : AbslZones} (hzones : zones.UtcIsCalendar) {ts : CelDurTs}
    (hts : ts.Canonical) (hrange : timestampInRange ts = true) :
    (AccessorsDescribe zones ts ∧ IntDescribes ts ↔ 0 ≤ ts.nanos.toInt) ∧
      (AccessorsDescribe zones ts ↔ 0 ≤ ts.nanos.toInt) ∧ (IntDescribes ts ↔ 0 ≤ ts.nanos.toInt) := by
  rw [accessorsDescribe_iff hts hzones hrange, intDescribes_iff hts, and_self_iff]
  exact ⟨Iff.rfl, Iff.rfl, Iff.rfl⟩

/-- Half a second past the epoch. -/
theorem timestampAccessors_iff_halfAfter :
    AccessorsDescribe calendarZones ⟨0, 500000000⟩ ∧ IntDescribes ⟨0, 500000000⟩ :=
  (timestampAccessors_iff utcIsCalendar_calendarZones ⟨by decide, by decide, by decide, by decide⟩
    (by decide)).1.mpr (by decide)

/-- Half a second before it, as its text is parsed: without a zone it is in the second after, and its
int is that of the epoch. -/
theorem not_accessorsDescribe_halfBefore :
    decomposeAbslDuration (.ofTicks (-2000000000)) = ⟨0, -500000000⟩ ∧
      ¬ (AccessorsDescribe calendarZones ⟨0, -500000000⟩ ∧ IntDescribes ⟨0, -500000000⟩) ∧
      (∀ cells : Slot → CelValue, cells 0 = .timestamp ⟨0, -500000000⟩ →
        (celTsSecondsUtcAt 1 0).run cells = pure ((), Function.update cells 1 (.int 0))) ∧
      celTimestampTzAccessor calendarZones (.timestamp ⟨0, -500000000⟩) (.string [0x55, 0x54, 0x43])
        TzAccessorKind.seconds.wire = .int 59 := by
  have hts : CelDurTs.Canonical ⟨0, -500000000⟩ := ⟨by decide, by decide, by decide, by decide⟩
  refine ⟨by decide, fun h => absurd ((intDescribes_iff hts).mp h.2) (by decide), fun cells hs => ?_, ?_⟩
  · rw [celTsSecondsUtcAt, run_tsAccessorAt _ hs]
    rfl
  · rfl

end CelWasm
