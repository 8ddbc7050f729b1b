import Mathlib.Algebra.Order.Group.Unbundled.Int
import Mathlib.Data.Nat.Notation
import Mathlib.Tactic.NormNum

/-!
# Library/AbslTime — durations in quarter nanoseconds

A duration is a count of quarter nanoseconds, kept as whole seconds rounded down and the ticks past
them, or one of two infinities; a time is the duration since the Unix epoch. Dividing rounds toward
zero, reading a time in whole seconds rounds down. For a time before the epoch that is not a whole
second the two give different pairs of seconds and nanoseconds.

The functions are those that are documented: whatever functions do as the documentation says, they
are these (`AbslFunctions.documented_iff`).
-/

namespace CelWasm

/-- **`absl::Duration`**: `rep_hi_` seconds and `rep_lo_` ticks past them, four
billion ticks to the second. -/
inductive AbslDuration
  | infinite (negative : Bool)
  | finite (hi : Int64) (lo : Fin 4000000000)
  deriving DecidableEq, Repr

/-- `absl::Time`: the duration since the Unix epoch. -/
abbrev AbslTime := AbslDuration

namespace AbslDuration

instance neZero_second : NeZero (4000000000 : ℕ) := ⟨by decide⟩

/-- The whole duration in ticks. -/
def ticks (hi : Int64) (lo : Fin 4000000000) : ℤ := hi.toInt * 4000000000 + lo.val

/-- The duration of so many ticks, an infinity when they do not fit. -/
def ofTicks (t : ℤ) : AbslDuration :=
  if t < -2 ^ 63 * 4000000000 then infinite true
  else if 2 ^ 63 * 4000000000 ≤ t then infinite false
  else finite (Int64.ofInt (t / 4000000000))
    ⟨(t % 4000000000).toNat, by omega⟩

/-- An integer as an `int64`, at the nearest bound when it does not fit. -/
def saturate (q : ℤ) : ℤ := max (-2 ^ 63) (min q (2 ^ 63 - 1))

/-- **`absl::IDivDuration`** by a divisor of so many ticks: the quotient rounded toward zero, and the
remainder. -/
def iDivDuration (d : AbslDuration) (divisor : ℕ) : ℤ × AbslDuration :=
  match d with
  | infinite negative => (if negative then -2 ^ 63 else 2 ^ 63 - 1, infinite negative)
  | finite hi lo =>
    let quotient := saturate ((ticks hi lo).tdiv divisor)
    (quotient, ofTicks (ticks hi lo - quotient * divisor))

/-- `absl::ToInt64Seconds`. -/
def toInt64Seconds : AbslDuration → Int64
  | infinite negative => if negative then Int64.minValue else Int64.maxValue
  | finite hi lo => if hi < 0 ∧ lo ≠ 0 then hi + 1 else hi

/-- `absl::ToInt64Nanoseconds`. -/
def toInt64Nanoseconds (d : AbslDuration) : ℤ := (d.iDivDuration 4).1

/-- `absl::Seconds` of an integer, and `absl::FromUnixSeconds`. -/
def ofSeconds (s : Int64) : AbslDuration := finite s 0

/-- `absl::Seconds` and `absl::Nanoseconds` together: so many seconds, and nanoseconds more. -/
def ofSecondsNanos (seconds : Int64) (nanos : Int32) : AbslDuration :=
  ofTicks (seconds.toInt * 4000000000 + nanos.toInt * 4)

/-- The difference of two durations, or of two times. -/
def sub : AbslDuration → AbslDuration → AbslDuration
  | infinite negative, _ => infinite negative
  | finite _ _, infinite negative => infinite !negative
  | finite hi lo, finite hi' lo' => ofTicks (ticks hi lo - ticks hi' lo')

/-- `absl::ToUnixSeconds`. -/
def toUnixSeconds : AbslTime → Int64
  | infinite negative => if negative then Int64.minValue else Int64.maxValue
  | finite hi _ => hi

/-! ## Seconds and nanoseconds -/

section Pairs

variable {hi : Int64} {lo : Fin 4000000000}

theorem ofTicks_ticks (hi : Int64) (lo : Fin 4000000000) : ofTicks (ticks hi lo) = finite hi lo := by
  have hlow := hi.le_toInt
  have hhigh := hi.toInt_lt
  have hlo := lo.isLt
  have hdiv : ticks hi lo / 4000000000 = hi.toInt := by rw [ticks]; omega
  have hmod : ticks hi lo % 4000000000 = lo.val := by rw [ticks]; omega
  rw [ofTicks, if_neg (by rw [ticks]; omega), if_neg (by rw [ticks]; omega)]
  simp only [hdiv, hmod, Int64.ofInt_toInt, Int.toNat_natCast, Fin.eta]

/-- Seconds and the nanoseconds past them. -/
theorem ofSecondsNanos_nonneg {seconds : Int64} {nanos : Int32} (h : 0 ≤ nanos.toInt)
    (hlt : nanos.toInt < 10 ^ 9) : ∃ lo : Fin 4000000000,
      ofSecondsNanos seconds nanos = finite seconds lo ∧ (lo.val : ℤ) = 4 * nanos.toInt := by
  refine ⟨⟨(4 * nanos.toInt).toNat, by omega⟩, ?_, by simp; omega⟩
  rw [← ofTicks_ticks, ofSecondsNanos, ticks]
  congr 1
  simp only
  omega

/-- Seconds and the nanoseconds before them. -/
theorem ofSecondsNanos_neg {seconds : Int64} {nanos : Int32} (hseconds : -2 ^ 63 < seconds.toInt)
    (h : nanos.toInt < 0) (hlt : -10 ^ 9 < nanos.toInt) : ∃ hi : Int64, ∃ lo : Fin 4000000000,
      ofSecondsNanos seconds nanos = finite hi lo ∧ hi.toInt = seconds.toInt - 1 ∧
        (lo.val : ℤ) = 4000000000 + 4 * nanos.toInt := by
  have hhigh := seconds.toInt_lt
  have hhi : (Int64.ofInt (seconds.toInt - 1)).toInt = seconds.toInt - 1 :=
    Int64.toInt_ofInt_of_le (by omega) (by omega)
  refine ⟨Int64.ofInt (seconds.toInt - 1), ⟨(4000000000 + 4 * nanos.toInt).toNat, by omega⟩, ?_, hhi,
    by simp; omega⟩
  rw [← ofTicks_ticks, ofSecondsNanos, ticks, hhi]
  congr 1
  simp only
  omega

/-- Less than a second of ticks. -/
theorem ofTicks_lo (lo : Fin 4000000000) : ofTicks lo.val = finite 0 lo := by
  rw [← ofTicks_ticks 0 lo]
  simp [ticks]

theorem toInt64Nanoseconds_lo (lo : Fin 4000000000) :
    (finite 0 lo).toInt64Nanoseconds = (lo.val / 4 : ℕ) := by
  have hlo := lo.isLt
  have hticks : ticks 0 lo = lo.val := by simp [ticks]
  have hdiv : (lo.val : ℤ).tdiv (4 : ℕ) = (lo.val / 4 : ℕ) := rfl
  rw [toInt64Nanoseconds, iDivDuration, hticks]
  simp only [hdiv, saturate]
  omega

/-- **The nanoseconds past the second a time is in** are not negative. -/
theorem toInt64Nanoseconds_sub_toUnixSeconds (hi : Int64) (lo : Fin 4000000000) :
    ((finite hi lo).sub (ofSeconds (toUnixSeconds (finite hi lo)))).toInt64Nanoseconds
      = (lo.val / 4 : ℕ) := by
  have hdiff : ticks hi lo - ticks hi 0 = lo.val := by simp [ticks]
  rw [toUnixSeconds, ofSeconds, sub, hdiff, ofTicks_lo, toInt64Nanoseconds_lo]

theorem tdiv_of_nonpos {a : ℤ} (h : a ≤ 0) (b : ℕ) : a.tdiv b = -(-a / b) := by
  rw [← Int.neg_neg a, Int.neg_tdiv, Int.tdiv_eq_ediv_of_nonneg (by omega), Int.neg_neg]

/-- From the epoch on, and at a whole second, rounding toward zero is rounding down. -/
theorem iDivDuration_second_of_whole (h : 0 ≤ hi.toInt ∨ lo = 0) :
    (finite hi lo).iDivDuration 4000000000 = (hi.toInt, finite 0 lo) := by
  have hlow := hi.le_toInt
  have hhigh := hi.toInt_lt
  have hlo := lo.isLt
  have hquotient : (ticks hi lo).tdiv (4000000000 : ℕ) = hi.toInt := by
    rcases h with h | rfl
    · rw [Int.tdiv_eq_ediv_of_nonneg (by rw [ticks]; omega), ticks]
      omega
    · rw [ticks, Fin.val_zero, Nat.cast_zero, add_zero]
      exact Int.mul_tdiv_cancel _ (by decide)
  have hsaturate : saturate hi.toInt = hi.toInt := by rw [saturate]; omega
  have hrest : ticks hi lo - hi.toInt * (4000000000 : ℕ) = lo.val := by rw [ticks]; omega
  rw [iDivDuration]
  simp only [hquotient, hsaturate, hrest, ofTicks_lo]

/-- Before the epoch and within a second, rounding toward zero is the next second, and what is left
over is negative. -/
theorem iDivDuration_second_of_fraction (h : hi.toInt < 0) (hfraction : lo ≠ 0) :
    (finite hi lo).iDivDuration 4000000000 = (hi.toInt + 1, finite (-1) lo) := by
  have hlow := hi.le_toInt
  have hlo := lo.isLt
  have hpos : 0 < lo.val := Fin.pos_iff_ne_zero.mpr hfraction
  have hquotient : (ticks hi lo).tdiv (4000000000 : ℕ) = hi.toInt + 1 := by
    rw [tdiv_of_nonpos (by rw [ticks]; omega), ticks]
    omega
  have hsaturate : saturate (hi.toInt + 1) = hi.toInt + 1 := by rw [saturate]; omega
  have hrest : ticks hi lo - (hi.toInt + 1) * (4000000000 : ℕ) = ticks (-1) lo := by
    have hneg : (-1 : Int64).toInt = -1 := rfl
    rw [ticks, ticks, hneg]
    omega
  rw [iDivDuration]
  simp only [hquotient, hsaturate, hrest, ofTicks_ticks]

theorem toInt64Nanoseconds_neg (lo : Fin 4000000000) :
    (finite (-1) lo).toInt64Nanoseconds = -((4000000000 - lo.val) / 4 : ℕ) := by
  have hlo := lo.isLt
  have hticks : ticks (-1) lo = lo.val - 4000000000 := by
    have hneg : (-1 : Int64).toInt = -1 := rfl
    rw [ticks, hneg]
    omega
  rw [toInt64Nanoseconds, iDivDuration, hticks]
  simp only [tdiv_of_nonpos (show (lo.val : ℤ) - 4000000000 ≤ 0 by omega), saturate]
  omega

end Pairs

/-! ## What is documented -/

/-- A duration is of so many ticks, or the infinity of their sign if there are too many. -/
def IsOf : AbslDuration → ℤ → Prop
  | finite hi lo, t => ticks hi lo = t
  | infinite true, t => t < -2 ^ 63 * 4000000000
  | infinite false, t => 2 ^ 63 * 4000000000 ≤ t

theorem isOf_iff {d : AbslDuration} {t : ℤ} : d.IsOf t ↔ d = ofTicks t := by
  constructor
  · intro h
    cases d with
    | finite hi lo =>
      have hticks : ticks hi lo = t := h
      rw [← hticks, ofTicks_ticks]
    | infinite negative =>
      cases negative with
      | true => exact (if_pos h).symm
      | false =>
        have hle : 2 ^ 63 * 4000000000 ≤ t := h
        rw [ofTicks, if_neg (by omega), if_pos hle]
  · rintro rfl
    rw [ofTicks]
    split_ifs with hlow hhigh
    · exact hlow
    · exact hhigh
    · have hhi : (Int64.ofInt (t / 4000000000)).toInt = t / 4000000000 :=
        Int64.toInt_ofInt_of_le (by omega) (by omega)
      change ticks _ _ = t
      rw [ticks, hhi]
      simp only
      omega

end AbslDuration

/-- The functions on durations and times that are called. -/
structure AbslFunctions where
  iDivDuration : AbslDuration → ℕ → ℤ × AbslDuration
  toInt64Seconds : AbslDuration → Int64
  toInt64Nanoseconds : AbslDuration → ℤ
  ofSeconds : Int64 → AbslDuration
  ofSecondsNanos : Int64 → Int32 → AbslDuration
  sub : AbslDuration → AbslDuration → AbslDuration
  toUnixSeconds : AbslTime → Int64

namespace AbslFunctions

open AbslDuration

/-- **What is documented of them.** A quotient is truncated and capped, and with the remainder it makes
up the dividend; sums and differences that do not fit are infinite; the helpers for seconds and
nanoseconds are quotients; a time is in the second that it is not before. -/
structure Documented (F : AbslFunctions) : Prop where
  quotient : ∀ hi lo divisor,
    (F.iDivDuration (finite hi lo) divisor).1 = saturate ((ticks hi lo).tdiv divisor)
  remainder : ∀ hi lo divisor, (F.iDivDuration (finite hi lo) divisor).2.IsOf
    (ticks hi lo - (F.iDivDuration (finite hi lo) divisor).1 * divisor)
  quotient_infinite : ∀ negative divisor, F.iDivDuration (infinite negative) divisor
    = (if negative then -2 ^ 63 else 2 ^ 63 - 1, infinite negative)
  seconds : ∀ d, (F.toInt64Seconds d).toInt = (F.iDivDuration d 4000000000).1
  nanoseconds : ∀ d, F.toInt64Nanoseconds d = (F.iDivDuration d 4).1
  ofSeconds : ∀ s, (F.ofSeconds s).IsOf (s.toInt * 4000000000)
  ofSecondsNanos : ∀ s n, (F.ofSecondsNanos s n).IsOf (s.toInt * 4000000000 + n.toInt * 4)
  difference : ∀ hi lo hi' lo',
    (F.sub (finite hi lo) (finite hi' lo')).IsOf (ticks hi lo - ticks hi' lo')
  infinite_sub : ∀ negative d, F.sub (infinite negative) d = infinite negative
  sub_infinite : ∀ hi lo negative, F.sub (finite hi lo) (infinite negative) = infinite !negative
  unixSeconds : ∀ hi lo, (F.toUnixSeconds (finite hi lo)).toInt = ticks hi lo / 4000000000
  unixSeconds_infinite : ∀ negative, F.toUnixSeconds (infinite negative)
    = if negative then Int64.minValue else Int64.maxValue

/-- The functions above. -/
def inTicks : AbslFunctions where
  iDivDuration := AbslDuration.iDivDuration
  toInt64Seconds := AbslDuration.toInt64Seconds
  toInt64Nanoseconds := AbslDuration.toInt64Nanoseconds
  ofSeconds := AbslDuration.ofSeconds
  ofSecondsNanos := AbslDuration.ofSecondsNanos
  sub := AbslDuration.sub
  toUnixSeconds := AbslDuration.toUnixSeconds

/-- The whole seconds of a duration are a quotient. -/
theorem toInt64Seconds_finite (hi : Int64) (lo : Fin 4000000000) :
    (finite hi lo).toInt64Seconds.toInt = ((finite hi lo).iDivDuration 4000000000).1 := by
  have hneg : hi < 0 ↔ hi.toInt < 0 := Int64.lt_iff_toInt_lt
  change (if hi < 0 ∧ lo ≠ 0 then hi + 1 else hi).toInt = _
  by_cases h : hi < 0 ∧ lo ≠ 0
  · have hlt := hneg.mp h.1
    have hlow := hi.le_toInt
    have hsucc : (hi + 1).toInt = hi.toInt + 1 := by
      rw [Int64.toInt_add, Int.bmod_eq_of_le] <;> simp <;> omega
    rw [if_pos h, hsucc, iDivDuration_second_of_fraction hlt h.2]
  · have hwhole : 0 ≤ hi.toInt ∨ lo = 0 := by
      by_cases hzero : lo = 0
      · exact .inr hzero
      · exact .inl (not_lt.mp fun hlt => h ⟨hneg.mpr hlt, hzero⟩)
    rw [if_neg h, iDivDuration_second_of_whole hwhole]

/-- These do as documented. -/
theorem documented_inTicks : inTicks.Documented where
  quotient _ _ _ := rfl
  remainder _ _ _ := isOf_iff.mpr rfl
  quotient_infinite _ _ := rfl
  seconds d := by
    cases d with
    | infinite negative => cases negative <;> rfl
    | finite hi lo => exact toInt64Seconds_finite hi lo
  nanoseconds _ := rfl
  ofSeconds s := by simp [inTicks, AbslDuration.ofSeconds, IsOf, ticks]
  ofSecondsNanos _ _ := isOf_iff.mpr rfl
  difference _ _ _ _ := isOf_iff.mpr rfl
  infinite_sub _ _ := rfl
  sub_infinite _ _ _ := rfl
  unixSeconds hi lo := by
    have hlo := lo.isLt
    change hi.toInt = _
    rw [ticks]
    omega
  unixSeconds_infinite _ := rfl

/-- **The documentation leaves no choice.** -/
theorem Documented.eq {F G : AbslFunctions} (hF : F.Documented) (hG : G.Documented) : F = G := by
  have hdiv : F.iDivDuration = G.iDivDuration := by
    funext d divisor
    cases d with
    | infinite negative => rw [hF.quotient_infinite, hG.quotient_infinite]
    | finite hi lo =>
      have hquotient := (hF.quotient hi lo divisor).trans (hG.quotient hi lo divisor).symm
      have hrest := isOf_iff.mp (hF.remainder hi lo divisor)
      rw [hquotient, ← isOf_iff.mp (hG.remainder hi lo divisor)] at hrest
      exact Prod.ext hquotient hrest
  have hseconds : F.toInt64Seconds = G.toInt64Seconds := funext fun d =>
    Int64.toInt_inj.mp (by rw [hF.seconds, hG.seconds, hdiv])
  have hnanos : F.toInt64Nanoseconds = G.toInt64Nanoseconds := funext fun d => by
    rw [hF.nanoseconds, hG.nanoseconds, hdiv]
  have hof : F.ofSeconds = G.ofSeconds := funext fun s => by
    rw [isOf_iff.mp (hF.ofSeconds s), isOf_iff.mp (hG.ofSeconds s)]
  have hofNanos : F.ofSecondsNanos = G.ofSecondsNanos := funext₂ fun s n => by
    rw [isOf_iff.mp (hF.ofSecondsNanos s n), isOf_iff.mp (hG.ofSecondsNanos s n)]
  have hsub : F.sub = G.sub := funext₂ fun d d' => by
    cases d with
    | infinite negative => rw [hF.infinite_sub, hG.infinite_sub]
    | finite hi lo =>
      cases d' with
      | infinite negative => rw [hF.sub_infinite, hG.sub_infinite]
      | finite hi' lo' =>
        rw [isOf_iff.mp (hF.difference hi lo hi' lo'), isOf_iff.mp (hG.difference hi lo hi' lo')]
  have hunix : F.toUnixSeconds = G.toUnixSeconds := funext fun t => by
    cases t with
    | infinite negative => rw [hF.unixSeconds_infinite, hG.unixSeconds_infinite]
    | finite hi lo => exact Int64.toInt_inj.mp (by rw [hF.unixSeconds, hG.unixSeconds])
  cases F
  cases G
  exact AbslFunctions.mk.injEq .. ▸ ⟨hdiv, hseconds, hnanos, hof, hofNanos, hsub, hunix⟩

/-- **Functions that do as documented are the functions above.** -/
theorem documented_iff {F : AbslFunctions} : F.Documented ↔ F = inTicks :=
  ⟨fun h => h.eq documented_inTicks, fun h => h ▸ documented_inTicks⟩

end AbslFunctions

end CelWasm
