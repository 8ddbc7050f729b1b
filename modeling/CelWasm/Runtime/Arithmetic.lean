import CelWasm.Runtime.Compare
import Mathlib.Data.UInt
import Mathlib.Tactic.Ring
import Mathlib.Tactic.Linarith

/-!
# Runtime/Arithmetic — checked integers, doubles and durations

The checks of `cel_arith.c` and `cel_time.c`. A 64-bit product is checked through four products of
halves, a signed one through the product of the magnitudes; both come to the exact range check
(`uint64MulOverflows_eq`, `int64MulOverflows_eq`).
-/

namespace CelWasm

/-! ## Checked results -/

/-- A checked result, or OVERFLOW. -/
def orOverflow {α : Type} (tag : α → CelValue) (r : Option α) : CelValue :=
  r.elim (.error .overflow) tag

/-- `__builtin_add_overflow` on int64. -/
def addInt64 (a b : Int64) : Option Int64 :=
  if int64Min ≤ a.toInt + b.toInt ∧ a.toInt + b.toInt ≤ int64Max then some (a + b) else none

/-- `__builtin_sub_overflow` on int64. -/
def subInt64 (a b : Int64) : Option Int64 :=
  if int64Min ≤ a.toInt - b.toInt ∧ a.toInt - b.toInt ≤ int64Max then some (a - b) else none

/-- `__builtin_add_overflow` on uint64. -/
def addUInt64 (a b : UInt64) : Option UInt64 :=
  if a.toNat + b.toNat < 2 ^ 64 then some (a + b) else none

/-- `__builtin_sub_overflow` on uint64. -/
def subUInt64 (a b : UInt64) : Option UInt64 := if b ≤ a then some (a - b) else none

/-- **`uint64_mul_overflows`**: the product, unless it overflows. -/
def uint64MulOverflows (a b : UInt64) : Option UInt64 :=
  let ah := a >>> 32
  let al := a &&& 0xFFFFFFFF
  let bh := b >>> 32
  let bl := b &&& 0xFFFFFFFF
  if ah ≠ 0 ∧ bh ≠ 0 then none
  else
    let mid := ah * bl + al * bh
    if mid >>> 32 ≠ 0 then none
    else
      let lo := al * bl
      let result := lo + (mid <<< 32)
      if result < lo then none else some result

/-- The magnitude of an int64, `INT64_MIN` apart. -/
def magnitudeInt64 (a : Int64) : UInt64 := (if a < 0 then -a else a).toUInt64

/-- **`int64_mul_overflows`**: the product, unless it overflows. -/
def int64MulOverflows (a b : Int64) : Option Int64 :=
  if a = 0 ∨ b = 0 then some 0
  else if a = Int64.minValue then if b ≠ 1 then none else some Int64.minValue
  else if b = Int64.minValue then if a ≠ 1 then none else some Int64.minValue
  else
    match uint64MulOverflows (magnitudeInt64 a) (magnitudeInt64 b) with
    | none => none
    | some up =>
      if decide (a < 0) ^^ decide (b < 0) then
        if 2 ^ 63 < up then none else some (-up.toInt64)
      else if 2 ^ 63 - 1 < up then none else some up.toInt64

/-! ## Doubles -/

section Doubles

variable (op : Float → Float → Float) (a b : Binary64)

/-- An operation on doubles, as the machine has it. -/
def Binary64.apply : Binary64 := ⟨(op (Float.ofBits a.bits) (Float.ofBits b.bits)).toBits⟩

end Doubles

/-! ## Bits -/

/-- A shift of 64 bits or more leaves none of them. -/
def shiftedLeft (x : UInt64) (shift : Int64) : UInt64 := if 63 < shift then 0 else x <<< shift.toUInt64

/-- …and to the right, without the sign. -/
def shiftedRight (x : UInt64) (shift : Int64) : UInt64 := if 63 < shift then 0 else x >>> shift.toUInt64

/-! ## Durations and timestamps -/

/-- `NANOS_PER_SEC`. -/
def nanosPerSec : Int32 := 1000000000

/-- `timestamp_in_range`. -/
def timestampInRange (t : CelDurTs) : Bool :=
  if 253402300799 < t.seconds || t.seconds < -62135596800 then false
  else !(t.seconds == -62135596800 && t.nanos < 0)

/-- `arith_duration_in_range`. -/
def arithDurationInRange (d : CelDurTs) : Bool :=
  if 9223372036 < d.seconds || d.seconds < -9223372036 then false
  else if d.seconds == 9223372036 && 854775807 < d.nanos then false
  else !(d.seconds == -9223372036 && d.nanos < -854775807)

/-- **`dur_combine`**: the seconds and the nanoseconds, a carry, and the signs brought together. -/
def durCombine (a b : CelDurTs) (subtract : Bool) : Option CelDurTs := do
  let rawS ← if subtract then subInt64 a.seconds b.seconds else addInt64 a.seconds b.seconds
  let rawN := if subtract then a.nanos - b.nanos else a.nanos + b.nanos
  let (rawN, carry) : Int32 × Int64 :=
    if nanosPerSec ≤ rawN then (rawN - nanosPerSec, 1)
    else if rawN ≤ -nanosPerSec then (rawN + nanosPerSec, -1)
    else (rawN, 0)
  let rawS ← if carry ≠ 0 then addInt64 rawS carry else some rawS
  if 0 < rawS && rawN < 0 then return ⟨rawS - 1, rawN + nanosPerSec⟩
  else if rawS < 0 && 0 < rawN then return ⟨rawS + 1, rawN - nanosPerSec⟩
  else return ⟨rawS, rawN⟩

/-- `dur_compare_lex`. -/
def durCompareLex (a b : CelDurTs) : Ordering :=
  if a.seconds ≠ b.seconds then if a.seconds < b.seconds then .lt else .gt
  else if a.nanos ≠ b.nanos then if a.nanos < b.nanos then .lt else .gt
  else .eq

/-! ## The checks are exact -/

/-- A product of two 64-bit numbers by their halves, one of the high halves being zero. -/
theorem mul_halves {a b : ℕ} (h : a / 2 ^ 32 = 0 ∨ b / 2 ^ 32 = 0) :
    a * b = a % 2 ^ 32 * (b % 2 ^ 32)
      + (a / 2 ^ 32 * (b % 2 ^ 32) + a % 2 ^ 32 * (b / 2 ^ 32)) * 2 ^ 32 := by
  have ha := Nat.div_add_mod a (2 ^ 32)
  have hb := Nat.div_add_mod b (2 ^ 32)
  obtain h | h := h
  · rw [h] at ha ⊢
    nth_rewrite 1 [← ha, ← hb]
    ring
  · rw [h] at hb ⊢
    nth_rewrite 1 [← ha, ← hb]
    ring

/-- The product of two halves fits. -/
theorem half_mul_half_lt {x y : ℕ} (hx : x < 2 ^ 32) (hy : y < 2 ^ 32) : x * y < 2 ^ 64 :=
  (Nat.mul_lt_mul'' hx hy).trans_eq (by norm_num)

section Halves

variable (a b : UInt64)

theorem toNat_high : (a >>> 32).toNat = a.toNat / 2 ^ 32 := by
  rw [UInt64.toNat_shiftRight, Nat.shiftRight_eq_div_pow]
  rfl

theorem toNat_low : (a &&& 0xFFFFFFFF).toNat = a.toNat % 2 ^ 32 := by
  rw [UInt64.toNat_and]
  exact Nat.and_two_pow_sub_one_eq_mod a.toNat 32

theorem high_eq_zero_iff : a >>> 32 = 0 ↔ a.toNat < 2 ^ 32 := by
  rw [← UInt64.toNat_inj, toNat_high]
  change a.toNat / 2 ^ 32 = 0 ↔ _
  omega

theorem toNat_lowProduct : ((a &&& 0xFFFFFFFF) * (b &&& 0xFFFFFFFF)).toNat
    = a.toNat % 2 ^ 32 * (b.toNat % 2 ^ 32) := by
  rw [UInt64.toNat_mul, toNat_low, toNat_low]
  exact Nat.mod_eq_of_lt (half_mul_half_lt (Nat.mod_lt _ (by norm_num)) (Nat.mod_lt _ (by norm_num)))

/-- One of the two middle products is zero, so that their sum does not carry. -/
theorem toNat_midProduct (h : a >>> 32 = 0 ∨ b >>> 32 = 0) :
    ((a >>> 32) * (b &&& (0xFFFFFFFF : UInt64)) + (a &&& (0xFFFFFFFF : UInt64)) * (b >>> 32)).toNat
      = a.toNat / 2 ^ 32 * (b.toNat % 2 ^ 32) + a.toNat % 2 ^ 32 * (b.toNat / 2 ^ 32) := by
  have ha := a.toNat_lt
  have hb := b.toNat_lt
  rw [UInt64.toNat_add, UInt64.toNat_mul, UInt64.toNat_mul, toNat_high, toNat_high, toNat_low,
    toNat_low, ← Nat.add_mod]
  refine Nat.mod_eq_of_lt ?_
  rw [high_eq_zero_iff, high_eq_zero_iff] at h
  obtain h | h := h
  · rw [Nat.div_eq_of_lt h, Nat.zero_mul, Nat.zero_add]
    exact half_mul_half_lt (Nat.mod_lt _ (by norm_num)) (by omega)
  · rw [Nat.div_eq_of_lt h, Nat.mul_zero, Nat.add_zero]
    exact half_mul_half_lt (by omega) (Nat.mod_lt _ (by norm_num))

/-- **The check by halves is the check of the product.** -/
theorem uint64MulOverflows_eq :
    uint64MulOverflows a b = if a.toNat * b.toNat < 2 ^ 64 then some (a * b) else none := by
  rw [uint64MulOverflows]
  simp only [ne_eq]
  by_cases hboth : ¬ a >>> 32 = 0 ∧ ¬ b >>> 32 = 0
  · rw [if_pos hboth, if_neg (not_lt.mpr ?_)]
    rw [high_eq_zero_iff, high_eq_zero_iff] at hboth
    calc 2 ^ 64 = 2 ^ 32 * 2 ^ 32 := by norm_num
      _ ≤ a.toNat * b.toNat := Nat.mul_le_mul (by omega) (by omega)
  rw [if_neg hboth]
  have hone : a >>> 32 = 0 ∨ b >>> 32 = 0 := by tauto
  have hmid := toNat_midProduct a b hone
  have hlo := toNat_lowProduct a b
  generalize (a >>> 32) * (b &&& (0xFFFFFFFF : UInt64)) + (a &&& (0xFFFFFFFF : UInt64)) * (b >>> 32)
    = mid at hmid ⊢
  generalize (a &&& (0xFFFFFFFF : UInt64)) * (b &&& (0xFFFFFFFF : UInt64)) = lo at hlo ⊢
  have hproduct : a.toNat * b.toNat = lo.toNat + mid.toNat * 2 ^ 32 := by
    rw [hmid, hlo]
    rw [high_eq_zero_iff, high_eq_zero_iff] at hone
    exact mul_halves (hone.imp Nat.div_eq_of_lt Nat.div_eq_of_lt)
  have hlolt := lo.toNat_lt
  by_cases hcarry : mid >>> 32 = 0
  · rw [if_neg (not_not.mpr hcarry)]
    rw [high_eq_zero_iff] at hcarry
    have hsum : (lo + mid <<< 32).toNat = (a.toNat * b.toNat) % 2 ^ 64 := by
      rw [UInt64.toNat_add, UInt64.toNat_shiftLeft, Nat.shiftLeft_eq, hproduct, Nat.add_mod_mod]
      rfl
    have hover : lo + mid <<< 32 < lo ↔ ¬ a.toNat * b.toNat < 2 ^ 64 := by
      rw [UInt64.lt_iff_toNat_lt, hsum]
      omega
    by_cases hfits : a.toNat * b.toNat < 2 ^ 64
    · rw [if_pos hfits, if_neg fun h => hover.mp h hfits]
      exact congrArg some (UInt64.toNat_inj.mp (hsum.trans (UInt64.toNat_mul a b).symm))
    · rw [if_neg hfits, if_pos (hover.mpr hfits)]
  · rw [if_pos hcarry, if_neg]
    rw [high_eq_zero_iff] at hcarry
    omega

end Halves

theorem toInt_eq_min_iff {a : Int64} : a = Int64.minValue ↔ a.toInt = -2 ^ 63 :=
  ⟨fun h => h ▸ rfl, fun h => Int64.toInt_inj.mp h⟩

theorem toNat_magnitudeInt64 {a : Int64} (h : a ≠ Int64.minValue) :
    (magnitudeInt64 a).toNat = a.toInt.natAbs := by
  have hlt := a.toInt_lt
  have hle := a.le_toInt
  rw [ne_eq, toInt_eq_min_iff] at h
  have hneg : a < 0 ↔ a.toInt < 0 := Int64.lt_iff_toInt_lt
  rw [magnitudeInt64]
  split_ifs with hsign
  · rw [hneg] at hsign
    have hflip : (-a).toInt = -a.toInt := by
      rw [Int64.toInt_neg]
      exact Int.bmod_eq_of_le (by omega) (by omega)
    rw [Int64.toNat_toUInt64_of_le (Int64.le_iff_toInt_le.mpr (by rw [hflip, Int64.toInt_zero]; omega)),
      Int64.toNatClampNeg, hflip]
    omega
  · rw [hneg] at hsign
    rw [Int64.toNat_toUInt64_of_le (Int64.le_iff_toInt_le.mpr (by rw [Int64.toInt_zero]; omega)),
      Int64.toNatClampNeg]
    omega

/-- The product of the magnitudes is the product, but for its sign. -/
theorem toInt64_magnitudes (a b : Int64) : (magnitudeInt64 a * magnitudeInt64 b).toInt64
    = if (decide (a < 0) ^^ decide (b < 0)) = true then -(a * b) else a * b := by
  rw [UInt64.toInt64_mul, magnitudeInt64, magnitudeInt64, Int64.toInt64_toUInt64,
    Int64.toInt64_toUInt64]
  by_cases ha : a < 0 <;> by_cases hb : b < 0 <;>
    simp [ha, hb, Int64.neg_mul, Int64.mul_neg]

/-- …and so it is in the integers. -/
theorem mul_eq_natAbs (a b : Int64) : a.toInt * b.toInt
    = if (decide (a < 0) ^^ decide (b < 0)) = true then -((a.toInt.natAbs * b.toInt.natAbs : ℕ) : ℤ)
      else ((a.toInt.natAbs * b.toInt.natAbs : ℕ) : ℤ) := by
  have hneg : ∀ c : Int64, c < 0 ↔ c.toInt < 0 := fun c => Int64.lt_iff_toInt_lt
  have habs : ∀ c : Int64, (c.toInt.natAbs : ℤ) = if c < 0 then -c.toInt else c.toInt := fun c => by
    rw [← if_congr (hneg c).symm rfl rfl]
    split_ifs <;> omega
  rw [Nat.cast_mul, habs, habs]
  by_cases ha : a < 0 <;> by_cases hb : b < 0 <;> simp [ha, hb]

/-- A product with `INT64_MIN` fits for one factor only. -/
theorem min_mul_fits_iff {b : Int64} (hb : b ≠ 0) :
    (int64Min ≤ -2 ^ 63 * b.toInt ∧ -2 ^ 63 * b.toInt ≤ int64Max) ↔ b = 1 := by
  have hzero : b.toInt ≠ 0 := fun h => hb (Int64.toInt_inj.mp h)
  have hone : b = 1 ↔ b.toInt = 1 := Int64.toInt_inj.symm
  rw [hone, int64Min, int64Max]
  omega

set_option maxRecDepth 4000 in
/-- The bounds of a magnitude. -/
theorem toNat_two_pow_63 : (2 ^ 63 : UInt64).toNat = 2 ^ 63 := by decide

theorem toNat_two_pow_63_sub_one : (2 ^ 63 - 1 : UInt64).toNat = 2 ^ 63 - 1 := by
  have hle : (1 : UInt64) ≤ 2 ^ 63 := by
    rw [UInt64.le_iff_toNat_le, toNat_two_pow_63]
    decide
  rw [UInt64.toNat_sub_of_le _ _ hle, toNat_two_pow_63]
  rfl

/-- **The check of a signed product is exact.** -/
theorem int64MulOverflows_eq (a b : Int64) : int64MulOverflows a b
    = if int64Min ≤ a.toInt * b.toInt ∧ a.toInt * b.toInt ≤ int64Max then some (a * b) else none := by
  rw [int64MulOverflows]
  by_cases hzero : a = 0 ∨ b = 0
  · rw [if_pos hzero]
    obtain rfl | rfl := hzero <;> simp [int64Min, int64Max]
  rw [if_neg hzero]
  rw [not_or] at hzero
  by_cases ha : a = Int64.minValue
  · have hfits := min_mul_fits_iff hzero.2
    rw [if_pos ha, toInt_eq_min_iff.mp ha, if_congr hfits rfl rfl, ite_not]
    split_ifs with hone
    · rw [hone, ha]; rfl
    · rfl
  rw [if_neg ha]
  by_cases hb : b = Int64.minValue
  · have hfits := min_mul_fits_iff hzero.1
    rw [if_pos hb, toInt_eq_min_iff.mp hb, mul_comm a.toInt, if_congr hfits rfl rfl, ite_not]
    split_ifs with hone
    · rw [hone, hb]; rfl
    · rfl
  rw [if_neg hb, uint64MulOverflows_eq, toNat_magnitudeInt64 ha, toNat_magnitudeInt64 hb,
    mul_eq_natAbs a b]
  have hproduct := toInt64_magnitudes a b
  have hup : (magnitudeInt64 a * magnitudeInt64 b).toNat
      = a.toInt.natAbs * b.toInt.natAbs % 2 ^ 64 := by
    rw [UInt64.toNat_mul, toNat_magnitudeInt64 ha, toNat_magnitudeInt64 hb]
  generalize a.toInt.natAbs * b.toInt.natAbs = product at hup ⊢
  generalize magnitudeInt64 a * magnitudeInt64 b = up at hproduct hup ⊢
  by_cases hfits : product < 2 ^ 64
  · rw [if_pos hfits]
    rw [Nat.mod_eq_of_lt hfits] at hup
    have hover : ∀ bound : UInt64, bound < up ↔ bound.toNat < product := fun bound => by
      rw [UInt64.lt_iff_toNat_lt, hup]
    cases hsign : decide (a < 0) ^^ decide (b < 0) with
    | true =>
      rw [hsign, if_pos rfl] at hproduct
      have hrange : (int64Min ≤ -(product : ℤ) ∧ -(product : ℤ) ≤ int64Max) ↔ ¬ 2 ^ 63 < up := by
        rw [hover, toNat_two_pow_63, int64Min, int64Max]
        omega
      simp only [if_true, if_congr hrange rfl rfl, ite_not, hproduct, Int64.neg_neg]
    | false =>
      rw [hsign, if_neg Bool.false_ne_true] at hproduct
      have hrange : (int64Min ≤ (product : ℤ) ∧ (product : ℤ) ≤ int64Max) ↔ ¬ 2 ^ 63 - 1 < up := by
        rw [hover, toNat_two_pow_63_sub_one, int64Min, int64Max]
        omega
      simp only [Bool.false_eq_true, if_false, if_congr hrange rfl rfl, ite_not, hproduct]
  · rw [if_neg hfits, if_neg]
    rw [int64Min, int64Max]
    split_ifs <;> omega

end CelWasm
