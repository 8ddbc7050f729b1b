import CelWasm.Library.SignedC
import CelWasm.Runtime.Conversions
import CelWasm.Runtime.MapHash

/-!
# Runtime/SignedOverflow — the integer kernels in C

The functions that handle magnitudes up to `2⁶³`, with the signed operations of C. Each comes to what
it is modelled as wherever its behaviour is defined. The formatter, the parser and the key hash are
defined on every input, as they each look out for the least int. The check of a signed product does so
for its operands, and negates the product unlooked at.
-/

namespace CelWasm

open CEval

/-! ## The functions -/

/-- The magnitude `int64_mul_overflows` takes of an operand: `(uint64_t)(a < 0 ? -a : a)`. -/
def magnitudeInt64C (a : Int64) : CEval UInt64 := do
  if a < 0 then return (← neg a).toUInt64 else return a.toUInt64

/-- `int64_mul_overflows`. -/
def int64MulOverflowsC (a b : Int64) : CEval (Option Int64) := do
  if a = 0 ∨ b = 0 then return some 0
  else if a = Int64.minValue then return if b ≠ 1 then none else some Int64.minValue
  else if b = Int64.minValue then return if a ≠ 1 then none else some Int64.minValue
  else
    let ua ← magnitudeInt64C a
    let ub ← magnitudeInt64C b
    match uint64MulOverflows ua ub with
    | none => return none
    | some up =>
      if decide (a < 0) ^^ decide (b < 0) then
        if 2 ^ 63 < up then return none else return some (← neg up.toInt64)
      else if 2 ^ 63 - 1 < up then return none
      else return some up.toInt64

/-- `write_int_decimal`. -/
def writeIntDecimalC (v : Int64) : CEval (List UInt8) := do
  if 0 ≤ v then return writeUintDecimal v.toUInt64
  else if v = Int64.minValue then return 0x2D :: writeUintDecimal (2 ^ 63)
  else return 0x2D :: writeUintDecimal (← neg v).toUInt64

/-- `apply_int64_sign`. -/
def applyInt64SignC (acc : UInt64) (negative : Bool) : CEval (Option Int64) := do
  if negative then
    if 2 ^ 63 < acc then return none
    else if acc = 2 ^ 63 then return some Int64.minValue
    else return some (← neg acc.toInt64)
  else if 2 ^ 63 - 1 < acc then return none
  else return some acc.toInt64

/-- What `parse_int64_str` reads behind the sign. -/
def parseMagnitudeC (digits : List UInt8) (negative : Bool) : CEval (Option Int64) :=
  if digits = [] then return none
  else
    match accumulateU64Decimal digits 0 with
    | none => return none
    | some acc => applyInt64SignC acc negative

/-- `parse_int64_str`. -/
def parseInt64StrC (s : List UInt8) : CEval (Option Int64) :=
  match s with
  | [] => return none
  | b :: rest =>
    if b = 0x2D then parseMagnitudeC rest true
    else if b = 0x2B then parseMagnitudeC rest false
    else parseMagnitudeC s false

/-- `cel_hash_neg_int_token`. -/
def celHashNegIntTokenC (v : Int64) : CEval UInt64 := do
  let magnitude := (← neg (← add v 1)).toUInt64 + 1
  return celMix64 (magnitude ^^^ 0x8000000000000000)

/-- The hash of an int64 key. -/
def celHashIntKeyC (v : Int64) : CEval UInt64 :=
  if 0 ≤ v then return celHashNonnegInteger v.toUInt64 else celHashNegIntTokenC v

/-! ## The ones that are defined -/

theorem writeIntDecimalC_eq (v : Int64) : writeIntDecimalC v = .ok (writeIntDecimal v) := by
  rw [writeIntDecimalC, writeIntDecimal]
  split_ifs with hv hmin
  · rfl
  · rfl
  · rw [neg_eq fun h => hmin (toInt_eq_min_iff.mpr h)]
    rfl

theorem toInt_toInt64_eq_min_iff {acc : UInt64} : acc.toInt64.toInt = -2 ^ 63 ↔ acc = 2 ^ 63 := by
  have hbound : (2 ^ 63 : UInt64) = Int64.minValue.toUInt64 := by
    rw [← UInt64.toNat_inj, toNat_two_pow_63]
    rfl
  rw [← toInt_eq_min_iff, hbound]
  exact ⟨fun h => by rw [← h, UInt64.toUInt64_toInt64], fun h => by rw [h, Int64.toInt64_toUInt64]⟩

theorem applyInt64SignC_eq (acc : UInt64) (negative : Bool) :
    applyInt64SignC acc negative = .ok (applyInt64Sign acc negative) := by
  rw [applyInt64SignC, applyInt64Sign]
  split_ifs with hneg hbig hedge
  · rfl
  · rfl
  · rw [neg_eq fun h => hedge (toInt_toInt64_eq_min_iff.mp h)]
    rfl
  · rfl
  · rfl

theorem parseInt64StrC_eq (s : List UInt8) : parseInt64StrC s = .ok (parseInt64Str s) := by
  have hread : ∀ digits negative,
      parseMagnitudeC digits negative = .ok (parseMagnitude digits negative) := by
    intro digits negative
    rw [parseMagnitudeC, parseMagnitude]
    split_ifs
    · rfl
    · cases accumulateU64Decimal digits 0 with
      | none => rfl
      | some acc => exact applyInt64SignC_eq acc negative
  cases s with
  | nil => rfl
  | cons b rest =>
    rw [parseInt64StrC, parseInt64Str]
    split_ifs <;> exact hread _ _

theorem celHashIntKeyC_eq (v : Int64) : celHashIntKeyC v = .ok (celHashIntKey v) := by
  have hlt := v.toInt_lt
  have hle := v.le_toInt
  have hsign : 0 ≤ v ↔ 0 ≤ v.toInt := Int64.le_iff_toInt_le
  rw [celHashIntKeyC, celHashIntKey]
  split_ifs with hv
  · rfl
  · rw [hsign] at hv
    have hone : (1 : Int64).toInt = 1 := rfl
    have hsum : (v + 1).toInt = v.toInt + 1 := by
      rw [Int64.toInt_add, hone]
      exact Int.bmod_eq_of_le (by omega) (by omega)
    rw [celHashNegIntTokenC, add_eq (by omega) (by omega)]
    change (neg (v + 1) >>= fun x => _) = _
    rw [neg_eq (by omega)]
    rfl

/-! ## The check of a product -/

theorem magnitudeInt64C_eq {a : Int64} (h : a ≠ Int64.minValue) :
    magnitudeInt64C a = .ok (magnitudeInt64 a) := by
  rw [magnitudeInt64C, magnitudeInt64]
  split_ifs
  · rw [neg_eq fun hmin => h (toInt_eq_min_iff.mpr hmin)]
    rfl
  · rfl

/-- **The product is the least int**, and no operand is. -/
def ProductIsLeast (a b : Int64) : Prop :=
  a.toInt * b.toInt = -2 ^ 63 ∧ a ≠ Int64.minValue ∧ b ≠ Int64.minValue

instance (a b : Int64) : Decidable (ProductIsLeast a b) := inferInstanceAs (Decidable (_ ∧ _))

/-- **The check of a product in C** is the check, except where it negates `2⁶³`. -/
theorem int64MulOverflowsC_eq (a b : Int64) : int64MulOverflowsC a b
    = if ProductIsLeast a b then .error .signedOverflow else .ok (int64MulOverflows a b) := by
  rw [int64MulOverflowsC, int64MulOverflows]
  by_cases hzero : a = 0 ∨ b = 0
  · have hproduct : a.toInt * b.toInt = 0 := by
      obtain rfl | rfl := hzero
      · exact zero_mul _
      · exact mul_zero _
    rw [if_pos hzero, if_pos hzero, if_neg fun h => absurd (hproduct.symm.trans h.1) (by norm_num)]
    rfl
  rw [if_neg hzero, if_neg hzero]
  by_cases ha : a = Int64.minValue
  · have hnot : ¬ ProductIsLeast a b := fun h => h.2.1 ha
    rw [if_pos ha, if_pos ha, if_neg hnot]
    rfl
  rw [if_neg ha, if_neg ha]
  by_cases hb : b = Int64.minValue
  · have hnot : ¬ ProductIsLeast a b := fun h => h.2.2 hb
    rw [if_pos hb, if_pos hb, if_neg hnot]
    rfl
  have hiff : ProductIsLeast a b ↔ a.toInt * b.toInt = -2 ^ 63 := and_iff_left ⟨ha, hb⟩
  rw [if_neg hb, if_neg hb, magnitudeInt64C_eq ha, magnitudeInt64C_eq hb, if_congr hiff rfl rfl,
    mul_eq_natAbs a b]
  change (match uint64MulOverflows (magnitudeInt64 a) (magnitudeInt64 b) with
    | none => _
    | some up => _) = _
  rw [uint64MulOverflows_eq, toNat_magnitudeInt64 ha, toNat_magnitudeInt64 hb]
  have hup : (magnitudeInt64 a * magnitudeInt64 b).toNat
      = a.toInt.natAbs * b.toInt.natAbs % 2 ^ 64 := by
    rw [UInt64.toNat_mul, toNat_magnitudeInt64 ha, toNat_magnitudeInt64 hb]
  generalize a.toInt.natAbs * b.toInt.natAbs = product at hup ⊢
  generalize magnitudeInt64 a * magnitudeInt64 b = up at hup ⊢
  by_cases hfits : product < 2 ^ 64
  · rw [if_pos hfits]
    rw [Nat.mod_eq_of_lt hfits] at hup
    have hedge : up = 2 ^ 63 ↔ product = 2 ^ 63 := by
      rw [← UInt64.toNat_inj, hup, toNat_two_pow_63]
    have hover : 2 ^ 63 < up ↔ 2 ^ 63 < product := by
      rw [UInt64.lt_iff_toNat_lt, hup, toNat_two_pow_63]
    simp only
    split_ifs with hsign hbig hleast hleast hbig hleast hleast
    · exact absurd (hover.mp hbig) (by omega)
    · rfl
    · rw [neg_least (toInt_toInt64_eq_min_iff.mpr (hedge.mpr (by omega)))]
      rfl
    · rw [neg_eq fun h => hleast (by rw [hedge.mp (toInt_toInt64_eq_min_iff.mp h)]; rfl)]
      rfl
    · exact absurd hleast (by omega)
    · rfl
    · exact absurd hleast (by omega)
    · rfl
  · rw [if_neg hfits, if_neg (by split_ifs <;> omega)]
    rfl

/-- **Signed operations do not overflow** on any operands or inputs, but in the negation of a product
of `2⁶³`. -/
theorem signedOperations_defined_iff (a b v : Int64) (s : List UInt8) :
    (IsDefined (int64MulOverflowsC a b) ∧ IsDefined (writeIntDecimalC v) ∧
      IsDefined (parseInt64StrC s) ∧ IsDefined (celHashIntKeyC v)) ↔ ¬ ProductIsLeast a b := by
  have hformat : IsDefined (writeIntDecimalC v) := writeIntDecimalC_eq v ▸ isDefined_ok _
  have hparse : IsDefined (parseInt64StrC s) := parseInt64StrC_eq s ▸ isDefined_ok _
  have hhash : IsDefined (celHashIntKeyC v) := celHashIntKeyC_eq v ▸ isDefined_ok _
  rw [and_iff_left ⟨hformat, hparse, hhash⟩, int64MulOverflowsC_eq]
  split_ifs with hleast
  · exact iff_of_false (not_isDefined_error _) (not_not_intro hleast)
  · exact iff_of_true (isDefined_ok _) hleast

/-- `2⁶²` times minus two: the magnitudes multiply to `2⁶³`, which is converted and negated. -/
theorem not_isDefined_int64MulOverflowsC :
    ¬ ∀ a b : Int64, IsDefined (int64MulOverflowsC a b) := by
  intro h
  obtain ⟨r, hr⟩ := h (2 ^ 62) (-2)
  rw [int64MulOverflowsC_eq, if_pos (by decide +kernel)] at hr
  exact nomatch hr

end CelWasm
