import CelWasm.Runtime.MapHash

/-!
# Runtime/MapKey — what a map key stands for

A stored key stands for a bool, an integer or a string; a query key of any kind stands for one of
those or for nothing a map can hold. `celMapKeyEq` against a stored key is equality of what the two
stand for (`celMapKeyEq_iff`), which makes it an equivalence on stored keys that the hash respects.
-/

namespace CelWasm

/-- What a stored key stands for. -/
inductive KeyClass
  | bool (b : Bool)
  | integer (z : ℤ)
  | string (s : List UInt8)
  deriving DecidableEq, Repr

/-- The integer a double stands for as a key, if it converts without loss. -/
def doubleKeyInteger (d : Binary64) : Option ℤ :=
  match doubleAsInt d with
  | some i => some i.toInt
  | none => (doubleAsUint d).map fun u => (u.toNat : ℤ)

/-- **What a key stands for**; `none` for a value that equals no stored key. -/
def keyClass : CelValue → Option KeyClass
  | .bool b => some (.bool b)
  | .int i => some (.integer i.toInt)
  | .uint u => some (.integer u.toNat)
  | .double d => (doubleKeyInteger d).map .integer
  | .string s => some (.string s)
  | _ => none

/-! ## Doubles as keys -/

/-- The windows of the two conversions, by exact value. -/
theorem window_bounds :
    kMaxDoubleAsInt = Binary64.ofInt (2 ^ 63 - 1024) ∧
      kMaxDoubleAsInt.scaled = (2 ^ 63 - 1024) * Binary64.unit ∧
      kMaxDoubleAsInt.scaled ≤ kMaxDoubleAsUint.scaled ∧
      kMaxDoubleAsInt.isNaN = false ∧ kMaxDoubleAsUint.isNaN = false ∧
      kDoubleToIntMin.isNaN = false ∧ kDoubleToIntMin.scaled ≤ 0 := by
  decide +kernel

attribute [local irreducible] Binary64.ofInt Binary64.scaled Binary64.truncate

/-- **`double_as_int`, by exact value**: in the window, and equal to its own integer part. -/
theorem doubleAsInt_eq_some {d : Binary64} {i : Int64} :
    doubleAsInt d = some i ↔ kDoubleToIntMin.le d = true ∧ d.le kMaxDoubleAsInt = true ∧
      (Binary64.ofInt d.truncate).eq d = true ∧ i.toInt = d.truncate := by
  by_cases hlo : kDoubleToIntMin.le d = true
  · by_cases hhi : d.le kMaxDoubleAsInt = true
    · by_cases hexact : (Binary64.ofInt d.truncate).eq d = true
      · have hmin : int64Min ≤ d.truncate := by
          refine Binary64.le_truncate_of_nonpos (by decide) ?_
          rw [← scaled_bounds.1]
          exact (Binary64.le_iff.mp hlo).2.2
        have hmax : d.truncate < 2 ^ 63 :=
          Binary64.truncate_lt (by decide)
            ((Binary64.le_iff.mp hhi).2.2.trans_lt scaled_bounds.2.2.2.2.1)
        have hcast : (Int64.ofInt d.truncate).toInt = d.truncate :=
          Int64.toInt_ofInt_of_le hmin hmax
        simp only [doubleAsInt, hlo, hhi, hexact, Bool.not_true, Bool.or_self, Bool.false_eq_true,
          if_false, Option.some.injEq, true_and]
        exact ⟨fun h => h ▸ hcast, fun h => Int64.toInt.inj (hcast.trans h.symm)⟩
      · simp [doubleAsInt, hlo, hhi, hexact]
    · simp [doubleAsInt, hlo, hhi]
  · simp [doubleAsInt, hlo]

/-- **`double_as_uint`, by exact value.** -/
theorem doubleAsUint_eq_some {d : Binary64} {u : UInt64} :
    doubleAsUint d = some u ↔ (Binary64.ofInt 0).le d = true ∧ d.le kMaxDoubleAsUint = true ∧
      (Binary64.ofInt d.truncate).eq d = true ∧ (u.toNat : ℤ) = d.truncate := by
  by_cases hlo : (Binary64.ofInt 0).le d = true
  · by_cases hhi : d.le kMaxDoubleAsUint = true
    · by_cases hexact : (Binary64.ofInt d.truncate).eq d = true
      · have hpos : 0 ≤ d.scaled := scaled_bounds.2.1 ▸ (Binary64.le_iff.mp hlo).2.2
        have hmin : 0 ≤ d.truncate := Binary64.truncate_nonneg hpos
        have hmax : d.truncate < 2 ^ 64 :=
          Binary64.truncate_lt (by decide)
            ((Binary64.le_iff.mp hhi).2.2.trans_lt scaled_bounds.2.2.2.2.2)
        have hcast : ((UInt64.ofNat d.truncate.toNat).toNat : ℤ) = d.truncate := by
          rw [UInt64.toNat_ofNat']
          omega
        simp only [doubleAsUint, hlo, hhi, hexact, Bool.not_true, Bool.or_self, Bool.false_eq_true,
          if_false, Option.some.injEq, true_and]
        exact ⟨fun h => h ▸ hcast,
          fun h => UInt64.toNat.inj (Int.ofNat_inj.mp (hcast.trans h.symm))⟩
      · simp [doubleAsUint, hlo, hhi, hexact]
    · simp [doubleAsUint, hlo, hhi]
  · simp [doubleAsUint, hlo]

/-- A nonnegative double that is exactly an int64 is exactly a uint64. -/
theorem doubleAsUint_of_doubleAsInt {d : Binary64} {i : Int64} (h : doubleAsInt d = some i)
    (hi : 0 ≤ i.toInt) : ∃ u, doubleAsUint d = some u ∧ (u.toNat : ℤ) = i.toInt := by
  obtain ⟨-, hhi, hexact, hcast⟩ := doubleAsInt_eq_some.mp h
  obtain ⟨hnan, -, hle⟩ := Binary64.le_iff.mp hhi
  have ht : d.truncate < 2 ^ 64 := by
    have := i.toInt_lt
    omega
  have hpos : 0 ≤ d.scaled :=
    (Binary64.eq_iff.mp hexact).2.2 ▸ Binary64.scaled_ofInt_nonneg (hcast ▸ hi) ht
  refine ⟨UInt64.ofNat d.truncate.toNat, doubleAsUint_eq_some.mpr ⟨?_, ?_, hexact, ?_⟩, ?_⟩
  · exact Binary64.le_iff.mpr ⟨isNaN_bounds.2.1, hnan, scaled_bounds.2.1.trans_le hpos⟩
  · exact Binary64.le_iff.mpr ⟨hnan, window_bounds.2.2.2.2.1, hle.trans window_bounds.2.2.1⟩
  · rw [UInt64.toNat_ofNat']
    omega
  · rw [UInt64.toNat_ofNat']
    omega

/-- **A double that is exactly a uint64 but not an int64 is past `INT64_MAX`** — there is no double
in the gap between the two windows. -/
theorem two_pow_63_le_of_doubleAsInt_eq_none {d : Binary64} {u : UInt64}
    (h : doubleAsUint d = some u) (hnone : doubleAsInt d = none) : 2 ^ 63 ≤ u.toNat := by
  obtain ⟨hlo, -, hexact, hcast⟩ := doubleAsUint_eq_some.mp h
  obtain ⟨-, hnan, hpos⟩ := Binary64.le_iff.mp hlo
  rw [scaled_bounds.2.1] at hpos
  by_contra hlt
  have ht : d.truncate < 2 ^ 63 := by omega
  have hmin : kDoubleToIntMin.le d = true :=
    Binary64.le_iff.mpr ⟨window_bounds.2.2.2.2.2.1, hnan, window_bounds.2.2.2.2.2.2.trans hpos⟩
  have habove : kMaxDoubleAsInt.scaled < d.scaled := by
    by_contra hle
    have hhi : d.le kMaxDoubleAsInt = true :=
      Binary64.le_iff.mpr ⟨hnan, window_bounds.2.2.2.1, not_lt.mp hle⟩
    have hi : (Int64.ofInt d.truncate).toInt = d.truncate :=
      Int64.toInt_ofInt_of_le (by omega) ht
    rw [doubleAsInt_eq_some.mpr ⟨hmin, hhi, hexact, hi⟩] at hnone
    simp at hnone
  have hge : 2 ^ 63 - 1024 ≤ d.truncate :=
    Binary64.le_truncate_of_nonneg hpos (window_bounds.2.1 ▸ habove.le)
  rw [Binary64.eq_iff] at hexact
  rcases Binary64.ofInt_below_two_pow_63 hge ht with hend | hend
  · rw [hend, ← window_bounds.1] at hexact
    exact absurd hexact.2.2 habove.ne
  · rw [hend, scaled_bounds.2.2.1] at hexact
    exact absurd (Binary64.le_truncate_of_nonneg hpos hexact.2.2.le) (not_le.mpr ht)

/-! ## Keys by what they stand for -/

/-- An int64 key matches the double that stands for it. -/
theorem doubleAsInt_iff {d : Binary64} {i : Int64} :
    doubleAsInt d = some i ↔ doubleKeyInteger d = some i.toInt := by
  unfold doubleKeyInteger
  cases hint : doubleAsInt d with
  | some j => simp [Int64.toInt_inj]
  | none =>
    simp only [reduceCtorEq, Option.map_eq_some_iff, false_iff, not_exists, not_and]
    intro u hu hcast
    have := two_pow_63_le_of_doubleAsInt_eq_none hu hint
    have := i.toInt_lt
    omega

/-- A uint64 key matches the double that stands for it. -/
theorem doubleAsUint_iff {d : Binary64} {u : UInt64} :
    doubleAsUint d = some u ↔ doubleKeyInteger d = some (u.toNat : ℤ) := by
  unfold doubleKeyInteger
  cases hint : doubleAsInt d with
  | some j =>
    simp only [Option.some.injEq]
    refine ⟨fun hu => ?_, fun hj => ?_⟩
    · exact (doubleAsInt_eq_some.mp hint).2.2.2.trans (doubleAsUint_eq_some.mp hu).2.2.2.symm
    · obtain ⟨w, hw, hcast⟩ := doubleAsUint_of_doubleAsInt hint (by omega)
      rw [hw, UInt64.toNat.inj (Int.ofNat_inj.mp (hcast.trans hj))]
  | none =>
    simp only [Option.map_eq_some_iff, Int.natCast_inj, UInt64.toNat_inj]
    exact ⟨fun h => ⟨u, h, rfl⟩, fun ⟨w, hw, hwu⟩ => hwu ▸ hw⟩

/-- The ladder calls an int64 and a uint64 equal when they are the same integer. -/
theorem cmpIntVsUint_iff {a : Int64} {b : UInt64} :
    cmpIntVsUint a b = .equal ↔ a.toInt = (b.toNat : ℤ) := by
  have hcond : a.toInt = if 2 * a.toUInt64.toNat < 2 ^ 64 then (a.toUInt64.toNat : ℤ)
      else a.toUInt64.toNat - (2 ^ 64 : ℕ) := BitVec.toInt_eq_toNat_cond a.toBitVec
  have hlt := a.toUInt64.toNat_lt
  rw [cmpIntVsUint_eq_equal, Int64.le_iff_toInt_le, Int64.toInt_zero, ← UInt64.toNat_inj]
  have := b.toNat_lt
  split_ifs at hcond <;> omega

/-- **Against a stored key, `cel_map_key_eq` is equality of what the keys stand for.** -/
theorem celMapKeyEq_iff {k q : CelValue} (hk : isValidMapKeyKind k = true) :
    celMapKeyEq k q = true ↔ keyClass k = keyClass q := by
  cases k with
  | bool b => cases q <;> simp [celMapKeyEq, celValueEq, isNumericKind, keyClass]
  | string s => cases q <;> simp [celMapKeyEq, celValueEq, isNumericKind, keyClass]
  | int i =>
    cases q with
    | int j =>
      simp [celMapKeyEq, celNumericKeyEq, isNumericKind, numericCompareKernel, keyClass,
        cmpI64_eq_equal, Int64.toInt_inj]
    | uint u =>
      simp [celMapKeyEq, celNumericKeyEq, isNumericKind, numericCompareKernel, keyClass,
        cmpIntVsUint_iff]
    | double d =>
      simp [celMapKeyEq, celNumericKeyEq, isNumericKind, keyClass, doubleMatchesInteger,
        doubleAsInt_iff]
    | _ => simp [celMapKeyEq, celValueEq, isNumericKind, keyClass]
  | uint u =>
    cases q with
    | int j =>
      simp [celMapKeyEq, celNumericKeyEq, isNumericKind, numericCompareKernel, keyClass,
        cmpIntVsUint_iff]
      exact eq_comm
    | uint v =>
      simp [celMapKeyEq, celNumericKeyEq, isNumericKind, numericCompareKernel, keyClass,
        cmpU64_eq_equal, ← UInt64.toNat_inj]
    | double d =>
      simp [celMapKeyEq, celNumericKeyEq, isNumericKind, keyClass, doubleMatchesInteger,
        doubleAsUint_iff]
    | _ => simp [celMapKeyEq, celValueEq, isNumericKind, keyClass]
  | _ => exact absurd hk Bool.false_ne_true

/-- Two stored keys that match one query match each other. -/
theorem celMapKeyEq_trans {k l q : CelValue} (hk : isValidMapKeyKind k = true)
    (hl : isValidMapKeyKind l = true) (hkq : celMapKeyEq k q = true)
    (hlq : celMapKeyEq l q = true) : celMapKeyEq k l = true := by
  rw [celMapKeyEq_iff hk] at hkq ⊢
  rw [celMapKeyEq_iff hl] at hlq
  exact hkq.trans hlq.symm

/-! ## The hash -/

/-- Two doubles of one exact value hash alike. -/
theorem celHashDoubleKey_congr {d e : Binary64} (h : d.eq e = true) :
    celHashDoubleKey d = celHashDoubleKey e := by
  obtain ⟨hd, he, hscaled⟩ := Binary64.eq_iff.mp h
  have htrunc : d.truncate = e.truncate := by
    rw [Binary64.truncate, Binary64.truncate, hscaled]
  have hle : ∀ c : Binary64, c.le d = c.le e := fun c => by
    rw [Binary64.le, Binary64.le, hd, he, hscaled]
  have hlt : ∀ c : Binary64, d.lt c = e.lt c := fun c => by
    rw [Binary64.lt, Binary64.lt, hd, he, hscaled]
  have heq : ∀ c : Binary64, c.eq d = c.eq e := fun c => by
    rw [Binary64.eq, Binary64.eq, hd, he, hscaled]
  rw [celHashDoubleKey, celHashDoubleKey, hd, he, hle, hle, hlt, hlt, htrunc, heq]

/-- Keys that are not both numbers hash alike if they are equal values. -/
theorem celMapKeyHash_congr_of_not_numeric {k q : CelValue}
    (hnumeric : ¬ (isNumericKind k && isNumericKind q) = true) (h : celMapKeyEq k q = true) :
    celMapKeyHash k = celMapKeyHash q := by
  unfold celMapKeyEq celValueEq at h
  rw [if_neg hnumeric, if_neg hnumeric] at h
  split at h
  · rw [eq_of_beq h]
  · rw [eq_of_beq h]
  · rw [eq_of_beq h]
  · rfl
  · rfl
  · rfl
  · rfl
  · rfl
  · exact absurd h Bool.false_ne_true

/-- **The load-bearing invariant of the hash** — keys that compare equal hash alike. -/
theorem celMapKeyHash_congr {k q : CelValue} (h : celMapKeyEq k q = true) :
    celMapKeyHash k = celMapKeyHash q := by
  have mixed : ∀ (i : Int64) (u : UInt64), i.toInt = (u.toNat : ℤ) →
      celHashIntKey i = celHashNonnegInteger u := by
    intro i u hiu
    obtain ⟨h0, rfl⟩ := cmpIntVsUint_eq_equal.mp (cmpIntVsUint_iff.mpr hiu)
    exact celHashIntKey_of_nonneg h0
  by_cases hnumeric : (isNumericKind k && isNumericKind q) = true
  swap
  · exact celMapKeyHash_congr_of_not_numeric hnumeric h
  cases k with
  | int i =>
    rw [celMapKeyEq_iff rfl] at h
    cases q with
    | int j => simp_all [keyClass, Int64.toInt_inj]
    | uint u => exact mixed i u (by simpa [keyClass] using h)
    | double d =>
      exact (celHashDoubleKey_of_doubleAsInt (doubleAsInt_iff.mpr
        (by simpa [keyClass, eq_comm] using h))).symm
    | _ => exact absurd hnumeric Bool.false_ne_true
  | uint u =>
    rw [celMapKeyEq_iff rfl] at h
    cases q with
    | int j => exact (mixed j u (by simpa [keyClass, eq_comm] using h)).symm
    | uint v =>
      have huv : u = v := by simpa [keyClass, ← UInt64.toNat_inj, Int.natCast_inj] using h
      rw [huv]
    | double d =>
      exact (celHashDoubleKey_of_doubleAsUint (doubleAsUint_iff.mpr
        (by simpa [keyClass, eq_comm] using h))).symm
    | _ => exact absurd hnumeric Bool.false_ne_true
  | double d =>
    cases q with
    | int i =>
      exact celHashDoubleKey_of_doubleAsInt
        (by simpa [celMapKeyEq, celNumericKeyEq, isNumericKind, doubleMatchesInteger] using h)
    | uint u =>
      exact celHashDoubleKey_of_doubleAsUint
        (by simpa [celMapKeyEq, celNumericKeyEq, isNumericKind, doubleMatchesInteger] using h)
    | double e =>
      exact celHashDoubleKey_congr
        (by simpa [celMapKeyEq, celNumericKeyEq, isNumericKind] using h)
    | _ => exact absurd hnumeric Bool.false_ne_true
  | _ => exact absurd hnumeric Bool.false_ne_true

end CelWasm
