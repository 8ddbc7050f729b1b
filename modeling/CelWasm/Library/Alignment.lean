import Mathlib.Data.Nat.Bitwise

/-!
# Library/Alignment — rounding by a mask

Clearing the low bits of a word rounds it down to a multiple of a power of two, so adding a power of
two less one and clearing rounds it up, as long as the sum does not wrap.
-/

/-- **A mask of high bits rounds down.** -/
theorem Nat.and_high_mask {m w k : ℕ} (hk : k ≤ w) (h : m < 2 ^ w) :
    m &&& (2 ^ w - 2 ^ k) = m / 2 ^ k * 2 ^ k := by
  have hmask : 2 ^ w - 2 ^ k = (2 ^ (w - k) - 1) <<< k := by
    rw [Nat.shiftLeft_eq, Nat.sub_mul, ← Nat.pow_add, Nat.sub_add_cancel hk, Nat.one_mul]
  have hshift : m / 2 ^ k * 2 ^ k = (m >>> k) <<< k := by
    rw [Nat.shiftRight_eq_div_pow, Nat.shiftLeft_eq]
  refine Nat.eq_of_testBit_eq fun i => ?_
  rw [hmask, hshift, Nat.testBit_and, Nat.testBit_shiftLeft, Nat.testBit_shiftLeft,
    Nat.testBit_shiftRight, Nat.testBit_two_pow_sub_one]
  by_cases hi : k ≤ i
  · rw [Nat.add_sub_cancel' hi]
    by_cases hhigh : i - k < w - k
    · simp [hi, hhigh]
    · have hzero : m.testBit i = false :=
        Nat.testBit_lt_two_pow (h.trans_le (Nat.pow_le_pow_right (by omega) (by omega)))
      simp [hzero]
  · simp [hi]

/-- `n & ~mask` of a number that does not wrap. -/
theorem UInt32.and_not_mask {m k : ℕ} {mask : UInt32} (hk : k ≤ 32)
    (hmask : mask.toNat = 2 ^ k - 1) (h : m < 2 ^ 32) :
    UInt32.ofNat m &&& ~~~mask = UInt32.ofNat (m / 2 ^ k * 2 ^ k) := by
  have hpow : 2 ^ k ≤ 2 ^ 32 := Nat.pow_le_pow_right (by decide) hk
  have hpos : 0 < 2 ^ k := Nat.two_pow_pos k
  rw [← UInt32.toNat_inj, UInt32.toNat_and, UInt32.toNat_not, UInt32.toNat_ofNat_of_lt' h, hmask,
    UInt32.toNat_ofNat_of_lt' (lt_of_le_of_lt (Nat.div_mul_le_self m _) h), ← Nat.and_high_mask hk h]
  congr 1
  change 4294967296 - 1 - (2 ^ k - 1) = 4294967296 - 2 ^ k
  omega
