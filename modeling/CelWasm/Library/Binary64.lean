import Mathlib.Algebra.Order.Ring.Int
import Mathlib.Tactic.SplitIfs
import Mathlib.Tactic.Tauto

/-!
# Library/Binary64 — IEEE 754 doubles as bit patterns with exact values

A `Binary64` is its 64 bits. Every finite double is a whole multiple of `2⁻¹⁰⁷⁴`, so its exact value
is the integer `scaled`, and comparison, truncation and conversion are integer arithmetic. An
infinity gets the magnitude `2¹⁰²⁴` the encoding would give it, so one comparison serves every
double but a NaN.
-/

namespace CelWasm

/-- A double, by its bits. -/
structure Binary64 where
  bits : UInt64
  deriving DecidableEq, Repr

namespace Binary64

/-- The sign bit. -/
def negative (d : Binary64) : Bool := 2 ^ 63 ≤ d.bits.toNat

/-- The biased exponent. -/
def exponent (d : Binary64) : ℕ := d.bits.toNat / 2 ^ 52 % 2 ^ 11

/-- The stored fraction. -/
def fraction (d : Binary64) : ℕ := d.bits.toNat % 2 ^ 52

def isNaN (d : Binary64) : Bool := d.exponent == 2047 && d.fraction != 0

def isInf (d : Binary64) : Bool := d.exponent == 2047 && d.fraction == 0

/-- The absolute value in units of `2⁻¹⁰⁷⁴`. -/
def magnitude (d : Binary64) : ℕ :=
  if d.exponent = 0 then d.fraction else (2 ^ 52 + d.fraction) * 2 ^ (d.exponent - 1)

/-- **The exact value in units of `2⁻¹⁰⁷⁴`**; both zeros are `0`. -/
def scaled (d : Binary64) : ℤ := if d.negative then -d.magnitude else d.magnitude

/-! ## Comparison -/

/-- IEEE `==`: false on a NaN, and `0.0 == -0.0`. -/
def eq (a b : Binary64) : Bool := !a.isNaN && !b.isNaN && a.scaled == b.scaled

/-- IEEE `<`. -/
def lt (a b : Binary64) : Bool := !a.isNaN && !b.isNaN && a.scaled < b.scaled

/-- IEEE `<=`. -/
def le (a b : Binary64) : Bool := !a.isNaN && !b.isNaN && a.scaled ≤ b.scaled

/-! ## Conversion -/

/-- The scaled value of `1.0`. -/
@[irreducible] def unit : ℤ := 2 ^ 1074

/-- The integer part, rounded toward zero — a C cast, wherever the cast is defined. -/
def truncate (d : Binary64) : ℤ := d.scaled.tdiv unit

/-- The significand of `n`, rounded to 53 bits with ties to even, when `n` has `drop` bits too
many. -/
def roundSignificand (n drop : ℕ) : ℕ :=
  let q := n / 2 ^ drop
  let r := n % 2 ^ drop
  if 2 * r > 2 ^ drop ∨ 2 * r = 2 ^ drop ∧ q % 2 = 1 then q + 1 else q

/-- The bits of the double nearest a natural number below `2¹⁰²³`; a significand that rounds up to
`2⁵³` carries into the exponent by itself. -/
def bitsOfNat (n : ℕ) : ℕ :=
  if n = 0 then 0
  else if n.log2 ≤ 52 then (n.log2 + 1023) * 2 ^ 52 + (n * 2 ^ (52 - n.log2) - 2 ^ 52)
  else (n.log2 + 1023) * 2 ^ 52 + (roundSignificand n (n.log2 - 52) - 2 ^ 52)

/-- **The double nearest an integer**, ties to even. -/
def ofInt (i : ℤ) : Binary64 :=
  ⟨UInt64.ofNat (bitsOfNat i.natAbs + if i < 0 then 2 ^ 63 else 0)⟩

example : ofInt 9007199254740993 = ofInt 9007199254740992 := by decide

/-- The bits of the float nearest a double, ties to even: a unit of the last place of the smallest
floats is `2⁹²⁵` of ours, and what rounds past the largest float is an infinity. -/
def narrow (d : Binary64) : UInt32 :=
  let shift := d.magnitude.log2 - 948
  let bits :=
    if d.isNaN then 255 * 2 ^ 23 + 2 ^ 22 + d.fraction / 2 ^ 29 % 2 ^ 22
    else min (255 * 2 ^ 23) (shift * 2 ^ 23 + roundSignificand d.magnitude (925 + shift))
  UInt32.ofNat (bits + if d.negative then 2 ^ 31 else 0)

example : (⟨0xbfb999999999999a⟩ : Binary64).narrow = 0xbdcccccd := by decide +kernel

/-! ## Order facts -/

theorem le_iff {a b : Binary64} :
    a.le b = true ↔ a.isNaN = false ∧ b.isNaN = false ∧ a.scaled ≤ b.scaled := by
  simp [le, and_assoc]

theorem lt_iff {a b : Binary64} :
    a.lt b = true ↔ a.isNaN = false ∧ b.isNaN = false ∧ a.scaled < b.scaled := by
  simp [lt, and_assoc]

theorem eq_iff {a b : Binary64} :
    a.eq b = true ↔ a.isNaN = false ∧ b.isNaN = false ∧ a.scaled = b.scaled := by
  simp [eq, and_assoc]

theorem eq_comm' (a b : Binary64) : a.eq b = b.eq a := by
  rw [Bool.eq_iff_iff, eq_iff, eq_iff]
  tauto

theorem unit_pos : 0 < unit := by
  unfold unit
  exact Int.pow_pos (by decide)

/-- A nonnegative double truncates to its floor. -/
theorem truncate_of_nonneg {d : Binary64} (h : 0 ≤ d.scaled) : d.truncate = d.scaled / unit :=
  Int.tdiv_eq_ediv_of_nonneg h

theorem truncate_nonneg {d : Binary64} (h : 0 ≤ d.scaled) : 0 ≤ d.truncate := by
  rw [truncate_of_nonneg h]
  exact Int.ediv_nonneg h (Int.le_of_lt unit_pos)

/-- A negative double truncates to minus the floor of its absolute value. -/
theorem truncate_of_neg {d : Binary64} (h : d.scaled < 0) :
    d.truncate = -(-d.scaled / unit) := by
  rw [truncate, ← Int.tdiv_eq_ediv_of_nonneg (by omega), Int.neg_tdiv, Int.neg_neg]

theorem truncate_lt {d : Binary64} {n : ℤ} (h : 0 < n) (hn : d.scaled < n * unit) :
    d.truncate < n := by
  by_cases h0 : 0 ≤ d.scaled
  · rw [truncate_of_nonneg h0]
    exact Int.ediv_lt_of_lt_mul unit_pos hn
  · rw [truncate_of_neg (by omega)]
    have := Int.ediv_nonneg (a := -d.scaled) (by omega) (Int.le_of_lt unit_pos)
    omega

theorem le_truncate_of_nonneg {d : Binary64} {n : ℤ} (h : 0 ≤ d.scaled) (hn : n * unit ≤ d.scaled) :
    n ≤ d.truncate := by
  rw [truncate_of_nonneg h]
  exact (Int.le_ediv_iff_mul_le unit_pos).mpr hn

theorem le_truncate_of_nonpos {d : Binary64} {n : ℤ} (h : n ≤ 0) (hn : n * unit ≤ d.scaled) :
    n ≤ d.truncate := by
  by_cases h0 : 0 ≤ d.scaled
  · exact Int.le_trans h (truncate_nonneg h0)
  · rw [truncate_of_neg (by omega)]
    have hle : -d.scaled / unit ≤ -n := Int.ediv_le_of_le_mul unit_pos (by rw [Int.neg_mul]; omega)
    omega

/-! ## Rounding an integer -/

theorem roundSignificand_cases (n drop : ℕ) :
    roundSignificand n drop = n / 2 ^ drop ∨ roundSignificand n drop = n / 2 ^ drop + 1 := by
  dsimp only [roundSignificand]
  split
  · exact .inr rfl
  · exact .inl rfl

/-- The encoding of a natural number below `2⁶⁴` leaves the sign bit clear. -/
theorem bitsOfNat_lt {n : ℕ} (h : n < 2 ^ 64) : bitsOfNat n < 2 ^ 63 := by
  by_cases h0 : n = 0
  · rw [bitsOfNat, if_pos h0]
    decide
  · have hlog : n.log2 < 64 := (Nat.log2_lt h0).mpr h
    unfold bitsOfNat
    rw [if_neg h0]
    split_ifs with hs
    · have hn : n < 2 ^ (n.log2 + 1) := Nat.lt_log2_self
      have hle : n * 2 ^ (52 - n.log2) < 2 ^ 53 := by
        calc n * 2 ^ (52 - n.log2) < 2 ^ (n.log2 + 1) * 2 ^ (52 - n.log2) :=
              Nat.mul_lt_mul_of_pos_right hn (Nat.two_pow_pos _)
          _ = 2 ^ 53 := by rw [← Nat.pow_add]; congr 1; omega
      omega
    · have hn : n < 2 ^ (n.log2 + 1) := Nat.lt_log2_self
      have hq : n / 2 ^ (n.log2 - 52) < 2 ^ 53 := by
        have hpow : 2 ^ (n.log2 - 52) * 2 ^ 53 = 2 ^ (n.log2 + 1) := by
          rw [← Nat.pow_add]; congr 1; omega
        exact Nat.div_lt_of_lt_mul (hpow ▸ hn)
      rcases roundSignificand_cases n (n.log2 - 52) with hr | hr <;> rw [hr] <;> omega

/-- A natural number converts to a nonnegative double. -/
theorem scaled_ofInt_nonneg {t : ℤ} (h : 0 ≤ t) (ht : t < 2 ^ 64) : 0 ≤ (ofInt t).scaled := by
  have hbits : (ofInt t).bits.toNat < 2 ^ 63 := by
    have := bitsOfNat_lt (n := t.natAbs) (by omega)
    rw [ofInt, if_neg (by omega), Nat.add_zero, UInt64.toNat_ofNat']
    omega
  have hneg : (ofInt t).negative = false := by
    simpa [negative] using hbits
  rw [scaled, hneg]
  exact Int.natCast_nonneg _

/-- **No double lies strictly between `2⁶³ - 1024` and `2⁶³`**: an integer there rounds to one end. -/
theorem ofInt_below_two_pow_63 {t : ℤ} (h : 2 ^ 63 - 1024 ≤ t) (ht : t < 2 ^ 63) :
    ofInt t = ofInt (2 ^ 63 - 1024) ∨ ofInt t = ofInt (2 ^ 63) := by
  obtain ⟨n, rfl⟩ := Int.eq_ofNat_of_zero_le (a := t) (by omega)
  have h0 : n ≠ 0 := by omega
  have hlog : n.log2 = 62 := (Nat.log2_eq_iff h0).mpr ⟨by omega, by omega⟩
  have hbits : bitsOfNat n = 1085 * 2 ^ 52 + (roundSignificand n 10 - 2 ^ 52) := by
    rw [bitsOfNat, if_neg h0, hlog, if_neg (by decide)]
  have hq : n / 2 ^ 10 = 2 ^ 53 - 1 := by omega
  have hcast : ofInt (n : ℤ) = ⟨UInt64.ofNat (bitsOfNat n)⟩ := by
    rw [ofInt, if_neg (by omega)]
    rfl
  rw [hcast, hbits]
  rcases roundSignificand_cases n 10 with hr | hr <;> rw [hr, hq]
  · exact .inl (by decide)
  · exact .inr (by decide)

end Binary64

end CelWasm
