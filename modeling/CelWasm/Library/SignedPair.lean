import Mathlib.Algebra.Order.Ring.Int

/-!
# Library/SignedPair — a number as wholes and a part of one

A number of small units is kept as so many wholes of `base` units and a part of less than one whole,
on the same side of zero. There is one such pair for a number, and its wholes come first in the order.
Wholes and a part of up to two of them are brought into this form in two steps: a carry, and what
brings the signs together. The first moves the wholes either way, the second toward zero.

    (w, p), |p| < 2·base  ──carried──▸  |p| < base  ──align──▸  0 ≤ w·p
-/

namespace CelWasm

/-- **A signed pair**: wholes, and a part that is less than one of them and on their side of zero. -/
@[ext] structure SignedPair (base : ℤ) where
  whole : ℤ
  part : ℤ
  part_lt : part < base
  neg_lt_part : -base < part
  part_nonneg : 0 < whole → 0 ≤ part
  part_nonpos : whole < 0 → part ≤ 0

/-- Units from wholes and a part. -/
def units (base whole part : ℤ) : ℤ := whole * base + part

theorem units_add_one (base whole part : ℤ) :
    units base (whole + 1) (part - base) = units base whole part := by
  rw [units, units, add_mul, one_mul]
  omega

theorem units_sub_one (base whole part : ℤ) :
    units base (whole - 1) (part + base) = units base whole part := by
  rw [units, units, sub_mul, one_mul]
  omega

/-- **A carry**, from a part of up to two wholes. -/
def carried (base whole part : ℤ) : ℤ × ℤ :=
  if base ≤ part then (whole + 1, part - base)
  else if part ≤ -base then (whole - 1, part + base)
  else (whole, part)

theorem units_carried (base whole part : ℤ) :
    units base (carried base whole part).1 (carried base whole part).2 = units base whole part := by
  rw [carried]
  split_ifs
  · exact units_add_one base whole part
  · exact units_sub_one base whole part
  · rfl

theorem carried_snd_lt {base whole part : ℤ} (hlo : -(2 * base) < part) (hhi : part < 2 * base) :
    -base < (carried base whole part).2 ∧ (carried base whole part).2 < base := by
  rw [carried]
  split_ifs <;> dsimp only <;> omega

/-- The signs brought together. -/
def aligned (base whole part : ℤ) : ℤ × ℤ :=
  if 0 < whole ∧ part < 0 then (whole - 1, part + base)
  else if whole < 0 ∧ 0 < part then (whole + 1, part - base)
  else (whole, part)

theorem units_aligned (base whole part : ℤ) :
    units base (aligned base whole part).1 (aligned base whole part).2 = units base whole part := by
  rw [aligned]
  split_ifs
  · exact units_sub_one base whole part
  · exact units_add_one base whole part
  · rfl

namespace SignedPair

variable {base : ℤ}

/-- The number. -/
def value (p : SignedPair base) : ℤ := units base p.whole p.part

/-- The wholes come first. -/
theorem value_lt_of_whole_lt {p q : SignedPair base} (h : p.whole < q.whole) : p.value < q.value := by
  have hp := p.part_lt
  have hp' := p.neg_lt_part
  have hq := q.neg_lt_part
  have hle : (p.whole + 1) * base ≤ q.whole * base :=
    mul_le_mul_of_nonneg_right h (by omega)
  rw [add_mul, one_mul] at hle
  rw [value, value, units, units]
  by_cases hpos : 0 < q.whole
  · have := q.part_nonneg hpos
    omega
  · have := p.part_nonpos (by omega)
    omega

/-- **The order of the pairs**, the wholes first, is the order of the numbers. -/
theorem value_lt_iff {p q : SignedPair base} :
    p.value < q.value ↔ p.whole < q.whole ∨ p.whole = q.whole ∧ p.part < q.part := by
  obtain h | h | h := lt_trichotomy p.whole q.whole
  · exact iff_of_true (value_lt_of_whole_lt h) (.inl h)
  · have hparts : p.value < q.value ↔ p.part < q.part := by
      rw [value, value, units, units, h, Int.add_lt_add_iff_left]
    rw [hparts]
    omega
  · have hlt := value_lt_of_whole_lt h
    refine iff_of_false (by omega) ?_
    omega

/-- **There is one pair for a number.** -/
theorem value_injective : Function.Injective (@value base) := by
  intro p q h
  have hlt := (value_lt_iff (p := p) (q := q)).not.mp (by omega)
  have hgt := (value_lt_iff (p := q) (q := p)).not.mp (by omega)
  exact SignedPair.ext (by omega) (by omega)

/-- Of wholes and a part on either side of zero. -/
def align (whole part : ℤ) (hlo : -base < part) (hhi : part < base) : SignedPair base where
  whole := (aligned base whole part).1
  part := (aligned base whole part).2
  part_lt := by rw [aligned]; split_ifs <;> dsimp only <;> omega
  neg_lt_part := by rw [aligned]; split_ifs <;> dsimp only <;> omega
  part_nonneg := by rw [aligned]; split_ifs <;> dsimp only <;> omega
  part_nonpos := by rw [aligned]; split_ifs <;> dsimp only <;> omega

end SignedPair

end CelWasm
