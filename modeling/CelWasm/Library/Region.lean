import Mathlib.Data.Nat.Basic
import Mathlib.Order.Nat
import Mathlib.Tactic.Common

/-!
# Library/Region — runs of bytes that lie apart

A region is a first address and a size. Regions apart share no address; a region within another is
apart from whatever the other is apart from, and the cells of an array are apart from one another.
-/

/-- A run of bytes. -/
structure Region where
  start : ℕ
  size : ℕ

namespace Region

/-- The address after the last byte. -/
def finish (r : Region) : ℕ := r.start + r.size

/-- Every byte of a region is one of the other's. -/
def Within (r s : Region) : Prop := s.start ≤ r.start ∧ r.finish ≤ s.finish

/-- One region ends before the other begins. -/
def Apart (r s : Region) : Prop := r.finish ≤ s.start ∨ s.finish ≤ r.start

instance (r s : Region) : Decidable (r.Within s) := inferInstanceAs (Decidable (_ ∧ _))

instance (r s : Region) : Decidable (r.Apart s) := inferInstanceAs (Decidable (_ ∨ _))

variable {r r' s s' : Region}

theorem Within.refl (r : Region) : r.Within r := ⟨le_rfl, le_rfl⟩

theorem Within.trans (h : r.Within s) (h' : s.Within s') : r.Within s' :=
  ⟨h'.1.trans h.1, h.2.trans h'.2⟩

theorem within_mk {a n b k : ℕ} (h : b ≤ a) (h' : a + n ≤ b + k) : (mk a n).Within ⟨b, k⟩ := ⟨h, h'⟩

theorem Apart.symm (h : r.Apart s) : s.Apart r := Or.symm h

/-- **What lies within regions apart lies apart.** -/
theorem Apart.mono (h : s.Apart s') (hr : r.Within s) (hr' : r'.Within s') : r.Apart r' := by
  obtain h | h := h
  · exact .inl (hr.2.trans (h.trans hr'.1))
  · exact .inr (hr'.2.trans (h.trans hr.1))

/-- A cell of an array. -/
def cell (base stride size i : ℕ) : Region := ⟨base + i * stride, size⟩

variable {base stride size i j count : ℕ}

/-- A cell lies after the ones before it. -/
theorem finish_cell_le (hsize : size ≤ stride) (hij : i < j) :
    (cell base stride size i).finish ≤ (cell base stride size j).start := by
  have hstep : (i + 1) * stride ≤ j * stride := Nat.mul_le_mul_right _ hij
  rw [Nat.succ_mul] at hstep
  change base + i * stride + size ≤ base + j * stride
  omega

/-- **The cells of an array are apart.** -/
theorem apart_cell (hsize : size ≤ stride) (hij : i ≠ j) :
    (cell base stride size i).Apart (cell base stride size j) :=
  (lt_or_gt_of_ne hij).imp (finish_cell_le hsize) (finish_cell_le hsize)

end Region
