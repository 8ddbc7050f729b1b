import Mathlib.Data.Fintype.Card
import Mathlib.Data.Nat.ModEq
import Mathlib.Data.Fintype.EquivFin
import Mathlib.Data.Nat.Prime.Basic
import Mathlib.Tactic.Ring

/-!
# Library/TriangularProbe — triangular probing of a power-of-two table

A probe that starts at `start` and moves by `width`, `2 * width`, `3 * width`, … over a table of
`width * 2 ^ m` slots meets every slot within its first `2 ^ m` groups of `width` consecutive slots:
the triangular numbers run through every residue mod `2 ^ m`.
-/

namespace CelWasm

namespace TriangularProbe

/-- The `t`-th triangular number. -/
def triangle : ℕ → ℕ
  | 0 => 0
  | t + 1 => triangle t + (t + 1)

theorem two_mul_triangle : ∀ t : ℕ, 2 * triangle t = t * (t + 1)
  | 0 => rfl
  | t + 1 => by
    rw [triangle, Nat.mul_add, two_mul_triangle t]
    ring

/-- Twice the gap between two triangular numbers factors into an odd and an even part. -/
theorem two_mul_triangle_sub {a b : ℕ} (h : a ≤ b) :
    2 * (triangle b - triangle a) = (b - a) * (a + b + 1) := by
  obtain ⟨c, rfl⟩ := Nat.exists_eq_add_of_le h
  rw [Nat.mul_sub, two_mul_triangle, two_mul_triangle, Nat.add_sub_cancel_left]
  refine Nat.sub_eq_of_eq_add ?_
  ring

/-- The triangular numbers below `2 ^ m` are distinct mod `2 ^ m`, in order. -/
theorem triangle_inj_of_le {m a b : ℕ} (hab : a ≤ b) (hb : b < 2 ^ m)
    (h : triangle a ≡ triangle b [MOD 2 ^ m]) : a = b := by
  have hmono : triangle a ≤ triangle b := by
    have ha := two_mul_triangle a
    have hb := two_mul_triangle b
    have hle : a * (a + 1) ≤ b * (b + 1) := Nat.mul_le_mul hab (Nat.succ_le_succ hab)
    omega
  have hdvd : 2 ^ (m + 1) ∣ (b - a) * (a + b + 1) := by
    rw [← two_mul_triangle_sub hab, Nat.pow_succ, Nat.mul_comm]
    exact Nat.mul_dvd_mul_left 2 ((Nat.modEq_iff_dvd' hmono).mp h)
  have hpow : 2 ^ (m + 1) = 2 * 2 ^ m := by rw [Nat.pow_succ, Nat.mul_comm]
  rcases Nat.even_or_odd (b - a) with heven | hodd
  · have hcop : Nat.Coprime (2 ^ (m + 1)) (a + b + 1) := by
      refine (Nat.coprime_two_left.mpr ?_).pow_left _
      rw [Nat.odd_iff]
      rw [Nat.even_iff] at heven
      omega
    have := Nat.eq_zero_of_dvd_of_lt (hcop.dvd_of_dvd_mul_right hdvd) (by omega)
    omega
  · have hcop : Nat.Coprime (2 ^ (m + 1)) (b - a) :=
      (Nat.coprime_two_left.mpr hodd).pow_left _
    have := Nat.le_of_dvd (by omega) (hcop.dvd_of_dvd_mul_left hdvd)
    omega

/-- **The triangular numbers below `2 ^ m` are distinct mod `2 ^ m`.** -/
theorem triangle_inj {m a b : ℕ} (ha : a < 2 ^ m) (hb : b < 2 ^ m)
    (h : triangle a ≡ triangle b [MOD 2 ^ m]) : a = b := by
  rcases Nat.le_total a b with hab | hba
  · exact triangle_inj_of_le hab hb h
  · exact (triangle_inj_of_le hba ha h.symm).symm

/-- **Every residue mod `2 ^ m` is a triangular number's**, from any starting residue. -/
theorem exists_triangle_modEq (m start r : ℕ) :
    ∃ t < 2 ^ m, start + triangle t ≡ r [MOD 2 ^ m] := by
  have hpos : 0 < 2 ^ m := Nat.two_pow_pos m
  let f : Fin (2 ^ m) → Fin (2 ^ m) := fun t => ⟨(start + triangle t) % 2 ^ m, Nat.mod_lt _ hpos⟩
  have hinj : Function.Injective f := fun a b hab =>
    Fin.ext (triangle_inj a.isLt b.isLt (Nat.ModEq.add_left_cancel' start (Fin.mk.inj hab)))
  obtain ⟨t, ht⟩ := (Finite.injective_iff_surjective.mp hinj) ⟨r % 2 ^ m, Nat.mod_lt _ hpos⟩
  exact ⟨t, t.isLt, Fin.mk.inj ht⟩

/-! ## The probe -/

/-- Where the `t`-th group of `width` slots begins, in a table of `slots`. -/
def groupStart (width slots start t : ℕ) : ℕ := (start + width * triangle t) % slots

/-- One step of the probe: the stride grows by `width` each time. -/
theorem groupStart_succ (width slots start t : ℕ) :
    groupStart width slots start (t + 1)
      = (groupStart width slots start t + width * (t + 1)) % slots := by
  rw [groupStart, groupStart, triangle, Nat.mul_add, ← Nat.add_assoc, Nat.mod_add_mod]

/-- **The first `2 ^ m` groups cover the table.** -/
theorem exists_group_covers {width m : ℕ} (hw : 0 < width) (start : ℕ) {slot : ℕ}
    (hslot : slot < width * 2 ^ m) :
    ∃ t < 2 ^ m, ∃ lane < width,
      (groupStart width (width * 2 ^ m) start t + lane) % (width * 2 ^ m) = slot := by
  -- measured from `start`, the slot lies in the block of `width` number `d / width`
  let d := slot + width * 2 ^ m - start % (width * 2 ^ m)
  have hstart : start % (width * 2 ^ m) < width * 2 ^ m := Nat.mod_lt _ (by omega)
  obtain ⟨t, ht, hmod⟩ := exists_triangle_modEq m 0 (d / width)
  refine ⟨t, ht, d % width, Nat.mod_lt _ hw, ?_⟩
  have hblock : width * triangle t ≡ width * (d / width) [MOD width * 2 ^ m] :=
    (Nat.zero_add (triangle t) ▸ hmod).mul_left' width
  have hd : start % (width * 2 ^ m) + d = slot + width * 2 ^ m := by omega
  have key : start + width * triangle t + d % width ≡ slot [MOD width * 2 ^ m] := by
    calc start + width * triangle t + d % width
        ≡ start % (width * 2 ^ m) + width * (d / width) + d % width [MOD width * 2 ^ m] :=
          ((Nat.mod_modEq _ _).symm.add hblock).add_right _
      _ = slot + width * 2 ^ m := by rw [Nat.add_assoc, Nat.div_add_mod, hd]
      _ ≡ slot [MOD width * 2 ^ m] := by simp [Nat.ModEq]
  rw [groupStart, Nat.mod_add_mod]
  exact Eq.trans key (Nat.mod_eq_of_lt hslot)

end TriangularProbe

end CelWasm
