import Mathlib.Data.Nat.Digits.Lemmas

/-!
# Library/DecimalDigits — numerals in ASCII

A numeral is one digit or more, read from the left. Written out and read back it is the same number:
the digits of `Nat.digits`, which come from the right.
-/

namespace CelWasm

/-! ## Digits -/

/-- An ASCII digit. -/
def IsDigit (b : UInt8) : Prop := 0x30 ≤ b ∧ b ≤ 0x39

instance : DecidablePred IsDigit := fun _ => inferInstanceAs (Decidable (_ ∧ _))

/-- The digit of a number below ten. -/
def digitByte (d : ℕ) : UInt8 := UInt8.ofNat (0x30 + d)

/-- The number of a digit. -/
def digitValue (b : UInt8) : ℕ := b.toNat - 0x30

theorem isDigit_iff {b : UInt8} : IsDigit b ↔ 48 ≤ b.toNat ∧ b.toNat ≤ 57 := by
  rw [IsDigit, UInt8.le_iff_toNat_le, UInt8.le_iff_toNat_le]
  rfl

theorem toNat_digitByte {d : ℕ} (h : d < 10) : (digitByte d).toNat = 48 + d := by
  rw [digitByte, UInt8.toNat_ofNat']
  omega

theorem isDigit_digitByte {d : ℕ} (h : d < 10) : IsDigit (digitByte d) := by
  rw [isDigit_iff, toNat_digitByte h]
  omega

theorem digitValue_digitByte {d : ℕ} (h : d < 10) : digitValue (digitByte d) = d := by
  rw [digitValue, toNat_digitByte h]
  omega

/-! ## Numerals -/

/-- A numeral. -/
def IsNumeral (s : List UInt8) : Prop := s ≠ [] ∧ ∀ b ∈ s, IsDigit b

/-- **The number a numeral denotes.** -/
def denoted (s : List UInt8) : ℕ := Nat.ofDigits 10 (s.reverse.map digitValue)

@[simp] theorem denoted_nil : denoted [] = 0 := rfl

theorem denoted_cons (b : UInt8) (s : List UInt8) :
    denoted (b :: s) = digitValue b * 10 ^ s.length + denoted s := by
  rw [denoted, List.reverse_cons, List.map_append, Nat.ofDigits_append, List.length_map,
    List.length_reverse, List.map_singleton, Nat.ofDigits_singleton, ← denoted]
  ring

/-- **A number written in decimal**, zero as one digit. -/
def numeral (n : ℕ) : List UInt8 :=
  if n = 0 then [0x30] else ((Nat.digits 10 n).map digitByte).reverse

theorem numeral_of_ne_zero {n : ℕ} (h : n ≠ 0) :
    numeral n = ((Nat.digits 10 n).map digitByte).reverse := if_neg h

theorem isNumeral_numeral (n : ℕ) : IsNumeral (numeral n) := by
  obtain rfl | h := eq_or_ne n 0
  · exact ⟨List.cons_ne_nil _ _, List.forall_mem_singleton.mpr (by decide)⟩
  · rw [numeral_of_ne_zero h]
    refine ⟨?_, fun b hb => ?_⟩
    · rw [ne_eq, List.reverse_eq_nil_iff, List.map_eq_nil_iff]
      exact Nat.digits_ne_nil_iff_ne_zero.mpr h
    · obtain ⟨d, hd, rfl⟩ := List.mem_map.mp (List.mem_reverse.mp hb)
      exact isDigit_digitByte (Nat.digits_lt_base (by norm_num) hd)

/-- **It denotes the number.** -/
@[simp] theorem denoted_numeral (n : ℕ) : denoted (numeral n) = n := by
  obtain rfl | h := eq_or_ne n 0
  · rfl
  · have hvalues : ((Nat.digits 10 n).map digitByte).map digitValue = Nat.digits 10 n := by
      rw [List.map_map]
      refine (List.map_congr_left fun d hd => ?_).trans (List.map_id _)
      exact digitValue_digitByte (Nat.digits_lt_base (by norm_num) hd)
    rw [numeral_of_ne_zero h, denoted, List.reverse_reverse, hvalues, Nat.ofDigits_digits]

/-! ## Signs -/

/-- **A numeral behind an optional sign**, and the integer it denotes. -/
inductive Denotes : List UInt8 → ℤ → Prop
  | bare {s : List UInt8} (h : IsNumeral s) : Denotes s (denoted s)
  | plus {s : List UInt8} (h : IsNumeral s) : Denotes (0x2B :: s) (denoted s)
  | minus {s : List UInt8} (h : IsNumeral s) : Denotes (0x2D :: s) (-denoted s)

/-- …or behind an optional plus. -/
inductive DenotesNat : List UInt8 → ℕ → Prop
  | bare {s : List UInt8} (h : IsNumeral s) : DenotesNat s (denoted s)
  | plus {s : List UInt8} (h : IsNumeral s) : DenotesNat (0x2B :: s) (denoted s)

theorem not_denotes_nil (v : ℤ) : ¬ Denotes [] v := by
  intro h
  generalize hs : ([] : List UInt8) = s at h
  cases h with
  | bare h => exact h.1 hs.symm
  | plus _ | minus _ => exact nomatch hs

theorem not_denotesNat_nil (v : ℕ) : ¬ DenotesNat [] v := by
  intro h
  generalize hs : ([] : List UInt8) = s at h
  cases h with
  | bare h => exact h.1 hs.symm
  | plus _ => exact nomatch hs

/-- No numeral begins with a sign. -/
theorem not_isNumeral_cons {b : UInt8} (h : ¬ IsDigit b) (s : List UInt8) : ¬ IsNumeral (b :: s) :=
  fun hs => h (hs.2 b List.mem_cons_self)

theorem denotes_minus_iff {s : List UInt8} {v : ℤ} :
    Denotes (0x2D :: s) v ↔ IsNumeral s ∧ v = -denoted s := by
  refine ⟨fun h => ?_, fun ⟨hs, hv⟩ => hv ▸ .minus hs⟩
  cases h with
  | bare h => exact absurd h (not_isNumeral_cons (by decide) s)
  | minus h => exact ⟨h, rfl⟩

theorem denotes_plus_iff {s : List UInt8} {v : ℤ} :
    Denotes (0x2B :: s) v ↔ IsNumeral s ∧ v = denoted s := by
  refine ⟨fun h => ?_, fun ⟨hs, hv⟩ => hv ▸ .plus hs⟩
  cases h with
  | bare h => exact absurd h (not_isNumeral_cons (by decide) s)
  | plus h => exact ⟨h, rfl⟩

theorem denotes_bare_iff {b : UInt8} {s : List UInt8} (hplus : b ≠ 0x2B) (hminus : b ≠ 0x2D) {v : ℤ} :
    Denotes (b :: s) v ↔ IsNumeral (b :: s) ∧ v = denoted (b :: s) := by
  refine ⟨fun h => ?_, fun ⟨hs, hv⟩ => hv ▸ .bare hs⟩
  cases h with
  | bare h => exact ⟨h, rfl⟩
  | plus h => exact absurd rfl hplus
  | minus h => exact absurd rfl hminus

theorem denotesNat_plus_iff {s : List UInt8} {v : ℕ} :
    DenotesNat (0x2B :: s) v ↔ IsNumeral s ∧ v = denoted s := by
  refine ⟨fun h => ?_, fun ⟨hs, hv⟩ => hv ▸ .plus hs⟩
  cases h with
  | bare h => exact absurd h (not_isNumeral_cons (by decide) s)
  | plus h => exact ⟨h, rfl⟩

theorem denotesNat_bare_iff {b : UInt8} {s : List UInt8} (hplus : b ≠ 0x2B) {v : ℕ} :
    DenotesNat (b :: s) v ↔ IsNumeral (b :: s) ∧ v = denoted (b :: s) := by
  refine ⟨fun h => ?_, fun ⟨hs, hv⟩ => hv ▸ .bare hs⟩
  cases h with
  | bare h => exact ⟨h, rfl⟩
  | plus h => exact absurd rfl hplus

end CelWasm
