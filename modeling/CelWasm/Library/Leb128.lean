import CelWasm.Library.Image
import Mathlib.Data.Nat.Bitwise

/-!
# Library/Leb128 — numbers in bytes of seven bits

A number stands in bytes of seven bits each, the lowest first, and every byte but the last has its
high bit set. A reader may be given an encoding that is longer than it need be; a writer makes the
shortest.
-/

namespace CelWasm

namespace Leb128

/-- **A run of bytes encodes a number.** -/
inductive Encodes : List UInt8 → ℕ → Prop
  | last {b : UInt8} (h : b.toNat < 128) : Encodes [b] b.toNat
  | more {b : UInt8} {bs : List UInt8} {n : ℕ} (h : 128 ≤ b.toNat) (rest : Encodes bs n) :
      Encodes (b :: bs) (b.toNat - 128 + 128 * n)

/-- The shortest encoding. -/
def encode (n : ℕ) : List UInt8 :=
  if n < 128 then [UInt8.ofNat n] else UInt8.ofNat (n % 128 + 128) :: encode (n / 128)
termination_by n
decreasing_by omega

theorem encodes_encode (n : ℕ) : Encodes (encode n) n := by
  induction n using Nat.strongRecOn with
  | ind n ih =>
    rw [encode]
    split_ifs with h
    · have hbyte : (UInt8.ofNat n).toNat = n := by
        rw [UInt8.toNat_ofNat']
        omega
      have hlast := @Encodes.last (UInt8.ofNat n) (hbyte.symm ▸ h)
      rwa [hbyte] at hlast
    · have hbyte : (UInt8.ofNat (n % 128 + 128)).toNat = n % 128 + 128 := by
        rw [UInt8.toNat_ofNat']
        omega
      have hmore := Encodes.more (b := UInt8.ofNat (n % 128 + 128)) (by omega)
        (ih (n / 128) (by omega))
      rwa [hbyte, Nat.add_sub_cancel, Nat.mod_add_div] at hmore

/-- **An encoding apart**: its last byte ends it, and stands above all the bits in front. -/
theorem Encodes.exists_concat {bs : List UInt8} {n : ℕ} (h : Encodes bs n) :
    ∃ front last low, bs = front ++ [last] ∧ (∀ b ∈ front, 128 ≤ b.toNat) ∧ last.toNat < 128 ∧
      low < 128 ^ front.length ∧ n = low + 128 ^ front.length * last.toNat := by
  induction h with
  | @last b hb => exact ⟨[], b, 0, rfl, nofun, hb, Nat.one_pos, by rw [List.length_nil]; omega⟩
  | @more b bs n hb _ ih =>
    obtain ⟨front, last, low, rfl, hfront, hlast, hlow, rfl⟩ := ih
    have hbyte := b.toNat_lt
    refine ⟨b :: front, last, b.toNat - 128 + 128 * low, rfl, List.forall_mem_cons.mpr ⟨hb, hfront⟩,
      hlast, ?_, ?_⟩
    · rw [List.length_cons, pow_succ]
      omega
    · rw [List.length_cons, pow_succ]
      ring

/-- …and bytes of this form are an encoding. -/
theorem exists_encodes {front : List UInt8} {last : UInt8} (hfront : ∀ b ∈ front, 128 ≤ b.toNat)
    (hlast : last.toNat < 128) : ∃ low, Encodes (front ++ [last]) (low + 128 ^ front.length * last.toNat) := by
  induction front with
  | nil => exact ⟨0, by simpa using Encodes.last hlast⟩
  | cons b front ih =>
    obtain ⟨hb, hfront⟩ := List.forall_mem_cons.mp hfront
    obtain ⟨low, hrest⟩ := ih hfront
    refine ⟨b.toNat - 128 + 128 * low, ?_⟩
    have hmore := hrest.more hb
    rw [List.length_cons, pow_succ, List.cons_append]
    convert hmore using 1
    ring

/-- Bytes encode one number at most. -/
theorem Encodes.unique {bs : List UInt8} {n m : ℕ} (hn : Encodes bs n) (hm : Encodes bs m) :
    n = m := by
  induction hn generalizing m with
  | last hb =>
    obtain ⟨⟩ | ⟨hb', hrest⟩ := hm
    · rfl
    · exact absurd hb (not_lt.mpr hb')
  | more hb _ ih =>
    obtain ⟨hb'⟩ | ⟨-, hrest⟩ := hm
    · exact absurd hb' (not_lt.mpr hb)
    · rw [ih hrest]

/-- The number at the start of a text, and the text past it. -/
def read : List UInt8 → Option (ℕ × List UInt8)
  | [] => none
  | b :: rest =>
    if b.toNat < 128 then some (b.toNat, rest)
    else (read rest).map fun (n, rest) => (b.toNat - 128 + 128 * n, rest)

theorem Encodes.read {bs : List UInt8} {n : ℕ} (h : Encodes bs n) (rest : List UInt8) :
    read (bs ++ rest) = some (n, rest) := by
  induction h with
  | last hb => rw [List.singleton_append, Leb128.read, if_pos hb]
  | more hb _ ih =>
    rw [List.cons_append, Leb128.read, if_neg (not_lt.mpr hb), ih]
    rfl

/-- `k` bytes hold numbers of `7 * k` bits. -/
theorem length_encode_le {n k : ℕ} (h : n < 128 ^ (k + 1)) : (encode n).length ≤ k + 1 := by
  induction k generalizing n with
  | zero =>
    rw [encode, if_pos (by omega)]
    exact Nat.le_refl 1
  | succ k ih =>
    rw [encode]
    split_ifs
    · simp
    · rw [pow_succ] at h
      rw [List.length_cons]
      exact Nat.succ_le_succ (ih (Nat.div_lt_of_lt_mul (by omega)))

end Leb128

/-! ## Bytes and words -/

/-- The seven bits of a byte that are not its high bit. -/
theorem toNat_and_127 (b : UInt8) : (b &&& 0x7f).toNat = b.toNat % 128 :=
  (UInt8.toNat_and b 0x7f).trans (Nat.and_two_pow_sub_one_eq_mod b.toNat 7)

/-- The high bit of a byte. -/
theorem and_128_eq_zero_iff (b : UInt8) : b &&& 0x80 = 0 ↔ b.toNat < 128 := by
  have hall : ∀ n : Fin 256, n.val &&& 128 = 0 ↔ n.val < 128 := by
    set_option maxRecDepth 1000 in decide
  rw [← UInt8.toNat_inj, UInt8.toNat_and]
  exact hall ⟨b.toNat, b.toNat_lt⟩

/-- **Bits above all that are set are added**, as far as the word goes. -/
theorem toNat_or_shiftLeft {out x shift : UInt32} (hout : out.toNat < 2 ^ shift.toNat)
    (hshift : shift.toNat < 32) :
    (out ||| (x <<< shift)).toNat = (out.toNat + x.toNat * 2 ^ shift.toNat) % 2 ^ 32 := by
  have hword : 2 ^ 32 = 2 ^ (32 - shift.toNat) * 2 ^ shift.toNat := by
    rw [← pow_add, Nat.sub_add_cancel hshift.le]
  have hkept : x.toNat * 2 ^ shift.toNat % 2 ^ 32
      = x.toNat % 2 ^ (32 - shift.toNat) * 2 ^ shift.toNat := by
    rw [hword, Nat.mul_mod_mul_right]
  have hlt : out.toNat + x.toNat % 2 ^ (32 - shift.toNat) * 2 ^ shift.toNat < 2 ^ 32 := by
    have hmod := Nat.mod_lt x.toNat (Nat.two_pow_pos (32 - shift.toNat))
    calc out.toNat + x.toNat % 2 ^ (32 - shift.toNat) * 2 ^ shift.toNat
        < (x.toNat % 2 ^ (32 - shift.toNat) + 1) * 2 ^ shift.toNat := by
          rw [Nat.succ_mul]
          omega
      _ ≤ 2 ^ 32 := by
          rw [hword]
          exact Nat.mul_le_mul_right _ hmod
  rw [UInt32.toNat_or, UInt32.toNat_shiftLeft, Nat.mod_eq_of_lt hshift, Nat.shiftLeft_eq, hkept,
    Nat.or_comm, Nat.mul_comm, ← Nat.two_pow_add_eq_or_of_lt hout, Nat.add_comm, Nat.mul_comm,
    ← Nat.mod_eq_of_lt hlt, ← hkept, Nat.add_mod_mod]

end CelWasm
