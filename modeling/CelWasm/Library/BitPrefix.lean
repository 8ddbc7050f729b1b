import Mathlib.Data.Set.Basic
import Mathlib.Data.Nat.Notation

/-!
# Library/BitPrefix — blocks of points that begin with the same bits

A point is seen through its bits, from the highest. The block of a point and a length is all the points
with the same bits up to there; one block is within another exactly when it is the longer one and the
points agree that far. The bits of a list of bytes are those of its bytes in turn: comparing whole
bytes and then some high bits of the byte behind them compares a prefix.
-/

namespace CelWasm

namespace BitPrefix

/-! ## Blocks -/

section Blocks

variable {α : Type*} (bit : α → ℕ → Bool)

/-- Two points have the same first bits. -/
def AgreeUpTo (n : ℕ) (x y : α) : Prop := ∀ i < n, bit x i = bit y i

/-- **The block of a point** and a length. -/
def block (n : ℕ) (x : α) : Set α := {y | AgreeUpTo bit n x y}

/-- Every one of the first bits may be turned over, and the others kept. -/
def Flips (w : ℕ) : Prop := ∀ y, ∀ i < w, ∃ z, ∀ j, bit z j = (bit y j ^^ decide (j = i))

variable {bit} {n m w : ℕ} {x y : α}

theorem AgreeUpTo.symm (h : AgreeUpTo bit n x y) : AgreeUpTo bit n y x := fun i hi => (h i hi).symm

theorem AgreeUpTo.trans {z : α} (h : AgreeUpTo bit n x y) (h' : AgreeUpTo bit n y z) :
    AgreeUpTo bit n x z := fun i hi => (h i hi).trans (h' i hi)

theorem AgreeUpTo.mono (h : AgreeUpTo bit n x y) (hm : m ≤ n) : AgreeUpTo bit m x y :=
  fun i hi => h i (lt_of_lt_of_le hi hm)

/-- **One block is within another** exactly when it is the longer one and the points agree as far as
the shorter one goes. -/
theorem block_subset_block_iff (hflips : Flips bit w) (hn : n ≤ w) :
    block bit m y ⊆ block bit n x ↔ n ≤ m ∧ AgreeUpTo bit n x y := by
  refine ⟨fun h => ?_, fun ⟨hnm, hxy⟩ z hz => hxy.trans (AgreeUpTo.mono hz hnm)⟩
  have hxy : AgreeUpTo bit n x y := h fun _ _ => rfl
  refine ⟨not_lt.mp fun hmn => ?_, hxy⟩
  -- the first bit that the longer block leaves open may be turned over
  obtain ⟨z, hz⟩ := hflips y m (lt_of_lt_of_le hmn hn)
  have hmem : z ∈ block bit m y := fun i hi => by
    rw [hz, decide_eq_false (ne_of_lt hi), Bool.xor_false]
  have hbit := (h hmem m hmn).symm.trans (hxy m hmn)
  rw [hz, decide_eq_true rfl, Bool.xor_true] at hbit
  exact absurd hbit (Bool.not_ne_self _)

end Blocks

/-! ## Bits of bytes -/

/-- A bit of a byte, from the highest. -/
def byteBit (x : UInt8) (j : ℕ) : Bool := x.toBitVec.getMsbD j

/-- A bit of a list of bytes. -/
def bitAt (s : List UInt8) (i : ℕ) : Bool := byteBit (s.getD (i / 8) 0) (i % 8)

/-- The high bits of a byte. -/
def highBits (rem : ℕ) : UInt8 := 0xff <<< UInt8.ofNat (8 - rem)

theorem byteBit_highBits {rem j : ℕ} (h : 0 < rem) (hrem : rem < 8) (hj : j < 8) :
    byteBit (highBits rem) j = decide (j < rem) := by
  have hall : ∀ rem < 8, ∀ j < 8, 0 < rem → byteBit (highBits rem) j = decide (j < rem) := by decide
  exact hall rem hrem j hj h

@[simp] theorem byteBit_and (x y : UInt8) (j : ℕ) : byteBit (x &&& y) j = (byteBit x j && byteBit y j) := by
  rw [byteBit, UInt8.toBitVec_and, BitVec.getMsbD_and]
  rfl

@[simp] theorem byteBit_xor (x y : UInt8) (j : ℕ) : byteBit (x ^^^ y) j = (byteBit x j ^^ byteBit y j) := by
  rw [byteBit, UInt8.toBitVec_xor, BitVec.getMsbD_xor]
  rfl

@[simp] theorem byteBit_zero (j : ℕ) : byteBit 0 j = false := by
  rw [byteBit]
  exact BitVec.getMsbD_zero

/-- **A byte is its bits.** -/
theorem eq_of_byteBit {x y : UInt8} (h : ∀ j < 8, byteBit x j = byteBit y j) : x = y :=
  UInt8.toBitVec_inj.mp <| BitVec.eq_of_getMsbD_eq h

/-- Masked bytes are equal when their high bits are. -/
theorem and_highBits_eq_iff {rem : ℕ} (h : 0 < rem) (hrem : rem < 8) (x y : UInt8) :
    x &&& highBits rem = y &&& highBits rem ↔ ∀ j < rem, byteBit x j = byteBit y j := by
  refine ⟨fun heq j hj => ?_, fun hbits => eq_of_byteBit fun j hj => ?_⟩
  · have hbit := congrArg (byteBit · j) heq
    simpa only [byteBit_and, byteBit_highBits h hrem (hj.trans hrem), decide_eq_true hj, Bool.and_true]
      using hbit
  · rw [byteBit_and, byteBit_and, byteBit_highBits h hrem hj]
    by_cases hlt : j < rem
    · rw [hbits j hlt]
    · rw [decide_eq_false hlt, Bool.and_false, Bool.and_false]

section Lists

variable {s t : List UInt8}

/-- Lists of bytes of one length are equal when their bits are. -/
theorem eq_of_bitAt (hlen : s.length = t.length) (h : ∀ i < 8 * s.length, bitAt s i = bitAt t i) :
    s = t := by
  refine List.ext_getElem hlen fun k hk hk' => eq_of_byteBit fun j hj => ?_
  have hbit := h (8 * k + j) (by omega)
  rw [bitAt, bitAt, show (8 * k + j) / 8 = k by omega, show (8 * k + j) % 8 = j by omega,
    List.getD_eq_getElem?_getD, List.getD_eq_getElem?_getD, List.getElem?_eq_getElem hk,
    List.getElem?_eq_getElem hk'] at hbit
  exact hbit

/-- Whole bytes. -/
theorem take_eq_take_iff (hlen : s.length = t.length) {k : ℕ} (hk : k ≤ s.length) :
    s.take k = t.take k ↔ AgreeUpTo bitAt (8 * k) s t := by
  have hbit : ∀ {u : List UInt8}, ∀ i < 8 * k, bitAt (u.take k) i = bitAt u i := by
    intro u i hi
    rw [bitAt, bitAt, List.getD_eq_getElem?_getD, List.getD_eq_getElem?_getD,
      List.getElem?_take_of_lt (by omega)]
  refine ⟨fun heq i hi => ?_, fun h => ?_⟩
  · rw [← hbit i hi, heq, hbit i hi]
  · refine eq_of_bitAt (by rw [List.length_take, List.length_take, hlen]) fun i hi => ?_
    rw [List.length_take] at hi
    rw [hbit i (by omega), hbit i (by omega), h i (by omega)]

/-- **A prefix is compared** by whole bytes and the high bits of the byte behind them. -/
theorem agreeUpTo_iff (hlen : s.length = t.length) {n : ℕ} (hn : n ≤ 8 * s.length) :
    AgreeUpTo bitAt n s t ↔ s.take (n / 8) = t.take (n / 8) ∧ (n % 8 = 0 ∨
      s.getD (n / 8) 0 &&& highBits (n % 8) = t.getD (n / 8) 0 &&& highBits (n % 8)) := by
  have hrem : n % 8 < 8 := Nat.mod_lt _ (by decide)
  rw [take_eq_take_iff hlen (by omega)]
  by_cases hzero : n % 8 = 0
  · rw [and_iff_left (.inl hzero), show 8 * (n / 8) = n by omega]
  · rw [or_iff_right hzero, and_highBits_eq_iff (by omega) hrem]
    refine ⟨fun h => ⟨h.mono (by omega), fun j hj => ?_⟩, fun ⟨hwhole, hpart⟩ i hi => ?_⟩
    · have hbit := h (8 * (n / 8) + j) (by omega)
      rwa [bitAt, bitAt, show (8 * (n / 8) + j) / 8 = n / 8 by omega,
        show (8 * (n / 8) + j) % 8 = j by omega] at hbit
    · by_cases hlt : i < 8 * (n / 8)
      · exact hwhole i hlt
      · rw [bitAt, bitAt, show i / 8 = n / 8 by omega]
        exact hpart (i % 8) (by omega)

theorem bitAt_drop (s : List UInt8) (k i : ℕ) : bitAt (s.drop k) i = bitAt s (8 * k + i) := by
  rw [bitAt, bitAt, List.getD_eq_getElem?_getD, List.getD_eq_getElem?_getD, List.getElem?_drop,
    show (8 * k + i) / 8 = k + i / 8 by omega, show (8 * k + i) % 8 = i % 8 by omega]

theorem bitAt_replicate_zero (n i : ℕ) : bitAt (List.replicate n 0) i = false := by
  rw [bitAt, List.getD_eq_getElem?_getD, List.getElem?_replicate]
  split_ifs <;> exact byteBit_zero _

/-- Zeros, bit by bit. -/
theorem eq_replicate_zero_iff {n : ℕ} (hlen : s.length = n) :
    s = List.replicate n 0 ↔ ∀ i < 8 * n, bitAt s i = false := by
  refine ⟨fun h i _ => h ▸ bitAt_replicate_zero n i, fun h => ?_⟩
  refine eq_of_bitAt (hlen.trans List.length_replicate.symm) fun i hi => ?_
  rw [h i (hlen ▸ hi), bitAt_replicate_zero]

/-- A bit of a byte turned over. -/
theorem bitAt_flip {i : ℕ} (hi : i < 8 * s.length) (j : ℕ) :
    bitAt (s.set (i / 8) (s.getD (i / 8) 0 ^^^ (0x80 >>> UInt8.ofNat (i % 8)))) j
      = (bitAt s j ^^ decide (j = i)) := by
  have hall : ∀ k < 8, ∀ l < 8, byteBit (0x80 >>> UInt8.ofNat k) l = decide (l = k) := by decide
  have hone := hall (i % 8) (Nat.mod_lt _ (by decide)) (j % 8) (Nat.mod_lt _ (by decide))
  rw [bitAt, bitAt, List.getD_eq_getElem?_getD, List.getElem?_set]
  by_cases hbyte : i / 8 = j / 8
  · rw [if_pos hbyte, if_pos (by omega), Option.getD_some, byteBit_xor, hone, hbyte]
    congr 1
    exact decide_eq_decide.mpr (by omega)
  · rw [if_neg hbyte, decide_eq_false (by rintro rfl; exact hbyte rfl), Bool.xor_false,
      List.getD_eq_getElem?_getD]

end Lists

end BitPrefix

end CelWasm
