import Mathlib.Data.Nat.Notation
import Mathlib.Tactic.IntervalCases

/-!
# Library/Swar — eight bytes at a time in one word

A word of eight byte lanes, least significant first, with the two bit tricks that search it: the walk
that visits the set bits of a mask from the lowest up, and the subtraction that flags every zero
lane. The subtraction may also flag a lane above a zero one, so a flag is only a candidate — all that
is promised of it is that the lane's top bit is clear — but the lowest is no mistake.
-/

namespace CelWasm

namespace Swar

variable {w : ℕ}

/-! ## Walking the set bits -/

/-- Clearing the lowest set bit clears that bit and no other. -/
theorem getLsbD_and_sub_one {x : BitVec w} (hx : x ≠ 0#w) (i : ℕ) :
    (x &&& (x - 1#w)).getLsbD i = (x.getLsbD i && decide (i ≠ x.ctz.toNat)) := by
  have hk : x.getLsbD x.ctz.toNat = true := BitVec.getLsbD_true_ctz_of_ne_zero hx
  have hkw : x.ctz.toNat < w := by
    by_contra h
    rw [BitVec.getLsbD_of_ge x _ (by omega)] at hk
    exact Bool.false_ne_true hk
  have hlow : ∀ j < x.ctz.toNat, x.getLsbD j = false := fun j hj =>
    BitVec.getLsbD_false_of_lt_ctz hj
  generalize x.ctz.toNat = k at hk hkw hlow
  -- `x` is `2^k` plus a multiple of `2^(k+1)`, so subtracting one only touches the bits up to `k`
  have hrem : x.toNat % 2 ^ (k + 1) = 2 ^ k := by
    refine Nat.eq_of_testBit_eq fun j => ?_
    rw [Nat.testBit_mod_two_pow, Nat.testBit_two_pow, BitVec.testBit_toNat]
    rcases Nat.lt_trichotomy j k with h | h | h
    · simp [hlow j h, Nat.ne_of_gt h]
    · simp [h, hk]
    · simp [show ¬ j < k + 1 by omega, Nat.ne_of_lt h]
  have hdiv := Nat.div_add_mod x.toNat (2 ^ (k + 1))
  rw [hrem] at hdiv
  have hpos : 0 < 2 ^ k := Nat.two_pow_pos k
  have hpow : 2 ^ (k + 1) = 2 ^ k * 2 := Nat.pow_succ 2 k
  have hsub : (x - 1#w).toNat = 2 ^ (k + 1) * (x.toNat / 2 ^ (k + 1)) + (2 ^ k - 1) := by
    have hone : (1#w).toNat = 1 := by
      rw [BitVec.toNat_ofNat, Nat.mod_eq_of_lt (Nat.one_lt_two_pow (by omega))]
    rw [BitVec.toNat_sub_of_le (by rw [BitVec.le_def, hone]; omega), hone]
    omega
  rw [BitVec.getLsbD_and, ← BitVec.testBit_toNat (x - 1#w), hsub,
    Nat.testBit_two_pow_mul_add _ (by omega)]
  rcases Nat.lt_trichotomy i k with h | h | h
  · simp [hlow i h]
  · simp [h]
  · rw [if_neg (by omega), Nat.testBit_div_two_pow, BitVec.testBit_toNat]
    simp [show i - (k + 1) + (k + 1) = i by omega, Nat.ne_of_gt h]

/-- The bits visited by `while (x != 0) { visit ctz(x); x &= x - 1; }`. -/
def setBits : ℕ → BitVec w → List ℕ
  | 0, _ => []
  | fuel + 1, x => if x = 0#w then [] else x.ctz.toNat :: setBits fuel (x &&& (x - 1#w))

/-- With fuel for the bits left, the walk visits exactly the set bits. -/
theorem mem_setBits_of_fuel {i : ℕ} : ∀ (fuel : ℕ) (x : BitVec w),
    (∀ j, x.getLsbD j = true → w ≤ j + fuel) → (i ∈ setBits fuel x ↔ x.getLsbD i = true)
  | 0, x, h => by
    simp only [setBits, List.not_mem_nil, false_iff, Bool.not_eq_true]
    by_contra hi
    have hi' : x.getLsbD i = true := by simpa using hi
    have := h i hi'
    rw [BitVec.getLsbD_of_ge x i (by omega)] at hi'
    exact Bool.false_ne_true hi'
  | fuel + 1, x, h => by
    rw [setBits]
    split_ifs with hx
    · simp [hx]
    · have hlow := BitVec.getLsbD_true_ctz_of_ne_zero hx
      have hfuel : ∀ j, (x &&& (x - 1#w)).getLsbD j = true → w ≤ j + fuel := by
        intro j hj
        rw [getLsbD_and_sub_one hx, Bool.and_eq_true, decide_eq_true_eq] at hj
        have hle : x.ctz.toNat < j := by
          by_contra hlt
          have := BitVec.getLsbD_false_of_lt_ctz (x := x) (i := j) (by omega)
          rw [this] at hj
          exact Bool.false_ne_true hj.1
        have := h _ hlow
        omega
      rw [List.mem_cons, mem_setBits_of_fuel fuel _ hfuel, getLsbD_and_sub_one hx]
      by_cases hi : i = x.ctz.toNat
      · simp [hi, hlow]
      · simp [hi]

/-- **The walk visits exactly the set bits.** -/
theorem mem_setBits {i : ℕ} {x : BitVec w} : i ∈ setBits w x ↔ x.getLsbD i = true :=
  mem_setBits_of_fuel w x fun j _ => by omega

/-! ## Byte lanes -/

/-- Bytes read as a little-endian number. -/
def bytesToNat : List UInt8 → ℕ
  | [] => 0
  | b :: bs => 2 ^ 8 * bytesToNat bs + b.toNat

/-- Bytes loaded as a little-endian word. -/
def word (bytes : List UInt8) : BitVec 64 := BitVec.ofNat 64 (bytesToNat bytes)

theorem testBit_bytesToNat {i : ℕ} (hi : i < 8) : ∀ (bytes : List UInt8) (j : ℕ),
    (bytesToNat bytes).testBit (8 * j + i) = (bytes.getD j 0).toNat.testBit i
  | [], j => by simp [bytesToNat]
  | b :: bs, 0 => by
    rw [bytesToNat, Nat.testBit_two_pow_mul_add _ b.toNat_lt, if_pos (by omega)]
    simp
  | b :: bs, j + 1 => by
    rw [bytesToNat, Nat.testBit_two_pow_mul_add _ b.toNat_lt, if_neg (by omega),
      show 8 * (j + 1) + i - 8 = 8 * j + i by omega, testBit_bytesToNat hi bs j]
    simp

/-- Lane `j` of a loaded word is byte `j`. -/
theorem getLsbD_word {i j : ℕ} (hi : i < 8) (hj : j < 8) (bytes : List UInt8) :
    (word bytes).getLsbD (8 * j + i) = (bytes.getD j 0).toNat.testBit i := by
  rw [word, BitVec.getLsbD_ofNat, testBit_bytesToNat hi, decide_eq_true (by omega), Bool.true_and]

/-- One in every lane. -/
def lsbs : BitVec 64 := 0x0101010101010101#64

/-- The top bit of every lane. -/
def msbs : BitVec 64 := 0x8080808080808080#64

theorem getLsbD_msbs (i : ℕ) : msbs.getLsbD i = (decide (i < 64) && decide (i % 8 = 7)) := by
  by_cases hi : i < 64
  · interval_cases i <;> decide
  · rw [BitVec.getLsbD_of_ge _ _ (by omega)]
    simp [hi]

/-- A byte spread over every lane. -/
theorem getLsbD_lsbs_mul {i j : ℕ} (hi : i < 8) (hj : j < 8) (b : UInt8) :
    (lsbs * BitVec.ofNat 64 b.toNat).getLsbD (8 * j + i) = b.toNat.testBit i := by
  have hspread : lsbs * BitVec.ofNat 64 b.toNat = word (List.replicate 8 b) := by
    apply BitVec.eq_of_toNat_eq
    have hb := b.toNat_lt
    simp only [lsbs, word, BitVec.toNat_mul, BitVec.toNat_ofNat, bytesToNat, List.replicate]
    omega
  rw [hspread, getLsbD_word hi hj]
  interval_cases j <;> rfl

/-- A lane is zero, as a number. -/
def IsZeroLane (x : BitVec 64) (j : ℕ) : Prop := x.toNat / 2 ^ (8 * j) % 2 ^ 8 = 0

/-- …and bit by bit. -/
theorem isZeroLane_iff {x : BitVec 64} {j : ℕ} :
    IsZeroLane x j ↔ ∀ i < 8, x.getLsbD (8 * j + i) = false := by
  constructor
  · intro h i hi
    have hbit : (x.toNat / 2 ^ (8 * j) % 2 ^ 8).testBit i = false := by
      rw [h, Nat.zero_testBit]
    rw [Nat.testBit_mod_two_pow, Nat.testBit_div_two_pow, BitVec.testBit_toNat, decide_eq_true hi,
      Bool.true_and, Nat.add_comm] at hbit
    exact hbit
  · intro h
    refine Nat.eq_of_testBit_eq fun i => ?_
    rw [Nat.testBit_mod_two_pow, Nat.testBit_div_two_pow, BitVec.testBit_toNat, Nat.zero_testBit,
      Nat.add_comm]
    by_cases hi : i < 8
    · rw [h i hi, Bool.and_false]
    · rw [decide_eq_false hi, Bool.false_and]

/-- **A zero lane is flagged** by `(x - lsbs) & ~x & msbs`. -/
theorem getLsbD_zeroLane {x : BitVec 64} {j : ℕ} (hj : j < 8)
    (hzero : ∀ i < 8, x.getLsbD (8 * j + i) = false) :
    ((x - lsbs) &&& ~~~x &&& msbs).getLsbD (8 * j + 7) = true := by
  have hbyte : x.toNat / 2 ^ (8 * j) % 2 ^ 8 = 0 := isZeroLane_iff.mpr hzero
  -- taking one from a zero lane leaves 255, or 254 after a borrow: the top bit is set either way
  have hborrow : (x - lsbs).getLsbD (8 * j + 7) = true := by
    have hx := x.isLt
    rw [← BitVec.testBit_toNat, BitVec.toNat_sub, Nat.testBit_eq_decide_div_mod_eq,
      decide_eq_true_eq, show lsbs.toNat = 0x0101010101010101 from rfl]
    interval_cases j <;> omega
  rw [BitVec.getLsbD_and, BitVec.getLsbD_and, BitVec.getLsbD_not, getLsbD_msbs, hborrow,
    hzero 7 (by omega), decide_eq_true (by omega : 8 * j + 7 < 64),
    decide_eq_true (by omega : (8 * j + 7) % 8 = 7)]
  rfl

/-- **A flagged lane has its top bit clear.** -/
theorem of_getLsbD_zeroLane {x : BitVec 64} {i : ℕ}
    (h : ((x - lsbs) &&& ~~~x &&& msbs).getLsbD i = true) :
    i < 64 ∧ i % 8 = 7 ∧ x.getLsbD i = false := by
  simp only [BitVec.getLsbD_and, BitVec.getLsbD_not, getLsbD_msbs, Bool.and_eq_true,
    decide_eq_true_eq, Bool.not_eq_true'] at h
  exact ⟨h.2.1, h.2.2, h.1.2.2⟩

/-- **The lowest flagged lane is zero**: there is no borrow from below to flag another. -/
theorem isZeroLane_of_flagged {x : BitVec 64} {j : ℕ} (hj : j < 8)
    (hflag : ((x - lsbs) &&& ~~~x &&& msbs).getLsbD (8 * j + 7) = true)
    (hbelow : ∀ k < j, ¬ IsZeroLane x k) : IsZeroLane x j := by
  have hx := x.isLt
  simp only [BitVec.getLsbD_and, BitVec.getLsbD_not, Bool.and_eq_true, Bool.not_eq_true'] at hflag
  obtain ⟨⟨hsub, -, hclear⟩, -⟩ := hflag
  rw [← BitVec.testBit_toNat, BitVec.toNat_sub, Nat.testBit_eq_decide_div_mod_eq,
    decide_eq_true_eq, show lsbs.toNat = 0x0101010101010101 from rfl] at hsub
  rw [← BitVec.testBit_toNat, Nat.testBit_eq_decide_div_mod_eq, decide_eq_false_iff_not] at hclear
  have h0 := hbelow 0
  have h1 := hbelow 1
  have h2 := hbelow 2
  have h3 := hbelow 3
  have h4 := hbelow 4
  have h5 := hbelow 5
  have h6 := hbelow 6
  simp only [IsZeroLane] at *
  interval_cases j <;> simp at * <;> omega

/-- **Against a byte in every lane**, a lane is zero exactly where the byte is. -/
theorem isZeroLane_xor_iff {bytes : List UInt8} {c : UInt8} {j : ℕ} (hj : j < 8) :
    IsZeroLane (word bytes ^^^ (lsbs * BitVec.ofNat 64 c.toNat)) j ↔ bytes.getD j 0 = c := by
  rw [isZeroLane_iff]
  constructor
  · intro h
    refine UInt8.toNat_inj.mp (Nat.eq_of_testBit_eq fun i => ?_)
    by_cases hi : i < 8
    · have hbit := h i hi
      rw [BitVec.getLsbD_xor, getLsbD_word hi hj, getLsbD_lsbs_mul hi hj] at hbit
      simpa using hbit
    · rw [Nat.testBit_lt_two_pow, Nat.testBit_lt_two_pow]
      · exact c.toNat_lt.trans_le (Nat.pow_le_pow_right (by norm_num) (by omega))
      · exact (bytes.getD j 0).toNat_lt.trans_le (Nat.pow_le_pow_right (by norm_num) (by omega))
  · intro h i hi
    rw [BitVec.getLsbD_xor, getLsbD_word hi hj, getLsbD_lsbs_mul hi hj, h, Bool.xor_self]

end Swar

end CelWasm
