import CelWasm.Library.Binary64
import Mathlib.Tactic.Ring
import Mathlib.Tactic.Linarith
import Mathlib.Tactic.Positivity

/-!
# Library/Binary64Rounding — what rounding an integer to a double does to the order

An integer of more than 53 bits lies between two neighbouring doubles and goes to one of them. So no
double is passed over by rounding (`roundInt_mul_unit_le`, `le_roundInt_mul_unit`); and as it is the
nearer of the two it goes to, rounding keeps the order (`roundInt_mono`).

    q · 2ˢ ── n ──── (q + 1) · 2ˢ        s = log₂ n - 52
-/

namespace CelWasm

namespace Binary64

/-- **The double nearest a natural number**, as a natural number. -/
def roundNat (n : ℕ) : ℕ :=
  if n.log2 ≤ 52 then n else roundSignificand n (n.log2 - 52) * 2 ^ (n.log2 - 52)

/-- …and nearest an integer. -/
def roundInt (i : ℤ) : ℤ := if i < 0 then -roundNat i.natAbs else roundNat i.natAbs

/-! ## The two neighbours -/

section Neighbours

variable {n : ℕ}

/-- The 53 bits in front. -/
theorem quotient_bounds (h : 52 < n.log2) :
    2 ^ 52 ≤ n / 2 ^ (n.log2 - 52) ∧ n / 2 ^ (n.log2 - 52) < 2 ^ 53 := by
  have h0 : n ≠ 0 := fun h0 => by
    rw [h0, Nat.log2_zero] at h
    exact absurd h (Nat.not_lt_zero _)
  have hlow : 2 ^ 52 * 2 ^ (n.log2 - 52) = 2 ^ n.log2 := by
    rw [← Nat.pow_add]
    congr 1
    omega
  have hhigh : 2 ^ (n.log2 - 52) * 2 ^ 53 = 2 ^ (n.log2 + 1) := by
    rw [← Nat.pow_add]
    congr 1
    omega
  refine ⟨(Nat.le_div_iff_mul_le (Nat.two_pow_pos _)).mpr ?_, Nat.div_lt_of_lt_mul ?_⟩
  · rw [hlow]
    exact Nat.log2_self_le h0
  · rw [hhigh]
    exact Nat.lt_log2_self

theorem div_mul_le_self_lt (n s : ℕ) :
    n / 2 ^ s * 2 ^ s ≤ n ∧ n < (n / 2 ^ s + 1) * 2 ^ s :=
  ⟨Nat.div_mul_le_self n _, (Nat.div_lt_iff_lt_mul (Nat.two_pow_pos s)).mp (Nat.lt_succ_self _)⟩

/-- **A number that is rounded up** is above the lower neighbour. -/
theorem lt_of_roundSignificand_eq_succ {s : ℕ} (h : roundSignificand n s = n / 2 ^ s + 1) :
    n / 2 ^ s * 2 ^ s < n := by
  have hsplit := Nat.div_add_mod' n (2 ^ s)
  have hpos := Nat.two_pow_pos s
  dsimp only [roundSignificand] at h
  split at h <;> omega

/-- A double: a significand of 53 bits, which has them all unless the double is among the least. -/
def IsSignificand (sig x : ℕ) : Prop := sig < 2 ^ 53 ∧ (x = 0 ∨ 2 ^ 52 ≤ sig)

variable {sig x u : ℕ}

/-- From the least number of 53 bits on, a double is a multiple of its last place. -/
theorem IsSignificand.multiple (hd : IsSignificand sig x) {s q : ℕ} (hq : 2 ^ 52 ≤ q)
    (h : q * 2 ^ s ≤ sig * 2 ^ x) : ∃ m, sig * 2 ^ x = m * 2 ^ s := by
  have hexp : s ≤ x := by
    by_contra hlt
    have hle : 2 ^ x * 2 ≤ 2 ^ s := by
      rw [← Nat.pow_succ]
      exact Nat.pow_le_pow_right (by norm_num) (by omega)
    have hbelow : sig * 2 ^ x < q * 2 ^ s := calc
      sig * 2 ^ x < 2 ^ 53 * 2 ^ x := Nat.mul_lt_mul_of_pos_right hd.1 (Nat.two_pow_pos _)
      _ = 2 ^ 52 * (2 ^ x * 2) := by ring
      _ ≤ q * 2 ^ s := Nat.mul_le_mul hq hle
    omega
  refine ⟨sig * 2 ^ (x - s), ?_⟩
  rw [Nat.mul_assoc, ← Nat.pow_add, Nat.sub_add_cancel hexp]

/-- **Rounding does not pass a double above**… -/
theorem roundNat_mul_le (hd : IsSignificand sig x) (h : n * 2 ^ u ≤ sig * 2 ^ x) :
    roundNat n * 2 ^ u ≤ sig * 2 ^ x := by
  rw [roundNat]
  split_ifs with hsmall
  · exact h
  obtain ⟨hq, -⟩ := quotient_bounds (n := n) (by omega)
  generalize n.log2 - 52 = s at hq ⊢
  obtain ⟨hle, -⟩ := div_mul_le_self_lt n s
  obtain hdown | hup := roundSignificand_cases n s
  · rw [hdown]
    exact (Nat.mul_le_mul_right _ hle).trans h
  · -- above the lower neighbour there is no double before the upper one
    have habove : n / 2 ^ s * 2 ^ (s + u) < sig * 2 ^ x := by
      rw [Nat.pow_add, ← Nat.mul_assoc]
      exact (Nat.mul_lt_mul_of_pos_right (lt_of_roundSignificand_eq_succ hup)
        (Nat.two_pow_pos u)).trans_le h
    obtain ⟨m, hm⟩ := hd.multiple hq habove.le
    rw [hup, Nat.mul_assoc, ← Nat.pow_add, hm]
    rw [hm] at habove
    exact Nat.mul_le_mul_right _ (Nat.lt_of_mul_lt_mul_right habove)

/-- …nor one below. -/
theorem le_roundNat_mul (hd : IsSignificand sig x) (h : sig * 2 ^ x ≤ n * 2 ^ u) :
    sig * 2 ^ x ≤ roundNat n * 2 ^ u := by
  rw [roundNat]
  split_ifs with hsmall
  · exact h
  obtain ⟨hq, -⟩ := quotient_bounds (n := n) (by omega)
  generalize n.log2 - 52 = s at hq ⊢
  obtain ⟨-, hlt⟩ := div_mul_le_self_lt n s
  have hbelow : sig * 2 ^ x < (n / 2 ^ s + 1) * 2 ^ (s + u) := by
    rw [Nat.pow_add, ← Nat.mul_assoc]
    exact h.trans_lt (Nat.mul_lt_mul_of_pos_right hlt (Nat.two_pow_pos u))
  have hlower : sig * 2 ^ x ≤ n / 2 ^ s * 2 ^ (s + u) := by
    by_contra hnot
    obtain ⟨m, hm⟩ := hd.multiple hq (not_le.mp hnot).le
    rw [hm] at hbelow hnot
    have hm' := Nat.lt_of_mul_lt_mul_right hbelow
    exact hnot (Nat.mul_le_mul_right _ (by omega))
  rw [Nat.mul_assoc, ← Nat.pow_add]
  refine hlower.trans (Nat.mul_le_mul_right _ ?_)
  obtain hdown | hup := roundSignificand_cases n s <;> omega

/-! ## Rounding keeps the order -/

/-- A power of two is its own neighbour. -/
theorem two_pow_log2_le_roundNat (h : n ≠ 0) : 2 ^ n.log2 ≤ roundNat n := by
  rw [roundNat]
  split_ifs with hsmall
  · exact Nat.log2_self_le h
  · obtain ⟨hq, -⟩ := quotient_bounds (n := n) (by omega)
    have hpow : 2 ^ 52 * 2 ^ (n.log2 - 52) = 2 ^ n.log2 := by
      rw [← Nat.pow_add]
      congr 1
      omega
    rw [← hpow]
    refine Nat.mul_le_mul_right _ (hq.trans ?_)
    obtain hdown | hup := roundSignificand_cases n (n.log2 - 52) <;> omega

theorem roundNat_le_two_pow (n : ℕ) : roundNat n ≤ 2 ^ (n.log2 + 1) := by
  rw [roundNat]
  split_ifs with hsmall
  · exact Nat.lt_log2_self.le
  · obtain ⟨-, hq⟩ := quotient_bounds (n := n) (by omega)
    have hpow : 2 ^ 53 * 2 ^ (n.log2 - 52) = 2 ^ (n.log2 + 1) := by
      rw [← Nat.pow_add]
      congr 1
      omega
    rw [← hpow]
    refine Nat.mul_le_mul_right _ ?_
    obtain hdown | hup := roundSignificand_cases n (n.log2 - 52) <;> omega

/-- Between the same neighbours, what is nearer the upper one stays so. -/
theorem roundSignificand_mono {a b : ℕ} (h : a ≤ b) (s : ℕ) :
    roundSignificand a s ≤ roundSignificand b s := by
  obtain hlt | heq := (Nat.div_le_div_right (c := 2 ^ s) h).lt_or_eq
  · obtain ha | ha := roundSignificand_cases a s <;>
      obtain hb | hb := roundSignificand_cases b s <;> omega
  · have hmod : a % 2 ^ s ≤ b % 2 ^ s := by
      have ha := Nat.div_add_mod' a (2 ^ s)
      have hb := Nat.div_add_mod' b (2 ^ s)
      rw [heq] at ha
      omega
    dsimp only [roundSignificand]
    rw [heq]
    split_ifs <;> omega

theorem roundNat_mono {a b : ℕ} (h : a ≤ b) : roundNat a ≤ roundNat b := by
  by_cases h0 : a = 0
  · rw [h0]
    exact Nat.zero_le _
  have hb0 : b ≠ 0 := by omega
  have hlog : a.log2 ≤ b.log2 := (Nat.le_log2 hb0).mpr ((Nat.log2_self_le h0).trans h)
  obtain hlt | heq := hlog.lt_or_eq
  · calc roundNat a ≤ 2 ^ (a.log2 + 1) := roundNat_le_two_pow a
      _ ≤ 2 ^ b.log2 := Nat.pow_le_pow_right (by norm_num) hlt
      _ ≤ roundNat b := two_pow_log2_le_roundNat hb0
  · rw [roundNat, roundNat, heq]
    split_ifs
    · exact h
    · exact Nat.mul_le_mul_right _ (roundSignificand_mono h _)

theorem roundInt_mono {i j : ℤ} (h : i ≤ j) : roundInt i ≤ roundInt j := by
  rw [roundInt, roundInt]
  split_ifs with hi hj
  · have := roundNat_mono (a := j.natAbs) (b := i.natAbs) (by omega)
    omega
  · omega
  · omega
  · have := roundNat_mono (a := i.natAbs) (b := j.natAbs) (by omega)
    omega

end Neighbours

/-! ## The double of an integer -/

theorem unit_eq : unit = (2 ^ 1074 : ℕ) := by
  rw [unit]
  exact (Nat.cast_pow 2 1074).symm

/-- The fields of a double, off its bits. -/
theorem fields_of_bits {d : Binary64} {e f : ℕ} {s : Bool}
    (h : d.bits.toNat = e * 2 ^ 52 + f + if s then 2 ^ 63 else 0) (hf : f < 2 ^ 52)
    (he : e < 2 ^ 11) : d.exponent = e ∧ d.fraction = f ∧ d.negative = s := by
  have hsign : d.negative = s ↔ (2 ^ 63 ≤ d.bits.toNat ↔ s = true) := by
    rw [negative, Bool.eq_iff_iff, decide_eq_true_iff]
  rw [hsign, exponent, fraction, h]
  cases s <;> simp only [Bool.false_eq_true, if_false, if_true, iff_true, iff_false] <;> omega

/-- A significand that has come out as `2⁵³` carries into the exponent. -/
theorem magnitude_of_bits {d : Binary64} {e sig : ℕ} {s : Bool}
    (h : d.bits.toNat = e * 2 ^ 52 + (sig - 2 ^ 52) + if s then 2 ^ 63 else 0)
    (hlow : 2 ^ 52 ≤ sig) (hhigh : sig ≤ 2 ^ 53) (hpos : 0 < e) (he : e < 2046) :
    d.magnitude = sig * 2 ^ (e - 1) ∧ d.negative = s ∧ d.exponent < 2047 := by
  by_cases hcarry : sig = 2 ^ 53
  · obtain ⟨hexp, hfrac, hneg⟩ := fields_of_bits (d := d) (e := e + 1) (f := 0) (s := s)
      (by rw [h, hcarry]; split_ifs <;> omega) (by norm_num) (by omega)
    refine ⟨?_, hneg, by omega⟩
    obtain ⟨k, rfl⟩ := Nat.exists_eq_succ_of_ne_zero hpos.ne'
    have hdouble : 2 ^ 52 * 2 ^ (k + 1) = 2 ^ 53 * 2 ^ k := by ring
    rw [magnitude, if_neg (by omega), hexp, hfrac, hcarry]
    exact hdouble
  · obtain ⟨hexp, hfrac, hneg⟩ := fields_of_bits h (by omega) (by omega)
    refine ⟨?_, hneg, by omega⟩
    rw [magnitude, if_neg (by omega), hexp, hfrac, Nat.add_sub_cancel' hlow]

/-- **The bits of a natural number** are those of its rounded significand. -/
theorem bitsOfNat_eq {n : ℕ} (h0 : n ≠ 0) : ∃ sig, 2 ^ 52 ≤ sig ∧ sig ≤ 2 ^ 53 ∧
    bitsOfNat n = (n.log2 + 1023) * 2 ^ 52 + (sig - 2 ^ 52) ∧
      sig * 2 ^ (n.log2 + 1022) = roundNat n * 2 ^ 1074 := by
  rw [bitsOfNat, if_neg h0, roundNat]
  by_cases hsmall : n.log2 ≤ 52
  · rw [if_pos hsmall, if_pos hsmall]
    have hone : 2 ^ n.log2 * 2 ^ (52 - n.log2) = 2 ^ 52 := by
      rw [← Nat.pow_add]
      congr 1
      omega
    have hpos := Nat.two_pow_pos (52 - n.log2)
    refine ⟨n * 2 ^ (52 - n.log2), ?_, ?_, rfl, ?_⟩
    · rw [← hone]
      exact Nat.mul_le_mul_right _ (Nat.log2_self_le h0)
    · have hlt := Nat.mul_le_mul_right (2 ^ (52 - n.log2)) (Nat.lt_log2_self (n := n)).le
      rw [Nat.pow_succ, Nat.mul_right_comm, hone] at hlt
      exact hlt.trans (by norm_num)
    · have hexp : 52 - n.log2 + (n.log2 + 1022) = 1074 := by omega
      rw [Nat.mul_assoc, ← Nat.pow_add]
      exact congrArg (n * 2 ^ ·) hexp
  · rw [if_neg hsmall, if_neg hsmall]
    obtain ⟨hlow, hhigh⟩ := quotient_bounds (n := n) (by omega)
    have hcases := roundSignificand_cases n (n.log2 - 52)
    refine ⟨roundSignificand n (n.log2 - 52), by omega, by omega, rfl, ?_⟩
    have hexp : n.log2 + 1022 = n.log2 - 52 + 1074 := by omega
    rw [Nat.mul_assoc, ← Nat.pow_add, hexp]

section OfInt

variable {i : ℤ}

/-- **The double of an integer** of 64 bits: its sign, its magnitude, and that it is finite. -/
theorem fields_ofInt (h : i.natAbs < 2 ^ 64) : (ofInt i).magnitude = roundNat i.natAbs * 2 ^ 1074 ∧
    (ofInt i).negative = decide (i < 0) ∧ (ofInt i).exponent < 2047 := by
  have hlt := bitsOfNat_lt h
  have hbits : (ofInt i).bits.toNat
      = bitsOfNat i.natAbs + if decide (i < 0) = true then 2 ^ 63 else 0 := by
    rw [ofInt, UInt64.toNat_ofNat', if_congr (decide_eq_true_iff (p := i < 0)) rfl rfl]
    exact Nat.mod_eq_of_lt (by split_ifs <;> omega)
  by_cases h0 : i = 0
  · rw [h0]
    have hexp : (ofInt 0).exponent = 0 := rfl
    refine ⟨?_, rfl, by rw [hexp]; decide⟩
    rw [magnitude, if_pos hexp, Int.natAbs_zero, roundNat, Nat.log2_zero, if_pos (Nat.zero_le _),
      Nat.zero_mul]
    rfl
  have hn : i.natAbs ≠ 0 := by omega
  obtain ⟨sig, hlow, hhigh, heq, hvalue⟩ := bitsOfNat_eq hn
  have hlog : i.natAbs.log2 < 64 := (Nat.log2_lt hn).mpr h
  rw [heq] at hbits
  obtain ⟨hmag, hneg, hfinite⟩ := magnitude_of_bits hbits hlow hhigh (by omega) (by omega)
  exact ⟨hmag.trans hvalue, hneg, hfinite⟩

theorem isNaN_ofInt (h : i.natAbs < 2 ^ 64) : (ofInt i).isNaN = false := by
  obtain ⟨-, -, hfinite⟩ := fields_ofInt h
  rw [isNaN, Bool.and_eq_false_imp]
  intro hexp
  exact absurd (beq_iff_eq.mp hexp) hfinite.ne

/-- **Its value is the rounded integer.** -/
theorem scaled_ofInt (h : i.natAbs < 2 ^ 64) : (ofInt i).scaled = roundInt i * unit := by
  obtain ⟨hmag, hneg, -⟩ := fields_ofInt h
  rw [scaled, hneg, hmag, roundInt, unit_eq, if_congr (decide_eq_true_iff (p := i < 0)) rfl rfl,
    Nat.cast_mul]
  split_ifs
  · exact (Int.neg_mul _ _).symm
  · rfl

end OfInt

/-- The magnitude of a double is one of its significands. -/
theorem magnitude_eq (d : Binary64) : ∃ sig x, IsSignificand sig x ∧ d.magnitude = sig * 2 ^ x := by
  have hfrac : d.fraction < 2 ^ 52 := Nat.mod_lt _ (by norm_num)
  rw [magnitude]
  split_ifs
  · exact ⟨d.fraction, 0, ⟨by omega, .inl rfl⟩, (Nat.mul_one _).symm⟩
  · exact ⟨2 ^ 52 + d.fraction, d.exponent - 1, ⟨by omega, .inr (Nat.le_add_right _ _)⟩, rfl⟩

/-! ## Rounding passes no double -/

section Passes

variable {i : ℤ} {d : Binary64}

/-- A magnitude above a natural number is above its rounding… -/
theorem roundNat_mul_unit_le {n : ℕ} (h : (n : ℤ) * unit ≤ d.magnitude) :
    (roundNat n : ℤ) * unit ≤ d.magnitude := by
  obtain ⟨sig, x, hsig, hmag⟩ := d.magnitude_eq
  rw [unit_eq, hmag, ← Nat.cast_mul, Nat.cast_le] at h ⊢
  exact roundNat_mul_le hsig h

/-- …and one below is below it. -/
theorem le_roundNat_mul_unit {n : ℕ} (h : (d.magnitude : ℤ) ≤ n * unit) :
    (d.magnitude : ℤ) ≤ roundNat n * unit := by
  obtain ⟨sig, x, hsig, hmag⟩ := d.magnitude_eq
  rw [unit_eq, hmag, ← Nat.cast_mul, Nat.cast_le] at h ⊢
  exact le_roundNat_mul hsig h

/-- **A double above an integer is above its double.** -/
theorem roundInt_mul_unit_le (h : i * unit ≤ d.scaled) : roundInt i * unit ≤ d.scaled := by
  have hunit := unit_pos
  rw [roundInt]
  rw [scaled] at h ⊢
  by_cases hi : i < 0
  · have habs : i = -(i.natAbs : ℤ) := by omega
    rw [if_pos hi, Int.neg_mul]
    split_ifs with hd
    · rw [if_pos hd, habs, Int.neg_mul] at h
      exact Int.neg_le_neg (le_roundNat_mul_unit (Int.le_of_neg_le_neg h))
    · exact (Int.neg_nonpos_of_nonneg (by positivity)).trans (Int.natCast_nonneg _)
  · have habs : i = (i.natAbs : ℤ) := by omega
    rw [if_neg hi]
    split_ifs with hd
    · -- an integer that is not negative has a negative double above it only if both are zero
      rw [if_pos hd, habs] at h
      have hnonneg : 0 ≤ (i.natAbs : ℤ) * unit := by positivity
      have hmag : d.magnitude = 0 := by omega
      have hzero : (roundNat i.natAbs : ℤ) * unit ≤ d.magnitude :=
        roundNat_mul_unit_le (by omega)
      omega
    · rw [if_neg hd, habs] at h
      exact roundNat_mul_unit_le h

/-- **A double below an integer is below its double.** -/
theorem le_roundInt_mul_unit (h : d.scaled ≤ i * unit) : d.scaled ≤ roundInt i * unit := by
  have hunit := unit_pos
  rw [roundInt]
  rw [scaled] at h ⊢
  by_cases hi : i < 0
  · have habs : i = -(i.natAbs : ℤ) := by omega
    rw [if_pos hi, Int.neg_mul]
    split_ifs with hd
    · rw [if_pos hd, habs, Int.neg_mul] at h
      exact Int.neg_le_neg (roundNat_mul_unit_le (Int.le_of_neg_le_neg h))
    · rw [if_neg hd, habs, Int.neg_mul] at h
      have hnonneg : 0 ≤ (i.natAbs : ℤ) * unit := by positivity
      have hzero : (roundNat i.natAbs : ℤ) * unit ≤ d.magnitude :=
        roundNat_mul_unit_le (by omega)
      omega
  · have habs : i = (i.natAbs : ℤ) := by omega
    rw [if_neg hi]
    split_ifs with hd
    · exact (Int.neg_nonpos_of_nonneg (Int.natCast_nonneg _)).trans (by positivity)
    · rw [if_neg hd, habs] at h
      exact le_roundNat_mul_unit h

/-- **A double that is an integer is the double of it.** -/
theorem roundInt_mul_unit_of_eq (h : d.scaled = i * unit) : roundInt i * unit = d.scaled :=
  le_antisymm (roundInt_mul_unit_le h.ge) (le_roundInt_mul_unit h.le)

end Passes

end Binary64

end CelWasm
