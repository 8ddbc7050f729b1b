import CelWasm.Eval.Marshal
import CelWasm.Library.DurationText
import CelWasm.Runtime.StringFormat
import CelWasm.Runtime.TimeAccessors

/-!
# Eval/DurationTexts — durations to text and back

Two writers of a duration: `FormatProtoDuration` prints nine digits and drops zeros by threes,
`AppendDurationCanonical` divides first and prints three digits, six or nine. Reading goes through
Abseil, which allows more than the language does, and through a filter on the order of the units.
-/

namespace CelWasm

open CellProg

/-! ## Writing -/

/-- The loop of `FormatProtoDuration`: how many digits of a buffer are kept. -/
def fracLen (buf : List UInt8) : ℕ → ℕ
  | n + 4 =>
    if buf[n + 3]? = some 0x30 ∧ buf[n + 2]? = some 0x30 ∧ buf[n + 1]? = some 0x30 then fracLen buf (n + 1)
    else n + 4
  | n => n

/-- **`FormatProtoDuration`**. -/
def formatProtoDuration (seconds : Int64) (nanos : Int32) : List UInt8 :=
  let sign := if seconds < 0 ∨ nanos < 0 then [0x2D] else []
  let absS := if seconds < 0 then (-(seconds + 1)).toUInt64 + 1 else seconds.toUInt64
  let absN := if nanos < 0 then (-nanos).toUInt32 else nanos.toUInt32
  let fraction :=
    if absN ≠ 0 then
      -- `snprintf` into ten bytes, of which the last is the terminator
      let buf := (zeroPadded 9 absN.toNat).take 9
      0x2E :: buf.take (fracLen buf 9)
    else []
  sign ++ numeral absS.toNat ++ fraction ++ [0x73]

/-! ## Reading -/

/-- `UnitRank`. -/
def unitRank (first secondOrZero : UInt8) : ℤ :=
  if first = 0x68 then 5
  else if first = 0x6D ∧ secondOrZero = 0 then 4
  else if first = 0x73 ∧ secondOrZero = 0 then 3
  else if first = 0x6D ∧ secondOrZero = 0x73 then 2
  else if first = 0x75 ∧ secondOrZero = 0x73 then 1
  else if first = 0x6E ∧ secondOrZero = 0x73 then 0
  else -1

/-- What the filter goes past: signs, digits and points. -/
def IsNumberByte (c : UInt8) : Prop := c = 0x2D ∨ IsDigit c ∨ c = 0x2E

instance : DecidablePred IsNumberByte := fun _ => inferInstanceAs (Decidable (_ ∨ _))

/-- The loop of `RejectsAsDurationPerCEL`, with the rank of the unit before. -/
def rejectsAfter (prevRank : ℤ) : List UInt8 → Bool
  | [] => false
  | c :: rest =>
    if IsNumberByte c then rejectsAfter prevRank rest
    else
      let next := rest.head?.getD 0
      let rank := unitRank c (if next = 0x73 then 0x73 else 0)
      if rank < 0 then true
      else if prevRank ≤ rank then true
      else if rank = 0 ∨ rank = 1 ∨ rank = 2 then
        -- a unit of two letters
        match rest with
        | [] => false
        | _ :: rest => rejectsAfter rank rest
      else rejectsAfter rank rest

/-- **`RejectsAsDurationPerCEL`**: the units are to come in descending order. -/
def rejectsAsDurationPerCEL (input : List UInt8) : Bool := rejectsAfter 2147483647 input

/-- `kDurationMaxSeconds`. -/
def kDurationMaxSeconds : Int64 := 315576000000

/-- What `cel_duration_parse_at_v` makes of a text, given `absl::ParseDuration`. -/
def parsedDuration (parseDuration : List UInt8 → Option AbslDuration) (s : List UInt8) : CelValue :=
  match parseDuration s with
  | none => .error .invalidArgument
  | some d =>
    if rejectsAsDurationPerCEL s then .error .invalidArgument
    else
      let payload := decomposeAbslDuration d
      if payload.seconds < -kDurationMaxSeconds ∨ kDurationMaxSeconds < payload.seconds then
        .error .invalidArgument
      else .duration payload

/-- `cel_duration_parse_at_v`. -/
def celDurationParseAt (parseDuration : List UInt8 → Option AbslDuration) :
    Slot → Slot → SlotKernel Unit :=
  unaryKernelAt .string .invalidArgument CelValue.string? (parsedDuration parseDuration)

theorem run_celDurationParseAt (parseDuration : List UInt8 → Option AbslDuration)
    {cells : Slot → CelValue} {a : Slot} {s : List UInt8} (h : cells a = .string s) (out : Slot) :
    (celDurationParseAt parseDuration out a).run cells
      = pure ((), Function.update cells out (parsedDuration parseDuration s)) := by
  rw [celDurationParseAt, computes_unaryKernelAt _ _ _ _ a out cells]
  simp only [h]
  rfl

/-! ## One fraction, two ways -/

/-- The digits of a part of a second: three, six or nine. -/
def fractionDigits (n : ℕ) : List UInt8 :=
  if n = 0 then []
  else if n % 1000000 = 0 then fixedNumeral 3 (n / 1000000)
  else if n % 1000 = 0 then fixedNumeral 6 (n / 1000)
  else fixedNumeral 9 n

/-- **They denote the part**: so many of it that make a second. -/
theorem fractionDigits_eq {n : ℕ} (h : n < 10 ^ 9) : ∃ w k,
    fractionDigits n = fixedNumeral w k ∧ w ≤ 9 ∧ k < 10 ^ w ∧ k * 10 ^ 9 = n * 10 ^ w := by
  rw [fractionDigits]
  by_cases hzero : n = 0
  · exact ⟨0, 0, if_pos hzero, by omega, Nat.one_pos, by rw [hzero, Nat.zero_mul, Nat.zero_mul]⟩
  rw [if_neg hzero]
  by_cases hmilli : n % 1000000 = 0
  · exact ⟨3, n / 1000000, if_pos hmilli, by omega, by omega, by omega⟩
  rw [if_neg hmilli]
  by_cases hmicro : n % 1000 = 0
  · exact ⟨6, n / 1000, if_pos hmicro, by omega, by omega, by omega⟩
  · exact ⟨9, n, if_neg hmicro, le_rfl, h, by omega⟩

/-- A digit at least follows the point. -/
theorem fractionDigits_ne_nil {n : ℕ} (hlt : n < 10 ^ 9) (hn : n ≠ 0) : fractionDigits n ≠ [] := by
  obtain ⟨w, k, heq, -, hk, hdenotes⟩ := fractionDigits_eq hlt
  intro hnil
  rw [hnil] at heq
  have hw : w = 0 := by
    rw [← length_fixedNumeral w k, ← heq]
    rfl
  subst hw
  omega

theorem isDigit_fractionDigits {n : ℕ} (h : n < 10 ^ 9) : ∀ b ∈ fractionDigits n, IsDigit b := by
  obtain ⟨w, k, heq, -⟩ := fractionDigits_eq h
  rw [heq]
  exact fun b hb => isDigit_of_mem_fixedNumeral hb

theorem zeroPadded_natCast {w n : ℕ} (hw : 0 < w) (h : n < 10 ^ w) :
    zeroPadded w n = fixedNumeral w n := by
  have hsign : ¬ (n : ℤ) < 0 := by omega
  simp only [zeroPadded, if_neg hsign, List.nil_append, List.length_nil, Nat.sub_zero, Int.natAbs_natCast]
  exact replicate_append_numeral hw h

theorem digitByte_mod_eq_zero {n : ℕ} : digitByte (n % 10) = 0x30 ↔ n % 10 = 0 := by
  have hlt : n % 10 < 10 := Nat.mod_lt _ (by decide)
  rw [← UInt8.toNat_inj, toNat_digitByte hlt]
  change 48 + n % 10 = 48 ↔ _
  omega

section Trimming

variable (n : ℕ)

/-- The last three digits are zeros. -/
theorem fixedNumeral_nine_last :
    ((fixedNumeral 9 n)[8]? = some 0x30 ∧ (fixedNumeral 9 n)[7]? = some 0x30 ∧
      (fixedNumeral 9 n)[6]? = some 0x30) ↔ n % 1000 = 0 := by
  have h8 : (fixedNumeral 9 n)[8]? = some (digitByte (n % 10)) := rfl
  have h7 : (fixedNumeral 9 n)[7]? = some (digitByte (n / 10 % 10)) := rfl
  have h6 : (fixedNumeral 9 n)[6]? = some (digitByte (n / 10 / 10 % 10)) := rfl
  rw [h8, h7, h6]
  simp only [Option.some.injEq, digitByte_mod_eq_zero]
  omega

/-- …and so are the three before. -/
theorem fixedNumeral_nine_middle :
    ((fixedNumeral 9 n)[5]? = some 0x30 ∧ (fixedNumeral 9 n)[4]? = some 0x30 ∧
      (fixedNumeral 9 n)[3]? = some 0x30) ↔ n / 1000 % 1000 = 0 := by
  have h5 : (fixedNumeral 9 n)[5]? = some (digitByte (n / 10 / 10 / 10 % 10)) := rfl
  have h4 : (fixedNumeral 9 n)[4]? = some (digitByte (n / 10 / 10 / 10 / 10 % 10)) := rfl
  have h3 : (fixedNumeral 9 n)[3]? = some (digitByte (n / 10 / 10 / 10 / 10 / 10 % 10)) := rfl
  rw [h5, h4, h3]
  simp only [Option.some.injEq, digitByte_mod_eq_zero]
  omega

theorem fracLen_fixedNumeral : fracLen (fixedNumeral 9 n) 9
    = if n % 1000000 = 0 then 3 else if n % 1000 = 0 then 6 else 9 := by
  by_cases hlast : n % 1000 = 0
  · rw [fracLen, if_pos ((fixedNumeral_nine_last n).mpr hlast)]
    by_cases hmiddle : n / 1000 % 1000 = 0
    · rw [fracLen, if_pos ((fixedNumeral_nine_middle n).mpr hmiddle), if_pos (by omega)]
      rfl
    · rw [fracLen, if_neg (hmiddle <| (fixedNumeral_nine_middle n).mp ·), if_neg (by omega),
        if_pos hlast]
  · rw [fracLen, if_neg (hlast <| (fixedNumeral_nine_last n).mp ·), if_neg (by omega), if_neg hlast]

/-- **What the loop keeps.** -/
theorem take_fracLen (hn : n ≠ 0) :
    (fixedNumeral 9 n).take (fracLen (fixedNumeral 9 n) 9) = fractionDigits n := by
  have h6 : (fixedNumeral 9 n).take 6 = fixedNumeral 6 (n / 1000) := by
    have hdiv : n / 1000 = n / 10 / 10 / 10 := by omega
    rw [hdiv]
    rfl
  have h3 : (fixedNumeral 9 n).take 3 = fixedNumeral 3 (n / 1000000) := by
    have hdiv : n / 1000000 = n / 10 / 10 / 10 / 10 / 10 / 10 := by omega
    rw [hdiv]
    rfl
  rw [fracLen_fixedNumeral, fractionDigits, if_neg hn]
  split_ifs
  · exact h3
  · exact h6
  · exact List.take_of_length_le (length_fixedNumeral 9 n).le

end Trimming

/-! ## The same text -/

/-- The sign of a pair. -/
def CelDurTs.negative (d : CelDurTs) : Bool := d.seconds.toInt < 0 || d.nanos.toInt < 0

/-- **The text of a duration**: its sign, its seconds, its fraction. -/
def durationText (d : CelDurTs) : List UInt8 :=
  minusSign d.negative ++ numeral d.seconds.toInt.natAbs
    ++ DurationTerm.point (fractionDigits d.nanos.toInt.natAbs) ++ [0x73]

theorem negative_iff {d : CelDurTs} : (d.seconds < 0 ∨ d.nanos < 0) ↔ d.negative = true := by
  rw [Int64.lt_iff_toInt_lt, Int32.lt_iff_toInt_lt, CelDurTs.negative, Bool.or_eq_true,
    decide_eq_true_eq, decide_eq_true_eq]
  rfl

/-- The seconds without their sign, at the least of them too. -/
theorem toNat_absSeconds (s : Int64) :
    (if s < 0 then (-(s + 1)).toUInt64 + 1 else s.toUInt64).toNat = s.toInt.natAbs := by
  have hlow := s.le_toInt
  have hhigh := s.toInt_lt
  have hone : (1 : Int64).toInt = 1 := rfl
  by_cases hs : s < 0
  · have hneg : s.toInt < 0 := Int64.lt_iff_toInt_lt.mp hs
    have hnext : (s + 1).toInt = s.toInt + 1 := by
      rw [toInt_add64 (by rw [hone]; omega) (by rw [hone]; omega), hone]
    have habs : (-(s + 1)).toInt = -(s.toInt + 1) := by
      rw [Int64.toInt_neg, hnext, Int.bmod_eq_of_le (by omega) (by omega)]
    have hnonneg : 0 ≤ -(s + 1) := by
      rw [Int64.le_iff_toInt_le, habs]
      change (0 : ℤ) ≤ _
      omega
    rw [if_pos hs, UInt64.toNat_add, Int64.toNat_toUInt64_of_le hnonneg, ← Int64.toNat_toInt, habs]
    change ((-(s.toInt + 1)).toNat + 1) % 2 ^ 64 = _
    omega
  · have hnonneg : 0 ≤ s := Int64.not_lt.mp hs
    have hzero : 0 ≤ s.toInt := Int64.le_iff_toInt_le.mp hnonneg
    rw [if_neg hs, Int64.toNat_toUInt64_of_le hnonneg, ← Int64.toNat_toInt]
    omega

section Writers

variable {d : CelDurTs} (hd : ValidDuration d.seconds d.nanos)

include hd

theorem natAbs_nanos_lt : d.nanos.toInt.natAbs < 10 ^ 9 := by
  obtain ⟨-, -, hlow, hhigh, -, -⟩ := hd
  omega

/-- The nanoseconds without their sign. -/
theorem toInt_absNanos :
    (if d.nanos < 0 then -d.nanos else d.nanos).toInt = d.nanos.toInt.natAbs := by
  obtain ⟨-, -, hlow, hhigh, -, -⟩ := hd
  have hneg : d.nanos < 0 ↔ d.nanos.toInt < 0 := Int32.lt_iff_toInt_lt
  by_cases hn : d.nanos < 0
  · have := hneg.mp hn
    rw [if_pos hn, Int32.toInt_neg, Int.bmod_eq_of_le (by omega) (by omega)]
    omega
  · have := mt hneg.mpr hn
    rw [if_neg hn]
    omega

theorem toNat_absNanos : (if d.nanos < 0 then (-d.nanos).toUInt32 else d.nanos.toUInt32).toNat
    = d.nanos.toInt.natAbs := by
  have habs := toInt_absNanos hd
  have hnonneg : 0 ≤ if d.nanos < 0 then -d.nanos else d.nanos := by
    rw [Int32.le_iff_toInt_le, habs]
    exact Int.natCast_nonneg _
  rw [← apply_ite Int32.toUInt32, Int32.toNat_toUInt32_of_le hnonneg, ← Int32.toNat_toInt, habs]
  exact Int.toNat_natCast _

/-- **The writer that trims** writes that text. -/
theorem formatProtoDuration_eq : formatProtoDuration d.seconds d.nanos = durationText d := by
  have hnanos := toNat_absNanos hd
  have hlt := natAbs_nanos_lt hd
  have hzero : ((if d.nanos < 0 then (-d.nanos).toUInt32 else d.nanos.toUInt32) ≠ 0) ↔
      d.nanos.toInt.natAbs ≠ 0 := by
    rw [ne_eq, ← UInt32.toNat_inj, hnanos]
    rfl
  simp only [formatProtoDuration, durationText, minusSign, negative_iff, toNat_absSeconds, hzero, hnanos,
    zeroPadded_natCast (show 0 < 9 by decide) hlt]
  rw [List.take_of_length_le (length_fixedNumeral 9 _).le]
  congr 2
  by_cases hn : d.nanos.toInt.natAbs = 0
  · rw [if_neg (not_not.mpr hn), hn]
    rfl
  · rw [if_pos hn, take_fracLen _ hn, DurationTerm.point, if_neg (fractionDigits_ne_nil hlt hn)]

theorem toInt_absSeconds :
    (if d.seconds < 0 then -d.seconds else d.seconds).toInt = d.seconds.toInt.natAbs := by
  obtain ⟨hlow, hhigh, -⟩ := hd
  have hneg : d.seconds < 0 ↔ d.seconds.toInt < 0 := Int64.lt_iff_toInt_lt
  by_cases hs : d.seconds < 0
  · have := hneg.mp hs
    rw [if_pos hs, Int64.toInt_neg, Int.bmod_eq_of_le (by omega) (by omega)]
    omega
  · have := mt hneg.mpr hs
    rw [if_neg hs]
    omega

/-- **The writer that divides** writes it too. -/
theorem appendDurationCanonical_eq : appendDurationCanonical d = durationText d := by
  have hlt := natAbs_nanos_lt hd
  have hseconds := toInt_absSeconds hd
  have hnanos := toInt_absNanos hd
  by_cases hzero : d.seconds = 0 ∧ d.nanos = 0
  · rw [appendDurationCanonical, if_pos hzero, durationText, CelDurTs.negative, hzero.1, hzero.2]
    rfl
  rw [appendDurationCanonical, if_neg hzero]
  simp only [durationText, minusSign, negative_iff]
  generalize (if d.seconds < 0 then -d.seconds else d.seconds) = secs at hseconds
  generalize (if d.nanos < 0 then -d.nanos else d.nanos) = nanos at hnanos
  generalize d.nanos.toInt.natAbs = n at hlt hnanos
  have hwhole : strCatInt secs.toInt = numeral d.seconds.toInt.natAbs := by
    rw [hseconds, strCatInt, if_neg (by omega), Int.natAbs_natCast]
  have hnone : nanos = 0 ↔ n = 0 := by
    rw [← Int32.toInt_inj, hnanos]
    exact Int.natCast_eq_zero
  have hmod : ∀ {c : Int32} {k : ℕ}, c.toInt = k → (nanos % c = 0 ↔ n % k = 0) := by
    intro c k hc
    rw [← Int32.toInt_inj, Int32.toInt_mod, hnanos, hc]
    exact Int.natCast_eq_zero
  have hdiv : ∀ {c : Int32} {k : ℕ}, c.toInt = k → c ≠ -1 → (nanos / c).toInt = (n / k : ℕ) := by
    intro c k hc hone
    rw [Int32.toInt_div_of_ne_right _ _ hone, hnanos, hc]
    rfl
  have hmilli : (1000000 : Int32).toInt = (1000000 : ℕ) := rfl
  have hmicro : (1000 : Int32).toInt = (1000 : ℕ) := rfl
  rw [hwhole]
  congr 2
  by_cases hn : n = 0
  · rw [if_pos (hnone.mpr hn), hn]
    rfl
  rw [if_neg (mt hnone.mp hn), DurationTerm.point, if_neg (fractionDigits_ne_nil hlt hn), fractionDigits,
    if_neg hn, hdiv hmilli (by decide), hdiv hmicro (by decide), hnanos]
  simp only [hmod hmilli, hmod hmicro]
  split_ifs with hthree hsix
  · rw [zeroPadded_natCast (by decide) (by omega)]
  · rw [zeroPadded_natCast (by decide) (by omega)]
  · rw [zeroPadded_natCast (by decide) hlt]

/-! ## The same duration -/

omit hd in
/-- The term that a duration is written as. -/
def secondsTerm (d : CelDurTs) (h : d.nanos.toInt.natAbs < 10 ^ 9) : DurationTerm where
  whole := numeral d.seconds.toInt.natAbs
  fraction := fractionDigits d.nanos.toInt.natAbs
  unit := .s
  isNumeral_whole := isNumeral_numeral _
  isDigit_fraction := isDigit_fractionDigits h

theorem durationText_eq :
    durationText d = minusSign d.negative ++ termsText [secondsTerm d (natAbs_nanos_lt hd)] := by
  rw [durationText, termsText, List.map_singleton, List.flatten_singleton, DurationTerm.text,
    List.append_assoc, List.append_assoc, List.append_assoc]
  rfl

/-- **It is of as many ticks as the pair.** -/
theorem measures_secondsTerm : (secondsTerm d (natAbs_nanos_lt hd)).Measures
    (4 * (d.seconds.toInt.natAbs * 10 ^ 9 + d.nanos.toInt.natAbs)) where
  exact := by
    obtain ⟨w, k, heq, -, hk, hdenotes⟩ := fractionDigits_eq (natAbs_nanos_lt hd)
    have hticks : DurationUnit.s.ticks = 4 * 10 ^ 9 := rfl
    change (denoted (numeral _) * 10 ^ (fractionDigits _).length + denoted (fractionDigits _))
      * DurationUnit.s.ticks = _ * 10 ^ (fractionDigits _).length
    rw [denoted_numeral, heq, length_fixedNumeral, denoted_fixedNumeral hk, hticks, add_mul,
      mul_left_comm k, hdenotes]
    ring
  whole_lt := by
    obtain ⟨hlow, hhigh, -⟩ := hd
    change denoted (numeral _) < _
    rw [denoted_numeral]
    omega
  length_fraction_le := by
    obtain ⟨w, k, heq, hw, -⟩ := fractionDigits_eq (natAbs_nanos_lt hd)
    change (fractionDigits _).length ≤ 9
    rw [heq, length_fixedNumeral]
    exact hw

/-- **A parser that follows the grammar** gives the pair back. -/
theorem parse_durationText {parse : List UInt8 → Option AbslDuration} (hparse : FollowsGrammar parse) :
    parse (durationText d) = some (.ofSecondsNanos d.seconds d.nanos) := by
  rw [durationText_eq hd, hparse d.negative _ _ (List.cons_ne_nil _ _)
    (.cons (measures_secondsTerm hd) .nil), List.sum_singleton, AbslDuration.ofSecondsNanos]
  congr 2
  obtain ⟨-, -, -, -, hpos, hneg⟩ := hd
  rw [signed, CelDurTs.negative]
  split_ifs with hsign
  · rw [Bool.or_eq_true, decide_eq_true_eq, decide_eq_true_eq] at hsign
    omega
  · rw [Bool.or_eq_true, decide_eq_true_eq, decide_eq_true_eq] at hsign
    omega

omit hd in
/-- The filter goes past numbers. -/
theorem rejectsAfter_append {s : List UInt8} (h : ∀ b ∈ s, IsNumberByte b) (prevRank : ℤ)
    (rest : List UInt8) : rejectsAfter prevRank (s ++ rest) = rejectsAfter prevRank rest := by
  induction s with
  | nil => rfl
  | cons b s ih =>
    obtain ⟨hb, hs⟩ := List.forall_mem_cons.mp h
    rw [List.cons_append, rejectsAfter, if_pos hb, ih hs]

/-- **The filter lets the text through**: it has one unit. -/
theorem rejectsAsDurationPerCEL_durationText : rejectsAsDurationPerCEL (durationText d) = false := by
  have hnumber : ∀ b ∈ minusSign d.negative ++ numeral d.seconds.toInt.natAbs
      ++ DurationTerm.point (fractionDigits d.nanos.toInt.natAbs), IsNumberByte b := by
    intro b hb
    rcases List.mem_append.mp hb with hb | hb
    · rcases List.mem_append.mp hb with hb | hb
      · rw [minusSign] at hb
        split_ifs at hb
        · exact .inl (List.mem_singleton.mp hb)
        · exact absurd hb List.not_mem_nil
      · exact .inr (.inl ((isNumeral_numeral _).2 b hb))
    · rw [DurationTerm.point] at hb
      split_ifs at hb
      · exact absurd hb List.not_mem_nil
      · rcases List.mem_cons.mp hb with rfl | hb
        · exact .inr (.inr rfl)
        · exact .inr (.inl (isDigit_fractionDigits (natAbs_nanos_lt hd) b hb))
  rw [rejectsAsDurationPerCEL, durationText, rejectsAfter_append hnumber]
  rfl

/-- The text of a duration is read as it. -/
theorem parsedDuration_durationText {parse : List UInt8 → Option AbslDuration}
    (hparse : FollowsGrammar parse) : parsedDuration parse (durationText d) = .duration d := by
  have hpair : decomposeAbslDuration (.ofSecondsNanos d.seconds d.nanos) = d :=
    decomposeAbslDuration_ofSecondsNanos hd
  have hrange : ¬ (d.seconds < -kDurationMaxSeconds ∨ kDurationMaxSeconds < d.seconds) := by
    obtain ⟨hlow, hhigh, -⟩ := hd
    have hmin : (-kDurationMaxSeconds).toInt = -315576000000 := rfl
    have hmax : kDurationMaxSeconds.toInt = 315576000000 := rfl
    rw [Int64.lt_iff_toInt_lt, Int64.lt_iff_toInt_lt, hmin, hmax]
    omega
  rw [parsedDuration, parse_durationText hd hparse]
  simp only [rejectsAsDurationPerCEL_durationText hd, hpair, if_neg hrange, Bool.false_eq_true, if_false]

end Writers

/-- **The round trip of a duration through its text**: what `FormatProtoDuration` writes of a canonical
duration in range is let through by the filter, is read back as the same pair by any parser that
follows the grammar, in the kernel too, and is what `AppendDurationCanonical` writes. -/
theorem durationText_roundTrip {parseDuration : List UInt8 → Option AbslDuration}
    (hparse : FollowsGrammar parseDuration) {d : CelDurTs} (hd : ValidDuration d.seconds d.nanos) :
    rejectsAsDurationPerCEL (formatProtoDuration d.seconds d.nanos) = false ∧
      (parseDuration (formatProtoDuration d.seconds d.nanos)).map decomposeAbslDuration = some d ∧
      appendDurationCanonical d = formatProtoDuration d.seconds d.nanos ∧
      ∀ (cells : Slot → CelValue) (out a : Slot),
        cells a = .string (formatProtoDuration d.seconds d.nanos) →
        (celDurationParseAt parseDuration out a).run cells
          = pure ((), Function.update cells out (.duration d)) := by
  rw [formatProtoDuration_eq hd]
  refine ⟨rejectsAsDurationPerCEL_durationText hd, ?_, appendDurationCanonical_eq hd,
    fun cells out a ha => ?_⟩
  · rw [parse_durationText hd hparse, Option.map_some]
    exact congrArg some (decomposeAbslDuration_ofSecondsNanos hd)
  · rw [run_celDurationParseAt _ ha, parsedDuration_durationText hd hparse]

/-- Half a second before zero, through the parser that reads units. -/
theorem durationText_roundTrip_half :
    rejectsAsDurationPerCEL (formatProtoDuration 0 (-500000000)) = false ∧
      (readDuration (formatProtoDuration 0 (-500000000))).map decomposeAbslDuration
        = some ⟨0, -500000000⟩ ∧
      appendDurationCanonical ⟨0, -500000000⟩ = formatProtoDuration 0 (-500000000) ∧
      ∀ (cells : Slot → CelValue) (out a : Slot),
        cells a = .string (formatProtoDuration 0 (-500000000)) →
        (celDurationParseAt readDuration out a).run cells
          = pure ((), Function.update cells out (.duration ⟨0, -500000000⟩)) :=
  durationText_roundTrip followsGrammar_readDuration (d := ⟨0, -500000000⟩)
    ⟨by decide, by decide, by decide, by decide, by decide, by decide⟩

end CelWasm
