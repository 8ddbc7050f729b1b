import CelWasm.Library.DecimalDigits
import CelWasm.Runtime.Arithmetic
import CelWasm.Runtime.StringKernels

/-!
# Runtime/Conversions — integers as strings, and back

`cel_convert.c`. The parser accumulates a magnitude in 64 bits and gives up before it overflows, also
on a prefix; the formatter fills a buffer of twenty digits from the right and turns it around. A parse
that fails is OVERFLOW, whatever it failed on.
-/

namespace CelWasm

/-! ## Parsing -/

/-- `accumulate_u64_decimal`. -/
def accumulateU64Decimal : List UInt8 → UInt64 → Option UInt64
  | [], acc => some acc
  | b :: rest, acc =>
    if b < 0x30 || 0x39 < b then none
    else
      let d := (b - 0x30).toUInt64
      if 18446744073709551615 / 10 < acc then none
      else if 18446744073709551615 - d < acc * 10 then none
      else accumulateU64Decimal rest (acc * 10 + d)

/-- `apply_int64_sign`. -/
def applyInt64Sign (acc : UInt64) (neg : Bool) : Option Int64 :=
  if neg then
    if 2 ^ 63 < acc then none
    else if acc = 2 ^ 63 then some Int64.minValue
    else some (-acc.toInt64)
  else if 2 ^ 63 - 1 < acc then none
  else some acc.toInt64

/-- What `parse_int64_str` reads behind the sign. -/
def parseMagnitude (digits : List UInt8) (neg : Bool) : Option Int64 :=
  if digits = [] then none
  else (accumulateU64Decimal digits 0).bind fun acc => applyInt64Sign acc neg

/-- **`parse_int64_str`**. -/
def parseInt64Str (s : List UInt8) : Option Int64 :=
  match s with
  | [] => none
  | b :: rest =>
    if b = 0x2D then parseMagnitude rest true
    else if b = 0x2B then parseMagnitude rest false
    else parseMagnitude s false

/-- **`parse_uint64_str`**. -/
def parseUint64Str (s : List UInt8) : Option UInt64 :=
  match s with
  | [] => none
  | b :: rest =>
    let digits := if b = 0x2B then rest else s
    if digits = [] then none else accumulateU64Decimal digits 0

/-! ## Formatting -/

/-- The loop of `write_uint_decimal`, which fills its buffer from the right: at most so many digits. -/
def writeDigits : ℕ → UInt64 → List UInt8
  | 0, _ => []
  | room + 1, v => if v = 0 then [] else (0x30 + (v % 10).toUInt8) :: writeDigits room (v / 10)

/-- **`write_uint_decimal`**. -/
def writeUintDecimal (v : UInt64) : List UInt8 :=
  if v = 0 then [0x30] else (writeDigits 20 v).reverse

/-- **`write_int_decimal`**. -/
def writeIntDecimal (v : Int64) : List UInt8 :=
  if 0 ≤ v then writeUintDecimal v.toUInt64
  else 0x2D :: writeUintDecimal (if v = Int64.minValue then 2 ^ 63 else (-v).toUInt64)

/-- `stamp_string`. -/
def stampString (src : List UInt8) : Kernel CelValue := do
  if !(← Prog.alloc src.length) && 0 < src.length then return .error .overflow
  else return .string src

/-! ## Kernels -/

/-- `cel_string_to_int_at_v`. -/
def celStringToInt (a : CelValue) : Kernel CelValue :=
  unlessAbsorbedUnary a <|
    match a with
    | .string s => return orOverflow .int (parseInt64Str s)
    | _ => return .error .typeMismatch

/-- `cel_string_to_uint_at_v`. -/
def celStringToUint (a : CelValue) : Kernel CelValue :=
  unlessAbsorbedUnary a <|
    match a with
    | .string s => return orOverflow .uint (parseUint64Str s)
    | _ => return .error .typeMismatch

/-- `cel_int_to_string_at_v`. -/
def celIntToString (a : CelValue) : Kernel CelValue :=
  unlessAbsorbedUnary a <|
    match a with
    | .int v => stampString (writeIntDecimal v)
    | _ => return .error .typeMismatch

/-- `cel_uint_to_string_at_v`. -/
def celUintToString (a : CelValue) : Kernel CelValue :=
  unlessAbsorbedUnary a <|
    match a with
    | .uint v => stampString (writeUintDecimal v)
    | _ => return .error .typeMismatch

/-! ## The parser is exact -/

theorem toNat_digit {b : UInt8} (h : IsDigit b) : (b - 0x30).toUInt64.toNat = digitValue b := by
  rw [UInt8.toNat_toUInt64, UInt8.toNat_sub_of_le _ _ h.1]
  rfl

theorem digitValue_le {b : UInt8} (h : IsDigit b) : digitValue b ≤ 9 := by
  rw [isDigit_iff] at h
  rw [digitValue]
  omega

/-- **One digit**: the two checks are the check of the accumulator to come. -/
theorem accumulateU64Decimal_cons {b : UInt8} (hb : IsDigit b) (rest : List UInt8) (acc : UInt64) :
    accumulateU64Decimal (b :: rest) acc
      = if acc.toNat * 10 + digitValue b < 2 ^ 64 then
          accumulateU64Decimal rest (acc * 10 + (b - 0x30).toUInt64)
        else none := by
  have hd := toNat_digit hb
  have hle := digitValue_le hb
  have htenth : (18446744073709551615 / 10 : UInt64) < acc ↔ 1844674407370955161 < acc.toNat :=
    UInt64.lt_iff_toNat_lt
  have hroom : 18446744073709551615 - (b - 0x30).toUInt64 < acc * 10
      ↔ 18446744073709551615 - digitValue b < acc.toNat * 10 % 2 ^ 64 := by
    have hsub : (b - 0x30).toUInt64 ≤ 18446744073709551615 := by
      rw [UInt64.le_iff_toNat_le, hd]
      exact hle.trans (by decide)
    rw [UInt64.lt_iff_toNat_lt, UInt64.toNat_sub_of_le _ _ hsub, UInt64.toNat_mul, hd]
    rfl
  have hdigit : ¬ (b < 0x30 || 0x39 < b) = true := by
    rw [Bool.or_eq_true, decide_eq_true_iff, decide_eq_true_iff, not_or, UInt8.not_lt, UInt8.not_lt]
    exact hb
  rw [accumulateU64Decimal, if_neg hdigit]
  simp only [htenth, hroom]
  by_cases hfits : acc.toNat * 10 + digitValue b < 2 ^ 64
  · rw [if_pos hfits, if_neg (by omega), if_neg (by omega)]
  · rw [if_neg hfits]
    split_ifs
    · rfl
    · rfl
    · omega

/-- **The accumulator is the number read so far**: all of it is read, if it is digits and fits. -/
theorem accumulateU64Decimal_eq_some_iff (s : List UInt8) (acc v : UInt64) :
    accumulateU64Decimal s acc = some v ↔
      (∀ b ∈ s, IsDigit b) ∧ v.toNat = acc.toNat * 10 ^ s.length + denoted s := by
  induction s generalizing acc with
  | nil =>
    rw [accumulateU64Decimal, Option.some.injEq, ← UInt64.toNat_inj, List.length_nil, pow_zero,
      mul_one, denoted_nil, Nat.add_zero, eq_comm]
    exact (and_iff_right (List.forall_mem_nil _)).symm
  | cons b rest ih =>
    by_cases hb : IsDigit b
    · rw [accumulateU64Decimal_cons hb, List.forall_mem_cons, and_iff_right hb, denoted_cons,
        List.length_cons]
      -- what is denoted is the accumulator with one more digit, and no less than that
      have hstep : acc.toNat * 10 ^ (rest.length + 1)
            + (digitValue b * 10 ^ rest.length + denoted rest)
          = (acc.toNat * 10 + digitValue b) * 10 ^ rest.length + denoted rest := by ring
      have hgrow : acc.toNat * 10 + digitValue b
          ≤ (acc.toNat * 10 + digitValue b) * 10 ^ rest.length + denoted rest :=
        (Nat.le_mul_of_pos_right _ (by positivity)).trans (Nat.le_add_right _ _)
      rw [hstep]
      split_ifs with hfits
      · have hmul : acc.toNat * 10 % 2 ^ 64 = acc.toNat * 10 := Nat.mod_eq_of_lt (by omega)
        have hsum : (acc * 10 + (b - 0x30).toUInt64).toNat = acc.toNat * 10 + digitValue b := by
          rw [UInt64.toNat_add, UInt64.toNat_mul, toNat_digit hb]
          exact (congrArg (fun n => (n + digitValue b) % 2 ^ 64) hmul).trans (Nat.mod_eq_of_lt hfits)
        rw [ih, hsum]
      · have hv := v.toNat_lt
        exact iff_of_false not_false fun h => hfits (by omega)
    · refine iff_of_false (fun h => ?_) fun h => hb (h.1 b List.mem_cons_self)
      have hdigit : (b < 0x30 || 0x39 < b) = true := by
        rw [IsDigit, not_and_or, UInt8.not_le, UInt8.not_le] at hb
        simpa using hb
      rw [accumulateU64Decimal, if_pos hdigit] at h
      cases h

/-- The sign is applied exactly, where an int64 has the result. -/
theorem applyInt64Sign_eq_some_iff (acc : UInt64) (neg : Bool) (v : Int64) :
    applyInt64Sign acc neg = some v ↔ v.toInt = if neg then -(acc.toNat : ℤ) else acc.toNat := by
  have hlt := v.toInt_lt
  have hle := v.le_toInt
  have hsmall : acc.toNat < 2 ^ 63 → acc.toInt64.toInt = acc.toNat := fun h =>
    BitVec.toInt_eq_toNat_of_lt (x := acc.toBitVec) (by change 2 * acc.toNat < 2 ^ 64; omega)
  cases neg with
  | true =>
    have hover : 2 ^ 63 < acc ↔ 2 ^ 63 < acc.toNat := by
      rw [UInt64.lt_iff_toNat_lt, toNat_two_pow_63]
    have hleast : acc = 2 ^ 63 ↔ acc.toNat = 2 ^ 63 := by
      rw [← UInt64.toNat_inj, toNat_two_pow_63]
    rw [applyInt64Sign, if_pos rfl, if_pos rfl]
    simp only [hover, hleast]
    split_ifs with hbig hedge
    · exact iff_of_false nofun (by omega)
    · rw [Option.some.injEq, eq_comm, toInt_eq_min_iff, hedge]
      rfl
    · have hneg : (-acc.toInt64).toInt = -acc.toNat := by
        rw [Int64.toInt_neg, hsmall (by omega)]
        exact Int.bmod_eq_of_le (by omega) (by omega)
      rw [Option.some.injEq, ← Int64.toInt_inj, hneg, eq_comm]
  | false =>
    have hover : 2 ^ 63 - 1 < acc ↔ 2 ^ 63 - 1 < acc.toNat := by
      rw [UInt64.lt_iff_toNat_lt, toNat_two_pow_63_sub_one]
    rw [applyInt64Sign, if_neg Bool.false_ne_true, if_neg Bool.false_ne_true]
    simp only [hover]
    split_ifs with hbig
    · exact iff_of_false nofun (by omega)
    · rw [Option.some.injEq, ← Int64.toInt_inj, hsmall (by omega), eq_comm]

theorem parseMagnitude_eq_some_iff (digits : List UInt8) (neg : Bool) (v : Int64) :
    parseMagnitude digits neg = some v ↔
      IsNumeral digits ∧ v.toInt = if neg then -(denoted digits : ℤ) else denoted digits := by
  rw [parseMagnitude, IsNumeral]
  by_cases hnil : digits = []
  · rw [if_pos hnil]
    exact iff_of_false nofun fun h => h.1.1 hnil
  rw [if_neg hnil, Option.bind_eq_some_iff]
  simp only [accumulateU64Decimal_eq_some_iff, applyInt64Sign_eq_some_iff, UInt64.toNat_zero,
    Nat.zero_mul, Nat.zero_add]
  constructor
  · rintro ⟨acc, ⟨hdigits, hacc⟩, hv⟩
    exact ⟨⟨hnil, hdigits⟩, hacc ▸ hv⟩
  · rintro ⟨⟨-, hdigits⟩, hv⟩
    have hlt := v.toInt_lt
    have hle := v.le_toInt
    have hfits : denoted digits < 2 ^ 64 := by split_ifs at hv <;> omega
    have hacc : (UInt64.ofNat (denoted digits)).toNat = denoted digits :=
      UInt64.toNat_ofNat_of_lt' hfits
    exact ⟨UInt64.ofNat (denoted digits), ⟨hdigits, hacc⟩, hacc.symm ▸ hv⟩

/-- **The int parser is exact**: it reads a numeral behind an optional sign, in the range of int64. -/
theorem parseInt64Str_eq_some_iff (s : List UInt8) (v : Int64) :
    parseInt64Str s = some v ↔ Denotes s v.toInt := by
  cases s with
  | nil => exact iff_of_false nofun (not_denotes_nil _)
  | cons b rest =>
    rw [parseInt64Str]
    split_ifs with hminus hplus
    · rw [hminus, denotes_minus_iff, parseMagnitude_eq_some_iff, if_pos rfl]
    · rw [hplus, denotes_plus_iff, parseMagnitude_eq_some_iff, if_neg Bool.false_ne_true]
    · rw [denotes_bare_iff hplus hminus, parseMagnitude_eq_some_iff, if_neg Bool.false_ne_true]

/-- **The uint parser is exact.** -/
theorem parseUint64Str_eq_some_iff (s : List UInt8) (v : UInt64) :
    parseUint64Str s = some v ↔ DenotesNat s v.toNat := by
  have hread : ∀ digits, (if digits = [] then none else accumulateU64Decimal digits 0) = some v ↔
      IsNumeral digits ∧ v.toNat = denoted digits := fun digits => by
    rw [IsNumeral]
    split_ifs with hnil
    · exact iff_of_false nofun fun h => h.1.1 hnil
    · rw [accumulateU64Decimal_eq_some_iff, UInt64.toNat_zero, Nat.zero_mul, Nat.zero_add,
        and_iff_right hnil]
  cases s with
  | nil => exact iff_of_false nofun (not_denotesNat_nil _)
  | cons b rest =>
    refine (hread _).trans ?_
    split_ifs with hplus
    · rw [hplus, denotesNat_plus_iff]
    · rw [denotesNat_bare_iff hplus]

/-! ## The formatter writes the numeral -/

/-- **Twenty digits are enough**, and they are those of the number, from the right. -/
theorem writeDigits_eq {room : ℕ} {v : UInt64} (h : v.toNat < 10 ^ room) :
    writeDigits room v = (Nat.digits 10 v.toNat).map digitByte := by
  induction room generalizing v with
  | zero =>
    have hzero : v.toNat = 0 := by simpa using h
    rw [hzero, Nat.digits_zero]
    rfl
  | succ room ih =>
    rw [writeDigits]
    have hzero : v = 0 ↔ v.toNat = 0 := UInt64.toNat_inj.symm
    split_ifs with hv
    · rw [hzero.mp hv, Nat.digits_zero]
      rfl
    · have hdiv : (v / 10).toNat = v.toNat / 10 := UInt64.toNat_div v 10
      have hnext : (v / 10).toNat < 10 ^ room := by
        rw [hdiv]
        exact Nat.div_lt_of_lt_mul (by rwa [pow_succ'] at h)
      have hdigit : 0x30 + (v % 10).toUInt8 = digitByte (v.toNat % 10) := by
        rw [← UInt8.toNat_inj, toNat_digitByte (Nat.mod_lt _ (by norm_num)), UInt8.toNat_add,
          UInt64.toNat_toUInt8, UInt64.toNat_mod]
        change (48 + v.toNat % 10 % 2 ^ 8) % 2 ^ 8 = 48 + v.toNat % 10
        omega
      rw [Nat.digits_def' (by norm_num) (Nat.pos_of_ne_zero fun h => hv (hzero.mpr h)), List.map_cons,
        ih hnext, hdiv, hdigit]

theorem writeUintDecimal_eq (v : UInt64) : writeUintDecimal v = numeral v.toNat := by
  have hzero : v = 0 ↔ v.toNat = 0 := UInt64.toNat_inj.symm
  rw [writeUintDecimal, numeral, if_congr hzero rfl rfl,
    writeDigits_eq (v.toNat_lt.trans (by norm_num))]

/-- **What is written denotes the int.** -/
theorem denotes_writeIntDecimal (v : Int64) : Denotes (writeIntDecimal v) v.toInt := by
  have hlt := v.toInt_lt
  have hle := v.le_toInt
  have hsign : 0 ≤ v ↔ 0 ≤ v.toInt := Int64.le_iff_toInt_le
  rw [writeIntDecimal]
  split_ifs with hv hmin
  · have hvalue : (v.toUInt64.toNat : ℤ) = v.toInt := by
      rw [Int64.toNat_toUInt64_of_le hv]
      exact Int.toNat_of_nonneg (hsign.mp hv)
    have h := Denotes.bare (isNumeral_numeral v.toUInt64.toNat)
    rwa [denoted_numeral, hvalue, ← writeUintDecimal_eq] at h
  · have hbound : ((2 ^ 63 : UInt64).toNat : ℤ) = 2 ^ 63 := by
      rw [toNat_two_pow_63]
      rfl
    have h := Denotes.minus (isNumeral_numeral (2 ^ 63 : UInt64).toNat)
    rwa [denoted_numeral, hbound, ← writeUintDecimal_eq, ← toInt_eq_min_iff.mp hmin] at h
  · have hmagnitude : ((-v).toUInt64.toNat : ℤ) = -v.toInt := by
      have habs := toNat_magnitudeInt64 hmin
      have hneg : v < 0 := Int64.not_le.mp hv
      rw [magnitudeInt64, if_pos hneg] at habs
      rw [habs]
      rw [hsign] at hv
      omega
    have h := Denotes.minus (isNumeral_numeral (-v).toUInt64.toNat)
    rwa [denoted_numeral, hmagnitude, neg_neg, ← writeUintDecimal_eq] at h

/-- …and the uint. -/
theorem denotesNat_writeUintDecimal (v : UInt64) : DenotesNat (writeUintDecimal v) v.toNat := by
  have h := DenotesNat.bare (isNumeral_numeral v.toNat)
  rwa [denoted_numeral, ← writeUintDecimal_eq] at h

/-! ## There and back -/

/-- A stamped string is the bytes, or there was no room for them. -/
theorem reaches_stampString {src : List UInt8} {r : Except Stop CelValue}
    (h : (stampString src).Reaches r) : r = .ok (.string src) ∨ r = .ok (.error .overflow) := by
  cases h with
  | ask _ _ granted h =>
    change (if !granted && decide (0 < src.length) then pure (.error .overflow)
      else pure (.string src) : Kernel CelValue).Reaches r at h
    split_ifs at h
    · exact .inr (Prog.reaches_pure.mp h)
    · exact .inl (Prog.reaches_pure.mp h)

@[simp] theorem granted_stampString (src : List UInt8) :
    (stampString src).granted = .ok (.string src) := rfl

/-- **Conversions of integers and strings are inverse, and the parsers are exact.** What comes out of
a conversion to a string converts to the integer again, unless there was no room for the string; and a
string converts to an integer exactly if it is a numeral of it, behind a sign if need be. -/
theorem integerConversions_exact :
    (∀ i : Int64, (celIntToString (.int i) >>= celStringToInt).granted = .ok (.int i) ∧
      ∀ r, (celIntToString (.int i)).Reaches r → r = .ok (.error .overflow) ∨
        ∃ s, r = .ok (.string s) ∧ celStringToInt (.string s) = pure (.int i)) ∧
    (∀ u : UInt64, (celUintToString (.uint u) >>= celStringToUint).granted = .ok (.uint u) ∧
      ∀ r, (celUintToString (.uint u)).Reaches r → r = .ok (.error .overflow) ∨
        ∃ s, r = .ok (.string s) ∧ celStringToUint (.string s) = pure (.uint u)) ∧
    (∀ (s : List UInt8) (i : Int64),
      celStringToInt (.string s) = pure (.int i) ↔ Denotes s i.toInt) ∧
    ∀ (s : List UInt8) (u : UInt64),
      celStringToUint (.string s) = pure (.uint u) ↔ DenotesNat s u.toNat := by
  have hint : ∀ (s : List UInt8) (i : Int64),
      celStringToInt (.string s) = pure (.int i) ↔ Denotes s i.toInt := fun s i => by
    rw [← parseInt64Str_eq_some_iff]
    change pure (orOverflow .int (parseInt64Str s)) = pure (.int i) ↔ _
    rw [Prog.pure_eq_ret, Prog.pure_eq_ret, Prog.ret.injEq]
    cases parseInt64Str s <;> simp [orOverflow]
  have huint : ∀ (s : List UInt8) (u : UInt64),
      celStringToUint (.string s) = pure (.uint u) ↔ DenotesNat s u.toNat := fun s u => by
    rw [← parseUint64Str_eq_some_iff]
    change pure (orOverflow .uint (parseUint64Str s)) = pure (.uint u) ↔ _
    rw [Prog.pure_eq_ret, Prog.pure_eq_ret, Prog.ret.injEq]
    cases parseUint64Str s <;> simp [orOverflow]
  refine ⟨fun i => ?_, fun u => ?_, hint, huint⟩
  · have hback := (hint _ i).mpr (denotes_writeIntDecimal i)
    refine ⟨?_, fun r h => ?_⟩
    · rw [Prog.granted_bind]
      change (celStringToInt (.string (writeIntDecimal i))).granted = _
      rw [hback]
      rfl
    · obtain rfl | rfl := reaches_stampString h
      · exact .inr ⟨_, rfl, hback⟩
      · exact .inl rfl
  · have hback := (huint _ u).mpr (denotesNat_writeUintDecimal u)
    refine ⟨?_, fun r h => ?_⟩
    · rw [Prog.granted_bind]
      change (celStringToUint (.string (writeUintDecimal u))).granted = _
      rw [hback]
      rfl
    · obtain rfl | rfl := reaches_stampString h
      · exact .inr ⟨_, rfl, hback⟩
      · exact .inl rfl

/-- The least int, whose magnitude no int64 has, and a numeral behind a sign. -/
theorem integerConversions_exact_minValue :
    (∃ s, (celIntToString (.int Int64.minValue)).granted = .ok (.string s) ∧
        celStringToInt (.string s) = pure (.int Int64.minValue)) ∧
      celStringToInt (.string [0x2B, 0x30, 0x30, 0x37]) = pure (.int 7) := by
  constructor
  · refine ((integerConversions_exact.1 Int64.minValue).2 _ (Prog.reaches_granted _)).resolve_left ?_
    exact nofun
  · have hnumeral : IsNumeral [0x30, 0x30, 0x37] := ⟨List.cons_ne_nil _ _, by simp [IsDigit]⟩
    exact (integerConversions_exact.2.2.1 [0x2B, 0x30, 0x30, 0x37] 7).mpr (.plus hnumeral)

end CelWasm
