import CelWasm.Library.BoundedScan
import CelWasm.Library.DecimalDigits
import Mathlib.Computability.Language

/-!
# Runtime/DoubleText — the texts that are read as doubles

`parse_double_str` of `cel_convert.c` scans a text once: a sign, then one of three words or a mantissa
and an exponent, and nothing behind. Each scanner takes as much as it can. The texts it accepts are
those of a grammar, whichever way they could be taken apart (`parseDoubleStr_accepts_iff`).

    sign? (inf | infinity | nan)          in any case of letters
    sign? digits? (. digits?)? ((e | E) sign? digits)?
-/

namespace CelWasm

/-! ## The scanners -/

section Scanners

variable (p : List UInt8)

/-- A letter as `eq_ci` compares it. -/
def foldCase (a : UInt8) : UInt8 := if 0x41 ≤ a && a ≤ 0x5A then a + 32 else a

/-- `eq_ci`: the bytes from a position on against a pattern. -/
def eqCi : ℕ → List UInt8 → Scan Bool
  | _, [] => .ok true
  | i, b :: pattern => do
    let a ← readAt p i
    if foldCase a ≠ foldCase b then return false else eqCi (i + 1) pattern

/-- `"infinity"`. -/
def infinityWord : List UInt8 := [0x69, 0x6E, 0x66, 0x69, 0x6E, 0x69, 0x74, 0x79]

/-- `"inf"`. -/
def infWord : List UInt8 := [0x69, 0x6E, 0x66]

/-- `"nan"`. -/
def nanWord : List UInt8 := [0x6E, 0x61, 0x6E]

/-- A row of `try_parse_double_special`: the length is checked first. -/
def isSpecial (i : ℕ) (word : List UInt8) : Scan Bool :=
  if p.length - i = word.length then eqCi p i word else .ok false

/-- `__builtin_inf()`. -/
def builtinInf : Float := .ofBits 0x7FF0000000000000

/-- `__builtin_nan("")`. -/
def builtinNan : Float := .ofBits 0x7FF8000000000000

/-- `try_parse_double_special`. -/
def tryParseDoubleSpecial (i : ℕ) (neg : Bool) : Scan (Option Float) := do
  if ← isSpecial p i infinityWord then return some (if neg then -builtinInf else builtinInf)
  else if ← isSpecial p i infWord then return some (if neg then -builtinInf else builtinInf)
  else if ← isSpecial p i nanWord then return some builtinNan
  else return none

/-- `scan_decimal_digits`: the mantissa, whether there was a digit, and the position. -/
def scanDecimalDigits (i : ℕ) (mantissa : Float) : Scan (Float × Bool × ℕ) :=
  scanWhile p (IsDigit ·) (fun m b => m * 10.0 + (b - 0x30).toFloat) (p.length + 1) i mantissa false

/-- `scan_leading_sign`. -/
def scanLeadingSign (i : ℕ) : Scan (Bool × ℕ) :=
  if p.length ≤ i then .ok (false, i)
  else do
    let b ← readAt p i
    if b = 0x2D then return (true, i + 1)
    else if b = 0x2B then return (false, i + 1)
    else return (false, i)

/-- A digit of the exponent, which is capped. -/
def exponentStep (value : Int32) (b : UInt8) : Int32 :=
  if value < 10000 then value * 10 + Int32.ofNat (digitValue b) else value

/-- `scan_exponent`: none where it is malformed. -/
def scanExponent (i : ℕ) : Scan (Option (Int32 × ℕ)) :=
  if p.length ≤ i then .ok (some (0, i))
  else do
    let b ← readAt p i
    if b ≠ 0x65 ∧ b ≠ 0x45 then return some (0, i)
    else if i + 1 = p.length then return none
    else
      let (expNeg, i) ← scanLeadingSign p (i + 1)
      if i = p.length then return none
      else
        let (expVal, saw, i) ← scanWhile p (IsDigit ·) exponentStep (p.length + 1) i 0 false
        if !saw then return none
        else return some (if expNeg then -expVal else expVal, i)

/-- `scan_mantissa`: whether there was a digit, the mantissa, how many digits of it are behind the
point, and the position. -/
def scanMantissa (i : ℕ) : Scan (Bool × Float × Int32 × ℕ) := do
  let (mantissa, saw, i) ← scanDecimalDigits p i 0.0
  if i < p.length then
    let b ← readAt p i
    if b = 0x2E then
      let (mantissa, sawFrac, j) ← scanDecimalDigits p (i + 1) mantissa
      return (saw || sawFrac, mantissa, Int32.ofNat (j - (i + 1)), j)
    else return (saw, mantissa, 0, i)
  else return (saw, mantissa, 0, i)

/-- `apply_decimal_scale`: one power of ten up to `10²²`, and step by step beyond. -/
def applyDecimalScale (mantissa : Float) (totalExp : Int32) : Float :=
  if totalExp = 0 then mantissa
  else
    let k := if 0 < totalExp then totalExp else -totalExp
    if k ≤ 22 then
      let pow10 := k.toInt.toNat.repeat (· * 10.0) 1.0
      if 0 < totalExp then mantissa * pow10 else mantissa / pow10
    else k.toInt.toNat.repeat (fun m => if 0 < totalExp then m * 10.0 else m / 10.0) mantissa

/-- **`parse_double_str`**: none where the text is refused. -/
def parseDoubleStr : Scan (Option Float) :=
  if p.length = 0 then .ok none
  else do
    let (neg, i) ← scanLeadingSign p 0
    if i = p.length then return none
    else
      match ← tryParseDoubleSpecial p i neg with
      | some out => return some out
      | none =>
        let (saw, mantissa, fracDigits, i) ← scanMantissa p i
        if !saw then return none
        else
          match ← scanExponent p i with
          | none => return none
          | some (signedExp, i) =>
            if i ≠ p.length then return none
            else
              let mantissa := applyDecimalScale mantissa (signedExp - fracDigits)
              return some (if neg then -mantissa else mantissa)

end Scanners

/-! ## The grammar -/

namespace DoubleText

/-- A sign, or none. -/
def sign : Language UInt8 := {s | s = [] ∨ s = [0x2D] ∨ s = [0x2B]}

/-- A word in any case of letters. -/
def word : Language UInt8 := {s | s.map foldCase ∈ [infinityWord, infWord, nanWord]}

/-- Digits with a fraction or without, and a digit at least. -/
def mantissa : Language UInt8 :=
  {s | ∃ whole frac, (∀ b ∈ whole, IsDigit b) ∧ (∀ b ∈ frac, IsDigit b) ∧ whole ++ frac ≠ [] ∧
    (s = whole ++ 0x2E :: frac ∨ s = whole ∧ frac = [])}

/-- A digit at least. -/
def digits : Language UInt8 := {s | IsNumeral s}

/-- The sign and the digits of an exponent. -/
def exponentTail : Language UInt8 := sign * digits

/-- An exponent, or none. -/
def exponent : Language UInt8 := {s | s = [] ∨ ∃ e t, s = e :: t ∧ (e = 0x65 ∨ e = 0x45) ∧
  t ∈ exponentTail}

/-- What stands behind the sign. -/
def body : Language UInt8 := word + mantissa * exponent

/-- **A text that stands for a double.** -/
def text : Language UInt8 := sign * body

/-! ## Each part as it is scanned -/

/-- A text without its sign. -/
def unsigned : List UInt8 → List UInt8
  | [] => []
  | b :: s => if b = 0x2D ∨ b = 0x2B then s else b :: s

/-- **A sign is taken** wherever what is behind it does not begin with one. -/
theorem mem_sign_mul_iff {l : Language UInt8} (hnil : [] ∉ l)
    (hl : ∀ b s, b :: s ∈ l → ¬ (b = 0x2D ∨ b = 0x2B)) (s : List UInt8) :
    s ∈ sign * l ↔ unsigned s ∈ l := by
  constructor
  · intro h
    obtain ⟨sgn, hsgn, rest, hrest, rfl⟩ := Language.mem_mul.mp h
    obtain rfl | rfl | rfl := hsgn
    · rcases rest with _ | ⟨b, rest⟩
      · exact absurd hrest hnil
      · rwa [List.nil_append, unsigned, if_neg (hl b rest hrest)]
    · rwa [List.singleton_append, unsigned, if_pos (.inl rfl)]
    · rwa [List.singleton_append, unsigned, if_pos (.inr rfl)]
  · intro h
    rw [Language.mem_mul]
    rcases s with _ | ⟨b, s⟩
    · exact absurd h hnil
    rw [unsigned] at h
    split_ifs at h with hb
    · exact ⟨[b], hb.elim (fun hb => .inr (.inl (congrArg ([·]) hb)))
        (fun hb => .inr (.inr (congrArg ([·]) hb))), s, h, rfl⟩
    · exact ⟨[], .inl rfl, b :: s, h, rfl⟩

/-- A digit is no sign. -/
theorem not_sign_of_isDigit {b : UInt8} (h : IsDigit b) : ¬ (b = 0x2D ∨ b = 0x2B) := by
  rintro (rfl | rfl)
  · exact absurd h (by decide)
  · exact absurd h (by decide)

theorem mem_exponentTail_iff (s : List UInt8) : s ∈ exponentTail ↔ IsNumeral (unsigned s) :=
  mem_sign_mul_iff (fun h : IsNumeral [] => h.1 rfl)
    (fun b t (h : IsNumeral (b :: t)) => not_sign_of_isDigit (h.2 b List.mem_cons_self)) s

/-- The first byte of an exponent is no digit and no point. -/
theorem head_of_mem_exponent {s : List UInt8} (h : s ∈ exponent) :
    ∀ b ∈ s.head?, ¬ IsDigit b ∧ b ≠ 0x2E := by
  obtain rfl | ⟨e, t, rfl, he, -⟩ := h
  · exact nofun
  · rintro b ⟨⟩
    obtain rfl | rfl := he <;> decide

theorem digits_append {run rest : List UInt8} (hrun : ∀ b ∈ run, IsDigit b)
    (hrest : ∀ b ∈ rest.head?, ¬ IsDigit b) :
    (run ++ rest).takeWhile (IsDigit ·) = run ∧ (run ++ rest).dropWhile (IsDigit ·) = rest :=
  run_append (fun b hb => decide_eq_true (hrun b hb))
    fun b hb => fun h => hrest b hb (of_decide_eq_true h)

theorem isDigit_of_mem_takeWhile {s : List UInt8} {b : UInt8} (h : b ∈ s.takeWhile (IsDigit ·)) :
    IsDigit b := of_decide_eq_true (@List.mem_takeWhile_imp _ (IsDigit ·) _ _ h)

/-- **A mantissa and an exponent, as they are scanned**: the digits, and behind a point more of
them. -/
theorem mem_mantissa_mul_exponent_iff (s : List UInt8) : s ∈ mantissa * exponent ↔
    (∃ t, s.dropWhile (IsDigit ·) = 0x2E :: t ∧
      s.takeWhile (IsDigit ·) ++ t.takeWhile (IsDigit ·) ≠ [] ∧
      t.dropWhile (IsDigit ·) ∈ exponent) ∨
    s.takeWhile (IsDigit ·) ≠ [] ∧ s.dropWhile (IsDigit ·) ∈ exponent := by
  constructor
  · intro h
    obtain ⟨m, ⟨whole, frac, hwhole, hfrac, hne, hm⟩, e, he, rfl⟩ := Language.mem_mul.mp h
    have hhead := head_of_mem_exponent he
    have hstop : ∀ b ∈ e.head?, ¬ IsDigit b := fun b hb => (hhead b hb).1
    obtain rfl | ⟨rfl, rfl⟩ := hm
    · rw [List.append_assoc, List.cons_append]
      obtain ⟨htake, hdrop⟩ := @digits_append whole (0x2E :: (frac ++ e)) hwhole (by
        rintro b ⟨⟩
        decide)
      obtain ⟨htake', hdrop'⟩ := digits_append hfrac hstop
      exact .inl ⟨frac ++ e, hdrop, by rwa [htake, htake'], by rwa [hdrop']⟩
    · obtain ⟨htake, hdrop⟩ := digits_append hwhole hstop
      rw [List.append_nil] at hne
      exact .inr ⟨by rwa [htake], by rwa [hdrop]⟩
  · rintro (⟨t, hdrop, hne, he⟩ | ⟨hne, he⟩)
    · refine Language.mem_mul.mpr ⟨s.takeWhile (IsDigit ·) ++ 0x2E :: t.takeWhile (IsDigit ·),
        ⟨_, _, fun _ => isDigit_of_mem_takeWhile, fun _ => isDigit_of_mem_takeWhile, hne, .inl rfl⟩,
        _, he, ?_⟩
      rw [List.append_assoc, List.cons_append, List.takeWhile_append_dropWhile, ← hdrop,
        List.takeWhile_append_dropWhile]
    · exact Language.mem_mul.mpr ⟨s.takeWhile (IsDigit ·), ⟨_, [], fun _ => isDigit_of_mem_takeWhile,
        nofun, by rwa [List.append_nil], .inr ⟨rfl, rfl⟩⟩, _, he, List.takeWhile_append_dropWhile⟩

/-- A word does not begin with a sign. -/
theorem not_sign_of_mem_word {b : UInt8} {s : List UInt8} (h : b :: s ∈ word) :
    ¬ (b = 0x2D ∨ b = 0x2B) := by
  have hfold : foldCase b = 0x69 ∨ foldCase b = 0x6E := by
    have hwords : foldCase b :: s.map foldCase ∈ [infinityWord, infWord, nanWord] := h
    simp only [List.mem_cons, List.not_mem_nil, or_false] at hwords
    obtain h | h | h := hwords
    · exact .inl (List.cons.inj h).1
    · exact .inl (List.cons.inj h).1
    · exact .inr (List.cons.inj h).1
  rintro (rfl | rfl) <;> exact absurd hfold (by decide)

theorem nil_notMem_body : [] ∉ body := by
  intro h
  obtain hword | hnumber := (Language.mem_add _ _ _).mp h
  · have hwords : ([] : List UInt8) ∈ [infinityWord, infWord, nanWord] := hword
    exact absurd hwords (by decide)
  · rw [mem_mantissa_mul_exponent_iff] at hnumber
    obtain ⟨t, hdrop, -⟩ | ⟨hne, -⟩ := hnumber
    · exact nomatch hdrop
    · exact hne rfl

/-- **A text, as it is scanned**: what is behind its sign. -/
theorem mem_text_iff (s : List UInt8) : s ∈ text ↔ unsigned s ∈ body := by
  refine mem_sign_mul_iff nil_notMem_body ?_ s
  · intro b t h hb
    obtain hword | hnumber := (Language.mem_add _ _ _).mp h
    · exact not_sign_of_mem_word hword hb
    · have hdigit : ¬ IsDigit b := fun h => not_sign_of_isDigit h hb
      have hpoint : b ≠ 0x2E := by
        rintro rfl
        exact absurd hb (by decide)
      rw [mem_mantissa_mul_exponent_iff, List.takeWhile_cons_of_neg (by simpa using hdigit),
        List.dropWhile_cons_of_neg (by simpa using hdigit)] at hnumber
      obtain ⟨t, hdrop, -⟩ | ⟨hne, -⟩ := hnumber
      · exact hpoint (List.cons.inj hdrop).1
      · exact hne rfl

end DoubleText

/-! ## What the scanners take -/

open DoubleText

section Scans

variable {p s : List UInt8} {i : ℕ}

theorem Leaves.scanLeadingSign (h : Leaves p i s) :
    ∃ neg j, scanLeadingSign p i = .ok (neg, j) ∧ Leaves p j (unsigned s) := by
  rw [CelWasm.scanLeadingSign]
  rcases s with _ | ⟨b, s⟩
  · rw [if_pos (h.eq_length_iff.mpr rfl).ge]
    exact ⟨false, i, rfl, h⟩
  · rw [if_neg (not_le.mpr h.lt), h.readAt, unsigned]
    simp only [bind, Except.bind]
    split_ifs with hminus hsign hplus hsign hsign
    · exact ⟨true, i + 1, rfl, h.tail⟩
    · exact absurd (.inl hminus) hsign
    · exact ⟨false, i + 1, rfl, h.tail⟩
    · exact absurd (.inr hplus) hsign
    · exact absurd hsign (not_or.mpr ⟨hminus, hplus⟩)
    · exact ⟨false, i, rfl, h⟩

theorem Leaves.eqCi {pattern : List UInt8} (h : Leaves p i s) (hlength : s.length = pattern.length) :
    eqCi p i pattern = .ok (decide (s.map foldCase = pattern.map foldCase)) := by
  induction pattern generalizing i s with
  | nil =>
    obtain rfl := List.length_eq_zero_iff.mp hlength
    rfl
  | cons b pattern ih =>
    obtain ⟨a, s, rfl⟩ := List.exists_of_length_succ s hlength
    rw [CelWasm.eqCi, h.readAt]
    simp only [bind, Except.bind, List.map_cons, List.cons.injEq]
    split_ifs with hne
    · rw [decide_eq_false fun heq => hne heq.1]
      rfl
    · rw [ih h.tail (Nat.succ.inj hlength)]
      simp only [not_not.mp hne, true_and]

/-- A word is recognized in any case of letters. -/
theorem Leaves.isSpecial {w : List UInt8} (h : Leaves p i s) (hlower : w.map foldCase = w) :
    isSpecial p i w = .ok (decide (s.map foldCase = w)) := by
  rw [CelWasm.isSpecial, h.length, Nat.add_sub_cancel_left]
  split_ifs with hlength
  · rw [h.eqCi hlength, hlower]
  · rw [decide_eq_false fun heq => hlength (by rw [← heq, List.length_map])]

theorem Leaves.tryParseDoubleSpecial (h : Leaves p i s) (neg : Bool) :
    ∃ r, tryParseDoubleSpecial p i neg = .ok r ∧ (r.isSome = true ↔ s ∈ word) := by
  have hwords : s ∈ word ↔ s.map foldCase = infinityWord ∨ s.map foldCase = infWord ∨
      s.map foldCase = nanWord := by
    change s.map foldCase ∈ [infinityWord, infWord, nanWord] ↔ _
    rw [List.mem_cons, List.mem_cons, List.mem_singleton]
  rw [CelWasm.tryParseDoubleSpecial, h.isSpecial (by decide), h.isSpecial (by decide),
    h.isSpecial (by decide), hwords]
  simp only [bind, Except.bind, decide_eq_true_eq]
  by_cases hinfinity : s.map foldCase = infinityWord
  · rw [if_pos hinfinity]
    exact ⟨_, rfl, iff_of_true rfl (.inl hinfinity)⟩
  rw [if_neg hinfinity]
  by_cases hinf : s.map foldCase = infWord
  · rw [if_pos hinf]
    exact ⟨_, rfl, iff_of_true rfl (.inr (.inl hinf))⟩
  rw [if_neg hinf]
  by_cases hnan : s.map foldCase = nanWord
  · rw [if_pos hnan]
    exact ⟨_, rfl, iff_of_true rfl (.inr (.inr hnan))⟩
  rw [if_neg hnan]
  exact ⟨_, rfl, iff_of_false Bool.false_ne_true
    (not_or.mpr ⟨hinfinity, not_or.mpr ⟨hinf, hnan⟩⟩)⟩

theorem Leaves.text_lt (h : Leaves p i s) : s.length < p.length + 1 := by
  rw [h.length]
  omega

theorem Leaves.scanDecimalDigits (h : Leaves p i s) (m : Float) :
    ∃ m' j, scanDecimalDigits p i m = .ok (m', !(s.takeWhile (IsDigit ·)).isEmpty, j) ∧
      Leaves p j (s.dropWhile (IsDigit ·)) := by
  obtain ⟨j, hrun, hrest⟩ := h.scanWhile h.text_lt m false
  exact ⟨_, j, hrun, hrest⟩

/-- A digit was seen in front of the point, or behind it. -/
theorem saw_iff (whole frac : List UInt8) :
    (!whole.isEmpty || !frac.isEmpty) = true ↔ whole ++ frac ≠ [] := by
  simp only [Bool.or_eq_true, Bool.not_eq_true', List.isEmpty_eq_false_iff, ne_eq,
    List.append_eq_nil_iff, not_and_or]

/-- **The mantissa is taken**, and what is left decides. -/
theorem Leaves.scanMantissa (h : Leaves p i s) : ∃ saw m frac j rest,
    scanMantissa p i = .ok (saw, m, frac, j) ∧ Leaves p j rest ∧
      (s ∈ mantissa * exponent ↔ saw = true ∧ rest ∈ exponent) := by
  obtain ⟨m, j, hrun, hrest⟩ := h.scanDecimalDigits 0.0
  rw [CelWasm.scanMantissa, hrun, mem_mantissa_mul_exponent_iff]
  simp only [bind, Except.bind]
  generalize s.takeWhile (IsDigit ·) = whole
  generalize s.dropWhile (IsDigit ·) = left at hrest
  rcases left with _ | ⟨b, left⟩
  · rw [if_neg (not_lt.mpr (hrest.eq_length_iff.mpr rfl).ge)]
    refine ⟨_, m, 0, j, [], rfl, hrest, ?_⟩
    simp
  rw [if_pos hrest.lt, hrest.readAt]
  dsimp only
  split_ifs with hpoint
  · obtain ⟨m', k, hrun', hrest'⟩ := hrest.tail.scanDecimalDigits m
    rw [hrun']
    refine ⟨_, m', _, k, _, rfl, hrest', ?_⟩
    have hnot : b :: left ∉ exponent := fun hmem => (head_of_mem_exponent hmem b rfl).2 hpoint
    rw [saw_iff]
    constructor
    · rintro (⟨t, ht, hne, he⟩ | ⟨-, he⟩)
      · obtain ⟨-, rfl⟩ := List.cons.inj ht
        exact ⟨hne, he⟩
      · exact absurd he hnot
    · exact fun ⟨hne, he⟩ => .inl ⟨left, congrArg (· :: left) hpoint, hne, he⟩
  · refine ⟨_, m, 0, j, b :: left, rfl, hrest, ?_⟩
    simp [hpoint]

/-- The run of digits at the front is all there is, exactly of a numeral. -/
theorem isNumeral_iff_takeWhile : IsNumeral s ↔
    s.takeWhile (IsDigit ·) ≠ [] ∧ s.dropWhile (IsDigit ·) = [] := by
  have hall : (∀ b ∈ s, IsDigit b) ↔ s.dropWhile (IsDigit ·) = [] := by
    rw [List.dropWhile_eq_nil_iff]
    simp
  rw [IsNumeral, hall]
  refine and_congr_left fun hdrop => not_congr ?_
  conv_lhs => rw [← @List.takeWhile_append_dropWhile _ (IsDigit ·) s, hdrop, List.append_nil]

/-- **The exponent is taken**, and all of the text with it. -/
theorem Leaves.scanExponent (h : Leaves p i s) :
    ∃ r, scanExponent p i = .ok r ∧ (s ∈ exponent ↔ ∃ v, r = some (v, p.length)) := by
  rw [CelWasm.scanExponent]
  rcases s with _ | ⟨e, s⟩
  · have hend := h.eq_length_iff.mpr rfl
    rw [if_pos hend.ge, hend]
    exact ⟨_, rfl, iff_of_true (.inl rfl) ⟨0, rfl⟩⟩
  rw [if_neg (not_le.mpr h.lt), h.readAt]
  simp only [bind, Except.bind]
  have hmem : e :: s ∈ exponent ↔ (e = 0x65 ∨ e = 0x45) ∧ IsNumeral (unsigned s) := by
    rw [← mem_exponentTail_iff]
    constructor
    · rintro (hnil | ⟨_, _, heq, he⟩)
      · exact nomatch hnil
      · obtain ⟨rfl, rfl⟩ := List.cons.inj heq
        exact he
    · exact fun hparts => .inr ⟨e, s, rfl, hparts⟩
  rw [hmem]
  split_ifs with hother hend
  · refine ⟨_, rfl, iff_of_false (fun hparts => hparts.1.elim hother.1 hother.2) ?_⟩
    rintro ⟨v, hv⟩
    exact h.lt.ne (Prod.mk.inj (Option.some.inj hv)).2
  · refine ⟨_, rfl, iff_of_false (fun hparts => hparts.2.1 ?_) nofun⟩
    rw [h.tail.eq_length_iff.mp hend]
    rfl
  rw [not_and_or, not_not, not_not] at hother
  obtain ⟨neg, j, hrun, hrest⟩ := h.tail.scanLeadingSign
  rw [hrun, and_iff_right hother, isNumeral_iff_takeWhile]
  dsimp only
  by_cases hsigned : j = p.length
  · rw [if_pos hsigned]
    refine ⟨_, rfl, iff_of_false (fun hparts => hparts.1 ?_) nofun⟩
    rw [hrest.eq_length_iff.mp hsigned]
    rfl
  rw [if_neg hsigned]
  obtain ⟨k, hdigits, hleft⟩ := @Leaves.scanWhile p _ j _ (IsDigit ·) exponentStep _ hrest
    hrest.text_lt 0 false
  rw [hdigits]
  simp only [Bool.false_or, Bool.not_not]
  by_cases hempty : ((unsigned s).takeWhile (IsDigit ·)).isEmpty = true
  · rw [if_pos hempty]
    exact ⟨_, rfl, iff_of_false (fun hparts => hparts.1 (List.isEmpty_iff.mp hempty)) nofun⟩
  · rw [if_neg hempty]
    refine ⟨_, rfl, ?_⟩
    rw [← hleft.eq_length_iff, and_iff_right (fun hnil => hempty (List.isEmpty_iff.mpr hnil))]
    constructor
    · rintro rfl
      exact ⟨_, rfl⟩
    · rintro ⟨v, hv⟩
      exact (Prod.mk.inj (Option.some.inj hv)).2

end Scans

/-- **`parse_double_str` accepts its grammar.** Of every text the scan ends, with no byte read past
the end, and the text is accepted exactly where it is a sign or none and a word or a number, with
nothing before or behind. -/
theorem parseDoubleStr_accepts_iff (p : List UInt8) :
    ∃ r, parseDoubleStr p = .ok r ∧ (r.isSome = true ↔ p ∈ text) := by
  rw [mem_text_iff, parseDoubleStr]
  by_cases hempty : p.length = 0
  · rw [if_pos hempty, List.length_eq_zero_iff.mp hempty]
    exact ⟨none, rfl, iff_of_false Bool.false_ne_true nil_notMem_body⟩
  rw [if_neg hempty]
  obtain ⟨neg, i, hsign, hi⟩ := (leaves_zero p).scanLeadingSign
  rw [hsign]
  simp only [bind, Except.bind]
  generalize unsigned p = s at hi ⊢
  by_cases hend : i = p.length
  · rw [if_pos hend, hi.eq_length_iff.mp hend]
    exact ⟨none, rfl, iff_of_false Bool.false_ne_true nil_notMem_body⟩
  rw [if_neg hend]
  obtain ⟨special, hspecial, hword⟩ := hi.tryParseDoubleSpecial neg
  have hbody : s ∈ body ↔ s ∈ word ∨ s ∈ mantissa * exponent := Language.mem_add _ _ _
  rw [hspecial, hbody, ← hword]
  rcases special with _ | out
  · obtain ⟨saw, m, frac, j, rest, hmantissa, hj, hnumber⟩ := hi.scanMantissa
    obtain ⟨read, hexponent, hread⟩ := hj.scanExponent
    rw [hnumber, hread, hmantissa]
    dsimp only
    rw [hexponent]
    rcases saw with _ | _
    · exact ⟨none, rfl, by simp⟩
    rcases read with _ | ⟨exp, k⟩
    · exact ⟨none, rfl, by simp⟩
    · by_cases hall : k = p.length
      · rw [hall]
        simp [pure, Except.pure]
      · simp [hall, pure, Except.pure]
  · exact ⟨some out, rfl, by simp⟩

end CelWasm
