import CelWasm.Library.AbslTime
import CelWasm.Library.DecimalDigits

/-!
# Library/DurationText — durations in words of numbers and units

A duration is written as a run of terms behind an optional minus: a decimal number, with a fraction or
without, and a unit. `FollowsGrammar` is what is asked of a parser of such texts: the sum of the terms,
wherever each of them is a whole number of ticks. `readDuration` is a parser that follows it.
-/

namespace CelWasm

/-! ## Numerals of a fixed width -/

/-- The last so many digits of a number. -/
def fixedNumeral : ℕ → ℕ → List UInt8
  | 0, _ => []
  | w + 1, n => fixedNumeral w (n / 10) ++ [digitByte (n % 10)]

@[simp] theorem length_fixedNumeral (w n : ℕ) : (fixedNumeral w n).length = w := by
  induction w generalizing n with
  | zero => rfl
  | succ w ih => rw [fixedNumeral, List.length_append, ih, List.length_singleton]

theorem isDigit_of_mem_fixedNumeral {w n : ℕ} {b : UInt8} (hb : b ∈ fixedNumeral w n) : IsDigit b := by
  induction w generalizing n with
  | zero => exact absurd hb List.not_mem_nil
  | succ w ih =>
    rcases List.mem_append.mp hb with hb | hb
    · exact ih hb
    · rw [List.mem_singleton.mp hb]
      exact isDigit_digitByte (Nat.mod_lt _ (by decide))

theorem denoted_concat (s : List UInt8) (b : UInt8) :
    denoted (s ++ [b]) = 10 * denoted s + digitValue b := by
  rw [denoted, List.reverse_append, List.map_append, List.reverse_singleton, List.map_singleton,
    Nat.ofDigits_append, Nat.ofDigits_singleton, List.length_singleton, pow_one, ← denoted, add_comm]

theorem denoted_fixedNumeral {w n : ℕ} (h : n < 10 ^ w) : denoted (fixedNumeral w n) = n := by
  induction w generalizing n with
  | zero =>
    obtain rfl : n = 0 := by omega
    rfl
  | succ w ih =>
    rw [fixedNumeral, denoted_concat, ih (by rw [pow_succ] at h; omega),
      digitValue_digitByte (Nat.mod_lt _ (by decide))]
    exact Nat.div_add_mod n 10

/-- One numeral is another with zeros after it. -/
theorem fixedNumeral_mul_pow (w k n : ℕ) :
    fixedNumeral (w + k) (n * 10 ^ k) = fixedNumeral w n ++ List.replicate k 0x30 := by
  induction k with
  | zero => rw [pow_zero, mul_one, List.replicate_zero, List.append_nil]; rfl
  | succ k ih =>
    have hdiv : n * 10 ^ (k + 1) / 10 = n * 10 ^ k := by
      rw [pow_succ, ← mul_assoc, Nat.mul_div_cancel _ (by decide)]
    have hmod : n * 10 ^ (k + 1) % 10 = 0 := by rw [pow_succ, ← mul_assoc, Nat.mul_mod_left]
    rw [← add_assoc, fixedNumeral, hdiv, hmod, ih, List.append_assoc, List.replicate_succ']
    rfl

/-- **Padding with zeros** gives the numeral of that width. -/
theorem replicate_append_numeral {w n : ℕ} (hw : 0 < w) (h : n < 10 ^ w) :
    List.replicate (w - (numeral n).length) 0x30 ++ numeral n = fixedNumeral w n := by
  induction w generalizing n with
  | zero => exact absurd hw (lt_irrefl 0)
  | succ w ih =>
    by_cases hn : n < 10
    · have hone : numeral n = [digitByte n] := by
        rw [numeral]
        split_ifs with hzero
        · rw [hzero]
          rfl
        · rw [Nat.digits_of_lt 10 n hzero hn]
          rfl
      have hzeros : fixedNumeral w 0 = List.replicate w 0x30 := by
        have := fixedNumeral_mul_pow 0 w 0
        rwa [zero_mul, zero_add] at this
      rw [fixedNumeral, hone, Nat.div_eq_of_lt hn, Nat.mod_eq_of_lt hn, hzeros]
      rfl
    · have hlast : numeral n = numeral (n / 10) ++ [digitByte (n % 10)] := by
        rw [numeral, if_neg (by omega), Nat.digits_def' (by decide) (by omega), List.map_cons,
          List.reverse_cons, numeral, if_neg (by omega)]
      have hw' : 0 < w := by
        by_contra hzero
        obtain rfl : w = 0 := by omega
        omega
      rw [fixedNumeral, hlast, List.length_append, List.length_singleton, Nat.add_sub_add_right,
        ← List.append_assoc, ih hw' (by rw [pow_succ] at h; omega)]

/-! ## The grammar -/

/-- A unit of time. -/
inductive DurationUnit
  | ns
  | us
  | ms
  | s
  | m
  | h
  deriving DecidableEq, Repr

/-- Its letters. -/
def DurationUnit.text : DurationUnit → List UInt8
  | ns => [0x6E, 0x73]
  | us => [0x75, 0x73]
  | ms => [0x6D, 0x73]
  | s => [0x73]
  | m => [0x6D]
  | h => [0x68]

/-- Its length in quarter nanoseconds. -/
def DurationUnit.ticks : DurationUnit → ℕ
  | ns => 4
  | us => 4000
  | ms => 4000000
  | s => 4000000000
  | m => 240000000000
  | h => 14400000000000

/-- **A number and its unit.** -/
structure DurationTerm where
  whole : List UInt8
  /-- The digits after the point. Without any there is no point. -/
  fraction : List UInt8
  unit : DurationUnit
  isNumeral_whole : IsNumeral whole
  isDigit_fraction : ∀ b ∈ fraction, IsDigit b

namespace DurationTerm

/-- The point and what follows it. -/
def point (fraction : List UInt8) : List UInt8 := if fraction = [] then [] else 0x2E :: fraction

def text (t : DurationTerm) : List UInt8 := t.whole ++ point t.fraction ++ t.unit.text

/-- The ticks of a term, times the power of ten of its fraction. -/
def scaledTicks (t : DurationTerm) : ℕ :=
  (denoted t.whole * 10 ^ t.fraction.length + denoted t.fraction) * t.unit.ticks

/-- **A term of so many ticks exactly**, whose numbers are those a machine reads. -/
structure Measures (t : DurationTerm) (n : ℕ) : Prop where
  exact : t.scaledTicks = n * 10 ^ t.fraction.length
  whole_lt : denoted t.whole < 2 ^ 63
  length_fraction_le : t.fraction.length ≤ 9

end DurationTerm

/-- A run of terms. -/
def termsText (terms : List DurationTerm) : List UInt8 := (terms.map DurationTerm.text).flatten

/-- The sign in front. -/
def minusSign (negative : Bool) : List UInt8 := if negative then [0x2D] else []

/-- A count with its sign. -/
def signed (negative : Bool) (n : ℕ) : ℤ := if negative then -n else n

/-- **A parser that follows the grammar** gives the sum of the terms. -/
def FollowsGrammar (parse : List UInt8 → Option AbslDuration) : Prop :=
  ∀ (negative : Bool) (terms : List DurationTerm) (ns : List ℕ), terms ≠ [] →
    List.Forall₂ DurationTerm.Measures terms ns →
    parse (minusSign negative ++ termsText terms) = some (.ofTicks (signed negative ns.sum))

/-! ## A parser -/

/-- The unit in front, the longer ones first. -/
def readUnit : List UInt8 → Option (DurationUnit × List UInt8)
  | 0x6E :: 0x73 :: rest => some (.ns, rest)
  | 0x75 :: 0x73 :: rest => some (.us, rest)
  | 0x6D :: 0x73 :: rest => some (.ms, rest)
  | 0x73 :: rest => some (.s, rest)
  | 0x6D :: rest => some (.m, rest)
  | 0x68 :: rest => some (.h, rest)
  | _ => none

/-- The digits in front, and the rest. -/
def readDigits (s : List UInt8) : List UInt8 × List UInt8 :=
  (s.takeWhile fun b => decide (IsDigit b), s.dropWhile fun b => decide (IsDigit b))

/-- The digits after a point, where there is one. -/
def readFraction : List UInt8 → List UInt8 × List UInt8
  | 0x2E :: rest => readDigits rest
  | rest => ([], rest)

/-- The term in front, rounded down to ticks. -/
def readTerm (s : List UInt8) : Option (ℕ × List UInt8) :=
  let (whole, rest) := readDigits s
  let (fraction, rest) := readFraction rest
  if whole = [] then none
  else (readUnit rest).map fun (unit, rest) =>
    ((denoted whole * 10 ^ fraction.length + denoted fraction) * unit.ticks / 10 ^ fraction.length, rest)

/-- The terms of a text, with fuel for each. -/
def readTerms : ℕ → List UInt8 → Option ℕ
  | 0, _ => none
  | fuel + 1, s =>
    (readTerm s).bind fun (n, rest) =>
      if rest = [] then some n else (readTerms fuel rest).map (n + ·)

/-- **Reads a duration.** -/
def readDuration (s : List UInt8) : Option AbslDuration :=
  match s with
  | 0x2D :: rest => (readTerms rest.length rest).map fun n => .ofTicks (signed true n)
  | s => (readTerms s.length s).map fun n => .ofTicks (signed false n)

/-! ## It follows the grammar -/

/-- What digits stop at. -/
def StopsDigits (s : List UInt8) : Prop := ∀ b ∈ s.head?, ¬ IsDigit b

theorem readDigits_append {digits rest : List UInt8} (h : ∀ b ∈ digits, IsDigit b)
    (hstop : StopsDigits rest) : readDigits (digits ++ rest) = (digits, rest) := by
  have hall : ∀ b ∈ digits, decide (IsDigit b) = true := fun b hb => decide_eq_true (h b hb)
  have hnone : rest.takeWhile (fun b => decide (IsDigit b)) = [] ∧
      rest.dropWhile (fun b => decide (IsDigit b)) = rest := by
    cases rest with
    | nil => exact ⟨rfl, rfl⟩
    | cons b rest =>
      have hb : ¬ decide (IsDigit b) = true := by
        rw [decide_eq_true_eq]
        exact hstop b rfl
      exact ⟨List.takeWhile_cons_of_neg hb, List.dropWhile_cons_of_neg hb⟩
  rw [readDigits, List.takeWhile_append_of_pos hall, List.dropWhile_append_of_pos hall, hnone.1,
    hnone.2, List.append_nil]

theorem stopsDigits_unit (u : DurationUnit) (rest : List UInt8) : StopsDigits (u.text ++ rest) := by
  cases u <;> exact fun b hb => Option.some.inj hb ▸ by decide

/-- A unit is read to its end: no digit is one of its letters. -/
theorem readUnit_append (u : DurationUnit) {rest : List UInt8} (h : ∀ b ∈ rest.head?, IsDigit b) :
    readUnit (u.text ++ rest) = some (u, rest) := by
  cases u with
  | m =>
    cases rest with
    | nil => rfl
    | cons b rest =>
      have hb : b ≠ 0x73 := by
        rintro rfl
        exact absurd (h _ rfl) (by decide)
      exact readUnit.eq_5 _ fun rest' heq => hb (List.cons.inj heq).1
  | _ => rfl

theorem readFraction_append {fraction : List UInt8} (h : ∀ b ∈ fraction, IsDigit b) (u : DurationUnit)
    (rest : List UInt8) :
    readFraction (DurationTerm.point fraction ++ (u.text ++ rest)) = (fraction, u.text ++ rest) := by
  rw [DurationTerm.point]
  split_ifs with hnil
  · subst hnil
    cases u <;> rfl
  · exact readDigits_append h (stopsDigits_unit u rest)

/-- What follows the whole part of a term is no digit. -/
theorem stopsDigits_point (fraction : List UInt8) (u : DurationUnit) (rest : List UInt8) :
    StopsDigits (DurationTerm.point fraction ++ (u.text ++ rest)) := by
  rw [DurationTerm.point]
  split_ifs
  · exact stopsDigits_unit u rest
  · exact fun b hb => Option.some.inj hb ▸ by decide

/-- **A term is read off the front**, whatever digits come next. -/
theorem readTerm_append {t : DurationTerm} {n : ℕ} (ht : t.Measures n) {rest : List UInt8}
    (h : ∀ b ∈ rest.head?, IsDigit b) : readTerm (t.text ++ rest) = some (n, rest) := by
  obtain ⟨hne, hwhole⟩ := t.isNumeral_whole
  rw [readTerm, DurationTerm.text, List.append_assoc, List.append_assoc,
    readDigits_append hwhole (stopsDigits_point _ _ _)]
  simp only [readFraction_append t.isDigit_fraction, if_neg hne, readUnit_append t.unit h,
    Option.map_some]
  have hexact := ht.exact
  rw [DurationTerm.scaledTicks] at hexact
  rw [hexact, Nat.mul_div_cancel _ (by positivity)]

/-- A run of terms begins with a digit. -/
theorem isDigit_head_termsText (terms : List DurationTerm) :
    ∀ b ∈ (termsText terms).head?, IsDigit b := by
  cases terms with
  | nil => exact fun b hb => nomatch hb
  | cons t terms =>
    obtain ⟨hne, hwhole⟩ := t.isNumeral_whole
    obtain ⟨c, whole, hcons⟩ := List.exists_cons_of_ne_nil hne
    intro b hb
    rw [termsText, List.map_cons, List.flatten_cons, DurationTerm.text, hcons] at hb
    obtain rfl : c = b := Option.some.inj hb
    exact hwhole _ (hcons ▸ List.mem_cons_self)

theorem termsText_ne_nil (t : DurationTerm) (terms : List DurationTerm) :
    termsText (t :: terms) ≠ [] := by
  obtain ⟨hne, -⟩ := t.isNumeral_whole
  rw [termsText, List.map_cons, List.flatten_cons, DurationTerm.text]
  simp [hne]

theorem readTerms_termsText {terms : List DurationTerm} {ns : List ℕ} (hne : terms ≠ [])
    (h : List.Forall₂ DurationTerm.Measures terms ns) {fuel : ℕ} (hfuel : terms.length ≤ fuel) :
    readTerms fuel (termsText terms) = some ns.sum := by
  induction h generalizing fuel with
  | nil => exact absurd rfl hne
  | @cons t n terms ns ht hterms ih =>
    obtain ⟨fuel, rfl⟩ := Nat.exists_eq_add_of_lt (Nat.lt_of_lt_of_le (Nat.succ_pos _) hfuel)
    rw [zero_add]
    have hcons : termsText (t :: terms) = t.text ++ termsText terms := rfl
    rw [readTerms, hcons, readTerm_append ht (isDigit_head_termsText terms), Option.bind_some]
    cases hterms with
    | nil => simp [termsText]
    | cons _ _ =>
      simp only [if_neg (termsText_ne_nil _ _)]
      rw [ih (List.cons_ne_nil _ _) (by rw [List.length_cons] at hfuel; omega), Option.map_some,
        List.sum_cons (a := n)]

theorem length_le_length_termsText (terms : List DurationTerm) :
    terms.length ≤ (termsText terms).length := by
  induction terms with
  | nil => exact le_rfl
  | cons t terms ih =>
    have hpos : 0 < t.whole.length := List.length_pos_of_ne_nil t.isNumeral_whole.1
    have hcons : termsText (t :: terms) = t.text ++ termsText terms := rfl
    rw [hcons, DurationTerm.text]
    simp only [List.length_append, List.length_cons]
    omega

/-- **The parser follows the grammar.** -/
theorem followsGrammar_readDuration : FollowsGrammar readDuration := by
  intro negative terms ns hne h
  have hread := readTerms_termsText hne h (length_le_length_termsText terms)
  cases negative with
  | true =>
    change (readTerms (termsText terms).length (termsText terms)).map _ = _
    rw [hread, Option.map_some]
  | false =>
    change readDuration (termsText terms) = _
    have hbare : readDuration (termsText terms) = (readTerms (termsText terms).length
        (termsText terms)).map fun n => .ofTicks (signed false n) := by
      have hdigit := isDigit_head_termsText terms
      revert hdigit
      cases termsText terms with
      | nil => exact fun _ => rfl
      | cons b rest =>
        intro hdigit
        refine readDuration.eq_2 _ fun rest' heq => ?_
        rw [(List.cons.inj heq).1] at hdigit
        exact absurd (hdigit _ rfl) (by decide)
    rw [hbare, hread, Option.map_some]

end CelWasm
