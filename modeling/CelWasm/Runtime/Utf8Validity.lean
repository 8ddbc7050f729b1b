import CelWasm.Library.Utf8
import CelWasm.Runtime.StringKernels

/-!
# Runtime/Utf8Validity — bytes as strings, and back

`utf8_valid` of `cel_convert.c`, a helper for each length of a sequence. A turn of its loop is given the
string from its index on and answers with what is left: it succeeds exactly when a sequence is in
front, which it then takes; a span ends within memory, so that an index and three do not wrap. A
string is bytes unchanged, and bytes that fail the validator are OVERFLOW.
-/

namespace CelWasm

open Utf8

/-- `utf8_two_byte_valid`. -/
def utf8TwoByteValid : List UInt8 → Option (List UInt8)
  | _ :: b1 :: rest => if b1 &&& 0xC0 ≠ 0x80 then none else some rest
  | _ => none

/-- `utf8_three_byte_valid`. -/
def utf8ThreeByteValid : List UInt8 → Option (List UInt8)
  | b :: b1 :: b2 :: rest =>
    if b1 &&& 0xC0 ≠ 0x80 then none
    else if b2 &&& 0xC0 ≠ 0x80 then none
    else if b = 0xE0 ∧ b1 < 0xA0 then none
    else if b = 0xED ∧ 0xA0 ≤ b1 then none
    else some rest
  | _ => none

/-- `utf8_four_byte_valid`. -/
def utf8FourByteValid : List UInt8 → Option (List UInt8)
  | b :: b1 :: b2 :: b3 :: rest =>
    if b1 &&& 0xC0 ≠ 0x80 then none
    else if b2 &&& 0xC0 ≠ 0x80 then none
    else if b3 &&& 0xC0 ≠ 0x80 then none
    else if b = 0xF0 ∧ b1 < 0x90 then none
    else if b = 0xF4 ∧ 0x90 ≤ b1 then none
    else some rest
  | _ => none

/-- A turn of the loop of `utf8_valid`, at a byte. -/
def utf8Turn (b : UInt8) (bs : List UInt8) : Option (List UInt8) :=
  if b < 0x80 then some bs
  else if b < 0xC2 then none
  else if b < 0xE0 then utf8TwoByteValid (b :: bs)
  else if b < 0xF0 then utf8ThreeByteValid (b :: bs)
  else if b < 0xF5 then utf8FourByteValid (b :: bs)
  else none

/-- The loop of `utf8_valid`, which takes a byte at least each turn. -/
def utf8ValidFrom : ℕ → List UInt8 → Bool
  | _, [] => true
  | 0, _ :: _ => false
  | fuel + 1, b :: bs => (utf8Turn b bs).any (utf8ValidFrom fuel)

/-- **`utf8_valid`**. -/
def utf8Valid (s : List UInt8) : Bool := utf8ValidFrom s.length s

/-- `cel_string_to_bytes_at_v`. -/
def celStringToBytes (a : CelValue) : Kernel CelValue :=
  unlessAbsorbedUnary a <|
    match a with
    | .string s => return .bytes s
    | _ => return .error .typeMismatch

/-- `cel_bytes_to_string_at_v`. -/
def celBytesToString (a : CelValue) : Kernel CelValue :=
  unlessAbsorbedUnary a <|
    match a with
    | .bytes b => if utf8Valid b then return .string b else return .error .overflow
    | _ => return .error .typeMismatch

/-! ## A turn -/

/-- The mask of a continuation byte. -/
theorem and_eq_continuation_iff {b : UInt8} : b &&& 0xC0 = 0x80 ↔ IsContinuation b := by
  have hmask : ∀ n : Fin 256, n.val &&& 192 = 128 ↔ 128 ≤ n.val ∧ n.val < 192 := by
    set_option maxRecDepth 1000 in decide
  rw [← UInt8.toNat_inj, UInt8.toNat_and, IsContinuation]
  exact hmask ⟨b.toNat, b.toNat_lt⟩

theorem utf8TwoByteValid_eq_some_iff {s rest : List UInt8} :
    utf8TwoByteValid s = some rest ↔ ∃ a b, s = a :: b :: rest ∧ IsContinuation b := by
  constructor
  · intro h
    match s with
    | a :: b :: more =>
      rw [utf8TwoByteValid] at h
      split_ifs at h with hb
      rw [not_not, and_eq_continuation_iff] at hb
      exact ⟨a, b, by rw [Option.some.inj h], hb⟩
  · rintro ⟨a, b, rfl, hb⟩
    rw [utf8TwoByteValid, if_neg (not_not.mpr (and_eq_continuation_iff.mpr hb))]

theorem utf8ThreeByteValid_eq_some_iff {s rest : List UInt8} :
    utf8ThreeByteValid s = some rest ↔
      ∃ a b c, s = a :: b :: c :: rest ∧ IsContinuation b ∧ IsContinuation c
        ∧ (a.toNat = 224 → 160 ≤ b.toNat) ∧ (a.toNat = 237 → b.toNat < 160) := by
  constructor
  · intro h
    match s with
    | a :: b :: c :: more =>
      rw [utf8ThreeByteValid] at h
      split_ifs at h with hb hc hoverlong hsurrogate
      rw [not_not, and_eq_continuation_iff] at hb hc
      rw [not_and, UInt8.not_lt] at hoverlong
      rw [not_and, UInt8.not_le] at hsurrogate
      exact ⟨a, b, c, by rw [Option.some.inj h], hb, hc,
        fun ha => hoverlong (UInt8.toNat_inj.mp ha), fun ha => hsurrogate (UInt8.toNat_inj.mp ha)⟩
  · rintro ⟨a, b, c, rfl, hb, hc, hoverlong, hsurrogate⟩
    rw [utf8ThreeByteValid, if_neg (not_not.mpr (and_eq_continuation_iff.mpr hb)),
      if_neg (not_not.mpr (and_eq_continuation_iff.mpr hc)), if_neg, if_neg]
    · rintro ⟨rfl, h⟩
      exact absurd (hsurrogate rfl) (Nat.not_lt.mpr h)
    · rintro ⟨rfl, h⟩
      exact absurd (hoverlong rfl) (Nat.not_le.mpr h)

theorem utf8FourByteValid_eq_some_iff {s rest : List UInt8} :
    utf8FourByteValid s = some rest ↔
      ∃ a b c d, s = a :: b :: c :: d :: rest ∧ IsContinuation b ∧ IsContinuation c
        ∧ IsContinuation d ∧ (a.toNat = 240 → 144 ≤ b.toNat) ∧ (a.toNat = 244 → b.toNat < 144) := by
  constructor
  · intro h
    match s with
    | a :: b :: c :: d :: more =>
      rw [utf8FourByteValid] at h
      split_ifs at h with hb hc hd hoverlong hlast
      rw [not_not, and_eq_continuation_iff] at hb hc hd
      rw [not_and, UInt8.not_lt] at hoverlong
      rw [not_and, UInt8.not_le] at hlast
      exact ⟨a, b, c, d, by rw [Option.some.inj h], hb, hc, hd,
        fun ha => hoverlong (UInt8.toNat_inj.mp ha), fun ha => hlast (UInt8.toNat_inj.mp ha)⟩
  · rintro ⟨a, b, c, d, rfl, hb, hc, hd, hoverlong, hlast⟩
    rw [utf8FourByteValid, if_neg (not_not.mpr (and_eq_continuation_iff.mpr hb)),
      if_neg (not_not.mpr (and_eq_continuation_iff.mpr hc)),
      if_neg (not_not.mpr (and_eq_continuation_iff.mpr hd)), if_neg, if_neg]
    · rintro ⟨rfl, h⟩
      exact absurd (hlast rfl) (Nat.not_lt.mpr h)
    · rintro ⟨rfl, h⟩
      exact absurd (hoverlong rfl) (Nat.not_le.mpr h)

/-- A turn, by the number of its byte. -/
theorem utf8Turn_eq (a : UInt8) (bs : List UInt8) :
    utf8Turn a bs = if a.toNat < 128 then some bs else if a.toNat < 194 then none
      else if a.toNat < 224 then utf8TwoByteValid (a :: bs)
      else if a.toNat < 240 then utf8ThreeByteValid (a :: bs)
      else if a.toNat < 245 then utf8FourByteValid (a :: bs) else none := rfl

/-- **A turn takes the sequence in front**, and fails where there is none. -/
theorem utf8Turn_eq_some_iff {a : UInt8} {bs rest : List UInt8} :
    utf8Turn a bs = some rest ↔ ∃ q, Sequence q ∧ a :: bs = q ++ rest := by
  rw [utf8Turn_eq]
  constructor
  · intro h
    split_ifs at h with hone hnone htwo hthree hfour
    · exact ⟨[a], .one hone, by rw [Option.some.inj h]; rfl⟩
    · obtain ⟨a, b, heq, hb⟩ := utf8TwoByteValid_eq_some_iff.mp h
      obtain ⟨rfl, -⟩ := List.cons.inj heq
      exact ⟨[_, b], .two ⟨by omega, htwo⟩ hb, heq⟩
    · obtain ⟨a, b, c, heq, hb, hc, hbounds⟩ := utf8ThreeByteValid_eq_some_iff.mp h
      obtain ⟨rfl, -⟩ := List.cons.inj heq
      exact ⟨[_, b, c], .three ⟨by omega, hthree⟩ hb hc hbounds.1 hbounds.2, heq⟩
    · obtain ⟨a, b, c, d, heq, hb, hc, hd, hbounds⟩ := utf8FourByteValid_eq_some_iff.mp h
      obtain ⟨rfl, -⟩ := List.cons.inj heq
      exact ⟨[_, b, c, d], .four ⟨by omega, hfour⟩ hb hc hd hbounds.1 hbounds.2, heq⟩
  · rintro ⟨q, hq, heq⟩
    cases hq with
    | one ha =>
      obtain ⟨rfl, rfl⟩ := List.cons.inj heq
      rw [if_pos ha]
    | two ha hb =>
      obtain ⟨rfl, -⟩ := List.cons.inj heq
      rw [if_neg (by omega), if_neg (by omega), if_pos ha.2]
      exact utf8TwoByteValid_eq_some_iff.mpr ⟨_, _, heq, hb⟩
    | three ha hb hc hoverlong hsurrogate =>
      obtain ⟨rfl, -⟩ := List.cons.inj heq
      rw [if_neg (by omega), if_neg (by omega), if_neg (by omega), if_pos ha.2]
      exact utf8ThreeByteValid_eq_some_iff.mpr ⟨_, _, _, heq, hb, hc, hoverlong, hsurrogate⟩
    | four ha hb hc hd hoverlong hlast =>
      obtain ⟨rfl, -⟩ := List.cons.inj heq
      rw [if_neg (by omega), if_neg (by omega), if_neg (by omega), if_neg (by omega), if_pos ha.2]
      exact utf8FourByteValid_eq_some_iff.mpr ⟨_, _, _, _, heq, hb, hc, hd, hoverlong, hlast⟩

/-! ## The loop -/

/-- With a turn for every byte, the loop accepts exactly the well-formed strings. -/
theorem utf8ValidFrom_iff : ∀ {fuel : ℕ} {s : List UInt8}, s.length ≤ fuel →
    (utf8ValidFrom fuel s = true ↔ WellFormed s)
  | _, [], _ => by
    rw [utf8ValidFrom]
    exact iff_of_true rfl wellFormed_nil
  | 0, _ :: _, h => absurd h (by simp)
  | fuel + 1, b :: bs, h => by
    have hshorter : ∀ {q rest}, Sequence q → b :: bs = q ++ rest → rest.length ≤ fuel := by
      intro q rest hq heq
      have hlen := congrArg List.length heq
      have := List.length_pos_of_ne_nil hq.ne_nil
      rw [List.length_cons] at h hlen
      rw [List.length_append] at hlen
      omega
    rw [utf8ValidFrom, Option.any_eq_true]
    constructor
    · rintro ⟨rest, hturn, hrest⟩
      obtain ⟨q, hq, heq⟩ := utf8Turn_eq_some_iff.mp hturn
      rw [heq, wellFormed_sequence_append hq]
      exact (utf8ValidFrom_iff (hshorter hq heq)).mp hrest
    · intro hwf
      obtain hnil | ⟨q, rest, hq, hrest, heq⟩ := wellFormed_iff.mp hwf
      · exact absurd hnil (List.cons_ne_nil b bs)
      · exact ⟨rest, utf8Turn_eq_some_iff.mpr ⟨q, hq, heq⟩,
          (utf8ValidFrom_iff (hshorter hq heq)).mpr hrest⟩

/-- **The validator is exact.** -/
theorem utf8Valid_iff {s : List UInt8} : utf8Valid s = true ↔ WellFormed s :=
  utf8ValidFrom_iff le_rfl

instance (s : List UInt8) : Decidable (WellFormed s) := decidable_of_iff _ utf8Valid_iff

/-! ## Conversions -/

/-- Bytes, as the validator has them: a string, or OVERFLOW. -/
theorem celBytesToString_bytes (b : List UInt8) :
    celBytesToString (.bytes b)
      = (return if WellFormed b then .string b else .error .overflow) := by
  change (if utf8Valid b then (return .string b : Kernel CelValue) else return .error .overflow) = _
  simp only [utf8Valid_iff]
  split_ifs <;> rfl

/-- **UTF-8 validation is exact**: the validator accepts the concatenations of sequences, a string
whose bytes are taken comes back, and ill-formed bytes are an error. -/
theorem utf8Validation_exact :
    (∀ s, utf8Valid s = true ↔ ∃ pieces : List (List UInt8), (∀ q ∈ pieces, Sequence q)
      ∧ s = pieces.flatten) ∧
    (∀ s, WellFormed s ↔ ∃ pieces : List (List UInt8), (∀ q ∈ pieces, Sequence q)
      ∧ s = pieces.flatten) ∧
    (∀ s, WellFormed s →
      (celStringToBytes (.string s) >>= celBytesToString) = (return .string s)) ∧
    ∀ b, ¬ WellFormed b → celBytesToString (.bytes b) = (return .error .overflow) := by
  refine ⟨fun s => utf8Valid_iff.trans wellFormed_iff_flatten, fun s => wellFormed_iff_flatten,
    fun s hs => ?_, fun b hb => ?_⟩
  · change celBytesToString (.bytes s) = return .string s
    rw [celBytesToString_bytes, if_pos hs]
  · rw [celBytesToString_bytes, if_neg hb]

/-- Of `"é"`, and of an overlong NUL. -/
theorem utf8Validation_exact_overlong :
    (celStringToBytes (.string [0xC3, 0xA9]) >>= celBytesToString)
        = (return .string [0xC3, 0xA9]) ∧
      celBytesToString (.bytes [0xC0, 0x80]) = (return .error .overflow) :=
  ⟨utf8Validation_exact.2.2.1 _ (by decide), utf8Validation_exact.2.2.2 _ (by decide)⟩

end CelWasm
