import CelWasm.Library.Escaping
import CelWasm.Runtime.Slicing

/-!
# Runtime/Quoting — quoted strings

`strings.quote` goes from code point to code point and escapes nine of them, all of one byte; the
bytes of every other pass through. On a well-formed string this escapes byte by byte, for no byte of a
longer sequence is one of the nine, and no such sequence is decoded to one of them.
-/

namespace CelWasm

open Utf8

/-! ## The escapes -/

/-- What is escaped, and the letter of it. -/
def quoteEscapes : List (UInt8 × UInt8) :=
  [(0x07, 0x61), (0x08, 0x62), (0x0C, 0x66), (0x0A, 0x6E), (0x0D, 0x72), (0x09, 0x74), (0x0B, 0x76),
    (0x5C, 0x5C), (0x22, 0x22)]

/-- **The escapes of `quote`**: the backslash, between double quotes. -/
def quoteEscaping : Escaping UInt8 where
  esc := 0x5C
  delim := 0x22
  letter b := (quoteEscapes.find? (·.1 = b)).map (·.2)
  unletter l := (quoteEscapes.find? (·.2 = l)).map (·.1)
  esc_ne_delim := by decide
  isSome_letter_esc := rfl
  isSome_letter_delim := rfl
  unletter_letter := by
    intro b l h
    have hall : quoteEscapes.all fun e =>
        (quoteEscapes.find? (·.2 = e.2)).map (·.1) = some e.1 := by decide
    obtain ⟨e, he, rfl⟩ := Option.map_eq_some_iff.mp h
    have heq := List.find?_some he
    obtain rfl : e.1 = b := of_decide_eq_true heq
    exact of_decide_eq_true (List.all_eq_true.mp hall e (List.mem_of_find?_eq_some he))

/-! ## Code points -/

/-- A byte that continues puts six more bits behind. -/
theorem toNat_continue (c : UInt8) {acc : UInt32} (h : acc.toNat < 2 ^ 26) :
    (acc <<< 6 ||| (c &&& 0x3F).toUInt32).toNat = acc.toNat * 64 + c.toNat % 64 := by
  have hshift : (acc <<< 6).toNat = acc.toNat <<< 6 := by
    rw [UInt32.toNat_shiftLeft]
    refine Nat.mod_eq_of_lt ?_
    change acc.toNat <<< 6 < 2 ^ 32
    rw [Nat.shiftLeft_eq]
    omega
  have hlow : (c &&& 0x3F).toUInt32.toNat = c.toNat % 64 := by
    rw [UInt8.toNat_toUInt32, UInt8.toNat_and]
    exact Nat.and_two_pow_sub_one_eq_mod c.toNat 6
  rw [UInt32.toNat_or, hshift, hlow,
    ← Nat.shiftLeft_add_eq_or_of_lt (Nat.mod_lt _ (by decide)), Nat.shiftLeft_eq]

/-- The bits a first byte gives. -/
theorem toNat_lead (a : UInt8) : (a &&& 0x1F).toUInt32.toNat = a.toNat % 32 ∧
    (a &&& 0x0F).toUInt32.toNat = a.toNat % 16 ∧ (a &&& 0x07).toUInt32.toNat = a.toNat % 8 := by
  simp only [UInt8.toNat_toUInt32, UInt8.toNat_and]
  exact ⟨Nat.and_two_pow_sub_one_eq_mod _ 5, Nat.and_two_pow_sub_one_eq_mod _ 4,
    Nat.and_two_pow_sub_one_eq_mod _ 3⟩

/-- **A longer sequence is decoded to no ASCII character.** -/
theorem le_utf8CodePoint {a : UInt8} {rest : List UInt8} (hq : Sequence (a :: rest))
    (ha : 128 ≤ a.toNat) (s : List UInt8) : 128 ≤ (utf8CodePoint a (rest ++ s)).toNat := by
  obtain ⟨_, _, hcons, -, -, hrest⟩ := hq.cases
  obtain ⟨rfl, rfl⟩ := List.cons.inj hcons
  obtain ⟨htwo, hthree, hfour⟩ := leadMask_iff a
  obtain ⟨hlead2, hlead3, hlead4⟩ := toNat_lead a
  have hone : ¬ a < 0x80 := by
    rw [UInt8.lt_iff_toNat_lt]
    exact Nat.not_lt.mpr ha
  have hcontinued := fun (expected : ℕ) (h : rest.length + 1 = expected) =>
    @utf8DecodeMulti_of_continued expected a rest s h hrest
  simp only [utf8CodePoint, if_neg hone, beq_iff_eq, htwo, hthree, hfour]
  cases hq with
  | one h => omega
  | @two _ b h hb =>
    have hunits := hcontinued 2 rfl
    rw [if_pos (by omega), utf8CodePointMulti, if_neg (by rw [← List.cons_append, hunits]; decide)]
    change 128 ≤ ((a &&& 0x1F).toUInt32 <<< 6 ||| (b &&& 0x3F).toUInt32).toNat
    rw [toNat_continue b (by omega)]
    omega
  | @three _ b c h hb hc hoverlong =>
    have hunits := hcontinued 3 rfl
    rw [if_neg (by omega), if_pos (by omega), utf8CodePointMulti,
      if_neg (by rw [← List.cons_append, hunits]; decide)]
    have hb' := @toNat_continue b (a &&& 0x0F).toUInt32 (by omega)
    change 128 ≤ (((a &&& 0x0F).toUInt32 <<< 6 ||| (b &&& 0x3F).toUInt32) <<< 6
      ||| (c &&& 0x3F).toUInt32).toNat
    rw [toNat_continue c (by omega), hb']
    rw [IsContinuation] at hb
    omega
  | @four _ b c d h hb hc hd hoverlong =>
    have hunits := hcontinued 4 rfl
    rw [if_neg (by omega), if_neg (by omega), if_pos (by omega), utf8CodePointMulti,
      if_neg (by rw [← List.cons_append, hunits]; decide)]
    have hb' := @toNat_continue b (a &&& 0x07).toUInt32 (by omega)
    have hc' := @toNat_continue c ((a &&& 0x07).toUInt32 <<< 6 ||| (b &&& 0x3F).toUInt32)
      (by omega)
    change 128 ≤ ((((a &&& 0x07).toUInt32 <<< 6 ||| (b &&& 0x3F).toUInt32) <<< 6
      ||| (c &&& 0x3F).toUInt32) <<< 6 ||| (d &&& 0x3F).toUInt32).toNat
    rw [toNat_continue d (by omega), hc', hb']
    rw [IsContinuation] at hb
    omega

/-! ## Byte by byte -/

/-- What is none of the nine passes through. -/
theorem appendQuoteCodepoint_of_ne {cp : UInt32}
    (h : ∀ c ∈ quoteEscapes.map Prod.fst, cp ≠ c.toUInt32) (src : List UInt8) :
    appendQuoteCodepoint cp src = src := by
  simp only [quoteEscapes, List.map_cons, List.forall_mem_cons] at h
  obtain ⟨h07, h08, h0C, h0A, h0D, h09, h0B, h5C, h22, -⟩ := h
  exact (if_neg h07).trans <| (if_neg h08).trans <| (if_neg h0C).trans <| (if_neg h0A).trans <|
    (if_neg h0D).trans <| (if_neg h09).trans <| (if_neg h0B).trans <| (if_neg h5C).trans (if_neg h22)

/-- An ASCII character is escaped as its byte is. -/
theorem appendQuoteCodepoint_ascii (a : UInt8) :
    appendQuoteCodepoint a.toUInt32 [a] = quoteEscaping.escape a := by
  by_cases ha : a ∈ quoteEscapes.map Prod.fst
  · have hall : (quoteEscapes.map Prod.fst).all fun a =>
        appendQuoteCodepoint a.toUInt32 [a] = quoteEscaping.escape a := by decide
    exact of_decide_eq_true (List.all_eq_true.mp hall a ha)
  · have hne : ∀ c ∈ quoteEscapes.map Prod.fst, a.toUInt32 ≠ c.toUInt32 := by
      intro c hc heq
      rw [UInt8.toUInt32_inj] at heq
      exact ha (heq ▸ hc)
    have hletter : quoteEscaping.letter a = none := by
      refine Option.map_eq_none_iff.mpr (List.find?_eq_none.mpr fun e he heq => ha ?_)
      exact of_decide_eq_true heq ▸ List.mem_map_of_mem (f := Prod.fst) he
    rw [appendQuoteCodepoint_of_ne hne, Escaping.escape, hletter]

/-- What is no ASCII character passes through. -/
theorem appendQuoteCodepoint_of_le {cp : UInt32} (h : 128 ≤ cp.toNat) (src : List UInt8) :
    appendQuoteCodepoint cp src = src := by
  refine appendQuoteCodepoint_of_ne (fun c hc heq => ?_) src
  have hall : (quoteEscapes.map Prod.fst).all fun c => c.toNat < 128 := by decide
  have hlt : c.toNat < 128 := of_decide_eq_true (List.all_eq_true.mp hall c hc)
  rw [heq, UInt8.toNat_toUInt32] at h
  omega

/-- No byte of a longer sequence is escaped. -/
theorem escape_of_le {b : UInt8} (h : 128 ≤ b.toNat) : quoteEscaping.escape b = [b] := by
  have hcp : 128 ≤ b.toUInt32.toNat := by rwa [UInt8.toNat_toUInt32]
  rw [← appendQuoteCodepoint_ascii, appendQuoteCodepoint_of_le hcp]

/-- **A code point is escaped as its bytes are.** -/
theorem appendQuoteCodepoint_sequence {a : UInt8} {rest : List UInt8} (hq : Sequence (a :: rest))
    (s : List UInt8) : appendQuoteCodepoint (utf8CodePoint a (rest ++ s)) (a :: rest)
      = (a :: rest).flatMap quoteEscaping.escape := by
  obtain ⟨b, heq, hb⟩ | hall := hq.ascii_or
  · obtain ⟨rfl, rfl⟩ := List.cons.inj heq
    have hcp : utf8CodePoint a ([] ++ s) = a.toUInt32 :=
      if_pos (UInt8.lt_iff_toNat_lt.mpr hb)
    rw [hcp, appendQuoteCodepoint_ascii, List.flatMap_singleton]
  · have hbytes : ∀ q : List UInt8, (∀ b ∈ q, 128 ≤ b.toNat) →
        q.flatMap quoteEscaping.escape = q := by
      intro q hq
      rw [List.flatMap_congr fun b hb => escape_of_le (hq b hb), List.flatMap_singleton']
    rw [hbytes _ hall]
    exact appendQuoteCodepoint_of_le (le_utf8CodePoint hq (hall a List.mem_cons_self) s) _

/-- **The loop of `quote`** escapes a well-formed string byte by byte. -/
theorem quoteFrom_eq {s : List UInt8} (hs : WellFormed s) {fuel : ℕ} (hfuel : s.length ≤ fuel) :
    quoteFrom fuel s = s.flatMap quoteEscaping.escape := by
  induction fuel, s using quoteFrom.induct with
  | case1 fuel => cases fuel <;> rfl
  | case2 s hne => exact absurd (List.length_eq_zero_iff.mp (by omega)) hne
  | case3 fuel b bs units ih =>
    obtain hnil | ⟨q, rest, hq, hrest, heq⟩ := wellFormed_iff.mp hs
    · exact absurd hnil (List.cons_ne_nil b bs)
    obtain ⟨a, tail, rfl, -⟩ := hq.cases
    obtain ⟨rfl, rfl⟩ : b = a ∧ bs = tail ++ rest := List.cons.inj heq
    have hunits : units = (b :: tail).length := utf8Decode_sequence hq rest
    have htake : (b :: (tail ++ rest)).take (b :: tail).length = b :: tail := List.take_left
    have hdrop : (b :: (tail ++ rest)).drop (b :: tail).length = rest := List.drop_left
    have hshort : rest.length ≤ fuel := by
      rw [List.length_cons, List.length_append] at hfuel
      omega
    rw [hunits, hdrop] at ih
    change appendQuoteCodepoint _ ((b :: (tail ++ rest)).take units)
      ++ quoteFrom fuel ((b :: (tail ++ rest)).drop units) = _
    rw [hunits, htake, hdrop, ih hrest hshort, appendQuoteCodepoint_sequence hq,
      ← List.flatMap_append]
    rfl

/-! ## The kernel -/

/-- **The quoted form** of a string. -/
def quotedForm (s : List UInt8) : List UInt8 := quoteEscaping.quoted s

/-- `quote` asks for as many bytes as it writes. -/
theorem celStringQuote_eq {s : List UInt8} (hs : WellFormed s) :
    celStringQuote (.string s) = do
      if ← Prog.alloc (quotedForm s).length then return .string (quotedForm s)
      else return .error .overflow := by
  change writeStringFromBytes (0x22 :: quoteFrom s.length s ++ [0x22]) = _
  rw [quoteFrom_eq hs le_rfl]
  exact if_neg (List.cons_ne_nil _ _)

/-- **`quote` is injective and well delimited.** Of every well-formed string it writes a form, into a
block as long as the form: between double quotes, of which the first and the last are the bare ones,
from which unescaping gives the string back, and which no other string has. -/
theorem celStringQuote_delimited {s : List UInt8} (hs : WellFormed s) : ∃ quoted : List UInt8,
    celStringQuote (.string s) = (do
      if ← Prog.alloc quoted.length then return .string quoted else return .error .overflow) ∧
    (∃ inner, quoted = 0x22 :: inner ++ [0x22]) ∧
    (∀ front back, quoted = front ++ 0x22 :: back →
      (¬ quoteEscaping.Escaped front ↔ front = [] ∨ back = [])) ∧
    quoteEscaping.unquote quoted = some (s, []) ∧
    ∀ t, WellFormed t → t ≠ s → (celStringQuote (.string t)).granted ≠ .ok (.string quoted) := by
  refine ⟨quotedForm s, celStringQuote_eq hs, ⟨_, rfl⟩, fun front back h => Escaping.quoted_bare h,
    ?_, fun t ht hne h => ?_⟩
  · have hread := @Escaping.unquote_quoted _ quoteEscaping _ s []
    rwa [List.append_nil] at hread
  · rw [celStringQuote_eq ht] at h
    exact hne (Escaping.quoted_injective (CelValue.string.inj (Except.ok.inj h)))

/-- Of a quote, a backslash and a character of two bytes. -/
theorem celStringQuote_delimited_mixed : ∃ quoted : List UInt8,
    (celStringQuote (.string [0x22, 0x5C, 0xC3, 0xA9])).granted = .ok (.string quoted) ∧
      quoted.length = 8 ∧
      quoteEscaping.unquote quoted = some ([0x22, 0x5C, 0xC3, 0xA9], []) := by
  have hs : WellFormed [0x22, 0x5C, 0xC3, 0xA9] := ⟨['"', '\\', 'é'], by decide⟩
  obtain ⟨quoted, hquote, -, -, hread, -⟩ := celStringQuote_delimited hs
  have hgranted := congrArg Prog.granted hquote
  refine ⟨quoted, hgranted, ?_, hread⟩
  have hbytes : (celStringQuote (.string [0x22, 0x5C, 0xC3, 0xA9])).granted
      = .ok (.string [0x22, 0x5C, 0x22, 0x5C, 0x5C, 0xC3, 0xA9, 0x22]) := rfl
  rw [hbytes] at hgranted
  rw [← CelValue.string.inj (Except.ok.inj hgranted)]
  rfl

end CelWasm
