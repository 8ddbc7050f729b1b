import CelWasm.Runtime.SubstringSearch
import CelWasm.Runtime.TextWalks

/-!
# Runtime/Slicing — substring, charAt, reverse and size

Four kernels count code points, each with a loop of its own: `size` the bytes that continue nothing,
`charAt` the steps down to its index, `substring` the steps up to either bound, and `reverse` from the
back. On a well-formed string all of them count the characters of one text.
-/

namespace CelWasm

open Utf8

/-! ## Size -/

/-- `utf8_codepoint_count`. -/
def utf8CodepointCount (s : List UInt8) : ℕ :=
  s.foldl (fun n b => if b &&& 0xC0 != 0x80 then n + 1 else n) 0

/-- `cel_string_size_at_v`. -/
def celStringSize (v : CelValue) : Kernel CelValue :=
  unlessAbsorbedUnary v <|
    match v with
    | .string s => return writeInt (utf8CodepointCount s)
    | _ => return .error .typeMismatch

/-- The bytes that continue nothing. -/
theorem utf8CodepointCount_eq (s : List UInt8) :
    utf8CodepointCount s = s.countP fun b => b &&& 0xC0 != 0x80 := by
  have hcount : ∀ (s : List UInt8) (n : ℕ),
      s.foldl (fun n b => if b &&& 0xC0 != 0x80 then n + 1 else n) n
        = n + s.countP fun b => b &&& 0xC0 != 0x80 := by
    intro s
    induction s with
    | nil => exact fun n => rfl
    | cons b s ih =>
      intro n
      rw [List.foldl_cons, ih, List.countP_cons]
      split_ifs <;> omega
  rw [utf8CodepointCount, hcount, Nat.zero_add]

/-- Of a sequence it is the first byte. -/
theorem countP_sequence {q : List UInt8} (hq : Sequence q) :
    q.countP (fun b => b &&& 0xC0 != 0x80) = 1 := by
  obtain ⟨a, rest, rfl, -, ha, hrest⟩ := hq.cases
  have hfirst : (a &&& 0xC0 != 0x80) = true :=
    bne_iff_ne.mpr fun h => ha (and_eq_continuation_iff.mp h)
  have hmore : rest.countP (fun b => b &&& 0xC0 != 0x80) = 0 := by
    refine List.countP_eq_zero.mpr fun b hb => ?_
    rw [and_eq_continuation_iff.mpr (hrest b hb)]
    decide
  rw [List.countP_cons, hmore, if_pos hfirst]

/-- **The size of a string is the length of its text.** -/
theorem utf8CodepointCount_encode (text : List Char) :
    utf8CodepointCount (encode text) = text.length := by
  rw [utf8CodepointCount_eq]
  induction text with
  | nil => rfl
  | cons c text ih =>
    rw [encode_cons, List.countP_append, countP_sequence (sequence_utf8EncodeChar c), ih,
      List.length_cons, Nat.add_comm]

/-- No text is longer than its encoding. -/
theorem length_le_encode (text : List Char) : text.length ≤ (encode text).length := by
  rw [← utf8CodepointCount_encode, utf8CodepointCount_eq]
  exact List.countP_le_length

/-! ## The walks -/

section Walks

variable {text : List Char}

/-- A step from one index of a text to the next. -/
theorem encode_cons_eq (c : Char) (text : List Char) :
    ∃ b bs, encode (c :: text) = b :: bs ∧ (b :: bs).drop (utf8Decode (b :: bs)) = encode text ∧
      utf8Decode (b :: bs) = (encode [c]).length := by
  obtain ⟨b, bs, heq⟩ := List.exists_cons_of_ne_nil (encode_cons_ne_nil c text)
  refine ⟨b, bs, heq, ?_, ?_⟩
  · rw [← heq, drop_utf8Decode_encode_cons]
  · rw [← heq, utf8Decode_encode_cons]

/-- **The walk to an index** comes to the index's position, or off the end. -/
theorem byteOffsetWalk_encode {fuel n offset : ℕ} (hfuel : (encode text).length ≤ fuel) :
    byteOffsetWalk fuel (encode text) n offset
      = if n ≤ text.length then some (offset + position text n) else none := by
  induction text generalizing fuel n offset with
  | nil =>
    cases fuel <;> cases n <;> rfl
  | cons c text ih =>
    obtain ⟨b, bs, heq, hdrop, hunits⟩ := encode_cons_eq c text
    have hpos := encode_singleton_pos c
    have hlen : (encode (c :: text)).length = (encode [c]).length + (encode text).length := by
      rw [← List.singleton_append, encode_append, List.length_append]
    obtain ⟨fuel, rfl⟩ : ∃ f, fuel = f + 1 := ⟨fuel - 1, by omega⟩
    rw [heq]
    cases n with
    | zero => rfl
    | succ n =>
      rw [byteOffsetWalk, hdrop, hunits, ih (by omega), position_cons, Nat.add_assoc]
      exact if_congr Nat.succ_le_succ_iff.symm rfl rfl

/-- **`CodepointToByteOffset` of a text.** -/
theorem codepointToByteOffset_encode (n : Int64) : codepointToByteOffset (encode text) n
    = if 0 ≤ n.toInt ∧ n.toInt ≤ text.length then some (position text n.toInt.toNat) else none := by
  have hneg : n < 0 ↔ n.toInt < 0 := Int64.lt_iff_toInt_lt
  rw [codepointToByteOffset, if_congr hneg rfl rfl, byteOffsetWalk_encode le_rfl, Nat.zero_add]
  split_ifs <;> first | rfl | omega

/-- **`charAt` finds the character at its index.** -/
theorem charAtWalk_encode {fuel n : ℕ} (hfuel : (encode text).length ≤ fuel) (hn : n < text.length) :
    charAtWalk fuel (encode text) n = some (encode [text[n]]) := by
  induction text generalizing fuel n with
  | nil => exact absurd hn (Nat.not_lt_zero n)
  | cons c text ih =>
    obtain ⟨b, bs, heq, hdrop, hunits⟩ := encode_cons_eq c text
    have hpos := encode_singleton_pos c
    have hsplit : encode (c :: text) = encode [c] ++ encode text := encode_append [c] text
    have hlen := congrArg List.length hsplit
    rw [List.length_append] at hlen
    obtain ⟨fuel, rfl⟩ : ∃ f, fuel = f + 1 := ⟨fuel - 1, by omega⟩
    cases n with
    | zero =>
      have htake : (b :: bs).take (utf8Decode (b :: bs)) = encode [c] := by
        rw [hunits, ← heq, hsplit, List.take_left]
      rw [heq, charAtWalk, htake]
      rfl
    | succ n =>
      rw [heq, charAtWalk, hdrop]
      exact ih (by omega) (Nat.lt_of_succ_lt_succ hn)

/-- What lies between two positions is what lies between the indices. -/
theorem take_drop_position {i j : ℕ} (hij : i ≤ j) :
    ((encode text).drop (position text i)).take (position text j - position text i)
      = encode ((text.drop i).take (j - i)) := by
  have hsplit : encode (text.drop i)
      = encode ((text.drop i).take (j - i)) ++ encode ((text.drop i).drop (j - i)) := by
    rw [← encode_append, List.take_append_drop]
  have hlen : position text j - position text i = (encode ((text.drop i).take (j - i))).length := by
    have htake : text.take j = text.take i ++ (text.drop i).take (j - i) := by
      rw [← List.take_add, Nat.add_sub_cancel' hij]
    rw [position, position, htake, encode_append, List.length_append, Nat.add_sub_cancel_left]
  rw [drop_position, hlen, hsplit, List.take_left]

end Walks

/-! ## The kernels -/

section Kernels

variable {text : List Char}

theorem toInt_length {n : ℕ} (h : n < 2 ^ 63) : (Int64.ofInt n).toInt = n :=
  Int64.toInt_ofInt_of_le (by omega) (by omega)

theorem celStringSize_encode (text : List Char) :
    celStringSize (.string (encode text)) = return .int (Int64.ofInt text.length) := by
  rw [← utf8CodepointCount_encode]
  rfl

/-- **`substring` up to the end.** -/
theorem celStringSubstring_encode {start : Int64} (h : 0 ≤ start.toInt ∧ start.toInt ≤ text.length) :
    celStringSubstring (.string (encode text)) (.int start)
      = return .string (encode (text.drop start.toInt.toNat)) := by
  have hoffset := (@codepointToByteOffset_encode text start).trans (if_pos h)
  have hvalid : validatePos start (encode text) = false := by
    have hneg : ¬ start < 0 := Int64.not_lt.mpr (Int64.le_iff_toInt_le.mpr h.1)
    rw [validatePos, hoffset, decide_eq_false hneg]
    rfl
  change (if validatePos start (encode text) then _ else _) = _
  rw [hvalid, if_neg Bool.false_ne_true, hoffset, ← drop_position]

/-- `substring` on a string and two bounds. -/
theorem celStringSubstringRange_string (s : List UInt8) (start stop : Int64) :
    celStringSubstringRange (.string s) (.int start) (.int stop)
      = if start < 0 || stop < start then return .error .invalidArgument
        else if s.length < start.toInt.toNat || s.length < stop.toInt.toNat then
          return .error .invalidArgument
        else match codepointToByteOffset s start, codepointToByteOffset s stop with
          | some startByte, some stopByte =>
            return .string ((s.drop startByte).take (stopByte - startByte))
          | _, _ => return .error .invalidArgument :=
  rfl

/-- **`substring` between two bounds**, or the error where they are none. -/
theorem celStringSubstringRange_encode (start stop : Int64) :
    celStringSubstringRange (.string (encode text)) (.int start) (.int stop)
      = if 0 ≤ start.toInt ∧ start.toInt ≤ stop.toInt ∧ stop.toInt ≤ text.length then
          return .string
            (encode ((text.drop start.toInt.toNat).take (stop.toInt.toNat - start.toInt.toNat)))
        else return .error .invalidArgument := by
  have hle := length_le_encode text
  have hneg : start < 0 ↔ start.toInt < 0 := Int64.lt_iff_toInt_lt
  have hlt : stop < start ↔ stop.toInt < start.toInt := Int64.lt_iff_toInt_lt
  rw [celStringSubstringRange_string]
  simp only [Bool.or_eq_true, decide_eq_true_eq, hneg, hlt]
  by_cases h : 0 ≤ start.toInt ∧ start.toInt ≤ stop.toInt ∧ stop.toInt ≤ text.length
  · rw [if_neg (by omega), if_neg (by omega), codepointToByteOffset_encode,
      codepointToByteOffset_encode, if_pos (by omega), if_pos (by omega), if_pos h]
    dsimp only
    rw [take_drop_position (by omega)]
  · rw [if_neg h]
    split_ifs with hsign hbytes
    · rfl
    · rfl
    · -- the bounds are in order and within the bytes, but the second is past the text
      rw [@codepointToByteOffset_encode text stop, if_neg (by omega)]
      cases codepointToByteOffset (encode text) start <;> rfl

/-- **`charAt` of an index.** -/
theorem yieldsString_celStringCharAt {i : Int64} (h : 0 ≤ i.toInt) (hi : i.toInt.toNat < text.length) :
    YieldsString (celStringCharAt (.string (encode text)) (.int i)) (encode [text[i.toInt.toNat]]) := by
  have hneg : ¬ i < 0 := Int64.not_lt.mpr (Int64.le_iff_toInt_le.mpr h)
  change YieldsString (if i < 0 then _ else _) _
  rw [if_neg hneg, charAtWalk_encode le_rfl hi]
  exact yieldsString_writeStringFromBytes _

theorem yieldsString_celStringReverse (text : List Char) :
    YieldsString (celStringReverse (.string (encode text))) (encode text.reverse) := by
  cases text with
  | nil => exact yieldsString_pure []
  | cons c text =>
    have hreverse := @reverseFrom_encode (c :: text) [] _ le_rfl
    rw [List.append_nil] at hreverse
    obtain ⟨b, bs, heq, -⟩ := encode_cons_eq c text
    rw [heq] at hreverse ⊢
    exact yieldsString_alloc hreverse

theorem yieldsString_celStringConcat {s t : List UInt8} (h : s.length + t.length < 2 ^ 32) :
    YieldsString (celStringConcat (.string s) (.string t)) (s ++ t) := by
  change YieldsString (concatIntoOut .string s t) (s ++ t)
  rw [concatIntoOut, if_neg (by omega)]
  split_ifs with hpos
  · exact yieldsString_alloc rfl
  · obtain rfl : s = [] := List.length_eq_zero_iff.mp (by omega)
    obtain rfl : t = [] := List.length_eq_zero_iff.mp (by omega)
    exact yieldsString_pure []

end Kernels

/-! ## The laws -/

/-- **Code point slicing.** Of a well-formed string the two slices at an index are the string again,
and the first is as long as the index; `charAt` is the slice of one; bounds out of order or out of the
string are an error; and reversing twice is the string, reversing once of the same size. The length of
a span is of 32 bits. -/
theorem slicing_laws {s : List UInt8} (hs : WellFormed s) (hlen : s.length < 2 ^ 32) :
    ∃ size : Int64, celStringSize (.string s) = pure (.int size) ∧
      (∀ i : Int64, 0 ≤ i → i ≤ size →
        YieldsString (celStringSubstringRange (.string s) (.int 0) (.int i) >>= fun front =>
          celStringSubstring (.string s) (.int i) >>= fun back => celStringConcat front back) s ∧
        (celStringSubstringRange (.string s) (.int 0) (.int i) >>= celStringSize) = pure (.int i)) ∧
      (∀ i : Int64, 0 ≤ i → i < size → ∃ piece,
        celStringSubstringRange (.string s) (.int i) (.int (i + 1)) = pure (.string piece) ∧
        YieldsString (celStringCharAt (.string s) (.int i)) piece) ∧
      (∀ start stop : Int64, ¬ (0 ≤ start ∧ start ≤ stop ∧ stop ≤ size) →
        celStringSubstringRange (.string s) (.int start) (.int stop)
          = pure (.error .invalidArgument)) ∧
      YieldsString (celStringReverse (.string s) >>= celStringReverse) s ∧
      (celStringReverse (.string s) >>= celStringSize).granted = .ok (.int size) := by
  obtain ⟨text, rfl⟩ := hs
  have hle := length_le_encode text
  have hsize : (Int64.ofInt text.length).toInt = text.length := toInt_length (by omega)
  have hzero : (0 : Int64).toInt = 0 := rfl
  refine ⟨Int64.ofInt text.length, celStringSize_encode text, ?_⟩
  simp only [Int64.le_iff_toInt_le, Int64.lt_iff_toInt_lt, hsize, hzero]
  refine ⟨fun i h0 hi => ?_, fun i h0 hi => ?_, fun start stop h => ?_, ?_, ?_⟩
  · have hfront : celStringSubstringRange (.string (encode text)) (.int 0) (.int i)
        = return .string (encode (text.take i.toInt.toNat)) := by
      rw [celStringSubstringRange_encode, if_pos ⟨le_rfl, h0, hi⟩]
      rfl
    have hback := celStringSubstring_encode ⟨h0, hi⟩
    have hall : encode (text.take i.toInt.toNat) ++ encode (text.drop i.toInt.toNat) = encode text := by
      rw [← encode_append, List.take_append_drop]
    have hbytes := congrArg List.length hall
    rw [List.length_append] at hbytes
    constructor
    · rw [hfront, pure_bind, hback, pure_bind]
      conv_rhs => rw [← hall]
      exact yieldsString_celStringConcat (by omega)
    · have hcount : Int64.ofInt ((text.take i.toInt.toNat).length : ℕ) = i := by
        rw [List.length_take, Nat.min_eq_left (by omega), Int.toNat_of_nonneg h0, Int64.ofInt_toInt]
      rw [hfront, pure_bind, celStringSize_encode, hcount]
  · have hone : (i + 1).toInt = i.toInt + 1 := by
      have hexact : i + 1 = Int64.ofInt (i.toInt + 1) := by
        rw [Int64.ofInt_add, Int64.ofInt_toInt]
        rfl
      rw [hexact, Int64.toInt_ofInt_of_le (by omega) (by omega)]
    have hindex : i.toInt.toNat < text.length := by omega
    refine ⟨encode [text[i.toInt.toNat]], ?_, yieldsString_celStringCharAt h0 hindex⟩
    have hpiece : (text.drop i.toInt.toNat).take ((i + 1).toInt.toNat - i.toInt.toNat)
        = [text[i.toInt.toNat]] := by
      have hcount : (i + 1).toInt.toNat - i.toInt.toNat = 1 := by omega
      rw [hcount, List.drop_eq_getElem_cons hindex]
      rfl
    rw [celStringSubstringRange_encode, if_pos (by omega), hpiece]
  · rw [celStringSubstringRange_encode, if_neg h]
  · have htwice := yieldsString_celStringReverse text.reverse
    rw [List.reverse_reverse] at htwice
    exact (yieldsString_celStringReverse text).bind htwice rfl
  · rw [Prog.granted_bind, (yieldsString_celStringReverse text).1]
    change (celStringSize (.string (encode text.reverse))).granted = _
    rw [celStringSize_encode, List.length_reverse]
    rfl

/-- Of `"éa"`. -/
theorem slicing_laws_accent : ∃ size : Int64,
    celStringSize (.string [0xC3, 0xA9, 0x61]) = pure (.int size) ∧
      YieldsString (celStringReverse (.string [0xC3, 0xA9, 0x61]) >>= celStringReverse)
        [0xC3, 0xA9, 0x61] := by
  obtain ⟨size, hsize, -, -, -, hreverse, -⟩ :=
    slicing_laws (s := [0xC3, 0xA9, 0x61]) ⟨['é', 'a'], by decide⟩ (by decide)
  exact ⟨size, hsize, hreverse⟩

end CelWasm
