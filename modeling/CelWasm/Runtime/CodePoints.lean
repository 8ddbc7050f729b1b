import CelWasm.Runtime.Utf8Validity

/-!
# Runtime/CodePoints — the walks of the string extension on well-formed strings

Of a well-formed string a walk takes the sequences one by one, so that an index is a place in the text
and a position the length of what the text in front of it is encoded as.
-/

namespace CelWasm

open Utf8

/-! ## A step -/

/-- The masks of the first bytes, by number. -/
theorem leadMask_iff (b : UInt8) : (b &&& 0xE0 = 0xC0 ↔ 192 ≤ b.toNat ∧ b.toNat < 224) ∧
    (b &&& 0xF0 = 0xE0 ↔ 224 ≤ b.toNat ∧ b.toNat < 240) ∧
    (b &&& 0xF8 = 0xF0 ↔ 240 ≤ b.toNat ∧ b.toNat < 248) := by
  have hmask : ∀ n : Fin 256, (n.val &&& 224 = 192 ↔ 192 ≤ n.val ∧ n.val < 224) ∧
      (n.val &&& 240 = 224 ↔ 224 ≤ n.val ∧ n.val < 240) ∧
      (n.val &&& 248 = 240 ↔ 240 ≤ n.val ∧ n.val < 248) := by
    set_option maxRecDepth 1000 in decide
  simp only [← UInt8.toNat_inj, UInt8.toNat_and]
  exact hmask ⟨b.toNat, b.toNat_lt⟩

/-- A first byte and what continues it. -/
theorem utf8DecodeMulti_of_continued {expected : ℕ} {a : UInt8} {rest : List UInt8} (s : List UInt8)
    (h : rest.length + 1 = expected) (hrest : ∀ b ∈ rest, IsContinuation b) :
    utf8DecodeMulti expected (a :: rest ++ s) = expected := by
  have htake : (a :: rest ++ s).take expected = a :: rest :=
    List.take_left' (by rw [List.length_cons, h])
  have hall : ((a :: rest).drop 1).all (fun b => b &&& 0xC0 == 0x80) = true :=
    List.all_eq_true.mpr fun b hb => beq_iff_eq.mpr (and_eq_continuation_iff.mpr (hrest b hb))
  rw [utf8DecodeMulti, htake, hall, if_neg, if_pos rfl]
  rw [List.length_append, List.length_cons]
  omega

/-- A step, by the number of its first byte. -/
theorem utf8Decode_cons (a : UInt8) (bs : List UInt8) : utf8Decode (a :: bs) =
    if a.toNat < 192 then 1 else if a.toNat < 224 then utf8DecodeMulti 2 (a :: bs)
      else if a.toNat < 240 then utf8DecodeMulti 3 (a :: bs)
      else if a.toNat < 248 then utf8DecodeMulti 4 (a :: bs) else 1 := by
  obtain ⟨htwo, hthree, hfour⟩ := leadMask_iff a
  have hone : a < 0x80 ↔ a.toNat < 128 := UInt8.lt_iff_toNat_lt
  simp only [utf8Decode, beq_iff_eq, htwo, hthree, hfour, hone]
  split_ifs <;> first | rfl | omega

/-- **A step takes the sequence in front.** -/
theorem utf8Decode_sequence {q : List UInt8} (hq : Sequence q) (s : List UInt8) :
    utf8Decode (q ++ s) = q.length := by
  obtain ⟨a, rest, hcons, -, -, hrest⟩ := hq.cases
  rw [hcons, List.cons_append, utf8Decode_cons]
  cases hq with
  | one ha =>
    obtain ⟨rfl, rfl⟩ := List.cons.inj hcons
    exact if_pos (by omega)
  | two ha hb =>
    obtain ⟨rfl, rfl⟩ := List.cons.inj hcons
    rw [if_neg (by omega), if_pos (by omega)]
    exact utf8DecodeMulti_of_continued s rfl hrest
  | three ha hb hc =>
    obtain ⟨rfl, rfl⟩ := List.cons.inj hcons
    rw [if_neg (by omega), if_neg (by omega), if_pos (by omega)]
    exact utf8DecodeMulti_of_continued s rfl hrest
  | four ha hb hc hd =>
    obtain ⟨rfl, rfl⟩ := List.cons.inj hcons
    rw [if_neg (by omega), if_neg (by omega), if_neg (by omega), if_pos (by omega)]
    exact utf8DecodeMulti_of_continued s rfl hrest

/-- …so the code point in front of a text. -/
theorem utf8Decode_encode_cons (c : Char) (text : List Char) :
    utf8Decode (encode (c :: text)) = (encode [c]).length := by
  rw [encode_cons, utf8Decode_sequence (sequence_utf8EncodeChar c), encode_cons, encode_nil,
    List.append_nil]

/-- What is left behind it is the rest of the text. -/
theorem drop_utf8Decode_encode_cons (c : Char) (text : List Char) :
    (encode (c :: text)).drop (utf8Decode (encode (c :: text))) = encode text := by
  rw [encode_cons, utf8Decode_sequence (sequence_utf8EncodeChar c), List.drop_left]

end CelWasm
