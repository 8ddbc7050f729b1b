import Mathlib.Data.List.Basic
import Mathlib.Data.Nat.Notation
import Mathlib.Tactic.SplitIfs

/-!
# Library/Utf8 — well-formed strings as encoded texts

A string of bytes is well-formed if it encodes a text, code point by code point. Byte by byte that is
a syntax: the first byte of a sequence says how long it is, the others continue it, and the second one
is held back from what would be overlong, a surrogate, or past the last code point.

    00–7F
    C2–DF  80–BF
    E0–EF  80–BF  80–BF           from A0 after E0, to 9F after ED
    F0–F4  80–BF  80–BF  80–BF    from 90 after F0, to 8F after F4

Sequences are told apart by their first byte, so a text is read off its encoding from the front, and
what begins like a sequence begins one wherever it is.
-/

namespace CelWasm

namespace Utf8

/-- **The encoding of a text.** -/
def encode (text : List Char) : List UInt8 := text.flatMap String.utf8EncodeChar

/-- **Well-formed UTF-8.** -/
def WellFormed (s : List UInt8) : Prop := ∃ text, s = encode text

@[simp] theorem encode_nil : encode [] = [] := rfl

theorem encode_cons (c : Char) (text : List Char) :
    encode (c :: text) = String.utf8EncodeChar c ++ encode text := rfl

theorem encode_append (text text' : List Char) :
    encode (text ++ text') = encode text ++ encode text' := List.flatMap_append

theorem wellFormed_nil : WellFormed [] := ⟨[], rfl⟩

theorem wellFormed_encode (text : List Char) : WellFormed (encode text) := ⟨text, rfl⟩

theorem WellFormed.append {s t : List UInt8} (hs : WellFormed s) (ht : WellFormed t) :
    WellFormed (s ++ t) := by
  obtain ⟨text, rfl⟩ := hs
  obtain ⟨text', rfl⟩ := ht
  exact ⟨text ++ text', (encode_append text text').symm⟩

theorem WellFormed.flatten {pieces : List (List UInt8)} (h : ∀ p ∈ pieces, WellFormed p) :
    WellFormed pieces.flatten := by
  induction pieces with
  | nil => exact wellFormed_nil
  | cons p rest ih =>
    rw [List.flatten_cons]
    exact (h p List.mem_cons_self).append (ih fun q hq => h q (List.mem_cons_of_mem p hq))

/-! ## The syntax -/

/-- A continuation byte. -/
def IsContinuation (b : UInt8) : Prop := 128 ≤ b.toNat ∧ b.toNat < 192

/-- **A sequence**, by the ranges of its bytes. -/
inductive Sequence : List UInt8 → Prop
  | one {a : UInt8} (h : a.toNat < 128) : Sequence [a]
  | two {a b : UInt8} (ha : 194 ≤ a.toNat ∧ a.toNat < 224) (hb : IsContinuation b) : Sequence [a, b]
  | three {a b c : UInt8} (ha : 224 ≤ a.toNat ∧ a.toNat < 240) (hb : IsContinuation b)
      (hc : IsContinuation c) (hoverlong : a.toNat = 224 → 160 ≤ b.toNat)
      (hsurrogate : a.toNat = 237 → b.toNat < 160) : Sequence [a, b, c]
  | four {a b c d : UInt8} (ha : 240 ≤ a.toNat ∧ a.toNat < 245) (hb : IsContinuation b)
      (hc : IsContinuation c) (hd : IsContinuation d) (hoverlong : a.toNat = 240 → 144 ≤ b.toNat)
      (hlast : a.toNat = 244 → b.toNat < 144) : Sequence [a, b, c, d]

/-- The encoding of a code point, by its number. -/
theorem utf8EncodeChar_ofNat {n : ℕ} (h : n.isValidChar) :
    String.utf8EncodeChar (Char.ofNat n)
      = if n ≤ 127 then [UInt8.ofNat n]
        else if n ≤ 2047 then [UInt8.ofNat (n / 64 % 32 + 192), UInt8.ofNat (n % 64 + 128)]
        else if n ≤ 65535 then
          [UInt8.ofNat (n / 4096 % 16 + 224), UInt8.ofNat (n / 64 % 64 + 128),
            UInt8.ofNat (n % 64 + 128)]
        else
          [UInt8.ofNat (n / 262144 % 8 + 240), UInt8.ofNat (n / 4096 % 64 + 128),
            UInt8.ofNat (n / 64 % 64 + 128), UInt8.ofNat (n % 64 + 128)] := by
  have hn : (Char.ofNat n).val.toNat = n := by
    rw [Char.ofNat, dif_pos h]
    rfl
  rw [String.utf8EncodeChar, hn]

theorem eq_ofNat_of_toNat {b : UInt8} {n : ℕ} (h : b.toNat = n) : UInt8.ofNat n = b := by
  rw [← h, UInt8.ofNat_toNat]

/-- **Every sequence is of a code point.** -/
theorem Sequence.exists_char {s : List UInt8} (h : Sequence s) :
    ∃ c, s = String.utf8EncodeChar c := by
  cases h with
  | @one a h =>
    refine ⟨Char.ofNat a.toNat, ?_⟩
    rw [utf8EncodeChar_ofNat (.inl (by omega)), if_pos (by omega), UInt8.ofNat_toNat]
  | @two a b ha hb =>
    obtain ⟨n, hn⟩ : ∃ n, n = (a.toNat - 192) * 64 + (b.toNat - 128) := ⟨_, rfl⟩
    rw [IsContinuation] at hb
    refine ⟨Char.ofNat n, ?_⟩
    rw [utf8EncodeChar_ofNat (.inl (by omega)), if_neg (by omega), if_pos (by omega),
      eq_ofNat_of_toNat (b := a) (by omega), eq_ofNat_of_toNat (b := b) (by omega)]
  | @three a b c ha hb hc hoverlong hsurrogate =>
    obtain ⟨n, hn⟩ : ∃ n, n = (a.toNat - 224) * 4096 + (b.toNat - 128) * 64 + (c.toNat - 128) :=
      ⟨_, rfl⟩
    rw [IsContinuation] at hb hc
    have hvalid : n.isValidChar := by
      rw [Nat.isValidChar]
      by_cases h : a.toNat = 237 <;> omega
    refine ⟨Char.ofNat n, ?_⟩
    rw [utf8EncodeChar_ofNat hvalid, if_neg (by omega), if_neg (by omega), if_pos (by omega),
      eq_ofNat_of_toNat (b := a) (by omega), eq_ofNat_of_toNat (b := b) (by omega),
      eq_ofNat_of_toNat (b := c) (by omega)]
  | @four a b c d ha hb hc hd hoverlong hlast =>
    obtain ⟨n, hn⟩ : ∃ n, n = (a.toNat - 240) * 262144 + (b.toNat - 128) * 4096
      + (c.toNat - 128) * 64 + (d.toNat - 128) := ⟨_, rfl⟩
    rw [IsContinuation] at hb hc hd
    refine ⟨Char.ofNat n, ?_⟩
    rw [utf8EncodeChar_ofNat (.inr ⟨by omega, by omega⟩), if_neg (by omega), if_neg (by omega),
      if_neg (by omega), eq_ofNat_of_toNat (b := a) (by omega),
      eq_ofNat_of_toNat (b := b) (by omega), eq_ofNat_of_toNat (b := c) (by omega),
      eq_ofNat_of_toNat (b := d) (by omega)]

/-- **Every code point is encoded as a sequence.** -/
theorem sequence_utf8EncodeChar (c : Char) : Sequence (String.utf8EncodeChar c) := by
  have hvalid : c.val.toNat < 0xd800 ∨ 0xdfff < c.val.toNat ∧ c.val.toNat < 0x110000 := c.valid
  rw [String.utf8EncodeChar]
  generalize c.val.toNat = n at hvalid ⊢
  split_ifs with hone htwo hthree
  · exact .one (by rw [UInt8.toNat_ofNat']; omega)
  · exact .two (by rw [UInt8.toNat_ofNat']; omega) (by rw [IsContinuation, UInt8.toNat_ofNat']; omega)
  · refine .three ?_ ?_ ?_ ?_ ?_ <;> simp only [IsContinuation, UInt8.toNat_ofNat'] <;> omega
  · refine .four ?_ ?_ ?_ ?_ ?_ ?_ <;> simp only [IsContinuation, UInt8.toNat_ofNat'] <;> omega

/-! ## Reading from the front -/

/-- How long the sequence is that begins with a byte. -/
def width (a : UInt8) : ℕ :=
  if a.toNat < 128 then 1 else if a.toNat < 224 then 2 else if a.toNat < 240 then 3 else 4

/-- **The first byte tells the length of a sequence**, begins nothing else, and is continued by the
others. -/
theorem Sequence.cases {s : List UInt8} (h : Sequence s) : ∃ a rest, s = a :: rest ∧
    s.length = width a ∧ ¬ IsContinuation a ∧ ∀ b ∈ rest, IsContinuation b := by
  cases h with
  | @one a h =>
    exact ⟨a, [], rfl, (if_pos h).symm, fun hc => by rw [IsContinuation] at hc; omega, nofun⟩
  | @two a b ha hb =>
    refine ⟨a, [b], rfl, ?_, fun hc => by rw [IsContinuation] at hc; omega, by simpa using hb⟩
    rw [width, if_neg (by omega), if_pos (by omega)]
    rfl
  | @three a b c ha hb hc =>
    refine ⟨a, [b, c], rfl, ?_, fun hc => by rw [IsContinuation] at hc; omega,
      by simpa using ⟨hb, hc⟩⟩
    rw [width, if_neg (by omega), if_neg (by omega), if_pos (by omega)]
    rfl
  | @four a b c d ha hb hc hd =>
    refine ⟨a, [b, c, d], rfl, ?_, fun hc => by rw [IsContinuation] at hc; omega,
      by simpa using ⟨hb, hc, hd⟩⟩
    rw [width, if_neg (by omega), if_neg (by omega), if_neg (by omega)]
    rfl

theorem Sequence.ne_nil {s : List UInt8} (h : Sequence s) : s ≠ [] := by
  obtain ⟨a, rest, rfl, -⟩ := h.cases
  exact List.cons_ne_nil a rest

/-- **Two sequences in front of a string are the same.** -/
theorem Sequence.unique {p q x y : List UInt8} (hp : Sequence p) (hq : Sequence q)
    (h : p ++ x = q ++ y) : p = q ∧ x = y := by
  obtain ⟨a, rest, rfl, hlen, -⟩ := hp.cases
  obtain ⟨b, rest', rfl, hlen', -⟩ := hq.cases
  have hhead : a = b := (List.cons.inj h).1
  exact List.append_inj h (by rw [hlen, hlen', hhead])

/-- A well-formed string is empty, or a sequence and a well-formed string. -/
theorem wellFormed_iff {s : List UInt8} :
    WellFormed s ↔ s = [] ∨ ∃ q rest, Sequence q ∧ WellFormed rest ∧ s = q ++ rest := by
  constructor
  · rintro ⟨text, rfl⟩
    cases text with
    | nil => exact .inl rfl
    | cons c text =>
      exact .inr ⟨_, _, sequence_utf8EncodeChar c, wellFormed_encode text, encode_cons c text⟩
  · rintro (rfl | ⟨q, rest, hq, ⟨text, rfl⟩, rfl⟩)
    · exact wellFormed_nil
    · obtain ⟨c, rfl⟩ := hq.exists_char
      exact ⟨c :: text, (encode_cons c text).symm⟩

/-- **Behind a sequence a string is well-formed exactly when the whole is.** -/
theorem wellFormed_sequence_append {q s : List UInt8} (hq : Sequence q) :
    WellFormed (q ++ s) ↔ WellFormed s := by
  refine ⟨fun h => ?_, fun h => wellFormed_iff.mpr (.inr ⟨q, s, hq, h, rfl⟩)⟩
  obtain hnil | ⟨q', rest, hq', hrest, heq⟩ := wellFormed_iff.mp h
  · exact absurd (List.append_eq_nil_iff.mp hnil).1 hq.ne_nil
  · rw [(hq.unique hq' heq).2]
    exact hrest

/-- Well-formed strings are the concatenations of sequences. -/
theorem wellFormed_iff_flatten {s : List UInt8} : WellFormed s ↔
    ∃ pieces : List (List UInt8), (∀ q ∈ pieces, Sequence q) ∧ s = pieces.flatten := by
  constructor
  · rintro ⟨text, rfl⟩
    refine ⟨text.map String.utf8EncodeChar, fun q hq => ?_, List.flatMap_def⟩
    obtain ⟨c, -, rfl⟩ := List.mem_map.mp hq
    exact sequence_utf8EncodeChar c
  · rintro ⟨pieces, hpieces, rfl⟩
    refine .flatten fun q hq => ?_
    obtain ⟨c, rfl⟩ := (hpieces q hq).exists_char
    exact ⟨[c], (List.append_nil _).symm⟩

/-- Code points are told apart by their sequences. -/
theorem utf8EncodeChar_injective : Function.Injective String.utf8EncodeChar := by
  intro c c' h
  have hc := ByteArray.utf8DecodeChar?_utf8EncodeChar_append (b := ByteArray.empty) (c := c)
  rw [h, ByteArray.utf8DecodeChar?_utf8EncodeChar_append] at hc
  exact (Option.some.inj hc).symm

/-- **A text in front of another** is in front of it as it is encoded. -/
theorem encode_isPrefix_iff {sub text : List Char} : encode sub <+: encode text ↔ sub <+: text := by
  constructor
  · induction sub generalizing text with
    | nil => exact fun _ => List.nil_prefix
    | cons c sub ih =>
      rintro ⟨rest, h⟩
      rw [encode_cons, List.append_assoc] at h
      cases text with
      | nil => exact absurd (List.append_eq_nil_iff.mp h).1 (sequence_utf8EncodeChar c).ne_nil
      | cons c' text =>
        rw [encode_cons] at h
        obtain ⟨hc, hrest⟩ := (sequence_utf8EncodeChar c).unique (sequence_utf8EncodeChar c') h
        rw [utf8EncodeChar_injective hc]
        exact (List.prefix_cons_inj c').mpr (ih ⟨rest, hrest⟩)
  · rintro ⟨rest, rfl⟩
    exact ⟨encode rest, (encode_append sub rest).symm⟩

/-- Induction from the front, a sequence at a time. -/
theorem WellFormed.induction {P : List UInt8 → Prop} {s : List UInt8} (hs : WellFormed s)
    (nil : P [])
    (append : ∀ q rest, Sequence q → WellFormed rest → P rest → P (q ++ rest)) : P s := by
  obtain ⟨text, rfl⟩ := hs
  induction text with
  | nil => exact nil
  | cons c text ih =>
    exact append _ _ (sequence_utf8EncodeChar c) (wellFormed_encode text) ih

/-- **Behind a well-formed string** as well. -/
theorem wellFormed_append_iff {s t : List UInt8} (hs : WellFormed s) :
    WellFormed (s ++ t) ↔ WellFormed t :=
  hs.induction (P := fun s => WellFormed (s ++ t) ↔ WellFormed t) Iff.rfl fun q rest hq _ ih => by
    rw [List.append_assoc, wellFormed_sequence_append hq, ih]

/-! ## Cutting -/

/-- Where a string may be cut: behind it, or before a byte that continues nothing. -/
def BeginsSequence (s : List UInt8) : Prop := ∀ a ∈ s.head?, ¬ IsContinuation a

theorem WellFormed.beginsSequence {s : List UInt8} (hs : WellFormed s) : BeginsSequence s := by
  obtain rfl | ⟨q, rest, hq, -, rfl⟩ := wellFormed_iff.mp hs
  · exact nofun
  · obtain ⟨a, tail, rfl, -, ha, -⟩ := hq.cases
    intro b hb
    obtain rfl : a = b := by simpa using hb
    exact ha

/-- **A well-formed string is cut into well-formed strings** before a byte that continues nothing. -/
theorem WellFormed.cut {s p t : List UInt8} (hs : WellFormed s) (h : s = p ++ t)
    (ht : BeginsSequence t) : WellFormed p ∧ WellFormed t := by
  revert p
  refine hs.induction (P := fun s => ∀ {p}, s = p ++ t → WellFormed p ∧ WellFormed t) ?_
    fun q rest hq hrest ih p h => ?_
  · intro p h
    obtain ⟨rfl, rfl⟩ := List.append_eq_nil_iff.mp h.symm
    exact ⟨wellFormed_nil, wellFormed_nil⟩
  · obtain ⟨a, tail, rfl, -, -, htail⟩ := hq.cases
    cases p with
    | nil =>
      rw [List.nil_append] at h
      exact ⟨wellFormed_nil, h ▸ (wellFormed_sequence_append hq).mpr hrest⟩
    | cons b p =>
      rw [List.cons_append, List.cons_append, List.cons.injEq] at h
      obtain ⟨rfl, h⟩ := h
      obtain ⟨more, rfl, hmore⟩ | ⟨more, rfl, hmore⟩ := List.append_eq_append_iff.mp h
      · -- the cut is behind the sequence
        obtain ⟨hp, hwf⟩ := ih hmore
        exact ⟨(wellFormed_sequence_append hq).mpr hp, hwf⟩
      · cases more with
        | nil =>
          rw [List.append_nil] at hq
          rw [List.nil_append] at hmore
          refine ⟨?_, hmore ▸ hrest⟩
          rw [← List.append_nil (a :: p), wellFormed_sequence_append hq]
          exact wellFormed_nil
        | cons c more =>
          -- the cut is within the sequence, before a byte that continues it
          refine absurd (htail c (List.mem_append_right _ List.mem_cons_self)) (ht c ?_)
          rw [hmore]
          rfl

/-- **A place where a string is cut into well-formed strings.** -/
structure IsCut (s : List UInt8) (i : ℕ) : Prop where
  take : WellFormed (s.take i)
  drop : WellFormed (s.drop i)

theorem WellFormed.isCut_zero {s : List UInt8} (hs : WellFormed s) : IsCut s 0 :=
  ⟨wellFormed_nil, hs⟩

/-- A place behind another one. -/
theorem IsCut.add {s : List UInt8} {i j : ℕ} (hi : IsCut s i) (hj : IsCut (s.drop i) j) :
    IsCut s (i + j) := by
  refine ⟨?_, by rw [← List.drop_drop]; exact hj.drop⟩
  rw [List.take_add]
  exact hi.take.append hj.take

/-- **Between two places a string is well-formed.** -/
theorem IsCut.between {s : List UInt8} {i j : ℕ} (hi : IsCut s i) (hj : IsCut s j) :
    WellFormed ((s.drop i).take (j - i)) := by
  obtain hle | hle := Nat.le_total i j
  · have hj' := hj.take
    rwa [← Nat.add_sub_cancel' hle, List.take_add, wellFormed_append_iff hi.take] at hj'
  · rw [Nat.sub_eq_zero_of_le hle, List.take_zero]
    exact wellFormed_nil

/-! ## Putting together -/

/-- ASCII is well-formed. -/
theorem WellFormed.of_ascii {s : List UInt8} (h : ∀ b ∈ s, b.toNat < 128) : WellFormed s := by
  induction s with
  | nil => exact wellFormed_nil
  | cons b s ih =>
    rw [List.forall_mem_cons] at h
    exact (wellFormed_sequence_append (.one h.1)).mpr (ih h.2)

/-- A text of ASCII by evaluation. -/
theorem ascii_of_all {s : List UInt8} (h : (s.all fun b => b.toNat < 128) = true) :
    ∀ b ∈ s, b.toNat < 128 := fun b hb => of_decide_eq_true (List.all_eq_true.mp h b hb)

theorem WellFormed.of_all_ascii {s : List UInt8} (h : (s.all fun b => b.toNat < 128) = true) :
    WellFormed s := .of_ascii (ascii_of_all h)

/-- Pieces with a separator between them. -/
theorem WellFormed.intercalate {sep : List UInt8} {pieces : List (List UInt8)}
    (hsep : WellFormed sep) (h : ∀ p ∈ pieces, WellFormed p) :
    WellFormed (sep.intercalate pieces) := by
  rw [List.intercalate]
  refine .flatten fun q hq => ?_
  induction pieces with
  | nil => exact absurd hq List.not_mem_nil
  | cons p rest ih =>
    rw [List.forall_mem_cons] at h
    cases rest with
    | nil =>
      rw [List.intersperse_singleton, List.mem_singleton] at hq
      exact hq ▸ h.1
    | cons p' rest =>
      rw [List.intersperse_cons_cons, List.mem_cons, List.mem_cons] at hq
      obtain rfl | rfl | hq := hq
      · exact h.1
      · exact hsep
      · exact ih h.2 hq

/-- A sequence is of one ASCII byte, or of none. -/
theorem Sequence.ascii_or {q : List UInt8} (hq : Sequence q) :
    (∃ a, q = [a] ∧ a.toNat < 128) ∨ ∀ b ∈ q, 128 ≤ b.toNat := by
  cases hq with
  | @one a h => exact .inl ⟨a, rfl, h⟩
  | two ha hb => exact .inr (by simpa using ⟨by omega, hb.1⟩)
  | three ha hb hc => exact .inr (by simpa using ⟨by omega, hb.1, hc.1⟩)
  | four ha hb hc hd => exact .inr (by simpa using ⟨by omega, hb.1, hc.1, hd.1⟩)

/-- **What changes ASCII into ASCII and nothing else** keeps a string well-formed. -/
theorem WellFormed.map {f : UInt8 → UInt8} {s : List UInt8} (hs : WellFormed s)
    (hascii : ∀ b, b.toNat < 128 → (f b).toNat < 128) (helse : ∀ b, 128 ≤ b.toNat → f b = b) :
    WellFormed (s.map f) := by
  refine hs.induction (P := fun s => WellFormed (s.map f)) wellFormed_nil fun q rest hq _ ih => ?_
  have hsequence : Sequence (q.map f) := by
    obtain ⟨a, rfl, ha⟩ | hall := hq.ascii_or
    · exact .one (hascii a ha)
    · rwa [List.map_congr_left fun b hb => helse b (hall b hb), List.map_id']
  rw [List.map_append, wellFormed_sequence_append hsequence]
  exact ih

end Utf8

end CelWasm
