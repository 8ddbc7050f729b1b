import CelWasm.Abi.CustomSections

/-!
# Abi/WordReads — which number a read of a word gives

A word of 32 bits has at most five bytes of seven bits each, and so the last of five has room for
three bits more than the word. `ReadLeb128U32` reads what `AppendLeb128U32` writes, whatever stands
behind it, and no byte past the end; the three bits it drops.

    FF FF FF FF 0F  ↦  2³² − 1          FF FF FF FF 7F  ↦  2³² − 1
-/

namespace CelWasm

variable {bytes block : List UInt8} {pos n : ℕ}

/-! ## What is read -/

theorem StandsAt.unique {other : List UInt8} (h : StandsAt bytes pos block)
    (hother : StandsAt bytes pos other) (hlength : block.length = other.length) : block = other := by
  have hread := bytesAt_of_standsAt h
  rw [hlength, bytesAt_of_standsAt hother] at hread
  exact (Except.ok.inj hread).symm

/-- A byte stands in front of what stands behind it. -/
theorem StandsAt.cons (hpos : pos < bytes.length) (h : StandsAt bytes (pos + 1) block) :
    StandsAt bytes pos (bytes[pos] :: block) := by
  obtain ⟨before, after, hbytes, hbefore⟩ := h
  rw [Nat.zero_add] at hbefore
  refine ⟨bytes.take pos, after, ?_, ?_⟩
  · have hdrop : bytes.drop (pos + 1) = block ++ after := by
      rw [hbefore]
      change (Image.mk 0 bytes).bytes.drop before.length = block ++ after
      rw [hbytes, List.append_assoc, List.drop_left]
    change bytes = _
    rw [List.append_assoc, List.cons_append, ← hdrop, ← List.drop_eq_getElem_cons hpos,
      List.take_append_drop]
  · rw [Nat.zero_add, List.length_take, Nat.min_eq_left hpos.le]

/-- **What a read ends behind is an encoding.** -/
theorem exists_of_readLebLoop {left : ℕ} {shift out : UInt32} {r : ℕ × UInt32}
    (h : readLebLoop bytes left pos shift out = .ok (some r)) :
    ∃ block n, Leb128.Encodes block n ∧ StandsAt bytes pos block ∧ block.length ≤ left ∧
      r.1 = pos + block.length := by
  induction left generalizing pos shift out with
  | zero => cases h
  | succ left ih =>
    rw [readLebLoop] at h
    by_cases hend : bytes.length ≤ pos
    · rw [if_pos hend] at h
      cases Except.ok.inj h
    rw [if_neg hend] at h
    have hpos : pos < bytes.length := not_le.mp hend
    have hempty : StandsAt bytes (pos + 1) [] :=
      ⟨bytes.take (pos + 1), bytes.drop (pos + 1), by simp, by simp; omega⟩
    simp only [byteAt, List.getElem?_eq_getElem hpos, bind, Except.bind] at h
    split_ifs at h with hlast
    · obtain rfl := Option.some.inj (Except.ok.inj h)
      rw [and_128_eq_zero_iff] at hlast
      exact ⟨[bytes[pos]], _, .last hlast, hempty.cons hpos, Nat.le_add_left 1 left, rfl⟩
    · rw [and_128_eq_zero_iff, not_lt] at hlast
      obtain ⟨block, n, hencodes, hat, hlength, hstop⟩ := ih h
      refine ⟨bytes[pos] :: block, _, hencodes.more hlast, hat.cons hpos, ?_, ?_⟩
      · exact Nat.succ_le_succ hlength
      · rw [hstop, List.length_cons]
        omega

/-- **A word is read of an encoding in five bytes**, as far as the word goes. -/
theorem readLeb128U32_encodes (h : Leb128.Encodes block n) (hat : StandsAt bytes pos block)
    (hshort : block.length ≤ kMaxU32LebBytes) :
    readLeb128U32 bytes pos = .ok (some (pos + block.length, UInt32.ofNat n)) := by
  obtain ⟨word, hread, hword⟩ := @readLebLoop_encodes bytes block pos n h kMaxU32LebBytes 0 0 hat
    hshort (by decide) (by decide)
  obtain rfl : word = UInt32.ofNat n := by
    rw [← UInt32.toNat_inj, hword, UInt32.toNat_ofNat']
    simp
  exact hread

/-- **A read ends inside the buffer**, past the position it begins at. -/
theorem readLeb128U32_inside (bytes : List UInt8) (pos : ℕ) :
    ∃ read, readLeb128U32 bytes pos = .ok read ∧ ∀ r ∈ read, pos < r.1 ∧ r.1 ≤ bytes.length := by
  have hok : ∀ {left pos shift out}, ∃ read, readLebLoop bytes left pos shift out = .ok read := by
    intro left
    induction left with
    | zero => exact ⟨none, rfl⟩
    | succ left ih =>
      intro pos shift out
      rw [readLebLoop]
      split_ifs with hend
      · exact ⟨none, rfl⟩
      · simp only [byteAt, List.getElem?_eq_getElem (not_le.mp hend), bind, Except.bind]
        split_ifs
        · exact ⟨_, rfl⟩
        · exact ih
  obtain ⟨read, hread⟩ := hok
  have hends := @readLebLoop_ends bytes pos kMaxU32LebBytes 0 0
  rw [hread] at hends
  exact ⟨read, hread, hends⟩

/-! ## The bits of the fifth byte -/

/-- A read that succeeds gives **the number that the bytes denote**, all of it. -/
def ReadsDenoted (bytes : List UInt8) (pos : ℕ) : Prop :=
  ∀ stop value, readLeb128U32 bytes pos = .ok (some (stop, value)) →
    ∃ block, StandsAt bytes pos block ∧ stop = pos + block.length ∧
      Leb128.Encodes block value.toNat

/-- Four bytes that go on are followed by one that ends, with bits above the four that a word has
left. -/
def HasBitsOver (bytes : List UInt8) (pos : ℕ) : Prop :=
  ∃ front last, StandsAt bytes pos (front ++ [last]) ∧ front.length = 4 ∧
    (∀ b ∈ front, 128 ≤ b.toNat) ∧ 16 ≤ last.toNat ∧ last.toNat < 128

theorem not_readsDenoted (h : HasBitsOver bytes pos) : ¬ ReadsDenoted bytes pos := by
  intro hreads
  obtain ⟨front, last, hat, hlength, hfront, hbits, hlast⟩ := h
  obtain ⟨low, hencodes⟩ := Leb128.exists_encodes hfront hlast
  have hfive : (front ++ [last]).length = 5 := by
    rw [List.length_append, hlength]
    rfl
  obtain ⟨block, hblock, hstop, hvalue⟩ :=
    hreads _ _ (readLeb128U32_encodes hencodes hat hfive.le)
  rw [hat.unique hblock (Nat.add_left_cancel hstop)] at hencodes
  have hword := hvalue.unique hencodes
  have hlt := (UInt32.ofNat (low + 128 ^ front.length * last.toNat)).toNat_lt
  rw [hword, hlength] at hlt
  omega

theorem readsDenoted (h : ¬ HasBitsOver bytes pos) : ReadsDenoted bytes pos := by
  intro stop value hread
  obtain ⟨block, n, hencodes, hat, hshort, hstop⟩ := exists_of_readLebLoop hread
  have hn : n < 2 ^ 32 := by
    obtain ⟨front, last, low, rfl, hfront, hlast, hlow, rfl⟩ := hencodes.exists_concat
    rw [List.length_append, List.length_singleton, kMaxU32LebBytes] at hshort
    obtain hfour | hthree : front.length = 4 ∨ front.length ≤ 3 := by omega
    · have hbits : ¬ 16 ≤ last.toNat := fun hbits =>
        h ⟨front, last, hat, hfour, hfront, hbits, hlast⟩
      rw [hfour] at hlow ⊢
      omega
    · have hpower : 128 ^ front.length ≤ 128 ^ 3 := Nat.pow_le_pow_right (by decide) hthree
      calc low + 128 ^ front.length * last.toNat
          < 128 ^ front.length * 128 := by
            have hle := Nat.mul_le_mul_left (128 ^ front.length) (Nat.le_of_lt_succ hlast)
            omega
        _ ≤ 128 ^ 3 * 128 := Nat.mul_le_mul_right 128 hpower
        _ ≤ 2 ^ 32 := by decide
  have hvalue : value = UInt32.ofNat n := by
    have heq := hread.symm.trans (readLeb128U32_encodes hencodes hat hshort)
    exact (Prod.mk.inj (Option.some.inj (Except.ok.inj heq))).2
  rw [hvalue]
  exact ⟨block, hat, hstop, by rwa [UInt32.toNat_ofNat_of_lt' hn]⟩

/-- **Reading and writing of a word.** What `AppendLeb128U32` writes is read back, wherever it stands
and whatever follows; no read is past the end of the buffer; and a read gives the number that the
bytes denote exactly where no fifth byte has bits over. -/
theorem readLeb128U32_readsDenoted_iff (before after : List UInt8) (value : UInt32)
    (bytes : List UInt8) (pos : ℕ) :
    readLeb128U32 (before ++ appendLeb128U32 value ++ after) before.length
      = .ok (some (before.length + (appendLeb128U32 value).length, value)) ∧
    (∃ read, readLeb128U32 bytes pos = .ok read ∧ ∀ r ∈ read, pos < r.1 ∧ r.1 ≤ bytes.length) ∧
    (ReadsDenoted bytes pos ↔ ¬ HasBitsOver bytes pos) := by
  refine ⟨?_, readLeb128U32_inside bytes pos,
    fun hreads hover => not_readsDenoted hover hreads, readsDenoted⟩
  have happend := encodesU32_append value.toNat_lt
  rw [UInt32.ofNat_toNat] at happend
  have hread := readLeb128U32_encodes happend.encodes ⟨before, after, rfl, (Nat.zero_add _).symm⟩
    happend.short
  rwa [UInt32.ofNat_toNat] at hread

/-- `FF FF FF FF 7F` stands for `2³⁵ − 1`, and is read as `2³² − 1`. -/
theorem not_readsDenoted_bitsOver : ¬ ReadsDenoted [0xFF, 0xFF, 0xFF, 0xFF, 0x7F] 0 :=
  not_readsDenoted ⟨[0xFF, 0xFF, 0xFF, 0xFF], 0x7F, ⟨[], [], rfl, rfl⟩, rfl, by simp, by decide,
    by decide⟩

end CelWasm
