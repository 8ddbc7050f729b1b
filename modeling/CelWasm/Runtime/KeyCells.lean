import CelWasm.Library.ByteMemory
import CelWasm.Runtime.MapKey
import Mathlib.Data.UInt

/-!
# Runtime/KeyCells — map keys as they lie in memory

A key lies in its cell; the cell of a string or of bytes only has the span of them, and the bytes are
elsewhere in linear memory. The comparison walks two spans a word at a time, the hash walks one a byte
at a time. Both come to what `celMapKeyEq` and `celMapKeyHash` say of the values, so that keys which
compare equal hash alike whatever the memory holds (`KeyCell.celMapKeyHashAt_eq`).
-/

namespace CelWasm

/-- The `CelSpan` in a cell. -/
structure KeySpan where
  ptr : UInt32
  len : UInt32

/-- A cell of one of the kinds a key may have, as a query or stored. A bool is any 32 bits. -/
inductive KeyCell
  | bool (b : Int32)
  | int (i : Int64)
  | uint (u : UInt64)
  | double (d : Binary64)
  | string (s : KeySpan)
  | bytes (s : KeySpan)

/-! ## The walks over linear memory -/

section Walks

variable (m : ByteMemory)

/-- The bytes past the last whole word, compared one by one. -/
def bytesEqual : ℕ → ℕ → ℕ → Bool
  | _, _, 0 => true
  | pa, pb, n + 1 => if m pa ≠ m pb then false else bytesEqual (pa + 1) (pb + 1) n

/-- `cel_byteptr_equal_`: whole words first. -/
def celByteptrEqual : ℕ → ℕ → ℕ → Bool
  | pa, pb, n + 8 =>
    if leNat (m.read pa 8) ≠ leNat (m.read pb 8) then false
    else celByteptrEqual (pa + 8) (pb + 8) n
  | pa, pb, n => bytesEqual m pa pb n

/-- `spans_equal`. -/
def spansEqual (a b : KeySpan) : Bool :=
  if a.len ≠ b.len then false
  else if a.len = 0 then true
  else celByteptrEqual m a.ptr.toNat b.ptr.toNat a.len.toNat

/-- `cel_hash_bytes`. -/
def celHashSpan (s : KeySpan) (salt : UInt64) : UInt64 :=
  let h := (List.range s.len.toNat).foldl
    (fun h i => (h ^^^ (m (s.ptr.toNat + i)).toUInt64) * 0x00000100000001B3)
    (salt ^^^ 0xCBF29CE484222325)
  celMix64 (h ^^^ (UInt64.ofNat s.len.toNat <<< 1))

/-- The bytes of a span. -/
def KeySpan.contents (s : KeySpan) : List UInt8 := m.read s.ptr.toNat s.len.toNat

variable {m}

theorem bytesEqual_iff {pa pb n : ℕ} :
    bytesEqual m pa pb n = true ↔ m.read pa n = m.read pb n := by
  induction n generalizing pa pb with
  | zero => exact iff_of_true rfl rfl
  | succ n ih =>
    rw [bytesEqual, ByteMemory.read_succ, ByteMemory.read_succ, List.cons.injEq]
    split_ifs with h
    · exact iff_of_false id fun heq => h heq.1
    · rw [ih]
      exact (and_iff_right (not_not.mp h)).symm

/-- **The walk by words** finds the same bytes equal. -/
theorem celByteptrEqual_iff {pa pb n : ℕ} :
    celByteptrEqual m pa pb n = true ↔ m.read pa n = m.read pb n := by
  fun_induction celByteptrEqual m pa pb n with
  | case1 pa pb n hne =>
    refine iff_of_false Bool.false_ne_true fun heq => hne ?_
    have hwords : m.read pa (n + 8) = m.read pb (n + 8) := heq
    rw [Nat.add_comm, ByteMemory.read_add, ByteMemory.read_add] at hwords
    exact congrArg leNat (List.append_inj hwords (by simp)).1
  | case2 pa pb n heq ih =>
    have hword : m.read pa 8 = m.read pb 8 := leNat_inj (by simp) (not_not.mp heq)
    change _ ↔ m.read pa (n + 8) = m.read pb (n + 8)
    rw [ih, Nat.add_comm n, ByteMemory.read_add, ByteMemory.read_add, hword]
    exact (List.append_right_inj _).symm
  | case3 pa pb n _ => exact bytesEqual_iff

/-- Spans are compared by their bytes. -/
theorem spansEqual_iff {a b : KeySpan} :
    spansEqual m a b = true ↔ a.contents m = b.contents m := by
  rw [spansEqual]
  split_ifs with hlen hempty
  · refine iff_of_false id fun h => hlen (UInt32.toNat_inj.mp ?_)
    simpa [KeySpan.contents] using congrArg List.length h
  · have hb : b.len = 0 := (not_not.mp hlen).symm.trans hempty
    exact iff_of_true rfl (by simp [KeySpan.contents, hempty, hb, ByteMemory.read_zero])
  · rw [celByteptrEqual_iff, KeySpan.contents, KeySpan.contents, not_not.mp hlen]

/-- The hash of a span is the hash of its bytes. -/
theorem celHashSpan_eq (s : KeySpan) (salt : UInt64) :
    celHashSpan m s salt = celHashBytes (s.contents m) salt := by
  rw [celHashSpan, celHashBytes, KeySpan.contents, ByteMemory.length_read, ByteMemory.read,
    List.foldl_map]

end Walks

/-! ## Keys in cells -/

namespace KeyCell

variable (m : ByteMemory)

/-- The value in a cell. -/
def value : KeyCell → CelValue
  | bool b => .bool (b != 0)
  | int i => .int i
  | uint u => .uint u
  | double d => .double d
  | string s => .string (s.contents m)
  | bytes s => .bytes (s.contents m)

/-- **`cel_map_key_eq`** on two cells: the numbers by `cel_numeric_key_eq`, other kinds by
`cel_value_eq`. -/
def celMapKeyEqAt (a b : KeyCell) : Bool :=
  if isNumericKind (a.value m) && isNumericKind (b.value m) then
    celNumericKeyEq (a.value m) (b.value m)
  else
    match a, b with
    | string s, string t => spansEqual m s t
    | bool x, bool y => (x != 0) == (y != 0)
    | bytes s, bytes t => spansEqual m s t
    | _, _ => false

/-- **`cel_map_key_hash`** on a cell. -/
def celMapKeyHashAt : KeyCell → UInt64
  | bool b => celMix64 (kCelHashSaltBool ^^^ (if b ≠ 0 then 1 else 0))
  | int v => celHashIntKey v
  | uint u => celHashNonnegInteger u
  | double d => celHashDoubleKey d
  | string s => celHashSpan m s kCelHashSaltStr
  | bytes s => celHashSpan m s kCelHashSaltBytes

variable {m}

/-- Cells compare like their values. -/
theorem celMapKeyEqAt_value (a b : KeyCell) :
    a.celMapKeyEqAt m b = celMapKeyEq (a.value m) (b.value m) := by
  have hspans : ∀ s t : KeySpan, spansEqual m s t = (s.contents m == t.contents m) := fun s t =>
    Bool.eq_iff_iff.mpr (spansEqual_iff.trans beq_iff_eq.symm)
  cases a <;> cases b <;>
    simp [celMapKeyEqAt, celMapKeyEq, celValueEq, value, isNumericKind, hspans]

/-- Cells hash like their values. -/
theorem celMapKeyHashAt_value (k : KeyCell) : k.celMapKeyHashAt m = celMapKeyHash (k.value m) := by
  cases k with
  | bool b =>
    rw [celMapKeyHashAt, value, celMapKeyHash]
    simp only [bne_iff_ne]
  | string s => exact celHashSpan_eq s kCelHashSaltStr
  | bytes s => exact celHashSpan_eq s kCelHashSaltBytes
  | _ => rfl

/-- **Keys that compare equal hash alike**, of whatever kinds and wherever their bytes lie. -/
theorem celMapKeyHashAt_eq {a b : KeyCell} (h : a.celMapKeyEqAt m b = true) :
    a.celMapKeyHashAt m = b.celMapKeyHashAt m := by
  rw [celMapKeyEqAt_value] at h
  rw [celMapKeyHashAt_value, celMapKeyHashAt_value]
  exact celMapKeyHash_congr h

/-- `2⁶³` as an unsigned integer and as a double, past every signed one. -/
theorem celMapKeyHashAt_eq_two_pow_63 :
    (uint (2 ^ 63)).celMapKeyHashAt (fun _ => 0)
      = (double ⟨0x43E0000000000000⟩).celMapKeyHashAt (fun _ => 0) :=
  celMapKeyHashAt_eq (by decide +kernel)

end KeyCell

end CelWasm
