import CelWasm.Library.Image
import Mathlib.Data.List.GetD

/-!
# Library/ByteMemory — a memory that is written over

Every address holds a byte. A write replaces a run of bytes, a read takes one; what is read is what
was written last there, and a write elsewhere does not change it.
-/

namespace CelWasm

/-- A byte at every address. -/
abbrev ByteMemory := ℕ → UInt8

namespace ByteMemory

variable (m : ByteMemory) (addr n : ℕ) (bytes : List UInt8)

/-- Write a run of bytes. -/
def write : ByteMemory := fun a =>
  if addr ≤ a ∧ a < addr + bytes.length then bytes.getD (a - addr) 0 else m a

/-- Read a run of bytes. -/
def read : List UInt8 := (List.range n).map fun k => m (addr + k)

/-- Read a four-byte number. -/
def readU32 : ℕ := leNat (m.read addr 4)

/-- Read four-byte numbers in a row. -/
def readU32s : List ℕ := (List.range n).map fun k => m.readU32 (addr + 4 * k)

variable {m addr n bytes} {m' : ByteMemory} {a : ℕ}

theorem write_of_lt (h : a < addr) : m.write addr bytes a = m a :=
  if_neg fun hin => absurd hin.1 (not_le.mpr h)

/-- **Memories that agree on a run** read alike there. -/
theorem read_congr (h : ∀ a, addr ≤ a → a < addr + n → m a = m' a) :
    m.read addr n = m'.read addr n :=
  List.map_congr_left fun k hk =>
    h (addr + k) (Nat.le_add_right addr k) (Nat.add_lt_add_left (List.mem_range.mp hk) addr)

@[simp] theorem length_read : (m.read addr n).length = n := by simp [read]

theorem read_zero : m.read addr 0 = [] := rfl

theorem read_succ : m.read addr (n + 1) = m addr :: m.read (addr + 1) n := by
  simp only [read, List.range_succ_eq_map, List.map_cons, List.map_map, Nat.add_zero]
  exact congrArg _ (List.map_congr_left fun k _ => congrArg m (by omega))

/-- A run is a run and the run behind it. -/
theorem read_add (k : ℕ) : m.read addr (k + n) = m.read addr k ++ m.read (addr + k) n := by
  simp only [read, List.range_add, List.map_append, List.map_map]
  exact congrArg _ (List.map_congr_left fun i _ => congrArg m (Nat.add_assoc addr k i).symm)

/-- Memories that agree on four bytes read the same number there. -/
theorem readU32_congr (h : ∀ a, addr ≤ a → a < addr + 4 → m a = m' a) :
    m.readU32 addr = m'.readU32 addr := congrArg leNat (read_congr h)

/-- **What was written inside a run is read back.** -/
theorem read_write_within {before after : List UInt8} :
    (m.write addr (before ++ bytes ++ after)).read (addr + before.length) bytes.length = bytes := by
  refine List.ext_getElem (by simp [read]) fun k hk hk' => ?_
  have hin : addr ≤ addr + before.length + k ∧
      addr + before.length + k < addr + (before ++ bytes ++ after).length := by
    simp only [List.length_append]
    omega
  simp only [read, List.getElem_map, List.getElem_range]
  rw [write, if_pos hin, Nat.add_assoc, Nat.add_sub_cancel_left, List.append_assoc,
    List.getD_append_right _ _ _ _ (Nat.le_add_right _ _), Nat.add_sub_cancel_left,
    List.getD_append _ _ _ _ hk', List.getD_eq_getElem _ _ hk']

/-- **What was written is read back.** -/
theorem read_write : (m.write addr bytes).read addr bytes.length = bytes := by
  simpa using @read_write_within m addr bytes [] []

/-- A number that fits is read back from inside a run. -/
theorem readU32_write_within {before after : List UInt8} {k : ℕ} (hk : k < 2 ^ 32) :
    (m.write addr (before ++ leBytes 4 k ++ after)).readU32 (addr + before.length) = k := by
  have hread := @read_write_within m addr (leBytes 4 k) before after
  rw [length_leBytes] at hread
  rw [readU32, hread, leNat_leBytes (by omega)]

end ByteMemory

end CelWasm
