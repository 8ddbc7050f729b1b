import CelWasm.Library.ByteMemory
import CelWasm.Library.Region
import Mathlib.Data.List.Basic

/-!
# Library/WordArrays — arrays of four-byte numbers in a memory

An array is written in one go or number by number, each behind the ones before it, to the same
effect. It is read back from where it was written, and a write apart from it leaves it as it is.
-/

namespace CelWasm

namespace ByteMemory

variable {m m' : ByteMemory} {addr n k : ℕ} {bytes a b : List UInt8} {r s : Region} {xs ys : List ℕ}

/-! ## Memories that agree -/

/-- Two memories have the same bytes in a region. -/
def AgreeOn (r : Region) (m m' : ByteMemory) : Prop := ∀ a, r.start ≤ a → a < r.finish → m a = m' a

theorem AgreeOn.mono (h : AgreeOn s m m') (hrs : r.Within s) : AgreeOn r m m' := fun a hlo hhi =>
  h a (hrs.1.trans hlo) (hhi.trans_le hrs.2)

theorem AgreeOn.trans {m'' : ByteMemory} (h : AgreeOn r m m') (h' : AgreeOn r m' m'') :
    AgreeOn r m m'' := fun a hlo hhi => (h a hlo hhi).trans (h' a hlo hhi)

theorem AgreeOn.refl (r : Region) (m : ByteMemory) : AgreeOn r m m := fun _ _ _ => rfl

/-- **A write changes nothing apart from it.** -/
theorem agreeOn_write (h : r.Apart ⟨addr, bytes.length⟩) : AgreeOn r m (m.write addr bytes) := by
  intro a hlo hhi
  refine (if_neg ?_).symm
  rintro ⟨hstart, hfinish⟩
  obtain h | h := h
  · exact absurd (hhi.trans_le (h.trans hstart)) (lt_irrefl a)
  · exact absurd (hfinish.trans_le (h.trans hlo)) (lt_irrefl a)

theorem AgreeOn.readU32 (h : AgreeOn ⟨addr, 4⟩ m m') : m.readU32 addr = m'.readU32 addr :=
  readU32_congr h

/-- Memories that agree on a region read the same number inside it. -/
theorem AgreeOn.readU32_at (h : AgreeOn ⟨addr, n⟩ m m') (hk : k + 4 ≤ n) :
    m.readU32 (addr + k) = m'.readU32 (addr + k) :=
  (h.mono (Region.within_mk (Nat.le_add_right addr k) (by omega))).readU32

theorem AgreeOn.readU32s (h : AgreeOn ⟨addr, 4 * n⟩ m m') : m.readU32s addr n = m'.readU32s addr n :=
  List.map_congr_left fun k hk => h.readU32_at (by have := List.mem_range.mp hk; omega)

/-! ## Reading -/

@[simp] theorem length_readU32s : (m.readU32s addr n).length = n := by
  rw [readU32s, List.length_map, List.length_range]

theorem leNat_lt : ∀ bs : List UInt8, leNat bs < 256 ^ bs.length
  | [] => Nat.one_pos
  | b :: bs => by
    have hb := b.toNat_lt
    have hbs := leNat_lt bs
    rw [leNat, List.length_cons, Nat.pow_succ]
    omega

theorem readU32_lt : m.readU32 addr < 2 ^ 32 := by
  have h := leNat_lt (m.read addr 4)
  rwa [length_read] at h

theorem lt_of_mem_readU32s {x : ℕ} (h : x ∈ m.readU32s addr n) : x < 2 ^ 32 := by
  obtain ⟨k, -, rfl⟩ := List.mem_map.mp h
  exact readU32_lt

theorem getElem_readU32s (h : k < (m.readU32s addr n).length) :
    (m.readU32s addr n)[k] = m.readU32 (addr + 4 * k) := by
  simp only [readU32s, List.getElem_map, List.getElem_range]

/-! ## Writing -/

/-- Write numbers in a row. -/
def writeU32s (m : ByteMemory) (addr : ℕ) (xs : List ℕ) : ByteMemory :=
  m.write addr (xs.flatMap (leBytes 4))

theorem length_words (xs : List ℕ) : (xs.flatMap (leBytes 4)).length = 4 * xs.length := by
  induction xs with
  | nil => rfl
  | cons x xs ih =>
    rw [List.flatMap_cons, List.length_append, ih, length_leBytes, List.length_cons]
    omega

/-- **A write behind a write** is one write of both. -/
theorem write_append : (m.write addr a).write (addr + a.length) b = m.write addr (a ++ b) := by
  funext i
  simp only [write, List.length_append]
  rcases lt_or_ge i (addr + a.length) with hi | hi
  · rw [if_neg (fun h => absurd h.1 (not_le.mpr hi))]
    by_cases hlo : addr ≤ i
    · rw [if_pos ⟨hlo, hi⟩, if_pos ⟨hlo, by omega⟩, List.getD_append _ _ _ _ (by omega)]
    · rw [if_neg (fun h => hlo h.1), if_neg (fun h => hlo h.1)]
  · have hout : ¬(addr ≤ i ∧ i < addr + a.length) := fun h => absurd h.2 (not_lt.mpr hi)
    rw [if_neg hout]
    by_cases hhi : i < addr + a.length + b.length
    · rw [if_pos ⟨hi, hhi⟩, if_pos ⟨by omega, by omega⟩, List.getD_append_right _ _ _ _ (by omega)]
      congr 1
      omega
    · rw [if_neg (fun h => hhi h.2), if_neg (fun h => hhi (by omega))]

theorem write_nil : m.write addr [] = m := by
  funext i
  exact if_neg fun h => absurd h.2 (not_lt.mpr h.1)

theorem writeU32s_nil : m.writeU32s addr [] = m := write_nil

/-- **Numbers are written one behind the other.** -/
theorem writeU32s_append :
    (m.writeU32s addr xs).writeU32s (addr + 4 * xs.length) ys = m.writeU32s addr (xs ++ ys) := by
  rw [writeU32s, writeU32s, ← length_words, write_append, writeU32s, List.flatMap_append]

theorem writeU32s_concat (x : ℕ) :
    (m.writeU32s addr xs).write (addr + 4 * xs.length) (leBytes 4 x) = m.writeU32s addr (xs ++ [x]) := by
  have hword : [x].flatMap (leBytes 4) = leBytes 4 x := List.flatMap_singleton ..
  rw [← hword]
  exact writeU32s_append

theorem agreeOn_writeU32s (h : r.Apart ⟨addr, 4 * xs.length⟩) :
    AgreeOn r m (m.writeU32s addr xs) := agreeOn_write (by rwa [length_words])

/-- **An array is read back.** -/
theorem readU32s_writeU32s (h : ∀ x ∈ xs, x < 2 ^ 32) :
    (m.writeU32s addr xs).readU32s addr xs.length = xs := by
  refine List.ext_getElem length_readU32s fun k hk hk' => ?_
  rw [getElem_readU32s]
  have hsplit : xs.flatMap (leBytes 4)
      = (xs.take k).flatMap (leBytes 4) ++ leBytes 4 xs[k] ++ (xs.drop (k + 1)).flatMap (leBytes 4) := by
    conv_lhs => rw [← List.take_append_drop k xs, List.drop_eq_getElem_cons hk']
    rw [List.flatMap_append, List.flatMap_cons, List.append_assoc]
  have hread := @readU32_write_within m addr ((xs.take k).flatMap (leBytes 4))
    ((xs.drop (k + 1)).flatMap (leBytes 4)) xs[k] (h _ (List.getElem_mem hk'))
  rwa [← hsplit, length_words, List.length_take, Nat.min_eq_left hk'.le] at hread

theorem readU32_writeU32s (h : ∀ x ∈ xs, x < 2 ^ 32) (hk : k < xs.length) :
    (m.writeU32s addr xs).readU32 (addr + 4 * k) = xs[k] := by
  have hread := @readU32s_writeU32s m addr xs h
  rw [← getElem_readU32s (by rwa [length_readU32s])]
  simp only [hread]

end ByteMemory

end CelWasm
