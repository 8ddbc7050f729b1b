import Mathlib.Data.Nat.Notation
import Mathlib.Tactic.Ring

/-!
# Library/Image — reading back an append-only byte image

An image is a run of bytes that starts at some address. It is written by appending and read at
addresses, and what is read at the address of an appended block is that block, whatever is appended
later. `leBytes` and `leNat` put numbers of a fixed width into bytes and get them out.
-/

namespace CelWasm

/-! ## Little-endian numbers -/

/-- The lowest `w` bytes of a number, least significant first. -/
def leBytes : ℕ → ℕ → List UInt8
  | 0, _ => []
  | w + 1, n => UInt8.ofNat n :: leBytes w (n / 256)

/-- The number of a run of bytes. -/
def leNat : List UInt8 → ℕ
  | [] => 0
  | b :: bs => b.toNat + 256 * leNat bs

@[simp] theorem length_leBytes (w n : ℕ) : (leBytes w n).length = w := by
  induction w generalizing n with
  | zero => rfl
  | succ w ih => rw [leBytes, List.length_cons, ih]

/-- **A number that fits its width is read back.** -/
theorem leNat_leBytes {w n : ℕ} (h : n < 256 ^ w) : leNat (leBytes w n) = n := by
  induction w generalizing n with
  | zero => exact (Nat.lt_one_iff.mp h).symm
  | succ w ih =>
    rw [pow_succ] at h
    rw [leBytes, leNat, ih (by omega), UInt8.toNat_ofNat']
    omega

/-- **Runs of one length are told apart by their numbers.** -/
theorem leNat_inj : ∀ {a b : List UInt8}, a.length = b.length → leNat a = leNat b → a = b
  | [], [], _, _ => rfl
  | x :: xs, y :: ys, hlength, h => by
    have hx := x.toNat_lt
    have hy := y.toNat_lt
    rw [leNat, leNat] at h
    have hhead : x = y := UInt8.toNat_inj.mp (by omega)
    rw [hhead, leNat_inj (Nat.succ.inj hlength) (by omega)]

/-! ## Images -/

/-- Bytes from an address on. -/
structure Image where
  base : ℕ
  bytes : List UInt8

namespace Image

/-- `n` bytes from an address on, if the image has them. -/
def read (m : Image) (addr n : ℕ) : Option (List UInt8) :=
  if m.base ≤ addr ∧ addr + n ≤ m.base + m.bytes.length then
    some ((m.bytes.drop (addr - m.base)).take n)
  else none

/-- A four-byte number. -/
def readU32 (m : Image) (addr : ℕ) : Option ℕ := (m.read addr 4).map leNat

/-- Four-byte numbers in a row. -/
def readU32s (m : Image) (addr : ℕ) : ℕ → Option (List ℕ)
  | 0 => some []
  | n + 1 => do return (← m.readU32 addr) :: (← m.readU32s (addr + 4) n)

/-- **A block stands at an address.** -/
def At (m : Image) (addr : ℕ) (block : List UInt8) : Prop :=
  ∃ pre post, m.bytes = pre ++ block ++ post ∧ addr = m.base + pre.length

/-- The address behind the last byte. -/
def next (m : Image) : ℕ := m.base + m.bytes.length

/-- Append a block. -/
def append (m : Image) (block : List UInt8) : Image := { m with bytes := m.bytes ++ block }

theorem next_append (m : Image) (block : List UInt8) :
    (m.append block).next = m.next + block.length := by
  rw [next, next, append, List.length_append, Nat.add_assoc]

theorem append_append (m : Image) (a b : List UInt8) : (m.append a).append b = m.append (a ++ b) := by
  rw [append, append, append, List.append_assoc]

theorem append_nil (m : Image) : m.append [] = m := by
  rw [append, List.append_nil]

/-- **What is appended stands behind what was there**, whatever comes after it. -/
theorem at_next (m : Image) (block more : List UInt8) :
    ((m.append block).append more).At m.next block :=
  ⟨m.bytes, more, rfl, rfl⟩

section At

variable {m : Image} {addr n : ℕ} {a b : List UInt8}

theorem At.left (h : m.At addr (a ++ b)) : m.At addr a := by
  obtain ⟨pre, post, hbytes, haddr⟩ := h
  exact ⟨pre, b ++ post, by rw [hbytes]; simp only [List.append_assoc], haddr⟩

theorem At.right (h : m.At addr (a ++ b)) : m.At (addr + a.length) b := by
  obtain ⟨pre, post, hbytes, haddr⟩ := h
  refine ⟨pre ++ a, post, by rw [hbytes]; simp only [List.append_assoc], ?_⟩
  rw [haddr, List.length_append, Nat.add_assoc]

/-- **A block is read back** from where it stands. -/
theorem At.read (h : m.At addr a) : m.read addr a.length = some a := by
  obtain ⟨pre, post, hbytes, haddr⟩ := h
  rw [Image.read, if_pos (by rw [hbytes, haddr]; simp only [List.length_append]; omega), hbytes,
    haddr, Nat.add_sub_cancel_left, List.append_assoc, List.drop_left, List.take_left]

theorem At.readU32 (h : m.At addr (leBytes 4 n)) (hn : n < 2 ^ 32) : m.readU32 addr = some n := by
  have hread := h.read
  rw [length_leBytes] at hread
  rw [Image.readU32, hread, Option.map_some, leNat_leBytes (by omega)]

end At

theorem At.readU32s {m : Image} : ∀ {ns : List ℕ} {addr : ℕ},
    m.At addr (ns.flatMap (leBytes 4)) → (∀ n ∈ ns, n < 2 ^ 32) →
      m.readU32s addr ns.length = some ns
  | [], _, _, _ => rfl
  | n :: ns, addr, h, hns => by
    rw [List.flatMap_cons] at h
    have htail := h.right
    rw [length_leBytes] at htail
    rw [List.length_cons, Image.readU32s, h.left.readU32 (hns n List.mem_cons_self),
      htail.readU32s fun k hk => hns k (List.mem_cons_of_mem n hk)]
    rfl

end Image

end CelWasm
