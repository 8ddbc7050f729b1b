import CelWasm.Library.BlockScan
import CelWasm.Library.Swar
import CelWasm.Runtime.StringSearch

/-!
# Runtime/AnchorScan — bytes by the word and by the vector

`cel_internal.h` looks for a byte eight or sixteen at a time, and skips ASCII in blocks of as many. A
build with vectors uses those and finishes with words; one without has only words. Both find the first
byte there is, and both skip only bytes that are code points by themselves, so that neither can be told
from a walk byte by byte.
-/

namespace CelWasm

/-- Whether a build has vectors. -/
inductive ScanBuild
  | simd128
  | portable

/-! ## Looking for a byte -/

/-- The last bytes of `cel_swar_memchr_`, one at a time. -/
def byteMemchr (c : UInt8) (bytes : List UInt8) : Option ℕ := bytes.findIdx? (· == c)

/-- A word of `cel_swar_memchr_`: `w ^ pat` is zero in the lanes of the byte, and the lowest flag is
trusted. -/
def swarBlock (c : UInt8) (bytes : List UInt8) : Option ℕ :=
  let x := Swar.word bytes ^^^ (Swar.lsbs * BitVec.ofNat 64 c.toNat)
  let hit := (x - Swar.lsbs) &&& ~~~x &&& Swar.msbs
  if hit ≠ 0#64 then some (hit.ctz.toNat / 8) else none

/-- **`cel_swar_memchr_`**, on the bytes of its window. -/
def celSwarMemchr (c : UInt8) (window : List UInt8) : Option ℕ :=
  blockScan 8 (swarBlock c) (byteMemchr c) (window.length / 8) window

/-- `wasm_i8x16_bitmask`: the top bits of the lanes. -/
def i8x16Bitmask (lanes : List UInt8) : BitVec 32 :=
  (BitVec.ofBoolListLE (lanes.map (0x80 ≤ ·))).setWidth 32

/-- `wasm_i8x16_eq` with a byte in every lane. -/
def i8x16Eq (c : UInt8) (lanes : List UInt8) : List UInt8 :=
  lanes.map fun b => if b = c then 0xFF else 0

/-- A vector of `cel_anchor_memchr_`. -/
def simdBlock (c : UInt8) (bytes : List UInt8) : Option ℕ :=
  let mask := i8x16Bitmask (i8x16Eq c bytes)
  if mask ≠ 0#32 then some mask.ctz.toNat else none

/-- **`cel_anchor_memchr_`**, on the bytes of its window. -/
def celAnchorMemchr : ScanBuild → UInt8 → List UInt8 → Option ℕ
  | .simd128, c, window => blockScan 16 (simdBlock c) (celSwarMemchr c) (window.length / 16) window
  | .portable, c, window => celSwarMemchr c window

theorem swarBlock_eq (c : UInt8) {bytes : List UInt8} (h : bytes.length = 8) :
    swarBlock c bytes = bytes.findIdx? (· == c) := by
  have hlane : ∀ j, (hj : j < bytes.length) → (Swar.IsZeroLane
      (Swar.word bytes ^^^ (Swar.lsbs * BitVec.ofNat 64 c.toNat)) j ↔ (bytes[j] == c) = true) := by
    intro j hj
    rw [Swar.isZeroLane_xor_iff (by omega), List.getD_eq_getElem?_getD, List.getElem?_eq_getElem hj,
      Option.getD_some, beq_iff_eq]
  refine @findIdx?_of_flags _ _ 8 7 (by omega) _ _ _ (fun i hi => ?_)
    (fun j hj hfound => ?_) fun j hj hset hbelow => ?_
  · obtain ⟨hlt, hmod, -⟩ := Swar.of_getLsbD_zeroLane hi
    exact ⟨i / 8, by omega, by omega⟩
  · exact Swar.getLsbD_zeroLane (by omega)
      (Swar.isZeroLane_iff.mp ((hlane j hj).mpr hfound))
  · refine (hlane j hj).mp (Swar.isZeroLane_of_flagged (by omega) hset fun k hk => ?_)
    rw [hlane k (by omega)]
    exact hbelow k hk

theorem celSwarMemchr_eq (c : UInt8) (window : List UInt8) :
    celSwarMemchr c window = window.findIdx? (· == c) :=
  blockScan_eq (fun _ => swarBlock_eq c) (fun _ => rfl) _ window (Nat.div_mul_le_self _ 8)

/-- The mask of equal lanes has the bits of those that are. -/
theorem getLsbD_i8x16Bitmask {c : UInt8} {bytes : List UInt8} (h : bytes.length ≤ 32) (j : ℕ) :
    (i8x16Bitmask (i8x16Eq c bytes)).getLsbD j = (bytes[j]?.map (· == c)).getD false := by
  have hlane : ∀ b : UInt8, decide ((0x80 : UInt8) ≤ if b = c then 0xFF else 0) = (b == c) := by
    intro b
    by_cases hb : b = c
    · rw [if_pos hb, hb, beq_self_eq_true]
      rfl
    · rw [if_neg hb, beq_eq_false_iff_ne.mpr hb]
      rfl
  rw [i8x16Bitmask, i8x16Eq, BitVec.getLsbD_setWidth, BitVec.getLsbD_ofBoolListLE, List.map_map,
    List.getD_eq_getElem?_getD, List.getElem?_map]
  by_cases hj : j < bytes.length
  · rw [decide_eq_true (by omega), Bool.true_and, List.getElem?_eq_getElem hj]
    exact hlane bytes[j]
  · rw [List.getElem?_eq_none (by omega)]
    exact Bool.and_false _

theorem simdBlock_eq (c : UInt8) {bytes : List UInt8} (h : bytes.length = 16) :
    simdBlock c bytes = bytes.findIdx? (· == c) := by
  have hbit := @getLsbD_i8x16Bitmask c bytes (by omega)
  have hlane : ∀ j, (hj : j < bytes.length) →
      ((i8x16Bitmask (i8x16Eq c bytes)).getLsbD (1 * j + 0) = true ↔ (bytes[j] == c) = true) := by
    intro j hj
    rw [Nat.add_zero, Nat.one_mul, hbit, List.getElem?_eq_getElem hj]
    rfl
  rw [simdBlock, ← Nat.div_one (BitVec.toNat _)]
  refine @findIdx?_of_flags _ _ 1 0 Nat.one_pos _ _ _ (fun i hi => ?_)
    (fun j hj hfound => (hlane j hj).mpr hfound) fun j hj hset _ => (hlane j hj).mp hset
  refine ⟨i, ?_, by omega⟩
  by_contra hge
  rw [hbit, List.getElem?_eq_none (by omega)] at hi
  exact Bool.false_ne_true hi

/-- **A byte is found where it is first**, in either build. -/
theorem celAnchorMemchr_eq (build : ScanBuild) (c : UInt8) (window : List UInt8) :
    celAnchorMemchr build c window = window.findIdx? (· == c) := by
  cases build with
  | simd128 =>
    exact blockScan_eq (fun _ => simdBlock_eq c) (celSwarMemchr_eq c) _ window
      (Nat.div_mul_le_self _ 16)
  | portable => exact celSwarMemchr_eq c window

/-! ## Skipping ASCII -/

/-- The bytes of a block of `cel_ascii_prefix_blocks_`. -/
def asciiBlockSize : ScanBuild → ℕ
  | .simd128 => 16
  | .portable => 8

/-- Whether a block has no byte with its top bit set. -/
def isAsciiBlock : ScanBuild → List UInt8 → Bool
  | .simd128, bytes => i8x16Bitmask bytes == 0#32
  | .portable, bytes => Swar.word bytes &&& Swar.msbs == 0#64

/-- **`cel_ascii_prefix_blocks_`**, on the bytes of its window. -/
def celAsciiPrefixBlocks (build : ScanBuild) (window : List UInt8) : ℕ :=
  blockPrefix (asciiBlockSize build) (isAsciiBlock build) (window.length / asciiBlockSize build) window

/-- **`AdvanceToBoundary`** of a build. -/
def advanceToBoundaryIn (build : ScanBuild) : ℕ → List UInt8 → ℕ → ℤ → Bool × List UInt8 × ℤ
  | _, rest, 0, codePoints => (true, rest, codePoints)
  | 0, rest, _ + 1, codePoints => (false, rest, codePoints)
  | fuel + 1, rest, ahead + 1, codePoints =>
    let ascii := celAsciiPrefixBlocks build (rest.take (ahead + 1))
    if ascii ≠ 0 then
      advanceToBoundaryIn build fuel (rest.drop ascii) (ahead + 1 - ascii) (codePoints + ascii)
    else
      let units := utf8Decode rest
      if ahead + 1 < units then (false, rest.drop units, codePoints + 1)
      else advanceToBoundaryIn build fuel (rest.drop units) (ahead + 1 - units) (codePoints + 1)

theorem isAsciiBlock_spec (build : ScanBuild) {bytes : List UInt8}
    (hlen : bytes.length = asciiBlockSize build) (h : isAsciiBlock build bytes = true) :
    ∀ b ∈ bytes, decide (b < 0x80) = true := by
  intro b hb
  obtain ⟨j, hj, rfl⟩ := List.getElem_of_mem hb
  rw [decide_eq_true_iff]
  cases build with
  | simd128 =>
    have hj' : j < 16 := hj.trans_eq hlen
    have hbit := congrArg (BitVec.getLsbD · j) (beq_iff_eq.mp h)
    simp only [i8x16Bitmask, BitVec.getLsbD_setWidth, BitVec.getLsbD_ofBoolListLE,
      List.getD_eq_getElem?_getD, List.getElem?_map, List.getElem?_eq_getElem hj, Option.map_some,
      Option.getD_some, BitVec.getLsbD_zero, Bool.and_eq_false_iff, decide_eq_false_iff_not] at hbit
    exact UInt8.not_le.mp (hbit.resolve_left fun hlt => hlt (by omega))
  | portable =>
    have hj' : j < 8 := hj.trans_eq hlen
    have hbit := congrArg (BitVec.getLsbD · (8 * j + 7)) (beq_iff_eq.mp h)
    simp only [BitVec.getLsbD_and, Swar.getLsbD_word (i := 7) (by omega) hj', Swar.getLsbD_msbs,
      List.getD_eq_getElem?_getD, List.getElem?_eq_getElem hj, Option.getD_some,
      BitVec.getLsbD_zero] at hbit
    rw [decide_eq_true (by omega : 8 * j + 7 < 64), decide_eq_true (by omega : (8 * j + 7) % 8 = 7),
      Bool.and_true, Bool.and_true, Nat.testBit_eq_decide_div_mod_eq, decide_eq_false_iff_not] at hbit
    have hlt := (bytes[j]).toNat_lt
    exact UInt8.lt_iff_toNat_lt.mpr (by change (bytes[j]).toNat < 128; omega)

/-- **Only ASCII is skipped**, and no more than there is. -/
theorem celAsciiPrefixBlocks_spec (build : ScanBuild) (window : List UInt8) :
    celAsciiPrefixBlocks build window ≤ window.length ∧
      ∀ b ∈ window.take (celAsciiPrefixBlocks build window), b < 0x80 := by
  obtain ⟨hle, hall⟩ := blockPrefix_spec (fun _ => isAsciiBlock_spec build) _ window
    (Nat.div_mul_le_self _ (asciiBlockSize build))
  exact ⟨hle, fun b hb => decide_eq_true_iff.mp (hall b hb)⟩

theorem utf8DecodeMulti_pos {expected : ℕ} (h : 0 < expected) (bytes : List UInt8) :
    0 < utf8DecodeMulti expected bytes := by
  rw [utf8DecodeMulti]
  split_ifs <;> omega

/-- A step is a byte at least. -/
theorem utf8Decode_pos (bytes : List UInt8) : 0 < utf8Decode bytes := by
  cases bytes with
  | nil => exact Nat.one_pos
  | cons b bs =>
    rw [utf8Decode]
    split_ifs
    · exact Nat.one_pos
    · exact utf8DecodeMulti_pos (by omega) _
    · exact utf8DecodeMulti_pos (by omega) _
    · exact utf8DecodeMulti_pos (by omega) _
    · exact Nat.one_pos

/-- Steps to spare make no difference. -/
theorem advanceToBoundary_fuel : ∀ {ahead fuel fuel' : ℕ} {rest : List UInt8} {codePoints : ℤ},
    ahead ≤ fuel → ahead ≤ fuel' →
      advanceToBoundary fuel rest ahead codePoints = advanceToBoundary fuel' rest ahead codePoints
  | 0, fuel, fuel', rest, codePoints, _, _ => by cases fuel <;> cases fuel' <;> rfl
  | ahead + 1, fuel + 1, fuel' + 1, rest, codePoints, h, h' => by
    have hpos := utf8Decode_pos rest
    rw [advanceToBoundary, advanceToBoundary]
    split_ifs
    · rfl
    · exact advanceToBoundary_fuel (by omega) (by omega)

/-- **ASCII is stepped over one by one** as it is at once. -/
theorem advanceToBoundary_ascii : ∀ {ascii fuel ahead : ℕ} {rest : List UInt8} {codePoints : ℤ},
    ascii ≤ rest.length → (∀ b ∈ rest.take ascii, b < 0x80) → ascii + ahead ≤ fuel →
      advanceToBoundary fuel rest (ascii + ahead) codePoints
        = advanceToBoundary fuel (rest.drop ascii) ahead (codePoints + ascii)
  | 0, fuel, ahead, rest, codePoints, _, _, _ => by
    rw [Nat.zero_add, List.drop_zero, Nat.cast_zero, Int.add_zero]
  | _ + 1, _, _, [], _, hle, _, _ => absurd hle (Nat.not_succ_le_zero _)
  | _ + 1, 0, _, _ :: _, _, _, _, hfuel => absurd hfuel (by omega)
  | ascii + 1, fuel + 1, ahead, b :: bs, codePoints, hle, hall, hfuel => by
    have hb : b < 0x80 := hall b List.mem_cons_self
    have hunits : utf8Decode (b :: bs) = 1 := if_pos hb
    have hahead : ascii + 1 + ahead = (ascii + ahead) + 1 := by omega
    rw [hahead, advanceToBoundary, hunits, if_neg (by omega), Nat.add_sub_cancel, List.drop_one,
      List.tail_cons, List.drop_succ_cons,
      advanceToBoundary_ascii (Nat.le_of_succ_le_succ hle)
        (fun x hx => hall x (List.mem_cons_of_mem b hx)) (by omega),
      @advanceToBoundary_fuel _ _ (fuel + 1) _ _ (by omega) (by omega)]
    congr 1
    omega

/-- **The skips make no difference.** -/
theorem advanceToBoundaryIn_eq (build : ScanBuild) :
    ∀ {fuel ahead : ℕ} {rest : List UInt8} {codePoints : ℤ}, ahead ≤ fuel →
      advanceToBoundaryIn build fuel rest ahead codePoints
        = advanceToBoundary fuel rest ahead codePoints
  | fuel, 0, rest, codePoints, _ => by cases fuel <;> rfl
  | fuel + 1, ahead + 1, rest, codePoints, h => by
    obtain ⟨hle, hall⟩ := celAsciiPrefixBlocks_spec build (rest.take (ahead + 1))
    have hpos := utf8Decode_pos rest
    rw [advanceToBoundaryIn]
    generalize celAsciiPrefixBlocks build (rest.take (ahead + 1)) = ascii at hle hall ⊢
    rw [List.length_take, Nat.le_min] at hle
    dsimp only
    by_cases hascii : ascii ≠ 0
    · rw [List.take_take, Nat.min_eq_left hle.1] at hall
      have hsplit : ahead + 1 = ascii + (ahead + 1 - ascii) := by omega
      rw [if_pos hascii, advanceToBoundaryIn_eq build (by omega), hsplit,
        advanceToBoundary_ascii hle.2 hall (by omega), ← hsplit]
      exact advanceToBoundary_fuel (by omega) (by omega)
    · rw [if_neg hascii, advanceToBoundary, advanceToBoundaryIn_eq build (by omega)]

end CelWasm
