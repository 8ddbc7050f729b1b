import CelWasm.Library.OpenAddressing
import CelWasm.Library.Swar
import CelWasm.Library.TriangularProbe
import CelWasm.Runtime.MapKey

/-!
# Runtime/MapIndex — the SwissTable index over an arena map's entries

`celMapIndexBuild` places every entry of a finished map in a power-of-two table of control bytes and
entry numbers; `celMapIndexFind` probes it. Both walk the table in triangular steps, eight control
bytes at a time, and confirm each candidate with `celMapKeyEq`.

A load reads eight bytes from wherever the probe stands, so the first seven control bytes are kept
twice. The table size is a power of two, and masking a slot number is taking it modulo the size.
-/

namespace CelWasm

open OpenAddressing (Probe walk)
open TriangularProbe (groupStart)

/-- `kGroupWidth`. -/
def kGroupWidth : ℕ := 8

/-- `kEmpty`, the control byte of a free slot. -/
def kEmpty : UInt8 := 0x80

/-- `kCelMapIndexThreshold`. -/
def kCelMapIndexThreshold : ℕ := 8

/-! ## Control bytes and groups -/

/-- `cel_h1`: where the probe starts. -/
def celH1 (h : UInt64) : ℕ := (h >>> 7).toNat

/-- `cel_h2`: the control byte of a full slot. -/
def celH2 (h : UInt64) : UInt8 := (h &&& 0x7F).toUInt8

/-- `group_match`. -/
def groupMatch (ctrl : BitVec 64) (h2 : UInt8) : BitVec 64 :=
  let x := ctrl ^^^ (Swar.lsbs * BitVec.ofNat 64 h2.toNat)
  (x - Swar.lsbs) &&& ~~~x &&& Swar.msbs

/-- `group_match_empty`. -/
def groupMatchEmpty (ctrl : BitVec 64) : BitVec 64 := ctrl &&& (~~~ctrl <<< 6) &&& Swar.msbs

/-- `cel_group_load`: eight control bytes from `seq` on. -/
def celGroupLoad (ctrl : List UInt8) (seq : ℕ) : BitVec 64 :=
  Swar.word ((ctrl.drop seq).take kGroupWidth)

/-- The lanes a mask flags, lowest first: `ctz >> 3` of each set bit. -/
def lanes (mask : BitVec 64) : List ℕ := (Swar.setBits 64 mask).map (· / 8)

/-! ## Geometry -/

/-- `while (slots < needed) slots <<= 1`. -/
def doubleUntil (needed : ℕ) : ℕ → ℕ → ℕ
  | 0, slots => slots
  | fuel + 1, slots => if slots < needed then doubleUntil needed fuel (slots * 2) else slots

/-- `cel_map_index_num_slots`: the least power of two, at least eight, for a load of seven
eighths. -/
def celMapIndexNumSlots (count : ℕ) : ℕ :=
  let needed := max ((count * 8 + 6) / 7) kGroupWidth
  doubleUntil needed needed kGroupWidth

/-- `ctrl_total_bytes`. -/
def ctrlTotalBytes (numSlots : ℕ) : ℕ := numSlots + (kGroupWidth - 1)

/-- `index_block_bytes`: the control bytes, padded to four, and four bytes for each slot. -/
def indexBlockBytes (numSlots : ℕ) : ℕ := (ctrlTotalBytes numSlots + 3) / 4 * 4 + numSlots * 4

/-! ## The probe -/

/-- `index_map_entry_key`. -/
def indexMapEntryKey (keys : List CelValue) (i : ℕ) : CelValue := keys.getD i .null

/-- Look at the group of eight slots that starts at `seq`: confirm the flagged lanes in order, and
failing those report the first empty one. -/
def probeGroup (keys : List CelValue) (index : MapIndex) (numSlots : ℕ) (key : CelValue) (seq : ℕ) :
    Option (Probe ℕ) :=
  let group := celGroupLoad index.ctrl seq
  let confirmed := (lanes (groupMatch group (celH2 (celMapKeyHash key)))).findSome? fun lane =>
    let entry := index.slots.getD ((seq + lane) % numSlots) 0
    if celMapKeyEq (indexMapEntryKey keys entry) key then some (.hit entry) else none
  match confirmed with
  | some r => some r
  | none => (lanes (groupMatchEmpty group)).head?.map fun lane => .vacant ((seq + lane) % numSlots)

/-- The probe loop shared by `cel_map_index_find` and `index_place_entry`. -/
def probeLoop (keys : List CelValue) (index : MapIndex) (numSlots : ℕ) (key : CelValue) :
    ℕ → ℕ → ℕ → Option (Probe ℕ)
  | 0, _, _ => none
  | fuel + 1, seq, step =>
    match probeGroup keys index numSlots key seq with
    | some r => some r
    | none => probeLoop keys index numSlots key fuel ((seq + step) % numSlots) (step + kGroupWidth)

/-- Probe for `key`, from the slot its hash picks; `none` is a probe that is still going after as
many groups as there are slots. -/
def probe (keys : List CelValue) (index : MapIndex) (numSlots : ℕ) (key : CelValue) :
    Option (Probe ℕ) :=
  probeLoop keys index numSlots key numSlots (celH1 (celMapKeyHash key) % numSlots) kGroupWidth

/-- **`cel_map_index_find`** over the dense keys: the entry found, `some none` for the sentinel
`UINT32_MAX`, and `none` for a probe that does not end. -/
def celMapIndexFind (keys : List CelValue) (index : Option MapIndex) (key : CelValue) :
    Option (Option ℕ) :=
  match index with
  | none => some none
  | some index =>
    (probe keys index (celMapIndexNumSlots keys.length) key).map fun
      | .hit entry => some entry
      | .vacant _ => none

/-! ## Building -/

/-- Write entry `i` into a free slot, and the control byte's copy if it has one. -/
def MapIndex.fill (index : MapIndex) (numSlots slot : ℕ) (h2 : UInt8) (i : ℕ) : MapIndex where
  ctrl :=
    let ctrl := index.ctrl.set slot h2
    if slot < kGroupWidth - 1 then ctrl.set (slot + numSlots) h2 else ctrl
  slots := index.slots.set slot i

/-- `index_place_entry`: `some none` when the key is already there. -/
def indexPlaceEntry (keys : List CelValue) (index : MapIndex) (numSlots i : ℕ) :
    Option (Option MapIndex) :=
  let key := indexMapEntryKey keys i
  (probe keys index numSlots key).map fun
    | .hit _ => none
    | .vacant slot => some (index.fill numSlots slot (celH2 (celMapKeyHash key)) i)

/-- The index block before any entry is placed. -/
def MapIndex.empty (numSlots : ℕ) : MapIndex where
  ctrl := List.replicate (ctrlTotalBytes numSlots) kEmpty
  slots := List.replicate numSlots 0

/-- The placement loop of `cel_map_index_build`, after its first `i` entries. -/
def indexPlaceEntries (keys : List CelValue) (numSlots : ℕ) : ℕ → Option (Option MapIndex)
  | 0 => some (some (MapIndex.empty numSlots))
  | i + 1 =>
    match indexPlaceEntries keys numSlots i with
    | some (some index) => indexPlaceEntry keys index numSlots i
    | r => r

/-- What the placement loop's outcome makes of the map: a repeated key poisons it, and the index is
published last. -/
def publishIndex (capacity : ℕ) (entries : List (CelValue × CelValue)) :
    Option (Option MapIndex) → Kernel CelValue
  | none => Prog.stop .diverges
  | some none => return .error .duplicateKey
  | some (some index) => return .mapArena capacity entries (some index)

/-- **`cel_map_index_build`**, the last step of building a map. -/
def celMapIndexBuild (m : CelValue) : Kernel CelValue :=
  match m with
  | .mapArena capacity entries _ =>
    if entries.length < kCelMapIndexThreshold then return .mapArena capacity entries none
    else do
      let numSlots := celMapIndexNumSlots entries.length
      if ← Prog.alloc (indexBlockBytes numSlots) then
        publishIndex capacity entries
          (indexPlaceEntries (entries.map Prod.fst) numSlots entries.length)
      else return .mapArena capacity entries none
  | v => return v

end CelWasm
