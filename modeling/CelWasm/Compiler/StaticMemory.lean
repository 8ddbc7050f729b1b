import CelWasm.Compiler.Ast
import CelWasm.Library.Image
import CelWasm.Runtime.MapPairs

/-!
# Compiler/StaticMemory — constants packed into rodata

`StaticMemoryBuilder` appends: every literal becomes a 24-byte frame, a string's bytes follow its
frame, and a constant list or map is written out as the header, run and index block an arena
container has. A `RawValue` is the frame as it lies in memory, addresses and all; `resolve` reads the
value behind it out of an image, the way the runtime's read-only kernels do.
-/

namespace CelWasm

/-- `kCelValueSize`. -/
def kCelValueSize : ℕ := 24

/-! ## Frames -/

/-- **A CelValue as it lies in memory**: the kinds a literal can have. -/
inductive RawValue
  | null
  | bool (b : Bool)
  | int (i : Int64)
  | uint (u : UInt64)
  | double (d : Binary64)
  | string (ptr len : ℕ)
  | bytes (ptr len : ℕ)
  | listArena (headerPtr : ℕ)
  | mapArena (headerPtr : ℕ)
  deriving DecidableEq

namespace RawValue

/-- The `CelKind` tag. -/
def kind : RawValue → ℕ
  | null => 0
  | bool _ => 1
  | int _ => 2
  | uint _ => 3
  | double _ => 4
  | string _ _ => 5
  | bytes _ _ => 6
  | listArena _ => 7
  | mapArena _ => 8

/-- The sixteen payload bytes. -/
def payload : RawValue → List UInt8
  | null => List.replicate 16 0
  | bool b => leBytes 4 b.toNat ++ List.replicate 12 0
  | int i => leBytes 8 i.toUInt64.toNat ++ List.replicate 8 0
  | uint u => leBytes 8 u.toNat ++ List.replicate 8 0
  | double d => leBytes 8 d.bits.toNat ++ List.replicate 8 0
  | string ptr len | bytes ptr len => leBytes 4 ptr ++ leBytes 4 len ++ List.replicate 8 0
  | listArena headerPtr | mapArena headerPtr => leBytes 4 headerPtr ++ List.replicate 12 0

/-- `AppendCelValue`: the frame's bytes. -/
def frame (r : RawValue) : List UInt8 := leBytes 4 r.kind ++ leBytes 4 0 ++ r.payload

/-- The number in a field of a frame. -/
def field (bytes : List UInt8) (off n : ℕ) : ℕ := leNat ((bytes.drop off).take n)

/-- A frame, by its tag. -/
def decode (bytes : List UInt8) : Option RawValue :=
  match field bytes 0 4 with
  | 0 => some .null
  | 1 => some (.bool (field bytes 8 4 != 0))
  | 2 => some (.int (UInt64.ofNat (field bytes 8 8)).toInt64)
  | 3 => some (.uint (UInt64.ofNat (field bytes 8 8)))
  | 4 => some (.double ⟨UInt64.ofNat (field bytes 8 8)⟩)
  | 5 => some (.string (field bytes 8 4) (field bytes 12 4))
  | 6 => some (.bytes (field bytes 8 4) (field bytes 12 4))
  | 7 => some (.listArena (field bytes 8 4))
  | 8 => some (.mapArena (field bytes 8 4))
  | _ => none

/-- The addresses are 32-bit ones. -/
def InRange : RawValue → Prop
  | string ptr len | bytes ptr len => ptr < 2 ^ 32 ∧ len < 2 ^ 32
  | listArena headerPtr | mapArena headerPtr => headerPtr < 2 ^ 32
  | _ => True

theorem length_frame (r : RawValue) : r.frame.length = kCelValueSize := by
  cases r <;> rfl

/-- The tag of a frame. -/
theorem field_kind (r : RawValue) : field r.frame 0 4 = r.kind := by
  have hkind : field r.frame 0 4 = leNat (leBytes 4 r.kind) := rfl
  rw [hkind, leNat_leBytes]
  cases r <;> norm_num [kind]

theorem leNat_leBytes_u32 {n : ℕ} (h : n < 2 ^ 32) : leNat (leBytes 4 n) = n :=
  leNat_leBytes (by omega)

theorem leNat_leBytes_u64 (n : UInt64) : leNat (leBytes 8 n.toNat) = n.toNat :=
  leNat_leBytes (by have := n.toNat_lt; omega)

/-- **A frame is read back.** -/
theorem decode_frame {r : RawValue} (h : r.InRange) : decode r.frame = some r := by
  rw [decode, field_kind]
  cases r with
  | null => rfl
  | bool b => cases b <;> rfl
  | int i =>
    have hword : field (int i).frame 8 8 = leNat (leBytes 8 i.toUInt64.toNat) := rfl
    simp only [kind, hword, leNat_leBytes_u64, UInt64.ofNat_toNat, Int64.toInt64_toUInt64]
  | uint u =>
    have hword : field (uint u).frame 8 8 = leNat (leBytes 8 u.toNat) := rfl
    simp only [kind, hword, leNat_leBytes_u64, UInt64.ofNat_toNat]
  | double d =>
    have hword : field (double d).frame 8 8 = leNat (leBytes 8 d.bits.toNat) := rfl
    simp only [kind, hword, leNat_leBytes_u64, UInt64.ofNat_toNat]
  | string ptr len =>
    have hptr : field (string ptr len).frame 8 4 = leNat (leBytes 4 ptr) := rfl
    have hlen : field (string ptr len).frame 12 4 = leNat (leBytes 4 len) := rfl
    simp only [kind, hptr, hlen, leNat_leBytes_u32 h.1, leNat_leBytes_u32 h.2]
  | bytes ptr len =>
    have hptr : field (bytes ptr len).frame 8 4 = leNat (leBytes 4 ptr) := rfl
    have hlen : field (bytes ptr len).frame 12 4 = leNat (leBytes 4 len) := rfl
    simp only [kind, hptr, hlen, leNat_leBytes_u32 h.1, leNat_leBytes_u32 h.2]
  | listArena headerPtr =>
    have hptr : field (listArena headerPtr).frame 8 4 = leNat (leBytes 4 headerPtr) := rfl
    simp only [kind, hptr, leNat_leBytes_u32 h]
  | mapArena headerPtr =>
    have hptr : field (mapArena headerPtr).frame 8 4 = leNat (leBytes 4 headerPtr) := rfl
    simp only [kind, hptr, leNat_leBytes_u32 h]

end RawValue

/-! ## Reading values -/

/-- `IndexSlotArrayOffset`: where the slot array of an index block starts. -/
def indexSlotArrayOffset (numSlots : ℕ) : ℕ := (ctrlTotalBytes numSlots + 3) / 4 * 4

namespace Image

/-- The frame at an address. -/
def readFrame (m : Image) (addr : ℕ) : Option RawValue :=
  (m.read addr kCelValueSize).bind RawValue.decode

/-- Frames in a row. -/
def readRun (m : Image) (addr : ℕ) : ℕ → Option (List RawValue)
  | 0 => some []
  | n + 1 => do return (← m.readFrame addr) :: (← m.readRun (addr + kCelValueSize) n)

/-- Pairs of frames in a row, key and value. -/
def readEntries (m : Image) (addr : ℕ) : ℕ → Option (List (RawValue × RawValue))
  | 0 => some []
  | n + 1 => do
    let key ← m.readFrame addr
    let value ← m.readFrame (addr + kCelValueSize)
    return (key, value) :: (← m.readEntries (addr + kCelMapEntryStride) n)

/-- The index block behind a header's `index_offset`, if there is one. -/
def readIndex (m : Image) (indexOffset count : ℕ) : Option (Option MapIndex) :=
  if indexOffset = 0 then some none
  else do
    let numSlots := celMapIndexNumSlots count
    let ctrl ← m.read indexOffset (ctrlTotalBytes numSlots)
    let slots ← m.readU32s (indexOffset + indexSlotArrayOffset numSlots) numSlots
    return some ⟨ctrl, slots⟩

/-- **The value behind a frame**, with containers followed to the given depth. -/
def resolve (m : Image) : ℕ → RawValue → Option CelValue
  | _, .null => some .null
  | _, .bool b => some (.bool b)
  | _, .int i => some (.int i)
  | _, .uint u => some (.uint u)
  | _, .double d => some (.double d)
  | _, .string ptr len => (m.read ptr len).map .string
  | _, .bytes ptr len => (m.read ptr len).map .bytes
  | 0, .listArena _ | 0, .mapArena _ => none
  | depth + 1, .listArena header => do
    let count ← m.readU32 header
    let capacity ← m.readU32 (header + 4)
    let elementsOffset ← m.readU32 (header + 8)
    let elements ← (← m.readRun elementsOffset count).mapM (m.resolve depth)
    return .listArena capacity elements
  | depth + 1, .mapArena header => do
    let count ← m.readU32 header
    let capacity ← m.readU32 (header + 4)
    let entriesOffset ← m.readU32 (header + 8)
    let indexOffset ← m.readU32 (header + 12)
    let entries ← (← m.readEntries entriesOffset count).mapM fun e =>
      do return (← m.resolve depth e.1, ← m.resolve depth e.2)
    return .mapArena capacity entries (← m.readIndex indexOffset count)

end Image

/-! ## The builder -/

/-- `StaticMemoryBuilder`: the rodata so far, at its base address. -/
abbrev StaticMemoryBuilder := Image

namespace StaticMemoryBuilder

variable (b : StaticMemoryBuilder)

/-- `PadTo`: the zeros that bring a size up to a multiple of eight. -/
def padTo (size : ℕ) : List UInt8 := List.replicate ((8 - size % 8) % 8) 0

/-- `AllocateSpan`: a frame and the bytes it points at, behind it. -/
def allocateSpan (tag : ℕ → ℕ → RawValue) (bytes : List UInt8) : RawValue × StaticMemoryBuilder :=
  let r := tag (b.next + kCelValueSize) bytes.length
  (r, b.append (r.frame ++ (bytes ++ padTo (b.bytes.length + kCelValueSize + bytes.length))))

/-- `ConstToCelValue`: a string or bytes literal is allocated, any other is in the frame. -/
def constToCelValue (c : Constant) : RawValue × StaticMemoryBuilder :=
  match c with
  | .null => (.null, b)
  | .bool v => (.bool v, b)
  | .int v => (.int v, b)
  | .uint v => (.uint v, b)
  | .double v => (.double v, b)
  | .string s => b.allocateSpan .string s
  | .bytes s => b.allocateSpan .bytes s

/-- `MaterializedAggregate`, and `MaterializedMap` but for its `index_offset`, which nothing reads. -/
structure MaterializedAggregate where
  frameOffset : ℕ
  /-- Where the run of elements or entries starts; zero if it is empty. -/
  runOffset : ℕ
  frame : RawValue

/-- `ArenaListHeader` and `ArenaMapHeader`: count, capacity, where the run starts, and a word that is
padding in the one and `index_offset` in the other. -/
def arenaHeader (n runOffset last : ℕ) : List UInt8 :=
  leBytes 4 n ++ (leBytes 4 n ++ (leBytes 4 runOffset ++ leBytes 4 last))

/-- **`MaterializeList`**: header, run and frame. -/
def materializeList (elements : List RawValue) : MaterializedAggregate × StaticMemoryBuilder :=
  let n := elements.length
  let runOffset := if n = 0 then 0 else b.next + 16
  let frame := RawValue.listArena b.next
  let block := arenaHeader n runOffset 0 ++ elements.flatMap RawValue.frame
  (⟨b.next + block.length, runOffset, frame⟩, b.append (block ++ frame.frame))

/-! ### The hash index -/

/-- `PlaceBakedEntry`. -/
def placeBakedEntry (staged : List CelValue) (numSlots : ℕ) (index : MapIndex) (i : ℕ) :
    Option (Option MapIndex) :=
  let key := staged.getD i .null
  match probe staged index numSlots key with
  | none => none
  | some (.hit _) => some none
  | some (.vacant slot) => some (some (index.fill numSlots slot (celH2 (celMapKeyHash key)) i))

/-- The loop of `BakeIndexBlock`, from entry `i` on; `some none` is its duplicate key. -/
def bakeEntries (staged : List CelValue) (numSlots : ℕ) :
    ℕ → ℕ → MapIndex → Option (Option MapIndex)
  | _, 0, index => some (some index)
  | i, rest + 1, index =>
    match placeBakedEntry staged numSlots index i with
    | some (some index) => bakeEntries staged numSlots (i + 1) rest index
    | r => r

/-- `BakeIndexBlock`. -/
def bakeIndexBlock (staged : List CelValue) (numSlots : ℕ) : Option (Option MapIndex) :=
  bakeEntries staged numSlots 0 staged.length (MapIndex.empty numSlots)

/-- What the staging arena gives up for a key. -/
def stagedBytes : RawValue → ℕ
  | .string _ len | .bytes _ len => (if len = 0 then 0 else (len + 7) / 8 * 8) + kCelValueSize
  | _ => 0

/-- `CELWASM_ARENA_CAPACITY_BYTES`. -/
def arenaCapacityBytes : ℕ := 64 * 1024

/-- `StagePlacementKey`: the key the hash and equality kernels get. They do not look behind a
container's frame. -/
def stagePlacementKey (key : RawValue) : Option CelValue :=
  match key with
  | .listArena _ => some (.listArena 0 [])
  | .mapArena _ => some (.mapArena 0 [] none)
  | key => b.resolve 0 key

/-- The keys staged in order, unless the arena at compile time has no room for them. -/
def stageKeys (keys : List RawValue) : Option (List CelValue) :=
  if (keys.map stagedBytes).sum ≤ arenaCapacityBytes then keys.mapM b.stagePlacementKey else none

/-- **`StageAndDecideIndex`**: `none` when the map is not to be materialized, otherwise the index, if
it is to have one. -/
def stageAndDecideIndex (entries : List (RawValue × RawValue)) : Option (Option MapIndex) :=
  let n := entries.length
  if n ≤ 1 then some none
  else
    match b.stageKeys (entries.map Prod.fst) with
    | none => none
    | some staged =>
      if kCelMapIndexThreshold ≤ n then
        match bakeIndexBlock staged (celMapIndexNumSlots n) with
        | some (some index) => some (some index)
        | _ => none
      else if staged.Pairwise fun a b => celMapKeyEq a b = false then some none
      else none

/-- The index block in bytes. -/
def indexBlock (numSlots : ℕ) (index : MapIndex) : List UInt8 :=
  index.ctrl ++ (List.replicate (indexSlotArrayOffset numSlots - ctrlTotalBytes numSlots) 0
    ++ index.slots.flatMap (leBytes 4))

/-- The index block, if any, as `AppendBakedIndex` leaves it. -/
def bakedIndexBlock (n : ℕ) : Option MapIndex → List UInt8
  | none => []
  | some index =>
    let block := indexBlock (celMapIndexNumSlots n) index
    block ++ padTo block.length

/-- The bytes of an entry run. -/
def entriesBytes (entries : List (RawValue × RawValue)) : List UInt8 :=
  entries.flatMap fun e => e.1.frame ++ e.2.frame

/-- `MaterializeMap` once its index is decided: header, run, index block and frame.
`AppendBakedIndex` patches the header with an address that is known here when the header is
written. -/
def writeMap (entries : List (RawValue × RawValue)) (index : Option MapIndex) :
    MaterializedAggregate × StaticMemoryBuilder :=
  let n := entries.length
  let runOffset := if n = 0 then 0 else b.next + 16
  let indexOffset := if index.isSome then b.next + 16 + n * kCelMapEntryStride else 0
  let frame := RawValue.mapArena b.next
  let block := arenaHeader n runOffset indexOffset
    ++ (entriesBytes entries ++ bakedIndexBlock n index)
  (⟨b.next + block.length, runOffset, frame⟩, b.append (block ++ frame.frame))

/-- **`MaterializeMap`**. -/
def materializeMap (entries : List (RawValue × RawValue)) :
    Option (MaterializedAggregate × StaticMemoryBuilder) :=
  (b.stageAndDecideIndex entries).map (b.writeMap entries)

end StaticMemoryBuilder

/-! ## What is written is read back -/

open StaticMemoryBuilder (entriesBytes)

namespace Image

variable {m : Image} {addr : ℕ}

theorem At.readFrame {r : RawValue} (h : m.At addr r.frame) (hr : r.InRange) :
    m.readFrame addr = some r := by
  have hread := h.read
  rw [r.length_frame] at hread
  rw [Image.readFrame, hread, Option.bind_some, RawValue.decode_frame hr]

theorem At.readRun : ∀ {rs : List RawValue} {addr : ℕ}, m.At addr (rs.flatMap RawValue.frame) →
    (∀ r ∈ rs, r.InRange) → m.readRun addr rs.length = some rs
  | [], _, _, _ => rfl
  | r :: rs, addr, h, hrs => by
    rw [List.flatMap_cons] at h
    have htail := h.right
    rw [r.length_frame] at htail
    rw [List.length_cons, Image.readRun, h.left.readFrame (hrs r List.mem_cons_self),
      htail.readRun fun r' hr' => hrs r' (List.mem_cons_of_mem r hr')]
    rfl

theorem At.readEntries : ∀ {es : List (RawValue × RawValue)} {addr : ℕ},
    m.At addr (entriesBytes es) → (∀ e ∈ es, e.1.InRange ∧ e.2.InRange) →
      m.readEntries addr es.length = some es
  | [], _, _, _ => rfl
  | e :: es, addr, h, hes => by
    rw [entriesBytes, List.flatMap_cons] at h
    have hvalue := h.left.right
    rw [e.1.length_frame] at hvalue
    have htail := h.right
    rw [List.length_append, e.1.length_frame, e.2.length_frame] at htail
    obtain ⟨hkeyRange, hvalueRange⟩ := hes e List.mem_cons_self
    rw [List.length_cons, Image.readEntries, h.left.left.readFrame hkeyRange,
      hvalue.readFrame hvalueRange]
    have hrest : m.readEntries (addr + kCelMapEntryStride) es.length = some es :=
      htail.readEntries fun e' he' => hes e' (List.mem_cons_of_mem e he')
    simp only [hrest]
    rfl

end Image

/-- **The image carries a value behind a frame**, now and after anything is appended. -/
structure Carries (m : Image) (r : RawValue) (v : CelValue) : Prop where
  inRange : r.InRange
  resolves : ∃ d, ∀ depth ≥ d, ∀ more, (m.append more).resolve depth r = some v

/-- **A frame stands at an address**, now and after anything is appended. -/
def FrameAt (m : Image) (addr : ℕ) (r : RawValue) : Prop :=
  ∀ more, (m.append more).readFrame addr = some r

/-- Frames stand in a row. -/
def RunAt (m : Image) : ℕ → List RawValue → Prop
  | _, [] => True
  | addr, r :: rs => FrameAt m addr r ∧ RunAt m (addr + kCelValueSize) rs

/-- Pairs of frames stand in a row. -/
def EntriesAt (m : Image) : ℕ → List (RawValue × RawValue) → Prop
  | _, [] => True
  | addr, e :: es => FrameAt m addr e.1 ∧ FrameAt m (addr + kCelValueSize) e.2 ∧
      EntriesAt m (addr + kCelMapEntryStride) es

section Carries

variable {m : Image} {r : RawValue} {v : CelValue} {addr : ℕ}

theorem Carries.append (h : Carries m r v) (block : List UInt8) : Carries (m.append block) r v := by
  obtain ⟨hr, d, hd⟩ := h
  exact ⟨hr, d, fun depth hdepth more => by rw [Image.append_append]; exact hd depth hdepth _⟩

theorem FrameAt.append (h : FrameAt m addr r) (block : List UInt8) :
    FrameAt (m.append block) addr r :=
  fun more => by rw [Image.append_append]; exact h _

/-- No value besides it. -/
theorem Carries.unique {v' : CelValue} (h : Carries m r v) (h' : Carries m r v') : v = v' := by
  obtain ⟨-, d, hd⟩ := h
  obtain ⟨-, d', hd'⟩ := h'
  have hv := hd (max d d') (le_max_left _ _) []
  rw [hd' (max d d') (le_max_right _ _) []] at hv
  exact (Option.some.inj hv).symm

theorem FrameAt.unique {r' : RawValue} (h : FrameAt m addr r) (h' : FrameAt m addr r') : r = r' :=
  Option.some.inj ((h []).symm.trans (h' []))

/-- A row of carried values is read at one depth. -/
theorem resolves_run {rs : List RawValue} {vs : List CelValue} (h : List.Forall₂ (Carries m) rs vs) :
    ∃ d, ∀ depth ≥ d, ∀ more, rs.mapM ((m.append more).resolve depth) = some vs := by
  induction h with
  | nil => exact ⟨0, fun _ _ _ => rfl⟩
  | cons hr _ ih =>
    obtain ⟨-, d, hd⟩ := hr
    obtain ⟨d', hd'⟩ := ih
    refine ⟨max d d', fun depth hdepth more => ?_⟩
    rw [List.mapM_cons, hd depth (le_trans (le_max_left _ _) hdepth) more,
      hd' depth (le_trans (le_max_right _ _) hdepth) more]
    rfl

/-- The image carries both values of an entry. -/
def CarriesEntry (m : Image) (e : RawValue × RawValue) (p : CelValue × CelValue) : Prop :=
  Carries m e.1 p.1 ∧ Carries m e.2 p.2

theorem resolves_entries {es : List (RawValue × RawValue)} {ps : List (CelValue × CelValue)}
    (h : List.Forall₂ (CarriesEntry m) es ps) :
    ∃ d, ∀ depth ≥ d, ∀ more, es.mapM (fun e => do
      return (← (m.append more).resolve depth e.1, ← (m.append more).resolve depth e.2))
        = some ps := by
  induction h with
  | nil => exact ⟨0, fun _ _ _ => rfl⟩
  | cons he _ ih =>
    obtain ⟨⟨-, d₁, hd₁⟩, -, d₂, hd₂⟩ := he
    obtain ⟨d₃, hd₃⟩ := ih
    refine ⟨max d₁ (max d₂ d₃), fun depth hdepth more => ?_⟩
    rw [List.mapM_cons, hd₁ depth (by omega) more, hd₂ depth (by omega) more,
      hd₃ depth (by omega) more]
    rfl

end Carries

/-! ## What the builder carries -/

namespace StaticMemoryBuilder

variable {b : StaticMemoryBuilder}

/-- A span's bytes stand behind its frame. -/
theorem carries_allocateSpan {tag : ℕ → ℕ → RawValue} {value : List UInt8 → CelValue}
    (hrange : ∀ ptr len, ptr < 2 ^ 32 → len < 2 ^ 32 → (tag ptr len).InRange)
    (hresolve : ∀ (m : Image) depth ptr len,
      m.resolve depth (tag ptr len) = (m.read ptr len).map value) (bytes : List UInt8)
    (hfits : (b.allocateSpan tag bytes).2.next < 2 ^ 32) :
    Carries (b.allocateSpan tag bytes).2 (b.allocateSpan tag bytes).1 (value bytes) := by
  rw [allocateSpan, Image.next_append, List.length_append, List.length_append,
    RawValue.length_frame] at hfits
  refine ⟨hrange _ _ (by omega) (by omega), 0, fun depth _ more => ?_⟩
  have hat : ((b.allocateSpan tag bytes).2.append more).At (b.next + kCelValueSize) bytes := by
    have hbehind := (b.at_next ((tag (b.next + kCelValueSize) bytes.length).frame ++ (bytes
      ++ padTo (b.bytes.length + kCelValueSize + bytes.length))) more).right.left
    rwa [RawValue.length_frame] at hbehind
  rw [allocateSpan, hresolve]
  exact congrArg _ hat.read

/-- **A literal's value is carried.** -/
theorem carries_constToCelValue (c : Constant) (hfits : (b.constToCelValue c).2.next < 2 ^ 32) :
    Carries (b.constToCelValue c).2 (b.constToCelValue c).1 c.value := by
  cases c with
  | string s =>
    exact carries_allocateSpan (fun _ _ => And.intro) (fun _ _ _ _ => by rw [Image.resolve]) s hfits
  | bytes s =>
    exact carries_allocateSpan (fun _ _ => And.intro) (fun _ _ _ _ => by rw [Image.resolve]) s hfits
  | _ => exact ⟨trivial, 0, fun _ _ _ => by simp only [constToCelValue, Image.resolve]; rfl⟩

theorem constToCelValue_append (c : Constant) :
    ∃ block, (b.constToCelValue c).2 = b.append block := by
  cases c with
  | string s => exact ⟨_, rfl⟩
  | bytes s => exact ⟨_, rfl⟩
  | _ => exact ⟨[], b.append_nil.symm⟩

theorem length_flatMap_frame (rs : List RawValue) :
    (rs.flatMap RawValue.frame).length = rs.length * kCelValueSize := by
  induction rs with
  | nil => rfl
  | cons r rs ih =>
    rw [List.flatMap_cons, List.length_append, r.length_frame, ih, List.length_cons, Nat.succ_mul,
      Nat.add_comm]

theorem length_entriesBytes (es : List (RawValue × RawValue)) :
    (entriesBytes es).length = es.length * kCelMapEntryStride := by
  induction es with
  | nil => rfl
  | cons e es ih =>
    rw [entriesBytes, List.flatMap_cons, List.length_append, List.length_append,
      e.1.length_frame, e.2.length_frame, ← entriesBytes, ih, List.length_cons, Nat.succ_mul,
      Nat.add_comm]
    rfl

theorem length_arenaHeader (n runOffset last : ℕ) : (arenaHeader n runOffset last).length = 16 := by
  simp only [arenaHeader, List.length_append, length_leBytes]

/-- The header of an arena container is read back, and the run stands behind it. -/
theorem readHeader {m : Image} {addr n runOffset last : ℕ} {rest : List UInt8}
    (h : m.At addr (arenaHeader n runOffset last ++ rest)) (hn : n < 2 ^ 32)
    (hrun : runOffset < 2 ^ 32) (hlast : last < 2 ^ 32) :
    m.readU32 addr = some n ∧ m.readU32 (addr + 4) = some n ∧
      m.readU32 (addr + 8) = some runOffset ∧ m.readU32 (addr + 12) = some last ∧
      m.At (addr + 16) rest := by
  have hrest := h.right
  rw [length_arenaHeader] at hrest
  have h0 := h.left
  rw [arenaHeader] at h0
  have h4 := h0.right
  have h8 := h4.right
  have h12 := h8.right
  simp only [length_leBytes, Nat.add_assoc, Nat.reduceAdd] at h4 h8 h12
  exact ⟨h0.left.readU32 hn, h4.left.readU32 hn, h8.left.readU32 hrun, h12.readU32 hlast, hrest⟩

theorem frameAt_last (b : StaticMemoryBuilder) (block : List UInt8) {r : RawValue} (hr : r.InRange) :
    FrameAt (b.append (block ++ r.frame)) (b.next + block.length) r :=
  fun more => (b.at_next (block ++ r.frame) more).right.readFrame hr

theorem runAt_of_at {m : Image} : ∀ {rs : List RawValue} {addr : ℕ},
    (∀ more, (m.append more).At addr (rs.flatMap RawValue.frame)) → (∀ r ∈ rs, r.InRange) →
      RunAt m addr rs
  | [], _, _, _ => trivial
  | r :: rs, addr, h, hrs => by
    refine ⟨fun more => (h more).left.readFrame (hrs r List.mem_cons_self), ?_⟩
    refine runAt_of_at (fun more => ?_) fun r' hr' => hrs r' (List.mem_cons_of_mem r hr')
    have htail := (h more).right
    rwa [r.length_frame] at htail

theorem entriesAt_of_at {m : Image} : ∀ {es : List (RawValue × RawValue)} {addr : ℕ},
    (∀ more, (m.append more).At addr (entriesBytes es)) →
      (∀ e ∈ es, e.1.InRange ∧ e.2.InRange) → EntriesAt m addr es
  | [], _, _, _ => trivial
  | e :: es, addr, h, hes => by
    obtain ⟨hkey, hvalue⟩ := hes e List.mem_cons_self
    refine ⟨fun more => (h more).left.left.readFrame hkey, fun more => ?_, ?_⟩
    · have hat := (h more).left.right
      rw [e.1.length_frame] at hat
      exact hat.readFrame hvalue
    · refine entriesAt_of_at (fun more => ?_) fun e' he' => hes e' (List.mem_cons_of_mem e he')
      have htail := (h more).right
      rw [List.length_append, e.1.length_frame, e.2.length_frame] at htail
      exact htail

theorem forall_inRange {m : Image} {rs : List RawValue} {vs : List CelValue}
    (h : List.Forall₂ (Carries m) rs vs) : ∀ r ∈ rs, r.InRange := by
  induction h with
  | nil => exact nofun
  | cons hr _ ih => exact List.forall_mem_cons.mpr ⟨hr.inRange, ih⟩

/-- **A materialized list carries the list of what its elements carry.** -/
theorem materializeList_spec {rs : List RawValue} {vs : List CelValue}
    (h : List.Forall₂ (Carries b) rs vs) (hfits : (b.materializeList rs).2.next < 2 ^ 32) :
    Carries (b.materializeList rs).2 (b.materializeList rs).1.frame (.listArena rs.length vs) ∧
      FrameAt (b.materializeList rs).2 (b.materializeList rs).1.frameOffset
        (b.materializeList rs).1.frame ∧
      RunAt (b.materializeList rs).2 (b.materializeList rs).1.runOffset rs ∧
      rs.length * kCelValueSize ≤ 2 ^ 32 - 8 := by
  have hsize : b.next + 16 + rs.length * kCelValueSize + kCelValueSize < 2 ^ 32 := by
    rw [materializeList, Image.next_append] at hfits
    simp only [List.length_append, length_arenaHeader, RawValue.length_frame, length_flatMap_frame]
      at hfits
    omega
  have hstride : rs.length ≤ rs.length * kCelValueSize := Nat.le_mul_of_pos_right _ (by decide)
  have hrange := forall_inRange h
  have hframe : (RawValue.listArena b.next).InRange := show b.next < 2 ^ 32 by omega
  have hat : ∀ more, ((b.materializeList rs).2.append more).At b.next
      (arenaHeader rs.length (if rs.length = 0 then 0 else b.next + 16) 0
        ++ rs.flatMap RawValue.frame) := fun more => (b.at_next _ more).left
  have hheader := fun more => readHeader (hat more) (show rs.length < 2 ^ 32 by omega)
    (show (if rs.length = 0 then 0 else b.next + 16) < 2 ^ 32 by split_ifs <;> omega) (by decide)
  refine ⟨⟨hframe, ?_⟩, frameAt_last b _ hframe, ?_, by omega⟩
  · have h' : List.Forall₂ (Carries (b.materializeList rs).2) rs vs :=
      h.imp fun _ _ hr => hr.append _
    obtain ⟨d, hd⟩ := resolves_run h'
    refine ⟨d + 1, fun depth hdepth more => ?_⟩
    obtain ⟨depth, rfl⟩ : ∃ k, depth = k + 1 := ⟨depth - 1, by omega⟩
    obtain ⟨hcount, hcapacity, hoffset, -, hrun⟩ := hheader more
    change Image.resolve _ (depth + 1) (.listArena b.next) = _
    rw [Image.resolve, hcount, hcapacity, hoffset]
    have hread : ((b.materializeList rs).2.append more).readRun
        (if rs.length = 0 then 0 else b.next + 16) rs.length = some rs := by
      cases rs with
      | nil => rfl
      | cons r rs => exact hrun.readRun hrange
    have helements := hd depth (by omega) more
    simp only [Option.bind_eq_bind, Option.bind_some, hread, helements]
    rfl
  · cases rs with
    | nil => trivial
    | cons r rs => exact runAt_of_at (fun more => (hheader more).2.2.2.2) hrange

/-! ### The baked index is the index the runtime builds -/

theorem placeBakedEntry_eq (staged : List CelValue) (numSlots : ℕ) (index : MapIndex) (i : ℕ) :
    placeBakedEntry staged numSlots index i = indexPlaceEntry staged index numSlots i := by
  rw [placeBakedEntry, indexPlaceEntry, indexMapEntryKey]
  cases probe staged index numSlots (staged.getD i .null) with
  | none => rfl
  | some r => cases r <;> rfl

/-- A placement loop that has stopped stays stopped. -/
theorem indexPlaceEntries_of_stuck {keys : List CelValue} {numSlots i : ℕ}
    (h : ∀ index, indexPlaceEntries keys numSlots i ≠ some (some index)) :
    ∀ rest, indexPlaceEntries keys numSlots (i + rest) = indexPlaceEntries keys numSlots i
  | 0 => rfl
  | rest + 1 => by
    rw [← Nat.add_assoc, indexPlaceEntries, indexPlaceEntries_of_stuck h rest]
    cases hplaced : indexPlaceEntries keys numSlots i with
    | none => rfl
    | some r =>
      cases r with
      | none => rfl
      | some index => exact absurd hplaced (h index)

theorem bakeEntries_eq {staged : List CelValue} {numSlots : ℕ} : ∀ (rest i : ℕ) (index : MapIndex),
    indexPlaceEntries staged numSlots i = some (some index) →
      bakeEntries staged numSlots i rest index = indexPlaceEntries staged numSlots (i + rest)
  | 0, i, index, h => h.symm
  | rest + 1, i, index, h => by
    have hnext : indexPlaceEntries staged numSlots (i + 1)
        = indexPlaceEntry staged index numSlots i := by rw [indexPlaceEntries, h]
    rw [bakeEntries, placeBakedEntry_eq, ← hnext, show i + (rest + 1) = i + 1 + rest by omega]
    by_cases hplaced : ∃ index', indexPlaceEntries staged numSlots (i + 1) = some (some index')
    · obtain ⟨index', hplaced⟩ := hplaced
      rw [hplaced]
      exact bakeEntries_eq rest (i + 1) index' hplaced
    · have hstuck : ∀ index', indexPlaceEntries staged numSlots (i + 1) ≠ some (some index') :=
        fun index' h => hplaced ⟨index', h⟩
      rw [indexPlaceEntries_of_stuck hstuck]
      split
      · next index' h => exact absurd h (hstuck index')
      · rfl

/-- **Baking is placing**: the two loops are the same loop. -/
theorem bakeIndexBlock_eq (staged : List CelValue) (numSlots : ℕ) :
    bakeIndexBlock staged numSlots = indexPlaceEntries staged numSlots staged.length := by
  rw [bakeIndexBlock, bakeEntries_eq staged.length 0 _ rfl, Nat.zero_add]

theorem mem_slots_of_indexPlaceEntries {keys : List CelValue} {numSlots : ℕ} :
    ∀ (i : ℕ) {index : MapIndex}, indexPlaceEntries keys numSlots i = some (some index) →
      ∀ s ∈ index.slots, s ≤ i
  | 0, index, h, s, hs => by
    obtain rfl := Option.some.inj (Option.some.inj h)
    exact (List.eq_of_mem_replicate hs).le
  | i + 1, index, h, s, hs => by
    rw [indexPlaceEntries] at h
    split at h
    · next index' hindex' =>
      rw [indexPlaceEntry] at h
      obtain ⟨r, -, hr⟩ := Option.map_eq_some_iff.mp h
      cases r with
      | hit _ => cases hr
      | vacant slot =>
        obtain rfl := Option.some.inj hr
        rcases List.mem_or_eq_of_mem_set hs with hmem | rfl
        · exact (mem_slots_of_indexPlaceEntries i hindex' s hmem).trans (Nat.le_succ i)
        · exact Nat.le_succ _
    · next hstuck => exact absurd h (hstuck index)

/-- **An index block is read back.** -/
theorem readIndex_of_at {m : Image} {addr : ℕ} {keys : List CelValue} {index : MapIndex}
    (hbuilt : indexPlaceEntries keys (celMapIndexNumSlots keys.length) keys.length
      = some (some index)) (hlength : keys.length < 2 ^ 32) (haddr : addr ≠ 0)
    (hat : m.At addr (indexBlock (celMapIndexNumSlots keys.length) index)) :
    m.readIndex addr keys.length = some (some index) := by
  obtain ⟨-, hindexes⟩ := indexes_of_indexPlaceEntries hbuilt
  have hctrl : index.ctrl.length = ctrlTotalBytes (celMapIndexNumSlots keys.length) :=
    hindexes.length_ctrl
  have hread := hat.left.read
  rw [hctrl] at hread
  have hslots := hat.right.right
  rw [hctrl, List.length_replicate] at hslots
  have hpad : addr + ctrlTotalBytes (celMapIndexNumSlots keys.length)
      + (indexSlotArrayOffset (celMapIndexNumSlots keys.length)
        - ctrlTotalBytes (celMapIndexNumSlots keys.length))
      = addr + indexSlotArrayOffset (celMapIndexNumSlots keys.length) := by
    rw [indexSlotArrayOffset]
    omega
  rw [hpad] at hslots
  have hread' := hslots.readU32s fun s hs =>
    (mem_slots_of_indexPlaceEntries keys.length hbuilt s hs).trans_lt hlength
  rw [hindexes.length_slots] at hread'
  rw [Image.readIndex, if_neg haddr]
  simp only [hread, hread', Option.bind_eq_bind, Option.bind_some]
  rfl

/-! ### Staging -/

theorem forall₂_of_mapM {β γ : Type} {f : β → Option γ} : ∀ {l : List β} {r : List γ},
    l.mapM f = some r → List.Forall₂ (fun a c => f a = some c) l r
  | [], r, h => by
    obtain rfl := Option.some.inj h
    exact .nil
  | a :: l, r, h => by
    rw [List.mapM_cons] at h
    obtain ⟨c, hc, h⟩ := Option.bind_eq_some_iff.mp h
    obtain ⟨cs, hcs, h⟩ := Option.bind_eq_some_iff.mp h
    obtain rfl := Option.some.inj h
    exact .cons hc (forall₂_of_mapM hcs)

/-- A key of a kind that is allowed is staged as what it is. -/
theorem stagePlacementKey_of_carries {r : RawValue} {v : CelValue} (h : Carries b r v)
    (hvalid : isValidMapKeyKind v = true) : b.stagePlacementKey r = some v := by
  obtain ⟨-, d, hd⟩ := h
  have hresolve := hd (d + 1) (Nat.le_succ d) []
  rw [Image.append_nil] at hresolve
  cases r with
  | listArena header =>
    rw [Image.resolve] at hresolve
    simp only [Option.bind_eq_bind, Option.bind_eq_some_iff, Option.pure_def, Option.some.injEq]
      at hresolve
    obtain ⟨_, -, _, -, _, -, _, -, _, -, rfl⟩ := hresolve
    exact nomatch hvalid
  | mapArena header =>
    rw [Image.resolve] at hresolve
    simp only [Option.bind_eq_bind, Option.bind_eq_some_iff, Option.pure_def, Option.some.injEq]
      at hresolve
    obtain ⟨_, -, _, -, _, -, _, -, _, -, _, -, _, -, rfl⟩ := hresolve
    exact nomatch hvalid
  | _ =>
    rw [stagePlacementKey]
    · rw [Image.resolve] at hresolve ⊢
      exact hresolve
    all_goals nofun

/-- **What the index of a materialized map was decided on**: keys that agree with the carried ones
wherever those are allowed, no two of them equal, and the index the runtime builds over them. -/
structure Staged (staged : List CelValue) (ps : List (CelValue × CelValue))
    (index : Option MapIndex) : Prop where
  keys : List.Forall₂ (fun s p => isValidMapKeyKind p.1 = true → s = p.1) staged ps
  distinct : staged.Pairwise fun a b => celMapKeyEq a b = false
  index : IndexOf staged index

theorem staged_keys {es : List (RawValue × RawValue)} {ps : List (CelValue × CelValue)}
    {staged : List CelValue} (h : List.Forall₂ (CarriesEntry b) es ps)
    (hstage : b.stageKeys (es.map Prod.fst) = some staged) :
    List.Forall₂ (fun s p => isValidMapKeyKind p.1 = true → s = p.1) staged ps ∧
      staged.length = es.length := by
  rw [stageKeys] at hstage
  split_ifs at hstage with hroom
  have hmap := forall₂_of_mapM hstage
  rw [List.forall₂_map_left_iff] at hmap
  refine ⟨?_, hmap.length_eq.symm⟩
  clear hstage hroom
  induction h generalizing staged with
  | nil => cases hmap; exact .nil
  | cons he _ ih =>
    cases hmap with
    | cons hs hrest =>
      refine .cons (fun hvalid => ?_) (ih hrest)
      rw [stagePlacementKey_of_carries he.1 hvalid] at hs
      exact (Option.some.inj hs).symm

theorem pairwise_of_distinctKeys {keys : List CelValue} (h : DistinctKeys keys keys.length) :
    keys.Pairwise fun a b => celMapKeyEq a b = false :=
  List.pairwise_iff_getElem.mpr fun i j hi hj hij => by
    have := h i j hij hj
    rwa [indexMapEntryKey_eq_getElem hi, indexMapEntryKey_eq_getElem hj] at this

theorem staged_of_decide {es : List (RawValue × RawValue)} {ps : List (CelValue × CelValue)}
    {index : Option MapIndex} (h : List.Forall₂ (CarriesEntry b) es ps)
    (hdecide : b.stageAndDecideIndex es = some index) : ∃ staged, Staged staged ps index := by
  have hlength := h.length_eq
  rw [stageAndDecideIndex] at hdecide
  rcases Nat.lt_or_ge 1 es.length with hmany | hfew
  · rw [if_neg (not_le.mpr hmany)] at hdecide
    cases hstage : b.stageKeys (es.map Prod.fst) with
    | none => rw [hstage] at hdecide; exact nomatch hdecide
    | some staged =>
      rw [hstage] at hdecide
      obtain ⟨hkeys, hstaged⟩ := staged_keys h hstage
      rw [← hstaged] at hdecide
      refine ⟨staged, ?_⟩
      by_cases hlarge : kCelMapIndexThreshold ≤ staged.length
      · simp only [if_pos hlarge, bakeIndexBlock_eq] at hdecide
        split at hdecide
        · next built hbuilt =>
          obtain rfl := Option.some.inj hdecide
          exact ⟨hkeys, pairwise_of_distinctKeys (indexes_of_indexPlaceEntries hbuilt).1,
            fun hsmall => absurd hlarge (not_le.mpr hsmall), fun _ => ⟨built, rfl, hbuilt⟩⟩
        · exact nomatch hdecide
      · simp only [if_neg hlarge] at hdecide
        split_ifs at hdecide with hpairwise
        obtain rfl := Option.some.inj hdecide
        exact ⟨hkeys, hpairwise, fun _ => rfl, fun h => absurd h hlarge⟩
  · rw [if_pos hfew] at hdecide
    obtain rfl := Option.some.inj hdecide
    refine ⟨ps.map Prod.fst, ?_, ?_, fun _ => rfl, fun hlarge => ?_⟩
    · rw [List.forall₂_map_left_iff]
      exact List.forall₂_same.mpr fun _ _ _ => rfl
    · match ps, hlength with
      | [], _ => exact .nil
      | [p], _ => exact List.pairwise_singleton _ _
      | _ :: _ :: _, hlength => simp [hlength] at hfew
    · rw [List.length_map, ← hlength] at hlarge
      exact absurd (hlarge.trans hfew) (by decide)

theorem forall_inRange_entries {m : Image} {es : List (RawValue × RawValue)}
    {ps : List (CelValue × CelValue)} (h : List.Forall₂ (CarriesEntry m) es ps) :
    ∀ e ∈ es, e.1.InRange ∧ e.2.InRange := by
  induction h with
  | nil => exact nofun
  | cons he _ ih => exact List.forall_mem_cons.mpr ⟨⟨he.1.inRange, he.2.inRange⟩, ih⟩

/-- The index block behind an entry run is read back. -/
theorem readIndex_baked {m : Image} {addr n : ℕ} {staged : List CelValue}
    {ps : List (CelValue × CelValue)} {index : Option MapIndex} (hstaged : Staged staged ps index)
    (hlength : staged.length = n) (hn : n < 2 ^ 32) (haddr : addr ≠ 0)
    (hat : m.At addr (bakedIndexBlock n index)) :
    m.readIndex (if index.isSome then addr else 0) n = some index := by
  subst hlength
  rcases Nat.lt_or_ge staged.length kCelMapIndexThreshold with hsmall | hlarge
  · rw [hstaged.index.1 hsmall]
    rfl
  · obtain ⟨built, rfl, hbuilt⟩ := hstaged.index.2 hlarge
    exact readIndex_of_at hbuilt hn haddr hat.left

/-- **A written map carries the map of what its entries carry**, with its index. -/
theorem writeMap_spec {es : List (RawValue × RawValue)} {ps : List (CelValue × CelValue)}
    {staged : List CelValue} {index : Option MapIndex} (h : List.Forall₂ (CarriesEntry b) es ps)
    (hstaged : Staged staged ps index) (hfits : (b.writeMap es index).2.next < 2 ^ 32) :
    Carries (b.writeMap es index).2 (b.writeMap es index).1.frame (.mapArena es.length ps index) ∧
      FrameAt (b.writeMap es index).2 (b.writeMap es index).1.frameOffset
        (b.writeMap es index).1.frame ∧
      EntriesAt (b.writeMap es index).2 (b.writeMap es index).1.runOffset es ∧
      es.length * kCelMapEntryStride ≤ 2 ^ 32 - 8 := by
  have hsize : b.next + 16 + es.length * kCelMapEntryStride + (bakedIndexBlock es.length index).length
      + kCelValueSize < 2 ^ 32 := by
    rw [writeMap, Image.next_append] at hfits
    simp only [List.length_append, length_arenaHeader, RawValue.length_frame,
      length_entriesBytes] at hfits
    omega
  have hstride : es.length ≤ es.length * kCelMapEntryStride := Nat.le_mul_of_pos_right _ (by decide)
  have hrange := forall_inRange_entries h
  have hframe : (RawValue.mapArena b.next).InRange := show b.next < 2 ^ 32 by omega
  have hat : ∀ more, ((b.writeMap es index).2.append more).At b.next (arenaHeader es.length
      (if es.length = 0 then 0 else b.next + 16)
      (if index.isSome then b.next + 16 + es.length * kCelMapEntryStride else 0)
        ++ (entriesBytes es ++ bakedIndexBlock es.length index)) :=
    fun more => (b.at_next _ more).left
  have hheader := fun more => readHeader (hat more) (show es.length < 2 ^ 32 by omega)
    (by split_ifs <;> omega) (by split_ifs <;> omega)
  refine ⟨⟨hframe, ?_⟩, frameAt_last b _ hframe, ?_, by omega⟩
  · have h' : List.Forall₂ (CarriesEntry (b.writeMap es index).2) es ps :=
      h.imp fun _ _ he => ⟨he.1.append _, he.2.append _⟩
    obtain ⟨d, hd⟩ := resolves_entries h'
    refine ⟨d + 1, fun depth hdepth more => ?_⟩
    obtain ⟨depth, rfl⟩ : ∃ k, depth = k + 1 := ⟨depth - 1, by omega⟩
    obtain ⟨hcount, hcapacity, hoffset, hindex, hrun⟩ := hheader more
    have hread : ((b.writeMap es index).2.append more).readEntries
        (if es.length = 0 then 0 else b.next + 16) es.length = some es := by
      cases es with
      | nil => rfl
      | cons e es => exact hrun.left.readEntries hrange
    have hblock := hrun.right
    rw [length_entriesBytes] at hblock
    have hbaked := readIndex_baked hstaged (hstaged.keys.length_eq.trans h.length_eq.symm)
      (show es.length < 2 ^ 32 by omega) (by omega) hblock
    have hentries := hd depth (by omega) more
    change Image.resolve _ (depth + 1) (.mapArena b.next) = _
    rw [Image.resolve, hcount, hcapacity, hoffset, hindex]
    simp only [Option.bind_eq_bind, Option.bind_some, hread, hbaked]
    simp only [Option.bind_eq_bind] at hentries
    rw [hentries]
    rfl
  · cases es with
    | nil => trivial
    | cons e es => exact entriesAt_of_at (fun more => (hheader more).2.2.2.2.left) hrange

end StaticMemoryBuilder

end CelWasm
