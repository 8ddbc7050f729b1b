import CelWasm.Compiler.IdentResolver
import CelWasm.Compiler.StaticMemory
import CelWasm.Eval.Marshal
import CelWasm.Library.Alignment
import CelWasm.Library.Region

/-!
# Compiler/LayoutPass — rodata, variables and scratch below the runtime's data

    [rodata_base … rodata … | pad to 16 | variable slots | scratch slots | guard … 262144)

The pass appends the constants, gives every variable a slot behind them and draws the scratch slots
last; only then does it check that all of it fits the window below the runtime's static data. The
check is made on sizes before the padding, which is right because rodata comes in multiples of eight
and slots in multiples of thirty-two; but it is made in 32 bits, and a base near the top wraps it.
-/

namespace CelWasm

/-! ## The window -/

/-- `MemoryLayout::kReservedLowMemoryBytes`. -/
def kReservedLowMemoryBytes : UInt32 := 262144

/-- `MemoryLayout::kGuardBytes`. -/
def kGuardBytes : UInt32 := 256

/-- `MemoryLayout::kRodataBaseMin`. -/
def kRodataBaseMin : UInt32 := 16

/-- `SlotAllocator::kSlotStride`. -/
def kSlotStride : UInt32 := 32

/-- `RoundUp8`. -/
def roundUp8 (x : UInt32) : UInt32 := (x + 7) &&& ~~~7

/-- `RoundUp16`. -/
def roundUp16 (x : UInt32) : UInt32 := (x + 15) &&& ~~~15

/-- `MaxWorkspaceBytes`. -/
def maxWorkspaceBytes (rodataBase rodataSize : UInt32) : UInt32 :=
  let used := rodataBase + rodataSize + kGuardBytes
  if used ≥ kReservedLowMemoryBytes then 0 else kReservedLowMemoryBytes - used

/-! ## Rodata -/

/-- What the passes over the constants ask of the builder. -/
inductive RodataOp
  | frame (r : RawValue)
  | span (tag : ℕ → ℕ → RawValue) (bytes : List UInt8)
  | list (elements : List RawValue)
  | map (entries : List (RawValue × RawValue))

/-- The builder after one request; a map that is not to be materialized leaves it as it was. -/
def RodataOp.apply (b : StaticMemoryBuilder) : RodataOp → StaticMemoryBuilder
  | frame r => b.append r.frame
  | span tag bytes => (b.allocateSpan tag bytes).2
  | list elements => (b.materializeList elements).2
  | map entries => ((b.materializeMap entries).map Prod.snd).getD b

/-- **`PackRodata`.** -/
def packRodata (rodataBase : UInt32) (ops : List RodataOp) : List UInt8 :=
  (ops.foldl RodataOp.apply (Image.mk rodataBase.toNat [])).bytes

/-! ## Variable slots -/

/-- `LaidOutVariable`; its index is its place in the list. -/
structure LaidOutVariable where
  resolved : ResolvedVariable
  slotOffset : UInt32

/-- A comprehension's iteration variable has no slot. -/
def ResolvedVariable.hasSlot (v : ResolvedVariable) : Bool := v.kind != .comprehensionIter

/-- …and its slot, if it has one, is one of the workspace. -/
def LaidOutVariable.hasSlot (v : LaidOutVariable) : Bool := v.resolved.hasSlot

/-- The loop of `ReserveVariableSlots`. -/
def layOutVariables (workspaceBase : UInt32) :
    UInt32 → List ResolvedVariable → List LaidOutVariable × UInt32
  | slotCount, [] => ([], slotCount)
  | slotCount, v :: rest =>
    if v.hasSlot then
      let (laidOut, count) := layOutVariables workspaceBase (slotCount + 1) rest
      (⟨v, workspaceBase + slotCount * kSlotStride⟩ :: laidOut, count)
    else
      let (laidOut, count) := layOutVariables workspaceBase slotCount rest
      (⟨v, 0⟩ :: laidOut, count)

/-! ## Scratch slots -/

/-- **`SlotAllocator`**, the free list from its back. -/
structure SlotAllocator where
  baseOffset : UInt32
  debugMode : Bool
  bump : UInt32
  liveSlots : UInt32
  peakSlots : UInt32
  freeList : List UInt32

namespace SlotAllocator

/-- A new allocator. -/
def new (baseOffset : UInt32) (debugMode : Bool) : SlotAllocator where
  baseOffset := baseOffset
  debugMode := debugMode
  bump := 0
  liveSlots := 0
  peakSlots := 0
  freeList := []

/-- **`Acquire`.** -/
def acquire (s : SlotAllocator) : UInt32 × SlotAllocator :=
  if s.debugMode then
    (s.baseOffset + s.bump * kSlotStride,
      { s with bump := s.bump + 1, peakSlots := max s.peakSlots (s.bump + 1) })
  else
    match s.freeList with
    | offset :: rest => (offset, { s with freeList := rest, liveSlots := s.liveSlots + 1 })
    | [] =>
      (s.baseOffset + s.bump * kSlotStride,
        { s with
          bump := s.bump + 1
          liveSlots := s.liveSlots + 1
          peakSlots := max s.peakSlots (s.liveSlots + 1) })

/-- **`Release`**, or none where its check fails. -/
def release (s : SlotAllocator) (offset : UInt32) : Option SlotAllocator :=
  if s.debugMode then some s
  else if 1 ≤ s.liveSlots then
    some { s with liveSlots := s.liveSlots - 1, freeList := offset :: s.freeList }
  else none

/-- `total_bytes`. -/
def totalBytes (s : SlotAllocator) : UInt32 := s.peakSlots * kSlotStride

end SlotAllocator

/-- What the passes over the nodes ask of the allocator: a slot, or to take back the slot that was the
`i`-th it gave out. -/
inductive SlotOp
  | acquire
  | release (i : ℕ)

/-- The allocator and the slots given out after a run of requests. -/
def drawSlots : List SlotOp → SlotAllocator → List UInt32 → Option (SlotAllocator × List UInt32)
  | [], s, drawn => some (s, drawn)
  | .acquire :: ops, s, drawn =>
    let (offset, s) := s.acquire
    drawSlots ops s (drawn ++ [offset])
  | .release i :: ops, s, drawn =>
    match drawn[i]? with
    | none => none
    | some offset =>
      match s.release offset with
      | none => none
      | some s => drawSlots ops s drawn

/-! ## The pass -/

/-- `LayoutOptions`. -/
structure LayoutOptions where
  debugLayout : Bool
  rodataBaseOverride : UInt32

/-- What the pass finds in an expression: what it asks of the builder, the variables, and what it
asks of the allocator. -/
structure LayoutInput where
  rodata : List RodataOp
  locals : List ResolvedVariable
  slots : List SlotOp

/-- **`StaticLayout`**, as far as it is about memory, with the scratch slots that were drawn. -/
structure StaticLayout where
  rodataBase : UInt32
  rodata : List UInt8
  locals : List LaidOutVariable
  workspaceBase : UInt32
  workspaceBytes : UInt32
  arenaBase : UInt32
  peakSlots : UInt32
  scratch : List UInt32

/-- `kSlotExhaustedMessagePrefix`. -/
def kSlotExhaustedMessagePrefix : String := "expression requires too many workspace slots"

/-- **`CheckStaticWindowFits`** — the failing status, if there is one. -/
def checkStaticWindowFits (layout : StaticLayout) : Option Status :=
  let rodataSize := UInt32.ofNat layout.rodata.length
  let rodataEnd := layout.rodataBase + rodataSize
  if rodataEnd + kGuardBytes > kReservedLowMemoryBytes then
    some
      { code := .resourceExhausted
        message := kSlotExhaustedMessagePrefix ++ ": rodata at [" ++ toString layout.rodataBase
          ++ ", " ++ toString rodataEnd ++ ") plus a " ++ toString kGuardBytes
          ++ "-byte guard exceeds the window below wasi-libc's static data (which starts at "
          ++ toString kReservedLowMemoryBytes
          ++ ").  A constant aggregate or string/bytes literal set too large for the static "
          ++ "window; split the expression across multiple Compile() calls or move large "
          ++ "literals into bound variables." }
  else
    let maxWorkspace := maxWorkspaceBytes layout.rodataBase rodataSize
    if layout.workspaceBytes > maxWorkspace then
      some
        { code := .resourceExhausted
          message := kSlotExhaustedMessagePrefix ++ ": needs " ++ toString layout.workspaceBytes
            ++ " bytes of workspace, but rodata at [" ++ toString layout.rodataBase ++ ", "
            ++ toString (layout.rodataBase + rodataSize) ++ ") plus a " ++ toString kGuardBytes
            ++ "-byte guard band leaves only " ++ toString maxWorkspace
            ++ " bytes free below wasi-libc's static data (which starts at "
            ++ toString kReservedLowMemoryBytes
            ++ ").  Writing past that line would silently corrupt libc state.  Split the "
            ++ "expression across multiple Compile() calls, or move literal strings/bytes out of "
            ++ "the source into bound variables." }
    else none

/-- The base of rodata: the override, unless it is zero. -/
def LayoutOptions.rodataBase (opts : LayoutOptions) : UInt32 :=
  if opts.rodataBaseOverride ≠ 0 then opts.rodataBaseOverride else kRodataBaseMin

/-- **`LayoutPass`**, or none where a check of the allocator fails. -/
def layoutPass (input : LayoutInput) (opts : LayoutOptions) :
    Option (Except Status StaticLayout) :=
  let rodata := packRodata opts.rodataBase input.rodata
  let workspaceBase := roundUp16 (opts.rodataBase + UInt32.ofNat rodata.length)
  let (locals, slotCount) := layOutVariables workspaceBase 0 input.locals
  let variableBytes := slotCount * kSlotStride
  let selectsBase := workspaceBase + variableBytes
  if selectsBase % 16 ≠ 0 then none
  else
    match drawSlots input.slots (.new selectsBase opts.debugLayout) [] with
    | none => none
    | some (slots, scratch) =>
      let workspaceBytes := variableBytes + slots.totalBytes
      let layout : StaticLayout :=
        { rodataBase := opts.rodataBase
          rodata
          locals
          workspaceBase
          workspaceBytes
          arenaBase := roundUp8 (workspaceBase + workspaceBytes)
          peakSlots := slots.peakSlots
          scratch }
      match checkStaticWindowFits layout with
      | some status => some (.error status)
      | none => some (.ok layout)

/-! ## What a layout is for -/

/-- The bytes of rodata. -/
def StaticLayout.rodataRegion (layout : StaticLayout) : Region :=
  ⟨layout.rodataBase.toNat, layout.rodata.length⟩

/-- The slots of the variables. -/
def StaticLayout.variableSlots (layout : StaticLayout) : List UInt32 :=
  (layout.locals.filter LaidOutVariable.hasSlot).map LaidOutVariable.slotOffset

/-- The slots of the workspace: those of the variables, and the scratch slots, each once however often
it was drawn. -/
def StaticLayout.slots (layout : StaticLayout) : List UInt32 :=
  layout.variableSlots ++ layout.scratch.dedup

/-- The bytes of a slot. -/
def slotRegion (offset : UInt32) : Region := ⟨offset.toNat, kSlotStride.toNat⟩

/-- The bytes of the workspace. -/
def StaticLayout.workspaceRegion (layout : StaticLayout) : Region :=
  ⟨layout.workspaceBase.toNat, layout.workspaceBytes.toNat⟩

/-- The end of what the runtime has reserved, less the guard. -/
def windowEnd : ℕ := kReservedLowMemoryBytes.toNat - kGuardBytes.toNat

/-- **A layout neither overlaps nor overruns**: its regions are apart, the workspace is aligned, and
all of it ends with the guard to spare below the runtime's data. -/
structure StaticLayout.Sound (layout : StaticLayout) : Prop where
  apart : (layout.rodataRegion :: layout.slots.map slotRegion).Pairwise Region.Apart
  aligned : 16 ∣ layout.workspaceBase.toNat
  rodata_le : layout.rodataRegion.finish ≤ windowEnd
  workspace_le : layout.workspaceRegion.finish ≤ windowEnd
  slots_le : ∀ offset ∈ layout.slots, (slotRegion offset).finish ≤ windowEnd

/-! ## Rodata comes in multiples of eight -/

open StaticMemoryBuilder (padTo bakedIndexBlock entriesBytes)

/-- Padding brings a size to a multiple of eight. -/
theorem dvd_add_padTo (size : ℕ) : 8 ∣ size + (padTo size).length := by
  rw [padTo, List.length_replicate]
  omega

theorem dvd_length_bakedIndexBlock (n : ℕ) (index : Option MapIndex) :
    8 ∣ (bakedIndexBlock n index).length := by
  cases index with
  | none => exact Nat.dvd_zero 8
  | some index =>
    rw [bakedIndexBlock, List.length_append]
    exact dvd_add_padTo _

/-- A request leaves the cursor a multiple of eight. -/
theorem RodataOp.dvd_length_apply (op : RodataOp) {b : StaticMemoryBuilder}
    (h : 8 ∣ b.bytes.length) : 8 ∣ (op.apply b).bytes.length := by
  cases op with
  | frame r =>
    rw [apply, Image.append, List.length_append, r.length_frame]
    exact Nat.dvd_add h ⟨3, rfl⟩
  | span tag bytes =>
    change 8 ∣ (b.bytes ++ ((tag _ _).frame ++ (bytes ++ padTo _))).length
    have hpad := dvd_add_padTo (b.bytes.length + kCelValueSize + bytes.length)
    rw [List.length_append, List.length_append, List.length_append, RawValue.length_frame]
    omega
  | list elements =>
    change 8 ∣ (b.bytes ++ (_ ++ (RawValue.listArena _).frame)).length
    rw [List.length_append, List.length_append, RawValue.length_frame, List.length_append,
      StaticMemoryBuilder.length_arenaHeader, StaticMemoryBuilder.length_flatMap_frame]
    rw [kCelValueSize]
    omega
  | map entries =>
    rw [apply, StaticMemoryBuilder.materializeMap]
    rcases b.stageAndDecideIndex entries with _ | index
    · exact h
    · change 8 ∣ (b.bytes ++ (_ ++ (RawValue.mapArena _).frame)).length
      have hblock := dvd_length_bakedIndexBlock entries.length index
      rw [List.length_append, List.length_append, RawValue.length_frame, List.length_append,
        StaticMemoryBuilder.length_arenaHeader, List.length_append,
        StaticMemoryBuilder.length_entriesBytes]
      rw [kCelValueSize, kCelMapEntryStride]
      omega

/-- **The size of rodata is a multiple of eight.** -/
theorem dvd_length_packRodata (rodataBase : UInt32) (ops : List RodataOp) :
    8 ∣ (packRodata rodataBase ops).length := by
  have hrun : ∀ (ops : List RodataOp) (b : StaticMemoryBuilder), 8 ∣ b.bytes.length →
      8 ∣ (ops.foldl RodataOp.apply b).bytes.length := by
    intro ops
    induction ops with
    | nil => exact fun b h => h
    | cons op ops ih => exact fun b h => ih _ (op.dvd_length_apply h)
  exact hrun ops _ (Nat.dvd_zero 8)

/-! ## Slots are cells of one array -/

/-- The `i`-th cell behind a base. -/
def slotAt (base : UInt32) (i : ℕ) : UInt32 := base + UInt32.ofNat i * kSlotStride

theorem slotAt_slotAt (base : UInt32) (i j : ℕ) :
    slotAt (base + UInt32.ofNat i * kSlotStride) j = slotAt base (i + j) := by
  rw [slotAt, slotAt, UInt32.ofNat_add, UInt32.add_mul, UInt32.add_assoc]

/-- The variables that have slots. -/
def slotCount (locals : List ResolvedVariable) : ℕ := locals.countP ResolvedVariable.hasSlot

/-- **The variables' slots are the first cells.** -/
theorem layOutVariables_spec (base : UInt32) (locals : List ResolvedVariable) (first : ℕ) :
    (layOutVariables base (UInt32.ofNat first) locals).2
        = UInt32.ofNat (first + slotCount locals) ∧
      ((layOutVariables base (UInt32.ofNat first) locals).1.filter LaidOutVariable.hasSlot).map
          LaidOutVariable.slotOffset
        = (List.range' first (slotCount locals)).map (slotAt base) := by
  induction locals generalizing first with
  | nil => exact ⟨rfl, rfl⟩
  | cons v rest ih =>
    rw [layOutVariables]
    by_cases hslot : v.hasSlot = true
    · have hsucc : UInt32.ofNat first + 1 = UInt32.ofNat (first + 1) :=
        (UInt32.ofNat_add first 1).symm
      have hmore : slotCount (v :: rest) = slotCount rest + 1 := List.countP_cons_of_pos hslot
      obtain ⟨hcount, hslots⟩ := ih (first + 1)
      rw [if_pos hslot, hsucc, hmore]
      generalize layOutVariables base (UInt32.ofNat (first + 1)) rest = laid at hcount hslots ⊢
      refine ⟨hcount.trans (by rw [Nat.add_assoc, Nat.add_comm 1]), ?_⟩
      have hkeep : (LaidOutVariable.mk v (slotAt base first)).hasSlot = true := hslot
      change ((LaidOutVariable.mk v (slotAt base first) :: laid.1).filter _).map _ = _
      rw [List.filter_cons_of_pos hkeep, List.map_cons, hslots, List.range'_succ, List.map_cons]
    · have hsame : slotCount (v :: rest) = slotCount rest := List.countP_cons_of_neg hslot
      obtain ⟨hcount, hslots⟩ := ih first
      rw [if_neg hslot, hsame]
      generalize layOutVariables base (UInt32.ofNat first) rest = laid at hcount hslots ⊢
      have hdrop : ¬(LaidOutVariable.mk v 0).hasSlot = true := hslot
      refine ⟨hcount, ?_⟩
      change ((LaidOutVariable.mk v 0 :: laid.1).filter _).map _ = _
      rw [List.filter_cons_of_neg hdrop, hslots]

/-! ## Drawing slots, counted without a bound -/

/-- The allocator with unbounded counters, its cells by their numbers. -/
structure SlotPool where
  debugMode : Bool
  bump : ℕ
  live : ℕ
  free : List ℕ

namespace SlotPool

/-- A new pool. -/
def new (debugMode : Bool) : SlotPool := { debugMode, bump := 0, live := 0, free := [] }

/-- Take a cell. -/
def acquire (p : SlotPool) : ℕ × SlotPool :=
  if p.debugMode then (p.bump, { p with bump := p.bump + 1 })
  else
    match p.free with
    | i :: rest => (i, { p with free := rest, live := p.live + 1 })
    | [] => (p.bump, { p with bump := p.bump + 1, live := p.live + 1 })

/-- Take a cell back. -/
def release (p : SlotPool) (i : ℕ) : Option SlotPool :=
  if p.debugMode then some p
  else if 1 ≤ p.live then some { p with live := p.live - 1, free := i :: p.free }
  else none

/-- The pool and the cells given out after a run of requests. -/
def draw : List SlotOp → SlotPool → List ℕ → Option (SlotPool × List ℕ)
  | [], p, drawn => some (p, drawn)
  | .acquire :: ops, p, drawn =>
    let (i, p) := p.acquire
    draw ops p (drawn ++ [i])
  | .release i :: ops, p, drawn =>
    match drawn[i]? with
    | none => none
    | some cell =>
      match p.release cell with
      | none => none
      | some p => draw ops p drawn

end SlotPool

/-- **How many cells a run of requests needs**: the most that are held at a time, or all of them if
none is used again. -/
def cellsNeeded (debugMode : Bool) (ops : List SlotOp) : ℕ :=
  ((SlotPool.draw ops (.new debugMode) []).map (·.1.bump)).getD 0

/-- **The allocator is the pool**, its counters in 32 bits and its cells by their addresses. The peak
is the number of cells as long as that fits. -/
structure SlotPool.Shown (base : UInt32) (p : SlotPool) (cells : List ℕ) (s : SlotAllocator)
    (drawn : List UInt32) : Prop where
  baseOffset : s.baseOffset = base
  debugMode : s.debugMode = p.debugMode
  bump : s.bump = UInt32.ofNat p.bump
  live : s.liveSlots = UInt32.ofNat p.live
  free : s.freeList = p.free.map (slotAt base)
  given : drawn = cells.map (slotAt base)
  peak : p.bump < 2 ^ 32 → s.peakSlots = UInt32.ofNat p.bump
  free_lt : ∀ i ∈ p.free, i < p.bump
  count : p.debugMode = false → p.live + p.free.length = p.bump
  mem_cells : ∀ i, i ∈ cells ↔ i < p.bump

section Shown

variable {base : UInt32} {p : SlotPool} {cells : List ℕ} {s : SlotAllocator} {drawn : List UInt32}

theorem SlotPool.shown_new (base : UInt32) (debugMode : Bool) :
    (SlotPool.new debugMode).Shown base [] (.new base debugMode) [] where
  baseOffset := rfl
  debugMode := rfl
  bump := rfl
  live := rfl
  free := rfl
  given := rfl
  peak _ := rfl
  free_lt := nofun
  count _ := rfl
  mem_cells _ := ⟨nofun, nofun⟩

/-- The mark moves up with the counter. -/
theorem max_ofNat_succ {n : ℕ} (h : n + 1 < 2 ^ 32) :
    max (UInt32.ofNat n) (UInt32.ofNat n + 1) = UInt32.ofNat (n + 1) := by
  have hsucc : UInt32.ofNat n + 1 = UInt32.ofNat (n + 1) := (UInt32.ofNat_add n 1).symm
  have hle : UInt32.ofNat n ≤ UInt32.ofNat (n + 1) := by
    rw [UInt32.le_iff_toNat_le, UInt32.toNat_ofNat_of_lt' (show n < 2 ^ 32 by omega),
      UInt32.toNat_ofNat_of_lt' h]
    exact Nat.le_succ n
  rw [hsucc]
  exact if_pos hle

/-- A fresh cell is the next one. -/
theorem mem_append_bump {n : ℕ} (h : ∀ i, i ∈ cells ↔ i < n) (i : ℕ) :
    i ∈ cells ++ [n] ↔ i < n + 1 := by
  rw [List.mem_append, List.mem_singleton, h i]
  omega

/-- **Taking a slot takes a cell.** -/
theorem SlotPool.Shown.acquire (h : p.Shown base cells s drawn) :
    p.acquire.2.Shown base (cells ++ [p.acquire.1]) s.acquire.2 (drawn ++ [s.acquire.1]) := by
  have hfresh : s.baseOffset + s.bump * kSlotStride = slotAt base p.bump := by
    rw [h.baseOffset, h.bump]
    rfl
  have hsucc (n : ℕ) : UInt32.ofNat n + 1 = UInt32.ofNat (n + 1) := (UInt32.ofNat_add n 1).symm
  rw [SlotPool.acquire, SlotAllocator.acquire, h.debugMode]
  by_cases hdebug : p.debugMode = true
  · rw [if_pos hdebug, if_pos hdebug]
    dsimp only
    rw [hfresh]
    refine { h with debugMode := rfl, bump := ?_, given := ?_, peak := fun hlt => ?_,
                    free_lt := fun i hi => (h.free_lt i hi).trans (Nat.lt_succ_self _),
                    count := fun hfalse => absurd hdebug (ne_true_of_eq_false hfalse),
                    mem_cells := mem_append_bump h.mem_cells }
    · exact h.bump ▸ hsucc p.bump
    · rw [h.given, List.map_append]
      rfl
    · have hlt : p.bump + 1 < 2 ^ 32 := hlt
      change max s.peakSlots (s.bump + 1) = _
      rw [h.peak (by omega), h.bump]
      exact max_ofNat_succ hlt
  · have hcount := h.count (eq_false_of_ne_true hdebug)
    have hlive := h.live
    have hfree := h.free
    rw [if_neg hdebug, if_neg hdebug, hfree]
    rcases hcells : p.free with _ | ⟨cell, rest⟩
    · rw [hcells, List.length_nil, Nat.add_zero] at hcount
      dsimp only [List.map_nil]
      rw [hfresh]
      refine { h with debugMode := rfl, bump := ?_, live := ?_, free := rfl, given := ?_,
                      peak := fun hlt => ?_, free_lt := nofun, count := fun _ => ?_,
                      mem_cells := mem_append_bump h.mem_cells }
      · exact h.bump ▸ hsucc p.bump
      · exact hlive ▸ hsucc p.live
      · rw [h.given, List.map_append]
        rfl
      · have hlt : p.bump + 1 < 2 ^ 32 := hlt
        change max s.peakSlots (s.liveSlots + 1) = _
        rw [h.peak (by omega), hlive, hcount]
        exact max_ofNat_succ hlt
      · change p.live + 1 + 0 = p.bump + 1
        rw [hcount]
    · have hlt := h.free_lt
      rw [hcells] at hlt hcount
      rw [List.length_cons] at hcount
      dsimp only [List.map_cons]
      refine { h with debugMode := rfl, live := ?_, free := rfl, given := ?_,
                      free_lt := fun i hi => hlt i (List.mem_cons_of_mem _ hi),
                      count := fun _ => ?_, mem_cells := fun i => ?_ }
      · exact hlive ▸ hsucc p.live
      · rw [h.given, List.map_append]
        rfl
      · change p.live + 1 + rest.length = p.bump
        omega
      · rw [List.mem_append, List.mem_singleton, h.mem_cells i]
        exact ⟨fun hi => hi.elim id fun hi => hi ▸ hlt cell List.mem_cons_self, .inl⟩

/-- **Giving a slot back gives its cell back.** -/
theorem SlotPool.Shown.release {i : ℕ} {offset : UInt32} {s' : SlotAllocator}
    (h : p.Shown base cells s drawn) (hi : drawn[i]? = some offset)
    (hstep : s.release offset = some s') :
    ∃ cell p', cells[i]? = some cell ∧ p.release cell = some p' ∧ p'.Shown base cells s' drawn := by
  rw [h.given, List.getElem?_map] at hi
  obtain ⟨cell, hcell, rfl⟩ := Option.map_eq_some_iff.mp hi
  refine ⟨cell, ?_⟩
  rw [SlotAllocator.release, h.debugMode] at hstep
  rw [SlotPool.release]
  by_cases hdebug : p.debugMode = true
  · rw [if_pos hdebug] at hstep
    obtain rfl := Option.some.inj hstep
    exact ⟨p, hcell, if_pos hdebug, h⟩
  · have hcount := h.count (eq_false_of_ne_true hdebug)
    rw [if_neg hdebug] at hstep
    split at hstep
    case isFalse => exact nomatch hstep
    case isTrue hone =>
      obtain rfl := Option.some.inj hstep
      have hpos : 1 ≤ p.live := by
        refine Nat.one_le_iff_ne_zero.mpr fun hzero => ?_
        rw [h.live, hzero] at hone
        exact absurd hone (by decide)
      refine ⟨_, hcell, by rw [if_neg hdebug, if_pos hpos], ?_⟩
      refine { h with debugMode := rfl, live := ?_, free := ?_, free_lt := ?_, count := fun _ => ?_ }
      · change s.liveSlots - 1 = UInt32.ofNat (p.live - 1)
        rw [h.live, UInt32.ofNat_sub hpos]
        rfl
      · exact congrArg _ h.free
      · exact List.forall_mem_cons.mpr ⟨(h.mem_cells cell).mp (List.mem_of_getElem? hcell), h.free_lt⟩
      · change p.live - 1 + (p.free.length + 1) = p.bump
        omega

/-- **The allocator runs as the pool does.** -/
theorem SlotPool.Shown.run : ∀ {ops : List SlotOp} {p : SlotPool} {cells : List ℕ}
    {s s' : SlotAllocator} {drawn drawn' : List UInt32}, p.Shown base cells s drawn →
    drawSlots ops s drawn = some (s', drawn') →
      ∃ p' cells', SlotPool.draw ops p cells = some (p', cells') ∧ p'.Shown base cells' s' drawn'
  | [], p, cells, _, _, _, _, h, hrun => by
    obtain ⟨rfl, rfl⟩ := Prod.mk.inj (Option.some.inj hrun)
    exact ⟨p, cells, rfl, h⟩
  | .acquire :: ops, _, _, _, _, _, _, h, hrun => h.acquire.run hrun
  | .release i :: ops, p, cells, s, _, drawn, _, h, hrun => by
    rw [drawSlots] at hrun
    rcases hoffset : drawn[i]? with _ | offset
    · rw [hoffset] at hrun
      exact nomatch hrun
    · rw [hoffset] at hrun
      dsimp only at hrun
      rcases hrelease : s.release offset with _ | s₁
      · rw [hrelease] at hrun
        exact nomatch hrun
      · rw [hrelease] at hrun
        obtain ⟨cell, p₁, hcell, hpool, h₁⟩ := h.release hoffset hrelease
        obtain ⟨p', cells', hdraw, h'⟩ := h₁.run hrun
        refine ⟨p', cells', ?_, h'⟩
        rw [SlotPool.draw, hcell]
        dsimp only
        rw [hpool]
        exact hdraw

end Shown

/-! ## What an accepted layout is -/

/-- The slots of an expression: its variables', and the cells its requests need. -/
def LayoutInput.slotsNeeded (input : LayoutInput) (opts : LayoutOptions) : ℕ :=
  slotCount input.locals + cellsNeeded opts.debugLayout input.slots

/-- **What the pass builds**: slots that are the first cells behind rodata, their size in 32 bits, and
a passed check. -/
structure LaidOut (input : LayoutInput) (opts : LayoutOptions) (layout : StaticLayout) : Prop where
  rodataBase : layout.rodataBase = opts.rodataBase
  rodata : layout.rodata = packRodata opts.rodataBase input.rodata
  workspaceBase : layout.workspaceBase =
    roundUp16 (layout.rodataBase + UInt32.ofNat layout.rodata.length)
  variableSlots : layout.variableSlots =
    (List.range' 0 (slotCount input.locals)).map (slotAt layout.workspaceBase)
  scratch : ∀ offset, offset ∈ layout.scratch ↔
    ∃ i < cellsNeeded opts.debugLayout input.slots,
      slotAt layout.workspaceBase (slotCount input.locals + i) = offset
  workspaceBytes : input.slotsNeeded opts < 2 ^ 32 →
    layout.workspaceBytes = UInt32.ofNat (input.slotsNeeded opts) * kSlotStride
  fits : checkStaticWindowFits layout = none

/-- **An accepted layout is what the pass builds.** -/
theorem layoutPass_spec {input : LayoutInput} {opts : LayoutOptions} {layout : StaticLayout}
    (h : layoutPass input opts = some (.ok layout)) : LaidOut input opts layout := by
  rw [layoutPass] at h
  dsimp only at h
  have hlaid := layOutVariables_spec
    (roundUp16 (opts.rodataBase + UInt32.ofNat (packRodata opts.rodataBase input.rodata).length))
    input.locals 0
  rw [Nat.zero_add] at hlaid
  change (layOutVariables _ 0 _).2 = _ ∧ _ at hlaid
  obtain ⟨hcount, hslots⟩ := hlaid
  rw [hcount] at h
  split at h
  case isTrue => exact nomatch h
  case isFalse =>
    split at h
    case h_1 => exact nomatch h
    case h_2 slots scratch hdraw =>
      obtain ⟨pool, cells, hpool, hshown⟩ := (SlotPool.shown_new _ opts.debugLayout).run hdraw
      have hneeded : cellsNeeded opts.debugLayout input.slots = pool.bump := by
        rw [cellsNeeded, hpool]
        rfl
      split at h
      case h_1 => exact nomatch Option.some.inj h
      case h_2 hfits =>
        obtain rfl := Except.ok.inj (Option.some.inj h)
        refine ⟨rfl, rfl, rfl, hslots, fun offset => ?_, fun hlt => ?_, hfits⟩
        · change offset ∈ scratch ↔ _
          rw [hshown.given, List.mem_map, hneeded]
          simp only [hshown.mem_cells, slotAt_slotAt]
        · have hbump : pool.bump < 2 ^ 32 := by
            rw [LayoutInput.slotsNeeded, hneeded] at hlt
            omega
          change _ + slots.peakSlots * kSlotStride = _
          rw [hshown.peak hbump, LayoutInput.slotsNeeded, hneeded, UInt32.ofNat_add,
            UInt32.add_mul]

section LaidOut

variable {input : LayoutInput} {opts : LayoutOptions} {layout : StaticLayout}

/-- **The slots are the first cells of the workspace.** -/
theorem LaidOut.mem_slots (h : LaidOut input opts layout) (offset : UInt32) :
    offset ∈ layout.slots ↔
      ∃ i < input.slotsNeeded opts, slotAt layout.workspaceBase i = offset := by
  rw [StaticLayout.slots, List.mem_append, List.mem_dedup, h.scratch, h.variableSlots,
    List.mem_map, LayoutInput.slotsNeeded]
  constructor
  · rintro (⟨i, hi, rfl⟩ | ⟨i, hi, rfl⟩)
    · exact ⟨i, by have := List.mem_range'_1.mp hi; omega, rfl⟩
    · exact ⟨_, Nat.add_lt_add_left hi _, rfl⟩
  · rintro ⟨i, hi, rfl⟩
    by_cases hvar : i < slotCount input.locals
    · exact .inl ⟨i, List.mem_range'_1.mpr ⟨Nat.zero_le i, by omega⟩, rfl⟩
    · exact .inr ⟨i - slotCount input.locals, by omega, by rw [Nat.add_sub_cancel' (by omega)]⟩

/-- A slot whose end does not pass the top of memory is at its place. -/
theorem toNat_slotAt {base : UInt32} {i : ℕ} (h : base.toNat + i * 32 < 2 ^ 32) :
    (slotAt base i).toNat = base.toNat + i * 32 := by
  have hi : (UInt32.ofNat i).toNat = i := UInt32.toNat_ofNat_of_lt' (show i < 2 ^ 32 by omega)
  rw [slotAt, UInt32.toNat_add, UInt32.toNat_mul, hi]
  change (base.toNat + i * 32 % 2 ^ 32) % 2 ^ 32 = _
  omega

/-- Rounding up to sixteen. -/
theorem toNat_roundUp16 {x : ℕ} (h : x + 15 < 2 ^ 32) :
    (roundUp16 (UInt32.ofNat x)).toNat = (x + 15) / 16 * 16 := by
  have hadd : UInt32.ofNat x + 15 = UInt32.ofNat (x + 15) := (UInt32.ofNat_add x 15).symm
  have hmask : (15 : UInt32).toNat = 2 ^ 4 - 1 := rfl
  have hlt : (x + 15) / 2 ^ 4 * 2 ^ 4 < 2 ^ 32 := lt_of_le_of_lt (Nat.div_mul_le_self _ _) h
  rw [roundUp16, hadd, UInt32.and_not_mask (by decide) hmask h]
  exact UInt32.toNat_ofNat_of_lt' hlt

/-- **A passed check is one of the sizes themselves**, as long as neither sum wraps: rodata and the
workspace, taken together, end below the window's. -/
theorem checkStaticWindowFits_eq_none {x slots : ℕ} (hx : x + 256 < 2 ^ 32)
    (hslots : slots < 2 ^ 27)
    (hrodata : layout.rodataBase + UInt32.ofNat layout.rodata.length = UInt32.ofNat x)
    (hworkspace : layout.workspaceBytes = UInt32.ofNat slots * kSlotStride)
    (hfits : checkStaticWindowFits layout = none) : x + slots * 32 ≤ windowEnd := by
  have hused : UInt32.ofNat x + kGuardBytes = UInt32.ofNat (x + 256) :=
    (UInt32.ofNat_add x 256).symm
  have husedNat : (UInt32.ofNat (x + 256)).toNat = x + 256 := UInt32.toNat_ofNat_of_lt' hx
  have hslotsNat : (UInt32.ofNat slots).toNat = slots :=
    UInt32.toNat_ofNat_of_lt' (show slots < 2 ^ 32 by omega)
  have hbytes : layout.workspaceBytes.toNat = slots * 32 := by
    rw [hworkspace, UInt32.toNat_mul, hslotsNat]
    exact Nat.mod_eq_of_lt (show slots * 32 < 2 ^ 32 by omega)
  rw [checkStaticWindowFits, hrodata, hused] at hfits
  dsimp only at hfits
  split at hfits
  case isTrue => exact nomatch hfits
  case isFalse hbelow =>
    split at hfits
    case isTrue => exact nomatch hfits
    case isFalse hroom =>
      have hbelow : x + 256 ≤ 262144 := by
        have := UInt32.le_iff_toNat_le.mp (UInt32.not_lt.mp hbelow)
        rwa [husedNat] at this
      have hroom := UInt32.le_iff_toNat_le.mp (UInt32.not_lt.mp hroom)
      rw [hbytes, maxWorkspaceBytes, hrodata, hused] at hroom
      change x + slots * 32 ≤ 262144 - 256
      split at hroom
      case isTrue =>
        change slots * 32 ≤ 0 at hroom
        omega
      case isFalse =>
        have hle : UInt32.ofNat (x + 256) ≤ kReservedLowMemoryBytes :=
          UInt32.le_iff_toNat_le.mpr (husedNat.trans_le hbelow)
        rw [UInt32.toNat_sub_of_le _ _ hle, husedNat] at hroom
        change slots * 32 ≤ 262144 - (x + 256) at hroom
        omega

/-- Slots are told apart by their numbers. -/
theorem slotAt_inj {base : UInt32} {i j count : ℕ} (hend : base.toNat + count * 32 < 2 ^ 32)
    (hi : i < count) (hj : j < count) (h : slotAt base i = slotAt base j) : i = j := by
  have hnat := congrArg UInt32.toNat h
  rw [toNat_slotAt (by omega), toNat_slotAt (by omega)] at hnat
  omega

/-- No slot is given to two. -/
theorem LaidOut.nodup_slots (h : LaidOut input opts layout)
    (hend : layout.workspaceBase.toNat + input.slotsNeeded opts * 32 < 2 ^ 32) :
    layout.slots.Nodup := by
  have hneeded : slotCount input.locals + cellsNeeded opts.debugLayout input.slots
      = input.slotsNeeded opts := rfl
  have hvariable {i : ℕ} (hi : i ∈ List.range' 0 (slotCount input.locals)) :
      i < slotCount input.locals := by
    have hrange := List.mem_range'_1.mp hi
    omega
  rw [StaticLayout.slots, h.variableSlots]
  refine List.Nodup.append ?_ (List.nodup_dedup _) fun offset hvar hscratch => ?_
  · refine List.Nodup.map_on (fun i hi j hj heq => ?_) (List.nodup_range' ..)
    have hi := hvariable hi
    have hj := hvariable hj
    exact slotAt_inj hend (by omega) (by omega) heq
  · obtain ⟨i, hi, rfl⟩ := List.mem_map.mp hvar
    obtain ⟨j, hj, heq⟩ := (h.scratch _).mp (List.mem_dedup.mp hscratch)
    have hi := hvariable hi
    have hsame := slotAt_inj hend (by omega) (by omega) heq
    omega

/-- **A layout is sound within the bounds of 32 bits.** -/
theorem LaidOut.sound (h : LaidOut input opts layout) (hbase : 8 ∣ opts.rodataBase.toNat)
    (hx : opts.rodataBase.toNat + layout.rodata.length + 256 < 2 ^ 32)
    (hslots : input.slotsNeeded opts < 2 ^ 27) : layout.Sound := by
  have hrodata : layout.rodataBase + UInt32.ofNat layout.rodata.length
      = UInt32.ofNat (opts.rodataBase.toNat + layout.rodata.length) := by
    rw [UInt32.ofNat_add, UInt32.ofNat_toNat, h.rodataBase]
  have hsize := h.workspaceBytes (by omega)
  have hroom := checkStaticWindowFits_eq_none hx hslots hrodata hsize h.fits
  have height : 8 ∣ opts.rodataBase.toNat + layout.rodata.length :=
    Nat.dvd_add hbase (h.rodata ▸ dvd_length_packRodata _ _)
  have hwindow : windowEnd = 261888 := rfl
  have hworkspace : layout.workspaceBase.toNat
      = (opts.rodataBase.toNat + layout.rodata.length + 15) / 16 * 16 := by
    rw [h.workspaceBase, hrodata, toNat_roundUp16 (by omega)]
  -- Rodata ends on an eight and the window on a sixteen, so the padding fits as well.
  have hend : layout.workspaceBase.toNat + input.slotsNeeded opts * 32 ≤ windowEnd := by omega
  have hcell (i : ℕ) (hi : i < input.slotsNeeded opts) :
      slotRegion (slotAt layout.workspaceBase i)
        = Region.cell layout.workspaceBase.toNat 32 32 i := by
    rw [slotRegion, toNat_slotAt (by omega)]
    rfl
  have hbytes : layout.workspaceBytes.toNat = input.slotsNeeded opts * 32 := by
    have hnat : (UInt32.ofNat (input.slotsNeeded opts)).toNat = input.slotsNeeded opts :=
      UInt32.toNat_ofNat_of_lt' (show _ < 2 ^ 32 by omega)
    rw [hsize, UInt32.toNat_mul, hnat]
    exact Nat.mod_eq_of_lt (show _ * 32 < 2 ^ 32 by omega)
  have hfinish : layout.rodataRegion.finish = opts.rodataBase.toNat + layout.rodata.length := by
    rw [Region.finish, StaticLayout.rodataRegion, h.rodataBase]
  have hslotsLe : ∀ offset ∈ layout.slots, (slotRegion offset).finish ≤ windowEnd := by
    intro offset hmem
    obtain ⟨i, hi, rfl⟩ := (h.mem_slots offset).mp hmem
    rw [hcell i hi]
    change layout.workspaceBase.toNat + i * 32 + 32 ≤ windowEnd
    omega
  refine
    { apart := List.pairwise_cons.mpr ⟨fun region hmem => ?_, List.pairwise_map.mpr ?_⟩
      aligned := ⟨_, hworkspace.trans (Nat.mul_comm _ _)⟩
      rodata_le := ?_
      workspace_le := ?_
      slots_le := hslotsLe }
  · obtain ⟨offset, hoffset, rfl⟩ := List.mem_map.mp hmem
    obtain ⟨i, hi, rfl⟩ := (h.mem_slots offset).mp hoffset
    rw [hcell i hi]
    refine .inl ?_
    rw [hfinish]
    change _ ≤ layout.workspaceBase.toNat + i * 32
    omega
  · refine (h.nodup_slots (by omega)).pairwise_of_forall_ne fun a ha b hb hne => ?_
    obtain ⟨i, hi, rfl⟩ := (h.mem_slots a).mp ha
    obtain ⟨j, hj, rfl⟩ := (h.mem_slots b).mp hb
    rw [hcell i hi, hcell j hj]
    exact Region.apart_cell le_rfl fun hij => hne (hij ▸ rfl)
  · omega
  · change layout.workspaceBase.toNat + layout.workspaceBytes.toNat ≤ windowEnd
    omega

/-- **A sound layout has few slots**: the one after the window's worth is not below its end. -/
theorem LaidOut.slotsNeeded_le (h : LaidOut input opts layout) (hsound : layout.Sound) :
    input.slotsNeeded opts ≤ 8192 := by
  by_contra hmany
  have hbase : layout.workspaceBase.toNat ≤ windowEnd :=
    (Nat.le_add_right _ _).trans hsound.workspace_le
  have hwindow : windowEnd = 261888 := rfl
  have hlast := hsound.slots_le _ ((h.mem_slots _).mpr ⟨8192, by omega, rfl⟩)
  rw [slotRegion, toNat_slotAt (by omega)] at hlast
  change layout.workspaceBase.toNat + 8192 * 32 + 32 ≤ windowEnd at hlast
  omega

end LaidOut

/-- **An accepted layout is sound exactly when its sizes do not wrap.** -/
theorem layoutPass_sound_iff {input : LayoutInput} {opts : LayoutOptions} {layout : StaticLayout}
    (hbase : 8 ∣ opts.rodataBase.toNat) (h : layoutPass input opts = some (.ok layout)) :
    layout.Sound ↔
      opts.rodataBase.toNat + (packRodata opts.rodataBase input.rodata).length + 256 < 2 ^ 32 ∧
        input.slotsNeeded opts < 2 ^ 27 := by
  have hlaid := layoutPass_spec h
  rw [← hlaid.rodata]
  constructor
  · intro hsound
    have hrodata := hsound.rodata_le
    have hslots := hlaid.slotsNeeded_le hsound
    have hwindow : windowEnd = 261888 := rfl
    rw [Region.finish, StaticLayout.rodataRegion, hlaid.rodataBase] at hrodata
    dsimp only at hrodata
    omega
  · exact fun ⟨hx, hslots⟩ => hlaid.sound hbase hx hslots

/-- A constant, a variable and two scratch slots. -/
def smallInput : LayoutInput where
  rodata := [.frame (.int 1)]
  locals := [⟨"x", .int, .freeVariable⟩]
  slots := [.acquire, .acquire]

/-- …and their layout behind the default base. -/
def smallLayout : StaticLayout where
  rodataBase := 16
  rodata := (RawValue.int 1).frame
  locals := [⟨⟨"x", .int, .freeVariable⟩, 48⟩]
  workspaceBase := 48
  workspaceBytes := 96
  arenaBase := 144
  peakSlots := 2
  scratch := [80, 112]

theorem layoutPass_sound_iff_small : smallLayout.slots = [48, 80, 112] ∧ smallLayout.Sound :=
  have h : layoutPass smallInput ⟨false, 0⟩ = some (.ok smallLayout) := by rfl
  ⟨by decide, (layoutPass_sound_iff (by decide) h).mpr (by decide)⟩

/-- A constant, and nothing else. -/
def constInput : LayoutInput where
  rodata := [.frame (.int 1)]
  locals := []
  slots := []

/-- …and its layout behind a base near the top. -/
def topLayout : StaticLayout where
  rodataBase := 0xFFFFFEE8
  rodata := (RawValue.int 1).frame
  locals := []
  workspaceBase := 0xFFFFFF00
  workspaceBytes := 0
  arenaBase := 0xFFFFFF00
  peakSlots := 0
  scratch := []

/-- **A base near the top is accepted**: behind one constant the guard wraps to zero, and the
workspace starts where rodata ends, far above the window. -/
theorem layoutPass_wraps :
    ¬∀ (input : LayoutInput) (opts : LayoutOptions) (layout : StaticLayout),
      8 ∣ opts.rodataBase.toNat → 16 ≤ opts.rodataBase.toNat → layout.rodata.length < 2 ^ 31 →
        layoutPass input opts = some (.ok layout) → layout.Sound := by
  intro h
  have hrun : layoutPass constInput ⟨false, 0xFFFFFEE8⟩ = some (.ok topLayout) := by rfl
  have hsound := h _ _ _ (by decide) (by decide) (by decide) hrun
  exact absurd hsound.rodata_le (by decide)

end CelWasm
