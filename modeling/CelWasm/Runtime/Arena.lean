import CelWasm.Library.Alignment
import CelWasm.Runtime.Value

/-!
# Runtime/Arena — the bump arena over chunks from malloc

The arena hands out blocks by moving a cursor through a chunk. Where a block does not fit, a chunk of
twice the size is taken from the C library's heap, and the evaluation goes on there. The next
evaluation resets the arena: it frees every chunk but the first, whose size never changes.
-/

namespace CelWasm

/-- `CELWASM_RESERVED_LOW_MEMORY_BYTES`. -/
def reservedLowMemoryBytes : ℕ := 262144

/-- A block of memory of `n` bytes; the address space ends at `2 ^ 32`, and 0 is no block. -/
structure Block (n : ℕ) where
  address : ℕ
  pos : 0 < address
  le : address + n ≤ 2 ^ 32

/-- The allocator the runtime is linked with, and the memory it can grow. -/
structure Heap where
  State : Type
  malloc : State → (n : ℕ) → Option (Block n × State)
  free : State → ℕ → State
  memorySize : State → ℕ
  reserved_le : ∀ heap, reservedLowMemoryBytes ≤ memorySize heap

/-- `CELWASM_ARENA_CAPACITY_BYTES`. -/
def arenaCapacityBytes : ℕ := 64 * 1024

/-- `sizeof(CelArenaChunk)`. -/
def chunkHeaderBytes : ℕ := 16

/-- `CelArenaChunk`, with the addresses of itself and of its buffer. -/
structure CelArenaChunk where
  address : ℕ
  base : ℕ
  capacity : ℕ
  cursor : ℕ

/-- `align_up_8`. -/
def alignUp8 (n : ℕ) : ℕ := (n + 7) / 8 * 8

/-- `(n + 7) & ~7` of a number that does not wrap. -/
theorem UInt32.and_not_seven {m : ℕ} (h : m < 2 ^ 32) :
    UInt32.ofNat m &&& ~~~7 = UInt32.ofNat (m / 8 * 8) := @UInt32.and_not_mask m 3 7 (by decide) rfl h

theorem le_alignUp8 (n : ℕ) : n ≤ alignUp8 n := by
  rw [alignUp8]
  omega

theorem alignUp8_lt {n : ℕ} (h : alignUp8 n < 2 ^ 32) : n + 7 < 2 ^ 32 := by
  rw [alignUp8] at h
  omega

/-- `pick_grow_size`. -/
def pickGrowSize (prevCapacity atLeastBytes : ℕ) : ℕ :=
  max (min (max (prevCapacity * 2 % 2 ^ 32) 4096) (2 ^ 20)) atLeastBytes

/-- **`CelArena`** — the first chunk, the chunks grown since the reset, the youngest first, and what
the blocks handed out since then hold. -/
structure CelArena where
  head : CelArenaChunk
  grown : List CelArenaChunk
  blocks : List (List UInt8)
  head_capacity : head.capacity = arenaCapacityBytes

/-- A byte of a block. -/
def loadByte (blocks : List (List UInt8)) (block offset : ℕ) : UInt8 :=
  (blocks.getD block []).getD offset 0

/-- Write a byte of a block. -/
def storeByte (blocks : List (List UInt8)) (block offset : ℕ) (byte : UInt8) : List (List UInt8) :=
  blocks.modify block fun bytes => bytes.set offset byte

namespace CelArena

/-- The chunk that blocks are taken from. -/
def tail (a : CelArena) : CelArenaChunk := a.grown.headD a.head

/-- Move the cursor over a block, and clear the block. -/
def bump (a : CelArena) (need : ℕ) : CelArena :=
  match a with
  | { head, grown := [], blocks, head_capacity } =>
    { head := { head with cursor := head.cursor + need }
      grown := []
      blocks := blocks ++ [List.replicate need 0]
      head_capacity }
  | { head, grown := chunk :: older, blocks, head_capacity } =>
    { head
      grown := { chunk with cursor := chunk.cursor + need } :: older
      blocks := blocks ++ [List.replicate need 0]
      head_capacity }

/-- A byte of a block. -/
def load (a : CelArena) (block offset : ℕ) : UInt8 := loadByte a.blocks block offset

/-- Write a byte of a block. -/
def store (a : CelArena) (block offset : ℕ) (byte : UInt8) : CelArena :=
  { a with blocks := storeByte a.blocks block offset byte }

/-- What `arena_reset` leaves of the arena. -/
def rewind (a : CelArena) : CelArena where
  head := { a.head with cursor := 0 }
  grown := []
  blocks := []
  head_capacity := a.head_capacity

@[simp] theorem blocks_bump (a : CelArena) (need : ℕ) :
    (a.bump need).blocks = a.blocks ++ [List.replicate need 0] := by
  obtain ⟨head, _ | ⟨chunk, older⟩, blocks, hcapacity⟩ := a <;> rfl

end CelArena

section Arena

variable (P : Heap)

/-- `alloc_chunk`. -/
def allocChunk (heap : P.State) (wantBytes : ℕ) : Option CelArenaChunk × P.State :=
  match P.malloc heap chunkHeaderBytes with
  | none => (none, heap)
  | some (chunk, heap) =>
    match P.malloc heap wantBytes with
    | none => (none, P.free heap chunk.address)
    | some (buffer, heap) =>
      (some
        { address := chunk.address
          base := buffer.address
          capacity := wantBytes
          cursor := 0 }, heap)

/-- The size `arena_alloc` takes for a request. -/
def blockBytes (n : ℕ) : ℕ := if alignUp8 n = 0 then 8 else alignUp8 n

/-- **`arena_alloc`** — the block by its number, or none. -/
def arenaAlloc (heap : P.State) (arena : CelArena) (n : ℕ) : Option ℕ × P.State × CelArena :=
  if n > 2 ^ 32 - 1 - 7 then (none, heap, arena)
  else if blockBytes n > arena.tail.capacity - arena.tail.cursor then
    match allocChunk P heap (pickGrowSize arena.tail.capacity (blockBytes n)) with
    | (none, heap) => (none, heap, arena)
    | (some chunk, heap) =>
      (some arena.blocks.length, heap,
        { arena with grown := chunk :: arena.grown }.bump (blockBytes n))
  else (some arena.blocks.length, heap, arena.bump (blockBytes n))

/-- `free_chunk`. -/
def freeChunk (heap : P.State) (chunk : CelArenaChunk) : P.State :=
  P.free (P.free heap chunk.base) chunk.address

/-- **`arena_reset`** — the grown chunks are freed from the oldest on. -/
def arenaReset (heap : P.State) (arena : CelArena) : P.State × CelArena :=
  (arena.grown.reverse.foldl (freeChunk P) heap, arena.rewind)

/-- **The arena has room for a request** — it fits the chunk in use, or the heap grants a chunk. -/
def ArenaRoom (heap : P.State) (arena : CelArena) (n : ℕ) : Prop :=
  blockBytes n ≤ arena.tail.capacity - arena.tail.cursor ∨
    (allocChunk P heap (pickGrowSize arena.tail.capacity (blockBytes n))).1.isSome = true

/-- **With room a block is handed out and cleared**, unless it could never be aligned. -/
theorem arenaAlloc_of_room {heap : P.State} {arena : CelArena} {n : ℕ}
    (hroom : n ≤ 2 ^ 32 - 1 - 7 → ArenaRoom P heap arena n) :
    (n > 2 ^ 32 - 1 - 7 ∧ arenaAlloc P heap arena n = (none, heap, arena)) ∨
      (n ≤ 2 ^ 32 - 1 - 7 ∧ ∃ heap' arena',
        arenaAlloc P heap arena n = (some arena.blocks.length, heap', arena') ∧
          arena'.blocks = arena.blocks ++ [List.replicate (blockBytes n) 0]) := by
  rcases lt_or_ge (2 ^ 32 - 1 - 7) n with hn | hn
  · exact .inl ⟨hn, if_pos hn⟩
  · refine .inr ⟨hn, ?_⟩
    rw [arenaAlloc, if_neg (not_lt.mpr hn)]
    rcases lt_or_ge (arena.tail.capacity - arena.tail.cursor) (blockBytes n) with hfull | hfits
    · obtain hfits | hchunk := hroom hn
      · exact absurd hfits (not_le.mpr hfull)
      · obtain ⟨chunk, hchunk⟩ := Option.isSome_iff_exists.mp hchunk
        rw [if_pos hfull]
        generalize allocChunk P heap _ = granted at hchunk ⊢
        obtain ⟨_, heap'⟩ := granted
        obtain rfl : _ = some chunk := hchunk
        exact ⟨heap', _, rfl, CelArena.blocks_bump _ _⟩
    · rw [if_neg (not_lt.mpr hfits)]
      exact ⟨heap, _, rfl, CelArena.blocks_bump _ _⟩

end Arena

end CelWasm
