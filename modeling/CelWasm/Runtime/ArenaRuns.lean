import CelWasm.Library.Region
import CelWasm.Runtime.Arena

/-!
# Runtime/ArenaRuns — every run of the arena keeps its blocks apart

    ⟨init | alloc | reset⟩* ──▸ chunks that are live blocks of the heap ──▸ blocks inside them

The arena owns a header and a buffer for each chunk and one block for poison, all of them live in the
heap, and live blocks never overlap. A block is handed out past the cursor of one chunk and inside its
buffer, so it is apart from the blocks before it and from all else the arena owns.
-/

namespace CelWasm

/-! ## The system allocator -/

/-- **A heap that keeps its blocks apart**: what is granted is fresh and aligned, live blocks never
overlap, and a block is live until it is freed. -/
structure LiveHeap extends Heap where
  live : State → ℕ → Option ℕ
  aligned : ∀ {heap n block heap'}, malloc heap n = some (block, heap') → 8 ∣ block.address
  fresh : ∀ {heap n block heap'}, malloc heap n = some (block, heap') →
    live heap block.address = none
  live_malloc : ∀ {heap n block heap'}, malloc heap n = some (block, heap') →
    live heap' = Function.update (live heap) block.address (some n)
  live_free : ∀ {heap address n}, live heap address = some n →
    live (free heap address) = Function.update (live heap) address none
  apart : ∀ {heap a b n m}, live heap a = some n → live heap b = some m → a ≠ b →
    (Region.mk a n).Apart ⟨b, m⟩

/-! ## The arena, from before it is initialised -/

/-- The chunks of an initialised arena, with `total_used` and `total_cap`. -/
structure ChunkChain where
  head : CelArenaChunk
  grown : List CelArenaChunk
  totalUsed : UInt32
  totalCap : UInt32

/-- **`g_arena` and `g_oom_block`.** The flag `initialized` is set where `head` is. -/
structure ArenaGlobals where
  arena : Option ChunkChain
  oomBlock : ℕ

/-- `CELWASM_ARENA_OOM_BLOCK_BYTES`. -/
def arenaOomBlockBytes : ℕ := 128

/-- `tail`. -/
def ChunkChain.tail (chain : ChunkChain) : CelArenaChunk := chain.grown.headD chain.head

/-- The chunks, the youngest first. -/
def ChunkChain.chunks (chain : ChunkChain) : List CelArenaChunk := chain.grown ++ [chain.head]

/-- Move the cursor of the chunk in use. -/
def ChunkChain.bump (chain : ChunkChain) (need : ℕ) : ChunkChain :=
  match chain with
  | { head, grown := [], totalUsed, totalCap } =>
    { head := { head with cursor := head.cursor + need }
      grown := []
      totalUsed := totalUsed + UInt32.ofNat need
      totalCap }
  | { head, grown := chunk :: older, totalUsed, totalCap } =>
    { head
      grown := { chunk with cursor := chunk.cursor + need } :: older
      totalUsed := totalUsed + UInt32.ofNat need
      totalCap }

/-- The size taken for a request, in the arithmetic of the source. -/
def needBytes (n : UInt32) : UInt32 :=
  let need := (n + 7) &&& ~~~7
  if need = 0 then 8 else need

namespace ArenaGlobals

variable (H : Heap)

/-- **`arena_init`**, or none where it traps. -/
def init (capBytes : UInt32) (heap : H.State) (a : ArenaGlobals) : Option (H.State × ArenaGlobals) :=
  match a.arena with
  | some chain => if chain.head.capacity ≠ capBytes.toNat then none else some (heap, a)
  | none =>
    match allocChunk H heap capBytes.toNat with
    | (none, heap) => some (heap, a)
    | (some chunk, heap) =>
      let chain := { head := chunk, grown := [], totalUsed := 0, totalCap := capBytes }
      match H.malloc heap arenaOomBlockBytes with
      | none => some (heap, { arena := some chain, oomBlock := 0 })
      | some (block, heap) => some (heap, { arena := some chain, oomBlock := block.address })

/-- **`arena_alloc`** — the offset of the block, or 0; none where it traps. -/
def alloc (n : UInt32) (heap : H.State) (a : ArenaGlobals) :
    Option (ℕ × H.State × ArenaGlobals) :=
  if n > 0xFFFFFFFF - 7 then some (0, heap, a)
  else
    match a.arena with
    | none => none
    | some chain =>
      let need := (needBytes n).toNat
      if need > chain.tail.capacity - chain.tail.cursor then
        let growBytes := pickGrowSize chain.tail.capacity need
        match allocChunk H heap growBytes with
        | (none, heap) => some (0, heap, a)
        | (some chunk, heap) =>
          let grown := { chain with
            grown := chunk :: chain.grown
            totalCap := chain.totalCap + UInt32.ofNat growBytes }
          some (chunk.base + chunk.cursor, heap, { a with arena := some (grown.bump need) })
      else
        some (chain.tail.base + chain.tail.cursor, heap,
          { a with arena := some (chain.bump need) })

/-- **`arena_reset`.** -/
def reset (heap : H.State) (a : ArenaGlobals) : H.State × ArenaGlobals :=
  match a.arena with
  | none => (heap, a)
  | some chain =>
    (chain.grown.reverse.foldl (freeChunk H) heap,
      { a with
        arena := some
          { head := { chain.head with cursor := 0 }
            grown := []
            totalUsed := 0
            totalCap := .ofNat chain.head.capacity } })

/-- The chunks, if there are any. -/
def chunks (a : ArenaGlobals) : List CelArenaChunk := (a.arena.map ChunkChain.chunks).getD []

/-- The chunks grown since the last reset. -/
def grown (a : ArenaGlobals) : List CelArenaChunk := (a.arena.map ChunkChain.grown).getD []

end ArenaGlobals

/-! ## What the arena owns -/

/-- The header and the buffer of a chunk. -/
def CelArenaChunk.owned (c : CelArenaChunk) : List Region :=
  [⟨c.base, c.capacity⟩, ⟨c.address, chunkHeaderBytes⟩]

/-- The bytes of the buffer before the cursor. -/
def CelArenaChunk.used (c : CelArenaChunk) : Region := ⟨c.base, c.cursor⟩

/-- The block for poison, unless it was refused. -/
def ArenaGlobals.oomRegion (a : ArenaGlobals) : List Region :=
  if a.oomBlock = 0 then [] else [⟨a.oomBlock, arenaOomBlockBytes⟩]

/-- Every block the arena has taken from the heap. -/
def ArenaGlobals.owned (a : ArenaGlobals) : List Region :=
  a.oomRegion ++ a.chunks.flatMap CelArenaChunk.owned

/-- A block handed out: its offset, and the bytes asked for. -/
structure HandedBlock where
  offset : ℕ
  requested : UInt32

/-- All the bytes of the block. -/
def HandedBlock.region (b : HandedBlock) : Region := ⟨b.offset, (needBytes b.requested).toNat⟩

variable {H : LiveHeap}

/-- **What a run of the arena leads to**, with the blocks handed out since the last reset. The rest of
the program may use the heap as well, as long as it leaves the arena's blocks alone. -/
inductive ArenaReached (H : LiveHeap) : H.State → ArenaGlobals → List HandedBlock → Prop
  | start (heap : H.State) : ArenaReached H heap { arena := none, oomBlock := 0 } []
  | init {heap a handed capBytes heap' a'} : ArenaReached H heap a handed →
    a.init H.toHeap capBytes heap = some (heap', a') → ArenaReached H heap' a' handed
  | refused {heap a handed n heap' a'} : ArenaReached H heap a handed →
    a.alloc H.toHeap n heap = some (0, heap', a') → ArenaReached H heap' a' handed
  | alloc {heap a handed n offset heap' a'} : ArenaReached H heap a handed →
    a.alloc H.toHeap n heap = some (offset, heap', a') → offset ≠ 0 →
    ArenaReached H heap' a' (⟨offset, n⟩ :: handed)
  | reset {heap a handed} : ArenaReached H heap a handed →
    ArenaReached H (a.reset H.toHeap heap).1 (a.reset H.toHeap heap).2 []
  | elsewhere {heap a handed heap'} : ArenaReached H heap a handed →
    (∀ r ∈ a.owned, H.live heap' r.start = some r.size) → ArenaReached H heap' a handed

/-! ## Blocks that are owned -/

section Owns

variable {heap heap' : H.State} {l l' : List Region} {r : Region}

/-- **These are live blocks, each listed once.** -/
structure LiveHeap.Owns (H : LiveHeap) (heap : H.State) (l : List Region) : Prop where
  live : ∀ r ∈ l, H.live heap r.start = some r.size
  nodup : (l.map Region.start).Nodup

/-- Owned blocks never overlap. -/
theorem LiveHeap.Owns.pairwise (h : H.Owns heap l) : l.Pairwise Region.Apart := by
  refine (List.pairwise_map.mp h.nodup).imp_of_mem fun hr hs hne => ?_
  exact H.apart (h.live _ hr) (h.live _ hs) hne

theorem LiveHeap.Owns.perm (h : H.Owns heap l) (hperm : l.Perm l') : H.Owns heap l' where
  live r hr := h.live r (hperm.mem_iff.mpr hr)
  nodup := (hperm.map Region.start).nodup_iff.mp h.nodup

theorem LiveHeap.Owns.sublist (h : H.Owns heap l) (hsub : l'.Sublist l) : H.Owns heap l' where
  live r hr := h.live r (hsub.subset hr)
  nodup := h.nodup.sublist (hsub.map Region.start)

/-- A granted block is owned besides. -/
theorem LiveHeap.Owns.malloc {n : ℕ} {block : Block n} (h : H.Owns heap l)
    (hmalloc : H.malloc heap n = some (block, heap')) : H.Owns heap' (⟨block.address, n⟩ :: l) := by
  have hne : ∀ r ∈ l, r.start ≠ block.address := fun r hr heq => by
    have hlive := h.live r hr
    rw [heq, H.fresh hmalloc] at hlive
    exact nomatch hlive
  constructor
  · rintro r hr
    rw [H.live_malloc hmalloc]
    obtain rfl | hr := List.mem_cons.mp hr
    · exact Function.update_self _ _ _
    · rw [Function.update_of_ne (hne r hr)]
      exact h.live r hr
  · refine List.nodup_cons.mpr ⟨fun hmem => ?_, h.nodup⟩
    obtain ⟨r, hr, heq⟩ := List.mem_map.mp hmem
    exact hne r hr heq

/-- A block freed is owned no longer. -/
theorem LiveHeap.Owns.free (h : H.Owns heap (r :: l)) : H.Owns (H.free heap r.start) l := by
  obtain ⟨hnew, hnodup⟩ := List.nodup_cons.mp h.nodup
  refine ⟨fun s hs => ?_, hnodup⟩
  have hne : s.start ≠ r.start := fun heq => hnew (heq ▸ List.mem_map_of_mem hs)
  rw [H.live_free (h.live r List.mem_cons_self), Function.update_of_ne hne]
  exact h.live s (List.mem_cons_of_mem r hs)

/-- `free_chunk` frees what a chunk owns. -/
theorem LiveHeap.Owns.freeChunk {c : CelArenaChunk} (h : H.Owns heap (c.owned ++ l)) :
    H.Owns (CelWasm.freeChunk H.toHeap heap c) l := h.free.free

/-- A refused chunk leaves everything as it was; a granted one is owned, aligned and empty. -/
theorem LiveHeap.Owns.allocChunk (h : H.Owns heap l) (want : ℕ) :
    (∃ heap', CelWasm.allocChunk H.toHeap heap want = (none, heap') ∧ H.Owns heap' l) ∨
      ∃ c heap', CelWasm.allocChunk H.toHeap heap want = (some c, heap') ∧
        H.Owns heap' (c.owned ++ l) ∧ c.capacity = want ∧ c.cursor = 0 ∧ 8 ∣ c.base ∧ 0 < c.base := by
  rw [CelWasm.allocChunk]
  rcases hheader : H.malloc heap chunkHeaderBytes with _ | ⟨header, heap₁⟩
  · exact .inl ⟨heap, rfl, h⟩
  · have h₁ := h.malloc hheader
    dsimp only
    rcases hbuffer : H.malloc heap₁ want with _ | ⟨buffer, heap₂⟩
    · exact .inl ⟨_, rfl, h₁.free⟩
    · exact .inr ⟨_, heap₂, rfl, h₁.malloc hbuffer, rfl, rfl, H.aligned hbuffer, buffer.pos⟩

end Owns

/-! ## Requests -/

/-- **A request that is not turned away is rounded up**, and never to nothing. -/
theorem toNat_needBytes {n : UInt32} (h : ¬n > 0xFFFFFFFF - 7) :
    (needBytes n).toNat = blockBytes n.toNat := by
  have hn : n.toNat ≤ 4294967288 := UInt32.le_iff_toNat_le.mp (UInt32.not_lt.mp h)
  have hlt : alignUp8 n.toNat < 2 ^ 32 := by
    rw [alignUp8]
    omega
  have hround : (n + 7) &&& ~~~7 = UInt32.ofNat (alignUp8 n.toNat) := by
    rw [alignUp8, ← UInt32.and_not_seven (by omega), UInt32.ofNat_add, UInt32.ofNat_toNat]
    rfl
  have hnat : ((n + 7) &&& ~~~7).toNat = alignUp8 n.toNat := by
    rw [hround]
    exact UInt32.toNat_ofNat_of_lt' hlt
  rw [needBytes, blockBytes, ← hnat]
  by_cases hzero : (n + 7) &&& ~~~7 = 0
  · rw [if_pos hzero, if_pos (by rw [hzero]; rfl)]
    rfl
  · have hnat_ne : ((n + 7) &&& ~~~7).toNat ≠ 0 := fun hz => hzero (UInt32.toNat_inj.mp hz)
    rw [if_neg hzero, if_neg hnat_ne]

theorem le_blockBytes (n : ℕ) : n ≤ blockBytes n := by
  have hle := le_alignUp8 n
  rw [blockBytes]
  split <;> omega

theorem dvd_blockBytes (n : ℕ) : 8 ∣ blockBytes n := by
  rw [blockBytes]
  split
  · exact ⟨1, rfl⟩
  · exact Nat.dvd_mul_left 8 _

theorem le_pickGrowSize (prevCapacity atLeastBytes : ℕ) :
    atLeastBytes ≤ pickGrowSize prevCapacity atLeastBytes := le_max_right _ _

/-! ## The invariant -/

/-- A chunk's cursor lies in its buffer, and both are aligned. -/
structure CelArenaChunk.Sane (c : CelArenaChunk) : Prop where
  cursor_le : c.cursor ≤ c.capacity
  base_pos : 0 < c.base
  base_aligned : 8 ∣ c.base
  cursor_aligned : 8 ∣ c.cursor

/-- **The invariant of the arena**: its chunks are blocks of its own, and every block handed out lies
before the cursor of one of them. -/
structure ArenaGlobals.Sound (H : LiveHeap) (heap : H.State) (a : ArenaGlobals)
    (handed : List HandedBlock) : Prop where
  owns : H.Owns heap a.owned
  sane : ∀ c ∈ a.chunks, c.Sane
  inside : ∀ b ∈ handed, ∃ c ∈ a.chunks, b.region.Within c.used
  aligned : ∀ b ∈ handed, 8 ∣ b.offset
  long : ∀ b ∈ handed, b.requested.toNat ≤ b.region.size
  apart : handed.Pairwise fun b b' => b.region.Apart b'.region

variable {heap heap' : H.State} {a a' : ArenaGlobals} {handed : List HandedBlock}

/-- The chunk in use is the youngest. -/
theorem ChunkChain.chunks_bump (chain : ChunkChain) :
    ∃ older, chain.chunks = chain.tail :: older ∧ ∀ need, (chain.bump need).chunks
      = { chain.tail with cursor := chain.tail.cursor + need } :: older := by
  obtain ⟨head, _ | ⟨chunk, older⟩, totalUsed, totalCap⟩ := chain
  · exact ⟨[], rfl, fun _ => rfl⟩
  · exact ⟨older ++ [head], rfl, fun _ => rfl⟩

theorem ArenaGlobals.tail_mem_chunks {chain : ChunkChain} (hchain : a.arena = some chain) :
    chain.tail ∈ a.chunks := by
  obtain ⟨older, hchunks, _⟩ := chain.chunks_bump
  rw [chunks, hchain]
  change chain.tail ∈ chain.chunks
  rw [hchunks]
  exact List.mem_cons_self

/-- The bytes a chunk has used are in its buffer. -/
theorem CelArenaChunk.Sane.used_within {c : CelArenaChunk} (h : c.Sane) :
    c.used.Within ⟨c.base, c.capacity⟩ := ⟨le_rfl, Nat.add_le_add_left h.cursor_le _⟩

theorem CelArenaChunk.buffer_mem_owned (c : CelArenaChunk) : ⟨c.base, c.capacity⟩ ∈ c.owned :=
  List.mem_cons_self

/-- The buffers of two chunks are apart. -/
theorem LiveHeap.Owns.apart_buffers {oom : List Region} {c : CelArenaChunk}
    {older : List CelArenaChunk}
    (h : H.Owns heap (oom ++ (c :: older).flatMap CelArenaChunk.owned)) :
    ∀ d ∈ older, (Region.mk c.base c.capacity).Apart ⟨d.base, d.capacity⟩ := fun d hd => by
  have hchunks := (List.pairwise_append.mp h.pairwise).2.1
  rw [List.flatMap_cons] at hchunks
  exact (List.pairwise_append.mp hchunks).2.2 _ c.buffer_mem_owned _
    (List.mem_flatMap_of_mem hd d.buffer_mem_owned)

/-- The buffer of a chunk and the block for poison are apart. -/
theorem ArenaGlobals.Sound.apart_oom (h : a.Sound H heap handed) {c : CelArenaChunk}
    (hc : c ∈ a.chunks) : ∀ r ∈ a.oomRegion, r.Apart ⟨c.base, c.capacity⟩ := fun r hr =>
  (List.pairwise_append.mp h.owns.pairwise).2.2 r hr _
    (List.mem_flatMap_of_mem hc c.buffer_mem_owned)

/-- **A block with room is handed out past the cursor**, apart from the blocks before it. -/
theorem ArenaGlobals.Sound.bump {chain : ChunkChain} {n : UInt32}
    (h : a.Sound H heap handed) (hchain : a.arena = some chain) (hn : ¬n > 0xFFFFFFFF - 7)
    (hroom : (needBytes n).toNat ≤ chain.tail.capacity - chain.tail.cursor) :
    ({ a with arena := some (chain.bump (needBytes n).toNat) } : ArenaGlobals).Sound H heap
      (⟨chain.tail.base + chain.tail.cursor, n⟩ :: handed) := by
  obtain ⟨older, hchunks, hbump⟩ := chain.chunks_bump
  have hbump := hbump (needBytes n).toNat
  have hold : a.chunks = chain.tail :: older := by rw [chunks, hchain, ← hchunks]; rfl
  have hnew : ({ a with arena := some (chain.bump (needBytes n).toNat) } : ArenaGlobals).chunks
      = { chain.tail with cursor := chain.tail.cursor + (needBytes n).toNat } :: older := hbump
  have hsane := h.sane
  have hinside := h.inside
  have howns := h.owns
  rw [hold] at hsane hinside
  rw [owned, hold] at howns
  have htail := hsane chain.tail List.mem_cons_self
  have hcursor := htail.cursor_le
  constructor
  case owns =>
    rw [owned, hnew]
    exact howns
  case sane =>
    rw [hnew]
    rintro c hc
    obtain rfl | hc := List.mem_cons.mp hc
    · refine { htail with cursor_le := ?_, cursor_aligned := ?_ }
      · change chain.tail.cursor + _ ≤ chain.tail.capacity
        omega
      · rw [toNat_needBytes hn]
        exact Nat.dvd_add htail.cursor_aligned (dvd_blockBytes _)
    · exact hsane c (List.mem_cons_of_mem _ hc)
  case inside =>
    rw [hnew]
    rintro b hb
    obtain rfl | hb := List.mem_cons.mp hb
    · refine ⟨_, List.mem_cons_self, Nat.le_add_right _ _, ?_⟩
      exact (Nat.add_assoc _ _ _).le
    · obtain ⟨c, hc, hwithin⟩ := hinside b hb
      obtain rfl | hc := List.mem_cons.mp hc
      · exact ⟨_, List.mem_cons_self, hwithin.1,
          hwithin.2.trans (Nat.add_le_add_left (Nat.le_add_right _ _) _)⟩
      · exact ⟨c, List.mem_cons_of_mem _ hc, hwithin⟩
  case aligned =>
    rintro b hb
    obtain rfl | hb := List.mem_cons.mp hb
    · exact Nat.dvd_add htail.base_aligned htail.cursor_aligned
    · exact h.aligned b hb
  case long =>
    rintro b hb
    obtain rfl | hb := List.mem_cons.mp hb
    · change n.toNat ≤ (needBytes n).toNat
      rw [toNat_needBytes hn]
      exact le_blockBytes _
    · exact h.long b hb
  case apart =>
    refine List.pairwise_cons.mpr ⟨fun b hb => ?_, h.apart⟩
    obtain ⟨c, hc, hwithin⟩ := hinside b hb
    obtain rfl | hc := List.mem_cons.mp hc
    · exact .inr hwithin.2
    · refine (howns.apart_buffers c hc).mono ⟨Nat.le_add_right _ _, ?_⟩
        (hwithin.trans (hsane c (List.mem_cons_of_mem _ hc)).used_within)
      change chain.tail.base + chain.tail.cursor + (needBytes n).toNat
        ≤ chain.tail.base + chain.tail.capacity
      omega

/-- A chunk that was taken is empty, and leaves the other chunks as they were. -/
theorem ArenaGlobals.Sound.grow {chain : ChunkChain} {chunk : CelArenaChunk}
    (totalCap : UInt32) (h : a.Sound H heap handed) (hchain : a.arena = some chain)
    (howns : H.Owns heap' (chunk.owned ++ a.owned)) (hcursor : chunk.cursor = 0)
    (haligned : 8 ∣ chunk.base) (hpos : 0 < chunk.base) :
    ({ a with arena := some { chain with grown := chunk :: chain.grown, totalCap } } :
      ArenaGlobals).Sound H heap' handed := by
  have hold : a.chunks = chain.chunks := by rw [chunks, hchain]; rfl
  have hnew : ({ a with arena := some { chain with grown := chunk :: chain.grown, totalCap } } :
      ArenaGlobals).chunks = chunk :: a.chunks := by rw [hold]; rfl
  refine { owns := ?_, sane := ?_, inside := ?_, aligned := h.aligned, long := h.long,
           apart := h.apart }
  · refine howns.perm ?_
    rw [owned, owned, hnew, List.flatMap_cons, ← List.append_assoc, ← List.append_assoc]
    exact List.perm_append_comm.append_right _
  · rw [hnew]
    refine List.forall_mem_cons.mpr ⟨⟨?_, hpos, haligned, ?_⟩, h.sane⟩
    · rw [hcursor]
      exact Nat.zero_le _
    · rw [hcursor]
      exact Nat.dvd_zero 8
  · rw [hnew]
    intro b hb
    obtain ⟨c, hc, hwithin⟩ := h.inside b hb
    exact ⟨c, List.mem_cons_of_mem _ hc, hwithin⟩

/-- The invariant speaks of the heap only through what is owned. -/
theorem ArenaGlobals.Sound.congr (h : a.Sound H heap handed) (howns : H.Owns heap' a.owned) :
    a.Sound H heap' handed := { h with owns := howns }

/-! ## The steps -/

/-- **`arena_alloc` keeps the invariant**, and a block it hands out is one more. -/
theorem ArenaGlobals.Sound.alloc {n : UInt32} {offset : ℕ} (h : a.Sound H heap handed)
    (hstep : a.alloc H.toHeap n heap = some (offset, heap', a')) :
    if offset = 0 then a'.Sound H heap' handed else a'.Sound H heap' (⟨offset, n⟩ :: handed) := by
  rw [ArenaGlobals.alloc] at hstep
  split at hstep
  · obtain ⟨rfl, rfl, rfl⟩ := hstep
    exact h
  · rename_i hn
    rcases hchain : a.arena with _ | chain
    · rw [hchain] at hstep
      exact nomatch hstep
    · rw [hchain] at hstep
      dsimp only at hstep
      split at hstep
      case isFalse hroom =>
        have hpos := (h.sane chain.tail (tail_mem_chunks hchain)).base_pos
        have hbump := h.bump hchain hn (not_lt.mp hroom)
        obtain ⟨rfl, rfl, rfl⟩ := hstep
        rw [if_neg (by omega)]
        exact hbump
      case isTrue hfull =>
        obtain ⟨heap₁, hchunk, howns⟩ | ⟨chunk, heap₁, hchunk, howns, hcapacity, hcursor, haligned,
            hpos⟩ := h.owns.allocChunk (pickGrowSize chain.tail.capacity (needBytes n).toNat)
        · rw [hchunk] at hstep
          obtain ⟨rfl, rfl, rfl⟩ := hstep
          exact h.congr howns
        · rw [hchunk] at hstep
          have hgrown := h.grow (chain.totalCap + .ofNat (pickGrowSize chain.tail.capacity
            (needBytes n).toNat)) hchain howns hcursor haligned hpos
          have hbump := hgrown.bump rfl hn (by
            change _ ≤ chunk.capacity - chunk.cursor
            rw [hcapacity, hcursor]
            exact le_pickGrowSize _ _)
          obtain ⟨rfl, rfl, rfl⟩ := hstep
          rw [if_neg (by omega)]
          exact hbump

/-- An arena of one chunk, from which nothing was handed out. -/
theorem ArenaGlobals.sound_of_single {chunk : CelArenaChunk} (hchunks : a.chunks = [chunk])
    (howns : H.Owns heap a.owned) (hsane : chunk.Sane) : a.Sound H heap [] where
  owns := howns
  sane := by rw [hchunks]; exact List.forall_mem_singleton.mpr hsane
  inside := nofun
  aligned := nofun
  long := nofun
  apart := .nil

/-- **`arena_init` keeps the invariant**: it takes one chunk and the block for poison. -/
theorem ArenaGlobals.Sound.init {capBytes : UInt32} (h : a.Sound H heap handed)
    (hstep : a.init H.toHeap capBytes heap = some (heap', a')) : a'.Sound H heap' handed := by
  rw [ArenaGlobals.init] at hstep
  rcases hchain : a.arena with _ | chain
  · have hnone : a.chunks = [] := by rw [chunks, hchain]; rfl
    obtain rfl : handed = [] := List.eq_nil_iff_forall_not_mem.mpr fun b hb => by
      obtain ⟨c, hc, _⟩ := h.inside b hb
      rw [hnone] at hc
      exact nomatch hc
    rw [hchain] at hstep
    obtain ⟨heap₁, hchunk, howns⟩ | ⟨chunk, heap₁, hchunk, howns, -, hcursor, haligned, hpos⟩ :=
      h.owns.allocChunk capBytes.toNat
    · rw [hchunk] at hstep
      obtain ⟨rfl, rfl⟩ := hstep
      exact h.congr howns
    · rw [hchunk] at hstep
      dsimp only at hstep
      have hsane : chunk.Sane :=
        ⟨hcursor ▸ Nat.zero_le _, hpos, haligned, hcursor ▸ Nat.dvd_zero 8⟩
      rcases hmalloc : H.malloc heap₁ arenaOomBlockBytes with _ | ⟨block, heap₂⟩
      · rw [hmalloc] at hstep
        obtain ⟨rfl, rfl⟩ := hstep
        exact sound_of_single rfl (howns.sublist (List.sublist_append_left _ _)) hsane
      · rw [hmalloc] at hstep
        obtain ⟨rfl, rfl⟩ := hstep
        refine sound_of_single rfl ?_ hsane
        have hboth := (howns.malloc hmalloc).sublist
          ((List.sublist_append_left chunk.owned a.owned).cons_cons _)
        rw [owned, oomRegion, if_neg block.pos.ne']
        exact hboth
  · rw [hchain] at hstep
    dsimp only at hstep
    split at hstep
    · exact nomatch hstep
    · obtain ⟨rfl, rfl⟩ := hstep
      exact h

/-! ## Reset -/

/-- The blocks `arena_reset` frees, in its order: the buffer and the header of every chunk but the
first. -/
def ArenaGlobals.releases (a : ArenaGlobals) : List ℕ :=
  (a.grown.reverse.flatMap CelArenaChunk.owned).map Region.start

theorem foldl_freeChunk (H : Heap) (heap : H.State) (chunks : List CelArenaChunk) :
    chunks.foldl (freeChunk H) heap
      = ((chunks.flatMap CelArenaChunk.owned).map Region.start).foldl H.free heap := by
  induction chunks generalizing heap with
  | nil => rfl
  | cons c rest ih => exact ih _

/-- The heap after a reset. -/
theorem ArenaGlobals.reset_fst (H : Heap) (heap : H.State) (a : ArenaGlobals) :
    (a.reset H heap).1 = a.releases.foldl H.free heap := by
  obtain ⟨_ | chain, oomBlock⟩ := a
  · rfl
  · exact foldl_freeChunk H heap _

/-- **Freeing owned blocks leaves the others live** and none of those freed. -/
theorem LiveHeap.Owns.foldl_free : ∀ {l l' : List Region} {heap : H.State}, H.Owns heap (l ++ l') →
    H.Owns ((l.map Region.start).foldl H.free heap) l' ∧
      ∀ address, H.live ((l.map Region.start).foldl H.free heap) address
        = if address ∈ l.map Region.start then none else H.live heap address
  | [], _, _, h => ⟨h, fun _ => rfl⟩
  | r :: rest, _, heap, h => by
    obtain ⟨howns, hlive⟩ := h.free.foldl_free
    refine ⟨howns, fun address => (hlive address).trans ?_⟩
    rw [List.map_cons, H.live_free (h.live r List.mem_cons_self)]
    by_cases hrest : address ∈ rest.map Region.start
    · rw [if_pos hrest, if_pos (List.mem_cons_of_mem _ hrest)]
    · rw [if_neg hrest]
      by_cases hr : address = r.start
      · rw [hr, Function.update_self, if_pos List.mem_cons_self]
      · rw [Function.update_of_ne hr, if_neg fun hmem => (List.mem_cons.mp hmem).elim hr hrest]

/-- What is owned is what a reset frees, the first chunk and the block for poison. -/
theorem ArenaGlobals.owned_perm_releases (H : Heap) (heap : H.State) (a : ArenaGlobals) :
    a.owned.Perm (a.grown.reverse.flatMap CelArenaChunk.owned ++ (a.reset H heap).2.owned) := by
  obtain ⟨_ | chain, oomBlock⟩ := a
  · exact .refl _
  · have hchunks : (ArenaGlobals.mk (some chain) oomBlock).chunks = chain.grown ++ [chain.head] := rfl
    rw [owned, hchunks, List.flatMap_append, ← List.append_assoc]
    refine (List.perm_append_comm.append_right _).trans ?_
    rw [List.append_assoc]
    exact ((List.reverse_perm _).symm.flatMap_right _).append_right _

theorem ArenaGlobals.Sound.owns_releases (h : a.Sound H heap handed) :
    H.Owns heap (a.grown.reverse.flatMap CelArenaChunk.owned ++ (a.reset H.toHeap heap).2.owned) :=
  h.owns.perm (a.owned_perm_releases H.toHeap heap)

/-- **`arena_reset` keeps the invariant**, and nothing is handed out any more. -/
theorem ArenaGlobals.Sound.reset (h : a.Sound H heap handed) :
    (a.reset H.toHeap heap).2.Sound H (a.reset H.toHeap heap).1 [] := by
  have howns := h.owns_releases.foldl_free.1
  have hheap := a.reset_fst H.toHeap heap
  rw [releases] at hheap
  rw [← hheap] at howns
  obtain ⟨_ | chain, oomBlock⟩ := a
  · exact ⟨howns, nofun, nofun, nofun, nofun, .nil⟩
  · have hhead := h.sane chain.head (List.mem_append_right _ (List.mem_singleton_self _))
    exact sound_of_single rfl howns
      { hhead with cursor_le := Nat.zero_le _, cursor_aligned := Nat.dvd_zero 8 }

/-! ## Runs -/

/-- **Every run keeps the invariant.** -/
theorem ArenaReached.sound (h : ArenaReached H heap a handed) : a.Sound H heap handed := by
  induction h with
  | start heap =>
    exact ⟨⟨nofun, .nil⟩, nofun, nofun, nofun, nofun, .nil⟩
  | init _ hstep ih => exact ih.init hstep
  | refused _ hstep ih => exact ih.alloc hstep
  | alloc _ hstep hne ih =>
    have halloc := ih.alloc hstep
    rw [if_neg hne] at halloc
    exact halloc
  | reset _ ih => exact ih.reset
  | elsewhere _ hlive ih => exact ih.congr ⟨hlive, ih.owns.nodup⟩

/-- **The arena is sound over whole runs.** The blocks handed out since the last reset are apart, they
are aligned, as long as requested and inside one chunk each, and apart from the block for poison; no
cursor is past its chunk; and a reset frees every block of the later chunks once, and leaves one empty
chunk. -/
theorem arena_sound (H : LiveHeap) (heap : H.State) (a : ArenaGlobals) (handed : List HandedBlock)
    (h : ArenaReached H heap a handed) :
    (handed.Pairwise fun b b' => b.region.Apart b'.region) ∧
    (∀ b ∈ handed, 8 ∣ b.offset ∧ b.requested.toNat ≤ b.region.size ∧
      (∃ c ∈ a.chunks, b.region.Within ⟨c.base, c.capacity⟩) ∧
      ∀ r ∈ a.oomRegion, r.Apart b.region) ∧
    (∀ c ∈ a.chunks, c.cursor ≤ c.capacity) ∧
    (a.reset H.toHeap heap).2.chunks
      = (a.arena.map fun chain => { chain.head with cursor := 0 }).toList ∧
    (a.reset H.toHeap heap).1 = a.releases.foldl H.free heap ∧
    a.releases.Nodup ∧
    ∀ address, (address ∈ a.releases → (H.live heap address).isSome) ∧
      H.live (a.reset H.toHeap heap).1 address
        = if address ∈ a.releases then none else H.live heap address := by
  have hsound := h.sound
  refine ⟨hsound.apart, fun b hb => ⟨hsound.aligned b hb, hsound.long b hb, ?_, ?_⟩,
    fun c hc => (hsound.sane c hc).cursor_le, ?_, a.reset_fst H.toHeap heap, ?_, fun address => ⟨?_, ?_⟩⟩
  · obtain ⟨c, hc, hwithin⟩ := hsound.inside b hb
    exact ⟨c, hc, hwithin.trans (hsound.sane c hc).used_within⟩
  · intro r hr
    obtain ⟨c, hc, hwithin⟩ := hsound.inside b hb
    exact (hsound.apart_oom hc r hr).mono (.refl r) (hwithin.trans (hsound.sane c hc).used_within)
  · obtain ⟨_ | chain, oomBlock⟩ := a <;> rfl
  · have hnodup := hsound.owns_releases.nodup
    rw [List.map_append] at hnodup
    exact hnodup.of_append_left
  · intro hmem
    obtain ⟨r, hr, rfl⟩ := List.mem_map.mp hmem
    rw [hsound.owns_releases.live r (List.mem_append_left _ hr)]
    rfl
  · rw [a.reset_fst H.toHeap heap]
    exact hsound.owns_releases.foldl_free.2 address

/-! ## The arena an evaluation sees -/

/-- The chunks of an initialised arena are those of the arena an evaluation allocates from. -/
structure ArenaGlobals.Shows (a : ArenaGlobals) (arena : CelArena) : Prop where
  head : a.arena.map ChunkChain.head = some arena.head
  grown : a.grown = arena.grown

section Shows

variable {H : Heap} {heap : H.State} {a : ArenaGlobals} {arena : CelArena}

theorem ArenaGlobals.Shows.bump {chain : ChunkChain} (hhead : chain.head = arena.head)
    (hgrown : chain.grown = arena.grown) (need oomBlock : ℕ) :
    (ArenaGlobals.mk (some (chain.bump need)) oomBlock).Shows (arena.bump need) := by
  obtain ⟨head, grown, totalUsed, totalCap⟩ := chain
  obtain ⟨head', grown', blocks, hcapacity⟩ := arena
  obtain rfl : head = head' := hhead
  obtain rfl : grown = grown' := hgrown
  cases grown <;> exact ⟨rfl, rfl⟩

/-- **An evaluation's allocation is one of the globals**, on the same heap. -/
theorem ArenaGlobals.Shows.alloc (h : a.Shows arena) (n : UInt32) :
    ∃ offset a', a.alloc H n heap = some (offset, (arenaAlloc H heap arena n.toNat).2.1, a') ∧
      a'.Shows (arenaAlloc H heap arena n.toNat).2.2 ∧
      ((arenaAlloc H heap arena n.toNat).1 = none → offset = 0) := by
  obtain ⟨_ | chain, oomBlock⟩ := a
  · cases h.head
  · have hhead : chain.head = arena.head := Option.some.inj h.head
    have hgrown : chain.grown = arena.grown := h.grown
    have htail : chain.tail = arena.tail := by rw [ChunkChain.tail, CelArena.tail, hhead, hgrown]
    rw [ArenaGlobals.alloc, arenaAlloc]
    by_cases hn : n > 0xFFFFFFFF - 7
    · have hlarge : n.toNat > 2 ^ 32 - 1 - 7 := UInt32.lt_iff_toNat_lt.mp hn
      rw [if_pos hn, if_pos hlarge]
      exact ⟨0, _, rfl, h, fun _ => rfl⟩
    · have hsmall : ¬n.toNat > 2 ^ 32 - 1 - 7 := fun hlt => hn (UInt32.lt_iff_toNat_lt.mpr hlt)
      rw [if_neg hn, if_neg hsmall]
      dsimp only
      rw [toNat_needBytes hn, htail]
      split
      case isTrue hfull =>
        rcases allocChunk H heap (pickGrowSize arena.tail.capacity (blockBytes n.toNat)) with
          ⟨_ | chunk, heap'⟩
        · exact ⟨0, _, rfl, h, fun _ => rfl⟩
        · exact ⟨_, _, rfl, @Shows.bump { arena with grown := chunk :: arena.grown }
            { chain with grown := chunk :: chain.grown, totalCap := _ } hhead
            (congrArg (chunk :: ·) hgrown) _ oomBlock, by rintro ⟨⟩⟩
      case isFalse hroom => exact ⟨_, _, rfl, .bump hhead hgrown _ oomBlock, by rintro ⟨⟩⟩

/-- **An evaluation's reset is that of the globals.** -/
theorem ArenaGlobals.Shows.reset (h : a.Shows arena) :
    (a.reset H heap).1 = (arenaReset H heap arena).1 ∧
      (a.reset H heap).2.Shows (arenaReset H heap arena).2 := by
  obtain ⟨_ | chain, oomBlock⟩ := a
  · exact nomatch h.head
  · have hhead : chain.head = arena.head := Option.some.inj h.head
    have hgrown : chain.grown = arena.grown := h.grown
    rw [ArenaGlobals.reset, arenaReset, ← hgrown]
    refine ⟨rfl, ?_, rfl⟩
    change some { chain.head with cursor := 0 } = some { arena.head with cursor := 0 }
    rw [hhead]

end Shows

/-! ## A heap that never reuses an address -/

/-- The live blocks, all of them below the next address. -/
structure BumpBlocks where
  next : ℕ
  live : ℕ → Option ℕ
  next_pos : 0 < next
  next_aligned : 8 ∣ next
  below : ∀ {a n}, live a = some n → a + n < next
  apart : ∀ {a b n m}, live a = some n → live b = some m → a ≠ b → (Region.mk a n).Apart ⟨b, m⟩

/-- One block more, at the next address. -/
def BumpBlocks.take (s : BumpBlocks) (n : ℕ) : BumpBlocks where
  next := (s.next + n) / 8 * 8 + 8
  live := Function.update s.live s.next (some n)
  next_pos := by omega
  next_aligned := by omega
  below {a m} h := by
    by_cases ha : a = s.next
    · rw [ha, Function.update_self] at h
      obtain rfl := Option.some.inj h
      omega
    · rw [Function.update_of_ne ha] at h
      have hbelow := s.below h
      omega
  apart {a b m k} h h' hne := by
    by_cases ha : a = s.next
    · rw [Function.update_of_ne (fun hb => hne (ha.trans hb.symm))] at h'
      exact .inr (ha ▸ (s.below h').le)
    · rw [Function.update_of_ne ha] at h
      by_cases hb : b = s.next
      · exact .inl (hb ▸ (s.below h).le)
      · rw [Function.update_of_ne hb] at h'
        exact s.apart h h' hne

/-- One block less. -/
def BumpBlocks.drop (s : BumpBlocks) (address : ℕ) : BumpBlocks where
  next := s.next
  live := Function.update s.live address none
  next_pos := s.next_pos
  next_aligned := s.next_aligned
  below {a n} h := by
    by_cases ha : a = address
    · rw [ha, Function.update_self] at h
      exact nomatch h
    · rw [Function.update_of_ne ha] at h
      exact s.below h
  apart {a b n m} h h' hne := by
    by_cases ha : a = address
    · rw [ha, Function.update_self] at h
      exact nomatch h
    · by_cases hb : b = address
      · rw [hb, Function.update_self] at h'
        exact nomatch h'
      · rw [Function.update_of_ne ha] at h
        rw [Function.update_of_ne hb] at h'
        exact s.apart h h' hne

/-- An allocator with no free list. -/
def bumpHeap : LiveHeap where
  State := BumpBlocks
  malloc s n := if h : s.next + n ≤ 2 ^ 32 then some (⟨s.next, s.next_pos, h⟩, s.take n) else none
  free := BumpBlocks.drop
  memorySize _ := 67108864
  reserved_le _ := by decide
  live := BumpBlocks.live
  aligned {s n block s'} h := by
    split at h
    · obtain ⟨rfl, -⟩ := h
      exact s.next_aligned
    · exact nomatch h
  fresh {s n block s'} h := by
    split at h
    · obtain ⟨rfl, -⟩ := h
      refine Option.eq_none_iff_forall_ne_some.mpr fun m hm => ?_
      have hbelow : s.next + m < s.next := s.below hm
      omega
    · exact nomatch h
  live_malloc {s n block s'} h := by
    split at h
    · obtain ⟨rfl, rfl⟩ := h
      rfl
    · exact nomatch h
  live_free _ := rfl
  apart {s} := s.apart

/-- No blocks, above the static data. -/
def bumpStart : BumpBlocks where
  next := 327680
  live _ := none
  next_pos := by decide
  next_aligned := by decide
  below := nofun
  apart := nofun

/-- The default arena, after `arena_init`. -/
def initialised : BumpBlocks × ArenaGlobals :=
  (ArenaGlobals.init bumpHeap.toHeap 65536 bumpStart { arena := none, oomBlock := 0 }).get (by decide)

/-- …after a first request of 10 bytes, -/
def requested : ℕ × BumpBlocks × ArenaGlobals :=
  (initialised.2.alloc bumpHeap.toHeap 10 initialised.1).get (by decide)

/-- …and after one of 70000, for which it grows. -/
def grown : ℕ × BumpBlocks × ArenaGlobals :=
  (requested.2.2.alloc bumpHeap.toHeap 70000 requested.2.1).get (by decide)

theorem reached_grown :
    ArenaReached bumpHeap grown.2.1 grown.2.2 [⟨grown.1, 70000⟩, ⟨requested.1, 10⟩] := by
  have hinit : ArenaGlobals.init bumpHeap.toHeap 65536 bumpStart { arena := none, oomBlock := 0 }
      = some initialised := (Option.some_get _).symm
  have hfirst : initialised.2.alloc bumpHeap.toHeap 10 initialised.1 = some requested :=
    (Option.some_get _).symm
  have hsecond : requested.2.2.alloc bumpHeap.toHeap 70000 requested.2.1 = some grown :=
    (Option.some_get _).symm
  exact .alloc (.alloc (.init (.start bumpStart) hinit) hfirst (by decide)) hsecond (by decide)

/-- Two blocks, in the first chunk and in the one that the arena grew by: they are apart, each is in a
chunk, and a reset frees the later chunk and its record. -/
theorem arena_sound_grown :
    grown.2.2.chunks.length = 2 ∧
    (HandedBlock.mk grown.1 70000).region.Apart (HandedBlock.mk requested.1 10).region ∧
    (∀ b ∈ [HandedBlock.mk grown.1 70000, ⟨requested.1, 10⟩], 8 ∣ b.offset ∧
      ∃ c ∈ grown.2.2.chunks, b.region.Within ⟨c.base, c.capacity⟩) ∧
    grown.2.2.releases.length = 2 ∧ ∀ address ∈ grown.2.2.releases,
      (bumpHeap.live grown.2.1 address).isSome ∧
      bumpHeap.live (grown.2.2.reset bumpHeap.toHeap grown.2.1).1 address = none := by
  obtain ⟨hapart, hblocks, -, -, -, -, hreleased⟩ :=
    arena_sound bumpHeap grown.2.1 grown.2.2 _ reached_grown
  refine ⟨by decide, (List.pairwise_cons.mp hapart).1 _ (List.mem_singleton_self _), fun b hb => ?_,
    by decide, fun address haddress => ⟨(hreleased address).1 haddress, ?_⟩⟩
  · obtain ⟨haligned, -, hinside, -⟩ := hblocks b hb
    exact ⟨haligned, hinside⟩
  · rw [(hreleased address).2, if_pos haddress]

end CelWasm
