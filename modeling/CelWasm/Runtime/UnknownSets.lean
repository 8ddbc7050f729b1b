import CelWasm.Eval.Calls
import CelWasm.Library.SortedSet
import CelWasm.Library.WordArrays
import CelWasm.Runtime.ArenaRuns

/-!
# Runtime/UnknownSets — unknown sets as they lie in memory

A cell that is UNKNOWN holds the offset of a descriptor, the descriptor the offset and the length of
an array of attribute ids. `cel_unknown_merge` walks two arrays with a cursor in each, and relies on
both being strictly increasing; the host sorts every array it writes. The blocks of the arena are
apart, so an array stays as it was written until the evaluation ends.

    slot ──▸ (UNKNOWN, unk) ──▸ {ids, len} ──▸ id₀ < id₁ < …
-/

namespace CelWasm

open ByteMemory

/-! ## The walk over two arrays -/

section Walk

variable (idsA lenA idsB lenB out : ℕ)

/-- The first loop of `merge_sorted_id_arrays`: the ids left of both cursors are written. -/
def mergeBoth (m : ByteMemory) (i j k : ℕ) : ByteMemory × ℕ × ℕ × ℕ :=
  if i < lenA ∧ j < lenB then
    let ai := m.readU32 (idsA + 4 * i)
    let bj := m.readU32 (idsB + 4 * j)
    if ai < bj then mergeBoth (m.write (out + 4 * k) (leBytes 4 ai)) (i + 1) j (k + 1)
    else if bj < ai then mergeBoth (m.write (out + 4 * k) (leBytes 4 bj)) i (j + 1) (k + 1)
    else mergeBoth (m.write (out + 4 * k) (leBytes 4 ai)) (i + 1) (j + 1) (k + 1)
  else (m, i, j, k)
termination_by (lenA - i) + (lenB - j)

/-- The other two loops: what is left of one array is copied. -/
def copyRest (ids len : ℕ) (m : ByteMemory) (i k : ℕ) : ByteMemory × ℕ :=
  if i < len then
    copyRest ids len (m.write (out + 4 * k) (leBytes 4 (m.readU32 (ids + 4 * i)))) (i + 1) (k + 1)
  else (m, k)
termination_by len - i

/-- **`merge_sorted_id_arrays`** — the memory, and the number of ids written. -/
def mergeSortedIdArrays (m : ByteMemory) : ByteMemory × ℕ :=
  let (m, i, j, k) := mergeBoth idsA lenA idsB lenB out m 0 0 0
  let (m, k) := copyRest out idsA lenA m i k
  copyRest out idsB lenB m j k

end Walk

section WalkSpec

variable {idsA lenA idsB lenB out : ℕ} {m : ByteMemory} {as bs w : List ℕ} {i j : ℕ}

/-- An id of an array apart from the output is read as it was. -/
theorem readU32_written {ids len room : ℕ} (hids : m.readU32s ids len = as)
    (hapart : (Region.mk ids (4 * len)).Apart ⟨out, 4 * room⟩) (hpre : w.length ≤ room)
    (hi : i < as.length) : (m.writeU32s out w).readU32 (ids + 4 * i) = as[i] := by
  subst hids
  have hlt : i < len := by rwa [length_readU32s] at hi
  rw [getElem_readU32s]
  exact ((agreeOn_writeU32s (hapart.mono (.refl _)
    (Region.within_mk le_rfl (by omega)))).readU32_at (by omega)).symm

/-- **What is left of an array is copied** behind what was written. -/
theorem copyRest_eq {ids len room : ℕ} (hids : m.readU32s ids len = as)
    (hapart : (Region.mk ids (4 * len)).Apart ⟨out, 4 * room⟩)
    (hroom : w.length + (len - i) ≤ room) :
    copyRest out ids len (m.writeU32s out w) i w.length
      = (m.writeU32s out (w ++ as.drop i), (w ++ as.drop i).length) := by
  have hlength : as.length = len := by rw [← hids, length_readU32s]
  induction hleft : len - i generalizing i w with
  | zero =>
    rw [copyRest, if_neg (by omega), List.drop_eq_nil_of_le (by omega), List.append_nil]
  | succ left ih =>
    have hi : i < len := by omega
    rw [copyRest, if_pos hi, readU32_written hids hapart (by omega) (by omega), writeU32s_concat]
    have hrest := ih (i := i + 1) (w := w ++ [as[i]]) (by
      rw [List.length_append, List.length_singleton]
      omega) (by omega)
    rw [List.length_append, List.length_singleton] at hrest
    rw [hrest, List.append_assoc, List.singleton_append, ← List.drop_eq_getElem_cons]

/-- **The first loop** writes ids of the merge until one cursor is at its end. -/
theorem mergeBoth_eq (hA : m.readU32s idsA lenA = as) (hB : m.readU32s idsB lenB = bs)
    (hapartA : (Region.mk idsA (4 * lenA)).Apart ⟨out, 4 * (lenA + lenB)⟩)
    (hapartB : (Region.mk idsB (4 * lenB)).Apart ⟨out, 4 * (lenA + lenB)⟩)
    (hi : i ≤ lenA) (hj : j ≤ lenB) (hpre : w.length ≤ i + j)
    (hmerge : w ++ merge (as.drop i) (bs.drop j) = merge as bs) :
    ∃ i' j' w', mergeBoth idsA lenA idsB lenB out (m.writeU32s out w) i j w.length
        = (m.writeU32s out w', i', j', w'.length) ∧
      i' ≤ lenA ∧ j' ≤ lenB ∧ w'.length ≤ i' + j' ∧ (i' = lenA ∨ j' = lenB) ∧
      w' ++ merge (as.drop i') (bs.drop j') = merge as bs := by
  have hlengthA : as.length = lenA := by rw [← hA, length_readU32s]
  have hlengthB : bs.length = lenB := by rw [← hB, length_readU32s]
  induction hleft : (lenA - i) + (lenB - j) using Nat.strong_induction_on generalizing i j w with
  | _ left ih =>
    have hnext : ∀ {x i' j' : ℕ}, i' ≤ lenA → j' ≤ lenB → w.length + 1 ≤ i' + j' →
        (lenA - i') + (lenB - j') < left →
        w ++ x :: merge (as.drop i') (bs.drop j') = merge as bs →
        ∃ i'' j'' w', mergeBoth idsA lenA idsB lenB out
            ((m.writeU32s out w).write (out + 4 * w.length) (leBytes 4 x)) i' j' (w.length + 1)
          = (m.writeU32s out w', i'', j'', w'.length) ∧
          i'' ≤ lenA ∧ j'' ≤ lenB ∧ w'.length ≤ i'' + j'' ∧ (i'' = lenA ∨ j'' = lenB) ∧
          w' ++ merge (as.drop i'') (bs.drop j'') = merge as bs := by
      intro x i' j' hi' hj' hpre' hless hmerge'
      have hlength : (w ++ [x]).length = w.length + 1 := List.length_append
      rw [writeU32s_concat, ← hlength]
      exact ih _ hless hi' hj' (hlength ▸ hpre') (by rwa [List.append_assoc]) rfl
    rw [mergeBoth]
    by_cases hboth : i < lenA ∧ j < lenB
    · obtain ⟨hi', hj'⟩ := hboth
      have hdropA : as.drop i = as[i] :: as.drop (i + 1) := List.drop_eq_getElem_cons (by omega)
      have hdropB : bs.drop j = bs[j] :: bs.drop (j + 1) := List.drop_eq_getElem_cons (by omega)
      rw [if_pos ⟨hi', hj'⟩, readU32_written hA hapartA (by omega) (by omega),
        readU32_written hB hapartB (by omega) (by omega)]
      rw [hdropA, hdropB, merge_cons_cons, ← hdropA, ← hdropB] at hmerge
      dsimp only
      split_ifs with hab hba
      · rw [if_pos hab] at hmerge
        exact hnext hi' hj (by omega) (by omega) hmerge
      · rw [if_neg hab, if_pos hba] at hmerge
        exact hnext hi hj' (by omega) (by omega) hmerge
      · rw [if_neg hab, if_neg hba] at hmerge
        exact hnext hi' hj' (by omega) (by omega) hmerge
    · rw [if_neg hboth]
      exact ⟨i, j, w, rfl, hi, hj, hpre, by omega, hmerge⟩

/-- **The walk writes the merge of the arrays**, and nothing else. -/
theorem mergeSortedIdArrays_eq (hA : m.readU32s idsA lenA = as) (hB : m.readU32s idsB lenB = bs)
    (hapartA : (Region.mk idsA (4 * lenA)).Apart ⟨out, 4 * (lenA + lenB)⟩)
    (hapartB : (Region.mk idsB (4 * lenB)).Apart ⟨out, 4 * (lenA + lenB)⟩) :
    mergeSortedIdArrays idsA lenA idsB lenB out m
      = (m.writeU32s out (merge as bs), (merge as bs).length) := by
  have hlengthA : as.length = lenA := by rw [← hA, length_readU32s]
  have hlengthB : bs.length = lenB := by rw [← hB, length_readU32s]
  obtain ⟨i, j, w, hloop, hi, hj, hpre, hend, hmerge⟩ := mergeBoth_eq (i := 0) (j := 0)
    (w := []) hA hB hapartA hapartB (Nat.zero_le _) (Nat.zero_le _) le_rfl rfl
  rw [writeU32s_nil, List.length_nil] at hloop
  have hdrop : w ++ as.drop i ++ bs.drop j = merge as bs := by
    obtain rfl | rfl := hend
    · rw [List.drop_eq_nil_of_le hlengthA.le] at hmerge ⊢
      rw [List.append_nil]
      exact hmerge
    · rw [List.drop_eq_nil_of_le hlengthB.le] at hmerge ⊢
      rw [List.append_nil, ← hmerge, merge_nil_right]
  have hrestA := copyRest_eq (i := i) (w := w) hA hapartA (by omega)
  have hrestB := copyRest_eq (i := j) (w := w ++ as.drop i) hB hapartB (by
    rw [List.length_append, List.length_drop]
    omega)
  rw [hdrop] at hrestB
  rw [mergeSortedIdArrays, hloop]
  dsimp only
  rw [hrestA]
  exact hrestB

end WalkSpec

/-! ## The arena beside other blocks -/

section Beside

variable {H : LiveHeap} {heap heap' : H.State} {a a' : ArenaGlobals} {l : List Region} {n : UInt32}
  {offset : ℕ}

/-- A cursor that moves leaves what is owned. -/
theorem ArenaGlobals.owned_bump {chain : ChunkChain} (hchain : a.arena = some chain) (need : ℕ) :
    ({ a with arena := some (chain.bump need) } : ArenaGlobals).owned = a.owned := by
  obtain ⟨older, hchunks, hbump⟩ := chain.chunks_bump
  have hold : a.chunks = chain.chunks := by rw [chunks, hchain]; rfl
  have hnew : ({ a with arena := some (chain.bump need) } : ArenaGlobals).chunks
      = (chain.bump need).chunks := rfl
  rw [owned, owned, hold, hnew, hchunks, hbump, List.flatMap_cons, List.flatMap_cons]
  rfl

/-- **`arena_alloc` takes only fresh blocks**: others stay owned beside the arena's. -/
theorem LiveHeap.Owns.alloc (h : H.Owns heap (l ++ a.owned))
    (hstep : a.alloc H.toHeap n heap = some (offset, heap', a')) : H.Owns heap' (l ++ a'.owned) := by
  rw [ArenaGlobals.alloc] at hstep
  split at hstep
  · obtain ⟨rfl, rfl, rfl⟩ := hstep
    exact h
  · rcases hchain : a.arena with _ | chain
    · rw [hchain] at hstep
      cases hstep
    · rw [hchain] at hstep
      dsimp only at hstep
      split at hstep
      case isFalse =>
        obtain ⟨rfl, rfl, rfl⟩ := hstep
        rwa [ArenaGlobals.owned_bump hchain]
      case isTrue =>
        obtain ⟨heap₁, hchunk, howns⟩ | ⟨chunk, heap₁, hchunk, howns, -⟩ :=
          h.allocChunk (pickGrowSize chain.tail.capacity (needBytes n).toNat)
        · rw [hchunk] at hstep
          obtain ⟨rfl, rfl, rfl⟩ := hstep
          exact howns
        · rw [hchunk] at hstep
          obtain ⟨rfl, rfl, rfl⟩ := hstep
          have hold : a.owned = a.oomRegion ++ chain.chunks.flatMap CelArenaChunk.owned := by
            rw [ArenaGlobals.owned, ArenaGlobals.chunks, hchain]
            rfl
          rw [hold] at howns
          refine howns.perm ?_
          exact (List.perm_append_comm_assoc _ l _).trans
            ((List.perm_append_comm_assoc _ a.oomRegion _).append_left l)

/-- **`arena_reset` frees only what the arena owns.** -/
theorem LiveHeap.Owns.reset (h : H.Owns heap (l ++ a.owned)) :
    H.Owns (a.reset H.toHeap heap).1 (l ++ (a.reset H.toHeap heap).2.owned) := by
  have howns := h.perm (((a.owned_perm_releases H.toHeap heap).append_left l).trans
    (List.perm_append_comm_assoc _ _ _))
  rw [a.reset_fst H.toHeap heap]
  exact howns.foldl_free.1

/-- An initialised arena does not trap, and stays initialised. -/
theorem ArenaGlobals.exists_alloc (h : a.arena.isSome) (n : UInt32) (heap : H.State) :
    ∃ offset heap' a', a.alloc H.toHeap n heap = some (offset, heap', a') ∧ a'.arena.isSome := by
  obtain ⟨chain, hchain⟩ := Option.isSome_iff_exists.mp h
  rw [alloc, hchain]
  split_ifs with hn
  · exact ⟨_, _, _, rfl, h⟩
  · dsimp only
    split_ifs with hfull
    · rcases allocChunk H.toHeap heap (pickGrowSize chain.tail.capacity (needBytes n).toNat) with
        ⟨_ | chunk, heap'⟩
      · exact ⟨_, _, _, rfl, h⟩
      · exact ⟨_, _, _, rfl, rfl⟩
    · exact ⟨_, _, _, rfl, rfl⟩

end Beside

/-! ## The memory of an evaluation -/

/-- `MemoryLayout::kMaxMemoryBytes`. -/
def maxMemoryBytes : ℕ := 64 * 1024 * 1024

/-- A heap in a linear memory, which does not grow past its maximum. -/
structure LinearHeap extends LiveHeap where
  live_le : ∀ {heap address n}, live heap address = some n → address + n ≤ maxMemoryBytes

/-- What unknown sets depend on: the bytes, the heap, the arena with the blocks it has handed out
since the last reset, the activation buffer with what has been taken of it, and the cells. -/
structure UnknownState (H : LinearHeap) where
  memory : ByteMemory
  heap : H.State
  arena : ArenaGlobals
  handed : List HandedBlock
  buffer : ActivationBuffer
  cursor : ℕ
  slots : ℕ → WireCell

namespace UnknownState

variable {H : LinearHeap}

/-- **`arena_alloc`** — the offset of a cleared block, or 0; none where it traps. -/
def arenaAlloc (n : UInt32) (s : UnknownState H) : Option (ℕ × UnknownState H) :=
  match s.arena.alloc H.toHeap n s.heap with
  | none => none
  | some (offset, heap, arena) =>
    if offset = 0 then some (0, { s with heap, arena })
    else
      some (offset, { s with
        heap, arena
        memory := s.memory.write offset (List.replicate (needBytes n).toNat 0)
        handed := ⟨offset, n⟩ :: s.handed })

/-- `alloc_unknown_descriptor`. -/
def allocUnknownDescriptor (idsOff len : ℕ) (s : UnknownState H) : Option (ℕ × UnknownState H) := do
  let (descOff, s) ← s.arenaAlloc 8
  if descOff = 0 then return (0, s)
  else
    let memory := s.memory.write descOff (leBytes 4 idsOff)
    return (descOff, { s with memory := memory.write (descOff + 4) (leBytes 4 len) })

/-- **`merge_unknown_descriptors`**; the size of the array is found in 32 bits. -/
def mergeUnknownDescriptors (setA setB : ℕ) (s : UnknownState H) : Option (ℕ × UnknownState H) := do
  let idsAOff := s.memory.readU32 setA
  let lenA := s.memory.readU32 (setA + 4)
  let idsBOff := s.memory.readU32 setB
  let lenB := s.memory.readU32 (setB + 4)
  let maxTotal := UInt32.ofNat lenA + UInt32.ofNat lenB
  let bytes := if maxTotal * 4 = 0 then 4 else maxTotal * 4
  let (outIds, s) ← s.arenaAlloc bytes
  if outIds = 0 then return (0, s)
  else
    let (memory, k) := mergeSortedIdArrays idsAOff lenA idsBOff lenB outIds s.memory
    allocUnknownDescriptor outIds k { s with memory }

/-- Write a cell. -/
def writeCell (out : ℕ) (cell : WireCell) (s : UnknownState H) : UnknownState H :=
  { s with slots := Function.update s.slots out cell }

/-- **`cel_unknown_merge`**. -/
def celUnknownMerge (out a b : ℕ) (s : UnknownState H) : Option (UnknownState H) :=
  match s.slots a, s.slots b with
  | .unknown setA, .unknown setB =>
    if setA = 0 ∧ setB = 0 then some (s.writeCell out (.unknown 0))
    else if setA = 0 then some (s.writeCell out (.unknown setB))
    else if setB = 0 then some (s.writeCell out (.unknown setA))
    else do
      let (descOff, s) ← s.mergeUnknownDescriptors setA setB
      if descOff = 0 then return s.writeCell out (.inline (.error .overflow))
      else return s.writeCell out (.unknown descOff)
  | _, _ => some (s.writeCell out (.inline (.error .typeMismatch)))

/-! ## What is kept -/

/-- A region lies in what has been taken of the activation buffer, or in a block of the arena. -/
def Kept (s : UnknownState H) (r : Region) : Prop :=
  (0 < s.cursor ∧ r.Within ⟨s.buffer.offset, s.cursor⟩) ∨ ∃ b ∈ s.handed, r.Within b.region

/-- **The memory is sound**: the arena is one that a run leads to, and the activation buffer is a
block of the heap besides. -/
structure Sound (s : UnknownState H) : Prop where
  reached : ArenaReached H.toLiveHeap s.heap s.arena s.handed
  initialised : s.arena.arena.isSome
  cursor_le : s.cursor ≤ s.buffer.capacity.toNat
  owns : 0 < s.buffer.capacity.toNat →
    H.Owns s.heap (⟨s.buffer.offset, s.buffer.capacity.toNat⟩ :: s.arena.owned)

/-- **What is kept stays as it is.** -/
structure Extends (s s' : UnknownState H) : Prop where
  kept : ∀ {r}, s.Kept r → s'.Kept r
  agree : ∀ {r}, s.Kept r → AgreeOn r s.memory s'.memory

/-- A block that was handed out is one more region kept, apart from the others. -/
structure Grants (s s' : UnknownState H) (offset size : ℕ) : Prop where
  pos : 0 < offset
  kept : ∀ {r : Region}, r.Within ⟨offset, size⟩ → s'.Kept r
  apart : ∀ {r}, s.Kept r → r.Apart ⟨offset, size⟩
  le : offset + size ≤ maxMemoryBytes

variable {s s' s'' : UnknownState H} {r r' : Region} {offset size unk : ℕ} {ids : List ℕ}

theorem Kept.mono (h : s.Kept r) (hr : r'.Within r) : s.Kept r' := by
  obtain ⟨hpos, h⟩ | ⟨b, hb, h⟩ := h
  · exact .inl ⟨hpos, hr.trans h⟩
  · exact .inr ⟨b, hb, hr.trans h⟩

theorem Extends.refl (s : UnknownState H) : s.Extends s := ⟨id, fun _ => .refl _ _⟩

theorem Extends.trans (h : s.Extends s') (h' : s'.Extends s'') : s.Extends s'' where
  kept hr := h'.kept (h.kept hr)
  agree hr := (h.agree hr).trans (h'.agree (h.kept hr))

/-- A chunk's buffer is a live block. -/
theorem Sound.live_buffer (h : s.Sound) {c : CelArenaChunk} (hc : c ∈ s.arena.chunks) :
    c.base + c.capacity ≤ maxMemoryBytes :=
  H.live_le (h.reached.sound.owns.live _
    (List.mem_append_right _ (List.mem_flatMap_of_mem hc c.buffer_mem_owned)))

/-- A block handed out lies in the buffer of a chunk. -/
theorem Sound.exists_buffer (h : s.Sound) {b : HandedBlock} (hb : b ∈ s.handed) :
    ∃ c ∈ s.arena.chunks, b.region.Within ⟨c.base, c.capacity⟩ := by
  obtain ⟨c, hc, hwithin⟩ := h.reached.sound.inside b hb
  exact ⟨c, hc, hwithin.trans (h.reached.sound.sane c hc).used_within⟩

/-- **What is kept lies in the memory.** -/
theorem Sound.finish_le (h : s.Sound) (hr : s.Kept r) : r.finish ≤ maxMemoryBytes := by
  obtain ⟨hpos, hr⟩ | ⟨b, hb, hr⟩ := hr
  · have hlive := H.live_le ((h.owns (hpos.trans_le h.cursor_le)).live _ List.mem_cons_self)
    have hcursor := h.cursor_le
    refine hr.2.trans ?_
    change s.buffer.offset + s.cursor ≤ _
    dsimp only at hlive
    omega
  · obtain ⟨c, hc, hwithin⟩ := h.exists_buffer hb
    exact (hr.trans hwithin).2.trans (h.live_buffer hc)

/-- A block more is apart from what is kept. -/
theorem Sound.apart_cons {n : UInt32} {heap : H.State} {arena : ArenaGlobals} (h : s.Sound)
    (hreached : ArenaReached H.toLiveHeap heap arena (⟨offset, n⟩ :: s.handed))
    (howns : 0 < s.buffer.capacity.toNat →
      H.Owns heap (⟨s.buffer.offset, s.buffer.capacity.toNat⟩ :: arena.owned)) (hr : s.Kept r) :
    r.Apart (HandedBlock.mk offset n).region := by
  obtain ⟨hpos, hr⟩ | ⟨b, hb, hr⟩ := hr
  · obtain ⟨c, hc, hwithin⟩ := hreached.sound.inside _ List.mem_cons_self
    have hbuffer : (⟨c.base, c.capacity⟩ : Region) ∈ arena.owned :=
      List.mem_append_right _ (List.mem_flatMap_of_mem hc c.buffer_mem_owned)
    refine Region.Apart.mono ((List.pairwise_cons.mp
      (howns (hpos.trans_le h.cursor_le)).pairwise).1 _ hbuffer) (hr.trans ⟨le_rfl, ?_⟩)
      (hwithin.trans (hreached.sound.sane c hc).used_within)
    exact Nat.add_le_add_left h.cursor_le _
  · exact (((List.pairwise_cons.mp hreached.sound.apart).1 b hb).symm).mono hr (.refl _)

/-- The arena has no block of the size. -/
def Refuses (s : UnknownState H) (n : UInt32) : Prop :=
  ∃ heap arena, s.arena.alloc H.toHeap n s.heap = some (0, heap, arena)

/-- **`arena_alloc` keeps the memory sound**; it does not trap, changes nothing that is kept, and is
refused or grants a block. -/
theorem Sound.arenaAlloc (h : s.Sound) (n : UInt32) :
    ∃ offset s', s.arenaAlloc n = some (offset, s') ∧ s'.Sound ∧ s'.slots = s.slots ∧ s.Extends s' ∧
      ((offset = 0 ∧ s.Refuses n) ∨ s.Grants s' offset n.toNat) := by
  obtain ⟨offset, heap, arena, halloc, hinit⟩ :=
    ArenaGlobals.exists_alloc (H := H.toLiveHeap) h.initialised n s.heap
  have howns : 0 < s.buffer.capacity.toNat →
      H.Owns heap (⟨s.buffer.offset, s.buffer.capacity.toNat⟩ :: arena.owned) := fun hpos =>
    LiveHeap.Owns.alloc (l := [⟨s.buffer.offset, s.buffer.capacity.toNat⟩]) (h.owns hpos) halloc
  rw [UnknownState.arenaAlloc, halloc]
  dsimp only
  by_cases hzero : offset = 0
  · subst hzero
    exact ⟨0, _, if_pos rfl, ⟨.refused h.reached halloc, hinit, h.cursor_le, howns⟩, rfl,
      ⟨id, fun _ => .refl _ _⟩, .inl ⟨rfl, heap, arena, halloc⟩⟩
  · have hreached := ArenaReached.alloc h.reached halloc hzero
    have hapart : ∀ {r}, s.Kept r → r.Apart (HandedBlock.mk offset n).region :=
      fun hr => h.apart_cons hreached howns hr
    have hlong := hreached.sound.long _ List.mem_cons_self
    have hsound : Sound { s with
        heap, arena
        memory := s.memory.write offset (List.replicate (needBytes n).toNat 0)
        handed := ⟨offset, n⟩ :: s.handed } :=
      ⟨hreached, hinit, h.cursor_le, howns⟩
    have hwithin : (Region.mk offset n.toNat).Within (HandedBlock.mk offset n).region :=
      ⟨le_rfl, Nat.add_le_add_left hlong _⟩
    refine ⟨offset, _, if_neg hzero, hsound, rfl, ⟨?_, fun hr => agreeOn_write ?_⟩, .inr ⟨?_, ?_, ?_, ?_⟩⟩
    · exact Or.imp_right fun ⟨b, hb, hr⟩ => ⟨b, List.mem_cons_of_mem _ hb, hr⟩
    · rw [List.length_replicate]
      exact hapart hr
    · exact Nat.pos_of_ne_zero hzero
    · exact fun hr => .inr ⟨_, List.mem_cons_self, hr.trans hwithin⟩
    · exact fun hr => (hapart hr).mono (.refl _) hwithin
    · exact hsound.finish_le (r := ⟨offset, n.toNat⟩) (.inr ⟨_, List.mem_cons_self, hwithin⟩)

/-! ## Sets in memory -/

/-- **A set lies in memory**: the descriptor and the array are kept, and hold the ids. -/
structure SetAt (s : UnknownState H) (unk : ℕ) (ids : List ℕ) : Prop where
  pos : 0 < unk
  desc : s.Kept ⟨unk, 8⟩
  array : s.Kept ⟨s.memory.readU32 unk, 4 * s.memory.readU32 (unk + 4)⟩
  ids : s.memory.readU32s (s.memory.readU32 unk) (s.memory.readU32 (unk + 4)) = ids

/-- A set, by what its descriptor says. -/
theorem setAt_of {ptr len : ℕ} (hpos : 0 < unk) (hdesc : s.Kept ⟨unk, 8⟩)
    (hptr : s.memory.readU32 unk = ptr) (hlen : s.memory.readU32 (unk + 4) = len)
    (harray : s.Kept ⟨ptr, 4 * len⟩) (hids : s.memory.readU32s ptr len = ids) : s.SetAt unk ids := by
  subst hptr hlen
  exact ⟨hpos, hdesc, harray, hids⟩

/-- What an UNKNOWN cell holds; the empty set has no descriptor. -/
def Holds (s : UnknownState H) (unk : ℕ) (ids : List ℕ) : Prop := (unk = 0 ∧ ids = []) ∨ s.SetAt unk ids

/-- A slot is UNKNOWN, with these ids. -/
def Shows (s : UnknownState H) (slot : ℕ) (ids : List ℕ) : Prop :=
  ∃ unk, s.slots slot = .unknown unk ∧ s.Holds unk ids

/-- What a cell holds is what `DecodeUnknownSetAt` reads. -/
theorem Holds.decode (h : s.Holds unk ids) : decodeUnknownSetAt s.memory unk = ids := by
  obtain ⟨rfl, rfl⟩ | h := h
  · rfl
  · rw [decodeUnknownSetAt, if_neg h.pos.ne', h.ids]

/-- A slot shows one list of ids. -/
theorem Shows.unique {slot : ℕ} {ids' : List ℕ} (h : s.Shows slot ids) (h' : s.Shows slot ids') :
    ids = ids' := by
  obtain ⟨unk, hslot, hids⟩ := h
  obtain ⟨unk', hslot', hids'⟩ := h'
  obtain rfl : unk = unk' := Cell.unknown.inj (hslot.symm.trans hslot')
  exact hids.decode.symm.trans hids'.decode

/-- **A set stays** where its own bytes do. -/
theorem SetAt.keep (h : s.SetAt unk ids) (hkept : ∀ {r}, s.Kept r → s'.Kept r)
    (hdesc : AgreeOn ⟨unk, 8⟩ s.memory s'.memory)
    (harray : AgreeOn ⟨s.memory.readU32 unk, 4 * s.memory.readU32 (unk + 4)⟩ s.memory s'.memory) :
    s'.SetAt unk ids :=
  setAt_of h.pos (hkept h.desc) (hdesc.readU32_at (k := 0) (by decide)).symm
    (hdesc.readU32_at (k := 4) le_rfl).symm (hkept h.array) (harray.readU32s.symm.trans h.ids)

theorem SetAt.extends (h : s.SetAt unk ids) (he : s.Extends s') : s'.SetAt unk ids :=
  h.keep he.kept (he.agree h.desc) (he.agree h.array)

theorem Holds.extends (h : s.Holds unk ids) (he : s.Extends s') : s'.Holds unk ids :=
  h.imp_right fun h => h.extends he

theorem Sound.congr (h : s.Sound) {memory : ByteMemory} {slots : ℕ → WireCell} :
    Sound { s with memory, slots } := ⟨h.reached, h.initialised, h.cursor_le, h.owns⟩

/-- The bytes of a region granted can be written. -/
theorem Grants.extends_write {bytes : List UInt8} {addr : ℕ} (hg : s.Grants s' offset size)
    (he : s.Extends s') (hwithin : (Region.mk addr bytes.length).Within ⟨offset, size⟩) :
    s.Extends { s' with memory := s'.memory.write addr bytes } :=
  ⟨fun hr => he.kept hr, fun hr => (he.agree hr).trans
    (agreeOn_write ((hg.apart hr).mono (.refl _) hwithin))⟩

/-! ## The merge -/

/-- The arena has no block for the array of a merge, or then none for its descriptor. -/
def RefusesMerge (s : UnknownState H) (n : ℕ) : Prop :=
  s.Refuses (UInt32.ofNat (max 4 (4 * n))) ∨
    ∃ offset s', s.arenaAlloc (UInt32.ofNat (max 4 (4 * n))) = some (offset, s') ∧ 0 < offset ∧
      s'.Refuses 8

/-- A descriptor is written in a block of its own. -/
theorem Sound.allocUnknownDescriptor {idsOff len : ℕ} (h : s.Sound) (hoff : idsOff < 2 ^ 32)
    (hlen : len < 2 ^ 32) (hkept : s.Kept ⟨idsOff, 4 * len⟩)
    (hids : s.memory.readU32s idsOff len = ids) :
    ∃ descOff s', s.allocUnknownDescriptor idsOff len = some (descOff, s') ∧ s'.Sound ∧
      s'.slots = s.slots ∧ s.Extends s' ∧ ((descOff = 0 ∧ s.Refuses 8) ∨ s'.SetAt descOff ids) := by
  obtain ⟨descOff, s', halloc, hsound, hslots, hext, hrefused | hgrants⟩ := h.arenaAlloc 8
  · refine ⟨0, s', ?_, hsound, hslots, hext, .inl ⟨rfl, hrefused.2⟩⟩
    rw [UnknownState.allocUnknownDescriptor, halloc, hrefused.1]
    rfl
  · have hwords : (s'.memory.write descOff (leBytes 4 idsOff)).write (descOff + 4) (leBytes 4 len)
        = s'.memory.writeU32s descOff [idsOff, len] := by
      have h := @ByteMemory.writeU32s_concat s'.memory descOff [idsOff] len
      rw [writeU32s, List.flatMap_singleton] at h
      exact h
    have hext' : s.Extends { s' with memory := s'.memory.writeU32s descOff [idsOff, len] } :=
      hgrants.extends_write hext ⟨le_rfl, le_rfl⟩
    have hfits : ∀ x ∈ [idsOff, len], x < 2 ^ 32 := by
      intro x hx
      obtain rfl | rfl := List.mem_pair.mp hx
      · exact hoff
      · exact hlen
    have hptr : (s'.memory.writeU32s descOff [idsOff, len]).readU32 descOff = idsOff :=
      readU32_writeU32s (k := 0) hfits Nat.two_pos
    have hcount : (s'.memory.writeU32s descOff [idsOff, len]).readU32 (descOff + 4) = len :=
      readU32_writeU32s (k := 1) hfits Nat.one_lt_two
    refine ⟨descOff, { s' with memory := s'.memory.writeU32s descOff [idsOff, len] }, ?_,
      hsound.congr, hslots, hext', .inr (setAt_of hgrants.pos (hgrants.kept ⟨le_rfl, le_rfl⟩) hptr hcount
        (hext'.kept hkept) (((hext'.agree hkept).readU32s).symm.trans hids))⟩
    rw [UnknownState.allocUnknownDescriptor, halloc, ← hwords]
    exact if_neg hgrants.pos.ne'

theorem toNat_ofNat_u32 {n : ℕ} (h : n < 2 ^ 32) : (UInt32.ofNat n).toNat = n :=
  UInt32.toNat_ofNat_of_lt' h

/-- The sizing of the array does not wrap. -/
theorem toNat_arrayBytes {lenA lenB : ℕ} (h : 4 * lenA ≤ maxMemoryBytes)
    (h' : 4 * lenB ≤ maxMemoryBytes) :
    (let maxTotal := UInt32.ofNat lenA + UInt32.ofNat lenB
      if maxTotal * 4 = 0 then 4 else maxTotal * 4) = UInt32.ofNat (max 4 (4 * (lenA + lenB))) := by
  rw [maxMemoryBytes] at h h'
  have hbytes : (UInt32.ofNat lenA + UInt32.ofNat lenB) * 4 = UInt32.ofNat (4 * (lenA + lenB)) := by
    rw [← UInt32.toNat_inj, UInt32.toNat_mul, UInt32.toNat_add, toNat_ofNat_u32 (by omega),
      toNat_ofNat_u32 (by omega), toNat_ofNat_u32 (by omega)]
    change (lenA + lenB) % 2 ^ 32 * 4 % 2 ^ 32 = _
    omega
  dsimp only
  rw [hbytes]
  split_ifs with hzero
  · have hnone : 4 * (lenA + lenB) = 0 := by
      have hzero := congrArg UInt32.toNat hzero
      rw [toNat_ofNat_u32 (by omega)] at hzero
      exact hzero
    rw [hnone]
    rfl
  · have hsome : 4 * (lenA + lenB) ≠ 0 := fun hnone => hzero (by rw [hnone]; rfl)
    rw [max_eq_right (by omega)]

/-- **The merge of two sets** is a set of its own, unless the arena refuses it a block. -/
theorem Sound.mergeUnknownDescriptors {setA setB : ℕ} {as bs : List ℕ} (h : s.Sound)
    (hA : s.SetAt setA as) (hB : s.SetAt setB bs) :
    ∃ descOff s', s.mergeUnknownDescriptors setA setB = some (descOff, s') ∧ s'.Sound ∧
      s'.slots = s.slots ∧ s.Extends s' ∧
      ((descOff = 0 ∧ s.RefusesMerge (as.length + bs.length)) ∨ s'.SetAt descOff (merge as bs)) := by
  have hlenA : s.memory.readU32 (setA + 4) = as.length := by rw [← hA.ids, length_readU32s]
  have hlenB : s.memory.readU32 (setB + 4) = bs.length := by rw [← hB.ids, length_readU32s]
  have hkeptA := hA.array
  have hkeptB := hB.array
  have hidsA := hA.ids
  have hidsB := hB.ids
  rw [hlenA] at hkeptA hidsA
  rw [hlenB] at hkeptB hidsB
  have hfitA : 4 * as.length ≤ maxMemoryBytes := (Nat.le_add_left _ _).trans (h.finish_le hkeptA)
  have hfitB : 4 * bs.length ≤ maxMemoryBytes := (Nat.le_add_left _ _).trans (h.finish_le hkeptB)
  have hbytes := toNat_arrayBytes hfitA hfitB
  have hsize : (UInt32.ofNat (max 4 (4 * (as.length + bs.length)))).toNat
      = max 4 (4 * (as.length + bs.length)) := by
    rw [maxMemoryBytes] at hfitA hfitB
    exact toNat_ofNat_u32 (by omega)
  rw [UnknownState.mergeUnknownDescriptors, hlenA, hlenB]
  dsimp only at hbytes ⊢
  rw [hbytes]
  obtain ⟨outIds, s₁, halloc, hsound, hslots, hext, ⟨rfl, hrefused⟩ | hgrants⟩ :=
    h.arenaAlloc (UInt32.ofNat (max 4 (4 * (as.length + bs.length))))
  · rw [halloc]
    exact ⟨0, s₁, rfl, hsound, hslots, hext, .inl ⟨rfl, .inl hrefused⟩⟩
  · rw [hsize] at hgrants
    have harray : (Region.mk outIds (4 * (as.length + bs.length))).Within
        ⟨outIds, max 4 (4 * (as.length + bs.length))⟩ :=
      ⟨le_rfl, Nat.add_le_add_left (le_max_right _ _) _⟩
    have hwritten : (Region.mk outIds (4 * (merge as bs).length)).Within
        ⟨outIds, 4 * (as.length + bs.length)⟩ :=
      ⟨le_rfl, Nat.add_le_add_left (Nat.mul_le_mul_left 4 (length_merge_le as bs)) _⟩
    have hwalk := mergeSortedIdArrays_eq
      (((hext.agree hkeptA).readU32s).symm.trans hidsA)
      (((hext.agree hkeptB).readU32s).symm.trans hidsB)
      ((hgrants.apart hkeptA).mono (.refl _) harray) ((hgrants.apart hkeptB).mono (.refl _) harray)
    have hlength := length_merge_le as bs
    have hfits : ∀ x ∈ merge as bs, x < 2 ^ 32 := by
      intro x hx
      obtain hx | hx := mem_merge.mp hx
      · exact lt_of_mem_readU32s (hidsA ▸ hx)
      · exact lt_of_mem_readU32s (hidsB ▸ hx)
    have hext' : s.Extends { s₁ with memory := s₁.memory.writeU32s outIds (merge as bs) } :=
      hgrants.extends_write hext (by rw [length_words]; exact hwritten.trans harray)
    have hle := hgrants.le
    rw [maxMemoryBytes] at hle hfitA hfitB
    obtain ⟨descOff, s', hdesc, hsound', hslots', hext'', hset⟩ :=
      Sound.allocUnknownDescriptor
        (s := { s₁ with memory := s₁.memory.writeU32s outIds (merge as bs) }) hsound.congr
        (by omega) (by omega)
        (hgrants.kept (hwritten.trans harray)) (readU32s_writeU32s hfits)
    refine ⟨descOff, s', ?_, hsound', hslots'.trans hslots, hext'.trans hext'', ?_⟩
    · rw [halloc]
      change (if outIds = 0 then _ else _) = _
      rw [if_neg hgrants.pos.ne', hwalk]
      exact hdesc
    · exact hset.imp_left fun ⟨hzero, hrefused⟩ =>
        ⟨hzero, .inr ⟨outIds, s₁, halloc, hgrants.pos, hrefused⟩⟩

/-- **`cel_unknown_merge` merges the arrays**, and leaves every set as it is; where the arena refuses
a block the result is an OVERFLOW. -/
theorem Sound.celUnknownMerge {a b : ℕ} {as bs : List ℕ} (h : s.Sound) (out : ℕ) (hA : s.Shows a as)
    (hB : s.Shows b bs) :
    ∃ s', s.celUnknownMerge out a b = some s' ∧ s'.Sound ∧ s.Extends s' ∧
      (∀ slot, slot ≠ out → s'.slots slot = s.slots slot) ∧
      (s'.Shows out (merge as bs) ∨
        (s'.slots out = .inline (.error .overflow) ∧ s.RefusesMerge (as.length + bs.length))) := by
  obtain ⟨setA, hslotA, hA⟩ := hA
  obtain ⟨setB, hslotB, hB⟩ := hB
  have hother : ∀ (t : UnknownState H) (cell : WireCell) slot, slot ≠ out →
      (t.writeCell out cell).slots slot = t.slots slot := fun t cell slot hne =>
    Function.update_of_ne hne _ _
  have hself : ∀ (t : UnknownState H) (cell : WireCell), (t.writeCell out cell).slots out = cell :=
    fun t cell => Function.update_self _ _ _
  -- one side is empty: the cell shares the descriptor of the other
  have hshared : ∀ {unk ids}, s.Holds unk ids → ∃ s', some (s.writeCell out (.unknown unk)) = some s' ∧
      s'.Sound ∧ s.Extends s' ∧ (∀ slot, slot ≠ out → s'.slots slot = s.slots slot) ∧
      s'.Shows out ids := by
    intro unk ids hids
    have hext : s.Extends (s.writeCell out (.unknown unk)) := ⟨id, fun _ => .refl _ _⟩
    exact ⟨_, rfl, h.congr, hext, hother _ _, unk, hself _ _, hids.extends hext⟩
  have hempty : s.Holds 0 [] := .inl ⟨rfl, rfl⟩
  rw [UnknownState.celUnknownMerge, hslotA, hslotB]
  dsimp only
  obtain ⟨rfl, rfl⟩ | hsetA := hA
  · obtain ⟨rfl, rfl⟩ | hsetB := hB
    · rw [if_pos ⟨rfl, rfl⟩]
      obtain ⟨s', hrun, hsound, hext, hslots, hshows⟩ := hshared hempty
      exact ⟨s', hrun, hsound, hext, hslots, .inl hshows⟩
    · rw [if_neg (fun hzero => hsetB.pos.ne' hzero.2), if_pos rfl]
      obtain ⟨s', hrun, hsound, hext, hslots, hshows⟩ := hshared (.inr hsetB)
      exact ⟨s', hrun, hsound, hext, hslots, .inl hshows⟩
  · rw [if_neg (fun hzero => hsetA.pos.ne' hzero.1), if_neg hsetA.pos.ne']
    obtain ⟨rfl, rfl⟩ | hsetB := hB
    · rw [if_pos rfl, merge_nil_right]
      obtain ⟨s', hrun, hsound, hext, hslots, hshows⟩ := hshared (.inr hsetA)
      exact ⟨s', hrun, hsound, hext, hslots, .inl hshows⟩
    · rw [if_neg hsetB.pos.ne']
      obtain ⟨descOff, s', hmerge, hsound, hslots, hext, hresult⟩ :=
        h.mergeUnknownDescriptors hsetA hsetB
      rw [hmerge]
      change ∃ s'', (if descOff = 0 then _ else _) = some s'' ∧ _
      have hwrite : ∀ cell, s.Extends (s'.writeCell out cell) := fun cell =>
        ⟨fun hr => hext.kept hr, fun hr => hext.agree hr⟩
      have hslots' : ∀ cell slot, slot ≠ out → (s'.writeCell out cell).slots slot = s.slots slot :=
        fun cell slot hne => (hother s' cell slot hne).trans (congrFun hslots slot)
      obtain ⟨rfl, hrefused⟩ | hset := hresult
      · exact ⟨_, if_pos rfl, hsound.congr, hwrite _, hslots' _, .inr ⟨hself _ _, hrefused⟩⟩
      · refine ⟨_, if_neg hset.pos.ne', hsound.congr, hwrite _, hslots' _, .inl ⟨descOff, hself _ _, .inr ?_⟩⟩
        exact hset.extends ⟨id, fun _ => .refl _ _⟩

/-- **The merge in memory is the merge of the kernels**: granted its blocks, it shows the set that
`CelWasm.celUnknownMerge` computes. -/
theorem Sound.celUnknownMerge_refines {out a b : ℕ} {A B : UnknownSet} (h : s.Sound)
    (hA : s.Shows a A.toList) (hB : s.Shows b B.toList)
    (hroom : ¬s.RefusesMerge (A.toList.length + B.toList.length)) :
    ∃ s' C, s.celUnknownMerge out a b = some s' ∧ s'.Shows out C.toList ∧
      (CelWasm.celUnknownMerge (.unknown A) (.unknown B)).granted = .ok (.unknown C) := by
  obtain ⟨s', hrun, -, -, -, hshows | ⟨-, hrefused⟩⟩ := h.celUnknownMerge out hA hB
  · exact ⟨s', A ∪ B, hrun, hshows, granted_celUnknownMerge A B⟩
  · exact absurd hrefused hroom

/-! ## The host's encoder -/

/-- `WasmtimeArenaAllocator::Alloc`; the size is cut to 32 bits, and a trap is a refusal as well. -/
def hostAlloc (len : ℕ) (s : UnknownState H) : Option ℕ × UnknownState H :=
  match s.arenaAlloc (UInt32.ofNat len) with
  | none => (none, s)
  | some (offset, s) => if offset = 0 then (none, s) else (some offset, s)

/-- `std::memcpy` into the memory; behind the last address there is none, and the host faults. -/
def copyIn (addr : ℕ) (bytes : List UInt8) (s : UnknownState H) : Outcome (UnknownState H) :=
  if addr + bytes.length ≤ 2 ^ 32 then .ok { s with memory := s.memory.write addr bytes }
  else .error .abort

/-- **`EncodeUnknownSet`** — `payload.unk`, or the failing status. -/
def encodeUnknownSet (ids : List UInt32) (s : UnknownState H) :
    Outcome (Except Status ℕ × UnknownState H) :=
  if ids = [] then return (.ok 0, s)
  else
    let sorted := unique (ids.map UInt32.toNat).mergeSort
    let bytes := (2 + sorted.length) * 4
    match s.hostAlloc bytes with
    | (none, s) =>
      return (.error
        { code := .resourceExhausted
          message := "arena OOM minting an UnknownSet descriptor" }, s)
    | (some off, s) => do
      let s ← s.copyIn off (leBytes 4 (off + 8) ++ leBytes 4 sorted.length)
      let s ← s.copyIn (off + 8) (sorted.flatMap (leBytes 4))
      return (.ok off, s)

/-- **The ids are sorted**, each is kept once. -/
theorem sorted_ids (ids : List UInt32) :
    (unique (ids.map UInt32.toNat).mergeSort).Pairwise (· < ·) ∧
      ∀ x, x ∈ unique (ids.map UInt32.toNat).mergeSort ↔ ∃ id ∈ ids, id.toNat = x := by
  refine ⟨pairwise_unique ?_, fun x => ?_⟩
  · have hsorted := @List.pairwise_mergeSort ℕ (fun a b => decide (a ≤ b))
      (fun a b c hab hbc => by simp only [decide_eq_true_eq] at *; omega)
      (fun a b => by simp only [Bool.or_eq_true, decide_eq_true_eq]; omega) (ids.map UInt32.toNat)
    exact hsorted.imp of_decide_eq_true
  · rw [mem_unique, List.mem_mergeSort, List.mem_map]

/-- A descriptor and its array stand in one block. -/
theorem Grants.setAt {off : ℕ} (hg : s.Grants s' off ((2 + ids.length) * 4))
    (hids : ∀ x ∈ ids, x < 2 ^ 32) :
    SetAt { s' with memory := (s'.memory.writeU32s off [off + 8, ids.length]).writeU32s (off + 8) ids }
      off ids := by
  have hle := hg.le
  rw [maxMemoryBytes] at hle
  have hfits : ∀ x ∈ [off + 8, ids.length], x < 2 ^ 32 := by
    intro x hx
    obtain rfl | rfl := List.mem_pair.mp hx <;> omega
  have hagree : AgreeOn ⟨off, 8⟩ (s'.memory.writeU32s off [off + 8, ids.length])
      ((s'.memory.writeU32s off [off + 8, ids.length]).writeU32s (off + 8) ids) :=
    agreeOn_writeU32s (.inl le_rfl)
  have hptr : ((s'.memory.writeU32s off [off + 8, ids.length]).writeU32s (off + 8) ids).readU32 off
      = off + 8 := by
    exact (hagree.readU32_at (k := 0) (by decide)).symm.trans
      (readU32_writeU32s (k := 0) hfits Nat.two_pos)
  have hcount : ((s'.memory.writeU32s off [off + 8, ids.length]).writeU32s (off + 8) ids).readU32
      (off + 4) = ids.length := by
    rw [← hagree.readU32_at (k := 4) le_rfl]
    exact readU32_writeU32s (k := 1) hfits Nat.one_lt_two
  exact setAt_of hg.pos (hg.kept (Region.within_mk le_rfl (by omega))) hptr hcount
    (hg.kept (Region.within_mk (Nat.le_add_right _ _) (by omega))) (readU32s_writeU32s hids)

/-- **`EncodeUnknownSet` writes a strictly increasing array** of the ids it is given, and leaves
every set as it is; it fails where the arena refuses the block, and faults on ids that do not fit the
address space. -/
theorem Sound.encodeUnknownSet (h : s.Sound) (ids : List UInt32) :
    (s.encodeUnknownSet ids = .error .abort ∧ 2 ^ 30 ≤ 2 + ids.length) ∨
    ∃ result s', s.encodeUnknownSet ids = .ok (result, s') ∧ s'.Sound ∧ s'.slots = s.slots ∧
      s.Extends s' ∧
      ((∃ status n, result = .error status ∧ s.Refuses n) ∨
        ∃ unk set, result = .ok unk ∧ s'.Holds unk set ∧ set.Pairwise (· < ·) ∧
          ∀ x, x ∈ set ↔ ∃ id ∈ ids, id.toNat = x) := by
  obtain ⟨hsorted, hmem⟩ := sorted_ids ids
  have hcount : (unique (ids.map UInt32.toNat).mergeSort).length ≤ ids.length := by
    refine (length_unique_le _).trans ?_
    rw [List.length_mergeSort, List.length_map]
  have hids : ∀ x, (∃ id ∈ ids, id.toNat = x) → x < 2 ^ 32 := by
    rintro x ⟨id, -, rfl⟩
    exact id.toNat_lt
  rw [UnknownState.encodeUnknownSet]
  by_cases hempty : ids = []
  · subst hempty
    exact .inr ⟨_, s, rfl, h, rfl, .refl s, .inr ⟨0, [], rfl, .inl ⟨rfl, rfl⟩, .nil, by simp⟩⟩
  · rw [if_neg hempty]
    generalize unique (ids.map UInt32.toNat).mergeSort = sorted at hsorted hmem hcount ⊢
    dsimp only
    obtain ⟨off, s₁, halloc, hsound, hslots, hext, ⟨rfl, hrefused⟩ | hgrants⟩ :=
      h.arenaAlloc (UInt32.ofNat ((2 + sorted.length) * 4))
    · rw [hostAlloc, halloc]
      exact .inr ⟨_, s₁, rfl, hsound, hslots, hext, .inl ⟨_, _, rfl, hrefused⟩⟩
    · rw [hostAlloc, halloc]
      dsimp only
      rw [if_neg hgrants.pos.ne']
      dsimp only
      have hwords : leBytes 4 (off + 8) ++ leBytes 4 sorted.length
          = [off + 8, sorted.length].flatMap (leBytes 4) := by simp
      rcases lt_or_ge ((2 + sorted.length) * 4) (2 ^ 32) with hbytes | hbytes
      · rw [toNat_ofNat_u32 hbytes] at hgrants
        have hle := hgrants.le
        rw [maxMemoryBytes] at hle
        have hext' : s.Extends { s₁ with memory := s₁.memory.writeU32s off [off + 8, sorted.length] } :=
          hgrants.extends_write hext (by
            rw [length_words]
            exact Region.within_mk le_rfl (by simp only [List.length_cons, List.length_nil]; omega))
        have hext'' : s.Extends { s₁ with memory :=
            (s₁.memory.writeU32s off [off + 8, sorted.length]).writeU32s (off + 8) sorted } :=
          ⟨fun hr => hext.kept hr, fun hr => (hext'.agree hr).trans (agreeOn_write
            ((hgrants.apart hr).mono (.refl _) (by
              rw [length_words]
              exact Region.within_mk (Nat.le_add_right _ _) (by omega))))⟩
        have hset := hgrants.setAt fun x hx => hids x ((hmem x).mp hx)
        refine .inr ⟨.ok off, { s₁ with memory :=
            (s₁.memory.writeU32s off [off + 8, sorted.length]).writeU32s (off + 8) sorted }, ?_,
          hsound.congr, hslots, hext'', .inr ⟨off, sorted, rfl, .inr hset, hsorted, hmem⟩⟩
        rw [hwords, copyIn, if_pos (by rw [length_words]; simp only [List.length_cons, List.length_nil]; omega)]
        change (copyIn _ _ _ >>= _) = _
        rw [copyIn, if_pos (by rw [length_words]; omega)]
        rfl
      · refine .inl ⟨?_, by omega⟩
        have hpos := hgrants.pos
        rw [copyIn]
        split_ifs
        · change (copyIn _ _ _ >>= _) = _
          rw [copyIn, if_neg (by rw [length_words]; omega)]
          rfl
        · rfl

/-! ## Binding the variables -/

/-- **`EncodeUnknownVariable`**, or none where the buffer is full. -/
def encodeUnknownVariable (slot id : ℕ) (s : UnknownState H) : Option (UnknownState H) :=
  if s.cursor + unknownDescriptorBytes.toNat > s.buffer.capacity.toNat then none
  else
    let offset := s.buffer.offset + s.cursor
    some { s with
      memory := s.memory.write offset (leBytes 4 (offset + 8) ++ leBytes 4 1 ++ leBytes 4 id)
      cursor := s.cursor + unknownDescriptorBytes.toNat
      slots := Function.update s.slots slot (.unknown offset) }

/-- Any other variable: the bytes of its payload, and its cell. -/
def bindPayload (slot : ℕ) (cell : WireCell) (bytes : List UInt8) (taken : ℕ) (s : UnknownState H) :
    UnknownState H :=
  { s with
    memory := s.memory.write (s.buffer.offset + s.cursor) bytes
    cursor := s.cursor + taken
    slots := Function.update s.slots slot cell }

/-- The memory without the blocks of the arena, as a reset leaves it. -/
def released (s : UnknownState H) : UnknownState H := { s with handed := [] }

/-- **The step is the one of `MarshalActivation`**, seen on the bytes and the cells. -/
theorem encodeUnknownVariable_eq {P : Platform} {t t' : MarshalState P} {dv : VariableEntry} {id : ℕ}
    (hstep : t.encodeUnknownVariable dv id = (none, t'))
    (hcapacity : t.arena.capacity = t.inst.buffer.capacity) (hmemory : s.memory = t.inst.memory)
    (hslots : s.slots = t.inst.slots) (hbuffer : s.buffer = t.inst.buffer)
    (hcursor : s.cursor = t.arena.cursor.toNat) :
    ∃ s', s.encodeUnknownVariable dv.slotOffset id = some s' ∧ s'.memory = t'.inst.memory ∧
      s'.slots = t'.inst.slots ∧ s'.cursor = t'.arena.cursor.toNat := by
  rw [MarshalState.encodeUnknownVariable] at hstep
  split_ifs at hstep with hfull
  · exact nomatch hstep
  · obtain rfl := (Prod.mk.inj hstep).2
    rw [UnknownState.encodeUnknownVariable, hcursor, hbuffer, ← hcapacity, if_neg hfull]
    have hwrap := t.arena.capacity.toNat_lt
    refine ⟨_, rfl, ?_, ?_, ?_⟩
    · rw [hmemory]
      rfl
    · rw [hslots]
      rfl
    · change _ = (t.arena.cursor + unknownDescriptorBytes).toNat
      rw [UInt32.toNat_add, Nat.mod_eq_of_lt (by omega)]

/-- What lies in the buffer stays where bytes are written behind the cursor. -/
theorem extends_behind {bytes : List UInt8} {taken : ℕ} {slots : ℕ → WireCell} :
    s.released.Extends { s.released with
      memory := s.memory.write (s.buffer.offset + s.cursor) bytes
      cursor := s.cursor + taken, slots } where
  kept {r} hr := by
    obtain ⟨hpos, hr⟩ | ⟨b, hb, -⟩ := hr
    · exact .inl ⟨Nat.add_pos_left hpos _, hr.trans ⟨le_rfl, Nat.add_le_add_left (Nat.le_add_right _ _) _⟩⟩
    · exact absurd hb List.not_mem_nil
  agree {r} hr := by
    obtain ⟨-, hr⟩ | ⟨b, hb, -⟩ := hr
    · exact agreeOn_write (.inl hr.2)
    · exact absurd hb List.not_mem_nil

/-- **A variable that is unknown** holds the one id. -/
theorem encodeUnknownVariable_spec {slot id : ℕ} (hid : id < 2 ^ 32)
    (hstep : s.encodeUnknownVariable slot id = some s') (hs : s.Sound) :
    s'.Sound ∧ s.released.Extends s'.released ∧
      ∃ unk, s'.slots = Function.update s.slots slot (.unknown unk) ∧ s'.released.SetAt unk [id] := by
  rw [UnknownState.encodeUnknownVariable] at hstep
  split_ifs at hstep with hfull
  have hsize : unknownDescriptorBytes.toNat = 16 := rfl
  rw [hsize] at hfull
  have hle := s.buffer.le
  have hpos : 0 < s.buffer.offset + s.cursor :=
    Nat.add_pos_left (s.buffer.pos (UInt32.lt_iff_toNat_lt.mpr (by change 0 < _; omega))) _
  obtain rfl := Option.some.inj hstep
  refine ⟨⟨hs.reached, hs.initialised, not_lt.mp hfull, hs.owns⟩, extends_behind,
    s.buffer.offset + s.cursor, rfl, ?_⟩
  have hwords : ∀ o, leBytes 4 (o + 8) ++ leBytes 4 1 ++ leBytes 4 id
      = [o + 8, 1, id].flatMap (leBytes 4) := fun o => by simp
  have hfits : ∀ x ∈ [s.buffer.offset + s.cursor + 8, 1, id], x < 2 ^ 32 := by
    intro x hx
    simp only [List.mem_cons, List.not_mem_nil, or_false] at hx
    omega
  have hread : ∀ k (hk : k < 3), (s.memory.write (s.buffer.offset + s.cursor)
      (leBytes 4 (s.buffer.offset + s.cursor + 8) ++ leBytes 4 1 ++ leBytes 4 id)).readU32
        (s.buffer.offset + s.cursor + 4 * k) = [s.buffer.offset + s.cursor + 8, 1, id][k] := fun k hk => by
    rw [hwords]
    exact readU32_writeU32s hfits hk
  have hptr := hread 0 (by decide)
  have hcount := hread 1 (by decide)
  have hone := hread 2 (by decide)
  simp only [List.getElem_cons_zero, List.getElem_cons_succ] at hptr hcount hone
  have hcursor : 0 < s.cursor + 16 := Nat.add_pos_right _ (by decide)
  refine setAt_of hpos (.inl ⟨hcursor, ?_⟩) hptr hcount (.inl ⟨hcursor, ?_⟩) (congrArg (fun x => [x]) hone)
  · exact Region.within_mk (b := s.buffer.offset) (k := s.cursor + 16) (Nat.le_add_right _ _) (by omega)
  · exact Region.within_mk (b := s.buffer.offset) (k := s.cursor + 16) (by omega) (by omega)

/-! ## Every run -/

/-- `arena_reset`. -/
def arenaReset (s : UnknownState H) : UnknownState H :=
  let (heap, arena) := s.arena.reset H.toHeap s.heap
  { s with heap, arena, handed := [] }

/-- **A step of the rest of the runtime**: it may take blocks and write to them, but to no set that a
cell leads to, and it makes no cell UNKNOWN but by copying one. -/
structure Elsewhere (s s' : UnknownState H) : Prop where
  sound : s'.Sound
  kept : ∀ {r}, s.Kept r → s'.Kept r
  slots : ∀ slot unk, s'.slots slot = .unknown unk → ∃ slot', s.slots slot' = .unknown unk
  memory : ∀ slot unk, s.slots slot = .unknown unk → 0 < unk →
    AgreeOn ⟨unk, 8⟩ s.memory s'.memory ∧
      AgreeOn ⟨s.memory.readU32 unk, 4 * s.memory.readU32 (unk + 4)⟩ s.memory s'.memory

/-- **The binding of the variables**, from a memory in which no cell of the evaluation is UNKNOWN. -/
inductive Marshalled : UnknownState H → Prop
  | start {s : UnknownState H} : s.Sound → (∀ slot unk, s.slots slot ≠ .unknown unk) → Marshalled s
  | unknown {s s' : UnknownState H} {slot id : ℕ} : Marshalled s → id < 2 ^ 32 →
    s.encodeUnknownVariable slot id = some s' → Marshalled s'
  | payload {s : UnknownState H} {slot cell bytes taken} : Marshalled s → (∀ unk, cell ≠ .unknown unk) →
    s.cursor + taken ≤ s.buffer.capacity.toNat → bytes.length ≤ taken →
    Marshalled (s.bindPayload slot cell bytes taken)

/-- **An evaluation**: the variables are bound, the arena is reset, and then the host writes unknown
sets, the runtime merges them and copies cells, in any order. -/
inductive Evaluated : UnknownState H → Prop
  | reset {s : UnknownState H} : Marshalled s → Evaluated s.arenaReset
  | encode {s s' : UnknownState H} {ids unk out} : Evaluated s → s.encodeUnknownSet ids = .ok (.ok unk, s') →
    Evaluated (s'.writeCell out (.unknown unk))
  | refused {s s' : UnknownState H} {ids status} : Evaluated s → s.encodeUnknownSet ids = .ok (.error status, s') →
    Evaluated s'
  | merge {s s' : UnknownState H} {out a b} : Evaluated s → s.celUnknownMerge out a b = some s' → Evaluated s'
  | copy {s : UnknownState H} {dst src} : Evaluated s → Evaluated (s.writeCell dst (s.slots src))
  | other {s s' : UnknownState H} : Evaluated s → s.Elsewhere s' → Evaluated s'

/-- **Every UNKNOWN cell holds a strictly increasing array.** -/
def SortedSets (s : UnknownState H) : Prop :=
  ∀ slot unk, s.slots slot = .unknown unk → ∃ ids, s.Holds unk ids ∧ ids.Pairwise (· < ·)

/-- A reset frees only blocks of the arena. -/
theorem Sound.arenaReset (h : s.Sound) : s.arenaReset.Sound where
  reached := .reset h.reached
  initialised := by
    obtain ⟨chain, hchain⟩ := Option.isSome_iff_exists.mp h.initialised
    change (s.arena.reset H.toHeap s.heap).2.arena.isSome
    rw [ArenaGlobals.reset, hchain]
    rfl
  cursor_le := h.cursor_le
  owns hpos := LiveHeap.Owns.reset (l := [⟨s.buffer.offset, s.buffer.capacity.toNat⟩]) (h.owns hpos)

theorem SortedSets.extends (h : s.SortedSets) (he : s.Extends s') (hslots : s'.slots = s.slots) :
    s'.SortedSets := by
  intro slot unk hslot
  obtain ⟨ids, hids, hsorted⟩ := h slot unk (hslots ▸ hslot)
  exact ⟨ids, hids.extends he, hsorted⟩

/-- A cell written is one cell more to look at. -/
theorem SortedSets.update {cell : WireCell} (h : s.SortedSets) (out : ℕ) (he : s.Extends s')
    (hslots : s'.slots = Function.update s.slots out cell)
    (hcell : ∀ unk, cell = .unknown unk → ∃ ids, s'.Holds unk ids ∧ ids.Pairwise (· < ·)) :
    s'.SortedSets := by
  intro slot unk hslot
  rw [hslots] at hslot
  by_cases hout : slot = out
  · rw [hout, Function.update_self] at hslot
    exact hcell unk hslot
  · rw [Function.update_of_ne hout] at hslot
    obtain ⟨ids, hids, hsorted⟩ := h slot unk hslot
    exact ⟨ids, hids.extends he, hsorted⟩

theorem extends_writeCell (s : UnknownState H) (out : ℕ) (cell : WireCell) :
    s.Extends (s.writeCell out cell) := ⟨id, fun _ => .refl _ _⟩

/-- **While the variables are bound** every set lies in the buffer. -/
theorem Marshalled.sorted (h : s.Marshalled) : s.Sound ∧ s.released.SortedSets := by
  induction h with
  | start hsound hnone => exact ⟨hsound, fun slot unk hslot => absurd hslot (hnone slot unk)⟩
  | unknown _ hid hstep ih =>
    obtain ⟨hsound, hext, unk, hslots, hset⟩ := encodeUnknownVariable_spec hid hstep ih.1
    refine ⟨hsound, ih.2.update _ hext hslots ?_⟩
    rintro _ ⟨⟩
    exact ⟨_, .inr hset, List.pairwise_singleton _ _⟩
  | payload _ hcell hroom _ ih =>
    refine ⟨⟨ih.1.reached, ih.1.initialised, hroom, ih.1.owns⟩, ?_⟩
    exact ih.2.update _ extends_behind rfl fun unk hunk => absurd hunk (hcell unk)

/-- Two cells of which one is not UNKNOWN are not merged. -/
theorem celUnknownMerge_of_not {out a b : ℕ}
    (h : ¬∃ setA setB, s.slots a = .unknown setA ∧ s.slots b = .unknown setB) :
    s.celUnknownMerge out a b = some (s.writeCell out (.inline (.error .typeMismatch))) := by
  rw [celUnknownMerge]
  split
  · next hA hB => exact absurd ⟨_, _, hA, hB⟩ h
  · rfl

/-- **Every state of an evaluation is sound, and every UNKNOWN cell in it holds a strictly increasing
array.** -/
theorem Evaluated.sorted (h : s.Evaluated) : s.Sound ∧ s.SortedSets := by
  induction h with
  | reset hbound =>
    obtain ⟨hsound, hsorted⟩ := hbound.sorted
    refine ⟨hsound.arenaReset, fun slot unk hslot => ?_⟩
    obtain ⟨ids, hids, hincreasing⟩ := hsorted slot unk hslot
    exact ⟨ids, hids.imp_right fun hset => hset.keep id (.refl _ _) (.refl _ _), hincreasing⟩
  | @encode s s' ids unk out _ hstep ih =>
    obtain ⟨hsound, hsorted⟩ := ih
    obtain ⟨hfault, -⟩ | ⟨result, t, hrun, hsound', hslots, hext, hresult⟩ := hsound.encodeUnknownSet ids
    · exact nomatch hfault.symm.trans hstep
    · obtain ⟨rfl, rfl⟩ := Prod.mk.inj (Except.ok.inj (hrun.symm.trans hstep))
      obtain ⟨_, _, hstatus, -⟩ | ⟨unk', set, hunk, hset, hincreasing, -⟩ := hresult
      · exact nomatch hstatus
      · obtain rfl := Except.ok.inj hunk
        refine ⟨hsound'.congr, hsorted.update out (hext.trans (extends_writeCell t out _))
          (congrArg (Function.update · out _) hslots) ?_⟩
        rintro _ ⟨⟩
        exact ⟨set, hset.extends (extends_writeCell t out _), hincreasing⟩
  | @refused s s' ids status _ hstep ih =>
    obtain ⟨hsound, hsorted⟩ := ih
    obtain ⟨hfault, -⟩ | ⟨result, t, hrun, hsound', hslots, hext, -⟩ := hsound.encodeUnknownSet ids
    · exact nomatch hfault.symm.trans hstep
    · obtain ⟨-, rfl⟩ := Prod.mk.inj (Except.ok.inj (hrun.symm.trans hstep))
      exact ⟨hsound', hsorted.extends hext hslots⟩
  | @merge s s' out a b _ hstep ih =>
    obtain ⟨hsound, hsorted⟩ := ih
    by_cases hboth : ∃ setA setB, s.slots a = .unknown setA ∧ s.slots b = .unknown setB
    · obtain ⟨setA, setB, hslotA, hslotB⟩ := hboth
      obtain ⟨as, hA, hincreasingA⟩ := hsorted a setA hslotA
      obtain ⟨bs, hB, hincreasingB⟩ := hsorted b setB hslotB
      obtain ⟨t, hrun, hsound', hext, hother, hresult⟩ :=
        hsound.celUnknownMerge out ⟨setA, hslotA, hA⟩ ⟨setB, hslotB, hB⟩
      obtain rfl := Option.some.inj (hrun.symm.trans hstep)
      have hslots : t.slots = Function.update s.slots out (t.slots out) :=
        Function.eq_update_iff.mpr ⟨rfl, fun slot hne => hother slot hne⟩
      refine ⟨hsound', hsorted.update out hext hslots fun unk hunk => ?_⟩
      obtain ⟨unk', hslot, hids⟩ | ⟨hoverflow, -⟩ := hresult
      · obtain rfl := Cell.unknown.inj (hslot.symm.trans hunk)
        exact ⟨_, hids, pairwise_merge hincreasingA hincreasingB⟩
      · exact nomatch hoverflow.symm.trans hunk
    · obtain rfl := Option.some.inj ((celUnknownMerge_of_not hboth).symm.trans hstep)
      refine ⟨hsound.congr, hsorted.update out (extends_writeCell s out _) rfl fun unk hunk => nomatch hunk⟩
  | @copy s dst src _ ih =>
    obtain ⟨hsound, hsorted⟩ := ih
    refine ⟨hsound.congr, hsorted.update dst (extends_writeCell s dst _) rfl fun unk hunk => ?_⟩
    obtain ⟨ids, hids, hincreasing⟩ := hsorted src unk hunk
    exact ⟨ids, hids.extends (extends_writeCell s dst _), hincreasing⟩
  | @other s s' _ hstep ih =>
    obtain ⟨-, hsorted⟩ := ih
    refine ⟨hstep.sound, fun slot unk hslot => ?_⟩
    obtain ⟨slot', hslot'⟩ := hstep.slots slot unk hslot
    obtain ⟨ids, hids, hincreasing⟩ := hsorted slot' unk hslot'
    refine ⟨ids, hids.imp_right fun hset => ?_, hincreasing⟩
    obtain ⟨hdesc, harray⟩ := hstep.memory slot' unk hslot' hset.pos
    exact hset.keep hstep.kept hdesc harray

/-- **Merging is commutative, idempotent and associative** on strictly increasing arrays. -/
theorem merge_laws {as bs cs : List ℕ} (hA : as.Pairwise (· < ·)) (hB : bs.Pairwise (· < ·))
    (hC : cs.Pairwise (· < ·)) :
    merge as bs = merge bs as ∧ merge as as = as ∧
      merge (merge as bs) cs = merge as (merge bs cs) := by
  have hcomm : (⟨as, hA⟩ ∪ ⟨bs, hB⟩ : UnknownSet) = ⟨bs, hB⟩ ∪ ⟨as, hA⟩ := by
    ext x
    rw [SortedSet.mem_union, SortedSet.mem_union, or_comm]
  exact ⟨congrArg SortedSet.toList hcomm, congrArg SortedSet.toList (SortedSet.union_self ⟨as, hA⟩),
    congrArg SortedSet.toList (SortedSet.union_assoc ⟨as, hA⟩ ⟨bs, hB⟩ ⟨cs, hC⟩)⟩

/-- **Unknown sets are merged to sorted unions.** Two strictly increasing arrays are merged to the
strictly increasing array of the ids of either, unless the arena refuses a block; merging is
commutative, idempotent and associative in what the arrays hold. What the host writes for any ids is
strictly increasing and holds just these. And in every evaluation every UNKNOWN cell holds such an
array. -/
theorem celUnknownMerge_sorted_union (hs : s.Sound) :
    (∀ (out a b : ℕ) (as bs : List ℕ), s.Shows a as → s.Shows b bs →
      as.Pairwise (· < ·) → bs.Pairwise (· < ·) →
      ∃ s', s.celUnknownMerge out a b = some s' ∧ s'.Sound ∧ s.Extends s' ∧
        (∀ slot, slot ≠ out → s'.slots slot = s.slots slot) ∧
        ((s'.Shows out (merge as bs) ∧ (merge as bs).Pairwise (· < ·) ∧
            ∀ x, x ∈ merge as bs ↔ x ∈ as ∨ x ∈ bs) ∨
          (s'.slots out = .inline (.error .overflow) ∧ s.RefusesMerge (as.length + bs.length)))) ∧
    (∀ as bs cs : List ℕ, as.Pairwise (· < ·) → bs.Pairwise (· < ·) → cs.Pairwise (· < ·) →
      merge as bs = merge bs as ∧ merge as as = as ∧
        merge (merge as bs) cs = merge as (merge bs cs)) ∧
    (∀ ids : List UInt32, (s.encodeUnknownSet ids = .error .abort ∧ 2 ^ 30 ≤ 2 + ids.length) ∨
      ∃ result s', s.encodeUnknownSet ids = .ok (result, s') ∧ s'.Sound ∧ s.Extends s' ∧
        ((∃ status n, result = .error status ∧ s.Refuses n) ∨
          ∃ unk set, result = .ok unk ∧ s'.Holds unk set ∧ set.Pairwise (· < ·) ∧
            ∀ x, x ∈ set ↔ ∃ id ∈ ids, id.toNat = x)) ∧
    ∀ t : UnknownState H, t.Evaluated → t.Sound ∧
      ∀ slot unk, t.slots slot = .unknown unk → ∃ ids, t.Shows slot ids ∧ ids.Pairwise (· < ·) := by
  refine ⟨fun out a b as bs hA hB hincA hincB => ?_, fun as bs cs => merge_laws, fun ids => ?_,
    fun t ht => ?_⟩
  · obtain ⟨s', hrun, hsound, hext, hother, hresult⟩ := hs.celUnknownMerge out hA hB
    exact ⟨s', hrun, hsound, hext, hother, hresult.imp_left fun hshows =>
      ⟨hshows, pairwise_merge hincA hincB, fun x => mem_merge⟩⟩
  · refine (hs.encodeUnknownSet ids).imp_right ?_
    rintro ⟨result, s', hrun, hsound, -, hext, hresult⟩
    exact ⟨result, s', hrun, hsound, hext, hresult⟩
  · obtain ⟨hsound, hsorted⟩ := ht.sorted
    refine ⟨hsound, fun slot unk hslot => ?_⟩
    obtain ⟨ids, hids, hincreasing⟩ := hsorted slot unk hslot
    exact ⟨ids, ⟨unk, hslot, hids⟩, hincreasing⟩

end UnknownState

/-! ## An evaluation -/

/-- The live blocks of a linear memory. -/
def LinearBlocks : Type := { s : BumpBlocks // ∀ a n, s.live a = some n → a + n ≤ maxMemoryBytes }

/-- One block more, if the memory has room. -/
def LinearBlocks.take? (s : LinearBlocks) (n : ℕ) : Option (Block n × LinearBlocks) :=
  if h : s.1.next + n ≤ maxMemoryBytes then
    some (⟨s.1.next, s.1.next_pos, h.trans (by decide)⟩, ⟨s.1.take n, fun a m ha => by
      change Function.update s.1.live s.1.next (some n) a = some m at ha
      by_cases hnext : a = s.1.next
      · rw [hnext, Function.update_self] at ha
        obtain rfl := Option.some.inj ha
        rwa [hnext]
      · rw [Function.update_of_ne hnext] at ha
        exact s.2 a m ha⟩)
  else none

/-- A block is taken at the next address. -/
theorem LinearBlocks.eq_of_take? {s s' : LinearBlocks} {n : ℕ} {block : Block n}
    (h : s.take? n = some (block, s')) : block.address = s.1.next ∧ s'.1 = s.1.take n := by
  rw [LinearBlocks.take?] at h
  split at h
  · obtain ⟨rfl, rfl⟩ := h
    exact ⟨rfl, rfl⟩
  · cases h

/-- A block that is taken was not live. -/
theorem LinearBlocks.fresh_of_take? {s s' : LinearBlocks} {n : ℕ} {block : Block n}
    (h : s.take? n = some (block, s')) : s.1.live block.address = none := by
  rw [(LinearBlocks.eq_of_take? h).1]
  refine Option.eq_none_iff_forall_ne_some.mpr fun m hm => ?_
  have hbelow : s.1.next + m < s.1.next := s.1.below hm
  omega

/-- An allocator with no free list, in a linear memory. -/
def linearHeap : LinearHeap where
  State := LinearBlocks
  malloc := LinearBlocks.take?
  free s address := ⟨s.1.drop address, fun a n ha => by
    change Function.update s.1.live address none a = some n at ha
    by_cases h : a = address
    · rw [h, Function.update_self] at ha
      exact nomatch ha
    · rw [Function.update_of_ne h] at ha
      exact s.2 a n ha⟩
  memorySize _ := maxMemoryBytes
  reserved_le _ := by decide
  live s := s.1.live
  aligned {s n block s'} h := by
    rw [(LinearBlocks.eq_of_take? h).1]
    exact s.1.next_aligned
  fresh := LinearBlocks.fresh_of_take?
  live_malloc {s n block s'} h := by
    obtain ⟨haddress, hleft⟩ := LinearBlocks.eq_of_take? h
    rw [haddress, hleft]
    rfl
  live_free _ := rfl
  apart {s} := s.1.apart
  live_le {s a n} := s.2 a n

namespace UnknownState

variable {H : LinearHeap} {s s' : UnknownState H} {unk : ℕ} {ids : List ℕ}

/-- What is kept over a reset is kept before it. -/
theorem SetAt.of_released (h : s.released.SetAt unk ids) : s.SetAt unk ids :=
  h.keep (Or.imp_right fun ⟨_, hb, _⟩ => absurd hb List.not_mem_nil) (.refl _ _) (.refl _ _)

end UnknownState

/-- A fresh heap with an activation buffer. -/
def unknownBuffer : Block 4096 × LinearBlocks :=
  (LinearBlocks.take? ⟨bumpStart, nofun⟩ 4096).get (by decide)

/-- …and with the arena of the runtime. -/
def unknownArena : LinearBlocks × ArenaGlobals :=
  (ArenaGlobals.init linearHeap.toHeap 65536 unknownBuffer.2 { arena := none, oomBlock := 0 }).get
    (by decide)

def unknownStart : UnknownState linearHeap where
  memory _ := 0
  heap := unknownArena.1
  arena := unknownArena.2
  handed := []
  buffer := @ActivationBuffer.ofBlock 4096 unknownBuffer.1
  cursor := 0
  slots _ := .inline .null

theorem sound_unknownStart : unknownStart.Sound where
  reached := by
    have hinit : ArenaGlobals.init linearHeap.toHeap 65536 unknownBuffer.2
        { arena := none, oomBlock := 0 } = some unknownArena := (Option.some_get _).symm
    exact .init (.start unknownBuffer.2) hinit
  initialised := by decide
  cursor_le := Nat.zero_le _
  owns _ := ⟨by decide, by decide⟩

/-- Two variables are unknown. -/
def unknownBound : UnknownState linearHeap :=
  ((unknownStart.encodeUnknownVariable 0 7).bind (·.encodeUnknownVariable 32 3)).get (by decide)

theorem shows_unknownBound :
    unknownBound.Sound ∧ unknownBound.Shows 0 [7] ∧ unknownBound.Shows 32 [3] := by
  have hone : unknownStart.encodeUnknownVariable 0 7
      = some ((unknownStart.encodeUnknownVariable 0 7).get (by decide)) := (Option.some_get _).symm
  have htwo : ((unknownStart.encodeUnknownVariable 0 7).get (by decide)).encodeUnknownVariable 32 3
      = some unknownBound := (Option.some_get _).symm
  obtain ⟨hsound, -, unk, hslots, hset⟩ :=
    UnknownState.encodeUnknownVariable_spec (by decide) hone sound_unknownStart
  obtain ⟨hsound', hext, unk', hslots', hset'⟩ :=
    UnknownState.encodeUnknownVariable_spec (by decide) htwo hsound
  refine ⟨hsound', ⟨unk, ?_, .inr (hset.extends hext).of_released⟩,
    ⟨unk', ?_, .inr hset'.of_released⟩⟩
  · rw [hslots', hslots]
    rfl
  · rw [hslots']
    rfl

theorem not_refusesMerge_unknownBound : ¬unknownBound.RefusesMerge 2 := by
  have hfirst : (unknownBound.arena.alloc linearHeap.toHeap 8 unknownBound.heap).map Prod.fst
      ≠ some 0 := by decide
  have hsecond : ((unknownBound.arenaAlloc 8).map fun p =>
      (p.2.arena.alloc linearHeap.toHeap 8 p.2.heap).map Prod.fst) ≠ some (some 0) := by decide
  rintro (⟨heap, arena, h⟩ | ⟨offset, s', halloc, -, heap, arena, h⟩)
  · exact hfirst (congrArg (Option.map Prod.fst) h)
  · refine hsecond ((congrArg (Option.map fun p =>
      (p.2.arena.alloc linearHeap.toHeap 8 p.2.heap).map Prod.fst) halloc).trans ?_)
    rw [Option.map_some, h]
    rfl

/-- The unknowns 7 and 3, as the kernel merges them. -/
theorem celUnknownMerge_refines_two :
    ∃ s' C, unknownBound.celUnknownMerge 64 0 32 = some s' ∧ s'.Shows 64 C.toList ∧
      (celUnknownMerge (.unknown ⟨[7], List.pairwise_singleton _ _⟩)
        (.unknown ⟨[3], List.pairwise_singleton _ _⟩)).granted = .ok (.unknown C) :=
  UnknownState.Sound.celUnknownMerge_refines shows_unknownBound.1 shows_unknownBound.2.1
    shows_unknownBound.2.2 not_refusesMerge_unknownBound

/-- The unknowns 7 and 3. -/
theorem celUnknownMerge_sorted_union_two :
    ∃ s', unknownBound.celUnknownMerge 64 0 32 = some s' ∧ s'.Shows 64 [3, 7] := by
  obtain ⟨hsound, hseven, hthree⟩ := shows_unknownBound
  obtain ⟨s', hrun, -, -, -, ⟨hshows, -⟩ | ⟨-, hrefused⟩⟩ :=
    (UnknownState.celUnknownMerge_sorted_union hsound).1 64 0 32 [7] [3] hseven hthree
      (List.pairwise_singleton _ _) (List.pairwise_singleton _ _)
  · exact ⟨s', hrun, hshows⟩
  · exact absurd hrefused not_refusesMerge_unknownBound

end CelWasm
