import CelWasm.Eval.Meaning

/-!
# Eval/BindMeaning — binding the variables comes to its meaning

The pass before finds exactly the bytes that the encoders take, so with a buffer of that size, or of
any larger one, no encoder runs out. What a slot leads to is settled once its variable is bound: later
variables are copied behind it. Whatever lay in the slots and in the buffer before is never read.
-/

namespace CelWasm

/-! ## The encoders -/

section Encode

variable {wellKnown : ℕ → Option WellKnownMessage} {repr : NodeRepr} {v : HostValue} {name what : String}
  {arena : HostStringArena} {bytes : List UInt8} {cell : CelValue}

/-- The arena after `n` bytes more. -/
def HostStringArena.advance (arena : HostStringArena) (n : ℕ) : HostStringArena :=
  { arena with cursor := arena.cursor + UInt32.ofNat (alignUp8 n) }

/-- **A copy that fits is made.** -/
theorem copyToArena_of_room (h : arena.cursor.toNat + alignUp8 bytes.length ≤ arena.capacity.toNat) :
    copyToArena arena name what bytes cell = .ok (cell, arena.advance bytes.length) := by
  have hlt : alignUp8 bytes.length < 2 ^ 32 := by
    have := arena.capacity.toNat_lt
    omega
  have haligned : (UInt32.ofNat bytes.length + 7) &&& ~~~7 = UInt32.ofNat (alignUp8 bytes.length) := by
    rw [alignUp8, ← UInt32.and_not_seven (alignUp8_lt hlt), UInt32.ofNat_add]
    rfl
  rw [copyToArena]
  simp only [haligned, UInt32.toNat_ofNat_of_lt' hlt]
  exact if_neg (not_lt.mpr h)

theorem copyToArena_wholeArena (h : alignUp8 bytes.length < 2 ^ 32) :
    copyToArena wholeArena name what bytes cell = .ok (cell, wholeArena.advance bytes.length) := by
  refine copyToArena_of_room ?_
  have hcapacity : wholeArena.capacity.toNat = 2 ^ 32 - 1 := by decide
  have hcursor : wholeArena.cursor.toNat = 0 := by decide
  rw [hcapacity, hcursor]
  omega

/-- A representation without bytes to copy has none. -/
theorem hostStringBytes_of_not_takesBytes (h : takesBytes repr = false) :
    hostStringBytes wellKnown repr v = 0 := by
  have hread : tryReadWktStringWrapperValue wellKnown v repr = none := by
    unfold tryReadWktStringWrapperValue
    split
    · split
      · exact absurd h (by decide)
      · exact absurd h (by decide)
      · rfl
    · rfl
  unfold hostStringBytes
  split
  · exact absurd h (by decide)
  · exact absurd h (by decide)
  · exact absurd h (by decide)
  · rw [hread]
    rfl

/-- A wrapper has the bytes it holds. -/
theorem hostStringBytes_of_wrapper (h : tryReadWktStringWrapperValue wellKnown v repr = some bytes) :
    hostStringBytes wellKnown repr v = bytes.length := by
  unfold hostStringBytes
  split
  · exact nomatch h
  · exact nomatch h
  · exact nomatch h
  · rw [h]
    rfl

/-- The bytes that a cell refers to. -/
def cellBytes : CelValue → List UInt8
  | .string s | .bytes s | .type s => s
  | _ => []

@[simp] theorem HostStringArena.advance_zero : arena.advance 0 = arena := by
  rw [advance, show UInt32.ofNat (alignUp8 0) = 0 from rfl, UInt32.add_zero]

/-- What an encoder that copies nothing comes to. -/
def Plain (encoded : Except Status CelValue) : Prop := ∀ cell, encoded = .ok cell → cellBytes cell = []

theorem encodeScalar_plain {want : NodeRepr} : Plain (encodeScalar wellKnown want v name) := by
  intro cell hcell
  unfold encodeScalar at hcell
  split at hcell
  case h_1 cell' hsome =>
    obtain rfl := Except.ok.inj hcell
    simp only [Option.orElse_eq_some] at hsome
    obtain hnull | ⟨-, hwrapper | ⟨-, hscalar⟩⟩ := hsome
    · unfold tryEncodeNullToScalarSlot at hnull
      split at hnull <;> cases hnull
      rfl
    · unfold tryEncodeWktWrapperMessage at hwrapper
      split at hwrapper
      · split at hwrapper <;> cases hwrapper <;> rfl
      · exact nomatch hwrapper
    · unfold scalarCell at hscalar
      split at hscalar <;> cases hscalar <;> rfl
  case h_2 => exact nomatch hcell

theorem tryEncodeWktTimeMessage_plain {want : NodeRepr}
    (h : tryEncodeWktTimeMessage wellKnown v want = some cell) : cellBytes cell = [] := by
  unfold tryEncodeWktTimeMessage at h
  split at h
  · split at h <;> cases h <;> rfl
  · exact nomatch h

theorem encodeDuration_plain : Plain (encodeDuration wellKnown v name) := by
  intro cell hcell
  unfold encodeDuration at hcell
  split at hcell
  case h_1 cell' hmessage =>
    obtain rfl := Except.ok.inj hcell
    exact tryEncodeWktTimeMessage_plain hmessage
  case h_2 =>
    split at hcell <;> cases hcell
    rfl

theorem encodeTimestamp_plain : Plain (encodeTimestamp wellKnown v name) := by
  intro cell hcell
  unfold encodeTimestamp at hcell
  split at hcell
  case h_1 cell' hmessage =>
    obtain rfl := Except.ok.inj hcell
    exact tryEncodeWktTimeMessage_plain hmessage
  case h_2 =>
    split at hcell <;> cases hcell
    rfl

theorem encodeHandle_plain : Plain (encodeHandle repr v name) := by
  intro cell hcell
  unfold encodeHandle at hcell
  split at hcell <;> cases hcell <;> rfl

/-- **What an encoder comes to with room for its bytes** does not depend on the arena: it fails as it
would in any other, or makes the same cell and takes exactly the cell's bytes. -/
inductive EncodesAlike (n : ℕ) (arena : HostStringArena) :
    Except Status (CelValue × HostStringArena) → Except Status (CelValue × HostStringArena) → Prop
  | error (status : Status) : EncodesAlike n arena (.error status) (.error status)
  | ok {cell : CelValue} (arena' : HostStringArena) (hbytes : (cellBytes cell).length = n) :
    EncodesAlike n arena (.ok (cell, arena.advance n)) (.ok (cell, arena'))

theorem encodesAlike_map {encoded : Except Status CelValue} (h : Plain encoded) :
    EncodesAlike 0 arena (encoded.map (·, arena)) (encoded.map (·, wholeArena)) := by
  cases encoded with
  | error status => exact .error status
  | ok cell =>
    have hok : @EncodesAlike 0 arena (.ok (cell, arena.advance 0)) (.ok (cell, wholeArena)) :=
      .ok wholeArena (by rw [h cell rfl, List.length_nil])
    rwa [HostStringArena.advance_zero] at hok

theorem encodesAlike_copy (hbytes : cellBytes cell = bytes)
    (h : arena.cursor.toNat + alignUp8 bytes.length ≤ arena.capacity.toNat) :
    EncodesAlike bytes.length arena (copyToArena arena name what bytes cell)
      (copyToArena wholeArena name what bytes cell) := by
  have hlt : alignUp8 bytes.length < 2 ^ 32 := by
    have := arena.capacity.toNat_lt
    omega
  rw [copyToArena_of_room h, copyToArena_wholeArena hlt]
  exact .ok _ (by rw [hbytes])

theorem encodeStringOrBytes_alike (hrepr : repr = .string ∨ repr = .bytes)
    (h : arena.cursor.toNat + alignUp8 (hostStringBytes wellKnown repr v) ≤ arena.capacity.toNat) :
    EncodesAlike (hostStringBytes wellKnown repr v) arena
      (encodeStringOrBytes wellKnown v name repr arena)
      (encodeStringOrBytes wellKnown v name repr wholeArena) := by
  have hspan : ∀ s, cellBytes (spanCell repr s) = s := fun s => by
    rw [spanCell]
    split <;> rfl
  unfold encodeStringOrBytes
  cases hwrapper : tryReadWktStringWrapperValue wellKnown v repr with
  | some s =>
    rw [hostStringBytes_of_wrapper hwrapper] at h ⊢
    exact encodesAlike_copy (hspan s) h
  | none =>
    obtain rfl | rfl := hrepr
    · cases v with
      | string s => exact @encodesAlike_copy name "" arena s (.string s) rfl h
      | _ => exact .error _
    · cases v with
      | bytes s => exact @encodesAlike_copy name "" arena s (.bytes s) rfl h
      | _ => exact .error _

theorem encodeType_alike
    (h : arena.cursor.toNat + alignUp8 (hostStringBytes wellKnown .type v) ≤ arena.capacity.toNat) :
    EncodesAlike (hostStringBytes wellKnown .type v) arena (encodeType v name arena)
      (encodeType v name wholeArena) := by
  unfold encodeType
  split
  · exact encodesAlike_copy rfl h
  · exact .error _

/-- **`EncodeBoundValue` with room for the bytes** counted for it. -/
theorem encodeBoundValue_alike
    (h : arena.cursor.toNat + alignUp8 (hostStringBytes wellKnown repr v) ≤ arena.capacity.toNat) :
    EncodesAlike (hostStringBytes wellKnown repr v) arena
      (encodeBoundValue wellKnown v repr name arena)
      (encodeBoundValue wellKnown v repr name wholeArena) := by
  cases htakes : takesBytes repr with
  | true =>
    have hrepr : repr = .string ∨ repr = .bytes ∨ repr = .type := by
      simpa [takesBytes, or_assoc] using htakes
    obtain rfl | rfl | rfl := hrepr
    · exact encodeStringOrBytes_alike (.inl rfl) h
    · exact encodeStringOrBytes_alike (.inr rfl) h
    · exact encodeType_alike h
  | false =>
    rw [hostStringBytes_of_not_takesBytes htakes]
    cases repr with
    | string | bytes | type => exact nomatch htakes
    | bool | int | uint | double => exact encodesAlike_map encodeScalar_plain
    | message | list | map => exact encodesAlike_map encodeHandle_plain
    | duration => exact encodesAlike_map encodeDuration_plain
    | timestamp => exact encodesAlike_map encodeTimestamp_plain
    | null | enum | unknown | optional => exact .error _

end Encode

variable {P : Platform} {attributes : List Attribute} {unknownPatterns : List AttributePattern}
  {bound : String → Except Status (Option HostValue)}

/-! ## The pass before -/

section Total

variable (P attributes unknownPatterns bound)

/-- The bytes a variable takes for a string. -/
def stringBytes (dv : VariableEntry) : ℕ :=
  if (bareVariableUnknownId attributes unknownPatterns dv.name).isSome then 0
  else variableBytes P attributes unknownPatterns bound dv

/-- The bytes of a call are those of its strings and of its descriptors. -/
theorem activationBytes_eq (entries : List VariableEntry) :
    activationBytes P attributes unknownPatterns bound entries
      = (entries.map (stringBytes P attributes unknownPatterns bound)).sum
        + 16 * countUnknownVariables attributes unknownPatterns entries := by
  induction entries with
  | nil => rfl
  | cons dv rest ih =>
    rw [activationBytes] at ih ⊢
    rw [countUnknownVariables] at ih ⊢
    rw [List.map_cons, List.sum_cons, List.map_cons, List.sum_cons, List.countP_cons, ih, stringBytes]
    cases hid : bareVariableUnknownId attributes unknownPatterns dv.name with
    | some id =>
      rw [variableBytes, hid]
      simp only [Option.isSome_some, if_true]
      omega
    | none =>
      simp only [Option.isSome_none, Bool.false_eq_true, if_false]
      omega

variable {P attributes unknownPatterns bound}

theorem stringBytes_of_not_takesBytes {dv : VariableEntry} (h : takesBytes dv.repr = false) :
    stringBytes P attributes unknownPatterns bound dv = 0 := by
  rw [stringBytes]
  cases hid : bareVariableUnknownId attributes unknownPatterns dv.name with
  | some id => rfl
  | none =>
    rw [if_neg (by simp), variableBytes, hid]
    rcases bound dv.name with status | _ | v
    · rfl
    · rfl
    · exact congrArg alignUp8 (hostStringBytes_of_not_takesBytes h)

/-- A total that is rounded up does not wrap. -/
theorem roundedTotal {total n : ℕ} (height : 8 ∣ total) (hfit : total + alignUp8 n + 7 < 2 ^ 32) :
    (UInt32.ofNat total + UInt32.ofNat n + 7) &&& ~~~7 = UInt32.ofNat (total + alignUp8 n) := by
  have hround : (total + n + 7) / 8 * 8 = total + alignUp8 n := by
    rw [alignUp8]
    omega
  rw [← hround, ← UInt32.and_not_seven (by have := le_alignUp8 n; omega), UInt32.ofNat_add,
    UInt32.ofNat_add]
  rfl

theorem sizingFailure_skip {dv : VariableEntry} {rest : List VariableEntry}
    (h : ¬(takesBytes dv.repr = true ∧ bareVariableUnknownId attributes unknownPatterns dv.name = none)) :
    sizingFailure attributes unknownPatterns bound (dv :: rest)
      = sizingFailure attributes unknownPatterns bound rest := by
  rw [sizingFailure, List.findSome?_cons, if_neg h]
  rfl

theorem sizingFailure_cons {dv : VariableEntry} {rest : List VariableEntry}
    (htakes : takesBytes dv.repr = true)
    (hid : bareVariableUnknownId attributes unknownPatterns dv.name = none) :
    sizingFailure attributes unknownPatterns bound (dv :: rest)
      = match bound dv.name with
        | .error status => some status
        | .ok _ => sizingFailure attributes unknownPatterns bound rest := by
  rw [sizingFailure, List.findSome?_cons, if_pos ⟨htakes, hid⟩]
  cases bound dv.name <;> rfl

/-- **The pass before** finds the binder that fails, or the bytes of the strings. -/
theorem totalHostStringBytes_spec {entries : List VariableEntry} {total : ℕ} {activation : Activation}
    (hremembers : activation.Remembers) (height : 8 ∣ total)
    (hfit : total + (entries.map (stringBytes P attributes unknownPatterns activation.bound)).sum + 7
      < 2 ^ 32) :
    (∀ status, sizingFailure attributes unknownPatterns activation.bound entries = some status →
      (totalHostStringBytes P.wellKnown attributes unknownPatterns entries (UInt32.ofNat total)
        activation).1 = .error status) ∧
    (sizingFailure attributes unknownPatterns activation.bound entries = none →
      ∃ activation', totalHostStringBytes P.wellKnown attributes unknownPatterns entries
          (UInt32.ofNat total) activation
          = (.ok (UInt32.ofNat (total
              + (entries.map (stringBytes P attributes unknownPatterns activation.bound)).sum)),
            activation') ∧
        activation'.Remembers ∧ activation'.bound = activation.bound) := by
  induction entries generalizing total activation with
  | nil => exact ⟨nofun, fun _ => ⟨activation, rfl, hremembers, rfl⟩⟩
  | cons dv rest ih =>
    rw [List.map_cons, List.sum_cons] at hfit ⊢
    rw [totalHostStringBytes]
    cases htakes : takesBytes dv.repr with
    | false =>
      rw [stringBytes_of_not_takesBytes htakes, Nat.zero_add] at hfit ⊢
      rw [sizingFailure_skip (by simp [htakes])]
      exact ih hremembers height hfit
    | true =>
      cases hid : bareVariableUnknownId attributes unknownPatterns dv.name with
      | some id =>
        have hzero : stringBytes P attributes unknownPatterns activation.bound dv = 0 := by
          rw [stringBytes, hid]
          rfl
        rw [hzero, Nat.zero_add] at hfit ⊢
        rw [sizingFailure_skip (by simp [hid])]
        exact ih hremembers height hfit
      | none =>
        have hstring : stringBytes P attributes unknownPatterns activation.bound dv
            = variableBytes P attributes unknownPatterns activation.bound dv := by
          rw [stringBytes, hid]
          rfl
        obtain ⟨hvalue, hremembers', hbound'⟩ := @Activation.resolve_spec _ dv.name hremembers
        rcases hresolve : activation.resolve dv.name with ⟨value, activation'⟩
        rw [hresolve] at hvalue hremembers' hbound'
        dsimp only at hvalue hremembers' hbound'
        subst hvalue
        rw [hstring, ← hbound'] at hfit ⊢
        rw [sizingFailure_cons htakes hid]
        cases hbound : activation'.bound dv.name with
        | error status => exact ⟨fun _ h => congrArg Except.error (Option.some.inj h), nofun⟩
        | ok value =>
          cases value with
          | none =>
            have hzero : variableBytes P attributes unknownPatterns activation'.bound dv = 0 := by
              rw [variableBytes, hid, hbound]
            rw [hzero, Nat.zero_add] at hfit ⊢
            exact ih hremembers' height hfit
          | some v =>
            have hbytes : variableBytes P attributes unknownPatterns activation'.bound dv
                = alignUp8 (hostStringBytes P.wellKnown dv.repr v) := by
              rw [variableBytes, hid, hbound]
            rw [hbytes] at hfit ⊢
            dsimp only
            rw [roundedTotal height (by omega), ← Nat.add_assoc]
            refine ih hremembers' ?_ (by omega)
            rw [alignUp8]
            omega

end Total

/-! ## One variable after another -/

/-- **A cell's bytes are copied and its backing interned**: the table is that of the meaning, nothing
below the address changes, and any memory that keeps the bytes reads the cell of the meaning. -/
theorem Instance.place_spec (i : Instance P) (address : ℕ) {cell : CelValue}
    (hlt : (cellBytes cell).length < 2 ^ 32) :
    ∃ memory wire, i.place address cell
        = (wire, { i with memory, refs := (cellMeaning P i.refs cell).2 }) ∧
      (∀ a < address, memory a = i.memory a) ∧
      ∀ m : ByteMemory, (∀ a < address + (cellBytes cell).length, m a = memory a) →
        wire.read m = (cellMeaning P i.refs cell).1 := by
  have hcopy : ∀ s : List UInt8, s.length < 2 ^ 32 →
      (∀ a < address, i.memory.write address (s.take (s.length % 2 ^ 32)) a = i.memory a) ∧
      ∀ m : ByteMemory, (∀ a < address + s.length,
          m a = i.memory.write address (s.take (s.length % 2 ^ 32)) a) →
        m.read address (s.length % 2 ^ 32) = s := fun s hs => by
    rw [Nat.mod_eq_of_lt hs, List.take_length]
    refine ⟨fun a ha => ByteMemory.write_of_lt ha, fun m hm => ?_⟩
    rw [ByteMemory.read_congr fun a _ ha => hm a ha, ByteMemory.read_write]
  cases cell with
  | string s =>
    obtain ⟨hbelow, hread⟩ := hcopy s hlt
    exact ⟨_, _, rfl, hbelow, fun m hm => congrArg Cell.string (hread m hm)⟩
  | bytes s =>
    obtain ⟨hbelow, hread⟩ := hcopy s hlt
    exact ⟨_, _, rfl, hbelow, fun m hm => congrArg Cell.bytes (hread m hm)⟩
  | type s =>
    obtain ⟨hbelow, hread⟩ := hcopy s hlt
    exact ⟨_, _, rfl, hbelow, fun m hm => congrArg Cell.type (hread m hm)⟩
  | message | listHost | mapHost => exact ⟨i.memory, _, rfl, fun _ _ => rfl, fun _ _ => rfl⟩
  | _ => exact ⟨i.memory, _, rfl, fun _ _ => rfl, fun _ _ => rfl⟩

/-- An id is read back from its descriptor. -/
theorem decodeUnknownSetAt_descriptor {memory m : ByteMemory} {address id : ℕ} (hpos : 0 < address)
    (hfit : address + 8 < 2 ^ 32) (hid : id < 2 ^ 32)
    (hm : ∀ a < address + 16,
      m a = memory.write address (leBytes 4 (address + 8) ++ leBytes 4 1 ++ leBytes 4 id) a) :
    decodeUnknownSetAt m address = [id] := by
  have hread : ∀ offset, offset + 4 ≤ 16 → m.readU32 (address + offset)
      = (memory.write address (leBytes 4 (address + 8) ++ leBytes 4 1 ++ leBytes 4 id)).readU32
          (address + offset) :=
    fun offset hoffset => ByteMemory.readU32_congr fun a _ ha => hm a (by omega)
  have hptr : m.readU32 address = address + 8 := by
    have h := @ByteMemory.readU32_write_within memory address [] (leBytes 4 1 ++ leBytes 4 id) _ hfit
    rw [List.nil_append, ← List.append_assoc] at h
    exact (hread 0 (by decide)).trans h
  have hlen : m.readU32 (address + 4) = 1 := by
    have h := @ByteMemory.readU32_write_within memory address (leBytes 4 (address + 8)) (leBytes 4 id) 1
      (by decide)
    rw [length_leBytes] at h
    exact (hread 4 (by decide)).trans h
  have hone : m.readU32 (address + 8) = id := by
    have h := @ByteMemory.readU32_write_within memory address
      (leBytes 4 (address + 8) ++ leBytes 4 1) [] id hid
    rw [List.length_append, length_leBytes, length_leBytes, List.append_nil] at h
    exact (hread 8 (by decide)).trans h
  rw [decodeUnknownSetAt, if_neg hpos.ne', hptr, hlen]
  exact congrArg (fun k => [k]) hone

/-- The patterns, the activation and the buffer that variables are being bound with. -/
structure MarshalState.Ready (unknownPatterns : List AttributePattern)
    (bound : String → Except Status (Option HostValue)) (s : MarshalState P) : Prop where
  patterns : s.inst.unknownPatterns = unknownPatterns
  remembers : s.activation.Remembers
  bound : s.activation.bound = bound
  capacity : s.arena.capacity = s.inst.buffer.capacity

/-- **What has been bound is settled** — a slot that was written leads to its cell in any memory that
keeps the bytes up to here. -/
structure MarshalState.Binds (s : MarshalState P) (written : ℕ → Prop) (view : ℕ → ReadCell)
    (refs : HostExternrefTable) : Prop where
  refs : s.inst.refs = refs
  reads : ∀ offset, written offset → ∀ m : ByteMemory, (∀ a < s.next, m a = s.inst.memory a) →
    (s.inst.slots offset).read m = view offset

section Marshal

variable {s : MarshalState P} {dv : VariableEntry} {written : ℕ → Prop} {view : ℕ → ReadCell}
  {refs : HostExternrefTable}

/-- A slot more is settled when its cell is, and the bytes before are kept. -/
theorem MarshalState.Binds.write {inst : Instance P} {arena : HostStringArena} {activation : Activation}
    {wire : WireCell} {cell : ReadCell} (h : s.Binds written view refs)
    (hslots : inst.slots = s.inst.slots) (hbuffer : inst.buffer = s.inst.buffer)
    (hcursor : s.arena.cursor.toNat ≤ arena.cursor.toNat)
    (hkeep : ∀ a < s.next, inst.memory a = s.inst.memory a)
    (hcell : ∀ m : ByteMemory, (∀ a < inst.buffer.offset + arena.cursor.toNat, m a = inst.memory a) →
      wire.read m = cell) :
    ({ inst := inst.writeSlot dv.slotOffset wire, arena, activation } : MarshalState P).Binds
      (fun offset => written offset ∨ offset = dv.slotOffset) (Function.update view dv.slotOffset cell)
      inst.refs where
  refs := rfl
  reads offset hwritten m hm := by
    have hm' : ∀ a < inst.buffer.offset + arena.cursor.toNat, m a = inst.memory a := hm
    change (Function.update inst.slots dv.slotOffset wire offset).read m = _
    by_cases hoffset : offset = dv.slotOffset
    · rw [hoffset, Function.update_self, Function.update_self]
      exact hcell m hm'
    · rw [Function.update_of_ne hoffset, Function.update_of_ne hoffset, hslots]
      refine h.reads offset (hwritten.resolve_right hoffset) m fun a ha => ?_
      rw [hm' a (by rw [hbuffer]; rw [next] at ha; omega), hkeep a ha]

/-- The cursor after a cell's bytes. -/
theorem HostStringArena.toNat_advance {arena : HostStringArena} {n : ℕ}
    (h : arena.cursor.toNat + alignUp8 n ≤ arena.capacity.toNat) :
    (arena.advance n).cursor.toNat = arena.cursor.toNat + alignUp8 n := by
  have := arena.capacity.toNat_lt
  have hlt : alignUp8 n < 2 ^ 32 := by omega
  rw [advance, UInt32.toNat_add, UInt32.toNat_ofNat_of_lt' hlt, Nat.mod_eq_of_lt (by omega)]

/-- A variable was bound to the cell of its meaning. -/
structure MarshalState.Bound (unknownPatterns : List AttributePattern)
    (bound : String → Except Status (Option HostValue)) (written : ℕ → Prop) (view : ℕ → ReadCell)
    (refs : HostExternrefTable) (bytes : ℕ) (s s' : MarshalState P) : Prop where
  ready : s'.Ready unknownPatterns bound
  binds : s'.Binds written view refs
  cursor : s'.arena.cursor.toNat = s.arena.cursor.toNat + bytes
  capacity : s'.arena.capacity = s.arena.capacity

/-- **A hidden variable is bound to a descriptor of its id.** -/
theorem MarshalState.encodeUnknownVariable_spec {id : ℕ} (hready : s.Ready unknownPatterns bound)
    (hbinds : s.Binds written view refs) (hid : id < 2 ^ 32)
    (hroom : s.arena.cursor.toNat + 16 ≤ s.arena.capacity.toNat) :
    ∃ s', s.encodeUnknownVariable dv id = (none, s') ∧
      Bound unknownPatterns bound (fun offset => written offset ∨ offset = dv.slotOffset)
        (Function.update view dv.slotOffset (.unknown [id])) refs 16 s s' := by
  have hbytes : unknownDescriptorBytes.toNat = 16 := rfl
  have hbuffer := s.inst.buffer.le
  rw [← hready.capacity] at hbuffer
  have hpos : 0 < s.inst.buffer.offset := by
    refine s.inst.buffer.pos ?_
    rw [← hready.capacity, UInt32.lt_iff_toNat_lt, UInt32.toNat_zero]
    omega
  have hcursor : (s.arena.cursor + unknownDescriptorBytes).toNat = s.arena.cursor.toNat + 16 := by
    have := s.arena.capacity.toNat_lt
    rw [UInt32.toNat_add, hbytes, Nat.mod_eq_of_lt (by omega)]
  rw [encodeUnknownVariable, if_neg (by rw [hbytes]; omega)]
  refine ⟨_, rfl, ⟨⟨hready.patterns, hready.remembers, hready.bound, hready.capacity⟩, ?_, hcursor, rfl⟩⟩
  have hwritten := @Binds.write P s dv written view refs
    { s.inst with
      memory := s.inst.memory.write s.next
        (leBytes 4 (s.next + 8) ++ leBytes 4 1 ++ leBytes 4 id) }
    { s.arena with cursor := s.arena.cursor + unknownDescriptorBytes } s.activation
    (.unknown s.next) (.unknown [id]) hbinds rfl rfl (by rw [hcursor]; omega)
    (fun a ha => ByteMemory.write_of_lt ha) fun m hm => ?_
  · rw [← hbinds.refs]
    exact hwritten
  · refine congrArg Cell.unknown (decodeUnknownSetAt_descriptor ?_ ?_ hid fun a ha => hm a ?_)
    · rw [next]
      omega
    · rw [next]
      omega
    · rw [next] at ha
      rw [hcursor]
      omega

/-- **`MarshalOneVariable` comes to the meaning of the variable.** -/
theorem MarshalState.marshalOneVariable_spec (hready : s.Ready unknownPatterns bound)
    (hbinds : s.Binds written view refs)
    (hslot : dv.slotOffset + celValueBytes ≤ reservedLowMemoryBytes)
    (hroom : s.arena.cursor.toNat + variableBytes P attributes unknownPatterns bound dv
      ≤ s.arena.capacity.toNat) :
    match variableMeaning P attributes unknownPatterns bound dv refs with
    | .error status => (s.marshalOneVariable attributes dv).1 = some status
    | .ok (cell, refs') => ∃ s', s.marshalOneVariable attributes dv = (none, s') ∧
        Bound unknownPatterns bound (fun offset => written offset ∨ offset = dv.slotOffset)
          (Function.update view dv.slotOffset cell) refs'
          (variableBytes P attributes unknownPatterns bound dv) s s' := by
  have hinside : ¬dv.slotOffset + celValueBytes > P.memorySize s.inst.heap :=
    not_lt.mpr (hslot.trans (P.reserved_le s.inst.heap))
  rw [variableMeaning, marshalOneVariable, if_neg hinside, hready.patterns]
  rw [variableBytes] at hroom ⊢
  cases hid : bareVariableUnknownId attributes unknownPatterns dv.name with
  | some id =>
    rw [hid] at hroom
    exact encodeUnknownVariable_spec hready hbinds (bareVariableUnknownId_lt hid) hroom
  | none =>
    rw [hid] at hroom
    obtain ⟨hvalue, hremembers, hbound⟩ := @Activation.resolve_spec _ dv.name hready.remembers
    rcases hresolve : s.activation.resolve dv.name with ⟨value, activation⟩
    rw [hresolve] at hvalue hremembers hbound
    dsimp only at hvalue hremembers hbound
    rw [hready.bound] at hvalue hbound
    subst hvalue
    rcases hvalue : bound dv.name with status | _ | v
    · rfl
    · rfl
    · rw [hvalue] at hroom
      dsimp only at hroom ⊢
      have halike := @encodeBoundValue_alike P.wellKnown dv.repr v dv.name s.arena hroom
      generalize encodeBoundValue P.wellKnown v dv.repr dv.name s.arena = encoded at halike ⊢
      generalize encodeBoundValue P.wellKnown v dv.repr dv.name wholeArena = whole at halike ⊢
      cases halike with
      | error status => rfl
      | @ok cell arena' hbytes =>
        have hlt : (cellBytes cell).length < 2 ^ 32 := by
          have := s.arena.capacity.toNat_lt
          have := le_alignUp8 (hostStringBytes P.wellKnown dv.repr v)
          omega
        have hcursor := HostStringArena.toNat_advance hroom
        obtain ⟨memory, wire, hplace, hbelow, hread⟩ := s.inst.place_spec s.next hlt
        dsimp only
        rw [hplace]
        refine ⟨_, rfl, ⟨⟨hready.patterns, hremembers, hbound, hready.capacity⟩, ?_, hcursor, rfl⟩⟩
        have hwritten := @Binds.write P s dv written view refs
          { s.inst with memory, refs := (cellMeaning P s.inst.refs cell).2 }
          (s.arena.advance (hostStringBytes P.wellKnown dv.repr v)) activation wire
          (cellMeaning P s.inst.refs cell).1 hbinds rfl rfl (by rw [hcursor]; omega) hbelow
          fun m hm => hread m fun a ha => hm a ?_
        · rw [← hbinds.refs]
          exact hwritten
        · have := le_alignUp8 (hostStringBytes P.wellKnown dv.repr v)
          rw [next] at ha
          rw [hcursor]
          dsimp only
          omega

/-- **The loop of `MarshalActivation` comes to the meaning of the variables**, in a buffer with room for
them. -/
theorem MarshalState.marshalVariables_spec {entries : List VariableEntry}
    (hready : s.Ready unknownPatterns bound) (hbinds : s.Binds written view refs)
    (hslots : ∀ dv ∈ entries, dv.slotOffset + celValueBytes ≤ reservedLowMemoryBytes)
    (hroom : s.arena.cursor.toNat + activationBytes P attributes unknownPatterns bound entries
      ≤ s.arena.capacity.toNat) :
    match bindingMeaning P attributes unknownPatterns bound entries view refs with
    | .error status => (s.marshalVariables attributes entries).1 = some status
    | .ok (view', refs') => ∃ s', s.marshalVariables attributes entries = (none, s') ∧
        s'.inst.unknownPatterns = unknownPatterns ∧
        s'.Binds (fun offset => written offset ∨ ∃ dv ∈ entries, offset = dv.slotOffset) view' refs' := by
  induction entries generalizing s written view refs with
  | nil =>
    exact ⟨s, rfl, hready.patterns, hbinds.refs, fun offset h => hbinds.reads offset (by simpa using h)⟩
  | cons dv rest ih =>
    rw [activationBytes, List.map_cons, List.sum_cons] at hroom
    have hone := @marshalOneVariable_spec P attributes _ _ s dv _ _ _ hready hbinds
      (hslots dv List.mem_cons_self) (by omega)
    rw [bindingMeaning, marshalVariables]
    rcases hmeaning : variableMeaning P attributes unknownPatterns bound dv refs with status | ⟨cell, refs'⟩
    · rw [hmeaning] at hone
      rcases hmarshal : s.marshalOneVariable attributes dv with ⟨failed, s'⟩
      rw [hmarshal] at hone
      obtain rfl : failed = some status := hone
      rfl
    · rw [hmeaning] at hone
      obtain ⟨s', hmarshal, hbound⟩ := hone
      rw [hmarshal]
      have hrest := ih hbound.ready hbound.binds
        (fun dv' hdv' => hslots dv' (List.mem_cons_of_mem dv hdv'))
        (by rw [hbound.cursor, hbound.capacity, activationBytes]; omega)
      simpa only [List.exists_mem_cons_iff, or_assoc] using hrest

end Marshal

end CelWasm
