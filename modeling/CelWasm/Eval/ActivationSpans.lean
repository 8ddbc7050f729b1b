import CelWasm.Eval.History
import CelWasm.Library.WordArrays

/-!
# Eval/ActivationSpans — where the bytes of the variables lie

Binding the variables copies bytes into the activation buffer: the payloads of strings, and a record
for each variable that is hidden. `Placement` is what one variable had copied, and
`marshalVariables_places` ties a list of them to the memory and the slots a call leaves. The copies
lie in the buffer, apart from one another and as long as what is bound, exactly if no payload comes
within seven bytes of 4 GiB: the length of a span has 32 bits, and so has its rounding.
-/

namespace CelWasm

/-! ## What an encoder takes of the buffer -/

section Encode

variable {wellKnown : ℕ → Option WellKnownMessage} {repr : NodeRepr} {v : HostValue} {name what : String}
  {arena arena' : HostStringArena} {bytes : List UInt8} {cell : CelValue} {n : ℕ}

/-- `(len + 7u) & ~7u` of a length cut to 32 bits. -/
def alignedBytes (n : ℕ) : UInt32 := (UInt32.ofNat n + 7) &&& ~~~7

theorem toNat_alignedBytes (h : n + 7 < 2 ^ 32) : (alignedBytes n).toNat = alignUp8 n := by
  have hlt : alignUp8 n < 2 ^ 32 := by
    rw [alignUp8]
    omega
  have haligned : alignedBytes n = UInt32.ofNat (alignUp8 n) := by
    rw [alignedBytes, alignUp8, ← UInt32.and_not_seven h, UInt32.ofNat_add]
    rfl
  rw [haligned, UInt32.toNat_ofNat_of_lt' hlt]

/-- Bytes are taken of the arena, as many as the cursor is moved on. -/
structure HostStringArena.Takes (arena : HostStringArena) (n : ℕ) (arena' : HostStringArena) : Prop where
  room : arena.cursor.toNat + (alignedBytes n).toNat ≤ arena.capacity.toNat
  eq : arena' = { arena with cursor := arena.cursor + alignedBytes n }

theorem HostStringArena.Takes.capacity (h : arena.Takes n arena') :
    arena'.capacity = arena.capacity := by
  rw [h.eq]

theorem HostStringArena.Takes.cursor (h : arena.Takes n arena') :
    arena'.cursor.toNat = arena.cursor.toNat + (alignedBytes n).toNat := by
  have hroom := h.room
  have hlt := arena.capacity.toNat_lt
  rw [h.eq, UInt32.toNat_add, Nat.mod_eq_of_lt (by omega)]

theorem HostStringArena.Takes.zero (h : arena.cursor.toNat ≤ arena.capacity.toNat) :
    arena.Takes 0 arena := by
  have hzero : alignedBytes 0 = 0 := by decide
  refine ⟨by rwa [hzero], ?_⟩
  rw [hzero, UInt32.add_zero]

theorem copyToArena_takes {r : CelValue × HostStringArena}
    (h : copyToArena arena name what bytes cell = .ok r) :
    r.1 = cell ∧ arena.Takes bytes.length r.2 := by
  rw [copyToArena] at h
  split_ifs at h with hroom
  obtain rfl := Except.ok.inj h
  exact ⟨rfl, not_lt.mp hroom, rfl⟩

/-- **What an encoder takes for a value** is what the value has for bytes. -/
def TakesFor (arena : HostStringArena) (n : ℕ) (encoded : Except Status (CelValue × HostStringArena)) :
    Prop := ∀ cell arena', encoded = .ok (cell, arena') → (cellBytes cell).length = n ∧ arena.Takes n arena'

theorem takesFor_copy (hbytes : cellBytes cell = bytes) :
    TakesFor arena bytes.length (copyToArena arena name what bytes cell) := by
  intro cell' arena' h
  obtain ⟨rfl, htakes⟩ := copyToArena_takes h
  exact ⟨congrArg List.length hbytes, htakes⟩

theorem takesFor_error (status : Status) : TakesFor arena n (.error status) := nofun

theorem takesFor_map {encoded : Except Status CelValue} (h : Plain encoded)
    (hcursor : arena.cursor.toNat ≤ arena.capacity.toNat) :
    TakesFor arena 0 (encoded.map (·, arena)) := by
  intro cell arena' hok
  rcases encoded with status | cell'
  · exact nomatch hok
  · obtain ⟨rfl, rfl⟩ := Prod.mk.inj (Except.ok.inj hok)
    exact ⟨congrArg List.length (h _ rfl), .zero hcursor⟩

theorem takesFor_encodeStringOrBytes (hrepr : repr = .string ∨ repr = .bytes) :
    TakesFor arena (hostStringBytes wellKnown repr v)
      (encodeStringOrBytes wellKnown v name repr arena) := by
  have hspan : ∀ s, cellBytes (spanCell repr s) = s := fun s => by
    rw [spanCell]
    split <;> rfl
  unfold encodeStringOrBytes
  rcases hwrapper : tryReadWktStringWrapperValue wellKnown v repr with _ | s
  · obtain rfl | rfl := hrepr
    · cases v with
      | string s => exact takesFor_copy rfl
      | _ => exact takesFor_error _
    · cases v with
      | bytes s => exact takesFor_copy rfl
      | _ => exact takesFor_error _
  · rw [hostStringBytes_of_wrapper hwrapper]
    exact takesFor_copy (hspan s)

theorem takesFor_encodeType :
    TakesFor arena (hostStringBytes wellKnown .type v) (encodeType v name arena) := by
  unfold encodeType
  split
  · exact takesFor_copy rfl
  · exact takesFor_error _

/-- **`EncodeBoundValue` takes the bytes of the value**, each length cut to 32 bits. -/
theorem takesFor_encodeBoundValue (hcursor : arena.cursor.toNat ≤ arena.capacity.toNat) :
    TakesFor arena (hostStringBytes wellKnown repr v)
      (encodeBoundValue wellKnown v repr name arena) := by
  rcases htakes : takesBytes repr
  · rw [hostStringBytes_of_not_takesBytes htakes]
    cases repr with
    | string | bytes | type => exact nomatch htakes
    | bool | int | uint | double => exact takesFor_map encodeScalar_plain hcursor
    | message | list | map => exact takesFor_map encodeHandle_plain hcursor
    | duration => exact takesFor_map encodeDuration_plain hcursor
    | timestamp => exact takesFor_map encodeTimestamp_plain hcursor
    | null | enum | unknown | optional => exact takesFor_error _
  · have hrepr : repr = .string ∨ repr = .bytes ∨ repr = .type := by
      simpa [takesBytes, or_assoc] using htakes
    obtain rfl | rfl | rfl := hrepr
    · exact takesFor_encodeStringOrBytes (.inl rfl)
    · exact takesFor_encodeStringOrBytes (.inr rfl)
    · exact takesFor_encodeType

end Encode

/-! ## What a variable has copied -/

/-- The part of a cell's bytes that its length, cut to 32 bits, counts. -/
def CelValue.copied (cell : CelValue) : List UInt8 :=
  (cellBytes cell).take ((cellBytes cell).length % 2 ^ 32)

/-- An `UnknownSet` descriptor and its one id. -/
def unknownRecord (address id : ℕ) : List UInt8 :=
  leBytes 4 (address + 8) ++ leBytes 4 1 ++ leBytes 4 id

/-- The span a cell refers to. -/
def Cell.span {υ : Type} : Cell CelSpan υ → Option CelSpan
  | string s | bytes s | type s => some s
  | _ => none

/-- **What one variable had copied**: the bytes, where they start, and the cell its slot was set to. -/
structure Placement where
  entry : VariableEntry
  start : ℕ
  bytes : List UInt8
  cell : WireCell

namespace Placement

/-- Where the bytes lie. -/
def region (p : Placement) : Region := ⟨p.start, p.bytes.length⟩

/-- The copy of the bytes. -/
def copy (m : ByteMemory) (p : Placement) : ByteMemory := m.write p.start p.bytes

/-- The write of the slot. -/
def fill (slots : ℕ → WireCell) (p : Placement) : ℕ → WireCell :=
  Function.update slots p.entry.slotOffset p.cell

/-- The length the cell gives the bytes; a record has none, and is as long as it is. -/
def length (p : Placement) : ℕ :=
  match p.cell.span with
  | some s => s.len
  | none => p.bytes.length

/-- The cell refers to the bytes. -/
structure Refers (p : Placement) : Prop where
  span : ∀ s, p.cell.span = some s → s = ⟨p.start, p.bytes.length⟩
  unknown : ∀ offset, p.cell = .unknown offset → offset = p.start

theorem Refers.length {p : Placement} (h : p.Refers) : p.length = p.bytes.length := by
  rw [Placement.length]
  split
  case h_1 s hs => rw [h.span s hs]
  case h_2 => rfl

end Placement

variable {P : Platform} {attributes : List Attribute} {unknowns : List AttributePattern}
  {bound : String → Except Status (Option HostValue)} {dv : VariableEntry}

/-- The bytes that are copied for a variable, of whatever length. -/
def takenBytes (P : Platform) (attributes : List Attribute) (unknowns : List AttributePattern)
    (bound : String → Except Status (Option HostValue)) (dv : VariableEntry) : ℕ :=
  match bareVariableUnknownId attributes unknowns dv.name with
  | some _ => 12
  | none =>
    match bound dv.name with
    | .ok (some v) => hostStringBytes P.wellKnown dv.repr v
    | _ => 0

namespace MarshalState

variable {s s' : MarshalState P}

/-- The bytes that `MarshalOneVariable` copies. -/
def copied (attributes : List Attribute) (s : MarshalState P) (dv : VariableEntry) : List UInt8 :=
  match bareVariableUnknownId attributes s.inst.unknownPatterns dv.name with
  | some id => unknownRecord s.next id
  | none =>
    match s.activation.bound dv.name with
    | .ok (some v) =>
      match encodeBoundValue P.wellKnown v dv.repr dv.name s.arena with
      | .ok (cell, _) => cell.copied
      | .error _ => []
    | _ => []

/-- What a variable has copied. -/
def placement (attributes : List Attribute) (s : MarshalState P) (dv : VariableEntry) : Placement where
  entry := dv
  start := s.next
  bytes := s.copied attributes dv
  cell := (s.marshalOneVariable attributes dv).2.inst.slots dv.slotOffset

/-- What the variables have copied, one after another. -/
def placements (attributes : List Attribute) : List VariableEntry → MarshalState P → List Placement
  | [], _ => []
  | dv :: rest, s =>
    s.placement attributes dv :: placements attributes rest (s.marshalOneVariable attributes dv).2

/-- The activation and the buffer are those of the call, and the cursor is in the buffer. -/
structure Fits (unknowns : List AttributePattern) (bound : String → Except Status (Option HostValue))
    (s : MarshalState P) : Prop where
  ready : s.Ready unknowns bound
  cursor_le : s.arena.cursor.toNat ≤ s.arena.capacity.toNat

/-- **A placement is what a step does** to the memory, the slots and the arena. -/
structure Places (s s' : MarshalState P) (p : Placement) (n : ℕ) : Prop where
  start : p.start = s.next
  length : p.bytes.length = n % 2 ^ 32
  memory : s'.inst.memory = p.copy s.inst.memory
  slots : s'.inst.slots = p.fill s.inst.slots
  buffer : s'.inst.buffer = s.inst.buffer
  takes : s.arena.Takes n s'.arena
  refers : p.Refers

/-! ## One variable -/

/-- A record for a hidden variable was made. -/
def withRecord (s : MarshalState P) (dv : VariableEntry) (id : ℕ) : MarshalState P :=
  { s with
    inst := ({ s.inst with memory := s.inst.memory.write s.next (unknownRecord s.next id) } :
      Instance P).writeSlot dv.slotOffset (.unknown s.next)
    arena := { s.arena with cursor := s.arena.cursor + unknownDescriptorBytes } }

/-- A cell was placed, and is in the slot. -/
def withCell (s : MarshalState P) (dv : VariableEntry) (cell : CelValue) (arena : HostStringArena)
    (activation : Activation) : MarshalState P where
  inst := (s.inst.place s.next cell).2.writeSlot dv.slotOffset (s.inst.place s.next cell).1
  arena := arena
  activation := activation

/-- **What a step that succeeds does**: it makes a record, or encodes what is bound. -/
theorem marshalOneVariable_cases (h : s.marshalOneVariable attributes dv = (none, s')) :
    (∃ id, bareVariableUnknownId attributes s.inst.unknownPatterns dv.name = some id ∧
      s.arena.cursor.toNat + 16 ≤ s.arena.capacity.toNat ∧ s' = s.withRecord dv id) ∨
    ∃ v cell arena activation, bareVariableUnknownId attributes s.inst.unknownPatterns dv.name = none ∧
      s.activation.resolve dv.name = (.ok (some v), activation) ∧
      encodeBoundValue P.wellKnown v dv.repr dv.name s.arena = .ok (cell, arena) ∧
      s' = s.withCell dv cell arena activation := by
  rw [marshalOneVariable] at h
  split at h
  · cases h
  · split at h
    case h_1 id hid =>
      rw [encodeUnknownVariable] at h
      split at h
      · cases h
      · obtain rfl := (Prod.mk.inj h).2
        exact .inl ⟨id, hid, not_lt.mp ‹_›, rfl⟩
    case h_2 hid =>
      split at h
      · cases h
      · cases h
      case h_3 v activation hresolve =>
        split at h
        · cases h
        case h_2 cell arena hencode =>
          obtain rfl := (Prod.mk.inj h).2
          exact .inr ⟨v, cell, arena, activation, hid, hresolve, hencode, rfl⟩

/-- The step of a hidden variable. -/
theorem Fits.withRecord {id : ℕ} (hs : s.Fits unknowns bound)
    (h : s.marshalOneVariable attributes dv = (none, s.withRecord dv id))
    (hid : bareVariableUnknownId attributes unknowns dv.name = some id)
    (hroom : s.arena.cursor.toNat + 16 ≤ s.arena.capacity.toNat) :
    (s.withRecord dv id).Fits unknowns bound ∧
      s.Places (s.withRecord dv id) (s.placement attributes dv) 12 := by
  have halign : alignedBytes 12 = unknownDescriptorBytes := by decide
  have htakes : s.arena.Takes 12 (s.withRecord dv id).arena := by
    refine ⟨?_, ?_⟩
    · rw [halign]
      exact hroom
    · rw [halign]
      rfl
  have hcopied : s.copied attributes dv = unknownRecord s.next id := by
    rw [copied, hs.ready.patterns, hid]
  have hcell : (s.placement attributes dv).cell = .unknown s.next := by
    rw [placement, h]
    exact Function.update_self ..
  refine ⟨⟨⟨hs.ready.patterns, hs.ready.remembers, hs.ready.bound, hs.ready.capacity⟩, ?_⟩, rfl, ?_, ?_,
    ?_, rfl, htakes, ?_, ?_⟩
  · rw [htakes.cursor, htakes.capacity]
    exact htakes.room
  · rw [placement, hcopied]
    simp [unknownRecord]
  · rw [Placement.copy, placement, hcopied]
    rfl
  · rw [Placement.fill, hcell]
    rfl
  · intro span hspan
    rw [hcell] at hspan
    exact nomatch hspan
  · intro offset hoffset
    rw [hcell] at hoffset
    exact (Cell.unknown.inj hoffset).symm

/-- A cell that is placed has the part of its bytes copied that its length counts. -/
structure PlacesCell (i j : Instance P) (address : ℕ) (cell : CelValue) (wire : WireCell) : Prop where
  memory : j.memory = i.memory.write address cell.copied
  slots : j.slots = i.slots
  buffer : j.buffer = i.buffer
  patterns : j.unknownPatterns = i.unknownPatterns
  span : ∀ span, wire.span = some span → span = ⟨address, cell.copied.length⟩
  unknown : ∀ offset, wire ≠ .unknown offset

theorem placesCell (i : Instance P) (address : ℕ) (cell : CelValue) :
    PlacesCell i (i.place address cell).2 address cell (i.place address cell).1 := by
  have hspan : ∀ (s : List UInt8) (span : CelSpan), some ⟨address, s.length % 2 ^ 32⟩ = some span →
      span = ⟨address, (s.take (s.length % 2 ^ 32)).length⟩ := by
    rintro s span ⟨⟩
    rw [List.length_take, Nat.min_eq_left (Nat.mod_le _ _)]
  cases cell with
  | string s | bytes s | type s => exact ⟨rfl, rfl, rfl, rfl, hspan s, nofun⟩
  | _ => exact ⟨ByteMemory.write_nil.symm, rfl, rfl, rfl, nofun, nofun⟩

/-- The step of a variable that is bound. -/
theorem Fits.withCell {v : HostValue} {cell : CelValue} {arena : HostStringArena}
    {activation : Activation} (hs : s.Fits unknowns bound)
    (h : s.marshalOneVariable attributes dv = (none, s.withCell dv cell arena activation))
    (hid : bareVariableUnknownId attributes unknowns dv.name = none)
    (hresolve : s.activation.resolve dv.name = (.ok (some v), activation))
    (hencode : encodeBoundValue P.wellKnown v dv.repr dv.name s.arena = .ok (cell, arena)) :
    (s.withCell dv cell arena activation).Fits unknowns bound ∧ bound dv.name = .ok (some v) ∧
      s.Places (s.withCell dv cell arena activation) (s.placement attributes dv)
        (hostStringBytes P.wellKnown dv.repr v) := by
  obtain ⟨hlength, htakes⟩ := takesFor_encodeBoundValue hs.cursor_le cell arena hencode
  obtain ⟨hvalue, hremembers, hbound⟩ := @Activation.resolve_spec _ dv.name hs.ready.remembers
  rw [hresolve] at hvalue hremembers hbound
  have hplaced := placesCell s.inst s.next cell
  have hcopied : s.copied attributes dv = cell.copied := by
    rw [copied, hs.ready.patterns, hid, ← hvalue]
    dsimp only
    rw [hencode]
  have hcell : (s.placement attributes dv).cell = (s.inst.place s.next cell).1 := by
    rw [placement, h]
    exact Function.update_self ..
  refine ⟨⟨⟨?_, hremembers, hbound.trans hs.ready.bound, ?_⟩, ?_⟩, ?_, rfl, ?_, ?_, ?_, hplaced.buffer,
    htakes, ?_, ?_⟩
  · exact hplaced.patterns.trans hs.ready.patterns
  · exact (htakes.capacity.trans hs.ready.capacity).trans
      (congrArg ActivationBuffer.capacity hplaced.buffer).symm
  · rw [MarshalState.withCell, htakes.cursor, htakes.capacity]
    exact htakes.room
  · rw [← hs.ready.bound]
    exact hvalue.symm
  · rw [placement, hcopied, CelValue.copied, List.length_take, hlength, Nat.min_eq_left (Nat.mod_le _ _)]
  · rw [Placement.copy, placement, hcopied]
    exact hplaced.memory
  · rw [Placement.fill, hcell, ← hplaced.slots]
    rfl
  · intro span hspan
    rw [hcell] at hspan
    rw [placement, hcopied]
    exact hplaced.span span hspan
  · intro offset hoffset
    exact absurd (hcell.symm.trans hoffset) (hplaced.unknown offset)

/-- **A step that succeeds is a placement.** -/
theorem Fits.marshalOneVariable (hs : s.Fits unknowns bound)
    (h : s.marshalOneVariable attributes dv = (none, s')) :
    s'.Fits unknowns bound ∧
      s.Places s' (s.placement attributes dv) (takenBytes P attributes unknowns bound dv) := by
  rw [takenBytes]
  obtain ⟨id, hid, hroom, rfl⟩ | ⟨v, cell, arena, activation, hid, hresolve, hencode, rfl⟩ :=
    marshalOneVariable_cases h
  · rw [hs.ready.patterns] at hid
    rw [hid]
    exact hs.withRecord h hid hroom
  · rw [hs.ready.patterns] at hid
    obtain ⟨hfits, hbound, hplaces⟩ := hs.withCell h hid hresolve hencode
    rw [hid, hbound]
    exact ⟨hfits, hplaces⟩

/-! ## All variables -/

/-- One placement after another; `taken` are the bytes that are copied for a variable. -/
inductive Run (taken : VariableEntry → ℕ) : List Placement → MarshalState P → MarshalState P → Prop
  | nil {s : MarshalState P} : Run taken [] s s
  | cons {s s' s'' : MarshalState P} {p : Placement} {ps : List Placement}
      (h : s.Places s' p (taken p.entry)) (rest : Run taken ps s' s'') : Run taken (p :: ps) s s''

/-- **The loop of `MarshalActivation` is a run of placements.** -/
theorem Fits.marshalVariables {entries : List VariableEntry} (hs : s.Fits unknowns bound)
    (h : s.marshalVariables attributes entries = (none, s')) :
    s'.Fits unknowns bound ∧
      Run (takenBytes P attributes unknowns bound) (s.placements attributes entries) s s' := by
  induction entries generalizing s with
  | nil =>
    obtain rfl := (Prod.mk.inj h).2
    exact ⟨hs, .nil⟩
  | cons dv rest ih =>
    rw [MarshalState.marshalVariables] at h
    rcases hone : s.marshalOneVariable attributes dv with ⟨_ | status, s₁⟩
    · rw [hone] at h
      obtain ⟨hs₁, hplaces⟩ := hs.marshalOneVariable hone
      obtain ⟨hs', hrun⟩ := ih hs₁ h
      rw [placements, hone]
      exact ⟨hs', .cons hplaces hrun⟩
    · rw [hone] at h
      cases h

theorem map_entry_placements (attributes : List Attribute) : ∀ (entries : List VariableEntry)
    (s : MarshalState P), (s.placements attributes entries).map Placement.entry = entries
  | [], _ => rfl
  | dv :: rest, _ => congrArg (dv :: ·) (map_entry_placements attributes rest _)

section Run

variable {taken : VariableEntry → ℕ} {ps : List Placement}

theorem Run.memory (h : Run taken ps s s') : s'.inst.memory = ps.foldl Placement.copy s.inst.memory := by
  induction h with
  | nil => rfl
  | cons hplaces _ ih => rw [ih, hplaces.memory, List.foldl_cons]

theorem Run.slots (h : Run taken ps s s') : s'.inst.slots = ps.foldl Placement.fill s.inst.slots := by
  induction h with
  | nil => rfl
  | cons hplaces _ ih => rw [ih, hplaces.slots, List.foldl_cons]

theorem Run.buffer (h : Run taken ps s s') : s'.inst.buffer = s.inst.buffer := by
  induction h with
  | nil => rfl
  | cons hplaces _ ih => rw [ih, hplaces.buffer]

theorem Run.refers (h : Run taken ps s s') : ∀ p ∈ ps, p.Refers := by
  induction h with
  | nil => exact nofun
  | cons hplaces _ ih => exact List.forall_mem_cons.mpr ⟨hplaces.refers, ih⟩

/-- A cell gives its bytes the length it is cut to. -/
theorem Run.length (h : Run taken ps s s') : ∀ p ∈ ps,
    p.length = taken p.entry % 2 ^ 32 ∧ p.bytes.length = taken p.entry % 2 ^ 32 := by
  induction h with
  | nil => exact nofun
  | cons hplaces _ ih =>
    refine List.forall_mem_cons.mpr ⟨⟨?_, hplaces.length⟩, ih⟩
    rw [hplaces.refers.length, hplaces.length]

/-- The next bytes go past the ones before. -/
theorem Places.next {p : Placement} {n : ℕ} (h : s.Places s' p n) :
    s'.next = p.start + (alignedBytes n).toNat := by
  rw [h.start, MarshalState.next, MarshalState.next, h.buffer, h.takes.cursor, Nat.add_assoc]

theorem Run.next_le (h : Run taken ps s s') : s.next ≤ s'.next := by
  induction h with
  | nil => exact le_rfl
  | cons hplaces _ ih =>
    have hnext := hplaces.next
    have hstart := hplaces.start
    omega

/-- All bytes lie behind the place the run begins at. -/
theorem Run.le_start (h : Run taken ps s s') : ∀ p ∈ ps, s.next ≤ p.start := by
  induction h with
  | nil => exact nofun
  | cons hplaces _ ih =>
    have hnext := hplaces.next
    have hstart := hplaces.start
    refine List.forall_mem_cons.mpr ⟨hstart.ge, fun p hp => ?_⟩
    have hle := ih p hp
    omega

/-- A payload whose rounding does not wrap ends before the next one begins. -/
theorem Places.finish_le {p : Placement} {n : ℕ} (h : s.Places s' p n) (hn : n + 7 < 2 ^ 32) :
    p.region.finish ≤ s'.next := by
  have hle := le_alignUp8 n
  rw [h.next, toNat_alignedBytes hn]
  change p.start + p.bytes.length ≤ _
  rw [h.length, Nat.mod_eq_of_lt (by omega)]
  omega

theorem Run.finish_le (h : Run taken ps s s') (hshort : ∀ p ∈ ps, taken p.entry + 7 < 2 ^ 32) :
    ∀ p ∈ ps, p.region.finish ≤ s'.next := by
  induction h with
  | nil => exact nofun
  | cons hplaces hrest ih =>
    obtain ⟨hp, hps⟩ := List.forall_mem_cons.mp hshort
    exact List.forall_mem_cons.mpr ⟨(hplaces.finish_le hp).trans hrest.next_le, ih hps⟩

theorem Run.pairwise_apart (h : Run taken ps s s')
    (hshort : ∀ p ∈ ps, taken p.entry + 7 < 2 ^ 32) :
    ps.Pairwise fun p q => p.region.Apart q.region := by
  induction h with
  | nil => exact .nil
  | cons hplaces hrest ih =>
    obtain ⟨hp, hps⟩ := List.forall_mem_cons.mp hshort
    refine .cons (fun q hq => .inl ?_) (ih hps)
    exact (hplaces.finish_le hp).trans (hrest.le_start q hq)

end Run

end MarshalState

/-! ## The buffer -/

/-- The bytes of the buffer. -/
def ActivationBuffer.region (b : ActivationBuffer) : Region := ⟨b.offset, b.capacity.toNat⟩

/-- **The copies stay in the buffer**, apart from one another, and none is cut. -/
structure StayInside (buffer : ActivationBuffer) (taken : VariableEntry → ℕ) (ps : List Placement) :
    Prop where
  within : ∀ p ∈ ps, p.region.Within buffer.region
  apart : ps.Pairwise fun p q => p.region.Apart q.region
  length : ∀ p ∈ ps, p.length = taken p.entry

/-- **They stay exactly if no length comes within seven bytes of 4 GiB**, in a buffer of pages. -/
theorem MarshalState.Run.stayInside_iff {s s' : MarshalState P} {taken : VariableEntry → ℕ}
    {ps : List Placement} (h : Run taken ps s s') (hs : s'.Fits unknowns bound)
    (hpages : 4096 ∣ s'.inst.buffer.capacity.toNat) :
    StayInside s'.inst.buffer taken ps ↔ ∀ p ∈ ps, taken p.entry + 7 < 2 ^ 32 := by
  have hoffset : s'.inst.buffer.offset ≤ s.next := by
    rw [h.buffer]
    exact Nat.le_add_right _ _
  have hend : s'.next ≤ s'.inst.buffer.region.finish := by
    have hcursor := hs.cursor_le
    rw [hs.ready.capacity] at hcursor
    exact Nat.add_le_add_left hcursor _
  constructor
  · rintro ⟨hwithin, -, hlength⟩ p hp
    obtain ⟨hcut, hbytes⟩ := h.length p hp
    have hwhole := hlength p hp
    have hinside : p.start + p.bytes.length ≤ s'.inst.buffer.offset + s'.inst.buffer.capacity.toNat :=
      (hwithin p hp).2
    have hstart := h.le_start p hp
    have hcapacity := s'.inst.buffer.capacity.toNat_lt
    omega
  · intro hshort
    refine ⟨fun p hp => ⟨hoffset.trans (h.le_start p hp), (h.finish_le hshort p hp).trans hend⟩,
      h.pairwise_apart hshort, fun p hp => ?_⟩
    rw [(h.length p hp).1]
    exact Nat.mod_eq_of_lt (by have := hshort p hp; omega)

/-! ## A buffer is made of pages -/

theorem dvd_roundUpTo4K (bytes : ℕ) : 4096 ∣ (roundUpTo4K bytes).toNat := by
  rw [roundUpTo4K, UInt32.toNat_ofNat']
  exact (Nat.dvd_mod_iff ⟨1048576, rfl⟩).mpr ⟨_, Nat.mul_comm _ _⟩

variable {i i' : Instance P} {abi : CelAbi} {activation activation' : Activation} {need : UInt32}
  {name : String} {program : Program P}

/-- The buffer is of pages. -/
def Instance.Paged (i : Instance P) : Prop := 4096 ∣ i.buffer.capacity.toNat

theorem Instance.paged_plan (heap : P.State) (arena : CelArena) :
    (Instance.plan heap arena : Instance P).Paged := Nat.dvd_zero 4096

theorem Instance.Paged.reserve (h : i.Paged) (name : String) (need : UInt32) :
    (i.reserve name need).2.Paged := by
  rw [Instance.reserve, ensureActivationBuffer]
  split
  · split
    · exact h
    · split
      · exact h
      · exact dvd_roundUpTo4K _
  · exact h

theorem Instance.Paged.marshalActivation (h : i.Paged) (abi : CelAbi) (activation : Activation) :
    (i.marshalActivation abi activation).2.Paged := by
  rw [Instance.marshalActivation]
  split
  · exact h
  case h_2 stringBytes activation' _ =>
    dsimp only
    have hreserved := h.reserve ((abi.entries.head?.map VariableEntry.name).getD "")
      (stringBytes + unknownDescriptorBytes
        * UInt32.ofNat (countUnknownVariables abi.attributes i.unknownPatterns abi.entries))
    generalize i.reserve _ _ = reserved at hreserved ⊢
    obtain ⟨_ | status, j⟩ := reserved
    · have hframed := MarshalState.framed_marshalVariables abi.attributes abi.entries
        { inst := j, arena := { capacity := j.buffer.capacity, cursor := 0 }, activation := activation' }
      dsimp only
      rw [Paged, hframed.buffer]
      exact hreserved
    · exact hreserved

theorem Instance.buffer_celGetField (i : Instance P) (abi : CelAbi) (slot fieldRef attributeId : ℕ) :
    (i.celGetField abi slot fieldRef attributeId).2.buffer = i.buffer := by
  have hresolve : ∀ site d, (i.resolveFieldThroughSiteCache fieldRef site d).2.buffer = i.buffer := by
    intro site d
    rw [resolveFieldThroughSiteCache]
    split
    · rfl
    · split <;> rfl
  rw [celGetField]
  split
  · rfl
  case h_2 site _ =>
    split
    · rfl
    · split
      · rfl
      · split
        · split <;> rfl
        case h_2 d _ =>
          have hsite := hresolve site d
          generalize i.resolveFieldThroughSiteCache fieldRef site d = resolved at hsite ⊢
          obtain ⟨_ | ⟨field, readClass⟩, j⟩ := resolved
          · exact hsite
          · dsimp only
            split <;> exact hsite

/-- A body leaves the buffer alone. -/
theorem Body.buffer_run (b : Body P.format.Compiled abi.entries.length) (held : List ℕ)
    (i : Instance P) : (b.run abi held i).2.buffer = i.buffer := by
  induction b generalizing held i with
  | ret result => rfl
  | trap message => rfl
  | readVariable index next ih => exact ih _ held i
  | arenaAlloc bytes next ih => exact ih _ held _
  | load block offset next ih => exact ih _ held i
  | store block offset byte next ih => exact ih held _
  | malloc bytes next ih =>
    rw [run]
    split
    · rfl
    · exact ih _ _
  | free block next ih =>
    rw [run]
    split
    · exact ih held i
    · exact ih _ _
  | table update next ih => exact ih _ held _
  | getField slot fieldRef attributeId next ih =>
    exact (ih _ held _).trans (i.buffer_celGetField abi slot fieldRef attributeId)
  | celMatches text pattern next ih =>
    rw [run]
    split
    · rfl
    · exact ih _ held _
  | parseFormat format next ih =>
    rw [run]
    split
    · rfl
    · exact ih _ held _

theorem Instance.Paged.evalOnly (h : i.Paged) (program : Program P) :
    (i.evalOnly program).2.Paged := by
  rw [Paged, Instance.evalOnly, Body.buffer_run]
  exact h

theorem Instance.Paged.bindVariables (h : i.Paged) (program : Program P) (activation : Activation)
    (unknowns : List AttributePattern) :
    (i.bindVariables program activation unknowns).2.Paged :=
  Paged.marshalActivation (i := { i with refs := i.refs.reset, unknownPatterns := unknowns }) h _ _

/-- **Every call keeps the buffer of pages.** -/
theorem Instance.Paged.call (h : i.Paged) (program : Program P) (c : Call) :
    (i.call program c).2.Paged := by
  cases c with
  | eval activation =>
    have hbound := h.bindVariables program activation []
    rw [Instance.call, Instance.eval]
    generalize i.bindVariables program activation [] = begun at hbound ⊢
    obtain ⟨_ | status, j⟩ := begun
    · exact hbound.evalOnly program
    · exact hbound
  | partialEval activation unknowns =>
    have hbound := h.bindVariables program activation unknowns
    rw [Instance.call, Instance.partialEval]
    generalize i.bindVariables program activation unknowns = begun at hbound ⊢
    obtain ⟨_ | status, j⟩ := begun
    · exact hbound.evalOnly program
    · exact hbound
  | evalOnly => exact h.evalOnly program

theorem Instance.Paged.after (program : Program P) : ∀ (calls : List Call) {i : Instance P},
    i.Paged → (i.after program calls).Paged
  | [], _, h => h
  | c :: calls, _, h => Paged.after program calls (h.call program c)

/-! ## A call -/

theorem Activation.bound_totalHostStringBytes {wellKnown : ℕ → Option WellKnownMessage}
    {entries : List VariableEntry} {total : UInt32} (h : activation.Remembers) :
    (totalHostStringBytes wellKnown attributes unknowns entries total activation).2.Remembers ∧
      (totalHostStringBytes wellKnown attributes unknowns entries total activation).2.bound
        = activation.bound := by
  induction entries generalizing total activation with
  | nil => exact ⟨h, rfl⟩
  | cons dv rest ih =>
    obtain ⟨-, hremembers, hbound⟩ := @Activation.resolve_spec _ dv.name h
    rw [totalHostStringBytes]
    split
    · exact ih h
    · split
      · exact ih h
      · generalize activation.resolve dv.name = resolved at hremembers hbound
        obtain ⟨_ | _ | v, activation'⟩ := resolved
        · exact ⟨hremembers, hbound⟩
        · exact ⟨(ih hremembers).1, (ih hremembers).2.trans hbound⟩
        · exact ⟨(ih hremembers).1, (ih hremembers).2.trans hbound⟩

/-- Where the loop of `MarshalActivation` starts. -/
def Instance.marshalStart (i : Instance P) (abi : CelAbi) (activation : Activation) :
    Except Status (MarshalState P) :=
  match totalHostStringBytes P.wellKnown abi.attributes i.unknownPatterns abi.entries 0
      activation.clearLazyCache with
  | (.error status, _) => .error status
  | (.ok stringBytes, activation) =>
    match i.reserve ((abi.entries.head?.map VariableEntry.name).getD "")
        (stringBytes + unknownDescriptorBytes
          * UInt32.ofNat (countUnknownVariables abi.attributes i.unknownPatterns abi.entries)) with
    | (some status, _) => .error status
    | (none, i) => .ok { inst := i, arena := { capacity := i.buffer.capacity, cursor := 0 }, activation }

/-- **What a call copies into the buffer**, variable by variable. -/
def Instance.placements (i : Instance P) (abi : CelAbi) (activation : Activation) : List Placement :=
  match i.marshalStart abi activation with
  | .error _ => []
  | .ok s => s.placements abi.attributes abi.entries

/-- A call that binds its variables ran the loop from its start to the end. -/
theorem Instance.marshalStart_of_marshalActivation
    (h : i.marshalActivation abi activation = (none, i')) :
    ∃ s s', i.marshalStart abi activation = .ok s ∧
      s.marshalVariables abi.attributes abi.entries = (none, s') ∧ s'.inst = i' := by
  rw [marshalActivation] at h
  split at h
  · cases h
  case h_2 stringBytes activation' htotal =>
    dsimp only at h
    split at h
    · cases h
    case h_2 j hreserve =>
      obtain ⟨hnone, hinst⟩ := Prod.mk.inj h
      refine ⟨_, _, ?_, Prod.ext hnone rfl, hinst⟩
      rw [marshalStart, htotal]
      dsimp only
      rw [hreserve]

theorem Instance.reserve_keeps (i : Instance P) (name : String) (need : UInt32) :
    (i.reserve name need).2.memory = i.memory ∧ (i.reserve name need).2.slots = i.slots ∧
      (i.reserve name need).2.unknownPatterns = i.unknownPatterns := by
  rw [reserve, ensureActivationBuffer]
  split
  · split
    · exact ⟨rfl, rfl, rfl⟩
    · split <;> exact ⟨rfl, rfl, rfl⟩
  · exact ⟨rfl, rfl, rfl⟩

theorem Instance.marshalStart_fits {s : MarshalState P} (h : i.marshalStart abi activation = .ok s) :
    s.Fits i.unknownPatterns activation.bound ∧ s.inst.memory = i.memory ∧ s.inst.slots = i.slots := by
  obtain ⟨hremembers, hbound⟩ := @Activation.bound_totalHostStringBytes abi.attributes
    i.unknownPatterns _ P.wellKnown abi.entries 0 activation.remembers_clearLazyCache
  rw [marshalStart] at h
  split at h
  · exact nomatch h
  case h_2 stringBytes activation' htotal =>
    rw [htotal] at hremembers hbound
    obtain ⟨hmemory, hslots, hpatterns⟩ := i.reserve_keeps
      ((abi.entries.head?.map VariableEntry.name).getD "")
      (stringBytes + unknownDescriptorBytes
        * UInt32.ofNat (countUnknownVariables abi.attributes i.unknownPatterns abi.entries))
    generalize i.reserve _ _ = reserved at hmemory hslots hpatterns h
    obtain ⟨_ | status, j⟩ := reserved
    · obtain rfl := Except.ok.inj h
      exact ⟨⟨⟨hpatterns, hremembers, hbound, rfl⟩, Nat.zero_le _⟩, hmemory, hslots⟩
    · exact nomatch h

/-- What `Eval` or `PartialEval` copies for an activation. -/
def Instance.callPlacements (i : Instance P) (program : Program P) (activation : Activation)
    (unknowns : List AttributePattern) : List Placement :=
  ({ i with refs := i.refs.reset, unknownPatterns := unknowns } : Instance P).placements program.abi
    activation

/-- What is apart from the buffer is left as it was. -/
theorem StayInside.agreeOn {buffer : ActivationBuffer} {taken : VariableEntry → ℕ}
    {ps : List Placement} {r : Region} (h : StayInside buffer taken ps) (hr : r.Apart buffer.region)
    (m : ByteMemory) : ByteMemory.AgreeOn r m (ps.foldl Placement.copy m) := by
  have hwithin := h.within
  clear h
  induction ps generalizing m with
  | nil => exact .refl r m
  | cons p ps ih =>
    obtain ⟨hp, hps⟩ := List.forall_mem_cons.mp hwithin
    exact (ByteMemory.agreeOn_write (hr.mono (.refl r) hp)).trans (ih (p.copy m) hps)

/-- **What a call that binds its variables leaves**: its placements, in order, and nothing more. -/
structure Instance.Copies (i i' : Instance P) (program : Program P) (ps : List Placement) : Prop where
  entries : ps.map Placement.entry = program.abi.entries
  memory : i'.memory = ps.foldl Placement.copy i.memory
  slots : i'.slots = ps.foldl Placement.fill i.slots
  refers : ∀ p ∈ ps, p.Refers

/-- A call over a buffer of pages. -/
theorem Instance.Paged.copies (h : i.Paged)
    (hbound : i.bindVariables program activation unknowns = (none, i')) :
    i.Copies i' program (i.callPlacements program activation unknowns) ∧
      (StayInside i'.buffer (takenBytes P program.abi.attributes unknowns activation.bound)
          (i.callPlacements program activation unknowns) ↔
        ∀ dv ∈ program.abi.entries,
          takenBytes P program.abi.attributes unknowns activation.bound dv + 7 < 2 ^ 32) := by
  have hpaged := h.bindVariables program activation unknowns
  rw [hbound] at hpaged
  obtain ⟨s, s', hstart, hloop, rfl⟩ := Instance.marshalStart_of_marshalActivation hbound
  obtain ⟨hfits, hmemory, hslots⟩ := Instance.marshalStart_fits hstart
  obtain ⟨hfits', hrun⟩ := hfits.marshalVariables hloop
  have hplacements : i.callPlacements program activation unknowns
      = s.placements program.abi.attributes program.abi.entries := by
    rw [callPlacements, placements, hstart]
  have hentries := MarshalState.map_entry_placements program.abi.attributes program.abi.entries s
  rw [hplacements]
  refine ⟨⟨hentries, hmemory ▸ hrun.memory, hslots ▸ hrun.slots, hrun.refers⟩, ?_⟩
  refine (hrun.stayInside_iff hfits' hpaged).trans ⟨fun hps dv hdv => ?_, fun hdvs p hp => ?_⟩
  · rw [← hentries] at hdv
    obtain ⟨p, hp, rfl⟩ := List.mem_map.mp hdv
    exact hps p hp
  · exact hdvs p.entry (hentries ▸ List.mem_map_of_mem hp)

/-- **The variables of a call lie in its buffer** — apart from one another, as long as what is bound,
and with nothing else of the memory written — exactly if every payload is shorter than 4 GiB by more
than seven bytes. The instance may be one after any calls. -/
theorem bindVariables_stays_iff (program : Program P) (heap : P.State) (arena : CelArena)
    (calls : List Call) (activation : Activation) (unknowns : List AttributePattern) {i i' : Instance P}
    (hi : i = (Instance.plan heap arena : Instance P).after program calls)
    (h : i.bindVariables program activation unknowns = (none, i')) :
    i.Copies i' program (i.callPlacements program activation unknowns) ∧
      (StayInside i'.buffer (takenBytes P program.abi.attributes unknowns activation.bound)
          (i.callPlacements program activation unknowns) ∧
        (∀ r : Region, r.Apart i'.buffer.region → ByteMemory.AgreeOn r i.memory i'.memory) ↔
        ∀ dv ∈ program.abi.entries,
          takenBytes P program.abi.attributes unknowns activation.bound dv + 7 < 2 ^ 32) := by
  have hpaged : i.Paged := hi ▸ (Instance.paged_plan heap arena).after program calls
  obtain ⟨hcopies, hiff⟩ := hpaged.copies h
  refine ⟨hcopies, fun hstay => hiff.mp hstay.1, fun hshort => ?_⟩
  have hstay := hiff.mpr hshort
  refine ⟨hstay, fun r hr => ?_⟩
  rw [hcopies.memory]
  exact hstay.agreeOn hr i.memory

/-- A program of a string, of bytes and of an int. -/
def threeVariables : Program plainPlatform where
  abi :=
    { entries := [{ name := "s", repr := .string, slotOffset := 0 },
        { name := "b", repr := .bytes, slotOffset := 24 }, { name := "n", repr := .int, slotOffset := 48 }]
      fieldRefs := []
      attributes := [⟨"", []⟩, ⟨"s", []⟩, ⟨"b", []⟩, ⟨"n", []⟩]
      slot_le := by decide }
  body := .ret (.ok .null)

/-- A string of 13 bytes, and 30 bytes; `n` is unknown. -/
def bindTexts : Activation where
  bindings := [("s", .string (List.replicate 13 0x61)), ("b", .bytes (List.replicate 30 0xff))]
  lazyBinders := []
  lazyCache := []

/-- The two payloads and the descriptor of the unknown lie in the buffer. -/
theorem bindVariables_stays_texts :
    StayInside (planned.bindVariables threeVariables bindTexts [⟨"n", []⟩]).2.buffer
      (takenBytes plainPlatform threeVariables.abi.attributes [⟨"n", []⟩] bindTexts.bound)
      (planned.callPlacements threeVariables bindTexts [⟨"n", []⟩]) ∧
    threeVariables.abi.entries.map
      (takenBytes plainPlatform threeVariables.abi.attributes [⟨"n", []⟩] bindTexts.bound)
        = [13, 30, 12] := by
  have hshort : ∀ dv ∈ threeVariables.abi.entries, takenBytes plainPlatform
      threeVariables.abi.attributes [⟨"n", []⟩] bindTexts.bound dv + 7 < 2 ^ 32 := by decide
  exact ⟨((bindVariables_stays_iff threeVariables _ firstChunk [] bindTexts [⟨"n", []⟩] rfl
    (Prod.ext rfl rfl)).2.mpr hshort).1, by decide⟩

/-! ## A string that leaves the buffer -/

/-- A string seven bytes short of 4 GiB needs no buffer, and is copied. -/
theorem bindVariables_wraps {s : List UInt8} (hs : s.length = 2 ^ 32 - 7) :
    (planned.bindVariables sizeOfString (bindString s) []).1 = none := by
  have hzero : (0 + UInt32.ofNat s.length + 7) &&& ~~~7 = (0 : UInt32) := by
    rw [hs]
    decide
  have htotal : totalHostStringBytes plainPlatform.wellKnown sizeOfString.abi.attributes []
      sizeOfString.abi.entries 0 (bindString s).clearLazyCache
        = (.ok ((0 + UInt32.ofNat s.length + 7) &&& ~~~7), bindString s) := rfl
  rw [hzero] at htotal
  have hcopy : copyToArena { capacity := 0, cursor := 0 } "s" "" s (.string s)
      = .ok (.string s, { capacity := 0, cursor := 0 + alignedBytes s.length }) := by
    have haligned : alignedBytes s.length = 0 := by
      rw [UInt32.zero_add] at hzero
      exact hzero
    rw [copyToArena]
    refine if_neg ?_
    change ¬(0 + (alignedBytes s.length).toNat > 0)
    rw [haligned]
    decide
  have hstep : ∀ start : MarshalState plainPlatform, start.inst.unknownPatterns = [] →
      start.arena = { capacity := 0, cursor := 0 } → start.activation = bindString s →
      (start.marshalOneVariable sizeOfString.abi.attributes
        { name := "s", repr := .string, slotOffset := 0 }).1 = none := by
    rintro ⟨i, _, _⟩ hpatterns rfl rfl
    have hinside : ¬0 + celValueBytes > plainPlatform.memorySize i.heap :=
      show ¬0 + celValueBytes > 67108864 by decide
    have hid : bareVariableUnknownId sizeOfString.abi.attributes i.unknownPatterns "s" = none := by
      rw [show i.unknownPatterns = [] from hpatterns]
      rfl
    have hresolve : (bindString s).resolve "s" = (.ok (some (.string s)), bindString s) := rfl
    have hencode : encodeBoundValue plainPlatform.wellKnown (.string s) .string "s"
        { capacity := 0, cursor := 0 } = _ := hcopy
    rw [MarshalState.marshalOneVariable, if_neg hinside, hid]
    dsimp only
    rw [hresolve]
    dsimp only
    rw [hencode]
  have hone := hstep
    { inst := { planned with refs := planned.refs.reset, unknownPatterns := [] }
      arena := { capacity := 0, cursor := 0 }
      activation := bindString s } rfl rfl rfl
  rw [Instance.bindVariables, Instance.marshalActivation]
  dsimp only
  rw [htotal]
  change (MarshalState.marshalVariables sizeOfString.abi.attributes [_]
    { inst := { planned with refs := planned.refs.reset, unknownPatterns := [] }
      arena := { capacity := 0, cursor := 0 }
      activation := bindString s }).1 = none
  rw [MarshalState.marshalVariables]
  generalize MarshalState.marshalOneVariable _ _ _ = marshalled at hone ⊢
  obtain ⟨_ | status, s'⟩ := marshalled
  · rfl
  · cases hone

/-- …and leaves the buffer. -/
theorem bindVariables_leaves_buffer {s : List UInt8} (hs : s.length = 2 ^ 32 - 7) :
    ∃ i', planned.bindVariables sizeOfString (bindString s) [] = (none, i') ∧
      ¬StayInside i'.buffer
        (takenBytes plainPlatform sizeOfString.abi.attributes [] (bindString s).bound)
        (planned.callPlacements sizeOfString (bindString s) []) := by
  have hbind : planned.bindVariables sizeOfString (bindString s) []
      = (none, (planned.bindVariables sizeOfString (bindString s) []).2) :=
    Prod.ext (bindVariables_wraps hs) rfl
  have hpaged : planned.Paged := Instance.paged_plan _ _
  refine ⟨_, hbind, fun hstay => ?_⟩
  have hshort := (hpaged.copies hbind).2.mp hstay _ List.mem_cons_self
  change s.length + 7 < 2 ^ 32 at hshort
  omega

/-- A string of 4 GiB less seven bytes. -/
theorem bindVariables_string_leaves_buffer :
    ∃ i', planned.bindVariables sizeOfString (bindString (List.replicate (2 ^ 32 - 7) 0x61)) []
        = (none, i') ∧
      ¬StayInside i'.buffer
        (takenBytes plainPlatform sizeOfString.abi.attributes []
          (bindString (List.replicate (2 ^ 32 - 7) 0x61)).bound)
        (planned.callPlacements sizeOfString (bindString (List.replicate (2 ^ 32 - 7) 0x61)) []) :=
  bindVariables_leaves_buffer List.length_replicate

end CelWasm
