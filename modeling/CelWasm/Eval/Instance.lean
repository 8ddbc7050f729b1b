import CelWasm.Eval.Activation
import CelWasm.Eval.ExternrefTable
import CelWasm.Eval.ProtoField
import CelWasm.Library.ByteMemory
import CelWasm.Library.OneEntryCache
import CelWasm.Runtime.Arena

/-!
# Eval/Instance — an instance, and what a call does to it

An instance outlives its calls, and so do the slots of the variables, the buffer their strings are
copied to, the table of backings, the patterns of a partial evaluation, the arena, the field each
access site resolved last, and the text the runtime compiled last. A call binds the variables and runs
the program's body, which reaches the instance only by the steps of `Body`.
-/

namespace CelWasm

/-! ## What an instance is linked with -/

/-- `FieldRefEntry`, without the cache it carries. -/
structure FieldRefEntry where
  fieldNumber : ℕ
  fieldName : String

/-- `ProtoFieldReadClass`. -/
inductive ProtoFieldReadClass
  | kScalar
  | kMap
  | kRepeated
  | kMessageWrapper
  | kMessageAny
  | kMessageTimestamp
  | kMessageDuration
  | kMessageJson
  | kMessagePlain

/-- `ClassifyResolvedField`. -/
def classifyResolvedField (field : FieldDescriptor) : ProtoFieldReadClass :=
  match field.shape with
  | .map _ _ => .kMap
  | .repeated _ => .kRepeated
  | .singular (.scalar _) => .kScalar
  | .singular (.message d) =>
    match d.wrapper, d.wkt with
    | some _, _ => .kMessageWrapper
    | none, some .any => .kMessageAny
    | none, some .timestamp => .kMessageTimestamp
    | none, some .duration => .kMessageDuration
    | none, some .value | none, some .struct | none, some .listValue => .kMessageJson
    | none, none => .kMessagePlain

/-- The messages behind handles, by reflection: a message of protobuf has a descriptor, a custom
backing none. The pools of descriptors outlive the instance. -/
structure Reflection where
  wellKnown : ℕ → Option WellKnownMessage
  descriptor : ℕ → Option Descriptor
  resolveFieldDescriptor : Descriptor → FieldRefEntry → Option FieldDescriptor
  readFieldClassified : ℕ → FieldDescriptor → ProtoFieldReadClass → Except Status HostValue
  readField : ℕ → FieldRefEntry → Except Status HostValue

/-- A compiler of texts, and the blocks it asks for. -/
structure TextCompiler where
  Compiled : Type
  compile : List UInt8 → Option Compiled
  requests : List UInt8 → List ℕ

/-- What an instance is linked with. -/
structure Platform extends Heap, Reflection where
  regex : TextCompiler
  format : TextCompiler
  partialMatch : regex.Compiled → List UInt8 → Bool

/-! ## Cells -/

/-- `CelSpan`. -/
structure CelSpan where
  ptr : ℕ
  len : ℕ

/-- A cell as it lies in a slot: strings by `σ`, unknown sets by `υ`, backings by their slots in the
host's table. -/
inductive Cell (σ υ : Type)
  | inline (v : CelValue)
  | string (s : σ)
  | bytes (s : σ)
  | type (s : σ)
  | message (slot : ℕ)
  | listHost (slot : ℕ)
  | mapHost (slot : ℕ)
  | unknown (ids : υ)

/-- A cell in memory, with offsets. -/
abbrev WireCell := Cell CelSpan ℕ

/-- A cell with what its offsets lead to. -/
abbrev ReadCell := Cell (List UInt8) (List ℕ)

/-- `DecodeUnknownSetAt`: a descriptor is the offset of the ids and their number. -/
def decodeUnknownSetAt (m : ByteMemory) (offset : ℕ) : List ℕ :=
  if offset = 0 then [] else m.readU32s (m.readU32 offset) (m.readU32 (offset + 4))

/-- Read what a cell's offsets lead to. -/
def Cell.read (m : ByteMemory) : WireCell → ReadCell
  | inline v => .inline v
  | string s => .string (m.read s.ptr s.len)
  | bytes s => .bytes (m.read s.ptr s.len)
  | type s => .type (m.read s.ptr s.len)
  | message slot => .message slot
  | listHost slot => .listHost slot
  | mapHost slot => .mapHost slot
  | unknown offset => .unknown (decodeUnknownSetAt m offset)

/-! ## The instance -/

/-- `CachedInitialized`, `CachedPattern` and `CachedRe`, or their counterparts for a format, with the
blocks they hold. -/
structure TextCache (γ : Type) where
  entry : OneEntryCache (List UInt8) (Option γ)
  compiledBlocks : List ℕ
  textBlock : Option ℕ
  capacity : ℕ

/-- `activation_buf_offset` and `activation_buf_capacity`. -/
structure ActivationBuffer where
  offset : ℕ
  capacity : UInt32
  pos : 0 < capacity → 0 < offset
  le : offset + capacity.toNat ≤ 2 ^ 32

/-- **`InstanceImpl`**, with the variables of the runtime module. -/
structure Instance (P : Platform) where
  refs : HostExternrefTable
  unknownPatterns : List AttributePattern
  buffer : ActivationBuffer
  memory : ByteMemory
  slots : ℕ → WireCell
  resolved : ℕ → OneEntryCache Descriptor (FieldDescriptor × ProtoFieldReadClass)
  heap : P.State
  arena : CelArena
  regexCache : TextCache P.regex.Compiled
  formatCache : TextCache P.format.Compiled

/-- `sizeof(CelValue)`. -/
def celValueBytes : ℕ := 24

/-- The decoded ABI. `ValidateAbiSlotExtents` admits it only with every slot in the reserved part of
the memory. -/
structure CelAbi where
  entries : List VariableEntry
  fieldRefs : List FieldRefEntry
  attributes : List Attribute
  slot_le : ∀ dv ∈ entries, dv.slotOffset + celValueBytes ≤ reservedLowMemoryBytes

variable {P : Platform}

/-- An instance as `Plan` leaves it, with the heap and the arena that `arena_init` left. -/
def Instance.plan (heap : P.State) (arena : CelArena) : Instance P where
  refs := .empty
  unknownPatterns := []
  buffer := { offset := 0, capacity := 0, pos := fun _ => by contradiction, le := by decide }
  memory := fun _ => 0
  slots := fun _ => .inline .null
  resolved := fun _ => none
  heap := heap
  arena := arena
  regexCache := { entry := none, compiledBlocks := [], textBlock := none, capacity := 0 }
  formatCache := { entry := none, compiledBlocks := [], textBlock := none, capacity := 0 }

/-! ## The caches -/

/-- Ask for blocks in turn; a refused one aborts the module, and the ones before it are lost. -/
def mallocAll (P : Heap) : P.State → List ℕ → Option (List ℕ) × P.State
  | heap, [] => (some [], heap)
  | heap, n :: ns =>
    match P.malloc heap n with
    | none => (none, heap)
    | some (block, heap) =>
      match mallocAll P heap ns with
      | (none, heap) => (none, heap)
      | (some blocks, heap) => (some (block.address :: blocks), heap)

section TextCache

variable (H : Heap) (C : TextCompiler)

/-- The heap after the compiled form of a text has replaced the one that was kept. -/
def TextCache.replaced (cache : TextCache C.Compiled) (heap : H.State) : H.State :=
  cache.compiledBlocks.foldl H.free heap

/-- `std::string::assign`: a longer text than the block holds takes a new block. -/
def TextCache.assign (cache : TextCache C.Compiled) (heap : H.State) (text : List UInt8) :
    Option (TextCache C.Compiled) × H.State :=
  if text.length ≤ cache.capacity then
    (some { cache with entry := some (text, C.compile text) }, heap)
  else
    match H.malloc heap (text.length + 1) with
    | none => (none, heap)
    | some (block, heap) =>
      (some { cache with
        entry := some (text, C.compile text)
        textBlock := some block.address
        capacity := text.length }, cache.textBlock.elim heap (H.free heap))

/-- **The refill of a cache**, in `cel_matches_at_vv` and `RefreshCache`: the compiled form of a text,
or none when the module aborts. The compiled form is stored before the text it belongs to. -/
def TextCache.refresh (cache : TextCache C.Compiled) (heap : H.State) (text : List UInt8) :
    Option (Option C.Compiled) × TextCache C.Compiled × H.State :=
  match cache.entry.hit text with
  | some compiled => (some compiled, cache, heap)
  | none =>
    match mallocAll H heap (C.requests text) with
    | (none, heap) => (none, cache, heap)
    | (some blocks, heap) =>
      let half := { cache with entry := cache.entry.torn (C.compile text), compiledBlocks := blocks }
      match half.assign H C (cache.replaced H C heap) text with
      | (none, heap) => (none, half, heap)
      | (some cache, heap) => (some (C.compile text), cache, heap)

end TextCache

namespace Instance

variable (i : Instance P) (abi : CelAbi)

/-- **`ResolveFieldThroughSiteCache`** — a field that is not found is not remembered. -/
def resolveFieldThroughSiteCache (fieldRef : ℕ) (site : FieldRefEntry) (d : Descriptor) :
    Option (FieldDescriptor × ProtoFieldReadClass) × Instance P :=
  match (i.resolved fieldRef).hit d with
  | some found => (some found, i)
  | none =>
    match P.resolveFieldDescriptor d site with
    | none => (none, i)
    | some field =>
      let found := (field, classifyResolvedField field)
      (some found, { i with resolved := Function.update i.resolved fieldRef (some (d, found)) })

/-! ## Reading a field -/

end Instance

/-- What a read of a field comes to: the id of an attribute that is hidden, an error, a failure of
the trampoline, a value still to be encoded, or the cell of a backing. -/
inductive FieldAnswer
  | unknown (attributeId : ℕ)
  | wireError (e : CelErr)
  | failed (status : Status)
  | value (v : HostValue)
  | cell (c : ReadCell)

/-- `TryEncodeAggregateFieldFast`, and what is left for `EncodeFieldResult`. -/
def encodeAggregateField (refs : HostExternrefTable) (owner : ℕ) (field : String)
    (readClass : ProtoFieldReadClass) (v : HostValue) : FieldAnswer × HostExternrefTable :=
  match readClass, v with
  | .kMessagePlain, .message sub =>
    let (slot, refs) := refs.intern sub true
    (.cell (.message slot), refs)
  | .kMap, .map entries =>
    let (slot, refs) := refs.internProtoMapField owner field entries
    (.cell (.mapHost slot), refs)
  | .kRepeated, .list elements =>
    let (slot, refs) := refs.internProtoListField owner field elements
    (.cell (.listHost slot), refs)
  | _, v => (.value v, refs)

/-- `ResolveFieldRef`; row 0 stands for no field. -/
def CelAbi.resolveFieldRef (abi : CelAbi) (fieldRef : ℕ) : Option FieldRefEntry :=
  if fieldRef = 0 then none else abi.fieldRefs[fieldRef]?

/-- **`CelGetFieldImpl`** on the message in a slot of the host's table, after `RunFieldPrelude`. -/
def Instance.celGetField (i : Instance P) (abi : CelAbi) (slot fieldRef attributeId : ℕ) :
    FieldAnswer × Instance P :=
  match abi.resolveFieldRef fieldRef with
  | none => (.wireError .fieldNotFound, i)
  | some site =>
    if matchesAnyUnknownPattern abi.attributes i.unknownPatterns attributeId site.fieldName then
      (.unknown attributeId, i)
    else
      match i.refs.lookup slot with
      | none => (.wireError .hostAdapterError, i)
      | some message =>
        match P.descriptor message with
        | none =>
          match P.readField message site with
          | .error status => (.failed status, i)
          | .ok v => (.value v, i)
        | some d =>
          match i.resolveFieldThroughSiteCache fieldRef site d with
          | (none, i) => (.wireError .fieldNotFound, i)
          | (some (field, readClass), i) =>
            match P.readFieldClassified message field readClass with
            | .error status => (.failed status, i)
            | .ok v =>
              let (answer, refs) := encodeAggregateField i.refs message field.name readClass v
              (answer, { i with refs })

/-! ## The body of a program -/

/-- **The body of `$eval`**, as the steps by which it reaches the instance. It reads the memory
through the variables and the blocks of the arena; what it keeps in its own frame, and what it reads
of the rodata, is in `next`. A kernel may take blocks of the heap for itself, and give them back by
their numbers, the latest 0; when it is refused one the module aborts. -/
inductive Body (Format : Type) (variables' : ℕ) : Type
  | ret (result : Except Status HostValue)
  | trap (message : String)
  | readVariable (index : Fin variables') (next : ReadCell → Body Format variables')
  | arenaAlloc (bytes : ℕ) (next : Option ℕ → Body Format variables')
  | load (block offset : ℕ) (next : UInt8 → Body Format variables')
  | store (block offset : ℕ) (byte : UInt8) (next : Body Format variables')
  | malloc (bytes : ℕ) (next : Body Format variables')
  | free (block : ℕ) (next : Body Format variables')
  | table (update : HostExternrefTable → HostExternrefTable)
      (next : HostExternrefTable → Body Format variables')
  | getField (slot fieldRef attributeId : ℕ) (next : FieldAnswer → Body Format variables')
  | celMatches (text pattern : List UInt8) (next : Option Bool → Body Format variables')
  | parseFormat (format : List UInt8) (next : Option Format → Body Format variables')

/-- `WasmTrapToStatus`. -/
def wasmTrapToStatus (context message : String) : Status :=
  { code := .internal, message := context ++ ": " ++ message }

/-- What an abort of the module is reported as. -/
def aborted : Status := wasmTrapToStatus "Eval trapped" "wasm trap: wasm `unreachable` instruction executed"

/-- **The run of a body**; `held` are the blocks that kernels hold. -/
def Body.run (abi : CelAbi) : Body P.format.Compiled abi.entries.length → List ℕ → Instance P →
    Except Status HostValue × Instance P
  | .ret result, _, i => (result, i)
  | .trap message, _, i => (.error (wasmTrapToStatus "Eval trapped" message), i)
  | .readVariable index next, held, i =>
    (next ((i.slots (abi.entries.get index).slotOffset).read i.memory)).run abi held i
  | .arenaAlloc bytes next, held, i =>
    let (block, heap, arena) := CelWasm.arenaAlloc P.toHeap i.heap i.arena bytes
    (next block).run abi held { i with heap, arena }
  | .load block offset next, held, i => (next (i.arena.load block offset)).run abi held i
  | .store block offset byte next, held, i =>
    next.run abi held { i with arena := i.arena.store block offset byte }
  | .malloc bytes next, held, i =>
    match P.malloc i.heap bytes with
    | none => (.error aborted, i)
    | some (block, heap) => next.run abi (block.address :: held) { i with heap }
  | .free block next, held, i =>
    match held[block]? with
    | none => next.run abi held i
    | some address =>
      next.run abi (held.eraseIdx block) { i with heap := P.free i.heap address }
  | .table update next, held, i => (next i.refs).run abi held { i with refs := update i.refs }
  | .getField slot fieldRef attributeId next, held, i =>
    let (answer, i) := i.celGetField abi slot fieldRef attributeId
    (next answer).run abi held i
  | .celMatches text pattern next, held, i =>
    match i.regexCache.refresh P.toHeap P.regex i.heap pattern with
    | (none, regexCache, heap) => (.error aborted, { i with regexCache, heap })
    | (some compiled, regexCache, heap) =>
      (next (compiled.map (P.partialMatch · text))).run abi held { i with regexCache, heap }
  | .parseFormat format next, held, i =>
    match i.formatCache.refresh P.toHeap P.format i.heap format with
    | (none, formatCache, heap) => (.error aborted, { i with formatCache, heap })
    | (some compiled, formatCache, heap) =>
      (next compiled).run abi held { i with formatCache, heap }

end CelWasm
