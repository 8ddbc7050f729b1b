import CelWasm.Eval.Attribute
import CelWasm.Eval.FieldReads
import CelWasm.Library.SlotTable

/-!
# Eval/FieldAccess — the host's side of a field access

The guest names a message by its slot in the host's tables and a field by its access site. A site
remembers the field it resolved last, with the descriptor it resolved it in and the class of the
field. What is read is written into a cell: scalars as they are, strings by way of the arena,
messages, maps and lists by a slot of the tables, which the fast path issues to a message or to a
field of a message once.
-/

namespace CelWasm

/-! ## The tables -/

/-- A backing of a message: the message of protobuf it exposes, or the number of a custom one. -/
inductive MessageBacking (Msg : Type)
  | proto (m : Msg)
  | custom (id : ℕ)

/-- A backing of a map: `ProtoMap`, or `HostMap`. -/
inductive MapBacking (Msg Field : Type)
  | proto (owner : Msg) (field : Field)
  | host (entries : List (HostValue × HostValue))

/-- A backing of a list: `ProtoList`, or `HostList`. -/
inductive ListBacking (Msg Field : Type)
  | proto (owner : Msg) (field : Field)
  | host (elements : List HostValue)

section Tables

variable (Msg Field : Type) [DecidableEq Msg] [DecidableEq Field]

/-- **`HostExternrefTable`**, by the identities of what it refers to. -/
structure RefTables where
  messages : SlotTable (@MessageBacking.proto Msg)
  maps : SlotTable fun key : Msg × Field => MapBacking.proto key.1 key.2
  lists : SlotTable fun key : Msg × Field => ListBacking.proto key.1 key.2

/-- The tables as constructed. -/
def RefTables.empty : RefTables Msg Field where
  messages := .empty
  maps := .empty
  lists := .empty

end Tables

namespace RefTables

variable {Msg Field : Type} [DecidableEq Msg] [DecidableEq Field] (t : RefTables Msg Field)

/-- `Intern`: a backing that exposes a message gets the slot of the message. -/
def intern : MessageBacking Msg → ℕ × RefTables Msg Field
  | .proto m =>
    let (slot, messages) := t.messages.intern m
    (slot, { t with messages })
  | .custom id =>
    let (slot, messages) := t.messages.push (.custom id)
    (slot, { t with messages })

/-- `InternMap`. -/
def internMap (backing : MapBacking Msg Field) : ℕ × RefTables Msg Field :=
  let (slot, maps) := t.maps.push backing
  (slot, { t with maps })

/-- `InternList`. -/
def internList (backing : ListBacking Msg Field) : ℕ × RefTables Msg Field :=
  let (slot, lists) := t.lists.push backing
  (slot, { t with lists })

/-- `InternProtoMessage`: the table is searched before there is a backing. -/
def internProtoMessage (m : Msg) : ℕ × RefTables Msg Field :=
  match t.messages.slots.lookup m with
  | some slot => (slot, t)
  | none => t.intern (.proto m)

/-- `InternProtoMapField`. -/
def internProtoMapField (owner : Msg) (field : Field) : ℕ × RefTables Msg Field :=
  let (slot, maps) := t.maps.intern (owner, field)
  (slot, { t with maps })

/-- `InternProtoListField`. -/
def internProtoListField (owner : Msg) (field : Field) : ℕ × RefTables Msg Field :=
  let (slot, lists) := t.lists.intern (owner, field)
  (slot, { t with lists })

/-- `Reset`: tables that issued no slot are left as they are. -/
def reset : RefTables Msg Field :=
  if t.messages.rows.isEmpty && t.maps.rows.isEmpty && t.lists.rows.isEmpty then t
  else .empty Msg Field

end RefTables

/-! ## Cells -/

/-- `ArenaAllocator`, on what the memory is; where a block is refused there is no offset. -/
structure ArenaAllocator (Mem : Type) where
  alloc : Mem → ℕ → Option ℕ × Mem
  write : Mem → ℕ → List UInt8 → Mem

/-- A copy of bytes in the arena; out of memory is a failure, unless there is nothing to copy. -/
def ArenaAllocator.copySpan {Mem : Type} (A : ArenaAllocator Mem) (outOfMemory : String)
    (bytes : List UInt8) (mem : Mem) : Except FieldFailure CelSpan × Mem :=
  match A.alloc mem bytes.length with
  | (none, mem) =>
    if bytes ≠ [] then
      (.error (.failed { code := .resourceExhausted, message := outOfMemory }), mem)
    else (.ok { ptr := 0, len := 0 }, mem)
  | (some off, mem) =>
    (.ok { ptr := off, len := bytes.length % 2 ^ 32 },
      if bytes ≠ [] then A.write mem off bytes else mem)

/-- What the trampolines work on: the tables, the cells of the guest, and the rest of its memory. -/
structure FieldHost (Msg Field Mem : Type) [DecidableEq Msg] [DecidableEq Field] where
  refs : RefTables Msg Field
  slots : ℕ → WireCell
  mem : Mem

/-- `CelHostBindings`, of what concerns fields. -/
structure CelHostBindings where
  fieldRefs : List FieldRefEntry
  attributes : List Attribute
  unknownPatterns : List AttributePattern

/-- `ResolveFieldRef`; row 0 stands for no field. -/
def CelHostBindings.resolveFieldRef (B : CelHostBindings) (fieldRefId : ℕ) : Option FieldRefEntry :=
  if fieldRefId = 0 then none else B.fieldRefs[fieldRefId]?

namespace FieldHost

variable {Msg Field Mem : Type} [DecidableEq Msg] [DecidableEq Field]
  (A : ArenaAllocator Mem) (B : CelHostBindings) (h : FieldHost Msg Field Mem)
  (out msgSlot fieldRefId attributeId : ℕ)

/-- `WriteCelValue`, and the return of an OK status. -/
def writeCelValue (cell : WireCell) : Except FieldFailure Unit × FieldHost Msg Field Mem :=
  (.ok (), { h with slots := Function.update h.slots out cell })

/-- A span is copied, and its cell written. -/
def writeSpan (outOfMemory : String) (cell : CelSpan → WireCell) (bytes : List UInt8) :
    Except FieldFailure Unit × FieldHost Msg Field Mem :=
  match A.copySpan outOfMemory bytes h.mem with
  | (.error e, mem) => (.error e, { h with mem })
  | (.ok span, mem) => { h with mem }.writeCelValue out (cell span)

/-- **`EncodeValue`**, with the write of the cell; a check fails for what has no cell here. -/
def encodeValue : HostValue → Except FieldFailure Unit × FieldHost Msg Field Mem
  | .null => h.writeCelValue out (.inline .null)
  | .bool b => h.writeCelValue out (.inline (.bool b))
  | .int i => h.writeCelValue out (.inline (.int i))
  | .uint u => h.writeCelValue out (.inline (.uint u))
  | .double d => h.writeCelValue out (.inline (.double d))
  | .string s => h.writeSpan A out "arena OOM in CelMapLookupImpl" .string s
  | .bytes s => h.writeSpan A out "arena OOM in CelMapLookupImpl" .bytes s
  | .error code => h.writeCelValue out (.inline (.error code))
  | .duration d => h.writeCelValue out (.inline (.duration (decomposeAbslDuration d)))
  | .timestamp t =>
    h.writeCelValue out (.inline (.timestamp (decomposeAbslDuration (t.sub (.ofSeconds 0)))))
  | .unknown _ | .type _ | .message _ | .map _ | .list _ => (.error .aborted, h)

/-- **`EncodeAggregateToCelValue`**: the cell of a message, a map or a list. -/
def encodeAggregate : FieldValue Msg Field → Option (WireCell × RefTables Msg Field)
  | .protoMessage m =>
    let (slot, refs) := h.refs.intern (.proto m)
    some (.message slot, refs)
  | .plain (.message id) =>
    let (slot, refs) := h.refs.intern (.custom id)
    some (.message slot, refs)
  | .protoMap owner field =>
    let (slot, refs) := h.refs.internMap (.proto owner field)
    some (.mapHost slot, refs)
  | .plain (.map entries) =>
    let (slot, refs) := h.refs.internMap (.host entries)
    some (.mapHost slot, refs)
  | .protoList owner field =>
    let (slot, refs) := h.refs.internList (.proto owner field)
    some (.listHost slot, refs)
  | .plain (.list elements) =>
    let (slot, refs) := h.refs.internList (.host elements)
    some (.listHost slot, refs)
  | .plain _ | .error _ => none

/-- **`EncodeFieldResult`**. -/
def encodeFieldResult (v : FieldValue Msg Field) :
    Except FieldFailure Unit × FieldHost Msg Field Mem :=
  match h.encodeAggregate v with
  | some (cell, refs) => { h with refs }.writeCelValue out cell
  | none =>
    match v with
    | .plain v => h.encodeValue A out v
    | .error e => h.writeCelValue out (.inline (.error e.code))
    | .protoMessage _ | .protoMap _ _ | .protoList _ _ => (.error .aborted, h)

/-- `EncodeUnknownSet` of one id, with the write of the cell: a descriptor and the id behind it. -/
def writeUnknown (id : ℕ) : Except FieldFailure Unit × FieldHost Msg Field Mem :=
  match A.alloc h.mem 12 with
  | (none, mem) =>
    (.error (.failed
      { code := .resourceExhausted
        message := "arena OOM minting an UnknownSet descriptor" }), { h with mem })
  | (some off, mem) =>
    let words := leBytes 4 (off + 8) ++ leBytes 4 1 ++ leBytes 4 id
    { h with mem := A.write mem off words }.writeCelValue out (.unknown off)

end FieldHost

/-! ## The prelude -/

/-- What `RunFieldPrelude` finds: a cell to be handed on, a field that is hidden, or a backing and a
site to read it at. -/
inductive FieldPrelude (Msg : Type)
  | handled (cell : WireCell)
  | hidden
  | found (backing : MessageBacking Msg) (site : FieldRefEntry)

namespace FieldHost

variable {Msg Desc Field Mem : Type} [DecidableEq Msg] [DecidableEq Field]
  (A : ArenaAllocator Mem) (B : CelHostBindings) (D : Schema Desc Field)
  (R : Reflections Msg Desc Field) (h : FieldHost Msg Field Mem)
  (out msgSlot fieldRefId attributeId : ℕ)

/-- The cases of `RunFieldPrelude`. -/
def fieldPrelude : FieldPrelude Msg :=
  match h.slots msgSlot with
  | .unknown ids => .handled (.unknown ids)
  | .inline v => .handled (.inline (if v.isPoison then v else .error .typeMismatch))
  | .message slot =>
    match B.resolveFieldRef fieldRefId with
    | none => .handled (.inline (.error .fieldNotFound))
    | some site =>
      if matchesAnyUnknownPattern B.attributes B.unknownPatterns attributeId site.fieldName then
        .hidden
      else
        match slotRow h.refs.messages.rows slot with
        | none => .handled (.inline (.error .hostAdapterError))
        | some backing => .found backing site
  | .string _ | .bytes _ | .type _ | .listHost _ | .mapHost _ =>
    .handled (.inline (.error .typeMismatch))

/-- **The field access without a cache**: the backing reads the field, and the value is encoded. -/
def celGetFieldUncached : Except FieldFailure Unit × FieldHost Msg Field Mem :=
  match h.fieldPrelude B msgSlot fieldRefId attributeId with
  | .handled cell => h.writeCelValue out cell
  | .hidden => h.writeUnknown A out attributeId
  | .found (.proto m) site =>
    match R.protoReadField D m (.ofNat site.fieldNumber) site.fieldName with
    | .error e => (.error e, h)
    | .ok v => h.encodeFieldResult A out v
  | .found (.custom id) site =>
    match R.customReadField id (.ofNat site.fieldNumber) site.fieldName with
    | .error status => (.error (.failed status), h)
    | .ok v => h.encodeFieldResult A out v

/-- **The test for a field without a cache.** -/
def celHasFieldUncached : Except FieldFailure Unit × FieldHost Msg Field Mem :=
  match h.fieldPrelude B msgSlot fieldRefId attributeId with
  | .handled cell => h.writeCelValue out cell
  | .hidden => h.writeUnknown A out attributeId
  | .found (.proto m) site =>
    h.writeCelValue out
      (.inline (.bool (R.protoHasField D m (.ofNat site.fieldNumber) site.fieldName)))
  | .found (.custom id) site =>
    h.writeCelValue out
      (.inline (.bool (R.customHasField id (.ofNat site.fieldNumber) site.fieldName)))

/-! ## The trampolines -/

/-- **`TryEncodeAggregateFieldFast`**. -/
def tryEncodeAggregateFieldFast (c : ResolvedFieldCache Desc Field) (m : Msg) (field : Field) :
    Option (Except FieldFailure Unit × FieldHost Msg Field Mem) :=
  match c.readClass with
  | .kMessagePlain =>
    let (slot, refs) := h.refs.internProtoMessage (R.getMessage m field)
    some ({ h with refs }.writeCelValue out (.message slot))
  | .kMap =>
    let (slot, refs) := h.refs.internProtoMapField m field
    some ({ h with refs }.writeCelValue out (.mapHost slot))
  | .kRepeated =>
    let (slot, refs) := h.refs.internProtoListField m field
    some ({ h with refs }.writeCelValue out (.listHost slot))
  | .kScalar | .kMessageWrapper | .kMessageAny | .kMessageTimestamp | .kMessageDuration
  | .kMessageJson => none

/-- **`WriteScalarFieldToSlot`**, with `WriteProtoStringFieldToCelValue`. -/
def writeScalarFieldToSlot (m : Msg) (field : Field) :
    Except FieldFailure Unit × FieldHost Msg Field Mem :=
  match D.cppType field with
  | .int32 => h.writeCelValue out (.inline (.int (R.getInt32 m field).toInt64))
  | .int64 => h.writeCelValue out (.inline (.int (R.getInt64 m field)))
  | .uint32 => h.writeCelValue out (.inline (.uint (R.getUInt32 m field).toUInt64))
  | .uint64 => h.writeCelValue out (.inline (.uint (R.getUInt64 m field)))
  | .bool => h.writeCelValue out (.inline (.bool (R.getBool m field)))
  | .double => h.writeCelValue out (.inline (.double (R.getDouble m field)))
  | .float => h.writeCelValue out (.inline (.double (.widen (R.getFloat m field))))
  | .enum => h.writeCelValue out (.inline (.int (R.getEnumValue m field).toInt64))
  | .string =>
    h.writeSpan A out "arena OOM marshalling proto string/bytes field"
      (if D.isBytes field then .bytes else .string) (R.getStringReference m field)
  | .message => (.error .aborted, h)

/-- The dispatch of `CelGetFieldImpl` on a resolved field, by the class in its cache. -/
def readResolvedField (rc : ResolvedFieldCache Desc Field) (m : Msg) (field : Field) :
    Except FieldFailure Unit × FieldHost Msg Field Mem :=
  match h.tryEncodeAggregateFieldFast R out rc m field with
  | some r => r
  | none =>
    match rc.readClass with
    | .kScalar => h.writeScalarFieldToSlot A D R out m field
    | _ =>
      match R.readClassifiedMessageField D rc m field with
      | .error e => (.error e, h)
      | .ok v => h.encodeFieldResult A out v

end FieldHost

/-- The caches of the access sites. -/
abbrev SiteCaches (Desc Field : Type) := ℕ → ResolvedFieldCache Desc Field

section Trampolines

variable {Msg Desc Field Mem : Type} [DecidableEq Msg] [DecidableEq Field]

/-- What a trampoline came to, with the caches it leaves. -/
def SiteCaches.leftBy (caches : SiteCaches Desc Field)
    (r : Except FieldFailure Unit × FieldHost Msg Field Mem) :
    Except FieldFailure Unit × FieldHost Msg Field Mem × SiteCaches Desc Field :=
  (r.1, r.2, caches)

variable [DecidableEq Desc] (A : ArenaAllocator Mem) (B : CelHostBindings) (D : Schema Desc Field)
  (R : Reflections Msg Desc Field) (h : FieldHost Msg Field Mem) (caches : SiteCaches Desc Field)
  (out msgSlot fieldRefId attributeId : ℕ)

/-- **`ResolveFieldThroughSiteCache`** — a field that is not found is not remembered. -/
def SiteCaches.resolveField (m : Msg) (site : FieldRefEntry) :
    Option Field × SiteCaches Desc Field :=
  if (caches fieldRefId).owner = some (R.descriptor m) then ((caches fieldRefId).field, caches)
  else
    match R.resolveFieldDescriptor D m (.ofNat site.fieldNumber) site.fieldName with
    | none => (none, caches)
    | some field =>
      (some field, Function.update caches fieldRefId
        { D.classified field with owner := some (R.descriptor m) })

/-- **`CelGetFieldImpl`**. -/
def celGetFieldImpl :
    Except FieldFailure Unit × FieldHost Msg Field Mem × SiteCaches Desc Field :=
  match h.fieldPrelude B msgSlot fieldRefId attributeId with
  | .handled cell => caches.leftBy (h.writeCelValue out cell)
  | .hidden => caches.leftBy (h.writeUnknown A out attributeId)
  | .found (.proto m) site =>
    match caches.resolveField D R fieldRefId m site with
    | (none, caches) =>
      caches.leftBy (h.encodeFieldResult A out (Reflections.fieldNotFound site.fieldName))
    | (some field, caches) =>
      caches.leftBy (h.readResolvedField A D R out (caches fieldRefId) m field)
  | .found (.custom id) site =>
    match R.customReadField id (.ofNat site.fieldNumber) site.fieldName with
    | .error status => caches.leftBy (.error (.failed status), h)
    | .ok v => caches.leftBy (h.encodeFieldResult A out v)

/-- **`CelHasFieldImpl`**. -/
def celHasFieldImpl :
    Except FieldFailure Unit × FieldHost Msg Field Mem × SiteCaches Desc Field :=
  match h.fieldPrelude B msgSlot fieldRefId attributeId with
  | .handled cell => caches.leftBy (h.writeCelValue out cell)
  | .hidden => caches.leftBy (h.writeUnknown A out attributeId)
  | .found (.proto m) site =>
    match caches.resolveField D R fieldRefId m site with
    | (none, caches) => caches.leftBy (h.writeCelValue out (.inline (.bool false)))
    | (some field, caches) =>
      caches.leftBy (h.writeCelValue out (.inline (.bool (R.protoHasFieldResolved D m field))))
  | .found (.custom id) site =>
    let present := R.customHasField id (.ofNat site.fieldNumber) site.fieldName
    caches.leftBy (h.writeCelValue out (.inline (.bool present)))

end Trampolines

end CelWasm
