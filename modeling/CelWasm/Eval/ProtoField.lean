import CelWasm.Eval.Marshal
import CelWasm.Eval.SetField
import CelWasm.Library.FirstFailure
import Mathlib.Logic.Function.Basic

/-!
# Eval/ProtoField — writing a value into a field of a message

A field is written by the kind of field it is: a scalar with its range check, a message copied or
packed into the well-known type the field has, a repeated field element by element, a map entry by
entry. A list or a map comes from the arena, as cells, or from a backing, as the backing's own
values, and each has writers of its own.
-/

namespace CelWasm

/-! ## Fields -/

/-- `google::protobuf::Descriptor`, told apart by its pool and its full name. -/
structure Descriptor where
  pool : ℕ
  fullName : String
  deriving DecidableEq

/-- The scalar types of fields; `bytes` and `string` share a C++ type. -/
inductive ScalarType
  | bool
  | int32
  | int64
  | uint32
  | uint64
  | float
  | double
  | string
  | bytes
  | enum
  deriving DecidableEq

/-- The types a map may have for its keys. -/
inductive KeyType
  | bool
  | int32
  | int64
  | uint32
  | uint64
  | string
  deriving DecidableEq

/-- A key's type among the scalar types. -/
def KeyType.scalar : KeyType → ScalarType
  | bool => .bool
  | int32 => .int32
  | int64 => .int64
  | uint32 => .uint32
  | uint64 => .uint64
  | string => .string

/-- The type of a field, of the elements of a repeated field, or of the values of a map. -/
inductive FieldType
  | scalar (t : ScalarType)
  | message (d : Descriptor)

/-- Whether a field is singular, repeated or a map. -/
inductive FieldShape
  | singular (t : FieldType)
  | repeated (t : FieldType)
  | map (key : KeyType) (value : FieldType)

/-- `google::protobuf::FieldDescriptor`. -/
structure FieldDescriptor where
  name : String
  shape : FieldShape

/-- The well-known types `MaybePackWktMessage` tells apart by their full names. -/
inductive WktName
  | duration
  | timestamp
  | value
  | struct
  | listValue
  | any
  deriving DecidableEq

/-- The comparisons of `MaybePackWktMessage` and `MaybeSetWktMessageField`. -/
def Descriptor.wkt (d : Descriptor) : Option WktName :=
  match d.fullName with
  | "google.protobuf.Duration" => some .duration
  | "google.protobuf.Timestamp" => some .timestamp
  | "google.protobuf.Value" => some .value
  | "google.protobuf.Struct" => some .struct
  | "google.protobuf.ListValue" => some .listValue
  | "google.protobuf.Any" => some .any
  | _ => none

/-- `IsWrapperFqn`, with the type of the `value` field of the wrapper. -/
def Descriptor.wrapper (d : Descriptor) : Option ScalarType :=
  match d.fullName with
  | "google.protobuf.BoolValue" => some .bool
  | "google.protobuf.Int32Value" => some .int32
  | "google.protobuf.Int64Value" => some .int64
  | "google.protobuf.UInt32Value" => some .uint32
  | "google.protobuf.UInt64Value" => some .uint64
  | "google.protobuf.FloatValue" => some .float
  | "google.protobuf.DoubleValue" => some .double
  | "google.protobuf.StringValue" => some .string
  | "google.protobuf.BytesValue" => some .bytes
  | _ => none

/-! ## What a field holds -/

/-- A scalar as a field holds it; a float by its bits. -/
inductive ProtoScalar
  | bool (b : Bool)
  | int32 (i : Int32)
  | int64 (i : Int64)
  | uint32 (u : UInt32)
  | uint64 (u : UInt64)
  | float (bits : UInt32)
  | double (d : Binary64)
  | string (s : List UInt8)
  | bytes (s : List UInt8)
  | enum (i : Int32)
  deriving DecidableEq

/-- A `google.protobuf.Value`; a struct by its fields, a list by its values. -/
inductive JsonValue
  | null
  | number (d : Binary64)
  | string (s : List UInt8)
  | bool (b : Bool)
  | struct (fields : List (List UInt8 × JsonValue))
  | list (values : List JsonValue)

/-- A message a writer makes, or one it copies. An `Any` is by its URL and the message in it. -/
inductive ProtoMessage (Msg : Type)
  | copied (message : Msg)
  | duration (time : CelDurTs)
  | timestamp (time : CelDurTs)
  | value (v : JsonValue)
  | struct (fields : List (List UInt8 × JsonValue))
  | listValue (values : List JsonValue)
  | wrapper (v : ProtoScalar)
  | any (typeUrl : String) (inner : ProtoMessage Msg)

/-- What a singular field, an element or a map value is set to. -/
inductive FieldItem (Msg : Type)
  | scalar (v : ProtoScalar)
  | message (m : ProtoMessage Msg)

/-- The fields of a message in the making, by name. -/
structure MessageContents (Msg : Type) where
  singular : String → Option (FieldItem Msg)
  repeated : String → List (FieldItem Msg)
  entries : String → List (ProtoScalar × FieldItem Msg)

/-- The messages the host's table refers to, and the prototypes there are. -/
structure ProtoEnv (Msg : Type) where
  /-- The message behind a handle, if its backing has one. -/
  message : ℕ → Option Msg
  /-- `GetDescriptor`. -/
  descriptor : Msg → Descriptor
  /-- Whether the pool and the generated factory have a type. -/
  prototype : Descriptor → Bool

variable {Msg : Type}

/-! ## Scalars -/

/-- `CheckInt32Range`, and the number narrowed. -/
def checkInt32Range (i : Int64) : Except SetFailure Int32 :=
  if -2 ^ 31 ≤ i.toInt ∧ i.toInt < 2 ^ 31 then .ok i.toInt32 else .error .outOfRange

/-- `CheckUint32Range`, and the number narrowed. -/
def checkUint32Range (u : UInt64) : Except SetFailure UInt32 :=
  if u.toNat < 2 ^ 32 then .ok u.toUInt32 else .error .outOfRange

/-- A cell as a scalar of a type: the kind is checked, then the range. -/
def scalarOfCell : ScalarType → CelValue → Except SetFailure ProtoScalar
  | .bool, .bool b => .ok (.bool b)
  | .int32, .int i => (checkInt32Range i).map .int32
  | .int64, .int i => .ok (.int64 i)
  | .uint32, .uint u => (checkUint32Range u).map .uint32
  | .uint64, .uint u => .ok (.uint64 u)
  | .float, .double d => .ok (.float d.narrow)
  | .double, .double d => .ok (.double d)
  | .string, .string s => .ok (.string s)
  | .bytes, .bytes s => .ok (.bytes s)
  | .enum, .int i => (checkInt32Range i).map .enum
  | _, _ => .error .invalid

/-- The scalar arms of `SetScalarField`. -/
def setScalarField := scalarOfCell

/-- `AppendRepeatedScalar`. -/
def appendRepeatedScalar := scalarOfCell

/-- `SetWrapperInnerValue`. -/
def setWrapperInnerValue := scalarOfCell

/-- A backing's value as a scalar of a type, through the accessor of the kind. -/
def scalarOfHost : ScalarType → HostValue → Except SetFailure ProtoScalar
  | .bool, .bool b => .ok (.bool b)
  | .int32, .int i => (checkInt32Range i).map .int32
  | .int64, .int i => .ok (.int64 i)
  | .uint32, .uint u => (checkUint32Range u).map .uint32
  | .uint64, .uint u => .ok (.uint64 u)
  | .float, .double d => .ok (.float d.narrow)
  | .double, .double d => .ok (.double d)
  | .string, .string s => .ok (.string s)
  | .bytes, .bytes s => .ok (.bytes s)
  | .enum, .int i => (checkInt32Range i).map .enum
  | _, _ => .error .invalid

/-- `AppendRepeatedHostScalar`. -/
def appendRepeatedHostScalar := scalarOfHost

/-- `SetHostMapEntryKey`. -/
def setHostMapEntryKey (t : KeyType) := scalarOfHost t.scalar

/-- The scalar arms of `SetHostMapEntryValue`. -/
def setHostMapEntryScalar := scalarOfHost

/-! ## Messages -/

/-- `WriteMessageOrPack` of a message behind a handle. -/
def writeMessageOrPack (env : ProtoEnv Msg) (dst : Descriptor) (src : Msg) :
    Except SetFailure (ProtoMessage Msg) :=
  if env.descriptor src = dst then .ok (.copied src)
  else if dst.wkt = some .any then
    .ok (.any ("type.googleapis.com/" ++ (env.descriptor src).fullName) (.copied src))
  else .error .invalid

/-- The message behind a handle, copied or packed. -/
def copyMessage (env : ProtoEnv Msg) (dst : Descriptor) (slot : ℕ) :
    Except SetFailure (ProtoMessage Msg) :=
  match env.message slot with
  | some src => writeMessageOrPack env dst src
  | none => .error .invalid

mutual

/-- **`PackCelValueIntoJsonValue`**. -/
def packCelValueIntoJsonValue : CelValue → Except SetFailure JsonValue
  | .null => .ok .null
  | .bool b => .ok (.bool b)
  | .int i => .ok (.number (.ofInt i.toInt))
  | .uint u => .ok (.number (.ofInt u.toNat))
  | .double d => .ok (.number d)
  | .string s => .ok (.string s)
  | .listArena _ elements => (packListElements elements).map .list
  | .mapArena _ entries _ => (packStructEntries entries).map .struct
  | _ => .error .invalid

/-- The loop of `PackListValue`. -/
def packListElements : List CelValue → Except SetFailure (List JsonValue)
  | [] => .ok []
  | v :: rest => do
    let packed ← packCelValueIntoJsonValue v
    return packed :: (← packListElements rest)

/-- The loop of `PackStruct`: a key that is no string ends it. -/
def packStructEntries : List (CelValue × CelValue) → Except SetFailure (List (List UInt8 × JsonValue))
  | [] => .ok []
  | (.string key, v) :: rest => do
    let packed ← packCelValueIntoJsonValue v
    return (key, packed) :: (← packStructEntries rest)
  | _ :: _ => .error .invalid

end

/-- `PackListValue`: no list but one in the arena. -/
def packListValue : CelValue → Except SetFailure (List JsonValue)
  | .listArena _ elements => packListElements elements
  | _ => .error .invalid

/-- `PackStruct`: no map but one in the arena. -/
def packStruct : CelValue → Except SetFailure (List (List UInt8 × JsonValue))
  | .mapArena _ entries _ => packStructEntries entries
  | _ => .error .invalid

/-- `AnyInnerFqn`. -/
def anyInnerFqn : CelValue → String
  | .int _ => "google.protobuf.Int64Value"
  | .uint _ => "google.protobuf.UInt64Value"
  | .bytes _ => "google.protobuf.BytesValue"
  | .listArena .. | .listHost _ => "google.protobuf.ListValue"
  | .mapArena .. | .mapHost _ => "google.protobuf.Struct"
  | _ => "google.protobuf.Value"

/-- The message an `Any` is to hold. -/
def anyInner : CelValue → Except SetFailure (ProtoMessage Msg)
  | .int i => (setWrapperInnerValue .int64 (.int i)).map .wrapper
  | .uint u => (setWrapperInnerValue .uint64 (.uint u)).map .wrapper
  | .bytes s => (setWrapperInnerValue .bytes (.bytes s)).map .wrapper
  | .listArena capacity elements => (packListValue (.listArena capacity elements)).map .listValue
  | .listHost elements => (packListValue (.listHost elements)).map .listValue
  | .mapArena capacity entries index =>
    (packStruct (.mapArena capacity entries index)).map .struct
  | .mapHost entries => (packStruct (.mapHost entries)).map .struct
  | v => (packCelValueIntoJsonValue v).map .value

/-- `PackAnyFromScalar`. -/
def packAnyFromScalar (env : ProtoEnv Msg) (any : Descriptor) (v : CelValue) :
    Except SetFailure (ProtoMessage Msg) :=
  if env.prototype { any with fullName := anyInnerFqn v } then
    (anyInner v).map (.any ("type.googleapis.com/" ++ anyInnerFqn v))
  else .error .invalid

/-- **`MaybePackWktMessage`**: a value that is no message into a well-known type; none if the type is
not one of them, or is a time and the value is not. -/
def maybePackWktMessage (env : ProtoEnv Msg) (target : Descriptor) (v : CelValue) :
    Option (Except SetFailure (ProtoMessage Msg)) :=
  match target.wkt with
  | some .duration => match v with | .duration d => some (.ok (.duration d)) | _ => none
  | some .timestamp => match v with | .timestamp t => some (.ok (.timestamp t)) | _ => none
  | some .value => some ((packCelValueIntoJsonValue v).map .value)
  | some .struct => some ((packStruct v).map .struct)
  | some .listValue => some ((packListValue v).map .listValue)
  | some .any => some (packAnyFromScalar env target v)
  | none => none

/-- A time, packed from a backing: the second it is in and the nanoseconds past it. -/
def flooredTime (t : AbslTime) : CelDurTs where
  seconds := t.toUnixSeconds
  nanos := Int32.ofInt (t.sub (.ofSeconds t.toUnixSeconds)).toInt64Nanoseconds

/-- `MaybePackWktFromHostValue`: the times alone, and a time before the epoch rounded down. -/
def maybePackWktFromHostValue (dst : Descriptor) (v : HostValue) :
    Option (Except SetFailure (ProtoMessage Msg)) :=
  match dst.wkt, v with
  | some .duration, .duration d => some (.ok (.duration (decomposeAbslDuration d)))
  | some .timestamp, .timestamp t => some (.ok (.timestamp (flooredTime t)))
  | _, _ => none

/-- A cell for a field of messages: the message behind it, or packed. -/
def cellMessage (env : ProtoEnv Msg) (d : Descriptor) (v : CelValue) :
    Except SetFailure (ProtoMessage Msg) :=
  match v with
  | .message slot => copyMessage env d slot
  | v => (maybePackWktMessage env d v).getD (.error .invalid)

/-- A backing's value for a field of messages: packed, or the message behind it. -/
def hostMessage (env : ProtoEnv Msg) (d : Descriptor) (v : HostValue) :
    Except SetFailure (ProtoMessage Msg) :=
  match maybePackWktFromHostValue d v with
  | some packed => packed
  | none =>
    match v with
    | .message slot => copyMessage env d slot
    | _ => .error .invalid

/-! ## Singular fields -/

/-- `SetSingularMessageField`; none is a field that is cleared. -/
def setSingularMessageField (env : ProtoEnv Msg) (d : Descriptor) (v : CelValue) :
    Except SetFailure (Option (ProtoMessage Msg)) :=
  match v with
  | .null =>
    if d.wkt = some .value then (packCelValueIntoJsonValue v).map fun j => some (.value j)
    else .ok none
  | .message slot => (copyMessage env d slot).map some
  | v =>
    match d.wrapper with
    | some t =>
      if env.prototype d then (setWrapperInnerValue t v).map fun s => some (.wrapper s)
      else .error .invalid
    | none => (cellMessage env d v).map some

/-- `SetScalarField`; none is a field that is cleared. -/
def setSingularField (env : ProtoEnv Msg) (t : FieldType) (v : CelValue) :
    Except SetFailure (Option (FieldItem Msg)) :=
  match t with
  | .scalar t => (setScalarField t v).map fun s => some (.scalar s)
  | .message d => (setSingularMessageField env d v).map fun m => m.map .message

/-! ## Repeated fields -/

/-- `AppendRepeatedMessage`; none is an element that is pruned. -/
def appendRepeatedMessage (env : ProtoEnv Msg) (d : Descriptor) (v : CelValue) :
    Except SetFailure (Option (ProtoMessage Msg)) :=
  match v with
  | .null => .ok none
  | v => (cellMessage env d v).map some

/-- `AppendRepeatedFromCelValue`. -/
def appendRepeatedFromCelValue (env : ProtoEnv Msg) (t : FieldType) (v : CelValue) :
    Except SetFailure (Option (FieldItem Msg)) :=
  match t with
  | .scalar t => (appendRepeatedScalar t v).map fun s => some (.scalar s)
  | .message d => (appendRepeatedMessage env d v).map fun m => m.map .message

/-- `AppendRepeatedFromHostListValue`. -/
def appendRepeatedFromHostListValue (env : ProtoEnv Msg) (t : FieldType) (v : HostValue) :
    Except SetFailure (Option (FieldItem Msg)) :=
  match t with
  | .scalar t => (appendRepeatedHostScalar t v).map fun s => some (.scalar s)
  | .message d =>
    match v with
    | .null => .ok none
    | v => (hostMessage env d v).map fun m => some (.message m)

/-- `SetRepeatedField`: the elements a list adds. -/
def setRepeatedField (env : ProtoEnv Msg) (t : FieldType) :
    CelValue → Except SetFailure (List (FieldItem Msg))
  | .listArena _ elements => collect (appendRepeatedFromCelValue env t) elements
  | .listHost elements => collect (appendRepeatedFromHostListValue env t) elements
  | _ => .error .invalid

/-! ## Map fields -/

/-- The value of an arena map's entry, `SetArenaMapEntryMessageValue` for a message. -/
def setArenaMapEntryValue (env : ProtoEnv Msg) (t : FieldType) (v : CelValue) :
    Except SetFailure (FieldItem Msg) :=
  match t with
  | .scalar t => (setScalarField t v).map .scalar
  | .message d => (cellMessage env d v).map .message

/-- `InsertArenaMapEntry`; none is an entry that is pruned. -/
def insertArenaMapEntry (env : ProtoEnv Msg) (key : KeyType) (value : FieldType)
    (e : CelValue × CelValue) : Except SetFailure (Option (ProtoScalar × FieldItem Msg)) :=
  match value, e.2 with
  | .message _, .null => .ok none
  | value, v => do
    let k ← setScalarField key.scalar e.1
    let item ← setArenaMapEntryValue env value v
    return some (k, item)

/-- `SetHostMapEntryValue`. -/
def setHostMapEntryValue (env : ProtoEnv Msg) (t : FieldType) (v : HostValue) :
    Except SetFailure (FieldItem Msg) :=
  match t with
  | .scalar t => (setHostMapEntryScalar t v).map .scalar
  | .message d => (hostMessage env d v).map .message

/-- `InsertHostMapEntry`; none is an entry that is pruned. -/
def insertHostMapEntry (env : ProtoEnv Msg) (key : KeyType) (value : FieldType)
    (e : HostValue × HostValue) : Except SetFailure (Option (ProtoScalar × FieldItem Msg)) :=
  match value, e.2 with
  | .message _, .null => .ok none
  | value, v => do
    let k ← setHostMapEntryKey key e.1
    let item ← setHostMapEntryValue env value v
    return some (k, item)

/-- `SetMapField`: the entries a map adds. -/
def setMapField (env : ProtoEnv Msg) (key : KeyType) (value : FieldType) :
    CelValue → Except SetFailure (List (ProtoScalar × FieldItem Msg))
  | .mapArena _ entries _ => collect (insertArenaMapEntry env key value) entries
  | .mapHost entries => collect (insertHostMapEntry env key value) entries
  | _ => .error .invalid

/-! ## Any field -/

/-- What a singular field holds after it is set. `MutableMessage` hands out the message that is there
already, and a list or a struct packed into it is added to the one it has. -/
def FieldItem.settle : Option (FieldItem Msg) → FieldItem Msg → FieldItem Msg
  | some (.message (.listValue old)), .message (.listValue new) =>
    .message (.listValue (old ++ new))
  | some (.message (.struct old)), .message (.struct new) => .message (.struct (old ++ new))
  | some (.message (.value (.list old))), .message (.value (.list new)) =>
    .message (.value (.list (old ++ new)))
  | some (.message (.value (.struct old))), .message (.value (.struct new)) =>
    .message (.value (.struct (old ++ new)))
  | _, new => new

/-- **`DispatchFieldSet`**. -/
def dispatchFieldSet (env : ProtoEnv Msg) (field : FieldDescriptor) (v : CelValue) :
    Except SetFailure (MessageContents Msg → MessageContents Msg) :=
  match field.shape with
  | .map key value => (setMapField env key value v).map fun added m =>
      { m with entries := Function.update m.entries field.name (m.entries field.name ++ added) }
  | .repeated t => (setRepeatedField env t v).map fun added m =>
      { m with repeated := Function.update m.repeated field.name (m.repeated field.name ++ added) }
  | .singular t => (setSingularField env t v).map fun item m =>
      let held := item.map (FieldItem.settle (m.singular field.name))
      { m with singular := Function.update m.singular field.name held }

/-- The writers of a message type with the given fields. -/
def protoWriters (env : ProtoEnv Msg) (fields : String → Option FieldDescriptor) :
    FieldWriters FieldDescriptor (MessageContents Msg) where
  descriptor := fields
  dispatch := dispatchFieldSet env

end CelWasm
