import CelWasm.Eval.AnyUnpack
import CelWasm.Eval.Instance

/-!
# Eval/FieldReads — a field is resolved, classified and read

A field is resolved in the descriptor of the message, by number and then by name, and past that among
the extensions that the message's reflection knows. The descriptor of a field is classified once: a
scalar, a map, a repeated field, or a message by the well-known type it is of. A read goes by the
class.
-/

namespace CelWasm

/-! ## Descriptors and messages -/

/-- `FieldDescriptor::CppType`. -/
inductive CppType
  | int32
  | int64
  | uint32
  | uint64
  | double
  | float
  | bool
  | enum
  | string
  | message
  deriving DecidableEq

/-- What a field is read as: a value, with a custom backing by its number, or what is backed by a
message of protobuf. -/
inductive FieldValue (Msg Field : Type)
  | plain (v : HostValue)
  | error (e : ErrorPayload)
  | protoMessage (m : Msg)
  | protoMap (owner : Msg) (field : Field)
  | protoList (owner : Msg) (field : Field)

/-- What ends a trampoline: a failing status, or a failed check. -/
inductive FieldFailure
  | failed (status : Status)
  | aborted

/-- The descriptors of messages and of their fields, by pointer; they never change. -/
structure Schema (Desc Field : Type) where
  fullName : Desc → String
  findFieldByNumber : Desc → Int32 → Option Field
  findFieldByName : Desc → String → Option Field
  isMap : Field → Bool
  isRepeated : Field → Bool
  cppType : Field → CppType
  /-- Whether `type` is `TYPE_BYTES`. -/
  isBytes : Field → Bool
  messageType : Field → Option Desc

/-- **Messages, by pointer, as their reflections read them at a moment**, and the custom backings. A
reflection looks for extensions in the pool it was made with, which may be another than the
descriptor's. -/
structure Reflections (Msg Desc Field : Type) where
  descriptor : Msg → Desc
  findKnownExtensionByName : Msg → String → Option Field
  hasField : Msg → Field → Bool
  fieldSize : Msg → Field → ℕ
  getMessage : Msg → Field → Msg
  getInt32 : Msg → Field → Int32
  getInt64 : Msg → Field → Int64
  getUInt32 : Msg → Field → UInt32
  getUInt64 : Msg → Field → UInt64
  getBool : Msg → Field → Bool
  getDouble : Msg → Field → Binary64
  /-- A float by its bits. -/
  getFloat : Msg → Field → UInt32
  getEnumValue : Msg → Field → Int32
  getStringReference : Msg → Field → List UInt8
  /-- The fields of a well-known message. -/
  view : Msg → MessageView
  /-- The pool of the file of a message type. -/
  findMessageTypeByName : Desc → List UInt8 → Option Descriptor
  prototype : Descriptor → Bool
  parse : Descriptor → List UInt8 → Option Msg
  customReadField : ℕ → Int32 → String → Except Status (FieldValue Msg Field)
  customHasField : ℕ → Int32 → String → Bool

/-! ## The class of a field -/

/-- **`ResolvedFieldCache`**. -/
structure ResolvedFieldCache (Desc Field : Type) where
  owner : Option Desc
  field : Option Field
  readClass : ProtoFieldReadClass
  subField1 : Option Field
  subField2 : Option Field

/-- A cache as constructed. -/
def ResolvedFieldCache.empty {Desc Field : Type} : ResolvedFieldCache Desc Field where
  owner := none
  field := none
  readClass := .kScalar
  subField1 := none
  subField2 := none

/-- `IsWrapperFqn`. -/
def isWrapperFqn (fqn : String) : Bool :=
  fqn ∈ ["google.protobuf.BoolValue", "google.protobuf.Int32Value", "google.protobuf.Int64Value",
    "google.protobuf.UInt32Value", "google.protobuf.UInt64Value", "google.protobuf.FloatValue",
    "google.protobuf.DoubleValue", "google.protobuf.StringValue", "google.protobuf.BytesValue"]

section Resolve

variable {Msg Desc Field : Type} (D : Schema Desc Field) (R : Reflections Msg Desc Field)

/-- **`ClassifyResolvedField`**; a map is repeated too. -/
def Schema.classifyResolvedField (field : Field) (out : ResolvedFieldCache Desc Field) :
    ResolvedFieldCache Desc Field :=
  if D.isMap field then { out with readClass := .kMap }
  else if D.isRepeated field then { out with readClass := .kRepeated }
  else if D.cppType field ≠ .message then { out with readClass := .kScalar }
  else
    match D.messageType field with
    | none => { out with readClass := .kMessagePlain }
    | some mt =>
      let fqn := D.fullName mt
      if isWrapperFqn fqn then
        { out with readClass := .kMessageWrapper, subField1 := D.findFieldByNumber mt 1 }
      else if fqn = "google.protobuf.Any" then { out with readClass := .kMessageAny }
      else if fqn = "google.protobuf.Timestamp" ∨ fqn = "google.protobuf.Duration" then
        { out with
          readClass :=
            if fqn = "google.protobuf.Timestamp" then .kMessageTimestamp else .kMessageDuration
          subField1 := D.findFieldByNumber mt 1
          subField2 := D.findFieldByNumber mt 2 }
      else if fqn = "google.protobuf.Value" ∨ fqn = "google.protobuf.Struct" ∨
          fqn = "google.protobuf.ListValue" then
        { out with readClass := .kMessageJson }
      else { out with readClass := .kMessagePlain }

/-- A field with its class. -/
def Schema.classified (field : Field) : ResolvedFieldCache Desc Field :=
  D.classifyResolvedField field { ResolvedFieldCache.empty with field := some field }

/-- The field that a descriptor has itself, by number unless that is 0, and then by name. -/
def Schema.ownField (d : Desc) (fieldNumber : Int32) (fieldName : String) : Option Field :=
  let numbered := if fieldNumber ≠ 0 then D.findFieldByNumber d fieldNumber else none
  match numbered with
  | some field => some field
  | none => D.findFieldByName d fieldName

/-- **`ResolveFieldDescriptor`**: a field of the descriptor's own, or an extension. -/
def Reflections.resolveFieldDescriptor (m : Msg) (fieldNumber : Int32) (fieldName : String) :
    Option Field :=
  match D.ownField (R.descriptor m) fieldNumber fieldName with
  | some field => some field
  | none => R.findKnownExtensionByName m fieldName

end Resolve

/-! ## Reading -/

namespace Reflections

variable {Msg Desc Field : Type} (D : Schema Desc Field) (R : Reflections Msg Desc Field)
  (c : ResolvedFieldCache Desc Field) (m sub : Msg) (field valueField : Field)

/-- The string or the bytes of a field, by its type. -/
def readStringOrBytes : HostValue :=
  if D.isBytes field then .bytes (R.getStringReference m field)
  else .string (R.getStringReference m field)

/-- `UnpackWrapperValueField`: the `value` of a wrapper is no enum and no message. -/
def unpackWrapperValueField : Except FieldFailure (FieldValue Msg Field) :=
  match D.cppType valueField with
  | .bool => .ok (.plain (.bool (R.getBool sub valueField)))
  | .int32 => .ok (.plain (.int (R.getInt32 sub valueField).toInt64))
  | .int64 => .ok (.plain (.int (R.getInt64 sub valueField)))
  | .uint32 => .ok (.plain (.uint (R.getUInt32 sub valueField).toUInt64))
  | .uint64 => .ok (.plain (.uint (R.getUInt64 sub valueField)))
  | .float => .ok (.plain (.double (.widen (R.getFloat sub valueField))))
  | .double => .ok (.plain (.double (R.getDouble sub valueField)))
  | .string => .ok (.plain (R.readStringOrBytes D sub valueField))
  | .enum | .message => .error .aborted

/-- `ReadNumericField`. -/
def readNumericField : Option HostValue :=
  match D.cppType field with
  | .bool => some (.bool (R.getBool m field))
  | .int32 => some (.int (R.getInt32 m field).toInt64)
  | .int64 => some (.int (R.getInt64 m field))
  | .uint32 => some (.uint (R.getUInt32 m field).toUInt64)
  | .uint64 => some (.uint (R.getUInt64 m field))
  | .float => some (.double (.widen (R.getFloat m field)))
  | .double => some (.double (R.getDouble m field))
  | .enum => some (.int (R.getEnumValue m field).toInt64)
  | .string | .message => none

/-- `ReadWrapperMessageArm`: a wrapper that is not set is null. -/
def readWrapperMessageArm : Except FieldFailure (FieldValue Msg Field) :=
  if !R.hasField m field then .ok (.plain .null)
  else
    match c.subField1 with
    | some valueField => R.unpackWrapperValueField D (R.getMessage m field) valueField
    | none => .ok (.protoMessage (R.getMessage m field))

/-- The pool of a message type, for the `Any` messages of the type. -/
def anyEnv (mt : Desc) : AnyEnv Msg where
  findMessageTypeByName := R.findMessageTypeByName mt
  prototype := R.prototype
  parse := R.parse
  view := R.view

/-- `ReadAnyMessageArm`: an `Any` that is not set is null. -/
def readAnyMessageArm : Except FieldFailure (FieldValue Msg Field) :=
  if !R.hasField m field then .ok (.plain .null)
  else
    match D.messageType field, R.view (R.getMessage m field) with
    | some mt, .any any =>
      match (R.anyEnv mt).unpackAnyToValue any with
      | none => .error .aborted
      | some (.value v) => .ok (.plain v)
      | some (.ownedMessage inner) => .ok (.protoMessage inner)
      | some (.error e) => .ok (.error e)
    | _, _ => .error .aborted

/-- `ReadTimeMessageArm`. -/
def readTimeMessageArm (isTimestamp : Bool) : FieldValue Msg Field :=
  let sub := R.getMessage m field
  match c.subField1, c.subField2 with
  | some seconds, some nanos =>
    .plain (unpackTimeMessageFields (R.getInt64 sub seconds) (R.getInt32 sub nanos) isTimestamp)
  | _, _ => .protoMessage sub

/-- The arm of the JSON messages. -/
def readJsonMessageArm : FieldValue Msg Field :=
  let sub := R.getMessage m field
  match R.view sub with
  | .value v => .plain (unpackJsonValueMessage v)
  | .struct fields => .plain (unpackJsonStruct fields)
  | .listValue values => .plain (unpackJsonListValue values)
  | _ => .protoMessage sub

/-- **`ReadClassifiedMessageField`**. -/
def readClassifiedMessageField : Except FieldFailure (FieldValue Msg Field) :=
  match c.readClass with
  | .kMessageWrapper => R.readWrapperMessageArm D c m field
  | .kMessageAny => R.readAnyMessageArm D m field
  | .kMessageTimestamp => .ok (R.readTimeMessageArm c m field true)
  | .kMessageDuration => .ok (R.readTimeMessageArm c m field false)
  | .kMessageJson => .ok (R.readJsonMessageArm m field)
  | .kMessagePlain => .ok (.protoMessage (R.getMessage m field))
  | .kScalar | .kMap | .kRepeated => .error .aborted

/-- `ReadScalarField`, with `ReadSingularMessageField`. -/
def readScalarField : Except FieldFailure (FieldValue Msg Field) :=
  match R.readNumericField D m field with
  | some v => .ok (.plain v)
  | none =>
    if D.cppType field = .string then .ok (.plain (R.readStringOrBytes D m field))
    else R.readClassifiedMessageField D (D.classified field) m field

/-- **`ReadFieldClassified`**. -/
def readFieldClassified : Except FieldFailure (FieldValue Msg Field) :=
  match c.readClass with
  | .kMap => .ok (.protoMap m field)
  | .kRepeated => .ok (.protoList m field)
  | .kScalar => R.readScalarField D m field
  | .kMessageWrapper | .kMessageAny | .kMessageTimestamp | .kMessageDuration | .kMessageJson
  | .kMessagePlain => R.readClassifiedMessageField D c m field

/-- `FieldNotFound`. -/
def fieldNotFound (fieldName : String) : FieldValue Msg Field :=
  .error { code := .fieldNotFound, message := utf8 fieldName }

/-- **`ProtoBacking::ReadField`**: the field is resolved and classified. -/
def protoReadField (fieldNumber : Int32) (fieldName : String) :
    Except FieldFailure (FieldValue Msg Field) :=
  match R.resolveFieldDescriptor D m fieldNumber fieldName with
  | none => .ok (fieldNotFound fieldName)
  | some field => R.readFieldClassified D (D.classified field) m field

/-- `ProtoHasFieldResolved`. -/
def protoHasFieldResolved : Bool :=
  if D.isRepeated field then R.fieldSize m field > 0 else R.hasField m field

/-- **`ProtoBacking::HasField`**. -/
def protoHasField (fieldNumber : Int32) (fieldName : String) : Bool :=
  match R.resolveFieldDescriptor D m fieldNumber fieldName with
  | none => false
  | some field => R.protoHasFieldResolved D m field

end Reflections

end CelWasm
