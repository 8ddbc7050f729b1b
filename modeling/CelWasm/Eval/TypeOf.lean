import CelWasm.Eval.HostEncode

/-!
# Eval/TypeOf — `type(x)` at run time

The type of a value is a name: that of the kind, out of a table, or for a message the full name of
its descriptor, which the host is asked for. Either is copied into the arena.
-/

namespace CelWasm

/-- The bytes of a name. -/
def utf8 (name : String) : List UInt8 := name.toUTF8.data.toList

/-- `kPrimitiveTypeName`. -/
def primitiveKindName : CelValue → Option String
  | .null => some "null_type"
  | .bool _ => some "bool"
  | .int _ => some "int"
  | .uint _ => some "uint"
  | .double _ => some "double"
  | .string _ => some "string"
  | .bytes _ => some "bytes"
  | .listArena _ _ | .listHost _ => some "list"
  | .mapArena _ _ _ | .mapHost _ => some "map"
  | .type _ => some "type"
  | .duration _ => some "google.protobuf.Duration"
  | .timestamp _ => some "google.protobuf.Timestamp"
  | .optional _ => some "optional_type"
  | .ip _ => some "net.IP"
  | .cidr _ => some "net.CIDR"
  | .message _ | .unknown _ | .error _ => none

/-- `CelResolveMessageTypeNameImpl`, by the full names of the messages behind the slots; a slot may
be dangling, or its backing no message. -/
def celResolveMessageTypeName (fullName : ℕ → Option String) : CelValue → Kernel CelValue
  | .message slot =>
    match fullName slot with
    | some name => encodeSpan (utf8 name) (.type (utf8 name))
    | none => return .error .hostAdapterError
  | _ => return .error .typeMismatch

/-- **`cel_type_of_at_v`**. -/
def celTypeOf (fullName : ℕ → Option String) (v : CelValue) : Kernel CelValue :=
  if v.isPoison then return v
  else
    match v with
    | .message slot => celResolveMessageTypeName fullName (.message slot)
    | v =>
      match primitiveKindName v with
      | none => return .error .typeMismatch
      | some name => do
        if ← Prog.alloc (utf8 name).length then return .type (utf8 name)
        else return .error .overflow

variable {fullName : ℕ → Option String}

/-- The type of a value of a kind in the table. -/
theorem granted_celTypeOf_of_kind {v : CelValue} {name : String}
    (h : primitiveKindName v = some name) :
    (celTypeOf fullName v).granted = .ok (.type (utf8 name)) := by
  have hpoison : v.isPoison = false := by
    cases v with
    | error e => exact nomatch h
    | unknown s => exact nomatch h
    | _ => rfl
  unfold celTypeOf
  rw [hpoison, if_neg Bool.false_ne_true]
  cases v with
  | message slot => exact nomatch h
  | _ =>
    dsimp only
    rw [h]
    rfl

/-- The type of a message. -/
theorem granted_celTypeOf_message {slot : ℕ} {name : String} (h : fullName slot = some name) :
    (celTypeOf fullName (.message slot)).granted = .ok (.type (utf8 name)) := by
  change (celResolveMessageTypeName fullName (.message slot)).granted = _
  rw [celResolveMessageTypeName, h]
  rfl

end CelWasm
