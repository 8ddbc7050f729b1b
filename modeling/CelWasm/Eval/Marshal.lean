import CelWasm.Compiler.Ast
import CelWasm.Eval.HostEncode

/-!
# Eval/Marshal — binding a variable of the activation

Before an evaluation each bound value is encoded into its variable's slot, by the encoder of the
representation the variable was declared with. A value and the well-known message that represents it
are two ways to bind the same variable. A message gives its fields as they are, a time bound as a
value is split with rounding toward zero; the two part before the epoch within a second.
-/

namespace CelWasm

/-! ## What is bound -/

/-- `ReprName`. -/
def NodeRepr.name : NodeRepr → String
  | unknown => "unknown"
  | null => "null"
  | bool => "bool"
  | int => "int"
  | uint => "uint"
  | double => "double"
  | string => "string"
  | bytes => "bytes"
  | list => "list"
  | map => "map"
  | message => "message"
  | enum => "enum"
  | duration => "duration"
  | timestamp => "timestamp"
  | type => "type"
  | optional => "optional"

/-- `ValueKindName`. -/
def HostValue.kindName : HostValue → String
  | null => "null"
  | bool _ => "bool"
  | int _ => "int"
  | uint _ => "uint"
  | double _ => "double"
  | string _ => "string"
  | bytes _ => "bytes"
  | list _ => "list"
  | map _ => "map"
  | message _ => "message"
  | duration _ => "duration"
  | timestamp _ => "timestamp"
  | type _ => "type"
  | unknown _ => "unknown"
  | error _ => "error"

/-- A message of a well-known type, by its fields; a float is kept widened. -/
inductive WellKnownMessage
  | timestamp (seconds : Int64) (nanos : Int32)
  | duration (seconds : Int64) (nanos : Int32)
  | boolValue (value : Bool)
  | int32Value (value : Int32)
  | int64Value (value : Int64)
  | uint32Value (value : UInt32)
  | uint64Value (value : UInt64)
  | floatValue (value : Binary64)
  | doubleValue (value : Binary64)
  | stringValue (value : List UInt8)
  | bytesValue (value : List UInt8)

/-- The status codes an evaluation fails with. -/
inductive StatusCode
  | invalidArgument
  | resourceExhausted
  | failedPrecondition
  | outOfRange
  | internal
  deriving DecidableEq, Repr

/-- `absl::Status`, failing. -/
structure Status where
  code : StatusCode
  message : String
  deriving DecidableEq, Repr

/-- `HostStringArena`: the space for strings and how much of it is taken. -/
structure HostStringArena where
  capacity : UInt32
  cursor : UInt32
  deriving DecidableEq

/-! ## The encoders -/

section Encoders

-- The message of a well-known type behind a handle, if it is of one.
variable (wellKnown : ℕ → Option WellKnownMessage)

/-- `KindMismatch`. -/
def kindMismatch (name declared got : String) : Status :=
  { code := .invalidArgument
    message := "Activation[" ++ name ++ "]: declared " ++ declared ++ ", bound " ++ got }

/-- `TryReadWktStringWrapperValue`. -/
def tryReadWktStringWrapperValue (v : HostValue) (repr : NodeRepr) : Option (List UInt8) :=
  match v with
  | .message handle =>
    match repr, wellKnown handle with
    | .string, some (.stringValue s) => some s
    | .bytes, some (.bytesValue s) => some s
    | _, _ => none
  | _ => none

/-- The copy of bytes into the arena, and the cell that refers to them. -/
def copyToArena (arena : HostStringArena) (name what : String) (bytes : List UInt8)
    (cell : CelValue) : Except Status (CelValue × HostStringArena) :=
  let aligned := (UInt32.ofNat bytes.length + 7) &&& ~~~7
  if arena.cursor.toNat + aligned.toNat > arena.capacity.toNat then
    .error
      { code := .resourceExhausted
        message := "Activation[" ++ name ++ "]: host string arena OOM (need " ++ toString aligned
          ++ " bytes" ++ what ++ "; cursor=" ++ toString arena.cursor ++ ", capacity="
          ++ toString arena.capacity ++ ")" }
  else .ok (cell, { arena with cursor := arena.cursor + aligned })

/-- The cell of bytes declared as a string or as bytes. -/
def spanCell (repr : NodeRepr) (s : List UInt8) : CelValue :=
  if repr = .string then .string s else .bytes s

/-- **`EncodeStringOrBytes`**. -/
def encodeStringOrBytes (v : HostValue) (name : String) (repr : NodeRepr)
    (arena : HostStringArena) : Except Status (CelValue × HostStringArena) :=
  match tryReadWktStringWrapperValue wellKnown v repr with
  | some s => copyToArena arena name "" s (spanCell repr s)
  | none =>
    match repr, v with
    | .string, .string s => copyToArena arena name "" s (.string s)
    | .bytes, .bytes s => copyToArena arena name "" s (.bytes s)
    | repr, v =>
      .error (kindMismatch name (if repr = .string then "string" else "bytes") v.kindName)

/-- `TryEncodeWktWrapperMessage`, with the table of `WrapperFqnToCelKind`. -/
def tryEncodeWktWrapperMessage (v : HostValue) (want : NodeRepr) : Option CelValue :=
  match v with
  | .message handle =>
    match want, wellKnown handle with
    | .bool, some (.boolValue b) => some (.bool b)
    | .int, some (.int32Value i) => some (.int i.toInt64)
    | .int, some (.int64Value i) => some (.int i)
    | .uint, some (.uint32Value u) => some (.uint u.toUInt64)
    | .uint, some (.uint64Value u) => some (.uint u)
    | .double, some (.floatValue d) => some (.double d)
    | .double, some (.doubleValue d) => some (.double d)
    | _, _ => none
  | _ => none

/-- `TryEncodeNullToScalarSlot`. -/
def tryEncodeNullToScalarSlot : HostValue → Option CelValue
  | .null => some .null
  | _ => none

/-- The cell of a value of the declared scalar kind. -/
def scalarCell (want : NodeRepr) (v : HostValue) : Option CelValue :=
  match want, v with
  | .bool, .bool b => some (.bool b)
  | .int, .int i => some (.int i)
  | .uint, .uint u => some (.uint u)
  | .double, .double d => some (.double d)
  | _, _ => none

/-- What `EncodeBool`, `EncodeInt`, `EncodeUint` and `EncodeDouble` do: null, then a wrapper message,
then the kind itself. -/
def encodeScalar (want : NodeRepr) (v : HostValue) (name : String) : Except Status CelValue :=
  match tryEncodeNullToScalarSlot v <|> tryEncodeWktWrapperMessage wellKnown v want
      <|> scalarCell want v with
  | some cell => .ok cell
  | none => .error (kindMismatch name want.name v.kindName)

/-- `EncodeBool`. -/
def encodeBool := encodeScalar wellKnown .bool

/-- `EncodeInt`. -/
def encodeInt := encodeScalar wellKnown .int

/-- `EncodeUint`. -/
def encodeUint := encodeScalar wellKnown .uint

/-- `EncodeDouble`. -/
def encodeDouble := encodeScalar wellKnown .double

/-- `TryEncodeWktTimeMessage`. -/
def tryEncodeWktTimeMessage (v : HostValue) (want : NodeRepr) : Option CelValue :=
  match v with
  | .message handle =>
    match want, wellKnown handle with
    | .timestamp, some (.timestamp seconds nanos) => some (.timestamp { seconds, nanos })
    | .duration, some (.duration seconds nanos) => some (.duration { seconds, nanos })
    | _, _ => none
  | _ => none

/-- `EncodeDuration`. -/
def encodeDuration (v : HostValue) (name : String) : Except Status CelValue :=
  match tryEncodeWktTimeMessage wellKnown v .duration with
  | some cell => .ok cell
  | none =>
    match v with
    | .duration d => .ok (.duration (decomposeAbslDuration d))
    | v => .error (kindMismatch name "duration" v.kindName)

/-- `EncodeTimestamp`. -/
def encodeTimestamp (v : HostValue) (name : String) : Except Status CelValue :=
  match tryEncodeWktTimeMessage wellKnown v .timestamp with
  | some cell => .ok cell
  | none =>
    match v with
    | .timestamp t => .ok (.timestamp (decomposeAbslDuration (t.sub (.ofSeconds 0))))
    | v => .error (kindMismatch name "timestamp" v.kindName)

/-- `EncodeMessage`, `EncodeList` and `EncodeMap`: a handle on the backing. -/
def encodeHandle (repr : NodeRepr) (v : HostValue) (name : String) : Except Status CelValue :=
  match repr, v with
  | .message, .message handle => .ok (.message handle)
  | .list, .list elements => .ok (.listHost elements)
  | .map, .map entries => .ok (.mapHost entries)
  | repr, v => .error (kindMismatch name repr.name v.kindName)

/-- `EncodeType`. -/
def encodeType (v : HostValue) (name : String) (arena : HostStringArena) :
    Except Status (CelValue × HostStringArena) :=
  match v with
  | .type s => copyToArena arena name " for type name" s (.type s)
  | v => .error (kindMismatch name "type" v.kindName)

/-- **`EncodeBoundValue`**: the encoder of the declared representation. -/
def encodeBoundValue (v : HostValue) (repr : NodeRepr) (name : String) (arena : HostStringArena) :
    Except Status (CelValue × HostStringArena) :=
  match repr with
  | .bool => (encodeBool wellKnown v name).map (·, arena)
  | .int => (encodeInt wellKnown v name).map (·, arena)
  | .uint => (encodeUint wellKnown v name).map (·, arena)
  | .double => (encodeDouble wellKnown v name).map (·, arena)
  | .message => (encodeHandle .message v name).map (·, arena)
  | .list => (encodeHandle .list v name).map (·, arena)
  | .map => (encodeHandle .map v name).map (·, arena)
  | .string => encodeStringOrBytes wellKnown v name .string arena
  | .bytes => encodeStringOrBytes wellKnown v name .bytes arena
  | .type => encodeType v name arena
  | .duration => (encodeDuration wellKnown v name).map (·, arena)
  | .timestamp => (encodeTimestamp wellKnown v name).map (·, arena)
  | .null | .enum | .unknown =>
    .error
      { code := .invalidArgument
        message := "Activation[" ++ name ++ "]: Repr=" ++ repr.name
          ++ " is not a bindable variable repr" }
  | .optional =>
    .error
      { code := .invalidArgument
        message := "Activation[" ++ name ++ "]: unknown Repr=15" }

end Encoders

/-! ## Two routes to a slot -/

/-- A `google.protobuf.Duration` is valid: at most ten thousand years, nanoseconds less than a second
and of the sign of the seconds. -/
def ValidDuration (seconds : Int64) (nanos : Int32) : Prop :=
  -315576000000 ≤ seconds.toInt ∧ seconds.toInt ≤ 315576000000 ∧ -10 ^ 9 < nanos.toInt ∧
    nanos.toInt < 10 ^ 9 ∧ (0 < seconds.toInt → 0 ≤ nanos.toInt) ∧
    (seconds.toInt < 0 → nanos.toInt ≤ 0)

/-- A `google.protobuf.Timestamp` is valid: from the year 1 to 9999, nanoseconds past the second. -/
def ValidTimestamp (seconds : Int64) (nanos : Int32) : Prop :=
  -62135596800 ≤ seconds.toInt ∧ seconds.toInt ≤ 253402300799 ∧ 0 ≤ nanos.toInt ∧
    nanos.toInt < 10 ^ 9

/-- **A well-known message represents a value** of a variable declared with the given
representation. -/
inductive Represents : NodeRepr → HostValue → WellKnownMessage → Prop
  | boolValue (b : Bool) : Represents .bool (.bool b) (.boolValue b)
  | int32Value (i : Int32) : Represents .int (.int i.toInt64) (.int32Value i)
  | int64Value (i : Int64) : Represents .int (.int i) (.int64Value i)
  | uint32Value (u : UInt32) : Represents .uint (.uint u.toUInt64) (.uint32Value u)
  | uint64Value (u : UInt64) : Represents .uint (.uint u) (.uint64Value u)
  | floatValue (d : Binary64) : Represents .double (.double d) (.floatValue d)
  | doubleValue (d : Binary64) : Represents .double (.double d) (.doubleValue d)
  | stringValue (s : List UInt8) : Represents .string (.string s) (.stringValue s)
  | bytesValue (s : List UInt8) : Represents .bytes (.bytes s) (.bytesValue s)
  | duration {seconds : Int64} {nanos : Int32} (h : ValidDuration seconds nanos) :
    Represents .duration (.duration (.ofSecondsNanos seconds nanos)) (.duration seconds nanos)
  | timestamp {seconds : Int64} {nanos : Int32} (h : ValidTimestamp seconds nanos) :
    Represents .timestamp (.timestamp (.ofSecondsNanos seconds nanos)) (.timestamp seconds nanos)

/-- The pair of an instant from the epoch on, or at a whole second. -/
theorem decomposeAbslDuration_ofSecondsNanos_nonneg {seconds : Int64} {nanos : Int32}
    (hnanos : 0 ≤ nanos.toInt) (hlt : nanos.toInt < 10 ^ 9)
    (h : 0 ≤ seconds.toInt ∨ nanos.toInt = 0) :
    decomposeAbslDuration (.ofSecondsNanos seconds nanos) = { seconds, nanos } := by
  obtain ⟨lo, htime, hlo⟩ := @AbslDuration.ofSecondsNanos_nonneg seconds _ hnanos hlt
  have hwhole : 0 ≤ seconds.toInt ∨ lo = 0 := by
    refine h.imp_right fun hzero => ?_
    apply Fin.ext
    rw [Fin.val_zero]
    omega
  rw [htime, decomposeAbslDuration_of_whole hwhole]
  congr 1
  rw [← Int32.toInt_inj, Int32.toInt_ofInt_of_le (by omega) (by omega)]
  omega

/-- A duration is split into the pair its message holds. -/
theorem decomposeAbslDuration_ofSecondsNanos {seconds : Int64} {nanos : Int32}
    (h : ValidDuration seconds nanos) :
    decomposeAbslDuration (.ofSecondsNanos seconds nanos) = { seconds, nanos } := by
  obtain ⟨hlow, hhigh, hback, hforth, hpos, hneg⟩ := h
  rcases lt_or_ge nanos.toInt 0 with hnanos | hnanos
  · obtain ⟨hi, lo, htime, hhi, hlo⟩ := @AbslDuration.ofSecondsNanos_neg seconds _ (by omega) hnanos hback
    have hfraction : lo ≠ 0 := by
      rintro rfl
      rw [Fin.val_zero] at hlo
      omega
    rw [htime, decomposeAbslDuration_of_fraction (by omega) hfraction]
    congr 1
    · rw [← Int64.toInt_inj, Int64.toInt_add, Int.bmod_eq_of_le] <;> simp <;> omega
    · rw [← Int32.toInt_inj, Int32.toInt_ofInt_of_le (by omega) (by omega)]
      omega
  · exact decomposeAbslDuration_ofSecondsNanos_nonneg hnanos hforth (by omega)

/-- A time is split into the pair its message holds, except before the epoch within a second. -/
theorem decomposeAbslDuration_timestamp_iff {seconds : Int64} {nanos : Int32}
    (h : ValidTimestamp seconds nanos) :
    decomposeAbslDuration (.ofSecondsNanos seconds nanos) = { seconds, nanos } ↔
      ¬(seconds.toInt < 0 ∧ nanos ≠ 0) := by
  obtain ⟨hlow, hhigh, hnanos, hlt⟩ := h
  have hzero : nanos.toInt = 0 ↔ nanos = 0 := by rw [← Int32.toInt_inj, Int32.toInt_zero]
  by_cases hfraction : seconds.toInt < 0 ∧ nanos ≠ 0
  · refine iff_of_false (fun hpair => ?_) (not_not.mpr hfraction)
    obtain ⟨lo, htime, hlo⟩ := @AbslDuration.ofSecondsNanos_nonneg seconds _ hnanos hlt
    have hne : lo ≠ 0 := by
      rintro rfl
      rw [Fin.val_zero] at hlo
      exact hfraction.2 (hzero.mp (by omega))
    rw [htime, decomposeAbslDuration_of_fraction hfraction.1 hne] at hpair
    have hseconds := congrArg (fun pair => pair.seconds.toInt) hpair
    simp only [Int64.toInt_add] at hseconds
    rw [Int.bmod_eq_of_le] at hseconds <;> simp at hseconds ⊢ <;> omega
  · refine iff_of_true ?_ hfraction
    refine decomposeAbslDuration_ofSecondsNanos_nonneg hnanos hlt ?_
    by_cases hneg : 0 ≤ seconds.toInt
    · exact .inl hneg
    · exact .inr (hzero.mpr (not_not.mp fun hne => hfraction ⟨not_le.mp hneg, hne⟩))

/-- The representations of the nine wrapper types. -/
inductive WrapperType
  | bool
  | int32
  | int64
  | uint32
  | uint64
  | float
  | double
  | string
  | bytes

/-- `ReprOf` a wrapper type: that of the scalar it wraps. -/
def WrapperType.repr : WrapperType → NodeRepr
  | bool => .bool
  | int32 | int64 => .int
  | uint32 | uint64 => .uint
  | float | double => .double
  | string => .string
  | bytes => .bytes

section Routes

variable {wellKnown : ℕ → Option WellKnownMessage} {repr : NodeRepr} {v : HostValue}
  {m : WellKnownMessage} {handle : ℕ} {name : String} {arena : HostStringArena}

/-- **A value and the message that represents it are bound alike** if and only if they are no time
before the epoch within a second. -/
theorem encodeBoundValue_routes_iff (hrep : Represents repr v m) (hm : wellKnown handle = some m) :
    encodeBoundValue wellKnown (.message handle) repr name arena
        = encodeBoundValue wellKnown v repr name arena ↔
      ¬∃ seconds nanos, m = .timestamp seconds nanos ∧ seconds.toInt < 0 ∧ nanos ≠ 0 := by
  cases hrep with
  | boolValue b | int32Value i | int64Value i | uint32Value u | uint64Value u | floatValue d
  | doubleValue d =>
    refine iff_of_true ?_ (by simp)
    simp [encodeBoundValue, encodeBool, encodeInt, encodeUint, encodeDouble, encodeScalar,
      tryEncodeNullToScalarSlot, tryEncodeWktWrapperMessage, scalarCell, hm]
  | stringValue s | bytesValue s =>
    refine iff_of_true ?_ (by simp)
    simp [encodeBoundValue, encodeStringOrBytes, tryReadWktStringWrapperValue, spanCell, hm]
  | @duration seconds nanos hvalid =>
    refine iff_of_true ?_ (by simp)
    simp [encodeBoundValue, encodeDuration, tryEncodeWktTimeMessage, hm,
      decomposeAbslDuration_ofSecondsNanos hvalid]
  | @timestamp seconds nanos hvalid =>
    have hmessage : encodeBoundValue wellKnown (.message handle) .timestamp name arena
        = .ok (.timestamp { seconds, nanos }, arena) := by
      simp [encodeBoundValue, encodeTimestamp, tryEncodeWktTimeMessage, hm, Except.map]
    have hvalue : encodeBoundValue wellKnown (.timestamp (.ofSecondsNanos seconds nanos)) .timestamp
        name arena
        = .ok (.timestamp (decomposeAbslDuration (.ofSecondsNanos seconds nanos)), arena) := by
      simp [encodeBoundValue, encodeTimestamp, tryEncodeWktTimeMessage, Except.map]
    rw [hmessage, hvalue, Except.ok.injEq, Prod.mk.injEq, CelValue.timestamp.injEq,
      and_iff_left rfl, @eq_comm CelDurTs, decomposeAbslDuration_timestamp_iff hvalid]
    simp

/-- **Null is bound to a variable of a wrapper type** if and only if it wraps no string and no
bytes. -/
theorem encodeBoundValue_null_iff (w : WrapperType) :
    encodeBoundValue wellKnown .null w.repr name arena = .ok (.null, arena) ↔
      w ≠ .string ∧ w ≠ .bytes := by
  cases w with
  | string | bytes => exact iff_of_false nofun (by simp)
  | _ => exact iff_of_true rfl (by simp)

/-- **Binding does not depend on the route** exactly as far as this: a value and the message that
represents it are bound alike unless they are a time before the epoch within a second, and null is
bound to a variable of any wrapper type but those of strings and bytes. -/
theorem bindingRoutes_iff (wellKnown : ℕ → Option WellKnownMessage) (name : String)
    (arena : HostStringArena) :
    (∀ (repr : NodeRepr) (v : HostValue) (m : WellKnownMessage) (handle : ℕ),
      Represents repr v m → wellKnown handle = some m →
        (encodeBoundValue wellKnown (.message handle) repr name arena
            = encodeBoundValue wellKnown v repr name arena ↔
          ¬∃ seconds nanos, m = .timestamp seconds nanos ∧ seconds.toInt < 0 ∧ nanos ≠ 0)) ∧
    ∀ w : WrapperType, encodeBoundValue wellKnown .null w.repr name arena = .ok (.null, arena) ↔
      w ≠ .string ∧ w ≠ .bytes :=
  ⟨fun _ _ _ _ hrep hm => encodeBoundValue_routes_iff hrep hm, encodeBoundValue_null_iff⟩

end Routes

/-- The epoch is bound alike as a value and as a message. -/
theorem bindingRoutes_epoch :
    encodeBoundValue (fun _ => some (.timestamp 0 0)) (.message 0) .timestamp "t"
        { capacity := 0, cursor := 0 }
      = encodeBoundValue (fun _ => some (.timestamp 0 0)) (.timestamp (.ofSecondsNanos 0 0))
        .timestamp "t" { capacity := 0, cursor := 0 } :=
  ((bindingRoutes_iff (fun _ => some (.timestamp 0 0)) "t" { capacity := 0, cursor := 0 }).1
    .timestamp _ _ 0 (.timestamp ⟨by decide, by decide, by decide, by decide⟩) rfl).mpr
    (by rintro ⟨seconds, nanos, hm, hneg, -⟩; cases hm; exact absurd hneg (by decide))

/-- **Half a second before the epoch is bound to two different cells**, and null is refused by a
string wrapper. -/
theorem bindingRoutes_before_epoch :
    encodeBoundValue (fun _ => some (.timestamp (-1) 500000000)) (.message 0) .timestamp "t"
        { capacity := 0, cursor := 0 }
        = .ok (.timestamp { seconds := -1, nanos := 500000000 }, { capacity := 0, cursor := 0 }) ∧
      encodeBoundValue (fun _ => some (.timestamp (-1) 500000000))
        (.timestamp (.ofSecondsNanos (-1) 500000000)) .timestamp "t" { capacity := 0, cursor := 0 }
        = .ok (.timestamp { seconds := 0, nanos := -500000000 }, { capacity := 0, cursor := 0 }) ∧
      encodeBoundValue (fun _ => none) .null WrapperType.string.repr "s"
        { capacity := 0, cursor := 0 } = .error (kindMismatch "s" "string" "null") := by
  have hpair : decomposeAbslDuration (.ofSecondsNanos (-1) 500000000)
      = { seconds := 0, nanos := -500000000 } := by
    obtain ⟨lo, htime, hlo⟩ := @AbslDuration.ofSecondsNanos_nonneg (-1) 500000000 (by decide)
      (by decide)
    have hval : lo.val = 2000000000 := by
      have hnanos : (500000000 : Int32).toInt = 500000000 := rfl
      omega
    have hfraction : lo ≠ 0 := by
      rintro rfl
      exact nomatch hval
    rw [htime, decomposeAbslDuration_of_fraction (by decide) hfraction, hval]
    rfl
  refine ⟨rfl, ?_, rfl⟩
  rw [encodeBoundValue, encodeTimestamp, AbslDuration.sub_ofSeconds_zero, hpair]
  rfl

end CelWasm
