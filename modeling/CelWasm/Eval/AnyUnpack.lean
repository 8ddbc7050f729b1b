import CelWasm.Eval.ProtoRead
import CelWasm.Eval.TypeOf
import CelWasm.Library.Leb128

/-!
# Eval/AnyUnpack — what an `Any` holds

An `Any` names the type of a payload and has its bytes. It is unpacked when it is read: the payload
is parsed, an `Any` in it is unpacked in turn, and the message at the end is peeled if it is a
well-known one. The loop counts the messages it takes apart and stops the process at one too many
(`unpackAnyLoop_eq_some_iff`): what it makes of an `Any` is what unpacking without a bound makes of
it, if fewer messages than that stand in one another.
-/

namespace CelWasm

/-! ## Messages as reflection reads them -/

/-- `google.protobuf.Any`. -/
structure AnyMessage where
  typeUrl : List UInt8
  value : List UInt8

/-- `google.protobuf.Value`, by the member of `kind` that is set. -/
inductive ValueMessage
  | unset
  | nullValue
  | numberValue (d : Binary64)
  | stringValue (s : List UInt8)
  | boolValue (b : Bool)
  | structValue (fields : List (List UInt8 × ValueMessage))
  | listValue (values : List ValueMessage)

/-- A message by its full name, with the fields of the well-known ones. -/
inductive MessageView
  | any (m : AnyMessage)
  | wrapper (value : ProtoScalar)
  | timestamp (seconds : Int64) (nanos : Int32)
  | duration (seconds : Int64) (nanos : Int32)
  | value (v : ValueMessage)
  | struct (fields : List (List UInt8 × ValueMessage))
  | listValue (values : List ValueMessage)
  | other

/-! ## Peeling a well-known message -/

mutual

/-- **`UnpackJsonValueMessage`** of a `Value`: one that is not set is null. -/
def unpackJsonValueMessage : ValueMessage → HostValue
  | .unset => .null
  | .nullValue => .null
  | .numberValue d => .double d
  | .stringValue s => .string s
  | .boolValue b => .bool b
  | .structValue fields => .map (unpackJsonFields fields)
  | .listValue values => .list (unpackJsonElements values)

/-- The loop of `UnpackJsonStruct`. -/
def unpackJsonFields : List (List UInt8 × ValueMessage) → List (HostValue × HostValue)
  | [] => []
  | (key, v) :: rest => (.string key, unpackJsonValueMessage v) :: unpackJsonFields rest

/-- The loop of `UnpackJsonListValue`. -/
def unpackJsonElements : List ValueMessage → List HostValue
  | [] => []
  | v :: rest => unpackJsonValueMessage v :: unpackJsonElements rest

end

/-- `UnpackJsonStruct`. -/
def unpackJsonStruct (fields : List (List UInt8 × ValueMessage)) : HostValue :=
  .map (unpackJsonFields fields)

/-- `UnpackJsonListValue`. -/
def unpackJsonListValue (values : List ValueMessage) : HostValue :=
  .list (unpackJsonElements values)

/-- `UnpackTimeMessageFields`. -/
def unpackTimeMessageFields (seconds : Int64) (nanos : Int32) (isTimestamp : Bool) : HostValue :=
  if isTimestamp then .timestamp (.ofSecondsNanos seconds nanos)
  else .duration (.ofSecondsNanos seconds nanos)

/-- **`MaybeUnpackWktMessage`**: the wrappers, the times, and JSON. -/
def maybeUnpackWktMessage : MessageView → Option HostValue
  | .wrapper v => some (unpackWrapperValueField v)
  | .timestamp seconds nanos => some (unpackTimeMessageFields seconds nanos true)
  | .duration seconds nanos => some (unpackTimeMessageFields seconds nanos false)
  | .value v => some (unpackJsonValueMessage v)
  | .struct fields => some (unpackJsonStruct fields)
  | .listValue values => some (unpackJsonListValue values)
  | .any _ => none
  | .other => none

/-! ## One layer -/

/-- `ErrorPayload`. -/
structure ErrorPayload where
  code : CelErr
  message : List UInt8

/-- `ExtractAnyFqn`. -/
def extractAnyFqn (typeUrl : List UInt8) : Option (List UInt8) :=
  match (utf8 "type.googleapis.com/").isPrefixOf? typeUrl with
  | some fqn => some fqn
  | none => (utf8 "type.googleprod.com/").isPrefixOf? typeUrl

/-- A descriptor pool and the generated factory, with parsing and reflection on the messages of
both. -/
structure AnyEnv (Msg : Type) where
  /-- `FindMessageTypeByName`; there is nothing in a null pool. -/
  findMessageTypeByName : List UInt8 → Option Descriptor
  /-- Whether `GetPrototype` of the generated factory finds a message. -/
  prototype : Descriptor → Bool
  /-- `ParseFromString` into a new message. -/
  parse : Descriptor → List UInt8 → Option Msg
  view : Msg → MessageView

/-- What an `Any` unpacks to: a value, a message, or an error with its text. -/
inductive AnyValue (Msg : Type)
  | value (v : HostValue)
  | ownedMessage (m : Msg)
  | error (e : ErrorPayload)

namespace AnyEnv

variable {Msg : Type} (env : AnyEnv Msg) {any inner : AnyMessage} {m : Msg} {r : AnyValue Msg}
  {n : ℕ}

/-- **`ResolveAndParseAnyPayload`**. -/
def resolveAndParseAnyPayload (typeUrl bytes : List UInt8) : Except ErrorPayload Msg :=
  match extractAnyFqn typeUrl with
  | none =>
    .error { code := .fieldNotFound
             message := utf8 "Any type_url `" ++ typeUrl ++
              utf8 "` lacks `type.googleapis.com/` or `type.googleprod.com/` prefix" }
  | some fqn =>
    match env.findMessageTypeByName fqn with
    | none =>
      .error { code := .fieldNotFound
               message := utf8 "Any type_url FQN `" ++ fqn ++
                utf8 "` not registered in descriptor pool" }
    | some d =>
      if env.prototype d then
        match env.parse d bytes with
        | some m => .ok m
        | none =>
          .error { code := .typeMismatch
                   message := utf8 "Any payload bytes don't parse against `" ++ fqn ++ utf8 "`" }
      else
        .error { code := .fieldNotFound
                 message := utf8 "Any type `" ++ fqn ++
                  utf8 "` has no generated_factory prototype" }

/-- **`UnpackOneAnyLayer`**. -/
def unpackOneAnyLayer (any : AnyMessage) : Except ErrorPayload Msg :=
  if any.typeUrl = [] then
    .error { code := .fieldNotFound
             message := utf8 "Any type_url is empty (no descriptor to unpack)" }
  else env.resolveAndParseAnyPayload any.typeUrl any.value

/-! ## The loop -/

/-- What is made of a message that is no `Any`. -/
def peelMessage (m : Msg) : AnyValue Msg :=
  match maybeUnpackWktMessage (env.view m) with
  | some v => .value v
  | none => .ownedMessage m

/-- The loop of `UnpackAnyToValueAnonImpl`, for `left` times around; nothing is what a failed check
leaves. -/
def unpackAnyLoop : ℕ → AnyMessage → Option (AnyValue Msg)
  | 0, _ => none
  | left + 1, any =>
    match env.unpackOneAnyLayer any with
    | .error e => some (.error e)
    | .ok m =>
      match env.view m with
      | .any inner => unpackAnyLoop left inner
      | _ => some (env.peelMessage m)

/-- **`UnpackAnyToValue`**: the check is `depth < 1024`. -/
def unpackAnyToValue (any : AnyMessage) : Option (AnyValue Msg) := env.unpackAnyLoop 1024 any

/-! ## Unpacking without a bound -/

/-- The payload of an `Any` is an `Any`. -/
def Holds (any inner : AnyMessage) : Prop :=
  ∃ m, env.unpackOneAnyLayer any = .ok m ∧ env.view m = .any inner

/-- **What an `Any` unpacks to.** -/
inductive Unpacks : AnyMessage → AnyValue Msg → Prop
  | error {any : AnyMessage} {e : ErrorPayload} (h : env.unpackOneAnyLayer any = .error e) :
    Unpacks any (.error e)
  | peel {any : AnyMessage} {m : Msg} (h : env.unpackOneAnyLayer any = .ok m)
      (hview : ∀ inner, env.view m ≠ .any inner) :
    Unpacks any (env.peelMessage m)
  | inner {any inner : AnyMessage} {r : AnyValue Msg} (h : env.Holds any inner)
      (hinner : Unpacks inner r) :
    Unpacks any r

/-- So many `Any` messages stand in one another in the payload of an `Any`. -/
inductive Nests : ℕ → AnyMessage → Prop
  | zero {any : AnyMessage} : Nests 0 any
  | succ {n : ℕ} {any inner : AnyMessage} (h : env.Holds any inner) (hinner : Nests n inner) :
    Nests (n + 1) any

variable {env}

/-- The payload of an `Any` is one `Any` at most. -/
theorem Holds.unique {inner' : AnyMessage} (h : env.Holds any inner) (h' : env.Holds any inner') :
    inner = inner' := by
  obtain ⟨m, hlayer, hview⟩ := h
  obtain ⟨m', hlayer', hview'⟩ := h'
  obtain rfl := Except.ok.inj (hlayer.symm.trans hlayer')
  exact MessageView.any.inj (hview.symm.trans hview')

theorem Holds.nests_succ_iff (h : env.Holds any inner) :
    env.Nests (n + 1) any ↔ env.Nests n inner := by
  refine ⟨?_, .succ h⟩
  rintro (_ | ⟨h', hinner⟩)
  rwa [h.unique h']

/-- The three things a layer may be. -/
theorem layer_cases (env : AnyEnv Msg) (any : AnyMessage) :
    (∃ e, env.unpackOneAnyLayer any = .error e) ∨
      (∃ m, env.unpackOneAnyLayer any = .ok m ∧ ∀ inner, env.view m ≠ .any inner) ∨
      ∃ inner, env.Holds any inner := by
  rcases hlayer : env.unpackOneAnyLayer any with e | m
  · exact .inl ⟨e, rfl⟩
  · by_cases hview : ∃ inner, env.view m = .any inner
    · obtain ⟨inner, hview⟩ := hview
      exact .inr (.inr ⟨inner, m, hlayer, hview⟩)
    · exact .inr (.inl ⟨m, rfl, not_exists.mp hview⟩)

/-! ## Once around -/

theorem unpackAnyLoop_succ (env : AnyEnv Msg) (n : ℕ) (any : AnyMessage) : env.unpackAnyLoop (n + 1) any
    = match env.unpackOneAnyLayer any with
      | .error e => some (.error e)
      | .ok m =>
        match env.view m with
        | .any inner => env.unpackAnyLoop n inner
        | _ => some (env.peelMessage m) := rfl

theorem unpackAnyLoop_error {e : ErrorPayload} (h : env.unpackOneAnyLayer any = .error e) :
    env.unpackAnyLoop (n + 1) any = some (.error e) := by
  rw [unpackAnyLoop_succ, h]

theorem unpackAnyLoop_peel (h : env.unpackOneAnyLayer any = .ok m)
    (hview : ∀ inner, env.view m ≠ .any inner) :
    env.unpackAnyLoop (n + 1) any = some (env.peelMessage m) := by
  rw [unpackAnyLoop_succ, h]
  dsimp only
  split
  · exact absurd ‹_› (hview _)
  · rfl

theorem Holds.unpackAnyLoop (h : env.Holds any inner) :
    env.unpackAnyLoop (n + 1) any = env.unpackAnyLoop n inner := by
  obtain ⟨m, hlayer, hview⟩ := h
  rw [unpackAnyLoop_succ, hlayer]
  simp only [hview]

/-! ## The whole run -/

/-- What the loop leaves is what the `Any` unpacks to, and so many messages were not there. -/
theorem unpacks_of_unpackAnyLoop (h : env.unpackAnyLoop n any = some r) :
    env.Unpacks any r ∧ ¬env.Nests n any := by
  induction n generalizing any with
  | zero => exact absurd h nofun
  | succ n ih =>
    obtain ⟨e, hlayer⟩ | ⟨m, hlayer, hview⟩ | ⟨inner, hholds⟩ := env.layer_cases any
    · obtain rfl := Option.some.inj ((unpackAnyLoop_error hlayer).symm.trans h)
      refine ⟨.error hlayer, ?_⟩
      rintro (_ | ⟨⟨m, hlayer', -⟩, -⟩)
      exact absurd (hlayer.symm.trans hlayer') nofun
    · obtain rfl := Option.some.inj ((unpackAnyLoop_peel hlayer hview).symm.trans h)
      refine ⟨.peel hlayer hview, ?_⟩
      rintro (_ | ⟨⟨m', hlayer', hview'⟩, -⟩)
      obtain rfl := Except.ok.inj (hlayer.symm.trans hlayer')
      exact hview _ hview'
    · rw [hholds.unpackAnyLoop] at h
      obtain ⟨hunpacks, hnests⟩ := ih h
      exact ⟨.inner hholds hunpacks, hholds.nests_succ_iff.not.mpr hnests⟩

/-- What an `Any` unpacks to is reached, if fewer messages are nested. -/
theorem Unpacks.unpackAnyLoop (h : env.Unpacks any r) (hn : ¬env.Nests n any) :
    env.unpackAnyLoop n any = some r := by
  induction h generalizing n with
  | error hlayer =>
    obtain _ | n := n
    · exact absurd .zero hn
    · exact unpackAnyLoop_error hlayer
  | peel hlayer hview =>
    obtain _ | n := n
    · exact absurd .zero hn
    · exact unpackAnyLoop_peel hlayer hview
  | inner hholds _ ih =>
    obtain _ | n := n
    · exact absurd .zero hn
    · rw [hholds.unpackAnyLoop]
      exact ih (hholds.nests_succ_iff.not.mp hn)

/-- Where so many messages are not nested, there is an end to the unpacking. -/
theorem exists_unpacks (hn : ¬env.Nests n any) : ∃ r, env.Unpacks any r := by
  induction n generalizing any with
  | zero => exact absurd .zero hn
  | succ n ih =>
    obtain ⟨e, hlayer⟩ | ⟨m, hlayer, hview⟩ | ⟨inner, hholds⟩ := env.layer_cases any
    · exact ⟨_, .error hlayer⟩
    · exact ⟨_, .peel hlayer hview⟩
    · obtain ⟨r, hr⟩ := ih (hholds.nests_succ_iff.not.mp hn)
      exact ⟨r, .inner hholds hr⟩

/-- **The loop leaves what the `Any` unpacks to, exactly if too many messages are not nested.** -/
theorem unpackAnyLoop_eq_some_iff :
    env.unpackAnyLoop n any = some r ↔ env.Unpacks any r ∧ ¬env.Nests n any :=
  ⟨unpacks_of_unpackAnyLoop, fun h => h.1.unpackAnyLoop h.2⟩

/-- **An `Any` is unpacked** to a value, a message or an error exactly if fewer than 1024 messages
of its type stand in one another in its payload. -/
theorem unpackAnyToValue_returns_iff (env : AnyEnv Msg) (any : AnyMessage) :
    (∃ r, env.unpackAnyToValue any = some r ∧ env.Unpacks any r) ↔ ¬env.Nests 1024 any := by
  simp only [unpackAnyToValue, unpackAnyLoop_eq_some_iff]
  constructor
  · rintro ⟨r, ⟨-, hn⟩, -⟩
    exact hn
  · intro hn
    obtain ⟨r, hr⟩ := exists_unpacks hn
    exact ⟨r, ⟨hr, hn⟩, hr⟩

end AnyEnv

/-! ## Payloads on the wire -/

/-- A field of so many bytes, with its tag. -/
def delimitedField (tag : UInt8) (bytes : List UInt8) : List UInt8 :=
  tag :: (Leb128.encode bytes.length ++ bytes)

/-- The field of a tag at the start of a text, and the text past it. -/
def readDelimitedField (tag : UInt8) : List UInt8 → Option (List UInt8 × List UInt8)
  | [] => none
  | b :: rest =>
    if b = tag then do
      let (n, rest) ← Leb128.read rest
      if n ≤ rest.length then some (rest.take n, rest.drop n) else none
    else none

theorem readDelimitedField_delimitedField (tag : UInt8) (bytes rest : List UInt8) :
    readDelimitedField tag (delimitedField tag bytes ++ rest) = some (bytes, rest) := by
  have hread := (Leb128.encodes_encode bytes.length).read (bytes ++ rest)
  rw [delimitedField, List.cons_append, List.append_assoc, readDelimitedField, if_pos rfl, hread]
  simp

/-- `SerializeAsString` of an `Any`: its fields have the numbers 1 and 2. -/
def AnyMessage.serialize (any : AnyMessage) : List UInt8 :=
  delimitedField 0x0a any.typeUrl ++ delimitedField 0x12 any.value

/-- `ParseFromString` into an `Any`, of its two fields in order. -/
def AnyMessage.parse (bytes : List UInt8) : Option AnyMessage := do
  let (typeUrl, rest) ← readDelimitedField 0x0a bytes
  let (value, rest) ← readDelimitedField 0x12 rest
  if rest = [] then some { typeUrl, value } else none

theorem AnyMessage.parse_serialize (any : AnyMessage) : parse any.serialize = some any := by
  have hvalue := readDelimitedField_delimitedField 0x12 any.value []
  rw [List.append_nil] at hvalue
  rw [serialize, parse, readDelimitedField_delimitedField]
  simp [hvalue]

/-- The descriptor of `Any` in the generated pool. -/
def anyDescriptor : Descriptor := { pool := 0, fullName := "google.protobuf.Any" }

/-- A pool with `Any` alone. -/
def anyPool : AnyEnv AnyMessage where
  findMessageTypeByName name :=
    if name = utf8 anyDescriptor.fullName then some anyDescriptor else none
  prototype _ := true
  parse _ := AnyMessage.parse
  view := .any

/-- So many `Any` messages around one of an `Int32Value`. -/
def nestedAny : ℕ → AnyMessage
  | 0 => { typeUrl := utf8 "type.googleapis.com/google.protobuf.Int32Value", value := [0x08, 0x07] }
  | n + 1 =>
    { typeUrl := utf8 "type.googleapis.com/google.protobuf.Any", value := (nestedAny n).serialize }

theorem holds_nestedAny (n : ℕ) : anyPool.Holds (nestedAny (n + 1)) (nestedAny n) := by
  have hurl : utf8 "type.googleapis.com/google.protobuf.Any" ≠ [] := by decide
  have hfqn : extractAnyFqn (utf8 "type.googleapis.com/google.protobuf.Any")
      = some (utf8 anyDescriptor.fullName) := by decide
  refine ⟨nestedAny n, ?_, rfl⟩
  rw [AnyEnv.unpackOneAnyLayer, nestedAny, if_neg hurl, AnyEnv.resolveAndParseAnyPayload, hfqn]
  simp [anyPool, AnyMessage.parse_serialize]

theorem nests_nestedAny (n : ℕ) : anyPool.Nests n (nestedAny n) := by
  induction n with
  | zero => exact .zero
  | succ n ih => exact .succ (holds_nestedAny n) ih

/-- 1024 `Any` messages around another stop the process. -/
theorem unpackAnyToValue_nestedAny :
    ¬∃ r, anyPool.unpackAnyToValue (nestedAny 1024) = some r := by
  rintro ⟨r, hr⟩
  exact (AnyEnv.unpacks_of_unpackAnyLoop hr).2 (nests_nestedAny 1024)

end CelWasm
