import CelWasm.Runtime.Lists

/-!
# Eval/SetField — assigning the fields of a message under construction

A message literal is built in one cell: the host makes an empty message there, and each field is
assigned by a call that finds the message through the cell. An ERROR or UNKNOWN that is assigned
takes the message's place in the cell, where the calls for the later fields meet it.
-/

namespace CelWasm

/-- How `DispatchFieldSet` fails: out of range, or with a status that fails the call. -/
inductive SetFailure
  | outOfRange
  | invalid
  deriving DecidableEq

/-- What assigning a field does, once the field is found: `ResolveFieldDescriptor` and
`DispatchFieldSet`. The status of a write depends on the field and the value, not on the message. -/
structure FieldWriters (F M : Type) where
  descriptor : String → Option F
  dispatch : F → CelValue → Except SetFailure (M → M)

/-- The cell a literal is built in, and the message its handle refers to, if there is one. No other cell
has the handle before the literal is built. So a write that fails leaves the message here as it was,
though elements before the one that failed have been appended to it: the ERROR that takes the
handle's place, or the failed call, is the last that is seen of it. -/
structure Construction (M : Type) where
  slot : CelValue
  backing : Option M

variable {F M : Type}

/-- `CelMakeMessageImpl`: a handle on a new message, or a type error when there is no prototype. -/
def celMakeMessage (handle : ℕ) : Option M → Construction M
  | some empty => { slot := .message handle, backing := some empty }
  | none => { slot := .error .typeMismatch, backing := none }

/-- `ResolveOwnedSetTarget`: the message to write to, or what the call comes to at once. -/
def resolveOwnedSetTarget (c : Construction M) : Kernel (Option M) :=
  match c.slot with
  | .error _ => return none
  | .message _ =>
    match c.backing with
    | some message => return some message
    | none => Prog.stop .hostFailure
  | _ => Prog.stop .hostFailure

/-- **`CelSetFieldImpl`**. -/
def celSetFieldImpl (writers : FieldWriters F M) (c : Construction M) (name : String)
    (value : CelValue) : Kernel (Construction M) := do
  match ← resolveOwnedSetTarget c with
  | none => return c
  | some message =>
    match writers.descriptor name with
    | none => Prog.stop .hostFailure
    | some field =>
      if value.isPoison then return { c with slot := value }
      else
        match writers.dispatch field value with
        | .ok write => return { c with backing := some (write message) }
        | .error .outOfRange => return { c with slot := .error .overflow }
        | .error .invalid => Prog.stop .hostFailure

/-- `cel_set_field_at_if_present`. -/
def celSetFieldAtIfPresent (writers : FieldWriters F M) (c : Construction M) (name : String)
    (opt : CelValue) : Kernel (Construction M) :=
  match c.slot with
  | .message _ =>
    match opt with
    | .error e => return { c with slot := .error e }
    | .unknown s => return { c with slot := .unknown s }
    | .optional (some v) => celSetFieldImpl writers c name v
    | .optional none => return c
    | _ => return { c with slot := .error .typeMismatch }
  | _ => return c

/-- `CelWktUnwrapWrapperImpl` and `CelWktUnwrapTimeImpl`, `unwrap` reading the message. -/
def celWktUnwrap (unwrap : M → Kernel CelValue) (c : Construction M) : Kernel CelValue :=
  if c.slot.isPoison then return c.slot
  else
    match c.slot with
    | .message _ =>
      match c.backing with
      | some message => unwrap message
      | none => Prog.stop .hostFailure
    | _ => return .error .typeMismatch

/-! ## What a field is assigned -/

/-- A field of a literal with the value it evaluates to. -/
structure StructField where
  name : String
  optional : Bool
  value : CelValue

/-- **The value a field is assigned**: a plain field its own; an optional field what the optional
holds, which may be nothing, and what is no optional counts as a type error. -/
def StructField.assigned (f : StructField) : Option CelValue :=
  if f.optional then
    match f.value with
    | .error e => some (.error e)
    | .unknown s => some (.unknown s)
    | .optional held => held
    | _ => some (.error .typeMismatch)
  else some f.value

/-- The call for one field. -/
def setField (writers : FieldWriters F M) (c : Construction M) (f : StructField) :
    Kernel (Construction M) :=
  if f.optional then celSetFieldAtIfPresent writers c f.name f.value
  else celSetFieldImpl writers c f.name f.value

/-- What the call for a field does to a message in the making. -/
inductive FieldEffect (M : Type)
  | writes (write : M → M)
  | poisons (v : CelValue)
  | fails

/-- The effect of a field: nothing is assigned, a poison is assigned, or the writer is called. -/
def StructField.effect (writers : FieldWriters F M) (f : StructField) : FieldEffect M :=
  match f.assigned with
  | none => .writes id
  | some value =>
    if value.isPoison then .poisons value
    else
      match (writers.descriptor f.name).map fun field => writers.dispatch field value with
      | some (.ok write) => .writes write
      | some (.error .outOfRange) => .poisons (.error .overflow)
      | some (.error .invalid) | none => .fails

section Steps

variable {writers : FieldWriters F M} {handle : ℕ} {message : M} {f : StructField}

theorem celSetFieldImpl_message {value : CelValue} {field : F}
    (hname : writers.descriptor f.name = some field) :
    (celSetFieldImpl writers { slot := .message handle, backing := some message } f.name
        value).granted
      = if value.isPoison then .ok { slot := value, backing := some message }
        else
          match writers.dispatch field value with
          | .ok write => .ok { slot := .message handle, backing := some (write message) }
          | .error .outOfRange => .ok { slot := .error .overflow, backing := some message }
          | .error .invalid => .error .hostFailure := by
  rw [celSetFieldImpl, resolveOwnedSetTarget]
  simp only [pure_bind, hname]
  split_ifs with hpoison
  · rfl
  · cases writers.dispatch field value with
    | ok write => rfl
    | error failure => cases failure <;> rfl

/-- **A call that finds a message** has the effect of its field. -/
theorem setField_message (hname : (writers.descriptor f.name).isSome = true) :
    (setField writers { slot := .message handle, backing := some message } f).granted
      = match f.effect writers with
        | .writes write => .ok { slot := .message handle, backing := some (write message) }
        | .poisons v => .ok { slot := v, backing := some message }
        | .fails => .error .hostFailure := by
  obtain ⟨field, hfield⟩ := Option.isSome_iff_exists.mp hname
  have hplain : ∀ value : CelValue, f.assigned = some value →
      (celSetFieldImpl writers { slot := .message handle, backing := some message } f.name
        value).granted
      = match f.effect writers with
        | .writes write => .ok { slot := .message handle, backing := some (write message) }
        | .poisons v => .ok { slot := v, backing := some message }
        | .fails => .error .hostFailure := by
    intro value hvalue
    rw [celSetFieldImpl_message hfield, StructField.effect, hvalue, hfield]
    dsimp only
    split_ifs
    · rfl
    · rw [Option.map_some]
      cases writers.dispatch field value with
      | ok write => rfl
      | error failure => cases failure <;> rfl
  obtain ⟨name, optional, value⟩ := f
  cases optional with
  | false => exact hplain value rfl
  | true =>
    cases value with
    | optional held =>
      cases held with
      | none => rfl
      | some inner => exact hplain inner rfl
    | _ => rfl

/-- A call that finds an ERROR leaves it. -/
theorem setField_error {e : CelErr} {backing : Option M} :
    setField writers { slot := .error e, backing } f
      = return { slot := .error e, backing } := by
  rw [setField]
  split_ifs <;> rfl

/-- A call that finds an UNKNOWN leaves it if the field is optional, and fails if it is plain. -/
theorem setField_unknown {s : UnknownSet} {backing : Option M} :
    setField writers { slot := .unknown s, backing } f
      = if f.optional then return { slot := .unknown s, backing }
        else Prog.stop .hostFailure := by
  rw [setField]
  split_ifs <;> rfl

end Steps

end CelWasm
