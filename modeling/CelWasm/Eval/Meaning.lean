import CelWasm.Eval.Calls
import Mathlib.Data.UInt

/-!
# Eval/Meaning — what a call comes to, without an instance

The meaning of a call is told by its program, its activation and its patterns alone: every variable
has the cell it is bound to, every field the one its descriptor resolves, every text the form it
compiles to, and every request for memory is granted. A call of an instance comes to its meaning when
the instance's caches are right and no request is refused.
-/

namespace CelWasm

variable {P : Platform}

/-! ## The variables -/

section Binding

variable (P) (attributes : List Attribute) (unknownPatterns : List AttributePattern)
  (bound : String → Except Status (Option HostValue))

/-- The cell of an encoded value, and the table after its backing is interned. -/
def cellMeaning (refs : HostExternrefTable) (cell : CelValue) : ReadCell × HostExternrefTable :=
  match cell with
  | .string s => (.string s, refs)
  | .bytes s => (.bytes s, refs)
  | .type s => (.type s, refs)
  | .message message =>
    let (slot, refs) := refs.intern message (P.descriptor message).isSome
    (.message slot, refs)
  | .listHost elements =>
    let (slot, refs) := refs.internList elements
    (.listHost slot, refs)
  | .mapHost entries =>
    let (slot, refs) := refs.internMap entries
    (.mapHost slot, refs)
  | v => (.inline v, refs)

/-- An arena that holds any string. -/
def wholeArena : HostStringArena := { capacity := 2 ^ 32 - 1, cursor := 0 }

/-- The cell a variable is bound to. -/
def variableMeaning (dv : VariableEntry) (refs : HostExternrefTable) :
    Except Status (ReadCell × HostExternrefTable) :=
  match bareVariableUnknownId attributes unknownPatterns dv.name with
  | some id => .ok (.unknown [id], refs)
  | none =>
    match bound dv.name with
    | .error status => .error status
    | .ok none =>
      .error
        { code := .failedPrecondition
          message := "Activation: variable `" ++ dv.name
            ++ "` declared on Compiler but not bound on Activation" }
    | .ok (some v) =>
      match encodeBoundValue P.wellKnown v dv.repr dv.name wholeArena with
      | .error status => .error status
      | .ok (cell, _) => .ok (cellMeaning P refs cell)

/-- The cells of the slots once all variables are bound. -/
def bindingMeaning : List VariableEntry → (ℕ → ReadCell) → HostExternrefTable →
    Except Status ((ℕ → ReadCell) × HostExternrefTable)
  | [], view, refs => .ok (view, refs)
  | dv :: rest, view, refs =>
    match variableMeaning P attributes unknownPatterns bound dv refs with
    | .error status => .error status
    | .ok (cell, refs) => bindingMeaning rest (Function.update view dv.slotOffset cell) refs

/-- The binder that fails in the pass before. -/
def sizingFailure (entries : List VariableEntry) : Option Status :=
  entries.findSome? fun dv =>
    if takesBytes dv.repr ∧ bareVariableUnknownId attributes unknownPatterns dv.name = none then
      match bound dv.name with
      | .error status => some status
      | .ok _ => none
    else none

/-- The bytes of the activation buffer that a variable takes. -/
def variableBytes (dv : VariableEntry) : ℕ :=
  match bareVariableUnknownId attributes unknownPatterns dv.name, bound dv.name with
  | some _, _ => 16
  | none, .ok (some v) => alignUp8 (hostStringBytes P.wellKnown dv.repr v)
  | none, _ => 0

/-- The bytes of the activation buffer that a call takes. -/
def activationBytes (entries : List VariableEntry) : ℕ :=
  (entries.map (variableBytes P attributes unknownPatterns bound)).sum

end Binding

/-! ## The body -/

/-- What a read of a field comes to, with the field resolved anew. -/
def fieldMeaning (P : Platform) (abi : CelAbi) (unknownPatterns : List AttributePattern)
    (refs : HostExternrefTable) (slot fieldRef attributeId : ℕ) : FieldAnswer × HostExternrefTable :=
  match abi.resolveFieldRef fieldRef with
  | none => (.wireError .fieldNotFound, refs)
  | some site =>
    if matchesAnyUnknownPattern abi.attributes unknownPatterns attributeId site.fieldName then
      (.unknown attributeId, refs)
    else
      match refs.lookup slot with
      | none => (.wireError .hostAdapterError, refs)
      | some message =>
        match P.descriptor message with
        | none =>
          match P.readField message site with
          | .error status => (.failed status, refs)
          | .ok v => (.value v, refs)
        | some d =>
          match P.resolveFieldDescriptor d site with
          | none => (.wireError .fieldNotFound, refs)
          | some field =>
            match P.readFieldClassified message field (classifyResolvedField field) with
            | .error status => (.failed status, refs)
            | .ok v =>
              encodeAggregateField refs message field.name (classifyResolvedField field) v

/-- **What a body comes to** over the cells of the variables, from a table of backings and the blocks
of the arena. -/
def Body.meaning (P : Platform) (abi : CelAbi) (unknownPatterns : List AttributePattern)
    (view : ℕ → ReadCell) : Body P.format.Compiled abi.entries.length → HostExternrefTable →
      List (List UInt8) → Except Status HostValue
  | .ret result, _, _ => result
  | .trap message, _, _ => .error (wasmTrapToStatus "Eval trapped" message)
  | .readVariable index next, refs, blocks =>
    (next (view (abi.entries.get index).slotOffset)).meaning P abi unknownPatterns view refs blocks
  | .arenaAlloc bytes next, refs, blocks =>
    if bytes > 2 ^ 32 - 1 - 7 then (next none).meaning P abi unknownPatterns view refs blocks
    else
      (next (some blocks.length)).meaning P abi unknownPatterns view refs
        (blocks ++ [List.replicate (blockBytes bytes) 0])
  | .load block offset next, refs, blocks =>
    (next (loadByte blocks block offset)).meaning P abi unknownPatterns view refs blocks
  | .store block offset byte next, refs, blocks =>
    next.meaning P abi unknownPatterns view refs (storeByte blocks block offset byte)
  | .malloc _ next, refs, blocks => next.meaning P abi unknownPatterns view refs blocks
  | .free _ next, refs, blocks => next.meaning P abi unknownPatterns view refs blocks
  | .table update next, refs, blocks =>
    (next refs).meaning P abi unknownPatterns view (update refs) blocks
  | .getField slot fieldRef attributeId next, refs, blocks =>
    let (answer, refs) := fieldMeaning P abi unknownPatterns refs slot fieldRef attributeId
    (next answer).meaning P abi unknownPatterns view refs blocks
  | .celMatches text pattern next, refs, blocks =>
    (next ((P.regex.compile pattern).map (P.partialMatch · text))).meaning P abi unknownPatterns view
      refs blocks
  | .parseFormat format next, refs, blocks =>
    (next (P.format.compile format)).meaning P abi unknownPatterns view refs blocks

/-- **What a call comes to.** -/
def Program.meaning (program : Program P) (activation : Activation)
    (unknowns : List AttributePattern) : Except Status HostValue :=
  match sizingFailure program.abi.attributes unknowns activation.bound program.abi.entries with
  | some status => .error status
  | none =>
    match bindingMeaning P program.abi.attributes unknowns activation.bound program.abi.entries
        (fun _ => .inline .null) .empty with
    | .error status => .error status
    | .ok (view, refs) => program.body.meaning P program.abi unknowns view refs []

end CelWasm
