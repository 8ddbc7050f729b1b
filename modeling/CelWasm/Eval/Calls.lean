import CelWasm.Eval.Instance

/-!
# Eval/Calls — binding the variables, and the calls of an instance

A call resets the table of backings, sets its patterns, and binds every variable of the program before
it runs the body. A first pass finds how much of the activation buffer the call needs; a buffer that
is too small is replaced by a larger one, and the smaller one is never freed.
-/

namespace CelWasm

variable {P : Platform}

/-! ## The activation buffer -/

/-- `RoundUpTo4K`. -/
def roundUpTo4K (bytes : ℕ) : UInt32 := UInt32.ofNat ((bytes + 4095) / 4096 * 4096)

/-- The buffer in a block that was granted. -/
def ActivationBuffer.ofBlock {capacity : UInt32} (block : Block capacity.toNat) :
    ActivationBuffer where
  offset := block.address
  capacity := capacity
  pos := fun _ => block.pos
  le := block.le

/-- **`EnsureActivationBuffer`** — the failing status, if there is one. -/
def Instance.ensureActivationBuffer (i : Instance P) (firstVarName : String) (needed : UInt32) :
    Option Status × Instance P :=
  if needed ≤ i.buffer.capacity then (none, i)
  else
    match P.malloc i.heap (roundUpTo4K needed.toNat).toNat with
    | none =>
      (some
        { code := .resourceExhausted
          message := "Activation[" ++ firstVarName ++ "]: malloc returned NULL (needed "
            ++ toString (roundUpTo4K needed.toNat) ++ " bytes)" }, i)
    | some (block, heap) => (none, { i with heap, buffer := .ofBlock block })

/-- A call that needs nothing leaves the buffer as it is. -/
def Instance.reserve (i : Instance P) (firstVarName : String) (need : UInt32) :
    Option Status × Instance P :=
  if 0 < need then i.ensureActivationBuffer firstVarName need else (none, i)

/-! ## One variable -/

/-- What binding the variables changes. -/
structure MarshalState (P : Platform) where
  inst : Instance P
  arena : HostStringArena
  activation : Activation

/-- Where the next bytes of the buffer go. -/
def MarshalState.next (s : MarshalState P) : ℕ := s.inst.buffer.offset + s.arena.cursor.toNat

/-- Copy a cell's bytes to an address and intern its backing. -/
def Instance.place (i : Instance P) (address : ℕ) (cell : CelValue) : WireCell × Instance P :=
  match cell with
  | .string s =>
    (.string ⟨address, s.length % 2 ^ 32⟩,
      { i with memory := i.memory.write address (s.take (s.length % 2 ^ 32)) })
  | .bytes s =>
    (.bytes ⟨address, s.length % 2 ^ 32⟩,
      { i with memory := i.memory.write address (s.take (s.length % 2 ^ 32)) })
  | .type s =>
    (.type ⟨address, s.length % 2 ^ 32⟩,
      { i with memory := i.memory.write address (s.take (s.length % 2 ^ 32)) })
  | .message message =>
    let (slot, refs) := i.refs.intern message (P.descriptor message).isSome
    (.message slot, { i with refs })
  | .listHost elements =>
    let (slot, refs) := i.refs.internList elements
    (.listHost slot, { i with refs })
  | .mapHost entries =>
    let (slot, refs) := i.refs.internMap entries
    (.mapHost slot, { i with refs })
  | v => (.inline v, i)

/-- `WriteCelValueAt` a slot. -/
def Instance.writeSlot (i : Instance P) (offset : ℕ) (cell : WireCell) : Instance P :=
  { i with slots := Function.update i.slots offset cell }

/-- `kUnknownDescriptorBytes`. -/
def unknownDescriptorBytes : UInt32 := 16

/-- `EncodeUnknownVariable`: a descriptor and its one id. -/
def MarshalState.encodeUnknownVariable (s : MarshalState P) (dv : VariableEntry) (id : ℕ) :
    Option Status × MarshalState P :=
  if s.arena.cursor.toNat + unknownDescriptorBytes.toNat > s.arena.capacity.toNat then
    (some
      { code := .resourceExhausted
        message := "Activation[" ++ dv.name ++ "]: host string arena OOM (need "
          ++ toString unknownDescriptorBytes ++ " bytes for the UnknownSet descriptor; cursor="
          ++ toString s.arena.cursor ++ ", capacity=" ++ toString s.arena.capacity ++ ")" }, s)
  else
    let words := leBytes 4 (s.next + 8) ++ leBytes 4 1 ++ leBytes 4 id
    let written := { s.inst with memory := s.inst.memory.write s.next words }
    (none, { s with
      inst := written.writeSlot dv.slotOffset (.unknown s.next)
      arena := { s.arena with cursor := s.arena.cursor + unknownDescriptorBytes } })

/-- **`MarshalOneVariable`** — a variable a pattern hides is unknown, whatever it is bound to. -/
def MarshalState.marshalOneVariable (attributes : List Attribute) (s : MarshalState P)
    (dv : VariableEntry) : Option Status × MarshalState P :=
  if dv.slotOffset + celValueBytes > P.memorySize s.inst.heap then
    (some
      { code := .outOfRange
        message := "Activation[" ++ dv.name ++ "]: slot offset " ++ toString dv.slotOffset
          ++ " + 24 exceeds memory size " ++ toString (P.memorySize s.inst.heap) }, s)
  else
    match bareVariableUnknownId attributes s.inst.unknownPatterns dv.name with
    | some id => s.encodeUnknownVariable dv id
    | none =>
      match s.activation.resolve dv.name with
      | (.error status, activation) => (some status, { s with activation })
      | (.ok none, activation) =>
        (some
          { code := .failedPrecondition
            message := "Activation: variable `" ++ dv.name
              ++ "` declared on Compiler but not bound on Activation" }, { s with activation })
      | (.ok (some bound), activation) =>
        match encodeBoundValue P.wellKnown bound dv.repr dv.name s.arena with
        | .error status => (some status, { s with activation })
        | .ok (cell, arena) =>
          let (wire, inst) := s.inst.place s.next cell
          (none, { inst := inst.writeSlot dv.slotOffset wire, arena, activation })

/-- The loop of `MarshalActivation`. -/
def MarshalState.marshalVariables (attributes : List Attribute) :
    List VariableEntry → MarshalState P → Option Status × MarshalState P
  | [], s => (none, s)
  | dv :: rest, s =>
    match s.marshalOneVariable attributes dv with
    | (some status, s) => (some status, s)
    | (none, s) => marshalVariables attributes rest s

/-- **`MarshalActivation`** — the failing status, if there is one, and the instance. -/
def Instance.marshalActivation (i : Instance P) (abi : CelAbi) (activation : Activation) :
    Option Status × Instance P :=
  match totalHostStringBytes P.wellKnown abi.attributes i.unknownPatterns abi.entries 0
      activation.clearLazyCache with
  | (.error status, _) => (some status, i)
  | (.ok stringBytes, activation) =>
    let need := stringBytes + unknownDescriptorBytes
      * UInt32.ofNat (countUnknownVariables abi.attributes i.unknownPatterns abi.entries)
    let firstName := (abi.entries.head?.map VariableEntry.name).getD ""
    match i.reserve firstName need with
    | (some status, i) => (some status, i)
    | (none, i) =>
      let arena : HostStringArena := { capacity := i.buffer.capacity, cursor := 0 }
      let (failed, s) := MarshalState.marshalVariables abi.attributes abi.entries
        { inst := i, arena, activation }
      (failed, s.inst)

/-! ## Calls -/

/-- A compiled program. -/
structure Program (P : Platform) where
  abi : CelAbi
  body : Body P.format.Compiled abi.entries.length

/-- The calls of an instance: `Eval(activation)`, `PartialEval(activation, unknowns)` and `Eval()`. -/
inductive Call
  | eval (activation : Activation)
  | partialEval (activation : Activation) (unknowns : List AttributePattern)
  | evalOnly

namespace Instance

variable (i : Instance P) (program : Program P)

/-- `arena_reset`, with which `$eval` begins. -/
def arenaReset : Instance P :=
  let (heap, arena) := CelWasm.arenaReset P.toHeap i.heap i.arena
  { i with heap, arena }

/-- **`Instance::Eval()`.** -/
def evalOnly : Except Status HostValue × Instance P :=
  program.body.run program.abi [] i.arenaReset

/-- How both calls begin: the table and the patterns are set, and the variables bound. -/
def bindVariables (activation : Activation) (unknowns : List AttributePattern) :
    Option Status × Instance P :=
  ({ i with refs := i.refs.reset, unknownPatterns := unknowns } : Instance P).marshalActivation
    program.abi activation

/-- **`Instance::Eval(activation)`.** -/
def eval (activation : Activation) : Except Status HostValue × Instance P :=
  match i.bindVariables program activation [] with
  | (some status, i) => (.error status, i)
  | (none, i) => i.evalOnly program

/-- **`Instance::PartialEval`.** -/
def partialEval (activation : Activation) (unknowns : List AttributePattern) :
    Except Status HostValue × Instance P :=
  match i.bindVariables program activation unknowns with
  | (some status, i) => (.error status, { i with unknownPatterns := [] })
  | (none, i) =>
    let (result, i) := i.evalOnly program
    (result, { i with unknownPatterns := [] })

/-- One call. -/
def call : Call → Except Status HostValue × Instance P
  | .eval activation => i.eval program activation
  | .partialEval activation unknowns => i.partialEval program activation unknowns
  | .evalOnly => i.evalOnly program

end Instance

/-- **The instance after a sequence of calls.** -/
def Instance.after (program : Program P) : List Call → Instance P → Instance P
  | [], i => i
  | c :: calls, i => after program calls (i.call program c).2

end CelWasm
