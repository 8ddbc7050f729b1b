import CelWasm.Library.CellProgram
import CelWasm.Runtime.ThreeValued

/-!
# Runtime/SlotKernels — kernels on workspace cells

A kernel is called with offsets: of its result and of its operands. It loads the operands, a kind or a
payload at a time and as often as it likes, and stores the result, an error perhaps before it has
looked at everything. Codegen hands a kernel the cell of an operand for its result, so that all of this
has to happen in the right order. What lies behind a cell — the run of a list, the cell of an optional,
the bytes of a string — is no cell of the workspace, and is part of the value here.

The kernels are called as their C functions are: result first, then the operands.
-/

namespace CelWasm

open CellProg

/-- The offset of a cell. -/
abbrev Slot := ℕ

/-- A kernel on cells. -/
abbrev SlotKernel := CellProg Slot CelValue Kernel

/-- `CelKind`. -/
inductive CelKind
  | null
  | bool
  | int
  | uint
  | double
  | string
  | bytes
  | listArena
  | mapArena
  | mapHost
  | message
  | type
  | duration
  | timestamp
  | optional
  | unknown
  | error
  | listHost
  | ip
  | cidr
  deriving DecidableEq

namespace CelValue

/-- The tag of a cell. -/
def kind : CelValue → CelKind
  | null => .null
  | bool _ => .bool
  | int _ => .int
  | uint _ => .uint
  | double _ => .double
  | string _ => .string
  | bytes _ => .bytes
  | listArena _ _ => .listArena
  | mapArena _ _ _ => .mapArena
  | mapHost _ => .mapHost
  | message _ => .message
  | type _ => .type
  | duration _ => .duration
  | timestamp _ => .timestamp
  | optional _ => .optional
  | unknown _ => .unknown
  | error _ => .error
  | listHost _ => .listHost
  | ip _ => .ip
  | cidr _ => .cidr

/-! ### The arms of the payload -/

def bool? : CelValue → Option Bool
  | bool b => some b
  | _ => none

def int? : CelValue → Option Int64
  | int i => some i
  | _ => none

def uint? : CelValue → Option UInt64
  | uint u => some u
  | _ => none

def double? : CelValue → Option Binary64
  | double d => some d
  | _ => none

def string? : CelValue → Option (List UInt8)
  | string s => some s
  | _ => none

def bytes? : CelValue → Option (List UInt8)
  | bytes s => some s
  | _ => none

def type? : CelValue → Option (List UInt8)
  | type s => some s
  | _ => none

/-- `payload.arena_list`: the elements of an arena list. -/
def listArena? : CelValue → Option (List CelValue)
  | listArena _ elements => some elements
  | _ => none

/-- `payload.arena_map`: the entries of an arena map, and its index. -/
def mapArena? : CelValue → Option (List (CelValue × CelValue) × Option MapIndex)
  | mapArena _ entries index => some (entries, index)
  | _ => none

/-- `payload.opt`: the cell of an optional. -/
def optional? : CelValue → Option (Option CelValue)
  | optional held => some held
  | _ => none

def unknown? : CelValue → Option UnknownSet
  | unknown ids => some ids
  | _ => none

def ip? : CelValue → Option NetIp
  | ip address => some address
  | _ => none

def cidr? : CelValue → Option NetCidr
  | cidr block => some block
  | _ => none

/-- `payload.dur`, which is `payload.ts` as well. -/
def durTs? : CelValue → Option CelDurTs
  | duration d | timestamp d => some d
  | _ => none

end CelValue

/-! ## Loads and stores -/

/-- A kernel that stops. -/
def halt {α : Type} (e : Stop) : SlotKernel α := liftM (Prog.stop e : Kernel α)

/-- The kind in a cell. -/
def loadKind (s : Slot) : SlotKernel CelKind := do return (← load s).kind

/-- An arm of the payload in a cell. -/
def payload {α : Type} (arm : CelValue → Option α) (s : Slot) : SlotKernel α := do
  match arm (← load s) with
  | some x => return x
  | none => halt .wildRead

/-- `poison`. -/
def poisonAt (out : Slot) (e : CelErr) : SlotKernel Unit := store out (.error e)

/-- `*out = *s`. -/
def copyAt (out s : Slot) : SlotKernel Unit := do store out (← load s)

/-- `arena_alloc`. -/
def arenaAllocAt (bytes : ℕ) : SlotKernel Bool := liftM (Prog.alloc bytes : Kernel Bool)

/-! ## 3VL -/

/-- `merge_unknown_descriptors`. -/
def mergeUnknownDescriptorsAt (a b : UnknownSet) : SlotKernel (Option UnknownSet) :=
  liftM (mergeUnknownDescriptors a b)

/-- `cel_unknown_merge`. -/
def celUnknownMergeAt (out a b : Slot) : SlotKernel Unit := do
  if (← loadKind a) ≠ .unknown || (← loadKind b) ≠ .unknown then
    poisonAt out .typeMismatch
    return
  let setA ← payload CelValue.unknown? a
  let setB ← payload CelValue.unknown? b
  if setA = ∅ && setB = ∅ then store out (.unknown ∅)
  else if setA = ∅ then store out (.unknown setB)
  else if setB = ∅ then store out (.unknown setA)
  else
    match ← mergeUnknownDescriptorsAt setA setB with
    | none => poisonAt out .overflow
    | some merged => store out (.unknown merged)

/-- `absorb_3vl_binary`. -/
def absorb3vlBinaryAt (out a b : Slot) : SlotKernel Bool := do
  if (← loadKind a) = .error then
    copyAt out a
    return true
  if (← loadKind b) = .error then
    copyAt out b
    return true
  if (← loadKind a) = .unknown then
    if (← loadKind b) = .unknown then
      celUnknownMergeAt out a b
      return true
    copyAt out a
    return true
  if (← loadKind b) = .unknown then
    copyAt out b
    return true
  return false

/-- `absorb_3vl_unary`, and `Absorb3vlUnary`. -/
def absorb3vlUnaryAt (out a : Slot) : SlotKernel Bool := do
  if (← loadKind a) = .error || (← loadKind a) = .unknown then
    copyAt out a
    return true
  return false

/-- `Absorb3vlBinary` of the string extension. -/
def absorb3vlEitherAt (out a b : Slot) : SlotKernel Bool := do
  if ← absorb3vlUnaryAt out a then return true
  absorb3vlUnaryAt out b

/-- `require_kinds_2`. -/
def requireKinds2At (wantA wantB : CelKind) (out a b : Slot) : SlotKernel Bool := do
  if (← loadKind a) ≠ wantA || (← loadKind b) ≠ wantB then
    poisonAt out .typeMismatch
    return true
  return false

/-- `require_kinds`. -/
def requireKindsAt (want : CelKind) (out a b : Slot) : SlotKernel Bool :=
  requireKinds2At want want out a b

/-- `is_3vl_kind`. -/
def is3vlTag (k : CelKind) : Bool := k = .bool || k = .unknown || k = .error

/-- `logic_unknown_error_tail`. -/
def logicUnknownErrorTailAt (out a b : Slot) : SlotKernel Unit := do
  if (← loadKind a) = .unknown && (← loadKind b) = .unknown then celUnknownMergeAt out a b
  else if (← loadKind a) = .unknown then copyAt out a
  else if (← loadKind b) = .unknown then copyAt out b
  else copyAt out a

/-- Whether a cell holds the bool `want`: `s->kind == CEL_BOOL && s->payload.b == want`. -/
def holdsBool (want : Bool) (s : Slot) : SlotKernel Bool := do
  if (← loadKind s) = .bool then return (← payload CelValue.bool? s) == want else return false

/-- The common body of `cel_and` and `cel_or`. -/
def logicKernelAt (absorber : Bool) (out a b : Slot) : SlotKernel Unit := do
  if ← holdsBool absorber a then
    store out (.bool absorber)
    return
  if ← holdsBool absorber b then
    store out (.bool absorber)
    return
  if !is3vlTag (← loadKind a) || !is3vlTag (← loadKind b) then
    poisonAt out .typeMismatch
    return
  if (← loadKind a) = .bool then
    copyAt out b
    return
  if (← loadKind b) = .bool then
    copyAt out a
    return
  logicUnknownErrorTailAt out a b

/-- `cel_and`. -/
def celAndAt : Slot → Slot → Slot → SlotKernel Unit := logicKernelAt false

/-- `cel_or`. -/
def celOrAt : Slot → Slot → Slot → SlotKernel Unit := logicKernelAt true

/-! ## What they compute -/

theorem reads_loadKind (s : Slot) : Reads (loadKind s) fun cells => pure (cells s).kind :=
  fun cells => by
    rw [loadKind, StateT.run_bind, reads_load s cells]
    rfl

/-- A payload is that of the kind the kernel takes it for; of another it is a wild read. -/
theorem reads_payload {α : Type} (arm : CelValue → Option α) (s : Slot) :
    Reads (payload arm s) fun cells => (arm (cells s)).elim (Prog.stop .wildRead) pure := by
  intro cells
  rw [payload, StateT.run_bind, reads_load s cells]
  simp only [pure_bind]
  cases arm (cells s) <;> rfl

theorem reads_holdsBool (want : Bool) (s : Slot) :
    Reads (holdsBool want s) fun cells => pure ((cells s).isBool want) :=
  .congr (.bind (reads_loadKind s) fun _ =>
    .ite (.bind (reads_payload _ s) fun b => reads_pure (b == want)) (reads_pure false))
    fun cells => by cases cells s <;> rfl

/-- A copy is of the whole cell. -/
theorem computes_copyAt (s : Slot) : Computes (copyAt · s) fun cells => pure (cells s) :=
  .congr (.read (reads_load s) computes_store) fun _ => pure_bind _ _

section Binary

variable (a b : Slot)

/-- **A merge of unknowns** has both sets read before it writes the union. -/
theorem computes_celUnknownMergeAt :
    Computes (celUnknownMergeAt · a b) fun cells => celUnknownMerge (cells a) (cells b) := by
  refine .congr (.read (reads_loadKind a) fun _ => .read (reads_loadKind b) fun _ =>
    .ite (computes_store _) <| .read (reads_payload _ a) fun s => .read (reads_payload _ b) fun t =>
      .ite (computes_store _) <| .ite (computes_store _) <| .ite (computes_store _) <|
        .read (K := fun merged _ => pure (merged.elim (.error .overflow) .unknown)) (reads_lift _)
          fun merged => by cases merged <;> exact computes_store _) fun cells => ?_
  generalize cells a = va
  generalize cells b = vb
  cases va with
  | unknown s =>
    cases vb with
    | unknown t =>
      simp only [CelValue.kind, CelValue.unknown?, celUnknownMerge, pure_bind, Option.elim]
      by_cases hs : s = ∅
      · by_cases ht : t = ∅ <;> simp [hs, ht]
      · by_cases ht : t = ∅
        · simp [hs, ht]
        · simp only [hs, ht]
          exact bind_congr fun merged => by cases merged <;> rfl
    | _ => rfl
  | _ => rfl

/-- **Two operands of which one is poison are settled**: an error before an unknown, and two
unknowns merged. -/
theorem settles_absorb3vlBinaryAt :
    Settles (absorb3vlBinaryAt · a b) fun cells => absorb3vlBinary (cells a) (cells b) := by
  refine .congr (.read (reads_loadKind a) fun _ => .ite (.done (computes_copyAt a)) <|
    .read (reads_loadKind b) fun _ => .ite (.done (computes_copyAt b)) <|
      .read (reads_loadKind a) fun _ =>
        .ite
          (.read (reads_loadKind b) fun _ =>
            .ite (.done (computes_celUnknownMergeAt a b)) (.done (computes_copyAt a)))
          (.read (reads_loadKind b) fun _ => .ite (.done (computes_copyAt b)) settles_false))
    fun cells => ?_
  generalize cells a = va
  generalize cells b = vb
  cases va with
  | error _ => rfl
  | _ => cases vb <;> rfl

/-- One operand is settled by its poison. -/
theorem settles_absorb3vlUnaryAt :
    Settles (absorb3vlUnaryAt · a) fun cells => pure (absorb3vlUnary (cells a)) := by
  refine .congr (.read (reads_loadKind a) fun _ => .read (reads_loadKind a) fun _ =>
    .ite (.done (computes_copyAt a)) settles_false) fun cells => ?_
  cases cells a <;> rfl

theorem settles_absorb3vlEitherAt : Settles (absorb3vlEitherAt · a b) fun cells =>
    pure ((absorb3vlUnary (cells a)).or (absorb3vlUnary (cells b))) := by
  refine .congr (.orElse (settles_absorb3vlUnaryAt a) (settles_absorb3vlUnaryAt b)) fun cells => ?_
  cases absorb3vlUnary (cells a) <;> rfl

/-- **Operands of other kinds are settled** as a type mismatch. -/
theorem settles_requireKinds2At (wantA wantB : CelKind) :
    Settles (requireKinds2At wantA wantB · a b) fun cells =>
      pure (if (cells a).kind ≠ wantA ∨ (cells b).kind ≠ wantB then some (.error .typeMismatch)
        else none) := by
  refine .congr (.read (reads_loadKind a) fun _ => .read (reads_loadKind b) fun _ =>
    .ite (.done (computes_store _)) settles_false) fun cells => ?_
  simp only [pure_bind, Bool.or_eq_true, decide_eq_true_eq]
  split <;> rfl

/-- A kernel behind `absorb_3vl_binary`. -/
theorem computes_unlessAbsorbed {k : Slot → SlotKernel Unit} {K : (Slot → CelValue) → Kernel CelValue}
    (hk : Computes k K) :
    Computes (fun out => absorb3vlBinaryAt out a b >>= fun done => if done then pure () else k out)
      fun cells => unlessAbsorbed (cells a) (cells b) (K cells) :=
  .congr (.unless (settles_absorb3vlBinaryAt a b) hk) fun cells => by
    rw [unlessAbsorbed]
    exact bind_congr fun v => by cases v <;> rfl

/-- What is left of `&&` and `||` once no operand decides: an unknown before an error. -/
theorem computes_logicUnknownErrorTailAt : Computes (logicUnknownErrorTailAt · a b) fun cells =>
    logicUnknownErrorTail (cells a) (cells b) := by
  refine .congr (.read (reads_loadKind a) fun _ => .read (reads_loadKind b) fun _ =>
    .ite (computes_celUnknownMergeAt a b) <|
      .read (reads_loadKind a) fun _ => .ite (computes_copyAt a) <|
        .read (reads_loadKind b) fun _ => .ite (computes_copyAt b) (computes_copyAt a))
    fun cells => ?_
  generalize cells a = va
  generalize cells b = vb
  cases va <;> cases vb <;> rfl

/-- **`&&` and `||`** look for the operand that decides before they look for poison. -/
theorem computes_logicKernelAt (absorber : Bool) : Computes (logicKernelAt absorber · a b)
    fun cells => logicKernel absorber (cells a) (cells b) := by
  refine .congr (.read (reads_holdsBool _ a) fun _ => .ite (computes_store _) <|
    .read (reads_holdsBool _ b) fun _ => .ite (computes_store _) <|
      .read (reads_loadKind a) fun _ => .read (reads_loadKind b) fun _ => .ite (computes_store _) <|
        .read (reads_loadKind a) fun _ => .ite (computes_copyAt b) <|
          .read (reads_loadKind b) fun _ => .ite (computes_copyAt a)
            (computes_logicUnknownErrorTailAt a b)) fun cells => ?_
  generalize cells a = va
  generalize cells b = vb
  simp only [pure_bind, logicKernel]
  cases va.isBool absorber with
  | true => rfl
  | false =>
    cases vb.isBool absorber with
    | true => rfl
    | false => cases va <;> cases vb <;> rfl

end Binary

end CelWasm
