import CelWasm.Compiler.Ast
import CelWasm.Runtime.Dispatch

/-!
# Compiler/Comprehension — what a lowered comprehension computes

Codegen recovers the macro a comprehension came from by the shape of its loop condition and its loop
step. A condition becomes a break on the accumulator cell or nothing; six shapes of step become a
direct write to the accumulator, and any other step is evaluated and copied there.

A step's sub-expressions are evaluated afresh in every iteration. What they come to is a `Valuation`,
one for each iteration, and nothing is assumed of it.
-/

namespace CelWasm

variable {α : Type}

/-! ## The loop condition -/

/-- The check a loop condition leaves at the head of the loop. -/
inductive LoopExit
  | never
  | always
  /-- `BoolAccuExit`. -/
  | onBool (want : Bool)
  deriving DecidableEq, Repr

/-- `BuildLoopCondExit`; `none` is its Unimplemented. -/
def buildLoopCondExit (cond : Expr α) (accuVar : String) : Option LoopExit :=
  match cond with
  | .const _ (.bool true) => some .never
  | .const _ (.bool false) => some .always
  | .call _ "@not_strictly_false" false [.call _ "!_" false [e]] =>
    if e.isIdentNamed accuVar then some (.onBool true) else none
  | .call _ "@not_strictly_false" false [e] =>
    if e.isIdentNamed accuVar then some (.onBool false) else none
  | _ => none

/-- Whether the loop breaks on this accumulator. -/
def LoopExit.taken : LoopExit → CelValue → Bool
  | never, _ => false
  | always, _ => true
  | onBool want, accu => accu.isBool want

/-- The loop: check, step, and on to the next element. -/
def compLoop {β : Type} (exit : LoopExit) (step : CelValue → β → Kernel CelValue) :
    CelValue → List β → Kernel CelValue
  | accu, [] => return accu
  | accu, x :: xs =>
    if exit.taken accu then return accu
    else do
      let accu ← step accu x
      compLoop exit step accu xs

/-! ## The loop step -/

/-- `LoopStepShape`. -/
inductive LoopStepShape (α : Type)
  | listAppend (elem : Expr α)
  | listAppendIf (pred elem : Expr α)
  | mapInsert (key value : Expr α)
  | mapInsertIf (pred key value : Expr α)
  | mapMerge (entry : Expr α)
  | mapMergeIf (pred entry : Expr α)
  | generic

/-- `MatchAppendBody`, which does not ask whether the element is optional. -/
def matchAppendBody (e : Expr α) (accuVar : String) : Option (Expr α) :=
  match e with
  | .call _ "_+_" false [lhs, .list _ [elem] _] =>
    if lhs.isIdentNamed accuVar then some elem else none
  | _ => none

/-- `MatchMapInsertCall`: the operands behind the accumulator. -/
def matchMapInsertCall (e : Expr α) (accuVar : String) : List (Expr α) :=
  match e with
  | .call _ "cel.@mapInsert" false (m :: operands) =>
    if m.isIdentNamed accuVar then operands else []
  | _ => []

/-- `MatchConditionalWrap`: predicate and body. -/
def matchConditionalWrap (e : Expr α) (accuVar : String) : Option (Expr α × Expr α) :=
  match e with
  | .call _ "_?_:_" false [pred, body, orElse] =>
    if orElse.isIdentNamed accuVar then some (pred, body) else none
  | _ => none

/-- The shape of a step that calls `cel.@mapInsert`, by the operands behind the accumulator and by
the gate around the call. -/
def mapStepShape : List (Expr α) → Option (Expr α × Expr α) → LoopStepShape α
  | [key, value], some (pred, _) => .mapInsertIf pred key value
  | [key, value], none => .mapInsert key value
  | [entry], some (pred, _) => .mapMergeIf pred entry
  | [entry], none => .mapMerge entry
  | _, _ => .generic

/-- **`ClassifyLoopStep`.** -/
def classifyLoopStep (step : Expr α) (accuVar : String) : LoopStepShape α :=
  let wrap := matchConditionalWrap step accuVar
  let body := (wrap.map Prod.snd).getD step
  match matchAppendBody body accuVar with
  | some elem =>
    match wrap with
    | some (pred, _) => .listAppendIf pred elem
    | none => .listAppend elem
  | none => mapStepShape (matchMapInsertCall body accuVar) wrap

/-! ## Evaluating a step as written -/

/-- What the sub-expressions of a step come to in one iteration. -/
abbrev Valuation (α : Type) := Expr α → CelValue

section Step

variable (host : CelHost) (accuVar : String) (val : Valuation α) (accu : CelValue)

/-- `EmitKListExpr`: create, and append in order. -/
def listLiteral (elements : List (Expr α)) (optionals : List Bool) : Kernel CelValue := do
  let list ← celListCreate elements.length
  (elements.zipIdx).foldlM (fun list (e, i) =>
    if optionals.getD i false then celListAppendAtIfPresent list (val e)
    else celListAppendAt list (val e)) list

/-- `EmitKMapExpr`: create, insert in order, and build the index. -/
def mapLiteral (entries : List (Bool × Expr α × Expr α)) : Kernel CelValue := do
  let m ← celMapCreate entries.length
  let m ← entries.foldlM (fun m (optional, key, value) =>
    if optional then celMapInsertAtIfPresent m (val key) (val value)
    else return celMapInsert m (val key) (val value)) m
  celMapIndexBuild m

/-- A container literal is built in place; any other expression has its value. -/
def literalValue : Expr α → Kernel CelValue
  | .list _ elements optionals => listLiteral val elements optionals
  | .map _ entries => mapLiteral val entries.toList
  | e => return val e

/-- An operand that may be the accumulator. -/
def readAccu (e : Expr α) : CelValue := if e.isIdentNamed accuVar then accu else val e

/-- A call in a step, by the kernel its function is lowered to: `_+_` on lists is `add_list`. No
overload is registered for `cel.@mapInsert`; the kernel that is its meaning serves here too. -/
def bodyValue : Expr α → Kernel CelValue
  | .call _ "_||_" false [x, y] => celOr (readAccu accuVar val accu x) (val y)
  | .call _ "_&&_" false [x, y] => celAnd (readAccu accuVar val accu x) (val y)
  | .call _ "_+_" false [x, y] => do
    celListConcat host (readAccu accuVar val accu x) (← literalValue val y)
  | .call _ "cel.@mapInsert" false [m, key, value] =>
    celMapInsertAt (readAccu accuVar val accu m) (val key) (val value)
  | .call _ "cel.@mapInsert" false [m, entry] => do
    celMapMergeAt host (readAccu accuVar val accu m) (← literalValue val entry)
  | e => return readAccu accuVar val accu e

/-- `EmitConditional`: a condition that is no bool is the result itself. -/
def conditional (cond : CelValue) (thenBranch elseBranch : Kernel CelValue) : Kernel CelValue :=
  match cond with
  | .bool true => thenBranch
  | .bool false => elseBranch
  | v => return v

/-- **`EmitGenericStep`**: the step evaluated as it is written, and copied to the accumulator. -/
def genericStep : Expr α → Kernel CelValue
  | .call _ "_?_:_" false [cond, thenBranch, elseBranch] =>
    conditional (val cond) (bodyValue host accuVar val accu thenBranch)
      (bodyValue host accuVar val accu elseBranch)
  | e => bodyValue host accuVar val accu e

/-! ## The fused steps -/

/-- `EmitMapMerge`: a literal entry is one insert for each of its entries. -/
def mapMergeStep : Expr α → Kernel CelValue
  | .map _ entries =>
    entries.toList.foldlM (fun m (_, key, value) => celMapInsertAt m (val key) (val value)) accu
  | entry => celMapMergeAt host accu (val entry)

/-- `EmitMapMergeIf`. -/
def mapMergeIfStep (pred : Expr α) : Expr α → Kernel CelValue
  | .map _ entries =>
    match entries.toList with
    | [] => return accu
    | [(_, key, value)] => celMapInsertAtIfBool accu (val pred) (val key) (val value)
    | entries => do celMapMergeAtIfBool host accu (val pred) (← mapLiteral val entries)
  | entry => celMapMergeAtIfBool host accu (val pred) (val entry)

/-- **`EmitCompLoopStep`**: the accumulator after one iteration. -/
def compLoopStep (step : Expr α) : Kernel CelValue :=
  match classifyLoopStep step accuVar with
  | .listAppend elem => celListAppendAt accu (val elem)
  | .listAppendIf pred elem => celListAppendAtIfBool accu (val pred) (val elem)
  | .mapInsert key value => celMapInsertAt accu (val key) (val value)
  | .mapInsertIf pred key value => celMapInsertAtIfBool accu (val pred) (val key) (val value)
  | .mapMerge entry => mapMergeStep host val accu entry
  | .mapMergeIf pred entry => mapMergeIfStep host val accu pred entry
  | .generic => genericStep host accuVar val accu step

end Step

/-! ## The whole lowering -/

/-- `PerIterEntryCount`. -/
def perIterEntryCount : LoopStepShape α → ℕ
  | .mapMerge (.map _ entries) | .mapMergeIf _ (.map _ entries) => entries.toList.length
  | _ => 1

/-- The accumulator the loop starts from: an empty list or map literal is created with room for every
iteration, and any other initial value is copied. -/
def initAccu (comp : ComprehensionExpr α) (init : CelValue) (count : ℕ) : Kernel CelValue :=
  let capacity := count * perIterEntryCount (classifyLoopStep comp.loopStep comp.accuVar) % 2 ^ 32
  match comp.accuInit with
  | .list _ [] _ => celListCreate capacity
  | .map _ .nil => celMapCreate capacity
  | _ => return init

/-- Whether the step builds a map. -/
def LoopStepShape.mapAccumulating : LoopStepShape α → Bool
  | mapInsert _ _ | mapInsertIf _ _ _ | mapMerge _ | mapMergeIf _ _ => true
  | _ => false

section Lowering

variable (host : CelHost) (comp : ComprehensionExpr α) (range init : CelValue)

/-- `IsPresizableCollectionAccu`. -/
def isPresizableCollectionAccu : Bool :=
  match comp.accuInit with
  | .list _ [] _ | .map _ .nil => true
  | _ => false

/-- `EmitCompPrologue` over a list: the accumulator, and the elements to walk with their indices. The
view that is walked is the one that is counted. -/
def listPrologue : Kernel (CelValue × List (CelValue × ℕ)) := do
  let elements ← celListArenaView host range
  let accu ← initAccu comp init elements.length
  return (accu, elements.zipIdx)

/-- `EmitCompPrologue` over a map: the accumulator, and the entries to walk. Only an accumulator that
is created asks for the count. -/
def mapPrologue : Kernel (CelValue × List (CelValue × CelValue)) := do
  let count ← if isPresizableCollectionAccu comp then celMapCount range else pure 0
  let accu ← initAccu comp init count
  let entries ← celMapIterInit host range
  return (accu, entries)

/-- What the range guard branches past: the prologue, the loop and, where a map was accumulated, its
index. `val` gives the value of every sub-expression of the step by iteration. -/
def guardedLoop {β : Type} (exit : LoopExit) (prologue : Kernel (CelValue × List β))
    (val : β → Valuation α) : Kernel CelValue :=
  if range.isPoison then return range
  else do
    let (accu, walked) ← prologue
    let accu ← compLoop exit (fun accu x =>
      compLoopStep host comp.accuVar (val x) accu comp.loopStep) accu walked
    if (classifyLoopStep comp.loopStep comp.accuVar).mapAccumulating then celMapIndexBuild accu
    else return accu

/-- **`LowerComprehension`** over a list: the range guard, the prologue, the loop, and the result
expression, which also a poisoned range reaches. `val` gives the value of every sub-expression of the
step by iteration and element, and `resultVal` those of the result. -/
def lowerListComprehension (val : ℕ → CelValue → Valuation α) (resultVal : Valuation α) :
    Option (Kernel CelValue) :=
  (buildLoopCondExit comp.loopCondition comp.accuVar).map fun exit => do
    let accu ← guardedLoop host comp range exit (listPrologue host comp range init)
      fun (x, i) => val i x
    return readAccu comp.accuVar resultVal accu comp.result

/-- **`LowerComprehension`** over a map; `val` goes by the entry. -/
def lowerMapComprehension (val : CelValue × CelValue → Valuation α) (resultVal : Valuation α) :
    Option (Kernel CelValue) :=
  (buildLoopCondExit comp.loopCondition comp.accuVar).map fun exit => do
    let accu ← guardedLoop host comp range exit (mapPrologue host comp range init) val
    return readAccu comp.accuVar resultVal accu comp.result

end Lowering

end CelWasm
