import CelWasm.Compiler.AstTraverse
import CelWasm.Compiler.ConstAggregate
import CelWasm.Compiler.FusedSteps
import CelWasm.Compiler.LayoutPass

/-!
# Compiler/StoragePasses — where the value of every node is

The layout gives the nodes of an expression their storage in walks, one behind the other:

    A   constants, and literals made of them     a place in rodata
    C   identifiers                              a local
    D   selects; then literals and calls         a slot, and a `dyn` call what its argument has
    E   comprehensions                           what the result has

A `dyn` call copies in pass D, when a comprehension has nothing yet to be copied. So a `dyn` call around
a comprehension stays without storage, and only that.
-/

namespace CelWasm

variable {α : Type}

/-- `Storage`. -/
inductive Storage
  | none
  | staticRodata (offset : ℕ)
  | workspaceSlot (offset : UInt32)
  | wasmLocal (index : ℕ)
  deriving DecidableEq

/-- The storage of the nodes, by id. -/
abbrev StorageMap := ℤ → Storage

/-- `StorageKind::kStaticRodata`. -/
def Storage.isStaticRodata : Storage → Bool
  | staticRodata _ => true
  | _ => false

/-- `ResolveOutput`: the variables, and of the annotations what the layout reads. -/
structure ResolveOutput where
  repr : ℤ → NodeRepr
  localIndex : ℤ → ℕ
  locals : List ResolvedVariable

/-! ## Pass A: constants -/

/-- What `ConstAggregateVisitor` has written into the annotations, by id. -/
def stamps (e : Expr ℤ) (placed : Expr Stamp) : List (ℤ × ℕ) :=
  (e.postOrder.zip placed.postOrder).filterMap fun (n, p) => p.ann.storage.map (n.ann, ·)

/-- …and so the storage behind it. -/
def stampedStorage (e : Expr ℤ) (placed : Expr Stamp) : StorageMap := fun id =>
  ((stamps e placed).lookup id).elim .none .staticRodata

/-- `CEL_TYPE`. -/
def kCelTypeTag : ℕ := 11

/-- `AllocateType`: laid out as a string is, under another tag. -/
def allocateType (b : StaticMemoryBuilder) (name : List UInt8) : StaticMemoryBuilder :=
  b.append (leBytes 4 kCelTypeTag ++ leBytes 4 0 ++ leBytes 4 (b.next + kCelValueSize) ++
    leBytes 4 name.length ++ List.replicate 8 0 ++
    (name ++ StaticMemoryBuilder.padTo (b.bytes.length + kCelValueSize + name.length)))

/-- `Pack`: the frame of a constant comes next, and the bytes it points at behind it; none where its
check of a type's name fails. -/
def packConstant (repr : NodeRepr) (c : Constant) (b : StaticMemoryBuilder) :
    Option StaticMemoryBuilder :=
  if repr = .type then
    match c with
    | .string name => some (allocateType b name)
    | _ => none
  else
    match c with
    | .string s => some (b.allocateSpan .string s).2
    | .bytes s => some (b.allocateSpan .bytes s).2
    | c => some (b.append (b.constToCelValue c).1.frame)

/-- **`ConstLayoutVisitor`.** -/
def constLayout (repr : ℤ → NodeRepr) (s : StorageMap × StaticMemoryBuilder) :
    Visit ℤ → Option (StorageMap × StaticMemoryBuilder)
  | .leave (.const id c) =>
    if s.1 id ≠ .none then some s
    else
      (packConstant (repr id) c s.2).map fun b =>
        (Function.update s.1 id (.staticRodata s.2.next), b)
  | _ => some s

/-- `SelectKeyRodataVisitor`. -/
def selectKeyRodata (repr : ℤ → NodeRepr) (b : StaticMemoryBuilder) : Visit ℤ → StaticMemoryBuilder
  | .leave (.select _ operand field _) =>
    if repr operand.ann = .optional ∨ repr operand.ann = .map then
      (b.allocateSpan .string field.toUTF8.toList).2
    else b
  | _ => b

/-! ## Pass C: identifiers -/

/-- **`IdentStorageVisitor`**; none where its check fails. -/
def identStorage (r : ResolveOutput) (storage : StorageMap) : Visit ℤ → Option StorageMap
  | .leave (.ident id _) =>
    if r.localIndex id < r.locals.length then
      some (Function.update storage id (.wasmLocal (r.localIndex id)))
    else none
  | _ => some storage

/-! ## Pass D: slots -/

/-- The storage, and the allocator both walks share. -/
structure SlotState where
  storage : StorageMap
  slots : SlotAllocator

/-- A node gets the slot `Acquire` hands out. -/
def SlotState.place (s : SlotState) (id : ℤ) : SlotState where
  storage := Function.update s.storage id (.workspaceSlot s.slots.acquire.1)
  slots := s.slots.acquire.2

/-- `ReleaseIfWorkspaceSlot`; none where the check of `Release` fails. -/
def SlotState.releaseIfWorkspaceSlot (s : SlotState) (n : Expr ℤ) : Option SlotState :=
  match s.storage n.ann with
  | .workspaceSlot offset => (s.slots.release offset).map fun slots => { s with slots }
  | _ => some s

/-- **`SelectStorageVisitor`.** -/
def selectStorage (s : SlotState) : Visit ℤ → Option SlotState
  | .leave (.select id operand _ _) => (s.releaseIfWorkspaceSlot operand).map (·.place id)
  | _ => some s

/-- The argument of a `dyn` call without a target. -/
def dynArg (function : String) (receiver : Bool) (operands : List (Expr α)) : Option (Expr α) :=
  match operands with
  | [arg] => if function = "dyn" ∧ receiver = false then some arg else none
  | _ => none

/-- The operands a call gives back: an index call keeps its target. -/
def releasedOperands (function : String) (receiver : Bool) (operands : List (Expr α)) :
    List (Expr α) :=
  if function = "_[_]" ∧ receiver = true then operands.tail else operands

/-- **`AggregateStorageVisitor`.** -/
def aggregateStorage (s : SlotState) : Visit ℤ → Option SlotState
  | .enter (.list id _ _) | .enter (.map id _) =>
    if (s.storage id).isStaticRodata then some s else some (s.place id)
  | .enter (.struct id _ _ _) => some (s.place id)
  | .leave (.list _ elements _) => elements.foldlM SlotState.releaseIfWorkspaceSlot s
  | .leave (.map _ entries) => entries.exprs.foldlM SlotState.releaseIfWorkspaceSlot s
  | .leave (.struct _ _ _ values) => values.foldlM SlotState.releaseIfWorkspaceSlot s
  | .leave (.call id function receiver operands) =>
    match dynArg function receiver operands with
    | some arg => some { s with storage := Function.update s.storage id (s.storage arg.ann) }
    | none =>
      ((releasedOperands function receiver operands).foldlM
        SlotState.releaseIfWorkspaceSlot s).map (·.place id)
  | _ => some s

/-! ## Pass E: comprehensions -/

/-- `comprehension_extra_locals_per_comp`. -/
def kExtraLocalsPerComp : ℕ := 3

/-- The storage, `comp_aux_local_base` of the comprehensions, and the next local. -/
structure CompLocalsState where
  storage : StorageMap
  auxLocalBase : ℤ → ℕ
  nextLocal : ℕ

/-- **`ComprehensionLocalsVisitor`**; none where its check of the result's storage fails. -/
def comprehensionLocals (s : CompLocalsState) : Visit ℤ → Option CompLocalsState
  | .enter (.comprehension id _ _ _ _ _ _ _ _) =>
    some { s with
      auxLocalBase := Function.update s.auxLocalBase id s.nextLocal
      nextLocal := s.nextLocal + kExtraLocalsPerComp }
  | .leave (.comprehension id _ _ _ _ _ _ _ result) =>
    if s.storage result.ann = .none then none
    else some { s with storage := Function.update s.storage id (s.storage result.ann) }
  | _ => some s

/-! ## The layout -/

/-- **Passes A to D of `LayoutPass`**; none where a check on the way fails. Those of the allocator are
that its base is aligned and that no more slots are given back than are out. -/
def storageBeforeResults (r : ResolveOutput) (opts : LayoutOptions) (e : Expr ℤ) :
    Option StorageMap := do
  let (placed, b) := constAggregate false (e.mapAnn r.repr) ⟨opts.rodataBase.toNat, []⟩
  let (storage, b) ← e.visits.foldlM (constLayout r.repr) (stampedStorage e placed, b)
  let b := e.visits.foldl (selectKeyRodata r.repr) b
  let workspaceBase := roundUp16 (opts.rodataBase + UInt32.ofNat b.bytes.length)
  let variableBytes := (layOutVariables workspaceBase 0 r.locals).2 * kSlotStride
  let storage ← e.visits.foldlM (identStorage r) storage
  let selectsBase := workspaceBase + variableBytes
  if selectsBase % 16 ≠ 0 then none
  else
    let s ← e.visits.foldlM selectStorage ⟨storage, .new selectsBase opts.debugLayout⟩
    return (← e.visits.foldlM aggregateStorage s).storage

/-- **Pass E**: none where its check fails. -/
def storageOfResults (r : ResolveOutput) (e : Expr ℤ) (storage : StorageMap) : Option StorageMap :=
  (e.visits.foldlM comprehensionLocals ⟨storage, fun _ => 0, r.locals.length⟩).map
    CompLocalsState.storage

/-! ## What is lowered -/

/-- The operands of a recognized loop step that are lowered, and the whole of any other. -/
def emittedStep (step : Expr α) : LoopStepShape α → List (Expr α)
  | .listAppend elem => [elem]
  | .listAppendIf pred elem => [pred, elem]
  | .mapInsert key value => [key, value]
  | .mapInsertIf pred key value => [pred, key, value]
  | .mapMerge (.map _ entries) => entries.exprs
  | .mapMerge entry => [entry]
  | .mapMergeIf pred (.map _ .nil) => [pred]
  | .mapMergeIf pred (.map _ (.cons _ key value .nil)) => [pred, key, value]
  | .mapMergeIf pred entry => [pred, entry]
  | .generic => [step]

/-- **What `Emit` calls itself on** at a node: not the elements of a literal that is in rodata, and
of a comprehension not the loop condition, of which only the shape is read. -/
def emitted (storage : StorageMap) : Expr ℤ → List (Expr ℤ)
  | .const _ _ | .ident _ _ => []
  | .select _ operand _ _ => [operand]
  | .call _ _ _ operands => operands
  | .list id elements _ => if (storage id).isStaticRodata then [] else elements
  | .map id entries => if (storage id).isStaticRodata then [] else entries.exprs
  | .struct _ _ _ values => values
  | .comprehension _ _ _ accuVar iterRange accuInit _ loopStep result =>
    iterRange :: accuInit ::
      (emittedStep loopStep (classifyLoopStep loopStep accuVar) ++ [result])

/-- **The nodes lowering reaches** from a node. -/
def Emits (storage : StorageMap) : Expr ℤ → Expr ℤ → Prop :=
  Relation.ReflTransGen fun e c => c ∈ emitted storage e

/-- A constant. -/
def Expr.isConst : Expr α → Bool
  | const _ _ => true
  | _ => false

/-- An identifier. -/
def Expr.isIdent : Expr α → Bool
  | ident _ _ => true
  | _ => false

/-- A select. -/
def Expr.isSelect : Expr α → Bool
  | select _ _ _ _ => true
  | _ => false

/-- A list, a map or a message literal. -/
def Expr.isLiteral : Expr α → Bool
  | list _ _ _ | map _ _ | struct _ _ _ _ => true
  | _ => false

/-- A call. -/
def Expr.isCall : Expr α → Bool
  | call _ _ _ _ => true
  | _ => false

/-- A comprehension. -/
def Expr.isComprehension : Expr α → Bool
  | comprehension _ _ _ _ _ _ _ _ _ => true
  | _ => false

/-- **A `dyn` call around a comprehension**, or around such a call. -/
def Expr.isDynOfComprehension : Expr α → Bool
  | call _ function receiver [arg] =>
    function == "dyn" && !receiver && (arg.isComprehension || arg.isDynOfComprehension)
  | _ => false

/-- A comprehension with such a call for its result. -/
def Expr.yieldsDynOfComprehension : Expr α → Bool
  | comprehension _ _ _ _ _ _ _ _ result => result.isDynOfComprehension
  | _ => false

theorem isCall_of_isLiteral {n : Expr α} (h : n.isLiteral = true) : n.isCall = false := by
  cases n <;> first | rfl | exact absurd h Bool.false_ne_true

/-- A `dyn` call around a comprehension, by its argument. -/
theorem isDynOfComprehension_call (id : ℤ) (function : String) (receiver : Bool)
    (operands : List (Expr ℤ)) :
    (Expr.call id function receiver operands).isDynOfComprehension =
      match dynArg function receiver operands with
      | some arg => arg.isComprehension || arg.isDynOfComprehension
      | none => false := by
  cases operands with
  | nil => rfl
  | cons arg rest =>
    cases rest with
    | nil =>
      rw [Expr.isDynOfComprehension, dynArg]
      split_ifs with h
      · rw [h.1, h.2]
        rfl
      · rw [not_and_or] at h
        obtain h | h := h
        · simp [h]
        · simp [Bool.eq_true_of_not_eq_false h]
    | cons => rfl

theorem dynArg_mem {function : String} {receiver : Bool} {operands : List (Expr α)} {arg : Expr α}
    (h : dynArg function receiver operands = some arg) : arg ∈ operands := by
  unfold dynArg at h
  split at h
  · split_ifs at h
    exact Option.some.inj h ▸ List.mem_cons_self
  · exact nomatch h

/-! ## Lowering stays in the expression -/

/-- The entry of a merge, or the keys and values it is decomposed into. -/
theorem emittedStep_mapMerge {step entry c : Expr α} (hc : c ∈ emittedStep step (.mapMerge entry)) :
    c ∈ entry.postOrder := by
  cases entry with
  | map => exact mem_postOrder_child hc
  | _ => exact List.mem_singleton.mp hc ▸ mem_postOrder_self _

theorem emittedStep_mapMergeIf {step pred entry c : Expr α}
    (hc : c ∈ emittedStep step (.mapMergeIf pred entry)) : c = pred ∨ c ∈ entry.postOrder := by
  have hpair : c ∈ [pred, entry] → c = pred ∨ c ∈ entry.postOrder := fun hc => by
    rw [List.mem_cons, List.mem_singleton] at hc
    exact hc.imp_right fun (h : c = entry) => h ▸ mem_postOrder_self c
  cases entry with
  | map id entries =>
    cases entries with
    | nil => exact .inl (List.mem_singleton.mp hc)
    | cons optional key value rest =>
      cases rest with
      | nil => exact (List.mem_cons.mp hc).imp_right mem_postOrder_child
      | cons => exact hpair hc
  | _ => exact hpair hc

/-- **What is lowered of a loop step** is a part of it. -/
theorem emittedStep_mem {step c : Expr α} {accuVar : String}
    (hc : c ∈ emittedStep step (classifyLoopStep step accuVar)) : c ∈ step.postOrder := by
  have hwrap : ∀ pred body, matchConditionalWrap step accuVar = some (pred, body) →
      pred ∈ step.postOrder ∧ body ∈ step.postOrder := fun pred body hmatch => by
    obtain ⟨a, orElse, rfl, -⟩ := matchConditionalWrap_eq_some hmatch
    exact ⟨mem_postOrder_child (by simp [Expr.children]),
      mem_postOrder_child (by simp [Expr.children])⟩
  have hbody : ((matchConditionalWrap step accuVar).map Prod.snd).getD step ∈ step.postOrder := by
    cases hmatch : matchConditionalWrap step accuVar with
    | none => exact mem_postOrder_self step
    | some wrap => exact (hwrap wrap.1 wrap.2 hmatch).2
  simp only [classifyLoopStep] at hc
  generalize ((matchConditionalWrap step accuVar).map Prod.snd).getD step = body at hc hbody
  split at hc
  · next elem happend =>
    have helem : elem ∈ step.postOrder := by
      obtain ⟨a, b, lhs, optionals, rfl, -⟩ := matchAppendBody_eq_some happend
      refine mem_postOrder_trans hbody (mem_postOrder_of_child
        (c := .list b [elem] optionals) (by simp [Expr.children]) (mem_postOrder_child ?_))
      exact List.mem_singleton_self _
    split at hc
    · next pred body' hmatch =>
      obtain rfl | hc := List.mem_cons.mp hc
      · exact (hwrap _ _ hmatch).1
      · exact List.mem_singleton.mp hc ▸ helem
    · exact List.mem_singleton.mp hc ▸ helem
  · have hoperand : ∀ x ∈ matchMapInsertCall body accuVar, x ∈ step.postOrder := fun x hx => by
      refine mem_postOrder_trans hbody ?_
      cases hoperands : matchMapInsertCall body accuVar with
      | nil => exact absurd (hoperands ▸ hx) List.not_mem_nil
      | cons y ys =>
        obtain ⟨a, m, rfl, -⟩ := matchMapInsertCall_eq_cons hoperands
        exact mem_postOrder_child (List.mem_cons_of_mem _ (hoperands ▸ hx))
    generalize matchMapInsertCall body accuVar = operands at hc hoperand
    unfold mapStepShape at hc
    split at hc
    · next key value pred body' hmatch =>
      obtain rfl | hc := List.mem_cons.mp hc
      · exact (hwrap _ _ hmatch).1
      · exact hoperand c hc
    · exact hoperand c hc
    · next entry pred body' hmatch =>
      obtain rfl | hc := emittedStep_mapMergeIf hc
      · exact (hwrap _ _ hmatch).1
      · exact mem_postOrder_trans (hoperand entry List.mem_cons_self) hc
    · next entry hmatch =>
      exact mem_postOrder_trans (hoperand entry List.mem_cons_self) (emittedStep_mapMerge hc)
    · exact List.mem_singleton.mp hc ▸ mem_postOrder_self step

/-- Nothing is lowered but parts of the expression. -/
theorem emitted_mem {n c : Expr ℤ} (hc : c ∈ emitted storage n) : c ∈ n.postOrder := by
  cases n with
  | const | ident => exact absurd hc List.not_mem_nil
  | select | call | struct => exact mem_postOrder_child hc
  | list | map =>
    rw [emitted] at hc
    split_ifs at hc
    · exact absurd hc List.not_mem_nil
    · exact mem_postOrder_child hc
  | comprehension id iterVar iterVar2 accuVar iterRange accuInit loopCondition loopStep result =>
    simp only [emitted, List.mem_cons, List.mem_append, List.not_mem_nil, or_false] at hc
    obtain rfl | rfl | hc | rfl := hc
    · exact mem_postOrder_child (by simp [Expr.children])
    · exact mem_postOrder_child (by simp [Expr.children])
    · exact mem_postOrder_of_child (c := loopStep) (by simp [Expr.children]) (emittedStep_mem hc)
    · exact mem_postOrder_child (by simp [Expr.children])

theorem Emits.mem {n : Expr ℤ} (h : Emits storage e n) : n ∈ e.postOrder := by
  induction h with
  | refl => exact mem_postOrder_self e
  | tail _ hc ih => exact mem_postOrder_trans ih (emitted_mem hc)

end CelWasm
