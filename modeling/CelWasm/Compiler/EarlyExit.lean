import CelWasm.Compiler.Comprehension

/-!
# Compiler/EarlyExit — breaking out of `exists` and `all`

The loop of `exists` breaks once its accumulator is `true`, that of `all` once it is `false`: the bool
that absorbs every further operand. So the break is unobservable (`compLoop_eq_foldlM`), and both
lowerings are left folds of the logical operator (`quantifiers_eq_fold`). An ERROR or UNKNOWN
accumulator is never that bool, and the loop goes on.
-/

namespace CelWasm

variable {α : Type}

/-- `range.exists(x, pred)`, expanded. -/
def existsMacro (ann : α) (iterVar accuVar : String) (range pred : Expr α) :
    ComprehensionExpr α where
  iterVar := iterVar
  iterVar2 := ""
  iterRange := range
  accuVar := accuVar
  accuInit := .const ann (.bool false)
  loopCondition := .call ann "@not_strictly_false" false
    [.call ann "!_" false [.ident ann accuVar]]
  loopStep := .call ann "_||_" false [.ident ann accuVar, pred]
  result := .ident ann accuVar

/-- `range.all(x, pred)`, expanded. -/
def allMacro (ann : α) (iterVar accuVar : String) (range pred : Expr α) :
    ComprehensionExpr α where
  iterVar := iterVar
  iterVar2 := ""
  iterRange := range
  accuVar := accuVar
  accuInit := .const ann (.bool true)
  loopCondition := .call ann "@not_strictly_false" false [.ident ann accuVar]
  loopStep := .call ann "_&&_" false [.ident ann accuVar, pred]
  result := .ident ann accuVar

/-- An accumulator a step cannot change is one the whole fold cannot change. -/
theorem foldlM_of_fixed {β : Type} {step : CelValue → β → Kernel CelValue} {accu : CelValue}
    (h : ∀ x, step accu x = return accu) (xs : List β) : xs.foldlM step accu = return accu := by
  induction xs with
  | nil => rfl
  | cons x xs ih => rw [List.foldlM_cons, h, pure_bind, ih]

/-- **A break on an accumulator that no step changes is unobservable.** -/
theorem compLoop_eq_foldlM {β : Type} {exit : LoopExit} {step : CelValue → β → Kernel CelValue}
    (h : ∀ accu x, exit.taken accu = true → step accu x = return accu) :
    ∀ (xs : List β) (accu : CelValue), compLoop exit step accu xs = xs.foldlM step accu
  | [], _ => rfl
  | x :: xs, accu => by
    rw [compLoop]
    split_ifs with hexit
    · exact (foldlM_of_fixed (fun x => h accu x hexit) (x :: xs)).symm
    · rw [List.foldlM_cons]
      exact congrArg _ (funext fun accu => compLoop_eq_foldlM h xs accu)

/-- The absorbing bool is a fixed point of its operator. -/
theorem logicKernel_absorber (absorber : Bool) (v : CelValue) :
    logicKernel absorber (.bool absorber) v = return .bool absorber := by
  simp [logicKernel]

/-- An accumulator that a step sends to the logical operator is folded by it, break or no break. -/
theorem compLoop_logicKernel {β : Type} (absorber : Bool) (pred : β → CelValue) (xs : List β)
    (accu : CelValue) :
    compLoop (.onBool absorber) (fun accu x => logicKernel absorber accu (pred x)) accu xs
      = xs.foldlM (fun accu x => logicKernel absorber accu (pred x)) accu :=
  compLoop_eq_foldlM (fun accu x hexit => by
    rw [CelValue.isBool_iff.mp hexit, logicKernel_absorber]) xs accu

section Quantifiers

variable (host : CelHost) (ann : α) (iterVar accuVar : String) (rangeExpr pred : Expr α)
  (val : ℕ → CelValue → Valuation α) (resultVal : Valuation α)

/-- The step of `exists` is one `cel_or`. -/
theorem compLoopStep_existsMacro (v : Valuation α) (accu : CelValue) :
    compLoopStep host accuVar v accu (existsMacro ann iterVar accuVar rangeExpr pred).loopStep
      = celOr accu (v pred) := by
  have hread : readAccu accuVar v accu (.ident ann accuVar) = accu := if_pos (beq_self_eq_true _)
  change celOr (readAccu accuVar v accu (.ident ann accuVar)) (v pred) = _
  rw [hread]

/-- The step of `all` is one `cel_and`. -/
theorem compLoopStep_allMacro (v : Valuation α) (accu : CelValue) :
    compLoopStep host accuVar v accu (allMacro ann iterVar accuVar rangeExpr pred).loopStep
      = celAnd accu (v pred) := by
  have hread : readAccu accuVar v accu (.ident ann accuVar) = accu := if_pos (beq_self_eq_true _)
  change celAnd (readAccu accuVar v accu (.ident ann accuVar)) (v pred) = _
  rw [hread]

/-- A quantifier over a list, by its exit, its operator and its first accumulator. -/
theorem lowerListComprehension_quantifier {comp : ComprehensionExpr α} {absorber : Bool}
    {init : CelValue} (range : CelValue)
    (hexit : buildLoopCondExit comp.loopCondition comp.accuVar = some (.onBool absorber))
    (hinit : ∀ count, initAccu comp init count = return init)
    (hclass : classifyLoopStep comp.loopStep comp.accuVar = .generic)
    (hstep : ∀ v accu, compLoopStep host comp.accuVar v accu comp.loopStep
      = logicKernel absorber accu (v pred))
    (hresult : comp.result.isIdentNamed comp.accuVar = true) :
    lowerListComprehension host comp range init val resultVal
      = some (if range.isPoison then return range
        else do
          let elements ← celListArenaView host range
          elements.zipIdx.foldlM (fun accu (x, i) => logicKernel absorber accu (val i x pred))
            init) := by
  have hread : ∀ accu, readAccu comp.accuVar resultVal accu comp.result = accu :=
    fun accu => if_pos hresult
  simp only [lowerListComprehension, hexit, Option.map_some, hread, bind_pure, guardedLoop,
    listPrologue, hinit, hclass, hstep, LoopStepShape.mapAccumulating, bind_assoc, pure_bind,
    compLoop_logicKernel, Bool.false_eq_true, if_false]

/-- **Early exit in `exists` and `all` is unobservable.** Over every range and whatever the predicate
comes to on each element, the lowering is the left fold of the logical operator over all of them; a
poisoned range is the result. -/
theorem quantifiers_eq_fold (range : CelValue) :
    lowerListComprehension host (existsMacro ann iterVar accuVar rangeExpr pred) range
        (.bool false) val resultVal
      = some (if range.isPoison then return range
        else do
          let elements ← celListArenaView host range
          elements.zipIdx.foldlM (fun accu (x, i) => celOr accu (val i x pred)) (.bool false)) ∧
    lowerListComprehension host (allMacro ann iterVar accuVar rangeExpr pred) range
        (.bool true) val resultVal
      = some (if range.isPoison then return range
        else do
          let elements ← celListArenaView host range
          elements.zipIdx.foldlM (fun accu (x, i) => celAnd accu (val i x pred)) (.bool true)) := by
  have hname : (Expr.ident ann accuVar).isIdentNamed accuVar = true := beq_self_eq_true _
  constructor
  · exact lowerListComprehension_quantifier host pred val resultVal range (if_pos hname)
      (fun _ => rfl) rfl (compLoopStep_existsMacro host ann iterVar accuVar rangeExpr pred) hname
  · exact lowerListComprehension_quantifier host pred val resultVal range (if_pos hname)
      (fun _ => rfl) rfl (compLoopStep_allMacro host ann iterVar accuVar rangeExpr pred) hname

end Quantifiers

end CelWasm
