import CelWasm.Runtime.Value

/-!
# Runtime/ThreeValued — `cel_3vl.c` and the strict-operation absorbers

The logical operators are non-strict: one boolean absorbs every operand, and past it UNKNOWN wins
over ERROR. The strict operators use the opposite order — ERROR wins over UNKNOWN — through
`absorb3vlBinary`. Both merge the ids of two UNKNOWNs with `celUnknownMerge`, the only step here that
asks the arena for memory.
-/

namespace CelWasm

/-! ## Merging unknown sets -/

/-- Mint the descriptor of the merged ids: the id array, then the two-word descriptor. -/
def mergeUnknownDescriptors (a b : UnknownSet) : Kernel (Option UnknownSet) := do
  if ← Prog.alloc (max 4 (4 * (a.toList.length + b.toList.length))) then
    if ← Prog.alloc 8 then return some (a ∪ b) else return none
  else return none

/-- `cel_unknown_merge`. -/
def celUnknownMerge (a b : CelValue) : Kernel CelValue :=
  match a, b with
  | .unknown s, .unknown t =>
    if s = ∅ then return .unknown t
    else if t = ∅ then return .unknown s
    else do
      match ← mergeUnknownDescriptors s t with
      | none => return .error .overflow
      | some u => return .unknown u
  | _, _ => return .error .typeMismatch

@[simp] theorem granted_mergeUnknownDescriptors (a b : UnknownSet) :
    (mergeUnknownDescriptors a b).granted = .ok (some (a ∪ b)) := rfl

/-- **Merging is union**, wherever the ids come from. -/
@[simp] theorem granted_celUnknownMerge (s t : UnknownSet) :
    (celUnknownMerge (.unknown s) (.unknown t)).granted = .ok (.unknown (s ∪ t)) := by
  simp only [celUnknownMerge]
  split_ifs with hs ht
  · rw [hs, SortedSet.empty_union]; rfl
  · rw [ht, SortedSet.union_empty]; rfl
  · rfl

/-! ## Logical operators -/

/-- `is_3vl_kind`. -/
def is3vlKind : CelValue → Bool
  | .bool _ | .unknown _ | .error _ => true
  | _ => false

/-- `logic_unknown_error_tail`, run once both operands are ERROR or UNKNOWN. -/
def logicUnknownErrorTail (a b : CelValue) : Kernel CelValue :=
  match a, b with
  | .unknown _, .unknown _ => celUnknownMerge a b
  | .unknown _, _ => return a
  | _, .unknown _ => return b
  | _, _ => return a

/-- The common body of `cel_and` and `cel_or`; `absorber` is the bool that decides by itself. -/
def logicKernel (absorber : Bool) (a b : CelValue) : Kernel CelValue :=
  if a.isBool absorber || b.isBool absorber then return .bool absorber
  else if !(is3vlKind a && is3vlKind b) then return .error .typeMismatch
  else
    match a, b with
    | .bool _, _ => return b
    | _, .bool _ => return a
    | _, _ => logicUnknownErrorTail a b

/-- `cel_and`. -/
def celAnd : CelValue → CelValue → Kernel CelValue := logicKernel false

/-- `cel_or`. -/
def celOr : CelValue → CelValue → Kernel CelValue := logicKernel true

/-- `cel_not`. -/
def celNot : CelValue → Kernel CelValue
  | .bool b => return .bool !b
  | .unknown s => return .unknown s
  | .error e => return .error e
  | _ => return .error .typeMismatch

/-! ## Strict absorption -/

/-- `absorb_3vl_binary`: what two operands force before a strict operation may look at them. -/
def absorb3vlBinary (a b : CelValue) : Kernel (Option CelValue) :=
  match a, b with
  | .error e, _ => return some (.error e)
  | _, .error e => return some (.error e)
  | .unknown _, .unknown _ => some <$> celUnknownMerge a b
  | .unknown s, _ => return some (.unknown s)
  | _, .unknown s => return some (.unknown s)
  | _, _ => return none

/-- `if (absorb_3vl_binary(out, a, b)) return;`, and then `body`. -/
def unlessAbsorbed (a b : CelValue) (body : Kernel CelValue) : Kernel CelValue := do
  match ← absorb3vlBinary a b with
  | some poison => return poison
  | none => body

/-- Past the poison, absorption does nothing. -/
theorem unlessAbsorbed_of_not_poison {a b : CelValue} (ha : a.isPoison = false)
    (hb : b.isPoison = false) (body : Kernel CelValue) : unlessAbsorbed a b body = body := by
  cases a with
  | error _ => exact nomatch ha
  | unknown _ => exact nomatch ha
  | _ =>
    cases b with
    | error _ => exact nomatch hb
    | unknown _ => exact nomatch hb
    | _ => rfl

/-- An ERROR in front is the result. -/
@[simp] theorem unlessAbsorbed_error (e : CelErr) (b : CelValue) (body : Kernel CelValue) :
    unlessAbsorbed (.error e) b body = return .error e := rfl

/-- The only poison is the result, on the left. -/
theorem unlessAbsorbed_of_poison_left {a b : CelValue} (ha : a.isPoison = true)
    (hb : b.isPoison = false) (body : Kernel CelValue) : unlessAbsorbed a b body = return a := by
  obtain ⟨e, rfl⟩ | ⟨s, rfl⟩ := CelValue.isPoison_iff.mp ha
  · rfl
  · cases b with
    | error _ => exact nomatch hb
    | unknown _ => exact nomatch hb
    | _ => rfl

/-- The only poison is the result, on the right. -/
theorem unlessAbsorbed_of_poison_right {a b : CelValue} (ha : a.isPoison = false)
    (hb : b.isPoison = true) (body : Kernel CelValue) : unlessAbsorbed a b body = return b := by
  obtain ⟨e, rfl⟩ | ⟨s, rfl⟩ := CelValue.isPoison_iff.mp hb <;>
    cases a with
    | error _ => exact nomatch ha
    | unknown _ => exact nomatch ha
    | _ => rfl

/-- Two UNKNOWNs are merged. -/
theorem unlessAbsorbed_unknowns (s t : UnknownSet) (body : Kernel CelValue) :
    unlessAbsorbed (.unknown s) (.unknown t) body = celUnknownMerge (.unknown s) (.unknown t) := by
  simp only [unlessAbsorbed, absorb3vlBinary, bind_map_left, bind_pure]

/-- `absorb_3vl_unary`. -/
def absorb3vlUnary (a : CelValue) : Option CelValue := if a.isPoison then some a else none

end CelWasm
