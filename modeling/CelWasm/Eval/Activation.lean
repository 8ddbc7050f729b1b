import CelWasm.Eval.Attribute
import CelWasm.Eval.Marshal

/-!
# Eval/Activation — the variables bound for an evaluation

An activation binds a variable to a value, or to a binder that makes the value when it is asked for.
What a binder made is kept for the rest of the evaluation. Before the variables are bound, a pass over
them adds up the bytes their strings take.
-/

namespace CelWasm

/-- `VariableEntry` of the ABI. -/
structure VariableEntry where
  name : String
  repr : NodeRepr
  slotOffset : ℕ

/-- **`Activation`** — what is bound, what a binder makes, and what binders have made so far. -/
structure Activation where
  bindings : List (String × HostValue)
  lazyBinders : List (String × Except Status HostValue)
  lazyCache : List (String × HostValue)

namespace Activation

/-- `ClearLazyCache`. -/
def clearLazyCache (a : Activation) : Activation := { a with lazyCache := [] }

/-- **`Resolve`** — a binder that fails is not remembered. -/
def resolve (a : Activation) (name : String) : Except Status (Option HostValue) × Activation :=
  match a.bindings.lookup name with
  | some v => (.ok (some v), a)
  | none =>
    match a.lazyCache.lookup name with
    | some v => (.ok (some v), a)
    | none =>
      match a.lazyBinders.lookup name with
      | none => (.ok none, a)
      | some (.error e) => (.error e, a)
      | some (.ok v) => (.ok (some v), { a with lazyCache := (name, v) :: a.lazyCache })

/-- What a variable is bound to. -/
def bound (a : Activation) (name : String) : Except Status (Option HostValue) :=
  match a.bindings.lookup name with
  | some v => .ok (some v)
  | none =>
    match a.lazyBinders.lookup name with
    | none => .ok none
    | some made => made.map some

/-- What is remembered is what the binders make. -/
def Remembers (a : Activation) : Prop :=
  ∀ name v, a.lazyCache.lookup name = some v → a.lazyBinders.lookup name = some (.ok v)

theorem remembers_clearLazyCache (a : Activation) : a.clearLazyCache.Remembers := nofun

@[simp] theorem bound_clearLazyCache (a : Activation) : a.clearLazyCache.bound = a.bound := rfl

variable {a : Activation} {name : String}

/-- **What is resolved is what is bound**, and resolving changes neither. -/
theorem resolve_spec (h : a.Remembers) :
    (a.resolve name).1 = a.bound name ∧ (a.resolve name).2.Remembers ∧
      (a.resolve name).2.bound = a.bound := by
  rw [resolve, bound]
  cases hbinding : a.bindings.lookup name with
  | some v => exact ⟨rfl, h, rfl⟩
  | none =>
    cases hcache : a.lazyCache.lookup name with
    | some v =>
      rw [h name v hcache]
      exact ⟨rfl, h, rfl⟩
    | none =>
      cases hbinder : a.lazyBinders.lookup name with
      | none => exact ⟨rfl, h, rfl⟩
      | some made =>
        cases made with
        | error e => exact ⟨rfl, h, rfl⟩
        | ok v =>
          refine ⟨rfl, fun other w hother => ?_, rfl⟩
          change List.lookup other ((name, v) :: a.lazyCache) = some w at hother
          rw [List.lookup_cons] at hother
          by_cases hname : other = name
          · rw [hname, beq_self_eq_true] at hother
            obtain rfl := Option.some.inj hother
            exact hname ▸ hbinder
          · rw [beq_false_of_ne hname] at hother
            exact h other w hother

end Activation

/-! ## The pass before the variables are bound -/

/-- The bytes an encoder copies for a value, in the words of `TotalHostStringBytes`. -/
def hostStringBytes (wellKnown : ℕ → Option WellKnownMessage) (repr : NodeRepr) (bound : HostValue) :
    ℕ :=
  match repr, bound with
  | .string, .string s => s.length
  | .bytes, .bytes s => s.length
  | .type, .type s => s.length
  | repr, bound => ((tryReadWktStringWrapperValue wellKnown bound repr).map List.length).getD 0

/-- Whether a variable of a representation has bytes to copy. -/
def takesBytes (repr : NodeRepr) : Bool := repr == .string || repr == .bytes || repr == .type

section Total

variable (wellKnown : ℕ → Option WellKnownMessage) (attributes : List Attribute)
  (unknownPatterns : List AttributePattern)

/-- **`TotalHostStringBytes`**, from a total on. -/
def totalHostStringBytes : List VariableEntry → UInt32 → Activation →
    Except Status UInt32 × Activation
  | [], total, activation => (.ok total, activation)
  | dv :: rest, total, activation =>
    if !takesBytes dv.repr then totalHostStringBytes rest total activation
    else if (bareVariableUnknownId attributes unknownPatterns dv.name).isSome then
      totalHostStringBytes rest total activation
    else
      match activation.resolve dv.name with
      | (.error e, activation) => (.error e, activation)
      | (.ok none, activation) => totalHostStringBytes rest total activation
      | (.ok (some v), activation) =>
        totalHostStringBytes rest
          ((total + UInt32.ofNat (hostStringBytes wellKnown dv.repr v) + 7) &&& ~~~7) activation

/-- `CountUnknownVariables`. -/
def countUnknownVariables (variables' : List VariableEntry) : ℕ :=
  variables'.countP fun dv => (bareVariableUnknownId attributes unknownPatterns dv.name).isSome

end Total

end CelWasm
