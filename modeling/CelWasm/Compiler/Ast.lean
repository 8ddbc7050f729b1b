import CelWasm.Runtime.Value

/-!
# Compiler/Ast — the checked expression tree

`Expr α` is the expression tree with an annotation from `α` at every node: what the checker and the
passes before have stamped on it. A pass that stamps more maps one annotation type to another.
-/

namespace CelWasm

/-- `Repr`: what the checker found a node's values to be. -/
inductive NodeRepr
  | unknown
  | null
  | bool
  | int
  | uint
  | double
  | string
  | bytes
  | list
  | map
  | message
  | enum
  | duration
  | timestamp
  | type
  | optional
  deriving DecidableEq

/-- A literal. -/
inductive Constant
  | null
  | bool (b : Bool)
  | int (i : Int64)
  | uint (u : UInt64)
  | double (d : Binary64)
  | string (s : List UInt8)
  | bytes (s : List UInt8)
  deriving DecidableEq

/-- The value of a literal. -/
def Constant.value : Constant → CelValue
  | null => .null
  | bool b => .bool b
  | int i => .int i
  | uint u => .uint u
  | double d => .double d
  | string s => .string s
  | bytes s => .bytes s

mutual

/-- **An expression.** A receiver call has its target for first operand; a list and a message literal
say beside their elements which of them are optional. -/
inductive Expr (α : Type) : Type
  | const (ann : α) (value : Constant)
  | ident (ann : α) (name : String)
  | select (ann : α) (operand : Expr α) (field : String) (testOnly : Bool)
  | call (ann : α) (function : String) (receiver : Bool) (operands : List (Expr α))
  | list (ann : α) (elements : List (Expr α)) (optionals : List Bool)
  | map (ann : α) (entries : MapEntries α)
  | struct (ann : α) (name : String) (fields : List (String × Bool)) (values : List (Expr α))
  | comprehension (ann : α) (iterVar iterVar2 accuVar : String)
      (iterRange accuInit loopCondition loopStep result : Expr α)

/-- The entries of a map literal, in order. -/
inductive MapEntries (α : Type) : Type
  | nil
  | cons (optional : Bool) (key value : Expr α) (rest : MapEntries α)

end

namespace Expr

variable {α : Type}

/-- The annotation of a node. -/
def ann : Expr α → α
  | const a _ | ident a _ | select a _ _ _ | call a _ _ _ | list a _ _ | map a _ | struct a _ _ _
  | comprehension a _ _ _ _ _ _ _ _ => a

/-- Another annotation at the root. -/
def modifyAnn (f : α → α) : Expr α → Expr α
  | const a c => const (f a) c
  | ident a name => ident (f a) name
  | select a operand field testOnly => select (f a) operand field testOnly
  | call a function receiver operands => call (f a) function receiver operands
  | list a elements optionals => list (f a) elements optionals
  | map a entries => map (f a) entries
  | struct a name fields values => struct (f a) name fields values
  | comprehension a iterVar iterVar2 accuVar iterRange accuInit loopCondition loopStep result =>
    comprehension (f a) iterVar iterVar2 accuVar iterRange accuInit loopCondition loopStep result

@[simp] theorem ann_modifyAnn (f : α → α) (e : Expr α) : (e.modifyAnn f).ann = f e.ann := by
  cases e <;> rfl

/-- `IsIdentNamed`. -/
def isIdentNamed (name : String) : Expr α → Bool
  | ident _ name' => name' == name
  | _ => false

end Expr

/-- The entries as a list of flag, key and value. -/
def MapEntries.toList {α : Type} : MapEntries α → List (Bool × Expr α × Expr α)
  | nil => []
  | cons optional key value rest => (optional, key, value) :: rest.toList

variable {α β : Type}

mutual

/-- Another annotation at every node. -/
def Expr.mapAnn (f : α → β) : Expr α → Expr β
  | .const a c => .const (f a) c
  | .ident a name => .ident (f a) name
  | .select a operand field testOnly => .select (f a) (operand.mapAnn f) field testOnly
  | .call a function receiver operands => .call (f a) function receiver (mapAnnList f operands)
  | .list a elements optionals => .list (f a) (mapAnnList f elements) optionals
  | .map a entries => .map (f a) (entries.mapAnn f)
  | .struct a name fields values => .struct (f a) name fields (mapAnnList f values)
  | .comprehension a iterVar iterVar2 accuVar iterRange accuInit loopCondition loopStep result =>
    .comprehension (f a) iterVar iterVar2 accuVar (iterRange.mapAnn f) (accuInit.mapAnn f)
      (loopCondition.mapAnn f) (loopStep.mapAnn f) (result.mapAnn f)

def mapAnnList (f : α → β) : List (Expr α) → List (Expr β)
  | [] => []
  | e :: es => e.mapAnn f :: mapAnnList f es

def MapEntries.mapAnn (f : α → β) : MapEntries α → MapEntries β
  | .nil => .nil
  | .cons optional key value rest => .cons optional (key.mapAnn f) (value.mapAnn f) (rest.mapAnn f)

end

mutual

/-- **A property of every node** of an expression. -/
def Expr.Forall (P : Expr α → Prop) : Expr α → Prop
  | .const a c => P (.const a c)
  | .ident a name => P (.ident a name)
  | .select a operand field testOnly => P (.select a operand field testOnly) ∧ operand.Forall P
  | .call a function receiver operands =>
    P (.call a function receiver operands) ∧ ForallList P operands
  | .list a elements optionals => P (.list a elements optionals) ∧ ForallList P elements
  | .map a entries => P (.map a entries) ∧ entries.Forall P
  | .struct a name fields values => P (.struct a name fields values) ∧ ForallList P values
  | .comprehension a iterVar iterVar2 accuVar iterRange accuInit loopCondition loopStep result =>
    P (.comprehension a iterVar iterVar2 accuVar iterRange accuInit loopCondition loopStep result) ∧
      iterRange.Forall P ∧ accuInit.Forall P ∧ loopCondition.Forall P ∧ loopStep.Forall P ∧
      result.Forall P

def ForallList (P : Expr α → Prop) : List (Expr α) → Prop
  | [] => True
  | e :: es => e.Forall P ∧ ForallList P es

def MapEntries.Forall (P : Expr α → Prop) : MapEntries α → Prop
  | .nil => True
  | .cons _ key value rest => key.Forall P ∧ value.Forall P ∧ rest.Forall P

end

/-- A change at the root that the second annotation does not see. -/
theorem Expr.mapAnn_modifyAnn {g : α → β} {f : α → α} (h : ∀ a, g (f a) = g a) (e : Expr α) :
    (e.modifyAnn f).mapAnn g = e.mapAnn g := by
  cases e <;> simp only [Expr.modifyAnn, Expr.mapAnn, h]

mutual

theorem Expr.Forall.imp {P Q : Expr α → Prop} (h : ∀ e, P e → Q e) :
    ∀ {e : Expr α}, e.Forall P → e.Forall Q
  | .const _ _, he => h _ he
  | .ident _ _, he => h _ he
  | .select _ _ _ _, ⟨he, hs⟩ => ⟨h _ he, hs.imp h⟩
  | .call _ _ _ _, ⟨he, hs⟩ => ⟨h _ he, ForallList.imp h hs⟩
  | .list _ _ _, ⟨he, hs⟩ => ⟨h _ he, ForallList.imp h hs⟩
  | .map _ _, ⟨he, hs⟩ => ⟨h _ he, hs.imp h⟩
  | .struct _ _ _ _, ⟨he, hs⟩ => ⟨h _ he, ForallList.imp h hs⟩
  | .comprehension .., ⟨he, h₁, h₂, h₃, h₄, h₅⟩ =>
    ⟨h _ he, h₁.imp h, h₂.imp h, h₃.imp h, h₄.imp h, h₅.imp h⟩

theorem ForallList.imp {P Q : Expr α → Prop} (h : ∀ e, P e → Q e) :
    ∀ {es : List (Expr α)}, ForallList P es → ForallList Q es
  | [], _ => trivial
  | _ :: _, ⟨he, hes⟩ => ⟨he.imp h, ForallList.imp h hes⟩

theorem MapEntries.Forall.imp {P Q : Expr α → Prop} (h : ∀ e, P e → Q e) :
    ∀ {entries : MapEntries α}, entries.Forall P → entries.Forall Q
  | .nil, _ => trivial
  | .cons _ _ _ _, ⟨hk, hv, hrest⟩ => ⟨hk.imp h, hv.imp h, hrest.imp h⟩

end

/-- The property at the root. -/
theorem Expr.Forall.root {P : Expr α → Prop} {e : Expr α} (h : e.Forall P) : P e := by
  cases e <;> first | exact h | exact h.1

/-- The property again after a change at the root, if the root still has it. -/
theorem Expr.Forall.modifyAnn {P : Expr α → Prop} {f : α → α} {e : Expr α} (h : e.Forall P)
    (hroot : P (e.modifyAnn f)) : (e.modifyAnn f).Forall P := by
  cases e <;> first | exact hroot | exact ⟨hroot, h.2⟩

/-- The fields of a comprehension. -/
structure ComprehensionExpr (α : Type) where
  iterVar : String
  iterVar2 : String
  iterRange : Expr α
  accuVar : String
  accuInit : Expr α
  loopCondition : Expr α
  loopStep : Expr α
  result : Expr α

end CelWasm
