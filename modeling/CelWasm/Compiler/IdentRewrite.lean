import CelWasm.Compiler.IdentResolver
import CelWasm.Compiler.LiteralBuild

/-!
# Compiler/IdentRewrite — passes that replace identifiers

A pass over the identifiers visits every one of them and leaves the rest of the expression alone.
What it replaces may depend on the names in scope where the identifier stands. If each identifier is
replaced by an expression of the same meaning, so is the whole, for whatever the operations mean.
-/

namespace CelWasm

/-- The names of a comprehension in scope in its loop. -/
def loopNames (iterVar iterVar2 accuVar : String) : List String :=
  (loopFrame iterVar iterVar2 accuVar () () ()).map Prod.fst

/-- The frame of a loop has the names of its variables. -/
theorem map_fst_loopFrame {α : Type} (iterVar iterVar2 accuVar : String) (iter iter2 accu : α) :
    (loopFrame iterVar iterVar2 accuVar iter iter2 accu).map Prod.fst
      = loopNames iterVar iterVar2 accuVar := by
  unfold loopNames loopFrame
  split_ifs <;> rfl

/-! ## The walk -/

section Visit

variable (rewrite : ℤ → String → Outcome (Expr ℤ))

mutual

/-- The walk of `VisitInlineConstantChildren`, with `rewrite` at the identifiers. -/
def visitIdents : Expr ℤ → Outcome (Expr ℤ)
  | .const id c => return .const id c
  | .ident id name => rewrite id name
  | .select id operand field testOnly => return .select id (← visitIdents operand) field testOnly
  | .call id function receiver operands =>
    return .call id function receiver (← visitIdentsAll operands)
  | .list id elements optionals => return .list id (← visitIdentsAll elements) optionals
  | .map id entries => return .map id (← visitIdentsEntries entries)
  | .struct id name fields values => return .struct id name fields (← visitIdentsAll values)
  | .comprehension id iterVar iterVar2 accuVar iterRange accuInit loopCondition loopStep
      result => do
    let iterRange ← visitIdents iterRange
    let accuInit ← visitIdents accuInit
    let loopCondition ← visitIdents loopCondition
    let loopStep ← visitIdents loopStep
    let result ← visitIdents result
    return .comprehension id iterVar iterVar2 accuVar iterRange accuInit loopCondition loopStep
      result

/-- Nodes in order. -/
def visitIdentsAll : List (Expr ℤ) → Outcome (List (Expr ℤ))
  | [] => return []
  | e :: rest => return (← visitIdents e) :: (← visitIdentsAll rest)

/-- The keys and values of a map literal, in order. -/
def visitIdentsEntries : MapEntries ℤ → Outcome (MapEntries ℤ)
  | .nil => return .nil
  | .cons optional key value rest =>
    return .cons optional (← visitIdents key) (← visitIdents value) (← visitIdentsEntries rest)

end

end Visit

/-! ## Identifiers in scope -/

section Scopes

variable (P : List String → ℤ → String → Prop)

mutual

/-- **A property of every identifier**, with the names in scope where it stands. -/
def Expr.ForallIdents : List String → Expr ℤ → Prop
  | _, .const _ _ => True
  | scope, .ident id name => P scope id name
  | scope, .select _ operand _ _ => operand.ForallIdents scope
  | scope, .call _ _ _ operands => ForallIdentsAll scope operands
  | scope, .list _ elements _ => ForallIdentsAll scope elements
  | scope, .map _ entries => entries.ForallIdents scope
  | scope, .struct _ _ _ values => ForallIdentsAll scope values
  | scope, .comprehension _ iterVar iterVar2 accuVar iterRange accuInit loopCondition loopStep
      result =>
    iterRange.ForallIdents scope ∧ accuInit.ForallIdents scope ∧
      loopCondition.ForallIdents (loopNames iterVar iterVar2 accuVar ++ scope) ∧
      loopStep.ForallIdents (loopNames iterVar iterVar2 accuVar ++ scope) ∧
      result.ForallIdents (accuVar :: scope)

def ForallIdentsAll : List String → List (Expr ℤ) → Prop
  | _, [] => True
  | scope, e :: rest => e.ForallIdents scope ∧ ForallIdentsAll scope rest

def MapEntries.ForallIdents : List String → MapEntries ℤ → Prop
  | _, .nil => True
  | scope, .cons _ key value rest =>
    key.ForallIdents scope ∧ value.ForallIdents scope ∧ rest.ForallIdents scope

end

end Scopes

section Replaced

variable (R : List String → ℤ → String → Expr ℤ → Prop)

mutual

/-- **The second expression is the first with identifiers replaced**, each as `R` allows. -/
inductive Replaced : List String → Expr ℤ → Expr ℤ → Prop
  | const (scope : List String) (id : ℤ) (c : Constant) :
    Replaced scope (.const id c) (.const id c)
  | ident {scope : List String} {id : ℤ} {name : String} {e' : Expr ℤ} (h : R scope id name e') :
    Replaced scope (.ident id name) e'
  | select {scope : List String} {operand operand' : Expr ℤ} (id : ℤ) (field : String)
    (testOnly : Bool) (h : Replaced scope operand operand') :
    Replaced scope (.select id operand field testOnly) (.select id operand' field testOnly)
  | call {scope : List String} {operands operands' : List (Expr ℤ)} (id : ℤ) (function : String)
    (receiver : Bool) (h : ReplacedAll scope operands operands') :
    Replaced scope (.call id function receiver operands) (.call id function receiver operands')
  | list {scope : List String} {elements elements' : List (Expr ℤ)} (id : ℤ)
    (optionals : List Bool) (h : ReplacedAll scope elements elements') :
    Replaced scope (.list id elements optionals) (.list id elements' optionals)
  | map {scope : List String} {entries entries' : MapEntries ℤ} (id : ℤ)
    (h : ReplacedEntries scope entries entries') :
    Replaced scope (.map id entries) (.map id entries')
  | struct {scope : List String} {values values' : List (Expr ℤ)} (id : ℤ) (name : String)
    (fields : List (String × Bool)) (h : ReplacedAll scope values values') :
    Replaced scope (.struct id name fields values) (.struct id name fields values')
  | comprehension {scope : List String} {range range' init init' cond cond' step step' result
      result' : Expr ℤ} (id : ℤ) (iterVar iterVar2 accuVar : String)
    (hrange : Replaced scope range range') (hinit : Replaced scope init init')
    (hcond : Replaced (loopNames iterVar iterVar2 accuVar ++ scope) cond cond')
    (hstep : Replaced (loopNames iterVar iterVar2 accuVar ++ scope) step step')
    (hresult : Replaced (accuVar :: scope) result result') :
    Replaced scope (.comprehension id iterVar iterVar2 accuVar range init cond step result)
      (.comprehension id iterVar iterVar2 accuVar range' init' cond' step' result')

inductive ReplacedAll : List String → List (Expr ℤ) → List (Expr ℤ) → Prop
  | nil (scope : List String) : ReplacedAll scope [] []
  | cons {scope : List String} {e e' : Expr ℤ} {rest rest' : List (Expr ℤ)}
    (h : Replaced scope e e') (hrest : ReplacedAll scope rest rest') :
    ReplacedAll scope (e :: rest) (e' :: rest')

inductive ReplacedEntries : List String → MapEntries ℤ → MapEntries ℤ → Prop
  | nil (scope : List String) : ReplacedEntries scope .nil .nil
  | cons {scope : List String} {key key' value value' : Expr ℤ} {rest rest' : MapEntries ℤ}
    (optional : Bool) (hkey : Replaced scope key key') (hvalue : Replaced scope value value')
    (hrest : ReplacedEntries scope rest rest') :
    ReplacedEntries scope (.cons optional key value rest) (.cons optional key' value' rest')

end

variable {R}

/-- **Replacing goes below every node alone**: of a select it is replacing in the operand, -/
theorem replaced_select_iff {scope : List String} {id : ℤ} {operand operand' : Expr ℤ}
    {field : String} {testOnly : Bool} :
    Replaced R scope (.select id operand field testOnly) (.select id operand' field testOnly) ↔
      Replaced R scope operand operand' :=
  ⟨fun h => by cases h; assumption, .select id field testOnly⟩

/-- …of a call in the operands, -/
theorem replaced_call_iff {scope : List String} {id : ℤ} {function : String} {receiver : Bool}
    {operands operands' : List (Expr ℤ)} :
    Replaced R scope (.call id function receiver operands) (.call id function receiver operands') ↔
      ReplacedAll R scope operands operands' :=
  ⟨fun h => by cases h; assumption, .call id function receiver⟩

theorem replaced_list_iff {scope : List String} {id : ℤ} {elements elements' : List (Expr ℤ)}
    {optionals : List Bool} :
    Replaced R scope (.list id elements optionals) (.list id elements' optionals) ↔
      ReplacedAll R scope elements elements' :=
  ⟨fun h => by cases h; assumption, .list id optionals⟩

theorem replaced_map_iff {scope : List String} {id : ℤ} {entries entries' : MapEntries ℤ} :
    Replaced R scope (.map id entries) (.map id entries') ↔
      ReplacedEntries R scope entries entries' :=
  ⟨fun h => by cases h; assumption, .map id⟩

theorem replaced_struct_iff {scope : List String} {id : ℤ} {name : String}
    {fields : List (String × Bool)} {values values' : List (Expr ℤ)} :
    Replaced R scope (.struct id name fields values) (.struct id name fields values') ↔
      ReplacedAll R scope values values' :=
  ⟨fun h => by cases h; assumption, .struct id name fields⟩

/-- **In a comprehension** the range and the start are outside the loop's scope, and the condition,
the step and the result inside it. -/
theorem replaced_comprehension_iff {scope : List String} {id : ℤ}
    {iterVar iterVar2 accuVar : String}
    {range range' init init' cond cond' step step' result result' : Expr ℤ} :
    Replaced R scope (.comprehension id iterVar iterVar2 accuVar range init cond step result)
        (.comprehension id iterVar iterVar2 accuVar range' init' cond' step' result') ↔
      Replaced R scope range range' ∧ Replaced R scope init init' ∧
        Replaced R (loopNames iterVar iterVar2 accuVar ++ scope) cond cond' ∧
        Replaced R (loopNames iterVar iterVar2 accuVar ++ scope) step step' ∧
        Replaced R (accuVar :: scope) result result' := by
  constructor
  · intro h
    cases h
    exact ⟨‹_›, ‹_›, ‹_›, ‹_›, ‹_›⟩
  · rintro ⟨hrange, hinit, hcond, hstep, hresult⟩
    exact .comprehension id iterVar iterVar2 accuVar hrange hinit hcond hstep hresult

/-- Lists are replaced in element by element. -/
theorem replacedAll_cons_iff {scope : List String} {e e' : Expr ℤ} {rest rest' : List (Expr ℤ)} :
    ReplacedAll R scope (e :: rest) (e' :: rest') ↔
      Replaced R scope e e' ∧ ReplacedAll R scope rest rest' :=
  ⟨fun h => by cases h; exact ⟨‹_›, ‹_›⟩, fun h => .cons h.1 h.2⟩

theorem replacedEntries_cons_iff {scope : List String} {optional : Bool}
    {key key' value value' : Expr ℤ} {rest rest' : MapEntries ℤ} :
    ReplacedEntries R scope (.cons optional key value rest) (.cons optional key' value' rest') ↔
      Replaced R scope key key' ∧ Replaced R scope value value' ∧
        ReplacedEntries R scope rest rest' :=
  ⟨fun h => by cases h; exact ⟨‹_›, ‹_›, ‹_›⟩, fun h => .cons optional h.1 h.2.1 h.2.2⟩

end Replaced

/-! ## What a walk yields -/

/-- A pass succeeds with a value that has the property. -/
def Yields {α : Type} (A : α → Prop) (x : Outcome α) : Prop := ∃ a, x = .ok a ∧ A a

section Yields

variable {α β : Type} {A B : α → Prop} {x : Outcome α} {p : Prop}

/-- A result yields what it satisfies, -/
theorem yields_pure {a : α} : Yields A (pure a) ↔ A a :=
  ⟨fun ⟨_, heq, h⟩ => Except.ok.inj heq ▸ h, fun h => ⟨a, rfl, h⟩⟩

/-- …and a sequence what its second part yields of the result of the first. -/
theorem yields_bind {f : α → Outcome β} {A : β → Prop} :
    Yields A (x >>= f) ↔ Yields (fun a => Yields A (f a)) x := by
  cases x with
  | ok a => exact (@yields_pure α (fun a => Yields A (f a)) a).symm
  | error e =>
    refine iff_of_false ?_ ?_
    · rintro ⟨_, heq, _⟩
      exact nomatch heq
    · rintro ⟨_, heq, _⟩
      exact nomatch heq

/-- What does not depend on the result can be taken out. -/
theorem yields_and_left : Yields (fun a => p ∧ A a) x ↔ p ∧ Yields A x :=
  ⟨fun ⟨a, heq, hp, h⟩ => ⟨hp, a, heq, h⟩, fun ⟨hp, a, heq, h⟩ => ⟨a, heq, hp, h⟩⟩

theorem yields_and_right : Yields (fun a => A a ∧ p) x ↔ Yields A x ∧ p :=
  ⟨fun ⟨a, heq, h, hp⟩ => ⟨⟨a, heq, h⟩, hp⟩, fun ⟨⟨a, heq, h⟩, hp⟩ => ⟨a, heq, h, hp⟩⟩

end Yields

section Visited

variable {rewrite : ℤ → String → Outcome (Expr ℤ)} {R : List String → ℤ → String → Expr ℤ → Prop}

mutual

/-- **A walk does what is allowed exactly when it does at every identifier.** -/
theorem yields_visitIdents_iff : ∀ (e : Expr ℤ) {scope : List String},
    Yields (Replaced R scope e) (visitIdents rewrite e) ↔
      e.ForallIdents (fun scope id name => Yields (R scope id name) (rewrite id name)) scope
  | .const id c, scope => iff_of_true ⟨_, rfl, .const scope id c⟩ trivial
  | .ident id name, scope =>
    ⟨fun ⟨e', heq, h⟩ => ⟨e', heq, by cases h; assumption⟩, fun ⟨e', heq, h⟩ => ⟨e', heq, .ident h⟩⟩
  | .select id operand field testOnly, scope => by
    rw [visitIdents, yields_bind, Expr.ForallIdents, ← yields_visitIdents_iff operand]
    simp only [yields_pure, replaced_select_iff]
  | .call id function receiver operands, scope => by
    rw [visitIdents, yields_bind, Expr.ForallIdents, ← yields_visitIdentsAll_iff operands]
    simp only [yields_pure, replaced_call_iff]
  | .list id elements optionals, scope => by
    rw [visitIdents, yields_bind, Expr.ForallIdents, ← yields_visitIdentsAll_iff elements]
    simp only [yields_pure, replaced_list_iff]
  | .map id entries, scope => by
    rw [visitIdents, yields_bind, Expr.ForallIdents, ← yields_visitIdentsEntries_iff entries]
    simp only [yields_pure, replaced_map_iff]
  | .struct id name fields values, scope => by
    rw [visitIdents, yields_bind, Expr.ForallIdents, ← yields_visitIdentsAll_iff values]
    simp only [yields_pure, replaced_struct_iff]
  | .comprehension id iterVar iterVar2 accuVar range init cond step result, scope => by
    rw [visitIdents, Expr.ForallIdents, ← yields_visitIdents_iff range,
      ← yields_visitIdents_iff init, ← yields_visitIdents_iff cond, ← yields_visitIdents_iff step,
      ← yields_visitIdents_iff result]
    simp only [yields_bind, yields_pure, replaced_comprehension_iff, yields_and_left,
      yields_and_right]

/-- **The pass replaces in a list of expressions** exactly where it may at each identifier, -/
theorem yields_visitIdentsAll_iff : ∀ (es : List (Expr ℤ)) {scope : List String},
    Yields (ReplacedAll R scope es) (visitIdentsAll rewrite es) ↔
      ForallIdentsAll (fun scope id name => Yields (R scope id name) (rewrite id name)) scope es
  | [], scope => iff_of_true ⟨_, rfl, .nil scope⟩ trivial
  | e :: rest, scope => by
    rw [visitIdentsAll, ForallIdentsAll, ← yields_visitIdents_iff e,
      ← yields_visitIdentsAll_iff rest]
    simp only [yields_bind, yields_pure, replacedAll_cons_iff, yields_and_left, yields_and_right]

/-- …and in the entries of a map. -/
theorem yields_visitIdentsEntries_iff : ∀ (entries : MapEntries ℤ) {scope : List String},
    Yields (ReplacedEntries R scope entries) (visitIdentsEntries rewrite entries) ↔
      entries.ForallIdents (fun scope id name => Yields (R scope id name) (rewrite id name)) scope
  | .nil, scope => iff_of_true ⟨_, rfl, .nil scope⟩ trivial
  | .cons optional key value rest, scope => by
    rw [visitIdentsEntries, MapEntries.ForallIdents, ← yields_visitIdents_iff key,
      ← yields_visitIdents_iff value, ← yields_visitIdentsEntries_iff rest]
    simp only [yields_bind, yields_pure, replacedEntries_cons_iff, yields_and_left,
      yields_and_right]

end

end Visited

section Congr

variable {C P Q : List String → ℤ → String → Prop}

mutual

/-- Properties that agree wherever `C` holds. -/
theorem Expr.forallIdents_congr (h : ∀ scope id name, C scope id name →
    (P scope id name ↔ Q scope id name)) : ∀ {e : Expr ℤ} {scope : List String},
    e.ForallIdents C scope → (e.ForallIdents P scope ↔ e.ForallIdents Q scope)
  | .const _ _, _, _ => Iff.rfl
  | .ident id name, scope, hC => h scope id name hC
  | .select _ operand _ _, _, hC => @Expr.forallIdents_congr h operand _ hC
  | .call _ _ _ operands, _, hC => @forallIdentsAll_congr h operands _ hC
  | .list _ elements _, _, hC => @forallIdentsAll_congr h elements _ hC
  | .map _ entries, _, hC => @forallIdentsEntries_congr h entries _ hC
  | .struct _ _ _ values, _, hC => @forallIdentsAll_congr h values _ hC
  | .comprehension .., _, ⟨h₁, h₂, h₃, h₄, h₅⟩ =>
    and_congr (Expr.forallIdents_congr h h₁) (and_congr (Expr.forallIdents_congr h h₂)
      (and_congr (Expr.forallIdents_congr h h₃) (and_congr (Expr.forallIdents_congr h h₄)
        (Expr.forallIdents_congr h h₅))))

/-- Conditions that are the same at every identifier are the same of a list of expressions. -/
theorem forallIdentsAll_congr (h : ∀ scope id name, C scope id name →
    (P scope id name ↔ Q scope id name)) : ∀ {es : List (Expr ℤ)} {scope : List String},
    ForallIdentsAll C scope es → (ForallIdentsAll P scope es ↔ ForallIdentsAll Q scope es)
  | [], _, _ => Iff.rfl
  | _ :: _, _, ⟨he, hrest⟩ =>
    and_congr (Expr.forallIdents_congr h he) (forallIdentsAll_congr h hrest)

theorem forallIdentsEntries_congr (h : ∀ scope id name, C scope id name →
    (P scope id name ↔ Q scope id name)) : ∀ {entries : MapEntries ℤ} {scope : List String},
    entries.ForallIdents C scope → (entries.ForallIdents P scope ↔ entries.ForallIdents Q scope)
  | .nil, _, _ => Iff.rfl
  | .cons _ _ _ _, _, ⟨hk, hv, hrest⟩ =>
    and_congr (Expr.forallIdents_congr h hk)
      (and_congr (Expr.forallIdents_congr h hv) (forallIdentsEntries_congr h hrest))

end

end Congr

/-! ## Meaning -/

/-- **What the operations mean**: any way to make a meaning of an expression from those of its
parts. A comprehension is given its range, its accumulator's first value, and what its loop and its
result come to for each value of its variables. -/
structure Interpretation (V : Type) where
  value : CelValue → V
  select : ℤ → V → String → Bool → V
  call : ℤ → String → Bool → List V → V
  list : ℤ → List V → List Bool → V
  map : ℤ → List (Bool × V × V) → V
  struct : ℤ → String → List (String × Bool) → List V → V
  comprehension : ℤ → V → V → (V → V → V → V) → (V → V → V → V) → (V → V) → V

section Meaning

variable {V : Type} (types : TypeMap) (S : Interpretation V) (globals : String → V)

/-- The meaning of a name: past a leading dot that of the global. -/
def meaningOfIdent (locals : List (String × V)) (name : String) : V :=
  match leadingDot name with
  | some global => globals global
  | none => (locals.lookup name).getD (globals name)

mutual

/-- **The meaning of an expression**, by those of the names. -/
def meaning : List (String × V) → Expr ℤ → V
  | _, .const id c => S.value (constValue (nodeRepr types id) c)
  | locals, .ident _ name => meaningOfIdent globals locals name
  | locals, .select id operand field testOnly => S.select id (meaning locals operand) field testOnly
  | locals, .call id function receiver operands =>
    S.call id function receiver (meaningAll locals operands)
  | locals, .list id elements optionals => S.list id (meaningAll locals elements) optionals
  | locals, .map id entries => S.map id (meaningEntries locals entries)
  | locals, .struct id name fields values => S.struct id name fields (meaningAll locals values)
  | locals, .comprehension id iterVar iterVar2 accuVar iterRange accuInit loopCondition loopStep
      result =>
    S.comprehension id (meaning locals iterRange) (meaning locals accuInit)
      (fun iter iter2 accu =>
        meaning (loopFrame iterVar iterVar2 accuVar iter iter2 accu ++ locals) loopCondition)
      (fun iter iter2 accu =>
        meaning (loopFrame iterVar iterVar2 accuVar iter iter2 accu ++ locals) loopStep)
      (fun accu => meaning ((accuVar, accu) :: locals) result)

def meaningAll : List (String × V) → List (Expr ℤ) → List V
  | _, [] => []
  | locals, e :: rest => meaning locals e :: meaningAll locals rest

def meaningEntries : List (String × V) → MapEntries ℤ → List (Bool × V × V)
  | _, .nil => []
  | locals, .cons optional key value rest =>
    (optional, meaning locals key, meaning locals value) :: meaningEntries locals rest

end

/-- What is put for an identifier means what the identifier does. -/
def KeepsMeaning (R : List String → ℤ → String → Expr ℤ → Prop) : Prop :=
  ∀ scope id name e', R scope id name e' → ∀ locals : List (String × V),
    locals.map Prod.fst = scope →
      meaning types S globals locals e' = meaningOfIdent globals locals name

variable {types S globals} {R : List String → ℤ → String → Expr ℤ → Prop}

mutual

/-- **Replacing identifiers by expressions of the same meaning** leaves the meaning as it is. -/
theorem Replaced.meaning_eq (hR : KeepsMeaning types S globals R) :
    ∀ {scope : List String} {e e' : Expr ℤ}, Replaced R scope e e' →
    ∀ {locals : List (String × V)}, locals.map Prod.fst = scope →
      meaning types S globals locals e' = meaning types S globals locals e
  | _, _, _, .const _ _ _, _, _ => rfl
  | _, _, _, .ident h, locals, hscope => hR _ _ _ _ h locals hscope
  | _, _, _, .select _ _ _ h, _, hscope => by
    rw [meaning, meaning, h.meaning_eq hR hscope]
  | _, _, _, .call _ _ _ h, _, hscope => by
    rw [meaning, meaning, h.meaning_eq hR hscope]
  | _, _, _, .list _ _ h, _, hscope => by
    rw [meaning, meaning, h.meaning_eq hR hscope]
  | _, _, _, .map _ h, _, hscope => by
    rw [meaning, meaning, h.meaning_eq hR hscope]
  | _, _, _, .struct _ _ _ h, _, hscope => by
    rw [meaning, meaning, h.meaning_eq hR hscope]
  | _, _, _, .comprehension _ iterVar iterVar2 accuVar hrange hinit hcond hstep hresult, locals,
      hscope => by
    have hloop : ∀ iter iter2 accu : V,
        (loopFrame iterVar iterVar2 accuVar iter iter2 accu ++ locals).map Prod.fst
          = loopNames iterVar iterVar2 accuVar ++ _ := fun iter iter2 accu => by
      rw [List.map_append, map_fst_loopFrame, hscope]
    rw [meaning, meaning, hrange.meaning_eq hR hscope, hinit.meaning_eq hR hscope]
    congr 1
    · funext iter iter2 accu
      exact hcond.meaning_eq hR (hloop iter iter2 accu)
    · funext iter iter2 accu
      exact hstep.meaning_eq hR (hloop iter iter2 accu)
    · funext accu
      exact hresult.meaning_eq hR (by rw [List.map_cons, hscope])

/-- **A list of expressions means what it meant** once identifiers are replaced by what means the
same. -/
theorem ReplacedAll.meaning_eq (hR : KeepsMeaning types S globals R) :
    ∀ {scope : List String} {es es' : List (Expr ℤ)}, ReplacedAll R scope es es' →
    ∀ {locals : List (String × V)}, locals.map Prod.fst = scope →
      meaningAll types S globals locals es' = meaningAll types S globals locals es
  | _, _, _, .nil _, _, _ => rfl
  | _, _, _, .cons h hrest, _, hscope => by
    rw [meaningAll, meaningAll, h.meaning_eq hR hscope, hrest.meaning_eq hR hscope]

theorem ReplacedEntries.meaning_eq (hR : KeepsMeaning types S globals R) :
    ∀ {scope : List String} {entries entries' : MapEntries ℤ},
    ReplacedEntries R scope entries entries' →
    ∀ {locals : List (String × V)}, locals.map Prod.fst = scope →
      meaningEntries types S globals locals entries' = meaningEntries types S globals locals entries
  | _, _, _, .nil _, _, _ => rfl
  | _, _, _, .cons _ hkey hvalue hrest, _, hscope => by
    rw [meaningEntries, meaningEntries, hkey.meaning_eq hR hscope, hvalue.meaning_eq hR hscope,
      hrest.meaning_eq hR hscope]

end

end Meaning

end CelWasm
