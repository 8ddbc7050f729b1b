import CelWasm.Compiler.SubsetGate

/-!
# Compiler/IdentResolver — binding identifiers to local variables

The resolver walks the expression and gives every identifier the index of the variable it refers to:
one of an enclosing comprehension, innermost first, or a free variable, by name. A variable takes
its representation from the first reference, later references are checked against it. If the checker
gives all references to a variable the type of the variable, the only check that can fail is the one
for a representation that is not known.
-/

namespace CelWasm

/-- `ResolvedVariableKind`. -/
inductive ResolvedVariableKind
  | freeVariable
  | comprehensionIter
  | comprehensionAccu
  deriving DecidableEq

/-- `ResolvedVariable`; its index is its place in the list of variables. -/
structure ResolvedVariable where
  name : String
  repr : NodeRepr
  kind : ResolvedVariableKind

/-- `ScopeFrame`: names in scope and the variables they are bound to. -/
structure ScopeFrame where
  frame : List (String × ℕ)
  depth : ℕ

/-- What an identifier is annotated with. -/
structure IdentStamp where
  id : ℤ
  localIndex : ℕ
  scopeId : ℕ

/-- What a comprehension is annotated with. -/
structure ComprehensionStamp where
  id : ℤ
  iterLocalIndex : ℕ
  iterLocalIndex2 : Option ℕ
  accuLocalIndex : ℕ

/-- `ScopedIdentResolver`: the variables, the free names, the scopes from the innermost out, and what
has been annotated. -/
structure ResolverState where
  locals : List ResolvedVariable
  freeNames : List (String × ℕ)
  scopes : List ScopeFrame
  maxScopeId : ℕ
  idents : List IdentStamp
  comprehensions : List ComprehensionStamp

/-- The state the walk starts in. -/
def ResolverState.initial : ResolverState where
  locals := []
  freeNames := []
  scopes := []
  maxScopeId := 0
  idents := []
  comprehensions := []

/-! ## Identifiers -/

/-- The binding of a name: the innermost frame that has it. -/
def findScope (scopes : List ScopeFrame) (name : String) : Option (ℕ × ℕ) :=
  scopes.findSome? fun f => (f.frame.lookup name).map (·, f.depth)

/-- Two frames of the same names bind a name to things that stand for each other. -/
theorem lookup_forall₂ {β γ : Type} {R : β → γ → Prop} {f : List (String × β)}
    {scope : List (String × γ)} (h : List.Forall₂ (fun b c => b.1 = c.1 ∧ R b.2 c.2) f scope)
    (name : String) :
    (f.lookup name = none ∧ scope.lookup name = none) ∨
      ∃ b c, f.lookup name = some b ∧ scope.lookup name = some c ∧ R b c := by
  induction h with
  | nil => exact .inl ⟨rfl, rfl⟩
  | @cons b c f scope hbc _ ih =>
    obtain ⟨bname, b⟩ := b
    obtain ⟨cname, c⟩ := c
    obtain ⟨hname, hR⟩ := hbc
    obtain rfl : bname = cname := hname
    rw [List.lookup_cons, List.lookup_cons]
    cases hsame : name == bname with
    | true => exact .inr ⟨b, c, rfl, rfl, hR⟩
    | false => exact ih

/-- **Frame by frame**, the innermost that has the name is the innermost that has it. -/
theorem findScope_forall₂ {γ : Type} {R : ℕ → γ → Prop} {frames : List ScopeFrame}
    {scopes : List (List (String × γ))}
    (h : List.Forall₂ (fun f scope => List.Forall₂ (fun b c => b.1 = c.1 ∧ R b.2 c.2) f.frame scope)
      frames scopes) (name : String) :
    (findScope frames name = none ∧ scopes.findSome? (fun f => f.lookup name) = none) ∨
      ∃ f ∈ frames, ∃ i c, findScope frames name = some (i, f.depth) ∧
        scopes.findSome? (fun f => f.lookup name) = some c ∧ R i c := by
  induction h with
  | nil => exact .inl ⟨rfl, rfl⟩
  | @cons f scope frames scopes hframe _ ih =>
    obtain ⟨hf, hscope⟩ | ⟨i, c, hf, hscope, hR⟩ := lookup_forall₂ hframe name
    · simp only [findScope, List.findSome?_cons, hf, hscope, Option.map_none]
      refine ih.imp_right fun ⟨g, hg, hrest⟩ => ⟨g, List.mem_cons_of_mem _ hg, hrest⟩
    · refine .inr ⟨f, List.mem_cons_self, i, c, ?_, ?_, hR⟩
      · simp [findScope, hf]
      · simp [hscope]

/-- `TryResolveScope` of a name that is bound: the first reference settles the representation. -/
def resolveScoped (id : ℤ) (repr : NodeRepr) (binding : ℕ × ℕ) (s : ResolverState) :
    Outcome ResolverState :=
  match s.locals[binding.1]? with
  | some v =>
    let stamped := { s with idents := s.idents ++ [⟨id, binding.1, binding.2⟩] }
    if v.repr = .unknown then
      .ok { stamped with locals := s.locals.set binding.1 { v with repr } }
    else if v.repr = repr then .ok stamped
    else .error .abort
  | none => .error .abort

/-- **`ResolveFreeVariable`**. -/
def resolveFreeVariable (id : ℤ) (repr : NodeRepr) (name : String) (s : ResolverState) :
    Outcome ResolverState :=
  match s.freeNames.lookup name with
  | none =>
    let index := s.locals.length
    .ok { s with
      locals := s.locals ++ [⟨name, repr, .freeVariable⟩]
      freeNames := s.freeNames ++ [(name, index)]
      idents := s.idents ++ [⟨id, index, 0⟩] }
  | some index =>
    match s.locals[index]? with
    | some v =>
      if v.repr = repr then .ok { s with idents := s.idents ++ [⟨id, index, 0⟩] }
      else .error .abort
    | none => .error .abort

/-- The name behind a leading dot. -/
def leadingDot (name : String) : Option String :=
  match name.toList with
  | '.' :: rest => some (String.ofList rest)
  | _ => none

variable (types : TypeMap)

/-- **`PostVisitIdent`**. -/
def postVisitIdent (id : ℤ) (name : String) (s : ResolverState) : Outcome ResolverState :=
  let repr := nodeRepr types id
  if repr = .unknown then .error .abort
  else
    match leadingDot name with
    | some global => resolveFreeVariable id repr global s
    | none =>
      match findScope s.scopes name with
      | some binding => resolveScoped id repr binding s
      | none => resolveFreeVariable id repr name s

/-! ## Comprehensions -/

/-- The names of a comprehension in scope in its loop, with what each is bound to. A name that stands
twice keeps the first. -/
def loopFrame {α : Type} (iterVar iterVar2 accuVar : String) (iter iter2 accu : α) :
    List (String × α) :=
  (iterVar, iter) :: (if iterVar2 = "" then [] else [(iterVar2, iter2)]) ++ [(accuVar, accu)]

/-- `IterKindsFor`. -/
def iterKindsFor (mapSource twoIter : Bool) : ResolvedVariableKind × ResolvedVariableKind :=
  if mapSource then (.comprehensionAccu, .comprehensionAccu)
  else if twoIter then (.comprehensionAccu, .comprehensionIter)
  else (.comprehensionIter, .comprehensionIter)

/-- The variables of a comprehension. -/
def comprehensionVariables (iterVar iterVar2 accuVar : String) (mapSource : Bool) :
    List ResolvedVariable :=
  let kinds := iterKindsFor mapSource (iterVar2 != "")
  ⟨iterVar, .unknown, kinds.1⟩ ::
    (if iterVar2 = "" then [] else [⟨iterVar2, .unknown, kinds.2⟩]) ++
    [⟨accuVar, .unknown, .comprehensionAccu⟩]

/-- The index of the accumulator, the last variable of a comprehension. -/
def accuIndex (base : ℕ) (iterVar2 : String) : ℕ := if iterVar2 = "" then base + 1 else base + 2

/-- `PreVisitComprehension`. -/
def preVisitComprehension (id : ℤ) (iterVar iterVar2 accuVar : String) (rangeRepr : NodeRepr)
    (s : ResolverState) : ResolverState :=
  let base := s.locals.length
  { s with
    locals := s.locals ++
      comprehensionVariables iterVar iterVar2 accuVar (rangeRepr == .map)
    comprehensions := s.comprehensions ++
      [⟨id, base, if iterVar2 = "" then none else some (base + 1), accuIndex base iterVar2⟩] }

/-- A scope is entered. -/
def enterScope (frame : List (String × ℕ)) (s : ResolverState) : ResolverState :=
  let depth := s.scopes.length + 1
  { s with scopes := ⟨frame, depth⟩ :: s.scopes, maxScopeId := max s.maxScopeId depth }

/-- A scope is left. -/
def leaveScope (s : ResolverState) : ResolverState := { s with scopes := s.scopes.tail }

/-! ## The walk -/

mutual

/-- **The walk of `ScopedIdentResolver`** over an expression. -/
def resolveIdents : Expr ℤ → ResolverState → Outcome ResolverState
  | .const _ _, s => .ok s
  | .ident id name, s => postVisitIdent types id name s
  | .select _ operand _ _, s => resolveIdents operand s
  | .call _ _ _ operands, s => resolveAll operands s
  | .list _ elements _, s => resolveAll elements s
  | .map _ entries, s => resolveEntries entries s
  | .struct _ _ _ values, s => resolveAll values s
  | .comprehension id iterVar iterVar2 accuVar iterRange accuInit loopCondition loopStep result,
      s => do
    let base := s.locals.length
    let accu := accuIndex base iterVar2
    let s := preVisitComprehension id iterVar iterVar2 accuVar (nodeRepr types iterRange.ann) s
    let s ← resolveIdents iterRange s
    let s ← resolveIdents accuInit s
    let s := enterScope (loopFrame iterVar iterVar2 accuVar base (base + 1) accu) s
    let s ← resolveIdents loopCondition s
    let s ← resolveIdents loopStep s
    let s := enterScope [(accuVar, accu)] (leaveScope s)
    let s ← resolveIdents result s
    return leaveScope s

/-- Nodes in order. -/
def resolveAll : List (Expr ℤ) → ResolverState → Outcome ResolverState
  | [], s => .ok s
  | e :: rest, s => do
    let s ← resolveIdents e s
    resolveAll rest s

/-- The keys and values of a map literal, in order. -/
def resolveEntries : MapEntries ℤ → ResolverState → Outcome ResolverState
  | .nil, s => .ok s
  | .cons _ key value rest, s => do
    let s ← resolveIdents key s
    let s ← resolveIdents value s
    resolveEntries rest s

end

/-! ## What the checker promises -/

section Typing

variable (globals : String → NodeRepr)

/-- The representation of a name: that of the innermost variable of the name, or of the global one. -/
def nameRepr (scopes : List (List (String × NodeRepr))) (name : String) : NodeRepr :=
  match leadingDot name with
  | some global => globals global
  | none => (scopes.findSome? fun frame => frame.lookup name).getD (globals name)

mutual

/-- **References to a variable have the type of the variable**: the checker types an identifier by the
innermost variable of its name, and past a leading dot by the global one. -/
def TypedIn : List (List (String × NodeRepr)) → Expr ℤ → Prop
  | _, .const _ _ => True
  | scopes, .ident id name => nodeRepr types id = nameRepr globals scopes name
  | scopes, .select _ operand _ _ => TypedIn scopes operand
  | scopes, .call _ _ _ operands => TypedInAll scopes operands
  | scopes, .list _ elements _ => TypedInAll scopes elements
  | scopes, .map _ entries => TypedInEntries scopes entries
  | scopes, .struct _ _ _ values => TypedInAll scopes values
  | scopes, .comprehension _ iterVar iterVar2 accuVar iterRange accuInit loopCondition loopStep
      result =>
    ∃ iter iter2 accu : NodeRepr,
      TypedIn scopes iterRange ∧ TypedIn scopes accuInit ∧
      TypedIn (loopFrame iterVar iterVar2 accuVar iter iter2 accu :: scopes) loopCondition ∧
      TypedIn (loopFrame iterVar iterVar2 accuVar iter iter2 accu :: scopes) loopStep ∧
      TypedIn ([(accuVar, accu)] :: scopes) result

/-- All of a list. -/
def TypedInAll : List (List (String × NodeRepr)) → List (Expr ℤ) → Prop
  | _, [] => True
  | scopes, e :: rest => TypedIn scopes e ∧ TypedInAll scopes rest

/-- All keys and values of a map literal. -/
def TypedInEntries : List (List (String × NodeRepr)) → MapEntries ℤ → Prop
  | _, .nil => True
  | scopes, .cons _ key value rest =>
    TypedIn scopes key ∧ TypedIn scopes value ∧ TypedInEntries scopes rest

end

end Typing

/-! ## The invariant of the walk -/

/-- The frames of the resolver bind the names of the scopes, each to a variable of its
representation. -/
def FrameBinds (reprs : List NodeRepr) (f : List (String × ℕ)) (scope : List (String × NodeRepr)) :
    Prop :=
  List.Forall₂ (fun i r => i.1 = r.1 ∧ reprs[i.2]? = some r.2) f scope

/-- **The state agrees with the scopes**: variables have no representation yet, or their own. -/
structure Agrees (globals : String → NodeRepr) (scopes : List (List (String × NodeRepr)))
    (reprs : List NodeRepr) (s : ResolverState) : Prop where
  length : s.locals.length = reprs.length
  locals : ∀ (i : ℕ) (v : ResolvedVariable), s.locals[i]? = some v →
    v.repr = .unknown ∨ reprs[i]? = some v.repr
  frames : List.Forall₂ (fun f scope => FrameBinds reprs f.frame scope) s.scopes scopes
  free : ∀ p ∈ s.freeNames, ∃ v, s.locals[p.2]? = some v ∧ v.repr = globals p.1 ∧
    globals p.1 ≠ .unknown

section Invariant

variable {globals : String → NodeRepr} {scopes : List (List (String × NodeRepr))}
  {reprs reprs' : List NodeRepr} {s : ResolverState}

theorem FrameBinds.extend {f : List (String × ℕ)} {scope : List (String × NodeRepr)}
    (h : FrameBinds reprs f scope) (hextends : reprs <+: reprs') : FrameBinds reprs' f scope := by
  obtain ⟨added, rfl⟩ := hextends
  refine h.imp fun i r ⟨hname, hr⟩ => ⟨hname, ?_⟩
  obtain ⟨hlt, -⟩ := List.getElem?_eq_some_iff.mp hr
  rw [List.getElem?_append_left hlt, hr]

/-- The resolver finds the variable the checker means. -/
theorem findScope_spec {frames : List ScopeFrame}
    (h : List.Forall₂ (fun f scope => FrameBinds reprs f.frame scope) frames scopes)
    (name : String) :
    (findScope frames name = none ∧ scopes.findSome? (fun f => f.lookup name) = none) ∨
      ∃ i depth r, findScope frames name = some (i, depth) ∧
        scopes.findSome? (fun f => f.lookup name) = some r ∧ reprs[i]? = some r :=
  (findScope_forall₂ h name).imp_right fun ⟨f, _, i, r, hfind, hsome, hr⟩ =>
    ⟨i, f.depth, r, hfind, hsome, hr⟩

/-- A run that comes to a state that agrees, with more variables perhaps. -/
def Safely (globals : String → NodeRepr) (scopes : List (List (String × NodeRepr)))
    (reprs : List NodeRepr) (run : Outcome ResolverState) : Prop :=
  ∃ s', run = .ok s' ∧ ∃ reprs', reprs <+: reprs' ∧ Agrees globals scopes reprs' s'

theorem Safely.bind {scopes' : List (List (String × NodeRepr))} {run : Outcome ResolverState}
    {next : ResolverState → Outcome ResolverState} (h : Safely globals scopes reprs run)
    (hnext : ∀ s' reprs', reprs <+: reprs' → Agrees globals scopes reprs' s' →
      Safely globals scopes' reprs' (next s')) : Safely globals scopes' reprs (run >>= next) := by
  obtain ⟨s', rfl, reprs', hextends, hagrees⟩ := h
  obtain ⟨s'', hrun, reprs'', hextends', hagrees'⟩ := hnext s' reprs' hextends hagrees
  exact ⟨s'', hrun, reprs'', hextends.trans hextends', hagrees'⟩

theorem Safely.of_extends {run : Outcome ResolverState} (hextends : reprs <+: reprs')
    (h : Safely globals scopes reprs' run) : Safely globals scopes reprs run := by
  obtain ⟨s', hrun, reprs'', hextends', hagrees⟩ := h
  exact ⟨s', hrun, reprs'', hextends.trans hextends', hagrees⟩

/-- More variables, their representations not settled or their own. -/
theorem Agrees.append (h : Agrees globals scopes reprs s) (added : List ResolvedVariable)
    (addedReprs : List NodeRepr) (hlength : added.length = addedReprs.length)
    (hadded : ∀ (i : ℕ) (v : ResolvedVariable), added[i]? = some v →
      v.repr = .unknown ∨ addedReprs[i]? = some v.repr) :
    Agrees globals scopes (reprs ++ addedReprs) { s with locals := s.locals ++ added } where
  length := by simp [h.length, hlength]
  locals i v hv := by
    dsimp only at hv
    by_cases hlt : i < s.locals.length
    · rw [List.getElem?_append_left hlt] at hv
      rw [List.getElem?_append_left (h.length ▸ hlt)]
      exact h.locals i v hv
    · rw [List.getElem?_append_right (not_lt.mp hlt)] at hv
      rw [List.getElem?_append_right (h.length ▸ not_lt.mp hlt), ← h.length]
      exact hadded _ v hv
  frames := h.frames.imp fun _ _ hbinds => hbinds.extend (List.prefix_append _ _)
  free p hp := by
    obtain ⟨v, hv, hrepr, hknown⟩ := h.free p hp
    obtain ⟨hlt, -⟩ := List.getElem?_eq_some_iff.mp hv
    exact ⟨v, by rw [List.getElem?_append_left hlt, hv], hrepr, hknown⟩

/-- A free variable is bound, or checked against its first reference. -/
theorem Agrees.free_variable (h : Agrees globals scopes reprs s) {id : ℤ} {name : String}
    (hknown : globals name ≠ .unknown) :
    Safely globals scopes reprs (resolveFreeVariable id (globals name) name s) := by
  rw [resolveFreeVariable]
  cases hlookup : s.freeNames.lookup name with
  | none =>
    have happend := h.append [⟨name, globals name, .freeVariable⟩] [globals name] rfl fun i v hv => by
      cases i with
      | zero =>
        obtain rfl := Option.some.inj hv
        exact .inr rfl
      | succ i => exact nomatch hv
    refine ⟨_, rfl, reprs ++ [globals name], List.prefix_append _ _, happend.length, happend.locals,
      happend.frames, fun p hp => ?_⟩
    rcases List.mem_append.mp hp with hp | hp
    · exact happend.free p hp
    · obtain rfl := List.mem_singleton.mp hp
      exact ⟨_, List.getElem?_concat_length, rfl, hknown⟩
  | some index =>
    obtain ⟨before, after, hnames, -⟩ := List.lookup_eq_some_iff.mp hlookup
    obtain ⟨v, hv, hrepr, -⟩ := h.free (name, index) (by simp [hnames])
    simp only at hv hrepr
    simp only [hv, hrepr, if_true]
    exact ⟨_, rfl, reprs, List.prefix_rfl, h.length, h.locals, h.frames, h.free⟩

/-- A variable of a comprehension is settled, or checked against its first reference. -/
theorem Agrees.scoped (h : Agrees globals scopes reprs s) {id : ℤ} {repr : NodeRepr} {i depth : ℕ}
    (hrepr : reprs[i]? = some repr) :
    Safely globals scopes reprs (resolveScoped id repr (i, depth) s) := by
  obtain ⟨hlt, -⟩ := List.getElem?_eq_some_iff.mp hrepr
  rw [← h.length] at hlt
  have hv : s.locals[i]? = some s.locals[i] := List.getElem?_eq_getElem hlt
  rw [resolveScoped]
  simp only [hv]
  split_ifs with hunknown hsame
  · refine ⟨_, rfl, reprs, List.prefix_rfl, by simp [h.length], fun j w hw => ?_, h.frames,
      fun p hp => ?_⟩
    · rw [List.getElem?_set] at hw
      split_ifs at hw with hij
      · obtain rfl := hij
        obtain rfl := Option.some.inj hw
        exact .inr hrepr
      · exact h.locals j w hw
    · obtain ⟨w, hw, hwrepr, hknown⟩ := h.free p hp
      have hne : i ≠ p.2 := by
        rintro rfl
        obtain rfl := Option.some.inj (hv.symm.trans hw)
        exact hknown (hwrepr ▸ hunknown)
      exact ⟨w, by rw [List.getElem?_set_ne hne, hw], hwrepr, hknown⟩
  · exact ⟨_, rfl, reprs, List.prefix_rfl, h.length, h.locals, h.frames, h.free⟩
  · obtain hv' | hv' := h.locals i _ hv
    · exact absurd hv' hunknown
    · exact absurd (Option.some.inj (hv'.symm.trans hrepr)) hsame

/-- **An identifier of a known representation passes the checks.** -/
theorem Agrees.ident (h : Agrees globals scopes reprs s) {types : TypeMap} {id : ℤ} {name : String}
    (htyped : nodeRepr types id = nameRepr globals scopes name)
    (hknown : nodeRepr types id ≠ .unknown) :
    Safely globals scopes reprs (postVisitIdent types id name s) := by
  rw [postVisitIdent]
  simp only [if_neg hknown]
  rw [nameRepr] at htyped
  cases hdot : leadingDot name with
  | some global =>
    rw [hdot] at htyped
    dsimp only at htyped ⊢
    rw [htyped] at hknown ⊢
    exact h.free_variable hknown
  | none =>
    rw [hdot] at htyped
    dsimp only at htyped ⊢
    obtain ⟨hscope, hnone⟩ | ⟨i, depth, r, hscope, hsome, hr⟩ := findScope_spec h.frames name
    · rw [hnone, Option.getD_none] at htyped
      rw [hscope, htyped]
      exact h.free_variable (htyped ▸ hknown)
    · rw [hsome, Option.getD_some] at htyped
      rw [hscope, htyped]
      exact h.scoped hr

theorem Agrees.enter (h : Agrees globals scopes reprs s) {f : List (String × ℕ)}
    {scope : List (String × NodeRepr)} (hbinds : FrameBinds reprs f scope) :
    Agrees globals (scope :: scopes) reprs (enterScope f s) :=
  ⟨h.length, h.locals, .cons hbinds h.frames, h.free⟩

theorem Agrees.leave {scope : List (String × NodeRepr)}
    (h : Agrees globals (scope :: scopes) reprs s) : Agrees globals scopes reprs (leaveScope s) := by
  refine ⟨h.length, h.locals, ?_, h.free⟩
  have hframes := h.frames
  rw [leaveScope]
  cases hs : s.scopes with
  | nil => simp [hs] at hframes
  | cons f rest =>
    rw [hs] at hframes
    exact (List.forall₂_cons.mp hframes).2

/-- The variables of a comprehension, in the order of their indices. -/
def comprehensionReprs (iterVar2 : String) (iter iter2 accu : NodeRepr) : List NodeRepr :=
  iter :: (if iterVar2 = "" then [] else [iter2]) ++ [accu]

/-- The variables of a comprehension are new, and bound by the frame of its loop. -/
theorem Agrees.preVisit (h : Agrees globals scopes reprs s) {id : ℤ}
    {iterVar iterVar2 accuVar : String} {rangeRepr : NodeRepr} (iter iter2 accu : NodeRepr) :
    Agrees globals scopes (reprs ++ comprehensionReprs iterVar2 iter iter2 accu)
        (preVisitComprehension id iterVar iterVar2 accuVar rangeRepr s) ∧
      FrameBinds (reprs ++ comprehensionReprs iterVar2 iter iter2 accu)
        (loopFrame iterVar iterVar2 accuVar s.locals.length (s.locals.length + 1)
          (accuIndex s.locals.length iterVar2))
        (loopFrame iterVar iterVar2 accuVar iter iter2 accu) ∧
      (reprs ++ comprehensionReprs iterVar2 iter iter2 accu)[accuIndex s.locals.length iterVar2]?
        = some accu := by
  have hnew : ∀ v ∈ comprehensionVariables iterVar iterVar2 accuVar (rangeRepr == .map),
      v.repr = .unknown := by
    rw [comprehensionVariables]
    split_ifs <;> simp
  have hlength : (comprehensionVariables iterVar iterVar2 accuVar (rangeRepr == .map)).length
      = (comprehensionReprs iterVar2 iter iter2 accu).length := by
    rw [comprehensionVariables, comprehensionReprs]
    split_ifs <;> rfl
  have happend := h.append _ _ hlength fun i v hv => .inl (hnew v (List.mem_of_getElem? hv))
  refine ⟨⟨happend.length, happend.locals, happend.frames, happend.free⟩, ?_, ?_⟩
  · rw [loopFrame, loopFrame, comprehensionReprs, accuIndex, h.length]
    split_ifs
    · exact .cons ⟨rfl, by simp⟩ (.cons ⟨rfl, by simp⟩ .nil)
    · exact .cons ⟨rfl, by simp⟩ (.cons ⟨rfl, by simp⟩ (.cons ⟨rfl, by simp⟩ .nil))
  · rw [comprehensionReprs, accuIndex, h.length]
    split_ifs <;> simp

/-- An identifier has a representation. -/
def IdentKnown (types : TypeMap) : Expr ℤ → Prop
  | .ident id _ => nodeRepr types id ≠ .unknown
  | _ => True

variable {types : TypeMap}

mutual

theorem resolveIdents_safely : ∀ (e : Expr ℤ) {scopes : List (List (String × NodeRepr))}
    {reprs : List NodeRepr} {s : ResolverState}, Agrees globals scopes reprs s →
    TypedIn types globals scopes e → e.Forall (IdentKnown types) →
    Safely globals scopes reprs (resolveIdents types e s)
  | .const _ _, _, reprs, _, h, _, _ => ⟨_, rfl, reprs, List.prefix_rfl, h⟩
  | .ident _ _, _, _, _, h, htyped, hknown => h.ident htyped hknown
  | .select _ operand _ _, _, _, _, h, htyped, hknown => resolveIdents_safely operand h htyped hknown.2
  | .call _ _ _ operands, _, _, _, h, htyped, hknown => resolveAll_safely operands h htyped hknown.2
  | .list _ elements _, _, _, _, h, htyped, hknown => resolveAll_safely elements h htyped hknown.2
  | .map _ entries, _, _, _, h, htyped, hknown => resolveEntries_safely entries h htyped hknown.2
  | .struct _ _ _ values, _, _, _, h, htyped, hknown => resolveAll_safely values h htyped hknown.2
  | .comprehension id iterVar iterVar2 accuVar iterRange accuInit loopCondition loopStep result,
      scopes, reprs, s, h, htyped, hknown => by
    rw [TypedIn] at htyped
    obtain ⟨iter, iter2, accu, hrange, hinit, hcondition, hstep, hresult⟩ := htyped
    obtain ⟨-, krange, kinit, kcondition, kstep, kresult⟩ := hknown
    obtain ⟨hpre, hframe, haccu⟩ := @Agrees.preVisit globals scopes reprs s h id iterVar iterVar2
      accuVar (nodeRepr types iterRange.ann) iter iter2 accu
    have hresultFrame : FrameBinds (reprs ++ comprehensionReprs iterVar2 iter iter2 accu)
        [(accuVar, accuIndex s.locals.length iterVar2)] [(accuVar, accu)] :=
      .cons ⟨rfl, haccu⟩ .nil
    rw [resolveIdents]
    refine .of_extends (List.prefix_append reprs (comprehensionReprs iterVar2 iter iter2 accu)) ?_
    refine (resolveIdents_safely iterRange hpre hrange krange).bind fun _ _ hp₁ h₁ => ?_
    refine (resolveIdents_safely accuInit h₁ hinit kinit).bind fun _ _ hp₂ h₂ => ?_
    have hloop := h₂.enter (hframe.extend (hp₁.trans hp₂))
    refine (resolveIdents_safely loopCondition hloop hcondition kcondition).bind
      fun _ _ hp₃ h₃ => ?_
    refine (resolveIdents_safely loopStep h₃ hstep kstep).bind fun _ _ hp₄ h₄ => ?_
    have hlast := h₄.leave.enter
      (hresultFrame.extend ((hp₁.trans hp₂).trans (hp₃.trans hp₄)))
    refine (resolveIdents_safely result hlast hresult kresult).bind fun _ reprs' _ h₅ => ?_
    exact ⟨_, rfl, reprs', List.prefix_rfl, h₅.leave⟩

theorem resolveAll_safely : ∀ (es : List (Expr ℤ)) {scopes : List (List (String × NodeRepr))}
    {reprs : List NodeRepr} {s : ResolverState}, Agrees globals scopes reprs s →
    TypedInAll types globals scopes es → ForallList (IdentKnown types) es →
    Safely globals scopes reprs (resolveAll types es s)
  | [], _, reprs, _, h, _, _ => ⟨_, rfl, reprs, List.prefix_rfl, h⟩
  | e :: rest, _, _, _, h, htyped, hknown =>
    (resolveIdents_safely e h htyped.1 hknown.1).bind fun _ _ _ h' =>
      resolveAll_safely rest h' htyped.2 hknown.2

theorem resolveEntries_safely : ∀ (entries : MapEntries ℤ)
    {scopes : List (List (String × NodeRepr))} {reprs : List NodeRepr} {s : ResolverState},
    Agrees globals scopes reprs s → TypedInEntries types globals scopes entries →
    entries.Forall (IdentKnown types) →
    Safely globals scopes reprs (resolveEntries types entries s)
  | .nil, _, reprs, _, h, _, _ => ⟨_, rfl, reprs, List.prefix_rfl, h⟩
  | .cons _ key value rest, _, _, _, h, htyped, hknown =>
    (resolveIdents_safely key h htyped.1 hknown.1).bind fun _ _ _ h' =>
      (resolveIdents_safely value h' htyped.2.1 hknown.2.1).bind fun _ _ _ h'' =>
        resolveEntries_safely rest h'' htyped.2.2 hknown.2.2

end

/-- **The resolver's checks hold** if identifiers have representations, and references to a variable
its type. -/
theorem resolveIdents_ok {e : Expr ℤ} (htyped : TypedIn types globals [] e)
    (hknown : e.Forall (IdentKnown types)) : ∃ s, resolveIdents types e .initial = .ok s := by
  have hinitial : Agrees globals [] [] ResolverState.initial :=
    ⟨rfl, fun _ _ h => (nomatch h), .nil, fun _ h => (nomatch h)⟩
  obtain ⟨s, hs, -⟩ := resolveIdents_safely e hinitial htyped hknown
  exact ⟨s, hs⟩

end Invariant

end CelWasm
