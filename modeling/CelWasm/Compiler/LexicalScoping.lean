import CelWasm.Compiler.IdentResolver
import CelWasm.Library.Fallible

/-!
# Compiler/LexicalScoping — the resolver binds identifiers by their scopes

By the rules of scope, an identifier refers to a variable of the innermost comprehension around it
that has one of its name in scope there, or to a global variable. A comprehension is told by its
place in the order in which the walk comes to them.

    e.all(x, p)      range  start  condition  step       result
    sees             outer  outer  x, accu    x, accu    accu

What the resolver writes at an identifier is the local of what it refers to, and different variables
have different locals (`resolveIdents_lexical`).
-/

namespace CelWasm

/-! ## The rules of scope -/

/-- The variables of a comprehension. -/
inductive Role
  | iter
  | iter2
  | accu
  deriving DecidableEq

/-- **What an identifier refers to**: a global variable, or a variable of the comprehension that is
the `n`-th to be come to. -/
inductive Referent
  | global (name : String)
  | bound (n : ℕ) (role : Role)
  deriving DecidableEq

/-- Whether a referent is global. -/
def Referent.isGlobal : Referent → Bool
  | global _ => true
  | bound _ _ => false

/-- **The variable of a name**: that of the innermost scope that has the name; past a leading dot,
the global one. -/
def lexicalLookup (scopes : List (List (String × Referent))) (name : String) : Referent :=
  match leadingDot name with
  | some global => .global global
  | none => (scopes.findSome? fun scope => scope.lookup name).getD (.global name)

mutual

/-- The comprehensions of an expression, from the outermost in. -/
def comprehensionIds : Expr ℤ → List ℤ
  | .const _ _ | .ident _ _ => []
  | .select _ operand _ _ => comprehensionIds operand
  | .call _ _ _ operands => comprehensionIdsAll operands
  | .list _ elements _ => comprehensionIdsAll elements
  | .map _ entries => comprehensionIdsEntries entries
  | .struct _ _ _ values => comprehensionIdsAll values
  | .comprehension id _ _ _ iterRange accuInit loopCondition loopStep result =>
    id :: (comprehensionIds iterRange ++ comprehensionIds accuInit ++
      comprehensionIds loopCondition ++ comprehensionIds loopStep ++ comprehensionIds result)

def comprehensionIdsAll : List (Expr ℤ) → List ℤ
  | [] => []
  | e :: rest => comprehensionIds e ++ comprehensionIdsAll rest

def comprehensionIdsEntries : MapEntries ℤ → List ℤ
  | .nil => []
  | .cons _ key value rest =>
    comprehensionIds key ++ comprehensionIds value ++ comprehensionIdsEntries rest

end

mutual

/-- **What the identifiers of an expression refer to**, in the order of the walk: each with its id.
The next comprehension is the `n`-th. -/
def references : List (List (String × Referent)) → ℕ → Expr ℤ → List (ℤ × Referent)
  | _, _, .const _ _ => []
  | scopes, _, .ident id name => [(id, lexicalLookup scopes name)]
  | scopes, n, .select _ operand _ _ => references scopes n operand
  | scopes, n, .call _ _ _ operands => referencesAll scopes n operands
  | scopes, n, .list _ elements _ => referencesAll scopes n elements
  | scopes, n, .map _ entries => referencesEntries scopes n entries
  | scopes, n, .struct _ _ _ values => referencesAll scopes n values
  | scopes, n, .comprehension _ iterVar iterVar2 accuVar iterRange accuInit loopCondition loopStep
      result =>
    let loop := loopFrame iterVar iterVar2 accuVar (.bound n .iter) (.bound n .iter2)
      (Referent.bound n .accu) :: scopes
    let final := [(accuVar, Referent.bound n .accu)] :: scopes
    let n₁ := n + 1
    let n₂ := n₁ + (comprehensionIds iterRange).length
    let n₃ := n₂ + (comprehensionIds accuInit).length
    let n₄ := n₃ + (comprehensionIds loopCondition).length
    let n₅ := n₄ + (comprehensionIds loopStep).length
    references scopes n₁ iterRange ++ references scopes n₂ accuInit ++
      references loop n₃ loopCondition ++ references loop n₄ loopStep ++ references final n₅ result

def referencesAll : List (List (String × Referent)) → ℕ → List (Expr ℤ) → List (ℤ × Referent)
  | _, _, [] => []
  | scopes, n, e :: rest =>
    references scopes n e ++ referencesAll scopes (n + (comprehensionIds e).length) rest

def referencesEntries : List (List (String × Referent)) → ℕ → MapEntries ℤ → List (ℤ × Referent)
  | _, _, .nil => []
  | scopes, n, .cons _ key value rest =>
    let n₁ := n + (comprehensionIds key).length
    references scopes n key ++ references scopes n₁ value ++
      referencesEntries scopes (n₁ + (comprehensionIds value).length) rest

end

/-! ## The scopes -/

section Scopes

variable {types : TypeMap}

theorem resolveFreeVariable_scopes {id : ℤ} {repr : NodeRepr} {name : String} {s s' : ResolverState}
    (h : resolveFreeVariable id repr name s = .ok s') : s'.scopes = s.scopes := by
  rw [resolveFreeVariable] at h
  split at h
  · exact Except.ok.inj h ▸ rfl
  · split at h
    · split_ifs at h
      exact Except.ok.inj h ▸ rfl
    · cases h

theorem postVisitIdent_scopes {id : ℤ} {name : String} {s s' : ResolverState}
    (h : postVisitIdent types id name s = .ok s') : s'.scopes = s.scopes := by
  rw [postVisitIdent] at h
  split_ifs at h
  split at h
  · exact resolveFreeVariable_scopes h
  · split at h
    · rw [resolveScoped] at h
      split at h
      · split_ifs at h <;> exact Except.ok.inj h ▸ rfl
      · cases h
    · exact resolveFreeVariable_scopes h

mutual

/-- **The scopes are what they were** after an expression: every scope that is entered is left. -/
theorem resolveIdents_scopes : ∀ (e : Expr ℤ) {s s' : ResolverState},
    resolveIdents types e s = .ok s' → s'.scopes = s.scopes
  | .const _ _, _, _, h => Except.ok.inj h ▸ rfl
  | .ident _ _, _, _, h => postVisitIdent_scopes h
  | .select _ operand _ _, _, _, h => resolveIdents_scopes operand h
  | .call _ _ _ operands, _, _, h => resolveAll_scopes operands h
  | .list _ elements _, _, _, h => resolveAll_scopes elements h
  | .map _ entries, _, _, h => resolveEntries_scopes entries h
  | .struct _ _ _ values, _, _, h => resolveAll_scopes values h
  | .comprehension _ _ _ _ iterRange accuInit loopCondition loopStep result, s, _, h => by
    obtain ⟨s₁, h₁, h⟩ := bind_eq_ok_iff.mp h
    obtain ⟨s₂, h₂, h⟩ := bind_eq_ok_iff.mp h
    obtain ⟨s₃, h₃, h⟩ := bind_eq_ok_iff.mp h
    obtain ⟨s₄, h₄, h⟩ := bind_eq_ok_iff.mp h
    obtain ⟨s₅, h₅, h⟩ := bind_eq_ok_iff.mp h
    obtain rfl := Except.ok.inj h
    have hrange := resolveIdents_scopes iterRange h₁
    have hbefore : s₂.scopes = s.scopes := (resolveIdents_scopes accuInit h₂).trans hrange
    have hloop := (resolveIdents_scopes loopStep h₄).trans (resolveIdents_scopes loopCondition h₃)
    have hleft : (leaveScope s₄).scopes = s₂.scopes := congrArg List.tail hloop
    have hresult := congrArg List.tail (resolveIdents_scopes result h₅)
    exact hresult.trans (hleft.trans hbefore)

theorem resolveAll_scopes : ∀ (es : List (Expr ℤ)) {s s' : ResolverState},
    resolveAll types es s = .ok s' → s'.scopes = s.scopes
  | [], _, _, h => Except.ok.inj h ▸ rfl
  | e :: rest, _, _, h => by
    obtain ⟨t, ht, h⟩ := bind_eq_ok_iff.mp h
    exact (resolveAll_scopes rest h).trans (resolveIdents_scopes e ht)

theorem resolveEntries_scopes : ∀ (entries : MapEntries ℤ) {s s' : ResolverState},
    resolveEntries types entries s = .ok s' → s'.scopes = s.scopes
  | .nil, _, _, h => Except.ok.inj h ▸ rfl
  | .cons _ key value rest, _, _, h => by
    obtain ⟨t, ht, h⟩ := bind_eq_ok_iff.mp h
    obtain ⟨u, hu, h⟩ := bind_eq_ok_iff.mp h
    exact (resolveEntries_scopes rest h).trans
      ((resolveIdents_scopes value hu).trans (resolveIdents_scopes key ht))

end

end Scopes

/-! ## The locals -/

/-- The local of a variable of a comprehension. -/
def ComprehensionStamp.localOf (stamp : ComprehensionStamp) : Role → Option ℕ
  | .iter => some stamp.iterLocalIndex
  | .iter2 => stamp.iterLocalIndex2
  | .accu => some stamp.accuLocalIndex

/-- **The local of a variable**, if it has one yet. -/
def ResolverState.localOf (s : ResolverState) : Referent → Option ℕ
  | .global name => s.freeNames.lookup name
  | .bound n role => s.comprehensions[n]?.bind fun stamp => stamp.localOf role

/-- **Different variables have different locals.** -/
structure ResolverState.Distinct (s : ResolverState) : Prop where
  inj : ∀ {r r' i}, s.localOf r = some i → s.localOf r' = some i → r = r'
  lt : ∀ {r i}, s.localOf r = some i → i < s.locals.length

/-- **The frames of the resolver bind the names of the scopes**, each to the local of its
variable. -/
structure ResolverState.Binds (s : ResolverState) (scopes : List (List (String × Referent))) :
    Prop where
  depth : ∀ f ∈ s.scopes, f.depth ≠ 0
  frames : List.Forall₂ (fun f scope => List.Forall₂ (fun b r =>
    b.1 = r.1 ∧ r.2.isGlobal = false ∧ s.localOf r.2 = some b.2) f.frame scope) s.scopes scopes

/-- A stamp is that of a reference. -/
def Stamps (s : ResolverState) (stamp : IdentStamp) (reference : ℤ × Referent) : Prop :=
  stamp.id = reference.1 ∧ s.localOf reference.2 = some stamp.localIndex ∧
    (stamp.scopeId = 0 ↔ reference.2.isGlobal = true)

/-- **What a walk does**: it stamps identifiers as their references say and comprehensions in order,
and keeps the locals there are. -/
structure Walked (s s' : ResolverState) (refs : List (ℤ × Referent)) (ids : List ℤ) : Prop where
  distinct : s'.Distinct
  keeps : ∀ {r i}, s.localOf r = some i → s'.localOf r = some i
  idents : ∃ stamps, s'.idents = s.idents ++ stamps ∧ List.Forall₂ (Stamps s') stamps refs
  comprehensions : s'.comprehensions.map ComprehensionStamp.id
    = s.comprehensions.map ComprehensionStamp.id ++ ids

section Walks

variable {scopes : List (List (String × Referent))} {s s' s'' : ResolverState}
  {refs refs' : List (ℤ × Referent)} {ids ids' : List ℤ}

theorem Walked.refl (h : s.Distinct) : Walked s s [] [] :=
  ⟨h, id, ⟨[], (List.append_nil _).symm, .nil⟩, (List.append_nil _).symm⟩

theorem Stamps.keep (hkeeps : ∀ {r i}, s.localOf r = some i → s'.localOf r = some i)
    {stamp : IdentStamp} {reference : ℤ × Referent} (h : Stamps s stamp reference) :
    Stamps s' stamp reference :=
  ⟨h.1, hkeeps h.2.1, h.2.2⟩

/-- **One walk after another.** -/
theorem Walked.trans (h : Walked s s' refs ids) (h' : Walked s' s'' refs' ids') :
    Walked s s'' (refs ++ refs') (ids ++ ids') where
  distinct := h'.distinct
  keeps hr := h'.keeps (h.keeps hr)
  idents := by
    obtain ⟨stamps, hidents, hstamps⟩ := h.idents
    obtain ⟨stamps', hidents', hstamps'⟩ := h'.idents
    refine ⟨stamps ++ stamps', by rw [hidents', hidents, List.append_assoc], ?_⟩
    exact List.rel_append (hstamps.imp fun _ _ hs => hs.keep h'.keeps) hstamps'
  comprehensions := by rw [h'.comprehensions, h.comprehensions, List.append_assoc]

/-- The comprehensions that have been come to. -/
theorem Walked.length (h : Walked s s' refs ids) :
    s'.comprehensions.length = s.comprehensions.length + ids.length := by
  simpa using congrArg List.length h.comprehensions

/-- The scopes bind what they did. -/
theorem Walked.binds (h : Walked s s' refs ids) (hbinds : s.Binds scopes)
    (hscopes : s'.scopes = s.scopes) : s'.Binds scopes := by
  refine ⟨hscopes ▸ hbinds.depth, hscopes ▸ hbinds.frames.imp fun _ _ hframe => ?_⟩
  exact hframe.imp fun _ _ hb => ⟨hb.1, hb.2.1, h.keeps hb.2.2⟩

/-- Variables with locals past those there are. -/
theorem ResolverState.Distinct.extend (h : s.Distinct) {new : Referent → ℕ → Prop}
    (hle : s.locals.length ≤ s'.locals.length)
    (hcases : ∀ {r i}, s'.localOf r = some i → s.localOf r = some i ∨ new r i)
    (hnew : ∀ {r i}, new r i → s.locals.length ≤ i ∧ i < s'.locals.length)
    (hinj : ∀ {r r' i}, new r i → new r' i → r = r') : s'.Distinct where
  inj hr hr' := by
    obtain hr | hr := hcases hr <;> obtain hr' | hr' := hcases hr'
    · exact h.inj hr hr'
    · exact absurd (h.lt hr) (not_lt.mpr (hnew hr').1)
    · exact absurd (h.lt hr') (not_lt.mpr (hnew hr).1)
    · exact hinj hr hr'
  lt hr := by
    obtain hr | hr := hcases hr
    · exact (h.lt hr).trans_le hle
    · exact (hnew hr).2

/-- One more stamp, of a variable that has a local. -/
theorem Walked.stamp (h : s.Distinct) (hlocals : s'.locals.length = s.locals.length)
    (hfree : s'.freeNames = s.freeNames) (hcomprehensions : s'.comprehensions = s.comprehensions)
    {stamp : IdentStamp} (hidents : s'.idents = s.idents ++ [stamp])
    {reference : ℤ × Referent} (hstamp : Stamps s stamp reference) :
    Walked s s' [reference] [] := by
  have hlocal : ∀ r, s'.localOf r = s.localOf r := fun r => by
    cases r with
    | global name => exact congrArg (·.lookup name) hfree
    | bound n role => exact congrArg (·[n]?.bind fun stamp => stamp.localOf role) hcomprehensions
  refine ⟨⟨fun hr hr' => ?_, fun hr => ?_⟩, fun hr => (hlocal _).trans hr,
    ⟨[stamp], hidents, .cons ?_ .nil⟩, ?_⟩
  · rw [hlocal] at hr hr'
    exact h.inj hr hr'
  · rw [hlocal] at hr
    exact hlocals ▸ h.lt hr
  · exact hstamp.keep fun hr => (hlocal _).trans hr
  · rw [hcomprehensions, List.append_nil]

/-- **A free variable** has the local of its name, from its first reference on. -/
theorem Walked.free {id : ℤ} {repr : NodeRepr} {name : String} (h : s.Distinct)
    (hrun : resolveFreeVariable id repr name s = .ok s') :
    Walked s s' [(id, .global name)] [] := by
  rw [resolveFreeVariable] at hrun
  cases hlookup : s.freeNames.lookup name with
  | some index =>
    rw [hlookup] at hrun
    dsimp only at hrun
    cases hv : s.locals[index]? with
    | none =>
      rw [hv] at hrun
      cases hrun
    | some v =>
      rw [hv] at hrun
      dsimp only at hrun
      split_ifs at hrun
      · obtain rfl := Except.ok.inj hrun
        have hstamp : Stamps s ⟨id, index, 0⟩ (id, .global name) :=
          ⟨rfl, hlookup, iff_of_true rfl rfl⟩
        refine Walked.stamp h ?_ ?_ ?_ ?_ hstamp <;> rfl
  | none =>
    rw [hlookup] at hrun
    obtain rfl := Except.ok.inj hrun
    have hlocal : ∀ r i, ResolverState.localOf { s with
        locals := s.locals ++ [⟨name, repr, .freeVariable⟩]
        freeNames := s.freeNames ++ [(name, s.locals.length)]
        idents := s.idents ++ [⟨id, s.locals.length, 0⟩] } r = some i ↔
          s.localOf r = some i ∨ r = .global name ∧ s.locals.length = i := by
      rintro (name' | ⟨n, role⟩) i
      · by_cases hname : name' = name
        · simp [ResolverState.localOf, List.lookup_append, hname, hlookup]
        · simp [ResolverState.localOf, List.lookup_append, List.lookup_cons, beq_false_of_ne hname,
          hname]
      · simp [ResolverState.localOf]
    refine ⟨h.extend (by simp) (fun hr => (hlocal _ _).mp hr) ?_ ?_,
      fun hr => (hlocal _ _).mpr (.inl hr), ⟨_, rfl, .cons ?_ .nil⟩, (List.append_nil _).symm⟩
    · rintro _ _ ⟨rfl, rfl⟩
      simp
    · rintro _ _ _ ⟨rfl, -⟩ ⟨rfl, -⟩
      rfl
    · exact ⟨rfl, (hlocal _ _).mpr (.inr ⟨rfl, rfl⟩), iff_of_true rfl rfl⟩

/-- **A variable in scope** has the local its frame says. -/
theorem Walked.scoped {id : ℤ} {repr : NodeRepr} {i depth : ℕ} {r : Referent} (h : s.Distinct)
    (hdepth : depth ≠ 0) (hbound : r.isGlobal = false) (hr : s.localOf r = some i)
    (hrun : resolveScoped id repr (i, depth) s = .ok s') : Walked s s' [(id, r)] [] := by
  have hstamp : Stamps s ⟨id, i, depth⟩ (id, r) := ⟨rfl, hr, iff_of_false hdepth (by simp [hbound])⟩
  rw [resolveScoped] at hrun
  cases hv : s.locals[i]? with
  | none =>
    rw [hv] at hrun
    cases hrun
  | some v =>
    rw [hv] at hrun
    dsimp only at hrun
    split_ifs at hrun
    · obtain rfl := Except.ok.inj hrun
      refine Walked.stamp h List.length_set ?_ ?_ ?_ hstamp <;> rfl
    · obtain rfl := Except.ok.inj hrun
      refine Walked.stamp h ?_ ?_ ?_ ?_ hstamp <;> rfl

/-- **An identifier** has the local of what it refers to. -/
theorem Walked.ident {types : TypeMap} {id : ℤ} {name : String} (h : s.Distinct)
    (hbinds : s.Binds scopes) (hrun : postVisitIdent types id name s = .ok s') :
    Walked s s' [(id, lexicalLookup scopes name)] [] := by
  rw [postVisitIdent] at hrun
  split_ifs at hrun
  rw [lexicalLookup]
  cases hdot : leadingDot name with
  | some global =>
    rw [hdot] at hrun
    exact .free h hrun
  | none =>
    rw [hdot] at hrun
    dsimp only at hrun ⊢
    obtain ⟨hscope, hnone⟩ | ⟨f, hf, i, r, hscope, hsome, hr⟩ :=
      @findScope_forall₂ Referent (fun i r => r.isGlobal = false ∧ s.localOf r = some i) _ _
        hbinds.frames name
    · rw [hscope] at hrun
      rw [hnone]
      exact .free h hrun
    · rw [hscope] at hrun
      rw [hsome, Option.getD_some]
      exact .scoped h (hbinds.depth f hf) hr.1 hr.2 hrun

/-- The accumulator comes behind the other variables. -/
theorem lt_accuIndex (base : ℕ) (iterVar2 : String) :
    base < accuIndex base iterVar2 ∧ (iterVar2 ≠ "" → base + 1 < accuIndex base iterVar2) := by
  unfold accuIndex
  split_ifs with hname
  · exact ⟨Nat.lt_succ_self _, fun h => absurd hname h⟩
  · exact ⟨by omega, fun _ => by omega⟩

/-- The locals of a comprehension that is come to. -/
theorem localOf_preVisit {id : ℤ} {iterVar iterVar2 accuVar : String} {rangeRepr : NodeRepr}
    (r : Referent) (i : ℕ) :
    (preVisitComprehension id iterVar iterVar2 accuVar rangeRepr s).localOf r = some i ↔
      s.localOf r = some i ∨
        r = .bound s.comprehensions.length .iter ∧ s.locals.length = i ∨
        iterVar2 ≠ "" ∧ r = .bound s.comprehensions.length .iter2 ∧ s.locals.length + 1 = i ∨
        r = .bound s.comprehensions.length .accu ∧ accuIndex s.locals.length iterVar2 = i := by
  cases r with
  | global name => simp [preVisitComprehension, ResolverState.localOf]
  | bound n role =>
    obtain hlt | rfl | hlt := lt_trichotomy n s.comprehensions.length
    · simp [preVisitComprehension, ResolverState.localOf, List.getElem?_append_left hlt, hlt.ne]
    · cases role <;> simp [preVisitComprehension, ResolverState.localOf, ComprehensionStamp.localOf]
    · have hpast : (s.comprehensions ++ [(⟨id, s.locals.length, if iterVar2 = "" then none
          else some (s.locals.length + 1), accuIndex s.locals.length iterVar2⟩ :
          ComprehensionStamp)])[n]? = none := List.getElem?_eq_none (by simpa using Nat.succ_le_of_lt hlt)
      simp [preVisitComprehension, ResolverState.localOf, hpast, List.getElem?_eq_none hlt.le,
        hlt.ne']

/-- **A comprehension is come to**: its variables get locals of their own. -/
theorem Walked.preVisit (h : s.Distinct) (id : ℤ) (iterVar iterVar2 accuVar : String)
    (rangeRepr : NodeRepr) :
    Walked s (preVisitComprehension id iterVar iterVar2 accuVar rangeRepr s) [] [id] := by
  obtain ⟨hiter, hiter2⟩ := lt_accuIndex s.locals.length iterVar2
  refine ⟨h.extend ?_ (fun hr => (localOf_preVisit _ _).mp hr) ?_ ?_,
    fun hr => (localOf_preVisit _ _).mpr (.inl hr), ⟨[], (List.append_nil _).symm, .nil⟩, ?_⟩
  · simp [preVisitComprehension]
  · have hlength : (preVisitComprehension id iterVar iterVar2 accuVar rangeRepr s).locals.length
        = accuIndex s.locals.length iterVar2 + 1 := by
      simp only [preVisitComprehension, comprehensionVariables, accuIndex, List.length_append]
      split_ifs <;> rfl
    rw [hlength]
    rintro r i (⟨-, rfl⟩ | ⟨hname, -, rfl⟩ | ⟨-, rfl⟩)
    · omega
    · have := hiter2 hname
      omega
    · omega
  · rintro r r' i (⟨rfl, hi⟩ | ⟨hname, rfl, hi⟩ | ⟨rfl, hi⟩)
      (⟨rfl, hi'⟩ | ⟨hname', rfl, hi'⟩ | ⟨rfl, hi'⟩) <;> first
        | rfl
        | omega
        | (have hlt2 := hiter2 ‹_›; omega)
  · simp [preVisitComprehension]

/-- A scope is entered. -/
theorem ResolverState.Binds.enter (hbinds : s.Binds scopes) {f : List (String × ℕ)}
    {scope : List (String × Referent)} (hframe : List.Forall₂ (fun b r =>
      b.1 = r.1 ∧ r.2.isGlobal = false ∧ s.localOf r.2 = some b.2) f scope) :
    (enterScope f s).Binds (scope :: scopes) :=
  ⟨List.forall_mem_cons.mpr ⟨Nat.succ_ne_zero _, hbinds.depth⟩, .cons hframe hbinds.frames⟩

theorem ResolverState.Distinct.enter (h : s.Distinct) (f : List (String × ℕ)) :
    (enterScope f s).Distinct := ⟨h.inj, h.lt⟩

/-- **What is walked in a scope** is walked outside of it, when the scope is left. -/
theorem Walked.leave {f : List (String × ℕ)} (h : Walked (enterScope f s) s' refs ids) :
    Walked s (leaveScope s') refs ids where
  distinct := ⟨h.distinct.inj, h.distinct.lt⟩
  keeps hr := h.keeps hr
  idents := h.idents
  comprehensions := h.comprehensions

/-- The frames of a comprehension bind its variables, as long as they keep their locals. -/
theorem frames_preVisit {id : ℤ} {iterVar iterVar2 accuVar : String} {rangeRepr : NodeRepr}
    (hkeeps : ∀ {r i}, (preVisitComprehension id iterVar iterVar2 accuVar rangeRepr s).localOf r
      = some i → s'.localOf r = some i) :
    List.Forall₂ (fun b r => b.1 = r.1 ∧ r.2.isGlobal = false ∧ s'.localOf r.2 = some b.2)
        (loopFrame iterVar iterVar2 accuVar s.locals.length (s.locals.length + 1)
          (accuIndex s.locals.length iterVar2))
        (loopFrame iterVar iterVar2 accuVar (.bound s.comprehensions.length .iter)
          (.bound s.comprehensions.length .iter2) (.bound s.comprehensions.length .accu)) ∧
      s'.localOf (.bound s.comprehensions.length .accu)
        = some (accuIndex s.locals.length iterVar2) := by
  have hiter := hkeeps ((localOf_preVisit _ _).mpr (.inr (.inl ⟨rfl, rfl⟩)))
  have haccu := hkeeps ((localOf_preVisit _ _).mpr (.inr (.inr (.inr ⟨rfl, rfl⟩))))
  refine ⟨.cons ⟨rfl, rfl, hiter⟩ (List.rel_append ?_ (.cons ⟨rfl, rfl, haccu⟩ .nil)), haccu⟩
  split_ifs with hname
  · exact .nil
  · have hiter2 := hkeeps ((localOf_preVisit _ _).mpr (.inr (.inr (.inl ⟨hname, rfl, rfl⟩))))
    exact .cons ⟨rfl, rfl, hiter2⟩ .nil

variable {types : TypeMap}

mutual

/-- **The walk of an expression.** -/
theorem resolveIdents_walked : ∀ (e : Expr ℤ) {scopes : List (List (String × Referent))}
    {s s' : ResolverState}, s.Distinct → s.Binds scopes → resolveIdents types e s = .ok s' →
    Walked s s' (references scopes s.comprehensions.length e) (comprehensionIds e)
  | .const _ _, _, _, _, h, _, hrun => Except.ok.inj hrun ▸ .refl h
  | .ident _ _, _, _, _, h, hbinds, hrun => .ident h hbinds hrun
  | .select _ operand _ _, _, _, _, h, hbinds, hrun => resolveIdents_walked operand h hbinds hrun
  | .call _ _ _ operands, _, _, _, h, hbinds, hrun => resolveAll_walked operands h hbinds hrun
  | .list _ elements _, _, _, _, h, hbinds, hrun => resolveAll_walked elements h hbinds hrun
  | .map _ entries, _, _, _, h, hbinds, hrun => resolveEntries_walked entries h hbinds hrun
  | .struct _ _ _ values, _, _, _, h, hbinds, hrun => resolveAll_walked values h hbinds hrun
  | .comprehension id iterVar iterVar2 accuVar iterRange accuInit loopCondition loopStep result,
      scopes, s, s', h, hbinds, hrun => by
    obtain ⟨s₁, h₁, hrun⟩ := bind_eq_ok_iff.mp hrun
    obtain ⟨s₂, h₂, hrun⟩ := bind_eq_ok_iff.mp hrun
    obtain ⟨s₃, h₃, hrun⟩ := bind_eq_ok_iff.mp hrun
    obtain ⟨s₄, h₄, hrun⟩ := bind_eq_ok_iff.mp hrun
    obtain ⟨s₅, h₅, hrun⟩ := bind_eq_ok_iff.mp hrun
    obtain rfl := Except.ok.inj hrun
    have hpre := Walked.preVisit h id iterVar iterVar2 accuVar (nodeRepr types iterRange.ann)
    have hrange := resolveIdents_walked iterRange hpre.distinct (hpre.binds hbinds rfl) h₁
    have hbinds₁ := hrange.binds (hpre.binds hbinds rfl) (resolveIdents_scopes iterRange h₁)
    have hinit := resolveIdents_walked accuInit hrange.distinct hbinds₁ h₂
    have hbinds₂ := hinit.binds hbinds₁ (resolveIdents_scopes accuInit h₂)
    obtain ⟨hloop, haccu⟩ := @frames_preVisit s s₂ id iterVar iterVar2 accuVar
      (nodeRepr types iterRange.ann) fun hr => hinit.keeps (hrange.keeps hr)
    have hcondition := resolveIdents_walked loopCondition (hinit.distinct.enter _)
      (hbinds₂.enter hloop) h₃
    have hbinds₃ := hcondition.binds (hbinds₂.enter hloop) (resolveIdents_scopes loopCondition h₃)
    have hstep := resolveIdents_walked loopStep hcondition.distinct hbinds₃ h₄
    have hbody := (hcondition.trans hstep).leave
    have hleft : (leaveScope s₄).scopes = s₂.scopes := congrArg List.tail
      ((resolveIdents_scopes loopStep h₄).trans (resolveIdents_scopes loopCondition h₃))
    have hfinal := List.Forall₂.cons (R := fun (b : String × ℕ) (r : String × Referent) =>
      b.1 = r.1 ∧ r.2.isGlobal = false ∧ (leaveScope s₄).localOf r.2 = some b.2)
      (a := (accuVar, _)) (b := (accuVar, _)) ⟨rfl, rfl, hbody.keeps haccu⟩ .nil
    have hresult := (resolveIdents_walked result (hbody.distinct.enter _)
      ((hbody.binds hbinds₂ hleft).enter hfinal) h₅).leave
    have hall := (((hpre.trans hrange).trans hinit).trans hbody).trans hresult
    -- the number of the comprehension that each part would come to first
    have hn₁ := hpre.length
    have hn₂ := hrange.length.trans (congrArg (· + _) hn₁)
    have hn₃ := hinit.length.trans (congrArg (· + _) hn₂)
    have hn₄ := hcondition.length.trans (congrArg (· + _) hn₃)
    have hn₅ := hstep.length.trans (congrArg (· + _) hn₄)
    change Walked s (leaveScope s₅) (_ ++ _ ++ (references _ s₂.comprehensions.length _ ++ _) ++
      references _ s₄.comprehensions.length _) _ at hall
    rw [hn₁, hn₂, hn₃, hn₄, hn₅] at hall
    rw [references, comprehensionIds]
    simpa only [List.append_assoc, List.cons_append, List.nil_append, List.length_singleton] using hall

theorem resolveAll_walked : ∀ (es : List (Expr ℤ)) {scopes : List (List (String × Referent))}
    {s s' : ResolverState}, s.Distinct → s.Binds scopes → resolveAll types es s = .ok s' →
    Walked s s' (referencesAll scopes s.comprehensions.length es) (comprehensionIdsAll es)
  | [], _, _, _, h, _, hrun => Except.ok.inj hrun ▸ .refl h
  | e :: rest, _, _, _, h, hbinds, hrun => by
    obtain ⟨t, ht, hrun⟩ := bind_eq_ok_iff.mp hrun
    have hfirst := resolveIdents_walked e h hbinds ht
    have hrest := resolveAll_walked rest hfirst.distinct
      (hfirst.binds hbinds (resolveIdents_scopes e ht)) hrun
    rw [hfirst.length] at hrest
    exact hfirst.trans hrest

theorem resolveEntries_walked : ∀ (entries : MapEntries ℤ)
    {scopes : List (List (String × Referent))} {s s' : ResolverState}, s.Distinct → s.Binds scopes →
    resolveEntries types entries s = .ok s' →
    Walked s s' (referencesEntries scopes s.comprehensions.length entries)
      (comprehensionIdsEntries entries)
  | .nil, _, _, _, h, _, hrun => Except.ok.inj hrun ▸ .refl h
  | .cons _ key value rest, _, _, _, h, hbinds, hrun => by
    obtain ⟨t, ht, hrun⟩ := bind_eq_ok_iff.mp hrun
    obtain ⟨u, hu, hrun⟩ := bind_eq_ok_iff.mp hrun
    have hkey := resolveIdents_walked key h hbinds ht
    have hbinds' := hkey.binds hbinds (resolveIdents_scopes key ht)
    have hvalue := resolveIdents_walked value hkey.distinct hbinds' hu
    have hrest := resolveEntries_walked rest hvalue.distinct
      (hvalue.binds hbinds' (resolveIdents_scopes value hu)) hrun
    rw [hvalue.length, hkey.length] at hrest
    rw [hkey.length] at hvalue
    exact (hkey.trans hvalue).trans hrest

end

end Walks

/-! ## The resolver -/

/-- The walk of the whole expression begins with nothing bound. -/
theorem resolveIdents_initial {types : TypeMap} {e : Expr ℤ} {s : ResolverState}
    (h : resolveIdents types e .initial = .ok s) :
    List.Forall₂ (Stamps s) s.idents (references [] 0 e) ∧ s.Distinct ∧
      s.comprehensions.map ComprehensionStamp.id = comprehensionIds e := by
  have hlocal : ∀ r, ResolverState.initial.localOf r = none := fun r => by cases r <;> rfl
  have hdistinct : ResolverState.initial.Distinct :=
    ⟨fun hr _ => (nomatch (hlocal _).symm.trans hr), fun hr => (nomatch (hlocal _).symm.trans hr)⟩
  have hwalked := resolveIdents_walked e hdistinct ⟨fun _ h => (nomatch h), .nil⟩ h
  obtain ⟨stamps, hidents, hstamps⟩ := hwalked.idents
  exact ⟨hidents ▸ hstamps, hwalked.distinct, hwalked.comprehensions⟩

/-- **Identifier resolution is lexical scoping.** Every identifier is stamped with the local of the
variable that the rules of scope say, different variables have different locals, and comprehensions
are stamped from the outermost in; every expression leaves the scopes as they were; and if the
checker has given references the types of their variables, the walk comes to its end. -/
theorem resolveIdents_lexical :
    (∀ (types : TypeMap) (e : Expr ℤ) (s : ResolverState),
      resolveIdents types e .initial = .ok s →
        List.Forall₂ (Stamps s) s.idents (references [] 0 e) ∧ s.Distinct ∧
          s.comprehensions.map ComprehensionStamp.id = comprehensionIds e) ∧
    (∀ (types : TypeMap) (e : Expr ℤ) (s s' : ResolverState),
      resolveIdents types e s = .ok s' → s'.scopes = s.scopes) ∧
    ∀ (types : TypeMap) (globals : String → NodeRepr) (e : Expr ℤ), TypedIn types globals [] e →
      e.Forall (IdentKnown types) → ∃ s, resolveIdents types e .initial = .ok s :=
  ⟨fun _ _ _ h => resolveIdents_initial h, fun _ e _ _ h => resolveIdents_scopes e h,
    fun _ _ _ htyped hknown => resolveIdents_ok htyped hknown⟩

/-- A loop whose step is its variable, and whose result is the accumulator of the same name in a loop
around it. -/
def shadowingExpr : Expr ℤ :=
  .comprehension 1 "x" "" "r" (.list 2 [] []) (.const 3 (.bool true)) (.const 4 (.bool true))
    (.comprehension 5 "x" "" "r" (.ident 6 "x") (.const 7 (.bool true)) (.const 8 (.bool true))
      (.ident 9 "x") (.ident 10 "r"))
    (.ident 11 "r")

/-- The types of its identifiers. -/
def shadowingTypes : TypeMap
  | 6 => some (.list (.primitive .int64))
  | 9 => some (.primitive .int64)
  | 10 | 11 => some (.primitive .bool)
  | _ => none

/-- Of a loop in a loop with the same names. -/
theorem resolveIdents_lexical_shadowing :
    ∃ s, resolveIdents shadowingTypes shadowingExpr .initial = .ok s ∧
      List.Forall₂ (Stamps s) s.idents
        [(6, .bound 0 .iter), (9, .bound 1 .iter), (10, .bound 1 .accu), (11, .bound 0 .accu)] :=
  have htyped : TypedIn shadowingTypes (fun _ => .unknown) [] shadowingExpr :=
    ⟨.list, .unknown, .bool, trivial, trivial, trivial,
      ⟨.int, .unknown, .bool, rfl, trivial, trivial, rfl, rfl⟩, rfl⟩
  have ⟨s, hs⟩ := resolveIdents_lexical.2.2 shadowingTypes (fun _ => .unknown) shadowingExpr htyped
    (by simp [shadowingExpr, shadowingTypes, Expr.Forall, ForallList, IdentKnown, nodeRepr, reprOf,
      PrimitiveType.repr])
  ⟨s, hs, (resolveIdents_lexical.1 _ _ s hs).1⟩

end CelWasm
