import CelWasm.Compiler.IdentResolver

/-!
# Compiler/GateSound — what an accepted expression may still contain

Every node the gate walks is checked, so what it promises codegen can fail in two ways only: inside a
sub-tree it does not walk, or at a type it lets pass though codegen has no representation for it.
-/

namespace CelWasm

variable (types : TypeMap)

/-- **What codegen relies on at a node**: it converts nothing dynamic, and an identifier or a constant
has a representation. -/
def Lowerable (e : Expr ℤ) : Prop :=
  isConversionOverDyn types e = false ∧
    match e with
    | .const id _ | .ident id _ => nodeRepr types id ≠ .unknown
    | _ => True

/-- A type the gate has no label for and codegen no representation: an enumerator left unspecified, or
an opaque type other than the optional. -/
def TypeSpec.Unmapped : TypeSpec → Prop
  | .primitive p | .wrapper p => p = .unspecified
  | .wellKnown w => w = .unspecified
  | .abstract name _ => name ≠ "optional_type"
  | _ => False

/-- A leaf the gate walks is missed by nothing: its type is mapped, and a leaf without an id, which the
gate passes over, has a type at all. -/
def LeafMapped (id : ℤ) : Prop :=
  (id = 0 → nodeRepr types id ≠ .unknown) ∧ ∀ t, types id = some t → ¬t.Unmapped

mutual

/-- **Nothing is missed**: the leaves the gate walks are mapped, and the sub-trees it does not walk,
arguments in a list to be formatted or folded and the step of a `cel.bind`, are lowerable. -/
def Expr.Unmissed : Expr ℤ → Prop
  | .const id _ | .ident id _ => LeafMapped types id
  | .select _ operand _ _ => operand.Unmissed
  | .call _ function receiver operands => UnmissedCall function receiver operands
  | .list _ elements _ => UnmissedAll elements
  | .map _ entries => entries.Unmissed
  | .struct _ _ _ values => UnmissedAll values
  | .comprehension _ _ _ _ iterRange accuInit loopCondition loopStep result =>
    if isCelBindShape iterRange loopCondition then
      accuInit.Unmissed ∧ loopCondition.Unmissed ∧ loopStep.Forall (Lowerable types) ∧
        result.Unmissed
    else
      iterRange.Unmissed ∧ accuInit.Unmissed ∧ loopCondition.Unmissed ∧ loopStep.Unmissed ∧
        result.Unmissed

def UnmissedCall (function : String) (receiver : Bool) : List (Expr ℤ) → Prop
  | [] => True
  | first :: rest =>
    if receiver then
      first.Unmissed ∧
        if isFormatCallWithListLiteralArgs function rest then ForallList (Lowerable types) rest
        else UnmissedAll rest
    else if isMathMinMaxCall function receiver then
      (if isListExpr first then first.Forall (Lowerable types) else first.Unmissed) ∧
        UnmissedFolded rest
    else first.Unmissed ∧ UnmissedAll rest

def UnmissedFolded : List (Expr ℤ) → Prop
  | [] => True
  | arg :: rest =>
    (if isListExpr arg then arg.Forall (Lowerable types) else arg.Unmissed) ∧ UnmissedFolded rest

def UnmissedAll : List (Expr ℤ) → Prop
  | [] => True
  | e :: rest => e.Unmissed ∧ UnmissedAll rest

def MapEntries.Unmissed : MapEntries ℤ → Prop
  | .nil => True
  | .cons _ key value rest => key.Unmissed ∧ value.Unmissed ∧ rest.Unmissed

end

/-! ## Leaves -/

theorem TypeSpec.Unmapped.reprOf {t : TypeSpec} (h : t.Unmapped) : reprOf t = .unknown := by
  cases t with
  | primitive p | wrapper p =>
    obtain rfl : p = .unspecified := h
    rfl
  | wellKnown w =>
    obtain rfl : w = .unspecified := h
    rfl
  | abstract name parameters => exact if_neg h
  | _ => exact h.elim

/-- A type without a label is mapped or has no representation. -/
theorem reprOf_ne_unknown {t : TypeSpec} (hlabel : unacceptableLabel t = none) (h : ¬t.Unmapped) :
    reprOf t ≠ .unknown := by
  cases t with
  | unset | dyn | function | param _ | error => exact nomatch hlabel
  | primitive p | wrapper p => cases p <;> first | exact absurd rfl h | exact nofun
  | wellKnown w => cases w <;> first | exact absurd rfl h | exact nofun
  | abstract name parameters =>
    have hname : name = "optional_type" := not_not.mp h
    rw [reprOf, if_pos hname]
    exact nofun
  | _ => exact nofun

section Gate

variable {types} {formatTypeSpec : TypeSpec → String}

/-- **A leaf the gate lets pass has a representation** if and only if it is mapped. -/
theorem nodeRepr_ne_unknown_iff {id : ℤ} (h : checkSubsetType types formatTypeSpec id = []) :
    nodeRepr types id ≠ .unknown ↔ LeafMapped types id := by
  constructor
  · intro hknown
    refine ⟨fun _ => hknown, fun t ht hunmapped => hknown ?_⟩
    rw [nodeRepr, ht]
    exact hunmapped.reprOf
  · rintro ⟨hzero, hmapped⟩
    rw [checkSubsetType] at h
    split_ifs at h with hid
    · exact hzero hid
    · rw [nodeRepr]
      cases ht : types id with
      | none => simp [ht] at h
      | some t =>
        rw [ht] at h
        dsimp only at h
        cases hlabel : unacceptableLabel t with
        | some label => simp [hlabel] at h
        | none => exact reprOf_ne_unknown hlabel (hmapped t ht)

/-! ## The walk -/

/-- Only a call of `dyn` is passed through. -/
theorem isDynPassthroughCall_shape {id : ℤ} {function : String} {receiver : Bool}
    {operands : List (Expr ℤ)}
    (h : isDynPassthroughCall types (.call id function receiver operands) = true) :
    function = "dyn" ∧ receiver = false := by
  match receiver, operands with
  | false, [arg] =>
    rw [isDynPassthroughCall, Bool.and_eq_true] at h
    exact ⟨beq_iff_eq.mp h.1, rfl⟩
  | true, _ => simp [isDynPassthroughCall] at h
  | false, [] => simp [isDynPassthroughCall] at h
  | false, _ :: _ :: _ => simp [isDynPassthroughCall] at h

theorem checkSubsetCall_dyn {operands : List (Expr ℤ)} :
    checkSubsetCall types formatTypeSpec "dyn" false operands
      = checkSubsetNodes types formatTypeSpec operands := by
  cases operands with
  | nil => rfl
  | cons first rest => rfl

/-- An accepted call converts nothing dynamic, and its operands are accepted. -/
theorem checkSubsetNode_call {id : ℤ} {function : String} {receiver : Bool}
    {operands : List (Expr ℤ)}
    (h : checkSubsetNode types formatTypeSpec (.call id function receiver operands) = []) :
    isConversionOverDyn types (.call id function receiver operands) = false ∧
      checkSubsetCall types formatTypeSpec function receiver operands = [] := by
  rw [checkSubsetNode] at h
  split_ifs at h with hconversion hdyn hminmax
  · obtain ⟨rfl, rfl⟩ := isDynPassthroughCall_shape hdyn
    exact ⟨Bool.eq_false_iff.mpr hconversion, checkSubsetCall_dyn.trans h⟩
  · exact ⟨Bool.eq_false_iff.mpr hconversion, h⟩
  · exact ⟨Bool.eq_false_iff.mpr hconversion, (List.append_eq_nil_iff.mp h).2⟩

/-- The range of a `cel.bind` is an empty list. -/
theorem isCelBindShape_range {iterRange loopCondition : Expr ℤ}
    (h : isCelBindShape iterRange loopCondition = true) : iterRange.Forall (Lowerable types) := by
  unfold isCelBindShape at h
  split at h
  · exact ⟨⟨rfl, trivial⟩, trivial⟩
  · exact nomatch h

mutual

/-- **An accepted expression is lowerable throughout** if and only if nothing is missed. -/
theorem forall_lowerable_iff : ∀ e : Expr ℤ, checkSubsetNode types formatTypeSpec e = [] →
    (e.Forall (Lowerable types) ↔ e.Unmissed types)
  | .const id _, h => by
    rw [checkSubsetNode] at h
    rw [Expr.Forall, Lowerable, Expr.Unmissed, ← nodeRepr_ne_unknown_iff h]
    exact and_iff_right rfl
  | .ident id _, h => by
    rw [checkSubsetNode] at h
    rw [Expr.Forall, Lowerable, Expr.Unmissed, ← nodeRepr_ne_unknown_iff h]
    exact and_iff_right rfl
  | .select id operand field testOnly, h => by
    have hoperand : checkSubsetNode types formatTypeSpec operand = [] := by
      rw [checkSubsetNode] at h
      split_ifs at h
      · exact h
      · exact (List.append_eq_nil_iff.mp h).2
    rw [Expr.Forall, Expr.Unmissed, forall_lowerable_iff operand hoperand]
    exact and_iff_right ⟨rfl, trivial⟩
  | .call id function receiver operands, h => by
    obtain ⟨hconversion, hcall⟩ := checkSubsetNode_call h
    rw [Expr.Forall, Expr.Unmissed, forallCall_lowerable_iff function receiver operands hcall]
    exact and_iff_right ⟨hconversion, trivial⟩
  | .list id elements _, h => by
    rw [checkSubsetNode, List.append_eq_nil_iff] at h
    rw [Expr.Forall, Expr.Unmissed, forallList_lowerable_iff elements h.2]
    exact and_iff_right ⟨rfl, trivial⟩
  | .map id entries, h => by
    rw [checkSubsetNode, List.append_eq_nil_iff] at h
    rw [Expr.Forall, Expr.Unmissed, forallEntries_lowerable_iff entries h.2]
    exact and_iff_right ⟨rfl, trivial⟩
  | .struct id _ _ values, h => by
    rw [checkSubsetNode, List.append_eq_nil_iff] at h
    rw [Expr.Forall, Expr.Unmissed, forallList_lowerable_iff values h.2]
    exact and_iff_right ⟨rfl, trivial⟩
  | .comprehension id _ _ _ iterRange accuInit loopCondition loopStep result, h => by
    rw [checkSubsetNode] at h
    simp only [List.append_eq_nil_iff] at h
    obtain ⟨⟨⟨⟨⟨-, hrange⟩, hinit⟩, hcondition⟩, hstep⟩, hresult⟩ := h
    rw [Expr.Forall, Expr.Unmissed, forall_lowerable_iff accuInit hinit,
      forall_lowerable_iff loopCondition hcondition, forall_lowerable_iff result hresult]
    split_ifs with hbind
    · exact (and_iff_right ⟨rfl, trivial⟩).trans (and_iff_right (isCelBindShape_range hbind))
    · rw [if_neg hbind] at hrange hstep
      rw [forall_lowerable_iff iterRange hrange, forall_lowerable_iff loopStep hstep]
      exact and_iff_right ⟨rfl, trivial⟩

theorem forallCall_lowerable_iff (function : String) (receiver : Bool) :
    ∀ operands : List (Expr ℤ),
    checkSubsetCall types formatTypeSpec function receiver operands = [] →
    (ForallList (Lowerable types) operands ↔ UnmissedCall types function receiver operands)
  | [], _ => Iff.rfl
  | first :: rest, h => by
    rw [checkSubsetCall] at h
    rw [ForallList, UnmissedCall]
    split_ifs at h ⊢ with hreceiver hformat hminmax hlist
    · rw [forall_lowerable_iff first (List.append_eq_nil_iff.mp h).1]
    · rw [List.append_eq_nil_iff] at h
      rw [forall_lowerable_iff first h.1, forallList_lowerable_iff rest h.2]
    · rw [forallFolded_lowerable_iff rest (List.append_eq_nil_iff.mp h).2]
    · rw [List.append_eq_nil_iff] at h
      rw [forall_lowerable_iff first h.1, forallFolded_lowerable_iff rest h.2]
    · rw [List.append_eq_nil_iff] at h
      rw [forall_lowerable_iff first h.1, forallList_lowerable_iff rest h.2]

theorem forallFolded_lowerable_iff : ∀ args : List (Expr ℤ),
    checkSubsetFolded types formatTypeSpec args = [] →
    (ForallList (Lowerable types) args ↔ UnmissedFolded types args)
  | [], _ => Iff.rfl
  | arg :: rest, h => by
    rw [checkSubsetFolded, List.append_eq_nil_iff] at h
    rw [ForallList, UnmissedFolded, forallFolded_lowerable_iff rest h.2]
    split_ifs with hlist
    · exact Iff.rfl
    · rw [if_neg hlist] at h
      rw [forall_lowerable_iff arg h.1]

theorem forallList_lowerable_iff : ∀ es : List (Expr ℤ),
    checkSubsetNodes types formatTypeSpec es = [] →
    (ForallList (Lowerable types) es ↔ UnmissedAll types es)
  | [], _ => Iff.rfl
  | e :: rest, h => by
    rw [checkSubsetNodes, List.append_eq_nil_iff] at h
    rw [ForallList, UnmissedAll, forall_lowerable_iff e h.1, forallList_lowerable_iff rest h.2]

theorem forallEntries_lowerable_iff : ∀ entries : MapEntries ℤ,
    checkSubsetMap types formatTypeSpec entries = [] →
    (entries.Forall (Lowerable types) ↔ entries.Unmissed types)
  | .nil, _ => Iff.rfl
  | .cons _ key value rest, h => by
    rw [checkSubsetMap, List.append_eq_nil_iff, List.append_eq_nil_iff] at h
    rw [MapEntries.Forall, MapEntries.Unmissed, forall_lowerable_iff key h.1.1,
      forall_lowerable_iff value h.1.2, forallEntries_lowerable_iff rest h.2]

end

end Gate

/-! ## The gate and what comes after it -/

/-- What is lowerable has representations for its identifiers. -/
theorem Lowerable.identKnown {e : Expr ℤ} (h : Lowerable types e) : IdentKnown types e := by
  cases e with
  | ident id name => exact h.2
  | _ => trivial

/-- **The gate is sound for code generation** exactly as far as this: an accepted expression is
lowerable at every node, and the resolver's checks hold, if and only if nothing is missed. -/
theorem gate_sound_iff (types : TypeMap) (formatTypeSpec : TypeSpec → String)
    (globals : String → NodeRepr) (e : Expr ℤ) (htyped : TypedIn types globals [] e)
    (haccepted : rejectDyn types formatTypeSpec e = .ok ()) :
    (e.Forall (Lowerable types) ∧ ∃ s, resolveIdents types e .initial = .ok s) ↔
      e.Unmissed types := by
  have hviolations : checkSubsetNode types formatTypeSpec e = [] := by
    rw [rejectDyn] at haccepted
    split at haccepted
    · assumption
    · exact nomatch haccepted
  rw [← forall_lowerable_iff e hviolations]
  exact and_iff_left_of_imp fun hlowerable =>
    resolveIdents_ok htyped (hlowerable.imp fun _ h => h.identKnown)

/-- `x + 1`, its nodes numbered from the root. -/
def incrementExpr : Expr ℤ := .call 1 "_+_" false [.ident 2 "x", .const 3 (.int 1)]

/-- The types of `x + 1`. -/
def incrementTypes : TypeMap := fun _ => some (.primitive .int64)

/-- An increment is accepted, and lowered. -/
theorem gate_sound_increment :
    incrementExpr.Forall (Lowerable incrementTypes) ∧
      ∃ s, resolveIdents incrementTypes incrementExpr .initial = .ok s := by
  refine (gate_sound_iff incrementTypes (fun _ => "") (fun _ => .int) incrementExpr
    ⟨rfl, trivial, trivial⟩ rfl).mpr ?_
  have hleaf : ∀ id : ℤ, LeafMapped incrementTypes id := by
    refine fun id => ⟨fun _ => nofun, fun t ht => ?_⟩
    obtain rfl := Option.some.inj ht
    exact nofun
  exact ⟨hleaf 2, hleaf 3, trivial⟩

/-- `cel.bind(x, dyn(1), true)`, its macro expanded. -/
def unusedBindExpr : Expr ℤ :=
  .comprehension 1 "#unused" "" "x" (.list 2 [] []) (.call 3 "dyn" false [.const 4 (.int 1)])
    (.const 5 (.bool false)) (.ident 6 "x") (.const 7 (.bool true))

/-- The types of `cel.bind(x, dyn(1), true)`. -/
def unusedBindTypes : TypeMap
  | 1 | 5 | 7 => some (.primitive .bool)
  | 2 => some (.list .dyn)
  | 3 | 6 => some .dyn
  | 4 => some (.primitive .int64)
  | _ => none

/-- `"%d".format([int(dyn(1u))])`. -/
def formattedExpr : Expr ℤ :=
  .call 1 "format" true
    [.const 2 (.string [37, 100]),
      .list 3 [.call 4 "int" false [.call 5 "dyn" false [.const 6 (.uint 1)]]] [false]]

/-- The types of `"%d".format([int(dyn(1u))])`. -/
def formattedTypes : TypeMap
  | 1 | 2 => some (.primitive .string)
  | 3 => some (.list (.primitive .int64))
  | 4 => some (.primitive .int64)
  | 5 => some .dyn
  | 6 => some (.primitive .uint64)
  | _ => none

/-- **The gate accepts a variable of no type, on which the resolver aborts, and a conversion of a
dynamic value.** -/
theorem gate_misses :
    TypedIn unusedBindTypes (fun _ => .unknown) [] unusedBindExpr ∧
      rejectDyn unusedBindTypes (fun _ => "") unusedBindExpr = .ok () ∧
      resolveIdents unusedBindTypes unusedBindExpr .initial = .error .abort ∧
      TypedIn formattedTypes (fun _ => .unknown) [] formattedExpr ∧
      rejectDyn formattedTypes (fun _ => "") formattedExpr = .ok () ∧
      ¬formattedExpr.Forall (Lowerable formattedTypes) := by
  refine ⟨⟨.unknown, .unknown, .unknown, trivial, ⟨trivial, trivial⟩, trivial, rfl, trivial⟩, rfl, rfl,
    ⟨trivial, ⟨⟨⟨⟨trivial, trivial⟩, trivial⟩, trivial⟩, trivial⟩⟩, rfl, ?_⟩
  rintro ⟨-, -, ⟨-, ⟨⟨hconversion, -⟩, -⟩, -⟩, -⟩
  exact nomatch hconversion

end CelWasm
