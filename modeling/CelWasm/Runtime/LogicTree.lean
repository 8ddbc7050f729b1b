import CelWasm.Runtime.ThreeValued

/-!
# Runtime/LogicTree — what a tree of `cel_and` or `cel_or` calls decides

`verdict` says what a list of three-valued operands comes to, with no order of evaluation in it: the
absorbing bool if it occurs, else UNKNOWN with every id, else the first ERROR, else the other bool.
`verdict` turns concatenation into one kernel call, so every bracketing of a list evaluates to the
verdict of the list.

An operand of any other kind is absorbed like the rest, but where it is not, the call that reads it
directly is a TYPE_MISMATCH whatever its other operand — `operands` makes that call the operand.
-/

namespace CelWasm

/-! ## The verdict of a list of operands -/

namespace CelValue

def isUnknown : CelValue → Bool
  | unknown _ => true
  | _ => false

/-- The code of an ERROR. -/
def errorCode? : CelValue → Option CelErr
  | error e => some e
  | _ => none

end CelValue

/-- Every id an operand carries. -/
def unionIds (ops : List CelValue) : UnknownSet := ops.foldr (fun v s => v.unknownIds ∪ s) ∅

/-- Deciding from what the operands hold: the absorber, some UNKNOWN, these ids, a first error. -/
def decision (absorber absorbed unknown : Bool) (ids : UnknownSet) (firstError : Option CelErr) :
    CelValue :=
  if absorbed then .bool absorber
  else if unknown then .unknown ids
  else match firstError with
    | some e => .error e
    | none => .bool !absorber

/-- **The order-insensitive meaning of a logical operator** with absorbing bool `absorber`. -/
def verdict (absorber : Bool) (ops : List CelValue) : CelValue :=
  decision absorber (ops.any (·.isBool absorber)) (ops.any (·.isUnknown)) (unionIds ops)
    (ops.findSome? (·.errorCode?))

@[simp] theorem unionIds_cons (v : CelValue) (l : List CelValue) :
    unionIds (v :: l) = v.unknownIds ∪ unionIds l := rfl

theorem unionIds_append (l m : List CelValue) : unionIds (l ++ m) = unionIds l ∪ unionIds m := by
  induction l with
  | nil => exact (SortedSet.empty_union _).symm
  | cons v l ih => rw [List.cons_append, unionIds_cons, ih, unionIds_cons, SortedSet.union_assoc]

/-- **The ids of a verdict are exactly the ids of the operands.** -/
theorem mem_unionIds {x : ℕ} {l : List CelValue} :
    x ∈ unionIds l ↔ ∃ s, .unknown s ∈ l ∧ x ∈ s := by
  induction l with
  | nil => simp [unionIds]
  | cons v l ih =>
    rw [unionIds_cons, SortedSet.mem_union, ih]
    cases v <;> simp [CelValue.unknownIds]

theorem unionIds_eq_empty {l : List CelValue} (h : l.any (·.isUnknown) = false) :
    unionIds l = ∅ := by
  ext x
  simp only [mem_unionIds, SortedSet.notMem_empty, iff_false, not_exists, not_and]
  intro s hs
  have := List.any_eq_false.mp h _ hs
  exact absurd rfl this

/-- One operand decides for itself. -/
theorem verdict_singleton {absorber : Bool} {v : CelValue} (h : is3vlKind v = true) :
    verdict absorber [v] = v := by
  cases v with
  | bool b => cases b <;> cases absorber <;> rfl
  | unknown s =>
    simp [verdict, decision, CelValue.isBool, CelValue.isUnknown, CelValue.unknownIds, unionIds]
  | error e => rfl
  | _ => exact absurd h Bool.false_ne_true

/-- A kernel call on two decisions is the decision of what both sides hold. -/
theorem granted_logicKernel_decision (absorber a b u v : Bool) (s t : UnknownSet)
    (e f : Option CelErr) (hs : u = false → s = ∅) (ht : v = false → t = ∅) :
    (logicKernel absorber (decision absorber a u s e) (decision absorber b v t f)).granted
      = .ok (decision absorber (a || b) (u || v) (s ∪ t) (e.or f)) := by
  have hne : (!absorber) ≠ absorber := by simp
  cases a
  · cases b
    · cases u <;> cases v
      · cases e <;> cases f <;>
          simp [decision, logicKernel, logicUnknownErrorTail, is3vlKind, CelValue.isBool]
      · cases e <;>
          simp [decision, logicKernel, logicUnknownErrorTail, is3vlKind, CelValue.isBool, hs rfl]
      · cases f <;>
          simp [decision, logicKernel, logicUnknownErrorTail, is3vlKind, CelValue.isBool, ht rfl]
      · simp [decision, logicKernel, logicUnknownErrorTail, is3vlKind, CelValue.isBool]
    · simp [decision, logicKernel]
  · simp [decision, logicKernel]

/-- **A kernel call on two verdicts is the verdict of both lists** — the operators are associative on
the three-valued kinds, and the absorber, the ids and the first error all survive regrouping. -/
theorem granted_logicKernel_verdict (absorber : Bool) (l m : List CelValue) :
    (logicKernel absorber (verdict absorber l) (verdict absorber m)).granted
      = .ok (verdict absorber (l ++ m)) := by
  rw [verdict, verdict, granted_logicKernel_decision _ _ _ _ _ _ _ _ _ unionIds_eq_empty
    unionIds_eq_empty, verdict, List.any_append, List.any_append, unionIds_append,
    List.findSome?_append]

/-! ## One call, operand by operand -/

/-- The absorber is the result exactly when one operand is the absorber — whatever the other is. -/
theorem isBool_logicKernel (absorber : Bool) (a b : CelValue) :
    ∃ v, (logicKernel absorber a b).granted = .ok v ∧
      v.isBool absorber = (a.isBool absorber || b.isBool absorber) := by
  unfold logicKernel
  split_ifs with habs hkind
  · exact ⟨.bool absorber, rfl, by simp [habs]⟩
  · exact ⟨.error .typeMismatch, rfl, (Bool.eq_false_of_not_eq_true habs).symm⟩
  · rw [Bool.eq_false_of_not_eq_true habs]
    rw [Bool.or_eq_true, not_or] at habs
    split
    · exact ⟨b, rfl, Bool.eq_false_of_not_eq_true habs.2⟩
    · exact ⟨a, rfl, Bool.eq_false_of_not_eq_true habs.1⟩
    · unfold logicUnknownErrorTail
      split
      · exact ⟨_, granted_celUnknownMerge _ _, rfl⟩
      · exact ⟨_, rfl, rfl⟩
      · exact ⟨_, rfl, rfl⟩
      · exact ⟨a, rfl, Bool.eq_false_of_not_eq_true habs.1⟩

/-- A call that reads an operand of another kind is a type error, unless the absorber saves it. -/
theorem granted_logicKernel_stray {absorber : Bool} {a b : CelValue}
    (h : (is3vlKind a && is3vlKind b) = false) :
    (logicKernel absorber a b).granted
      = .ok (if a.isBool absorber || b.isBool absorber then .bool absorber
        else .error .typeMismatch) := by
  unfold logicKernel
  rw [h]
  split_ifs with habs hkind
  · rfl
  · rfl
  · exact absurd rfl hkind

/-! ## Trees of calls -/

/-- A bracketing of a list of operands into binary calls. -/
inductive LogicTree
  | operand (v : CelValue)
  | call (left right : LogicTree)

namespace LogicTree

/-- The operands, left to right. -/
def leaves : LogicTree → List CelValue
  | operand v => [v]
  | call l r => l.leaves ++ r.leaves

/-- Evaluate every call of the tree with one kernel. -/
def eval (kernel : CelValue → CelValue → Kernel CelValue) : LogicTree → Kernel CelValue
  | operand v => return v
  | call l r => do kernel (← l.eval kernel) (← r.eval kernel)

/-- A lone operand that is neither bool, ERROR nor UNKNOWN. -/
def isStray : LogicTree → Bool
  | operand v => !is3vlKind v
  | call _ _ => false

/-- The operands once every call that reads a stray directly has become one: the absorber where it
occurs below that call, a type error where it does not. -/
def operands (absorber : Bool) : LogicTree → List CelValue
  | operand v => [v]
  | call l r =>
    if l.isStray || r.isStray then
      if (l.leaves ++ r.leaves).any (·.isBool absorber) then [.bool absorber]
      else [.error .typeMismatch]
    else l.operands absorber ++ r.operands absorber

theorem granted_eval_call {kernel : CelValue → CelValue → Kernel CelValue} {l r : LogicTree}
    {a b : CelValue} (hl : (l.eval kernel).granted = .ok a) (hr : (r.eval kernel).granted = .ok b) :
    ((call l r).eval kernel).granted = (kernel a b).granted := by
  simp only [eval, Prog.granted_bind, hl, hr]
  rfl

variable (absorber : Bool)

/-- **The absorber survives every bracketing and every other operand**, and nothing else makes it. -/
theorem isBool_eval : ∀ t : LogicTree, ∃ v, (t.eval (logicKernel absorber)).granted = .ok v ∧
    v.isBool absorber = t.leaves.any (·.isBool absorber)
  | operand v => ⟨v, rfl, by simp [leaves]⟩
  | call l r => by
    obtain ⟨a, ha, ha'⟩ := isBool_eval l
    obtain ⟨b, hb, hb'⟩ := isBool_eval r
    obtain ⟨v, hv, hv'⟩ := isBool_logicKernel absorber a b
    refine ⟨v, (granted_eval_call ha hb).trans hv, ?_⟩
    rw [hv', ha', hb', leaves, List.any_append]

/-- What a lone operand of another kind evaluates to is of another kind. -/
theorem is3vlKind_of_isStray {t : LogicTree} (h : t.isStray = true) {a : CelValue}
    (ha : (t.eval (logicKernel absorber)).granted = .ok a) : is3vlKind a = false := by
  cases t with
  | operand v =>
    obtain rfl : v = a := Except.ok.inj ha
    simpa [isStray] using h
  | call l r => exact absurd h Bool.false_ne_true

/-- **Every tree of calls is the verdict of its operands.** -/
theorem eval_eq_verdict : ∀ t : LogicTree, t.isStray = false →
    (t.eval (logicKernel absorber)).granted = .ok (verdict absorber (t.operands absorber))
  | operand v, h => by
    have hv : is3vlKind v = true := by simpa [isStray] using h
    rw [operands, verdict_singleton hv]
    rfl
  | call l r, _ => by
    rw [operands]
    by_cases hs : (l.isStray || r.isStray) = true
    · obtain ⟨a, ha, ha'⟩ := isBool_eval absorber l
      obtain ⟨b, hb, hb'⟩ := isBool_eval absorber r
      have hkind : (is3vlKind a && is3vlKind b) = false := by
        rcases Bool.or_eq_true _ _ ▸ hs with hs | hs
        · rw [is3vlKind_of_isStray absorber hs ha, Bool.false_and]
        · rw [is3vlKind_of_isStray absorber hs hb, Bool.and_false]
      rw [granted_eval_call ha hb, granted_logicKernel_stray hkind, ha', hb', if_pos hs,
        List.any_append]
      split <;> rw [verdict_singleton rfl]
    · rw [if_neg hs, ← granted_logicKernel_verdict]
      rw [Bool.or_eq_true, not_or] at hs
      exact granted_eval_call (eval_eq_verdict l (Bool.eq_false_of_not_eq_true hs.1))
        (eval_eq_verdict r (Bool.eq_false_of_not_eq_true hs.2))

/-- With three-valued operands only, no call is special. -/
theorem operands_eq_leaves : ∀ t : LogicTree, t.leaves.all is3vlKind = true →
    t.operands absorber = t.leaves
  | operand _, _ => rfl
  | call l r, h => by
    rw [leaves, List.all_append, Bool.and_eq_true] at h
    have stray : ∀ t : LogicTree, t.leaves.all is3vlKind = true → t.isStray = false := by
      rintro (v | ⟨l, r⟩) ht
      · simpa [leaves, isStray] using ht
      · rfl
    rw [operands, stray l h.1, stray r h.2, leaves, operands_eq_leaves l h.1,
      operands_eq_leaves r h.2]
    rfl

end LogicTree

/-! ## De Morgan -/

/-- The pairs on which negation does not pass through: a stray operand turns the call into a type
error, but its negation stays an ERROR that an UNKNOWN outranks and an earlier ERROR precedes. -/
def negationClashes (a b : CelValue) : Prop :=
  is3vlKind a = false ∧ b.isUnknown = true ∨
    is3vlKind b = false ∧ (a.isUnknown = true ∨ ∃ e, a = .error e ∧ e ≠ .typeMismatch)

theorem is3vlKind_cases {v : CelValue} (h : is3vlKind v = true) :
    (∃ b, v = .bool b) ∨ (∃ s, v = .unknown s) ∨ ∃ e, v = .error e := by
  cases v <;> simp_all [is3vlKind]

theorem celNot_stray {v : CelValue} (h : is3vlKind v = false) :
    celNot v = .ret (.error .typeMismatch) := by
  cases v <;> first | rfl | exact absurd h Bool.noConfusion

theorem isBool_stray {v : CelValue} (h : is3vlKind v = false) (b : Bool) : v.isBool b = false := by
  cases v <;> first | rfl | exact absurd h Bool.noConfusion

theorem isUnknown_stray {v : CelValue} (h : is3vlKind v = false) : v.isUnknown = false := by
  cases v <;> first | rfl | exact absurd h Bool.noConfusion

/-- `!(a && b)`, as the kernels compute it. -/
def notAnd (a b : CelValue) : Kernel CelValue := do celNot (← celAnd a b)

/-- `!a || !b`, as the kernels compute it. -/
def orNots (a b : CelValue) : Kernel CelValue := do celOr (← celNot a) (← celNot b)

theorem deMorgan_of_is3vlKind {a b : CelValue} (ha : is3vlKind a = true) (hb : is3vlKind b = true) :
    (notAnd a b).granted = (orNots a b).granted := by
  rcases is3vlKind_cases ha with ⟨x, rfl⟩ | ⟨s, rfl⟩ | ⟨e, rfl⟩ <;>
    rcases is3vlKind_cases hb with ⟨y, rfl⟩ | ⟨t, rfl⟩ | ⟨f, rfl⟩
  · cases x <;> cases y <;> rfl
  · cases x <;> rfl
  · cases x <;> rfl
  · cases y <;> rfl
  · simp only [notAnd, orNots, celNot, celAnd, celOr, Prog.granted_bind, Prog.granted_pure]
    rw [show (logicKernel false (.unknown s) (.unknown t)).granted = .ok (.unknown (s ∪ t)) from
      granted_celUnknownMerge s t]
    exact (granted_celUnknownMerge s t).symm
  · rfl
  · cases y <;> rfl
  · rfl
  · rfl

/-- A stray operand leaves the conjunction a type error unless the other side is `false`. -/
theorem granted_notAnd_stray {a b : CelValue} (h : (is3vlKind a && is3vlKind b) = false) :
    (notAnd a b).granted
      = .ok (if a.isBool false || b.isBool false then .bool true else .error .typeMismatch) := by
  rw [notAnd, celAnd, Prog.granted_bind, granted_logicKernel_stray h]
  split <;> rfl

/-- A stray operand on the left becomes the leftmost error of the disjunction. -/
theorem granted_orNots_stray_left {a b : CelValue} (ha : is3vlKind a = false) :
    (orNots a b).granted
      = (do celOr (.error .typeMismatch) (← celNot b) : Kernel CelValue).granted := by
  rw [orNots, celNot_stray ha]
  rfl

/-- A stray operand on the right becomes its last error. -/
theorem granted_orNots_stray_right {a b : CelValue} (hb : is3vlKind b = false) :
    (orNots a b).granted
      = (do celOr (← celNot a) (.error .typeMismatch) : Kernel CelValue).granted := by
  rw [orNots, celNot_stray hb]
  rfl

/-- With a stray on the left, only an UNKNOWN on the right clashes. -/
theorem negationClashes_stray_left {a b : CelValue} (ha : is3vlKind a = false) :
    negationClashes a b ↔ b.isUnknown = true := by
  refine ⟨fun h => ?_, fun h => .inl ⟨ha, h⟩⟩
  rcases h with ⟨-, h⟩ | ⟨-, h | ⟨e, rfl, -⟩⟩
  · exact h
  · exact absurd h (by simp [isUnknown_stray ha])
  · exact absurd ha Bool.noConfusion

/-- With a stray on the right only, an UNKNOWN or another error on the left clashes. -/
theorem negationClashes_stray_right {a b : CelValue} (ha : is3vlKind a = true)
    (hb : is3vlKind b = false) :
    negationClashes a b ↔ a.isUnknown = true ∨ ∃ e, a = .error e ∧ e ≠ .typeMismatch := by
  simp [negationClashes, ha, hb]

/-- **De Morgan's law holds of every pair but the clashing ones.** -/
theorem deMorgan_iff (a b : CelValue) :
    (notAnd a b).granted = (orNots a b).granted ↔ ¬ negationClashes a b := by
  cases ha : is3vlKind a
  · rw [granted_notAnd_stray (by rw [ha, Bool.false_and]), granted_orNots_stray_left ha,
      isBool_stray ha, negationClashes_stray_left ha]
    cases hb : is3vlKind b
    · rw [celNot_stray hb, isBool_stray hb]
      exact iff_of_true rfl (by simp [isUnknown_stray hb])
    · rcases is3vlKind_cases hb with ⟨y, rfl⟩ | ⟨t, rfl⟩ | ⟨f, rfl⟩
      · exact iff_of_true (by cases y <;> rfl) Bool.noConfusion
      · exact iff_of_false (fun h => CelValue.noConfusion (Except.ok.inj h)) (not_not.mpr rfl)
      · exact iff_of_true rfl Bool.noConfusion
  · cases hb : is3vlKind b
    · rw [granted_notAnd_stray (by rw [hb, Bool.and_false]), granted_orNots_stray_right hb,
        isBool_stray hb, negationClashes_stray_right ha hb, Bool.or_false]
      rcases is3vlKind_cases ha with ⟨x, rfl⟩ | ⟨s, rfl⟩ | ⟨e, rfl⟩
      · exact iff_of_true (by cases x <;> rfl) (by simp [CelValue.isUnknown])
      · exact iff_of_false (fun h => CelValue.noConfusion (Except.ok.inj h))
          (by simp [CelValue.isUnknown])
      · by_cases he : e = .typeMismatch
        · exact iff_of_true (by rw [he]; rfl) (by simp [CelValue.isUnknown, he])
        · refine iff_of_false (fun h => he ?_) (by simp [CelValue.isUnknown, he])
          exact (CelValue.error.inj (Except.ok.inj h)).symm
    · exact iff_of_true (deMorgan_of_is3vlKind ha hb) (by simp [negationClashes, ha, hb])

/-! ## The logical kernels -/

/-- `kernel` is the logical operator with absorbing bool `absorber`: its trees absorb, their
three-valued operands decide by `verdict`, and a stray operand makes its own call a type error. -/
structure DecidesTrees (absorber : Bool) (kernel : CelValue → CelValue → Kernel CelValue) : Prop where
  absorbs : ∀ t : LogicTree, t.leaves.any (·.isBool absorber) = true →
    (t.eval kernel).granted = .ok (.bool absorber)
  decides : ∀ t : LogicTree, t.leaves.all is3vlKind = true →
    (t.eval kernel).granted = .ok (verdict absorber t.leaves)
  stray : ∀ t : LogicTree, t.isStray = false →
    (t.eval kernel).granted = .ok (verdict absorber (t.operands absorber))

theorem decidesTrees_logicKernel (absorber : Bool) :
    DecidesTrees absorber (logicKernel absorber) where
  absorbs t h := by
    obtain ⟨v, hv, hv'⟩ := LogicTree.isBool_eval absorber t
    rw [hv, CelValue.isBool_iff.mp (hv'.trans h)]
  decides t h := by
    have hs : t.isStray = false := by
      cases t with
      | operand v => simpa [LogicTree.leaves, LogicTree.isStray] using h
      | call l r => rfl
    rw [LogicTree.eval_eq_verdict absorber t hs, LogicTree.operands_eq_leaves absorber t h]
  stray := LogicTree.eval_eq_verdict absorber

/-- **`cel_and` and `cel_or` decide every bracketing alike**, and `cel_not` exchanges them on every
pair of operands but the clashing ones. -/
theorem logicalOperators_orderInsensitive :
    DecidesTrees false celAnd ∧ DecidesTrees true celOr ∧
      ∀ a b, (notAnd a b).granted = (orNots a b).granted ↔ ¬ negationClashes a b :=
  ⟨decidesTrees_logicKernel false, decidesTrees_logicKernel true, deMorgan_iff⟩

/-- A stray operand hides the UNKNOWN beside it: `5 && <unknown>` is a type error. -/
theorem strayOperand_hides_unknown :
    ¬ ∀ t : LogicTree, (t.eval celAnd).granted = .ok (verdict false t.leaves) := fun h =>
  CelValue.noConfusion
    (Except.ok.inj (h (.call (.operand (.int 5)) (.operand (.unknown ⟨[1], by simp⟩)))))

end CelWasm
