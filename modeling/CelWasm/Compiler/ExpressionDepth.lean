import CelWasm.Compiler.AstTraverse
import CelWasm.Eval.Marshal
import CelWasm.Library.DepthFirst

/-!
# Compiler/ExpressionDepth — the gate in front of the recursive passes

The passes behind the checker walk an expression by recursion, with one frame on the stack for each
node they have entered and not left. The front end measures the depth of the expression first, with a
list of work in place of recursion, and refuses what is too deep. What it measures is the most nodes
that are ever open in a walk, so the walks it lets through need no more frames than the bound
(`validateExpressionDepth_bounds_walk`).
-/

namespace CelWasm

variable {α : Type}

/-! ## The gate -/

/-- `kMaxExpressionNestingDepth`. -/
def kMaxExpressionNestingDepth : ℕ := 2048

/-- **`MeasureExprDepth`**, with `pushChildren` of these children for `PushExprChildren`. There are no
more rounds than nodes. -/
def measureExprDepth (root : Expr α) : Option ℕ :=
  measureFrom Expr.children root.postOrder.length [(root, 1)] 1

/-- The status an expression of such a depth is refused with. -/
def depthExceeded (depth : ℕ) : Status where
  code := .resourceExhausted
  message := "expression nesting depth " ++ toString depth ++ " exceeds the supported maximum " ++
    toString kMaxExpressionNestingDepth ++
    " — restructure or split the expression; deep operator chains and deeply nested aggregates " ++
    "compile to a wasm expression tree of the same depth " ++
    "(doc/implementation-plan/cleanup-backlog.md #45)"

/-- **`ValidateExpressionDepth`**. -/
def validateExpressionDepth (root : Expr α) : Option (Except Status Unit) :=
  (measureExprDepth root).map fun depth =>
    if depth ≤ kMaxExpressionNestingDepth then .ok () else .error (depthExceeded depth)

/-- The nodes of an expression are its root and those below the children. -/
theorem length_postOrder (e : Expr α) :
    e.postOrder.length = (e.children.map fun c => c.postOrder.length).sum + 1 := by
  rw [postOrder_eq, List.length_append, List.length_flatMap, List.length_singleton]

/-- **The measure ends**, with the least bound on the levels of the expression. -/
theorem measureExprDepth_eq (e : Expr α) :
    ∃ d, measureExprDepth e = some d ∧ ∀ b, d ≤ b ↔ WithinDepth Expr.children b e :=
  @measureFrom_singleton _ Expr.children (fun c => c.postOrder.length) length_postOrder e

/-! ## The open nodes of a walk -/

/-- What a visit does to the number of open nodes. -/
def Visit.change : Visit α → ℤ
  | enter _ => 1
  | leave _ => -1

/-- **The nodes that have been entered and not left.** -/
def openNodes (seen : List (Visit α)) : ℤ := (seen.map Visit.change).sum

@[simp] theorem openNodes_nil : openNodes ([] : List (Visit α)) = 0 := rfl

theorem openNodes_cons (v : Visit α) (seen : List (Visit α)) :
    openNodes (v :: seen) = v.change + openNodes seen := rfl

theorem openNodes_append (seen rest : List (Visit α)) :
    openNodes (seen ++ rest) = openNodes seen + openNodes rest := by
  rw [openNodes, List.map_append, List.sum_append]
  rfl

/-- **A walk leaves what it enters.** -/
theorem openNodes_visits (e : Expr α) : openNodes e.visits = 0 := by
  induction e using Expr.children_induction with
  | h e ih =>
    have hinner : ∀ es : List (Expr α), (∀ c ∈ es, openNodes c.visits = 0) →
        openNodes (es.flatMap Expr.visits) = 0 := by
      intro es hes
      induction es with
      | nil => rfl
      | cons c es ihList =>
        rw [List.forall_mem_cons] at hes
        rw [List.flatMap_cons, openNodes_append, hes.1, ihList hes.2, add_zero]
    rw [visits_eq, visitAround, openNodes_cons, openNodes_append, hinner _ ih]
    rfl

/-- At no time are more nodes open than so many. -/
def NestsAtMost (walk : List (Visit α)) (b : ℤ) : Prop := ∀ seen, seen <+: walk → openNodes seen ≤ b

section Nesting

variable {e : Expr α} {v : Visit α} {walk walk' : List (Visit α)} {b : ℤ}

theorem nestsAtMost_nil_iff : NestsAtMost ([] : List (Visit α)) b ↔ 0 ≤ b := by
  refine ⟨fun h => h [] (List.prefix_refl _), fun h seen hseen => ?_⟩
  rwa [List.prefix_nil.mp hseen]

theorem nestsAtMost_cons_iff : NestsAtMost (v :: walk) b ↔ 0 ≤ b ∧ NestsAtMost walk (b - v.change) := by
  constructor
  · intro h
    refine ⟨h [] List.nil_prefix, fun seen hseen => ?_⟩
    have hle := h (v :: seen) (List.cons_prefix_cons.mpr ⟨rfl, hseen⟩)
    rw [openNodes_cons] at hle
    omega
  · rintro ⟨hb, h⟩ walked hwalked
    obtain rfl | ⟨seen, rfl, hseen⟩ := List.prefix_cons_iff.mp hwalked
    · exact hb
    · have hle := h seen hseen
      rw [openNodes_cons]
      omega

theorem NestsAtMost.nonneg (h : NestsAtMost walk b) : 0 ≤ b := h [] List.nil_prefix

theorem nestsAtMost_append_iff :
    NestsAtMost (walk ++ walk') b ↔ NestsAtMost walk b ∧ NestsAtMost walk' (b - openNodes walk) := by
  induction walk generalizing b with
  | nil =>
    rw [List.nil_append, nestsAtMost_nil_iff, openNodes_nil, sub_zero]
    exact ⟨fun h => ⟨h.nonneg, h⟩, fun h => h.2⟩
  | cons v walk ih =>
    rw [List.cons_append, nestsAtMost_cons_iff, nestsAtMost_cons_iff, ih, openNodes_cons, and_assoc,
      sub_sub]

/-- Walks one behind the other. -/
theorem nestsAtMost_flatMap_iff {es : List (Expr α)} :
    NestsAtMost (es.flatMap Expr.visits) b ↔ 0 ≤ b ∧ ∀ e ∈ es, NestsAtMost e.visits b := by
  induction es with
  | nil => exact nestsAtMost_nil_iff.trans (and_iff_left fun _ h => absurd h List.not_mem_nil).symm
  | cons e es ih =>
    rw [List.flatMap_cons, nestsAtMost_append_iff, openNodes_visits, sub_zero, ih,
      List.forall_mem_cons]
    exact and_left_comm

/-- **A node is open around the walks of its children.** -/
theorem nestsAtMost_visits_iff :
    NestsAtMost e.visits b ↔ 1 ≤ b ∧ ∀ c ∈ e.children, NestsAtMost c.visits (b - 1) := by
  have hinner : openNodes (e.children.flatMap Expr.visits) = 0 := by
    have hsum := openNodes_visits e
    rw [visits_eq, visitAround, openNodes_cons, openNodes_append] at hsum
    change 1 + (_ + -1) = (0 : ℤ) at hsum
    omega
  rw [visits_eq, visitAround, nestsAtMost_cons_iff, nestsAtMost_append_iff, hinner, sub_zero,
    nestsAtMost_flatMap_iff, nestsAtMost_cons_iff, nestsAtMost_nil_iff]
  change 0 ≤ b ∧ (0 ≤ b - 1 ∧ _) ∧ 0 ≤ b - 1 ∧ 0 ≤ b - 1 - -1 ↔ _
  constructor
  · rintro ⟨-, ⟨hb, h⟩, -⟩
    exact ⟨by omega, h⟩
  · rintro ⟨hb, h⟩
    exact ⟨by omega, ⟨by omega, h⟩, by omega, by omega⟩

/-- **As many nodes are open as the expression has levels.** -/
theorem nestsAtMost_iff_withinDepth {k : ℕ} :
    NestsAtMost e.visits k ↔ WithinDepth Expr.children k e := by
  induction e using Expr.children_induction generalizing k with
  | h e ih =>
    cases k with
    | zero =>
      refine iff_of_false (fun h => ?_) (not_withinDepth_zero e)
      exact absurd (nestsAtMost_visits_iff.mp h).1 (by decide)
    | succ k =>
      rw [nestsAtMost_visits_iff, withinDepth_succ_iff, Nat.cast_succ, add_sub_cancel_right]
      refine ⟨fun h c hc => (ih c hc).mp (h.2 c hc), fun h => ⟨by omega, fun c hc => ?_⟩⟩
      exact (ih c hc).mpr (h c hc)

end Nesting

/-- The measured depth is the greatest number of nodes open at a time. -/
theorem isGreatest_openNodes {e : Expr α} {d : ℕ}
    (hd : ∀ b, d ≤ b ↔ WithinDepth Expr.children b e) :
    IsGreatest {n | ∃ seen, seen <+: e.visits ∧ openNodes seen = n} (d : ℤ) := by
  have hbound : NestsAtMost e.visits d := nestsAtMost_iff_withinDepth.mpr ((hd d).mp le_rfl)
  have hpos : 1 ≤ d := by
    by_contra hzero
    obtain rfl : d = 0 := by omega
    exact not_withinDepth_zero e ((hd 0).mp le_rfl)
  have hreached : ¬ NestsAtMost e.visits (d - 1 : ℕ) := fun h => by
    have hle := (hd _).mpr (nestsAtMost_iff_withinDepth.mp h)
    omega
  refine ⟨?_, ?_⟩
  · rw [NestsAtMost] at hreached
    push Not at hreached
    obtain ⟨seen, hseen, hlt⟩ := hreached
    have hle := hbound seen hseen
    exact ⟨seen, hseen, by omega⟩
  · rintro _ ⟨seen, hseen, rfl⟩
    exact hbound seen hseen

/-- **The gate bounds the walks behind it.** Every expression is measured, and its depth is the
greatest number of nodes that are open at a time of a walk. The expression passes exactly if at no
time more nodes are open than the bound; what is refused is refused with its depth. -/
theorem validateExpressionDepth_bounds_walk (e : Expr α) :
    ∃ depth : ℕ, measureExprDepth e = some depth ∧
      IsGreatest {n | ∃ seen, seen <+: e.visits ∧ openNodes seen = n} (depth : ℤ) ∧
      (validateExpressionDepth e = some (.ok ()) ↔
        ∀ seen, seen <+: e.visits → openNodes seen ≤ kMaxExpressionNestingDepth) ∧
      (validateExpressionDepth e ≠ some (.ok ()) →
        validateExpressionDepth e = some (.error (depthExceeded depth))) := by
  obtain ⟨d, hmeasure, hd⟩ := measureExprDepth_eq e
  have hvalidate : validateExpressionDepth e = some
      (if d ≤ kMaxExpressionNestingDepth then .ok () else .error (depthExceeded d)) := by
    unfold validateExpressionDepth
    rw [hmeasure]
    rfl
  refine ⟨d, hmeasure, isGreatest_openNodes hd, ?_, ?_⟩
  · change _ ↔ NestsAtMost e.visits (kMaxExpressionNestingDepth : ℕ)
    rw [nestsAtMost_iff_withinDepth, ← hd, hvalidate]
    split_ifs with hle
    · exact iff_of_true rfl hle
    · exact iff_of_false (by simp) hle
  · intro hrefused
    rw [hvalidate] at hrefused ⊢
    split_ifs with hle
    · rw [if_pos hle] at hrefused
      exact absurd rfl hrefused
    · rfl

end CelWasm
