import CelWasm.Compiler.AstTraverse
import CelWasm.Compiler.ConstAggregate

/-!
# Compiler/LiteralStamps — which nodes the first pass gives a place in rodata

Only constants and the literals made of them: what the pass writes is made of literals it can write all
the way down, and it changes nothing in the tree but stamps (`constAggregate_stamps`).
-/

namespace CelWasm

/-! ## Literals all the way down -/

/-- What can be materialised is made of what can be: -/
theorem isConstMaterializableList_mem : ∀ {es : List (Expr NodeRepr)},
    isConstMaterializableList es = true → ∀ c ∈ es, isConstMaterializable c = true
  | [], _ => fun _ hc => absurd hc List.not_mem_nil
  | _ :: _, h => by
    rw [isConstMaterializableList, Bool.and_eq_true_iff] at h
    exact List.forall_mem_cons.mpr ⟨h.1, isConstMaterializableList_mem h.2⟩

/-- …the elements of a list, and the keys and values of a map. -/
theorem isConstMaterializableEntries_mem : ∀ {entries : MapEntries NodeRepr},
    isConstMaterializableEntries entries = true →
    ∀ c ∈ entries.exprs, isConstMaterializable c = true
  | .nil, _ => fun _ hc => absurd hc List.not_mem_nil
  | .cons _ _ _ _, h => by
    simp only [isConstMaterializableEntries, Bool.and_eq_true_iff] at h
    exact List.forall_mem_cons.mpr ⟨h.1.1.2, List.forall_mem_cons.mpr
      ⟨h.1.2, isConstMaterializableEntries_mem h.2⟩⟩

/-- A literal that can be written is made of such literals. -/
theorem isConstMaterializable_child {e c : Expr NodeRepr} (h : isConstMaterializable e = true)
    (hc : c ∈ e.children) : isConstMaterializable c = true := by
  cases e with
  | const => exact absurd hc List.not_mem_nil
  | list _ elements optionals =>
    rw [isConstMaterializable, Bool.and_eq_true_iff] at h
    exact isConstMaterializableList_mem h.2 c hc
  | map _ entries =>
    rw [isConstMaterializable] at h
    exact isConstMaterializableEntries_mem h c hc
  | _ => exact nomatch h

/-- **Every node of a constant literal is one.** -/
theorem isConstMaterializable_node {e n : Expr NodeRepr} (h : isConstMaterializable e = true)
    (hn : n ∈ e.postOrder) : isConstMaterializable n = true := by
  induction e using Expr.children_induction with
  | h e ih =>
    rw [postOrder_eq] at hn
    obtain hn | hn := List.mem_append.mp hn
    · obtain ⟨c, hc, hn⟩ := List.mem_flatMap.mp hn
      exact ih c hc (isConstMaterializable_child h hc) hn
    · exact List.mem_singleton.mp hn ▸ h

/-! ## The tree stays -/

mutual

/-- Writing a literal changes nothing but stamps. -/
theorem mapAnn_materialize : ∀ (e : Expr Stamp) (b : StaticMemoryBuilder),
    (materialize e b).tree.mapAnn Stamp.repr = e.mapAnn Stamp.repr
  | .const _ _, _ => rfl
  | .list s elements optionals, b => by
    have hsame := mapAnn_materializeElements elements b
    rw [materialize]
    split
    · rfl
    · dsimp only
      split
      · rw [Expr.mapAnn, Expr.mapAnn, hsame]
      · rw [Expr.mapAnn, Expr.mapAnn, mapAnnList_stampRun, hsame]
  | .map s entries, b => by
    have hsame := mapAnn_materializeEntries entries b
    rw [materialize]
    split
    · rfl
    · dsimp only
      split
      · rw [Expr.mapAnn, Expr.mapAnn, hsame]
      · split
        · rw [Expr.mapAnn, Expr.mapAnn, hsame]
        · rw [Expr.mapAnn, Expr.mapAnn, mapAnn_stampEntries, hsame]
  | .ident _ _, _ | .select _ _ _ _, _ | .call _ _ _ _, _ | .struct _ _ _ _, _
  | .comprehension _ _ _ _ _ _ _ _ _, _ => rfl

/-- Materialising stamps the nodes and leaves the expression as it was. -/
theorem mapAnn_materializeElements : ∀ (es : List (Expr Stamp)) (b : StaticMemoryBuilder),
    mapAnnList Stamp.repr (materializeElements es b).tree = mapAnnList Stamp.repr es
  | [], _ => rfl
  | e :: es, b => by
    have hhead := mapAnn_materialize e b
    rw [materializeElements]
    dsimp only
    split
    · rw [mapAnnList, mapAnnList, hhead]
    · rw [mapAnnList, mapAnnList, hhead, mapAnn_materializeElements es]

theorem mapAnn_materializeEntries : ∀ (entries : MapEntries Stamp) (b : StaticMemoryBuilder),
    (materializeEntries entries b).tree.mapAnn Stamp.repr = entries.mapAnn Stamp.repr
  | .nil, _ => rfl
  | .cons optional key value rest, b => by
    have hkey := mapAnn_materialize key b
    have hvalue := mapAnn_materialize value (materialize key b).rodata
    rw [materializeEntries]
    dsimp only
    split
    · rw [MapEntries.mapAnn, MapEntries.mapAnn, hkey, hvalue, mapAnn_materializeEntries rest]
    · rw [MapEntries.mapAnn, MapEntries.mapAnn, hkey, hvalue]

end

/-! ## What is stamped -/

/-- **Only constants and literals made of them are stamped.** -/
def StampsLiterals (t : Expr Stamp) : Prop :=
  ∀ p ∈ t.postOrder, p.ann.storage ≠ none → isConstMaterializable (p.mapAnn Stamp.repr) = true

/-- A node that is not stamped adds nothing to what its children stamp. -/
theorem stampsLiterals_of_children {t : Expr Stamp} (h : ∀ c ∈ t.children, StampsLiterals c)
    (hroot : t.ann.storage = none) : StampsLiterals t := fun p hp hstored => by
  rw [postOrder_eq] at hp
  obtain hp | hp := List.mem_append.mp hp
  · obtain ⟨c, hc, hp⟩ := List.mem_flatMap.mp hp
    exact h c hc p hp hstored
  · exact absurd (List.mem_singleton.mp hp ▸ hroot) hstored

/-- **A visit stamps literals alone**, and leaves the expression as it was. -/
theorem stampsLiterals_postVisit {t : Expr Stamp} (excluded : Bool) (b : StaticMemoryBuilder)
    (h : StampsLiterals t) :
    (postVisit excluded (t.mapAnn Stamp.repr) t b).1.mapAnn Stamp.repr = t.mapAnn Stamp.repr ∧
      StampsLiterals (postVisit excluded (t.mapAnn Stamp.repr) t b).1 := by
  unfold postVisit
  split_ifs with hexcluded hconst
  · exact ⟨rfl, h⟩
  · have hsame := mapAnn_materialize t b
    refine ⟨hsame, fun p hp _ => isConstMaterializable_node hconst ?_⟩
    rw [← hsame, postOrder_mapAnn]
    exact List.mem_map_of_mem hp
  · exact ⟨rfl, h⟩

mutual

/-- **The pass keeps the tree, and stamps literals alone.** -/
theorem constAggregate_stamps : ∀ (excluded : Bool) (e : Expr NodeRepr) (b : StaticMemoryBuilder),
    (constAggregate excluded e b).1.mapAnn Stamp.repr = e ∧
      StampsLiterals (constAggregate excluded e b).1
  | _, .const _ _, _ | _, .ident _ _, _ =>
    ⟨rfl, stampsLiterals_of_children (fun _ hc => absurd hc List.not_mem_nil) rfl⟩
  | _, .select r operand field testOnly, b => by
    obtain ⟨hsame, h⟩ := constAggregate_stamps false operand b
    exact ⟨by rw [constAggregate, Expr.mapAnn, hsame]; rfl,
      stampsLiterals_of_children (List.forall_mem_singleton.mpr h) rfl⟩
  | _, .call r function receiver operands, b => by
    obtain ⟨hsame, h⟩ := constAggregateList_stamps operands b
    exact ⟨by rw [constAggregate, Expr.mapAnn, hsame]; rfl, stampsLiterals_of_children h rfl⟩
  | excluded, .list r elements optionals, b => by
    obtain ⟨hsame, h⟩ := constAggregateList_stamps elements b
    have hnode : Expr.mapAnn Stamp.repr (.list (.initial r) (constAggregateList elements b).1 optionals)
        = .list r elements optionals := by rw [Expr.mapAnn, hsame]; rfl
    rw [constAggregate, ← hnode]
    exact stampsLiterals_postVisit excluded _ (stampsLiterals_of_children h rfl)
  | excluded, .map r entries, b => by
    obtain ⟨hsame, h⟩ := constAggregateEntries_stamps entries b
    have hnode : Expr.mapAnn Stamp.repr (.map (.initial r) (constAggregateEntries entries b).1)
        = .map r entries := by rw [Expr.mapAnn, hsame]; rfl
    rw [constAggregate, ← hnode]
    exact stampsLiterals_postVisit excluded _ (stampsLiterals_of_children h rfl)
  | _, .struct r name fields values, b => by
    obtain ⟨hsame, h⟩ := constAggregateList_stamps values b
    exact ⟨by rw [constAggregate, Expr.mapAnn, hsame]; rfl, stampsLiterals_of_children h rfl⟩
  | _, .comprehension r iterVar iterVar2 accuVar iterRange accuInit loopCondition loopStep result,
      b => by
    obtain ⟨hsame₁, h₁⟩ := constAggregate_stamps false iterRange b
    obtain ⟨hsame₂, h₂⟩ := constAggregate_stamps true accuInit (constAggregate false iterRange b).2
    obtain ⟨hsame₃, h₃⟩ := constAggregate_stamps false loopCondition
      (constAggregate true accuInit (constAggregate false iterRange b).2).2
    obtain ⟨hsame₄, h₄⟩ := constAggregate_stamps false loopStep (constAggregate false loopCondition
      (constAggregate true accuInit (constAggregate false iterRange b).2).2).2
    obtain ⟨hsame₅, h₅⟩ := constAggregate_stamps false result (constAggregate false loopStep
      (constAggregate false loopCondition
        (constAggregate true accuInit (constAggregate false iterRange b).2).2).2).2
    refine ⟨?_, stampsLiterals_of_children (List.forall_mem_cons.mpr ⟨h₁, List.forall_mem_cons.mpr
      ⟨h₂, List.forall_mem_cons.mpr ⟨h₃, List.forall_mem_cons.mpr
        ⟨h₄, List.forall_mem_singleton.mpr h₅⟩⟩⟩⟩) rfl⟩
    rw [constAggregate, Expr.mapAnn, hsame₁, hsame₂, hsame₃, hsame₄, hsame₅]
    rfl

theorem constAggregateList_stamps : ∀ (es : List (Expr NodeRepr)) (b : StaticMemoryBuilder),
    mapAnnList Stamp.repr (constAggregateList es b).1 = es ∧
      ∀ t ∈ (constAggregateList es b).1, StampsLiterals t
  | [], _ => ⟨rfl, fun _ ht => absurd ht List.not_mem_nil⟩
  | e :: es, b => by
    obtain ⟨hsame, h⟩ := constAggregate_stamps false e b
    obtain ⟨hsames, hs⟩ := constAggregateList_stamps es (constAggregate false e b).2
    exact ⟨by rw [constAggregateList, mapAnnList, hsame, hsames],
      List.forall_mem_cons.mpr ⟨h, hs⟩⟩

theorem constAggregateEntries_stamps : ∀ (entries : MapEntries NodeRepr) (b : StaticMemoryBuilder),
    (constAggregateEntries entries b).1.mapAnn Stamp.repr = entries ∧
      ∀ t ∈ (constAggregateEntries entries b).1.exprs, StampsLiterals t
  | .nil, _ => ⟨rfl, fun _ ht => absurd ht List.not_mem_nil⟩
  | .cons optional key value rest, b => by
    obtain ⟨hsamek, hk⟩ := constAggregate_stamps false key b
    obtain ⟨hsamev, hv⟩ := constAggregate_stamps false value (constAggregate false key b).2
    obtain ⟨hsames, hs⟩ := constAggregateEntries_stamps rest
      (constAggregate false value (constAggregate false key b).2).2
    exact ⟨by rw [constAggregateEntries, MapEntries.mapAnn, hsamek, hsamev, hsames],
      List.forall_mem_cons.mpr ⟨hk, List.forall_mem_cons.mpr ⟨hv, hs⟩⟩⟩

end

end CelWasm
