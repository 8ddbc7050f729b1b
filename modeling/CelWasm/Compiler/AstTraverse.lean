import CelWasm.Compiler.Ast

/-!
# Compiler/AstTraverse — the nodes of an expression, and walks over them

A walk enters a node, walks its children in order, and leaves it; a visitor is a step on its own state
for each of these. Whatever the visitor is, a node is left after it was entered and after its children
were left (`leftInOrder_visits`).
-/

namespace CelWasm

variable {α β : Type}

/-! ## Children -/

/-- The keys and values of a map literal, in order. -/
def MapEntries.exprs : MapEntries α → List (Expr α)
  | nil => []
  | cons _ key value rest => key :: value :: rest.exprs

/-- **The children of a node**, in order. -/
def Expr.children : Expr α → List (Expr α)
  | const _ _ | ident _ _ => []
  | select _ operand _ _ => [operand]
  | call _ _ _ operands => operands
  | list _ elements _ => elements
  | map _ entries => entries.exprs
  | struct _ _ _ values => values
  | comprehension _ _ _ _ iterRange accuInit loopCondition loopStep result =>
    [iterRange, accuInit, loopCondition, loopStep, result]

mutual

/-- **Induction over the nodes of an expression.** -/
theorem Expr.children_induction {P : Expr α → Prop} (h : ∀ e, (∀ c ∈ e.children, P c) → P e) :
    ∀ e : Expr α, P e
  | .const _ _ | .ident _ _ => h _ fun _ hc => absurd hc List.not_mem_nil
  | .select _ operand _ _ => h _ (List.forall_mem_singleton.mpr (operand.children_induction h))
  | .call _ _ _ operands => h _ (children_induction_list h operands)
  | .list _ elements _ => h _ (children_induction_list h elements)
  | .map _ entries => h _ (children_induction_entries h entries)
  | .struct _ _ _ values => h _ (children_induction_list h values)
  | .comprehension _ _ _ _ iterRange accuInit loopCondition loopStep result =>
    h _ (List.forall_mem_cons.mpr ⟨iterRange.children_induction h,
      List.forall_mem_cons.mpr ⟨accuInit.children_induction h,
      List.forall_mem_cons.mpr ⟨loopCondition.children_induction h,
      List.forall_mem_cons.mpr ⟨loopStep.children_induction h,
      List.forall_mem_singleton.mpr (result.children_induction h)⟩⟩⟩⟩)

theorem children_induction_list {P : Expr α → Prop} (h : ∀ e, (∀ c ∈ e.children, P c) → P e) :
    ∀ es : List (Expr α), ∀ c ∈ es, P c
  | [] => fun _ hc => absurd hc List.not_mem_nil
  | e :: es => List.forall_mem_cons.mpr ⟨e.children_induction h, children_induction_list h es⟩

theorem children_induction_entries {P : Expr α → Prop} (h : ∀ e, (∀ c ∈ e.children, P c) → P e) :
    ∀ entries : MapEntries α, ∀ c ∈ entries.exprs, P c
  | .nil => fun _ hc => absurd hc List.not_mem_nil
  | .cons _ key value rest =>
    List.forall_mem_cons.mpr ⟨key.children_induction h,
      List.forall_mem_cons.mpr ⟨value.children_induction h, children_induction_entries h rest⟩⟩

end

/-! ## Nodes -/

mutual

/-- **The nodes of an expression** in the order in which they are left. -/
def Expr.postOrder : Expr α → List (Expr α)
  | .const a c => [.const a c]
  | .ident a name => [.ident a name]
  | .select a operand field testOnly => operand.postOrder ++ [.select a operand field testOnly]
  | .call a function receiver operands =>
    postOrderList operands ++ [.call a function receiver operands]
  | .list a elements optionals => postOrderList elements ++ [.list a elements optionals]
  | .map a entries => entries.postOrder ++ [.map a entries]
  | .struct a name fields values => postOrderList values ++ [.struct a name fields values]
  | .comprehension a iterVar iterVar2 accuVar iterRange accuInit loopCondition loopStep result =>
    iterRange.postOrder ++ accuInit.postOrder ++ loopCondition.postOrder ++ loopStep.postOrder ++
      result.postOrder ++
      [.comprehension a iterVar iterVar2 accuVar iterRange accuInit loopCondition loopStep result]

def postOrderList : List (Expr α) → List (Expr α)
  | [] => []
  | e :: rest => e.postOrder ++ postOrderList rest

def MapEntries.postOrder : MapEntries α → List (Expr α)
  | .nil => []
  | .cons _ key value rest => key.postOrder ++ value.postOrder ++ rest.postOrder

end

theorem postOrderList_eq (es : List (Expr α)) : postOrderList es = es.flatMap Expr.postOrder := by
  induction es with
  | nil => rfl
  | cons e es ih => exact congrArg (e.postOrder ++ ·) ih

theorem postOrder_entries_eq : ∀ entries : MapEntries α,
    entries.postOrder = entries.exprs.flatMap Expr.postOrder
  | .nil => rfl
  | .cons _ key value rest => by
    change key.postOrder ++ value.postOrder ++ rest.postOrder = _
    rw [postOrder_entries_eq rest, List.append_assoc]
    rfl

/-- The nodes below the children, and the node. -/
theorem postOrder_eq (e : Expr α) : e.postOrder = e.children.flatMap Expr.postOrder ++ [e] := by
  cases e <;>
    simp [Expr.postOrder, Expr.children, postOrderList_eq, postOrder_entries_eq, List.append_assoc]

/-- A node is left last of its expression. -/
theorem mem_postOrder_self (e : Expr α) : e ∈ e.postOrder := by
  rw [postOrder_eq]
  exact List.mem_append_right _ List.mem_cons_self

theorem mem_postOrder_of_child {e c n : Expr α} (hc : c ∈ e.children) (hn : n ∈ c.postOrder) :
    n ∈ e.postOrder := by
  rw [postOrder_eq e]
  exact List.mem_append_left _ (List.mem_flatMap.mpr ⟨c, hc, hn⟩)

/-- What lies below a node of an expression lies below the expression. -/
theorem mem_postOrder_trans {e m n : Expr α} (hm : m ∈ e.postOrder) (hn : n ∈ m.postOrder) :
    n ∈ e.postOrder := by
  induction e using Expr.children_induction with
  | h e ih =>
    rw [postOrder_eq e] at hm
    obtain hm | hm := List.mem_append.mp hm
    · obtain ⟨c, hc, hm⟩ := List.mem_flatMap.mp hm
      exact mem_postOrder_of_child hc (ih c hc hm)
    · rwa [← List.mem_singleton.mp hm]

theorem mem_postOrder_child {e c : Expr α} (hc : c ∈ e.children) : c ∈ e.postOrder :=
  mem_postOrder_of_child hc (mem_postOrder_self c)

/-! ### Under other annotations -/

theorem mapAnnList_eq (f : α → β) (es : List (Expr α)) : mapAnnList f es = es.map (Expr.mapAnn f) := by
  induction es with
  | nil => rfl
  | cons e es ih => exact congrArg (e.mapAnn f :: ·) ih

theorem exprs_mapAnn (f : α → β) : ∀ entries : MapEntries α,
    (entries.mapAnn f).exprs = entries.exprs.map (Expr.mapAnn f)
  | .nil => rfl
  | .cons _ key value rest => by
    change key.mapAnn f :: value.mapAnn f :: (rest.mapAnn f).exprs = _
    rw [exprs_mapAnn f rest]
    rfl

theorem children_mapAnn (f : α → β) (e : Expr α) :
    (e.mapAnn f).children = e.children.map (Expr.mapAnn f) := by
  cases e <;> simp [Expr.mapAnn, Expr.children, mapAnnList_eq, exprs_mapAnn]

/-- The nodes are the same, in the same order. -/
theorem postOrder_mapAnn (f : α → β) (e : Expr α) :
    (e.mapAnn f).postOrder = e.postOrder.map (Expr.mapAnn f) := by
  induction e using Expr.children_induction with
  | h e ih =>
    rw [postOrder_eq, postOrder_eq e, children_mapAnn, List.map_append, List.map_flatMap,
      List.flatMap_map]
    exact congrArg (· ++ _) (List.flatMap_congr ih)

/-! ## The walk -/

/-- A callback of `AstVisitor`: `PreVisitExpr`, or the post-visit of the node's kind. -/
inductive Visit (α : Type)
  | enter (n : Expr α)
  | leave (n : Expr α)

/-- The node that is visited. -/
def Visit.node : Visit α → Expr α
  | enter n | leave n => n

/-- A node around the callbacks of its children. -/
def visitAround (n : Expr α) (inner : List (Visit α)) : List (Visit α) :=
  .enter n :: (inner ++ [.leave n])

mutual

/-- **`AstTraverse`**: the callbacks, in order. -/
def Expr.visits : Expr α → List (Visit α)
  | .const a c => visitAround (.const a c) []
  | .ident a name => visitAround (.ident a name) []
  | .select a operand field testOnly =>
    visitAround (.select a operand field testOnly) operand.visits
  | .call a function receiver operands =>
    visitAround (.call a function receiver operands) (visitsList operands)
  | .list a elements optionals => visitAround (.list a elements optionals) (visitsList elements)
  | .map a entries => visitAround (.map a entries) entries.visits
  | .struct a name fields values =>
    visitAround (.struct a name fields values) (visitsList values)
  | .comprehension a iterVar iterVar2 accuVar iterRange accuInit loopCondition loopStep result =>
    visitAround
      (.comprehension a iterVar iterVar2 accuVar iterRange accuInit loopCondition loopStep result)
      (iterRange.visits ++ accuInit.visits ++ loopCondition.visits ++ loopStep.visits ++
        result.visits)

def visitsList : List (Expr α) → List (Visit α)
  | [] => []
  | e :: rest => e.visits ++ visitsList rest

def MapEntries.visits : MapEntries α → List (Visit α)
  | .nil => []
  | .cons _ key value rest => key.visits ++ value.visits ++ rest.visits

end

theorem visitsList_eq (es : List (Expr α)) : visitsList es = es.flatMap Expr.visits := by
  induction es with
  | nil => rfl
  | cons e es ih => exact congrArg (e.visits ++ ·) ih

theorem visits_entries_eq : ∀ entries : MapEntries α,
    entries.visits = entries.exprs.flatMap Expr.visits
  | .nil => rfl
  | .cons _ key value rest => by
    change key.visits ++ value.visits ++ rest.visits = _
    rw [visits_entries_eq rest, List.append_assoc]
    rfl

/-- **A walk enters a node, walks its children and leaves it.** -/
theorem visits_eq (e : Expr α) : e.visits = visitAround e (e.children.flatMap Expr.visits) := by
  cases e <;>
    simp [Expr.visits, Expr.children, visitsList_eq, visits_entries_eq, List.append_assoc]

theorem mem_visits {e : Expr α} {v : Visit α} :
    v ∈ e.visits ↔ v = .enter e ∨ (∃ c ∈ e.children, v ∈ c.visits) ∨ v = .leave e := by
  rw [visits_eq, visitAround, List.mem_cons, List.mem_append, List.mem_flatMap, List.mem_singleton]

/-- **The nodes that are visited** are those of the expression. -/
theorem node_mem_postOrder {e : Expr α} {v : Visit α} (hv : v ∈ e.visits) :
    v.node ∈ e.postOrder := by
  induction e using Expr.children_induction with
  | h e ih =>
    obtain rfl | ⟨c, hc, hv⟩ | rfl := mem_visits.mp hv
    · exact mem_postOrder_self e
    · exact mem_postOrder_of_child hc (ih c hc hv)
    · exact mem_postOrder_self e

/-- Every node is left. -/
theorem leave_mem_visits {e n : Expr α} (hn : n ∈ e.postOrder) : .leave n ∈ e.visits := by
  induction e using Expr.children_induction with
  | h e ih =>
    rw [postOrder_eq] at hn
    obtain hn | hn := List.mem_append.mp hn
    · obtain ⟨c, hc, hn⟩ := List.mem_flatMap.mp hn
      exact mem_visits.mpr (.inr (.inl ⟨c, hc, ih c hc hn⟩))
    · rw [List.mem_singleton.mp hn]
      exact mem_visits.mpr (.inr (.inr rfl))

/-- Every node is entered. -/
theorem enter_mem_visits {e n : Expr α} (hn : n ∈ e.postOrder) : .enter n ∈ e.visits := by
  induction e using Expr.children_induction with
  | h e ih =>
    rw [postOrder_eq] at hn
    obtain hn | hn := List.mem_append.mp hn
    · obtain ⟨c, hc, hn⟩ := List.mem_flatMap.mp hn
      exact mem_visits.mpr (.inr (.inl ⟨c, hc, ih c hc hn⟩))
    · rw [List.mem_singleton.mp hn]
      exact mem_visits.mpr (.inl rfl)

/-- **Nodes are left in order**: a node after it was entered, and after its children were left. -/
def LeftInOrder : List (Visit α) → List (Visit α) → Prop
  | _, [] => True
  | seen, v :: rest =>
    (∀ n, v = .leave n → .enter n ∈ seen ∧ ∀ c ∈ n.children, .leave c ∈ seen) ∧
      LeftInOrder (seen ++ [v]) rest

theorem leftInOrder_append {seen xs ys : List (Visit α)} (hxs : LeftInOrder seen xs)
    (hys : LeftInOrder (seen ++ xs) ys) : LeftInOrder seen (xs ++ ys) := by
  induction xs generalizing seen with
  | nil => rwa [List.append_nil] at hys
  | cons x xs ih =>
    refine ⟨hxs.1, ih hxs.2 ?_⟩
    rwa [List.append_assoc]

/-- What has been visited before does not matter to a list that is in order by itself. -/
theorem leftInOrder_flatMap {es : List (Expr α)}
    (h : ∀ e ∈ es, ∀ seen, LeftInOrder seen e.visits) (seen : List (Visit α)) :
    LeftInOrder seen (es.flatMap Expr.visits) := by
  induction es generalizing seen with
  | nil => exact trivial
  | cons e es ih =>
    rw [List.flatMap_cons]
    exact leftInOrder_append (h e List.mem_cons_self seen)
      (ih (fun e' he' => h e' (List.mem_cons_of_mem _ he')) _)

theorem leftInOrder_visits (e : Expr α) (seen : List (Visit α)) : LeftInOrder seen e.visits := by
  induction e using Expr.children_induction generalizing seen with
  | h e ih =>
    rw [visits_eq, visitAround]
    refine ⟨fun n hn => (nomatch hn), leftInOrder_append (leftInOrder_flatMap ih _) ?_⟩
    refine ⟨fun n hn => ?_, trivial⟩
    obtain rfl := Visit.leave.inj hn
    refine ⟨by simp, fun c hc => List.mem_append_right _ ?_⟩
    exact List.mem_flatMap.mpr ⟨c, hc, leave_mem_visits (mem_postOrder_self c)⟩

/-- **When a node is left**, it has been entered, and its children have been left. -/
theorem LeftInOrder.of_split {seen xs rest : List (Visit α)} {n : Expr α}
    (h : LeftInOrder seen (xs ++ .leave n :: rest)) :
    .enter n ∈ seen ++ xs ∧ ∀ c ∈ n.children, .leave c ∈ seen ++ xs := by
  induction xs generalizing seen with
  | nil => simpa using h.1 n rfl
  | cons x xs ih => simpa using ih h.2

/-- **In a walk**, what has been left has been entered, and so have the children of what is left. -/
theorem visits_left {e n : Expr α} {seen rest : List (Visit α)}
    (h : e.visits = seen ++ .leave n :: rest) :
    .enter n ∈ seen ∧ ∀ c ∈ n.children, .enter c ∈ seen ∧ .leave c ∈ seen := by
  have horder := leftInOrder_visits e []
  have hleft : ∀ {m : Expr α} {before behind : List (Visit α)},
      e.visits = before ++ .leave m :: behind →
      .enter m ∈ before ∧ ∀ c ∈ m.children, .leave c ∈ before := fun hsplit => by
    rw [hsplit] at horder
    exact horder.of_split
  refine ⟨(hleft h).1, fun c hc => ⟨?_, (hleft h).2 c hc⟩⟩
  obtain ⟨before, behind, rfl⟩ := List.append_of_mem ((hleft h).2 c hc)
  rw [List.append_assoc, List.cons_append] at h
  exact List.mem_append_left _ (hleft h).1

end CelWasm
