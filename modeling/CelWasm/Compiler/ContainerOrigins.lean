import CelWasm.Compiler.IdentResolver
import CelWasm.Compiler.StoragePasses

/-!
# Compiler/ContainerOrigins — where the compiler takes a container to live

An index call is lowered to the arena's kernel, to the host's import or to the dispatcher, by what its
operand is annotated with. The annotations are made in walks, one behind the other:

    maps     a literal is in the arena; a map read from a variable or a field is the host's
    lists    the same
    dyn      a `dyn` call has what its argument has

Variables of a comprehension are left to the dispatcher, and so is an operand that is a select itself.
-/

namespace CelWasm

/-- `Origin`, as a node is annotated with it. -/
inductive OriginStamp
  | kDynamic
  | kArena
  | kHost
  deriving DecidableEq, Repr

/-- `NodeAnnotation`: of its fields those an index call is lowered by. -/
structure NodeAnnotation where
  repr : NodeRepr
  scopeId : ℕ := 0
  mapOrigin : OriginStamp := .kDynamic
  listOrigin : OriginStamp := .kDynamic

/-- `WasmAnnotations`. -/
abbrev WasmAnnotations := ℤ → NodeAnnotation

/-! ## The walks -/

/-- `StampHostIfMapTyped`: a variable of a comprehension has its bytes where the container has them it
is taken from. -/
def NodeAnnotation.stampHostIfMapTyped (ann : NodeAnnotation) : NodeAnnotation :=
  if ann.repr = .map ∧ ann.scopeId = 0 then { ann with mapOrigin := .kHost } else ann

/-- `StampHostIfListTyped`. -/
def NodeAnnotation.stampHostIfListTyped (ann : NodeAnnotation) : NodeAnnotation :=
  if ann.repr = .list ∧ ann.scopeId = 0 then { ann with listOrigin := .kHost } else ann

/-- **`MapOriginVisitor`.** -/
def mapOriginVisitor (annotations : WasmAnnotations) : Visit ℤ → WasmAnnotations
  | .leave (.map id _) =>
    Function.update annotations id { annotations id with mapOrigin := .kArena }
  | .leave (.ident id _) | .leave (.select id _ _ _) =>
    Function.update annotations id (annotations id).stampHostIfMapTyped
  | _ => annotations

/-- **`ListOriginVisitor`.** -/
def listOriginVisitor (annotations : WasmAnnotations) : Visit ℤ → WasmAnnotations
  | .leave (.list id _ _) =>
    Function.update annotations id { annotations id with listOrigin := .kArena }
  | .leave (.ident id _) | .leave (.select id _ _ _) =>
    Function.update annotations id (annotations id).stampHostIfListTyped
  | _ => annotations

/-- **`DynPassthroughVisitor`.** -/
def dynPassthroughVisitor (annotations : WasmAnnotations) : Visit ℤ → WasmAnnotations
  | .leave (.call id function receiver operands) =>
    match dynArg function receiver operands with
    | some arg =>
      Function.update annotations id
        { annotations id with
          repr := (annotations arg.ann).repr
          mapOrigin := (annotations arg.ann).mapOrigin
          listOrigin := (annotations arg.ann).listOrigin }
    | none => annotations
  | _ => annotations

/-- What the nodes are annotated with once the identifiers are resolved. -/
def resolvedAnnotations (types : TypeMap) (s : ResolverState) : WasmAnnotations := fun id =>
  { repr := nodeRepr types id
    scopeId := ((s.idents.find? (·.id == id)).map IdentStamp.scopeId).getD 0 }

/-- **The walks of `RunAnnotationVisitors`** that stamp origins. -/
def stampOrigins (e : Expr ℤ) (annotations : WasmAnnotations) : WasmAnnotations :=
  e.visits.foldl dynPassthroughVisitor <| e.visits.foldl listOriginVisitor <|
    e.visits.foldl mapOriginVisitor annotations

/-! ## The call target -/

/-- An entry point of the runtime that `_[_]` is lowered to. -/
inductive IndexTarget
  | mapLookupArena
  | hostMapLookup
  | mapLookup
  | listAtArena
  | hostListAt
  | listAt
  deriving DecidableEq, Repr

/-- `MapLookupCallTarget`. -/
def mapLookupCallTarget : OriginStamp → IndexTarget
  | .kArena => .mapLookupArena
  | .kHost => .hostMapLookup
  | .kDynamic => .mapLookup

/-- `ListAtCallTarget`. -/
def listAtCallTarget : OriginStamp → IndexTarget
  | .kArena => .listAtArena
  | .kHost => .hostListAt
  | .kDynamic => .listAt

/-- **`PickIndexCallTarget`**; none where its check fails. -/
def pickIndexCallTarget (opAnn : NodeAnnotation) (operand : Expr ℤ) : Option IndexTarget :=
  let dynamicIfSelect origin := match operand with
    | .select .. => OriginStamp.kDynamic
    | _ => origin
  match opAnn.repr with
  | .map => some (mapLookupCallTarget (dynamicIfSelect opAnn.mapOrigin))
  | .list => some (listAtCallTarget (dynamicIfSelect opAnn.listOrigin))
  | _ => none

/-! ## What a walk leaves behind -/

section Walks

variable {e : Expr ℤ} {f : WasmAnnotations → Visit ℤ → WasmAnnotations} {s : WasmAnnotations}

/-- A visitor that writes the annotation of the node it leaves, and no other. -/
structure WritesOwn (f : WasmAnnotations → Visit ℤ → WasmAnnotations) : Prop where
  enter : ∀ s n, f s (.enter n) = s
  leave : ∀ s (n : Expr ℤ), ∀ id ≠ n.ann, f s (.leave n) id = s id

/-- What is annotated with another id stays. -/
theorem WritesOwn.foldl_of_ne (h : WritesOwn f) {vs : List (Visit ℤ)} {id : ℤ}
    (hid : ∀ n, .leave n ∈ vs → id ≠ n.ann) : vs.foldl f s id = s id := by
  induction vs generalizing s with
  | nil => rfl
  | cons v vs ih =>
    rw [List.foldl_cons, ih fun n hn => hid n (List.mem_cons_of_mem v hn)]
    cases v with
    | enter n => rw [h.enter]
    | leave n => exact h.leave s n id (hid n List.mem_cons_self)

/-- The nodes that are left. -/
def leaves (vs : List (Visit ℤ)) : List (Expr ℤ) :=
  vs.filterMap fun
    | .leave n => some n
    | .enter _ => none

theorem mem_leaves {vs : List (Visit ℤ)} {n : Expr ℤ} : n ∈ leaves vs ↔ .leave n ∈ vs := by
  rw [leaves, List.mem_filterMap]
  constructor
  · rintro ⟨v, hv, h⟩
    cases v with
    | enter m => exact nomatch h
    | leave m => exact Option.some.inj h ▸ hv
  · exact fun h => ⟨_, h, rfl⟩

/-- **A walk leaves every node once**, in post-order. -/
theorem leaves_visits (e : Expr ℤ) : leaves e.visits = e.postOrder := by
  induction e using Expr.children_induction with
  | h e ih =>
    have hchildren : leaves (e.children.flatMap Expr.visits)
        = e.children.flatMap Expr.postOrder := by
      rw [leaves, List.filterMap_flatMap]
      exact List.flatMap_congr ih
    rw [visits_eq, postOrder_eq, ← hchildren, visitAround, leaves, List.filterMap_cons_none rfl,
      List.filterMap_append]
    rfl

/-- **A walk writes the annotation of a node when it leaves it**, from that before the walk and from
those of the children behind it. -/
theorem WritesOwn.foldl_visits (h : WritesOwn f) (hids : (e.postOrder.map Expr.ann).Nodup)
    {n : Expr ℤ} (hn : n ∈ e.postOrder) : ∃ t : WasmAnnotations,
      e.visits.foldl f s n.ann = f t (.leave n) n.ann ∧ t n.ann = s n.ann ∧
      ∀ c ∈ n.children, t c.ann = e.visits.foldl f s c.ann := by
  obtain ⟨seen, rest, hsplit⟩ := List.append_of_mem (leave_mem_visits hn)
  have hpost : e.postOrder = leaves seen ++ n :: leaves rest := by
    rw [← leaves_visits, hsplit, leaves, List.filterMap_append]
    rfl
  rw [hpost, List.map_append, List.map_cons, List.nodup_append'] at hids
  obtain ⟨-, hbehind, hdisjoint⟩ := hids
  have hrest : ∀ m, .leave m ∈ rest → n.ann ≠ m.ann := fun m hm hsame =>
    (List.nodup_cons.mp hbehind).1 (hsame ▸ List.mem_map_of_mem (mem_leaves.mpr hm))
  have hseen : ∀ m, .leave m ∈ seen → n.ann ≠ m.ann := fun m hm hsame =>
    hdisjoint (List.mem_map_of_mem (mem_leaves.mpr hm)) (hsame ▸ List.mem_cons_self)
  have hfinal : e.visits.foldl f s = rest.foldl f (f (seen.foldl f s) (.leave n)) := by
    rw [hsplit, List.foldl_append, List.foldl_cons]
  refine ⟨seen.foldl f s, ?_, h.foldl_of_ne hseen, fun c hc => ?_⟩
  · rw [hfinal, h.foldl_of_ne hrest]
  · have hleft : c.ann ∈ (leaves seen).map Expr.ann :=
      List.mem_map_of_mem (mem_leaves.mpr ((visits_left hsplit).2 c hc).2)
    have hapart : ∀ m, .leave m ∈ rest → c.ann ≠ m.ann := fun m hm hsame =>
      hdisjoint hleft (hsame ▸ List.mem_cons_of_mem _ (List.mem_map_of_mem (mem_leaves.mpr hm)))
    have hne : c.ann ≠ n.ann := fun hsame => hdisjoint hleft (hsame ▸ List.mem_cons_self)
    rw [hfinal, h.foldl_of_ne hapart, h.leave _ _ _ hne]

end Walks

/-! ## What the nodes are annotated with -/

theorem writesOwn_mapOriginVisitor : WritesOwn mapOriginVisitor where
  enter _ _ := rfl
  leave s n id hid := by
    cases n with
    | map | ident | select => exact Function.update_of_ne hid _ _
    | _ => rfl

theorem writesOwn_listOriginVisitor : WritesOwn listOriginVisitor where
  enter _ _ := rfl
  leave s n id hid := by
    cases n with
    | list | ident | select => exact Function.update_of_ne hid _ _
    | _ => rfl

theorem writesOwn_dynPassthroughVisitor : WritesOwn dynPassthroughVisitor where
  enter _ _ := rfl
  leave s n id hid := by
    cases n with
    | call id' function receiver operands =>
      rw [dynPassthroughVisitor]
      cases dynArg function receiver operands with
      | none => rfl
      | some arg => exact Function.update_of_ne hid _ _
    | _ => rfl

/-- The argument of a node that is a `dyn` call. -/
def Expr.dynArg? : Expr ℤ → Option (Expr ℤ)
  | .call _ function receiver operands => dynArg function receiver operands
  | _ => none

/-- What a node that is no `dyn` call is annotated with. -/
def ownOrigins (ann : NodeAnnotation) : Expr ℤ → NodeAnnotation
  | .list .. => { ann with listOrigin := .kArena }
  | .map .. => { ann with mapOrigin := .kArena }
  | .ident .. | .select .. => ann.stampHostIfMapTyped.stampHostIfListTyped
  | _ => ann

section Stamped

variable {e n : Expr ℤ} {annotations : WasmAnnotations}

/-- The first two walks stamp a node by itself. -/
theorem foldl_originVisitors (hids : (e.postOrder.map Expr.ann).Nodup) (hn : n ∈ e.postOrder) :
    e.visits.foldl listOriginVisitor (e.visits.foldl mapOriginVisitor annotations) n.ann
      = ownOrigins (annotations n.ann) n := by
  obtain ⟨t, ht, hown, -⟩ := writesOwn_mapOriginVisitor.foldl_visits hids (s := annotations) hn
  obtain ⟨t', ht', hown', -⟩ := writesOwn_listOriginVisitor.foldl_visits hids
    (s := e.visits.foldl mapOriginVisitor annotations) hn
  rw [ht', ← hown]
  cases n <;>
    simp_all [mapOriginVisitor, listOriginVisitor, ownOrigins, Expr.ann]

/-- The third walk stamps a node from the annotations in front of it and those of its children. -/
theorem foldl_dynPassthroughVisitor (hids : (e.postOrder.map Expr.ann).Nodup)
    (hn : n ∈ e.postOrder) : ∃ t : WasmAnnotations,
      stampOrigins e annotations n.ann = dynPassthroughVisitor t (.leave n) n.ann ∧
      t n.ann = ownOrigins (annotations n.ann) n ∧
      ∀ c ∈ n.children, t c.ann = stampOrigins e annotations c.ann := by
  obtain ⟨t, ht, hown, hchildren⟩ := writesOwn_dynPassthroughVisitor.foldl_visits hids
    (s := e.visits.foldl listOriginVisitor (e.visits.foldl mapOriginVisitor annotations)) hn
  exact ⟨t, ht, hown.trans (foldl_originVisitors hids hn), hchildren⟩

/-- **Any other node is annotated by itself.** -/
theorem stampOrigins_own (hids : (e.postOrder.map Expr.ann).Nodup) (hn : n ∈ e.postOrder)
    (hnone : n.dynArg? = none) :
    stampOrigins e annotations n.ann = ownOrigins (annotations n.ann) n := by
  obtain ⟨t, ht, hown, -⟩ := @foldl_dynPassthroughVisitor _ _ annotations hids hn
  rw [ht, ← hown]
  cases n with
  | call id function receiver operands =>
    change dynArg function receiver operands = none at hnone
    rw [dynPassthroughVisitor, hnone]
  | _ => rfl

end Stamped

end CelWasm
