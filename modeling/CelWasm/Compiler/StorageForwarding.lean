import CelWasm.Compiler.LiteralStamps
import CelWasm.Compiler.StoragePasses
import CelWasm.Library.Fallible

/-!
# Compiler/StorageForwarding — which nodes are left without storage

Each walk keeps an invariant that says which nodes have storage once they have been visited. Behind
pass D the nodes without are the comprehensions and the `dyn` calls around them, behind pass E those
calls alone; and pass E runs through unless one of them is the result of a comprehension.
-/

namespace CelWasm

variable {α : Type}

/-! ## What pass A stamps -/

/-- **What has storage behind the first walk** is a literal made of constants. -/
theorem exists_of_stampedStorage (repr : ℤ → NodeRepr) (e : Expr ℤ) (b : StaticMemoryBuilder)
    {id : ℤ} (h : stampedStorage e (constAggregate false (e.mapAnn repr) b).1 id ≠ .none) :
    ∃ n ∈ e.postOrder, n.ann = id ∧ isConstMaterializable (n.mapAnn repr) = true := by
  obtain ⟨hsame, hstamps⟩ := constAggregate_stamps false (e.mapAnn repr) b
  generalize (constAggregate false (e.mapAnn repr) b).1 = placed at h hsame hstamps
  have hnodes : List.Forall₂ (fun n p => n.mapAnn repr = p.mapAnn Stamp.repr) e.postOrder
      placed.postOrder := by
    rw [← List.forall₂_map_right_iff, ← List.forall₂_map_left_iff (R := Eq), List.forall₂_eq_eq_eq,
      ← postOrder_mapAnn, ← postOrder_mapAnn, hsame]
  rw [stampedStorage] at h
  cases hlookup : (stamps e placed).lookup id with
  | none => exact absurd (by rw [hlookup]; rfl) h
  | some addr =>
    obtain ⟨before, behind, hsplit, -⟩ := List.lookup_eq_some_iff.mp hlookup
    have hmem : (id, addr) ∈ stamps e placed := hsplit ▸ List.mem_append_right _ List.mem_cons_self
    obtain ⟨⟨n, p⟩, hzip, hstamp⟩ := List.mem_filterMap.mp hmem
    obtain ⟨addr', haddr, hpair⟩ := Option.map_eq_some_iff.mp hstamp
    obtain ⟨hn, hp⟩ := List.of_mem_zip hzip
    refine ⟨n, hn, (Prod.mk.inj hpair).1, ?_⟩
    rw [List.forall₂_zip hnodes hzip]
    exact hstamps p hp (haddr ▸ Option.some_ne_none _)

/-! ## Walks that store one kind of node -/

section Walks

variable {e : Expr ℤ} {σ : Type} {view : σ → StorageMap} {f : σ → Visit ℤ → Option σ}
  {kind : Expr ℤ → Bool} {s s' : σ}

/-- Ids tell the nodes of an expression apart. -/
theorem eq_of_ann (hids : (e.postOrder.map Expr.ann).Nodup) {m n : Expr ℤ} (hm : m ∈ e.postOrder)
    (hn : n ∈ e.postOrder) (h : m.ann = n.ann) : m = n :=
  List.inj_on_of_nodup_map hids hm hn h

/-- **A walk stores the nodes of a kind**: the step that leaves one stores it and no other, and every
other step leaves the storage as it is. -/
structure Stores (view : σ → StorageMap) (f : σ → Visit ℤ → Option σ) (kind : Expr ℤ → Bool) :
    Prop where
  leave : ∀ {s s' n}, kind n = true → f s (.leave n) = some s' →
    view s' n.ann ≠ .none ∧ ∀ id ≠ n.ann, view s' id = view s id
  other : ∀ {s s' v}, (∀ n, kind n = true → v ≠ .leave n) → f s v = some s' → view s' = view s

/-- **The whole walk** stores the nodes of the kind, and leaves the others as they are. -/
theorem Stores.run (h : Stores view f kind) (hids : (e.postOrder.map Expr.ann).Nodup)
    (hrun : e.visits.foldlM f s = some s') {n : Expr ℤ} (hn : n ∈ e.postOrder) :
    (kind n = true → view s' n.ann ≠ .none) ∧ (kind n = false → view s' n.ann = view s n.ann) := by
  have hinv := @foldlM_invariant σ (Visit ℤ) f (fun seen t => ∀ n ∈ e.postOrder,
    (kind n = true → .leave n ∈ seen → view t n.ann ≠ .none) ∧
      (kind n = false → view t n.ann = view s n.ann)) e.visits s s' ?_ ?_ hrun n hn
  · exact ⟨fun hkind => hinv.1 hkind (leave_mem_visits hn), hinv.2⟩
  · intro seen v rest t t' hvisits ht hstep n hn
    by_cases hv : ∃ m, kind m = true ∧ v = .leave m
    · obtain ⟨m, hm, rfl⟩ := hv
      obtain ⟨hstored, hframe⟩ := h.leave hm hstep
      have hmem : m ∈ e.postOrder := node_mem_postOrder (v := .leave m) (by simp [hvisits])
      by_cases hsame : n.ann = m.ann
      · obtain rfl := eq_of_ann hids hn hmem hsame
        exact ⟨fun _ _ => hstored, fun hkind => absurd hm (hkind ▸ Bool.false_ne_true)⟩
      · rw [hframe _ hsame]
        refine ⟨fun hkind hseen => (ht n hn).1 hkind ?_, (ht n hn).2⟩
        obtain hseen | hseen := List.mem_append.mp hseen
        · exact hseen
        · obtain rfl := Visit.leave.inj (List.mem_singleton.mp hseen)
          exact absurd rfl hsame
    · have hsame := h.other (fun m hm hvm => hv ⟨m, hm, hvm⟩) hstep
      rw [hsame]
      refine ⟨fun hkind hseen => (ht n hn).1 hkind ?_, (ht n hn).2⟩
      obtain hseen | hseen := List.mem_append.mp hseen
      · exact hseen
      · exact absurd ⟨n, hkind, (List.mem_singleton.mp hseen).symm⟩ hv
  · exact fun n _ => ⟨fun _ hseen => absurd hseen List.not_mem_nil, fun _ => rfl⟩

end Walks

theorem stores_constLayout (repr : ℤ → NodeRepr) :
    Stores Prod.fst (constLayout repr) Expr.isConst where
  leave {s s' n} hkind hstep := by
    cases n with
    | const id c =>
      rw [constLayout] at hstep
      split_ifs at hstep with hstored
      · obtain rfl := Option.some.inj hstep
        exact ⟨hstored, fun _ _ => rfl⟩
      · obtain ⟨b, -, rfl⟩ := Option.map_eq_some_iff.mp hstep
        exact ⟨by simp [Expr.ann], fun _ hid => Function.update_of_ne hid _ _⟩
    | _ => cases hkind
  other {s s' v} hv hstep := by
    unfold constLayout at hstep
    split at hstep
    · exact absurd rfl (hv _ rfl)
    · rw [Option.some.inj hstep]

theorem stores_identStorage (r : ResolveOutput) : Stores id (identStorage r) Expr.isIdent where
  leave {s s' n} hkind hstep := by
    cases n with
    | ident id name =>
      rw [identStorage] at hstep
      split_ifs at hstep
      obtain rfl := Option.some.inj hstep
      exact ⟨by simp [Expr.ann], fun _ hid => Function.update_of_ne hid _ _⟩
    | _ => cases hkind
  other {s s' v} hv hstep := by
    unfold identStorage at hstep
    split at hstep
    · exact absurd rfl (hv _ rfl)
    · rw [Option.some.inj hstep]

/-- A slot given back leaves the storage as it is. -/
theorem storage_releaseIfWorkspaceSlot {s s' : SlotState} {n : Expr ℤ}
    (h : s.releaseIfWorkspaceSlot n = some s') : s'.storage = s.storage := by
  unfold SlotState.releaseIfWorkspaceSlot at h
  split at h
  · obtain ⟨slots, -, rfl⟩ := Option.map_eq_some_iff.mp h
    rfl
  · rw [Option.some.inj h]

theorem storage_releases {es : List (Expr ℤ)} {s s' : SlotState}
    (h : es.foldlM SlotState.releaseIfWorkspaceSlot s = some s') : s'.storage = s.storage :=
  @foldlM_invariant _ _ SlotState.releaseIfWorkspaceSlot (fun _ t => t.storage = s.storage) es s s'
    (fun _ _ _ _ _ _ ht hstep => (storage_releaseIfWorkspaceSlot hstep).trans ht) rfl h

theorem stores_selectStorage : Stores SlotState.storage selectStorage Expr.isSelect where
  leave {s s' n} hkind hstep := by
    cases n with
    | select id operand field testOnly =>
      obtain ⟨t, ht, rfl⟩ := Option.map_eq_some_iff.mp hstep
      rw [← storage_releaseIfWorkspaceSlot ht]
      exact ⟨by simp [Expr.ann, SlotState.place], fun _ hid => Function.update_of_ne hid _ _⟩
    | _ => cases hkind
  other {s s' v} hv hstep := by
    unfold selectStorage at hstep
    split at hstep
    · exact absurd rfl (hv _ rfl)
    · rw [Option.some.inj hstep]

/-! ## Literals and calls -/

/-- **What a step of the second walk of pass D does** to the storage: nothing; or a literal that is
entered gets a slot, unless it is in rodata; or a call that is left gets one, or what its argument
has. -/
inductive AggregateEffect (storage : StorageMap) : Visit ℤ → StorageMap → Prop
  | entered {n} (h : n.isLiteral = false) : AggregateEffect storage (.enter n) storage
  | left {n} (h : n.isCall = false) : AggregateEffect storage (.leave n) storage
  | inRodata {n} (h : storage n.ann ≠ .none) : AggregateEffect storage (.enter n) storage
  | literal {n offset} (hn : n.isLiteral = true) :
    AggregateEffect storage (.enter n) (Function.update storage n.ann (.workspaceSlot offset))
  | called {id function receiver operands x} (h : dynArg function receiver operands = none)
      (hx : x ≠ .none) :
    AggregateEffect storage (.leave (.call id function receiver operands))
      (Function.update storage id x)
  | forwarded {id function receiver operands arg}
      (h : dynArg function receiver operands = some arg) :
    AggregateEffect storage (.leave (.call id function receiver operands))
      (Function.update storage id (storage arg.ann))

theorem aggregateStorage_effect {s s' : SlotState} {v : Visit ℤ}
    (h : aggregateStorage s v = some s') : AggregateEffect s.storage v s'.storage := by
  have hplace : ∀ {n : Expr ℤ}, n.isLiteral = true →
      AggregateEffect s.storage (.enter n) (s.place n.ann).storage := fun hn => .literal hn
  have hliteral : ∀ {n : Expr ℤ}, n.isLiteral = true →
      (if (s.storage n.ann).isStaticRodata then some s else some (s.place n.ann)) = some s' →
      AggregateEffect s.storage (.enter n) s'.storage := fun {n} hn hstep => by
    split_ifs at hstep with hstatic
    · obtain rfl := Option.some.inj hstep
      exact .inRodata fun hnone => Bool.false_ne_true (by rwa [hnone] at hstatic)
    · obtain rfl := Option.some.inj hstep
      exact hplace hn
  have hleft : ∀ {n : Expr ℤ} {es : List (Expr ℤ)}, n.isCall = false →
      es.foldlM SlotState.releaseIfWorkspaceSlot s = some s' →
      AggregateEffect s.storage (.leave n) s'.storage := fun hn hrun =>
    storage_releases hrun ▸ .left hn
  cases v with
  | enter n =>
    cases n with
    | list id elements optionals => exact hliteral rfl h
    | map id entries => exact hliteral rfl h
    | struct id name fields values =>
      obtain rfl := Option.some.inj h
      exact hplace rfl
    | _ => exact Option.some.inj h ▸ .entered rfl
  | leave n =>
    cases n with
    | list id elements optionals => exact hleft rfl h
    | map id entries => exact hleft rfl h
    | struct id name fields values => exact hleft rfl h
    | call id function receiver operands =>
      rw [aggregateStorage] at h
      split at h
      · next arg harg =>
        obtain rfl := Option.some.inj h
        exact .forwarded harg
      · next harg =>
        obtain ⟨t, ht, rfl⟩ := Option.map_eq_some_iff.mp h
        rw [← storage_releases ht]
        exact .called harg fun h => nomatch h
    | _ => exact Option.some.inj h ▸ .left rfl

/-- **What has storage on the way through the second walk of pass D**: literals once they are entered,
and calls once they are left, but for `dyn` calls around a comprehension; the rest as before. No
literal is in rodata that was not before. -/
structure AggregatesStored (e : Expr ℤ) (before : StorageMap) (seen : List (Visit ℤ))
    (storage : StorageMap) : Prop where
  literal : ∀ n ∈ e.postOrder, n.isLiteral = true → .enter n ∈ seen → storage n.ann ≠ .none
  call : ∀ n ∈ e.postOrder, n.isCall = true → .leave n ∈ seen →
    (storage n.ann = .none ↔ n.isDynOfComprehension = true)
  rest : ∀ n ∈ e.postOrder, n.isLiteral = false → n.isCall = false →
    storage n.ann = before n.ann
  rodata : ∀ n ∈ e.postOrder, n.isLiteral = true → (storage n.ann).isStaticRodata = true →
    (before n.ann).isStaticRodata = true

section Aggregates

variable {e : Expr ℤ} {before storage : StorageMap} {seen : List (Visit ℤ)}

/-- What the walks before have done: constants, identifiers and selects have storage, and
comprehensions have none. -/
structure LeavesStored (e : Expr ℤ) (storage : StorageMap) : Prop where
  stored : ∀ n ∈ e.postOrder, (n.isConst || n.isIdent || n.isSelect) = true →
    storage n.ann ≠ .none
  comprehension : ∀ n ∈ e.postOrder, n.isComprehension = true → storage n.ann = .none

/-- **A node that has been left has no storage** exactly if it is a comprehension or a `dyn` call around
one. -/
theorem AggregatesStored.left (h : AggregatesStored e before seen storage)
    (hbefore : LeavesStored e before) {n : Expr ℤ} (hn : n ∈ e.postOrder)
    (henter : .enter n ∈ seen) (hleave : .leave n ∈ seen) :
    storage n.ann = .none ↔ (n.isComprehension || n.isDynOfComprehension) = true := by
  have hstored : (n.isConst || n.isIdent || n.isSelect) = true → n.isLiteral = false →
      n.isCall = false → (n.isComprehension || n.isDynOfComprehension) = false →
      (storage n.ann = .none ↔ (n.isComprehension || n.isDynOfComprehension) = true) :=
    fun hkind hliteral hcall hnone => by
      rw [h.rest n hn hliteral hcall, hnone]
      exact iff_of_false (hbefore.stored n hn hkind) Bool.false_ne_true
  cases n with
  | const => exact hstored rfl rfl rfl rfl
  | ident => exact hstored rfl rfl rfl rfl
  | select => exact hstored rfl rfl rfl rfl
  | call => exact h.call _ hn rfl hleave
  | list => exact iff_of_false (h.literal _ hn rfl henter) Bool.false_ne_true
  | map => exact iff_of_false (h.literal _ hn rfl henter) Bool.false_ne_true
  | struct => exact iff_of_false (h.literal _ hn rfl henter) Bool.false_ne_true
  | comprehension =>
    exact iff_of_true ((h.rest _ hn rfl rfl).trans (hbefore.comprehension _ hn rfl)) rfl

/-- A visit that is not of the kind asked for was made before. -/
theorem mem_of_mem_append_singleton {v w : Visit ℤ} (h : v ∈ seen ++ [w]) (hne : v ≠ w) : v ∈ seen :=
  (List.mem_append.mp h).resolve_right fun hw => hne (List.mem_singleton.mp hw)

/-- A literal that is entered gets storage. -/
theorem AggregatesStored.enterLiteral (h : AggregatesStored e before seen storage)
    (hids : (e.postOrder.map Expr.ann).Nodup) {m : Expr ℤ} (hm : m ∈ e.postOrder)
    (hliteral : m.isLiteral = true) (offset : UInt32) :
    AggregatesStored e before (seen ++ [.enter m])
      (Function.update storage m.ann (.workspaceSlot offset)) := by
  have hother : ∀ n ∈ e.postOrder, n ≠ m →
      Function.update storage m.ann (.workspaceSlot offset) n.ann = storage n.ann :=
    fun n hn hne => Function.update_of_ne (fun hann => hne (eq_of_ann hids hn hm hann)) _ _
  refine ⟨fun n hn hn' hseen => ?_, fun n hn hcall hseen => ?_, fun n hn hn' hcall => ?_,
    fun n hn hn' hrodata => ?_⟩
  · by_cases hnm : n = m
    · rw [hnm, Function.update_self]
      exact fun h => nomatch h
    · rw [hother n hn hnm]
      exact h.literal n hn hn'
        (mem_of_mem_append_singleton hseen fun heq => hnm (Visit.enter.inj heq))
  · rw [hother n hn fun heq => Bool.false_ne_true
      ((isCall_of_isLiteral hliteral).symm.trans (heq ▸ hcall))]
    exact h.call n hn hcall (mem_of_mem_append_singleton hseen fun heq => nomatch heq)
  · rw [hother n hn fun heq => Bool.false_ne_true (hn'.symm.trans (heq ▸ hliteral))]
    exact h.rest n hn hn' hcall
  · by_cases hnm : n = m
    · rw [hnm, Function.update_self] at hrodata
      exact absurd hrodata Bool.false_ne_true
    · rw [hother n hn hnm] at hrodata
      exact h.rodata n hn hn' hrodata

/-- A call that is left gets storage, if it is no `dyn` call around a comprehension. -/
theorem AggregatesStored.leaveCall (h : AggregatesStored e before seen storage)
    (hids : (e.postOrder.map Expr.ann).Nodup) {m : Expr ℤ} (hm : m ∈ e.postOrder)
    (hcall : m.isCall = true) {x : Storage}
    (hx : x = .none ↔ m.isDynOfComprehension = true) :
    AggregatesStored e before (seen ++ [.leave m]) (Function.update storage m.ann x) := by
  have hother : ∀ n ∈ e.postOrder, n ≠ m → Function.update storage m.ann x n.ann = storage n.ann :=
    fun n hn hne => Function.update_of_ne (fun hann => hne (eq_of_ann hids hn hm hann)) _ _
  have hliterals : ∀ n ∈ e.postOrder, n.isLiteral = true →
      Function.update storage m.ann x n.ann = storage n.ann := fun n hn hliteral =>
    hother n hn fun heq =>
      Bool.false_ne_true ((isCall_of_isLiteral hliteral).symm.trans (heq ▸ hcall))
  refine ⟨fun n hn hliteral hseen => ?_, fun n hn hn' hseen => ?_, fun n hn hliteral hn' => ?_,
    fun n hn hliteral hrodata => h.rodata n hn hliteral (hliterals n hn hliteral ▸ hrodata)⟩
  · rw [hliterals n hn hliteral]
    exact h.literal n hn hliteral (mem_of_mem_append_singleton hseen fun heq => nomatch heq)
  · by_cases hnm : n = m
    · rwa [hnm, Function.update_self]
    · rw [hother n hn hnm]
      exact h.call n hn hn'
        (mem_of_mem_append_singleton hseen fun heq => hnm (Visit.leave.inj heq))
  · rw [hother n hn fun heq => Bool.false_ne_true (hn'.symm.trans (heq ▸ hcall))]
    exact h.rest n hn hliteral hn'

/-- **One step.** -/
theorem AggregatesStored.step (h : AggregatesStored e before seen storage)
    (hbefore : LeavesStored e before) (hids : (e.postOrder.map Expr.ann).Nodup) {v : Visit ℤ}
    {storage' : StorageMap} (hv : v.node ∈ e.postOrder)
    (hchildren : ∀ n, v = .leave n → ∀ c ∈ n.children, .enter c ∈ seen ∧ .leave c ∈ seen)
    (heffect : AggregateEffect storage v storage') :
    AggregatesStored e before (seen ++ [v]) storage' := by
  cases heffect with
  | @entered m hm =>
    exact ⟨fun n hn hliteral hseen => h.literal n hn hliteral (mem_of_mem_append_singleton hseen
        fun heq => Bool.false_ne_true (hm.symm.trans (Visit.enter.inj heq ▸ hliteral))),
      fun n hn hcall hseen => h.call n hn hcall
        (mem_of_mem_append_singleton hseen fun heq => nomatch heq), h.rest, h.rodata⟩
  | @left m hm =>
    exact ⟨fun n hn hliteral hseen => h.literal n hn hliteral
        (mem_of_mem_append_singleton hseen fun heq => nomatch heq),
      fun n hn hcall hseen => h.call n hn hcall (mem_of_mem_append_singleton hseen
        fun heq => Bool.false_ne_true (hm.symm.trans (Visit.leave.inj heq ▸ hcall))), h.rest,
      h.rodata⟩
  | @inRodata m hm =>
    refine ⟨fun n hn hliteral hseen => ?_, fun n hn hcall hseen => h.call n hn hcall
      (mem_of_mem_append_singleton hseen fun heq => nomatch heq), h.rest, h.rodata⟩
    by_cases hnm : n = m
    · exact hnm ▸ hm
    · exact h.literal n hn hliteral
        (mem_of_mem_append_singleton hseen fun heq => hnm (Visit.enter.inj heq))
  | @literal m offset hm => exact h.enterLiteral hids hv hm offset
  | @called id function receiver operands x harg hx =>
    refine h.leaveCall (m := .call id function receiver operands) hids hv rfl ?_
    rw [isDynOfComprehension_call, harg]
    exact iff_of_false hx Bool.false_ne_true
  | @forwarded id function receiver operands arg harg =>
    refine h.leaveCall (m := .call id function receiver operands) hids hv rfl ?_
    have hmem := dynArg_mem harg
    obtain ⟨henter, hleave⟩ := hchildren _ rfl arg hmem
    rw [isDynOfComprehension_call, harg]
    exact h.left hbefore (mem_postOrder_trans hv (mem_postOrder_child hmem)) henter hleave

/-- **Behind pass D**, the nodes without storage are the comprehensions and the `dyn` calls around
them, and the literals in rodata are those that were there before. -/
theorem aggregateStorage_run {s s' : SlotState} (hids : (e.postOrder.map Expr.ann).Nodup)
    (hbefore : LeavesStored e s.storage) (hrun : e.visits.foldlM aggregateStorage s = some s') :
    (∀ n ∈ e.postOrder, s'.storage n.ann = .none ↔
      (n.isComprehension || n.isDynOfComprehension) = true) ∧
    ∀ n ∈ e.postOrder, n.isLiteral = true → (s'.storage n.ann).isStaticRodata = true →
      (s.storage n.ann).isStaticRodata = true := by
  have hinv := @foldlM_invariant SlotState (Visit ℤ) aggregateStorage
    (fun seen t => AggregatesStored e s.storage seen t.storage) e.visits s s' ?_ ?_ hrun
  · exact ⟨fun n hn => hinv.left hbefore hn (enter_mem_visits hn) (leave_mem_visits hn),
      hinv.rodata⟩
  · intro seen v rest t t' hvisits ht hstep
    have hv : v.node ∈ e.postOrder := node_mem_postOrder (by simp [hvisits])
    refine ht.step hbefore hids hv (fun n hn => ?_) (aggregateStorage_effect hstep)
    exact (visits_left (hn ▸ hvisits)).2
  · exact ⟨fun _ _ _ hseen => absurd hseen List.not_mem_nil,
      fun _ _ _ hseen => absurd hseen List.not_mem_nil, fun _ _ _ _ => rfl,
      fun _ _ _ hrodata => hrodata⟩

end Aggregates

/-! ## Results -/

section Results

variable {e : Expr ℤ} {before storage : StorageMap} {seen : List (Visit ℤ)}

/-- **What has storage on the way through pass E**: comprehensions once they are left, none of which
has a `dyn` call around a comprehension for its result; the rest as before. -/
structure ResultsStored (e : Expr ℤ) (before : StorageMap) (seen : List (Visit ℤ))
    (storage : StorageMap) : Prop where
  comprehension : ∀ n ∈ e.postOrder, n.isComprehension = true → .leave n ∈ seen →
    storage n.ann ≠ .none ∧ n.yieldsDynOfComprehension = false
  rest : ∀ n ∈ e.postOrder, n.isComprehension = false → storage n.ann = before n.ann

/-- **A node that has been left has no storage** exactly if it is a `dyn` call around a
comprehension. -/
theorem ResultsStored.left (h : ResultsStored e before seen storage)
    (hbefore : ∀ n ∈ e.postOrder, before n.ann = .none ↔
      (n.isComprehension || n.isDynOfComprehension) = true)
    {n : Expr ℤ} (hn : n ∈ e.postOrder) (hseen : .leave n ∈ seen) :
    storage n.ann = .none ↔ n.isDynOfComprehension = true := by
  cases hkind : n.isComprehension with
  | true =>
    refine iff_of_false (h.comprehension n hn hkind hseen).1 fun hdyn => ?_
    cases n with
    | comprehension => exact Bool.false_ne_true hdyn
    | _ => exact Bool.false_ne_true hkind
  | false => rw [h.rest n hn hkind, hbefore n hn, hkind, Bool.false_or]

/-- A comprehension that is left, and every other step. -/
theorem comprehensionLocals_cases {s s' : CompLocalsState} {v : Visit ℤ}
    (h : comprehensionLocals s v = some s') :
    ((∀ n, v = .leave n → n.isComprehension = false) ∧ s'.storage = s.storage) ∨
    ∃ m result, v = .leave m ∧ m.isComprehension = true ∧ result ∈ m.children ∧
      m.yieldsDynOfComprehension = result.isDynOfComprehension ∧
      s.storage result.ann ≠ .none ∧
      s'.storage = Function.update s.storage m.ann (s.storage result.ann) := by
  cases v with
  | enter n =>
    refine .inl ⟨fun _ hn => (nomatch hn), ?_⟩
    cases n with
    | comprehension => rw [← Option.some.inj h]
    | _ => rw [Option.some.inj h]
  | leave n =>
    cases n with
    | comprehension id iterVar iterVar2 accuVar iterRange accuInit loopCondition loopStep result =>
      rw [comprehensionLocals] at h
      split_ifs at h with hresult
      obtain rfl := Option.some.inj h
      exact .inr ⟨_, result, rfl, rfl, by simp [Expr.children], rfl, hresult, rfl⟩
    | _ => exact .inl ⟨fun n hn => Visit.leave.inj hn ▸ rfl, by rw [Option.some.inj h]⟩

/-- **One step.** -/
theorem ResultsStored.step (h : ResultsStored e before seen storage)
    (hbefore : ∀ n ∈ e.postOrder, before n.ann = .none ↔
      (n.isComprehension || n.isDynOfComprehension) = true)
    (hids : (e.postOrder.map Expr.ann).Nodup) {v : Visit ℤ} (hv : v.node ∈ e.postOrder)
    (hchildren : ∀ n, v = .leave n → ∀ c ∈ n.children, .enter c ∈ seen ∧ .leave c ∈ seen)
    {s s' : CompLocalsState} (hs : s.storage = storage)
    (hstep : comprehensionLocals s v = some s') :
    ResultsStored e before (seen ++ [v]) s'.storage := by
  obtain ⟨hskip, hsame⟩ | ⟨m, result, rfl, hm, hresult, hyields, hstored, hsame⟩ :=
    comprehensionLocals_cases hstep
  · rw [hsame, hs]
    refine ⟨fun n hn hkind hseen => h.comprehension n hn hkind
      (mem_of_mem_append_singleton hseen fun heq => ?_), h.rest⟩
    exact Bool.false_ne_true ((hskip n heq.symm).symm.trans hkind)
  · have hother : ∀ n ∈ e.postOrder, n ≠ m → s'.storage n.ann = storage n.ann := fun n hn hne => by
      rw [hsame, hs]
      exact Function.update_of_ne (fun hann => hne (eq_of_ann hids hn hv hann)) _ _
    refine ⟨fun n hn hkind hseen => ?_, fun n hn hkind => ?_⟩
    · by_cases hnm : n = m
      · rw [hnm, hsame, Function.update_self, hyields]
        refine ⟨hstored, Bool.eq_false_of_not_eq_true fun hdyn => hstored ?_⟩
        rw [hs, h.left hbefore (mem_postOrder_trans hv (mem_postOrder_child hresult))
          (hchildren m rfl result hresult).2]
        exact hdyn
      · rw [hother n hn hnm]
        exact h.comprehension n hn hkind
          (mem_of_mem_append_singleton hseen fun heq => hnm (Visit.leave.inj heq))
    · rw [hother n hn fun heq => Bool.false_ne_true (hkind.symm.trans (heq ▸ hm))]
      exact h.rest n hn hkind

variable {r : ResolveOutput}

theorem resultsStored_nil : ResultsStored e before [] before :=
  ⟨fun _ _ _ hseen => absurd hseen List.not_mem_nil, fun _ _ _ => rfl⟩

/-- **Behind pass E**, the nodes without storage are the `dyn` calls around comprehensions, and none of
these is the result of a comprehension. -/
theorem storageOfResults_run (hids : (e.postOrder.map Expr.ann).Nodup)
    (hbefore : ∀ n ∈ e.postOrder, before n.ann = .none ↔
      (n.isComprehension || n.isDynOfComprehension) = true)
    (hrun : storageOfResults r e before = some storage) :
    (∀ n ∈ e.postOrder, n.yieldsDynOfComprehension = false) ∧
      (∀ n ∈ e.postOrder, storage n.ann = .none ↔ n.isDynOfComprehension = true) ∧
      ∀ n ∈ e.postOrder, n.isComprehension = false → storage n.ann = before n.ann := by
  obtain ⟨s, hs, rfl⟩ := Option.map_eq_some_iff.mp hrun
  have hinv := @foldlM_invariant CompLocalsState (Visit ℤ) comprehensionLocals
    (fun seen t => ResultsStored e before seen t.storage) e.visits _ s ?_ resultsStored_nil hs
  · refine ⟨fun n hn => ?_, fun n hn => hinv.left hbefore hn (leave_mem_visits hn), hinv.rest⟩
    cases hkind : n.isComprehension with
    | true => exact (hinv.comprehension n hn hkind (leave_mem_visits hn)).2
    | false => cases n <;> first | rfl | exact nomatch hkind
  · intro seen v rest t t' hvisits ht hstep
    have hv : v.node ∈ e.postOrder := node_mem_postOrder (by simp [hvisits])
    exact ht.step hbefore hids hv (fun n hn => (visits_left (hn ▸ hvisits)).2) rfl hstep

/-- **Pass E runs through** if no comprehension has such a result. -/
theorem storageOfResults_total (hids : (e.postOrder.map Expr.ann).Nodup)
    (hbefore : ∀ n ∈ e.postOrder, before n.ann = .none ↔
      (n.isComprehension || n.isDynOfComprehension) = true)
    (hresults : ∀ n ∈ e.postOrder, n.yieldsDynOfComprehension = false) :
    ∃ storage, storageOfResults r e before = some storage := by
  have hrun := @foldlM_total CompLocalsState (Visit ℤ) comprehensionLocals
    (fun seen t => ResultsStored e before seen t.storage) e.visits
    ⟨before, fun _ => 0, r.locals.length⟩ ?_ resultsStored_nil
  · obtain ⟨s, hs, -⟩ := hrun
    exact ⟨s.storage, by rw [storageOfResults, hs]; rfl⟩
  · intro seen v rest t hvisits ht
    have hv : v.node ∈ e.postOrder := node_mem_postOrder (by simp [hvisits])
    have hleft : ∀ n, v = .leave n → ∀ c ∈ n.children, .enter c ∈ seen ∧ .leave c ∈ seen :=
      fun n hn => (visits_left (hn ▸ hvisits)).2
    obtain ⟨t', hstep⟩ : ∃ t', comprehensionLocals t v = some t' := by
      cases v with
      | enter n => cases n <;> exact ⟨_, rfl⟩
      | leave n =>
        cases n with
        | comprehension id iterVar iterVar2 accuVar iterRange accuInit loopCondition loopStep
            result =>
          have hmem : result ∈ (Expr.comprehension id iterVar iterVar2 accuVar iterRange accuInit
            loopCondition loopStep result).children := by simp [Expr.children]
          refine ⟨_, if_neg fun hnone => ?_⟩
          rw [ht.left hbefore (mem_postOrder_trans hv (mem_postOrder_child hmem))
            (hleft _ rfl result hmem).2] at hnone
          exact Bool.false_ne_true ((hresults _ hv).symm.trans hnone)
        | _ => exact ⟨_, rfl⟩
    exact ⟨t', hstep, ht.step hbefore hids hv hleft rfl hstep⟩

end Results

/-! ## What lowering finds -/

section Lowering

variable {e : Expr ℤ} {r : ResolveOutput} {opts : LayoutOptions} {before storage : StorageMap}

/-- **Passes A to D**: the nodes without storage are the comprehensions and the `dyn` calls around them,
and only literals made of constants are in rodata. -/
theorem storageBeforeResults_run (hids : (e.postOrder.map Expr.ann).Nodup)
    (hrun : storageBeforeResults r opts e = some before) :
    (∀ n ∈ e.postOrder, before n.ann = .none ↔
      (n.isComprehension || n.isDynOfComprehension) = true) ∧
    ∀ n ∈ e.postOrder, n.isLiteral = true → (before n.ann).isStaticRodata = true →
      isConstMaterializable (n.mapAnn r.repr) = true := by
  simp only [storageBeforeResults, Option.bind_eq_bind, Option.bind_eq_some_iff] at hrun
  obtain ⟨⟨constants, b⟩, hconstants, idents, hidents, hrun⟩ := hrun
  split_ifs at hrun
  obtain ⟨selects, hselects, hrun⟩ := Option.bind_eq_some_iff.mp hrun
  obtain ⟨aggregates, haggregates, hlast⟩ := Option.bind_eq_some_iff.mp hrun
  obtain rfl := Option.some.inj hlast
  have hconst := fun {n} => (stores_constLayout r.repr).run hids hconstants (n := n)
  have hident := fun {n} => (stores_identStorage r).run hids hidents (n := n)
  have hselect := fun {n} => stores_selectStorage.run hids hselects (n := n)
  -- What none of the first three walks stores is stored as pass A has stamped it.
  have hstamped : ∀ n ∈ e.postOrder, (n.isConst || n.isIdent || n.isSelect) = false →
      selects.storage n.ann ≠ .none → isConstMaterializable (n.mapAnn r.repr) = true := by
    intro n hn hkind hstored
    simp only [Bool.or_eq_false_iff] at hkind
    rw [(hselect hn).2 hkind.2] at hstored
    change idents n.ann ≠ .none at hstored
    rw [show idents n.ann = constants n.ann from (hident hn).2 hkind.1.2,
      show constants n.ann = _ from (hconst hn).2 hkind.1.1] at hstored
    obtain ⟨m, hm, hann, hliteral⟩ := exists_of_stampedStorage r.repr e _ hstored
    exact eq_of_ann hids hm hn hann ▸ hliteral
  have hbefore : LeavesStored e selects.storage := by
    refine ⟨fun n hn hkind => ?_, fun n hn hkind => ?_⟩
    · cases n with
      | const =>
        rw [(hselect hn).2 rfl]
        change idents _ ≠ .none
        rw [show idents _ = constants _ from (hident hn).2 rfl]
        exact (hconst hn).1 rfl
      | ident =>
        rw [(hselect hn).2 rfl]
        exact (hident hn).1 rfl
      | select => exact (hselect hn).1 rfl
      | _ => exact absurd hkind Bool.false_ne_true
    · by_contra hstored
      cases n with
      | comprehension => exact Bool.false_ne_true (hstamped _ hn rfl hstored)
      | _ => exact absurd hkind Bool.false_ne_true
  obtain ⟨hnone, hrodata⟩ := aggregateStorage_run hids hbefore haggregates
  refine ⟨hnone, fun n hn hliteral hstatic => hstamped n hn ?_ ?_⟩
  · cases n <;> first | rfl | exact absurd hliteral Bool.false_ne_true
  · intro hstored
    have hfound := hrodata n hn hliteral hstatic
    rw [hstored] at hfound
    exact Bool.false_ne_true hfound

/-- Below a literal made of constants there is no call. -/
theorem Emits.of_isConstMaterializable {n c : Expr ℤ} {repr : ℤ → NodeRepr}
    (hn : isConstMaterializable (n.mapAnn repr) = true) (h : Emits storage n c) :
    isConstMaterializable (c.mapAnn repr) = true := by
  refine isConstMaterializable_node hn ?_
  rw [postOrder_mapAnn]
  exact List.mem_map_of_mem h.mem

/-- **A `dyn` call around a comprehension is reached** whatever is in rodata, if all that is there are
literals made of constants. -/
theorem Emits.of_isDynOfComprehension {repr : ℤ → NodeRepr}
    (hrodata : ∀ n ∈ e.postOrder, n.isLiteral = true → (storage n.ann).isStaticRodata = true →
      isConstMaterializable (n.mapAnn repr) = true)
    {n : Expr ℤ} (h : Emits (fun _ => .none) e n) (hdyn : n.isDynOfComprehension = true) :
    Emits storage e n := by
  have hbelow : ∀ m ∈ e.postOrder, Emits (fun _ => .none) m n → m.isLiteral = true →
      (storage m.ann).isStaticRodata = false := fun m hm hmn hliteral => by
    by_contra hstatic
    have hconst := hmn.of_isConstMaterializable
      (hrodata m hm hliteral (Bool.eq_true_of_not_eq_false hstatic))
    cases n with
    | call => exact Bool.false_ne_true hconst
    | _ => exact Bool.false_ne_true hdyn
  have hpath : ∀ m, Emits (fun _ => .none) m n → m ∈ e.postOrder → Emits storage m n := by
    intro m hm
    induction hm using Relation.ReflTransGen.head_induction_on with
    | refl => exact fun _ => .refl
    | @head m c hc hcn ih =>
      refine fun hm => .head ?_ (ih (mem_postOrder_trans hm (emitted_mem hc)))
      have hopen := hbelow m hm (.head hc hcn)
      cases m with
      | list | map =>
        rw [Expr.ann] at hopen
        rw [emitted, hopen rfl]
        exact hc
      | _ => exact hc
  exact hpath e h (mem_postOrder_self e)

/-- What is reached when nothing is in rodata. -/
theorem Emits.widen {n : Expr ℤ} (h : Emits storage e n) : Emits (fun _ => .none) e n := by
  induction h with
  | refl => exact .refl
  | @tail m c _ hc ih =>
    refine ih.tail ?_
    cases m with
    | list | map =>
      rw [emitted] at hc
      split_ifs at hc
      · exact absurd hc List.not_mem_nil
      · exact hc
    | _ => exact hc

/-- **Layout gives every node that lowering reaches storage exactly if** none of them is a `dyn` call
around a comprehension, and no comprehension at all has such a call for its result. -/
theorem storageOfResults_stored_iff (hids : (e.postOrder.map Expr.ann).Nodup)
    (hrun : storageBeforeResults r opts e = some before) :
    (∃ storage, storageOfResults r e before = some storage ∧
        ∀ n, Emits storage e n → storage n.ann ≠ .none) ↔
      (∀ n, Emits (fun _ => .none) e n → n.isDynOfComprehension = false) ∧
        ∀ n ∈ e.postOrder, n.yieldsDynOfComprehension = false := by
  obtain ⟨hnone, hrodata⟩ := storageBeforeResults_run hids hrun
  constructor
  · rintro ⟨storage, hresults, hstored⟩
    obtain ⟨hyields, hleft, hrest⟩ := storageOfResults_run hids hnone hresults
    refine ⟨fun n hn => Bool.eq_false_of_not_eq_true fun hdyn => ?_, hyields⟩
    have hliterals : ∀ m ∈ e.postOrder, m.isLiteral = true →
        (storage m.ann).isStaticRodata = true → isConstMaterializable (m.mapAnn r.repr) = true := by
      intro m hm hliteral hstatic
      refine hrodata m hm hliteral ?_
      rwa [← hrest m hm (by cases m <;> first | rfl | exact absurd hliteral Bool.false_ne_true)]
    exact hstored n (hn.of_isDynOfComprehension hliterals hdyn) ((hleft n hn.mem).mpr hdyn)
  · rintro ⟨hreached, hyields⟩
    obtain ⟨storage, hresults⟩ := @storageOfResults_total e before r hids hnone hyields
    obtain ⟨-, hleft, -⟩ := storageOfResults_run hids hnone hresults
    refine ⟨storage, hresults, fun n hn hempty => ?_⟩
    have hdyn := (hleft n hn.mem).mp hempty
    exact Bool.false_ne_true ((hreached n hn.widen).symm.trans hdyn)

end Lowering

/-- `dyn(1)`. -/
def dynOne : Expr ℤ := .call 1 "dyn" false [.const 2 (.int 1)]

theorem storageOfResults_stored_iff_dynOne : ∃ before storage,
    storageBeforeResults ⟨fun _ => .int, fun _ => 0, []⟩ ⟨false, 0⟩ dynOne = some before ∧
      storageOfResults ⟨fun _ => .int, fun _ => 0, []⟩ dynOne before = some storage ∧
      ∀ n, Emits storage dynOne n → storage n.ann ≠ .none := by
  have hrun : (storageBeforeResults ⟨fun _ => .int, fun _ => 0, []⟩ ⟨false, 0⟩ dynOne).isSome = true :=
    by rfl
  obtain ⟨before, hbefore⟩ := Option.isSome_iff_exists.mp hrun
  have hnodes : ∀ n ∈ dynOne.postOrder,
      n.isDynOfComprehension = false ∧ n.yieldsDynOfComprehension = false := by
    simp [dynOne, Expr.postOrder, postOrderList, Expr.isDynOfComprehension, Expr.isComprehension,
      Expr.yieldsDynOfComprehension]
  obtain ⟨storage, hresults, hstored⟩ := (storageOfResults_stored_iff (by decide) hbefore).mpr
    ⟨fun n hn => (hnodes n hn.mem).1, fun n hn => (hnodes n hn).2⟩
  exact ⟨before, storage, hbefore, hresults, hstored⟩

/-- `dyn([1].all(x, true))`. -/
def dynAllCall : Expr ℤ :=
  .call 2 "dyn" false [.comprehension 3 "x" "" "@result" (.list 4 [.const 5 (.int 1)] [])
    (.const 6 (.bool true)) (.call 7 "@not_strictly_false" false [.ident 8 "@result"])
    (.call 9 "_&&_" false [.ident 10 "@result", .const 11 (.bool true)]) (.ident 12 "@result")]

/-- `dyn([1].all(x, true)) ? 1 : 2`. -/
def dynAllTernary : Expr ℤ :=
  .call 1 "_?_:_" false [dynAllCall, .const 13 (.int 1), .const 14 (.int 2)]

/-- The types the checker gives it. -/
def dynAllTypes : TypeMap
  | 1 | 5 | 13 | 14 => some (.primitive .int64)
  | 2 => some .dyn
  | 4 => some (.list (.primitive .int64))
  | _ => some (.primitive .bool)

/-- …and what is resolved of it: a `dyn` call has the representation of its argument. -/
def dynAllResolved : ResolveOutput where
  repr id := if id = 2 then .bool else nodeRepr dynAllTypes id
  localIndex _ := 1
  locals := [⟨"x", .unknown, .comprehensionIter⟩, ⟨"@result", .bool, .comprehensionAccu⟩]


/-- **The gate lets it through, and the `dyn` call has no storage**: the ternary reads its condition
there. -/
theorem dynAllTernary_unstored :
    ¬∀ (types : TypeMap) (formatTypeSpec : TypeSpec → String) (r : ResolveOutput)
      (opts : LayoutOptions) (e : Expr ℤ) (before : StorageMap),
      (e.postOrder.map Expr.ann).Nodup → rejectDyn types formatTypeSpec e = .ok () →
      storageBeforeResults r opts e = some before →
      ∃ storage, storageOfResults r e before = some storage ∧
        ∀ n, Emits storage e n → storage n.ann ≠ .none := by
  intro h
  have hrun : ((storageBeforeResults dynAllResolved ⟨false, 0⟩ dynAllTernary).bind
      (storageOfResults dynAllResolved dynAllTernary)).map (fun storage => storage 2)
        = some .none := by set_option maxRecDepth 1000 in decide
  obtain ⟨laidOut, hbind, hnone⟩ := Option.map_eq_some_iff.mp hrun
  obtain ⟨before, hbefore, hlaidOut⟩ := Option.bind_eq_some_iff.mp hbind
  obtain ⟨storage, hresults, hstored⟩ := h dynAllTypes (fun _ => "") dynAllResolved ⟨false, 0⟩
    dynAllTernary before (by decide) rfl hbefore
  obtain rfl := Option.some.inj (hlaidOut.symm.trans hresults)
  exact hstored dynAllCall (.single List.mem_cons_self) hnone

end CelWasm
