import CelWasm.Eval.HostSnapshot

/-!
# Eval/Exhaustion — an exhausted arena and the operations on containers

A refused block is to come out as `CEL_ERR_OVERFLOW`, or as the failing status of a trampoline. The
outermost walk of a comparison keeps to this, and so do concatenation and the state of an iteration.
A comparison inside a walk does not: the walk takes an overflow for a verdict and goes on with
unequal. Nor does the copy of a host container, which is empty where its run is refused.
`containerOp_exhaustion_iff` says which operations on which operands are safe in every run.
-/

namespace CelWasm

/-- A program of the host's fails when it is refused a block, and only then. -/
abbrev FailsOnRefusal {α : Type} (p : Kernel α) : Prop := Prog.StopsOnRefusal Stop.hostFailure p

open Prog

/-! ## The host's programs -/

section Host

theorem encodeSpan_fails (bytes : List UInt8) (cell : CelValue) :
    FailsOnRefusal (encodeSpan bytes cell) := by
  refine ⟨⟨fun hbytes => ?_, trivial⟩, nofun⟩
  change (if (!false && !bytes.isEmpty) = true then stop .hostFailure
    else pure cell : Kernel CelValue).Meets _ _
  rw [if_pos (by simpa [List.isEmpty_iff, List.length_eq_zero_iff] using hbytes)]
  rfl

theorem encodeValue_fails (v : HostValue) : FailsOnRefusal (encodeValue v) := by
  cases v with
  | string s => exact encodeSpan_fails s _
  | bytes s => exact encodeSpan_fails s _
  | unknown ids => exact stopsOnRefusal_stop (by decide)
  | type name => exact stopsOnRefusal_stop (by decide)
  | _ => exact stopsOnRefusal_pure _ _

theorem encodeEntry_fails (e : HostValue × HostValue) : FailsOnRefusal (encodeEntry e) :=
  (encodeValue_fails e.1).bind fun _ _ => (encodeValue_fails e.2).bind fun _ _ =>
    stopsOnRefusal_pure _ _

theorem Element.read_fails (y : Element) : FailsOnRefusal y.read := by
  cases y with
  | cell v => exact stopsOnRefusal_pure _ _
  | backing v => exact encodeValue_fails v

theorem snapshotMapEntries_fails (m : CelValue) : FailsOnRefusal (snapshotMapEntries m) := by
  cases m with
  | mapHost entries => exact stopsOnRefusal_mapM encodeEntry_fails entries
  | _ => exact stopsOnRefusal_pure _ _

variable {messagesEqual : ℕ → ℕ → Bool}

theorem backingListEq_fails : ∀ {elements : List HostValue} (ys : List Element),
    (∀ v ∈ elements, ∀ b, FailsOnRefusal (backingValueEq messagesEqual v b)) →
    FailsOnRefusal (backingListEq messagesEqual elements ys)
  | [], _, _ => stopsOnRefusal_pure _ _
  | _ :: _, [], _ => stopsOnRefusal_pure _ _
  | v :: vs, y :: ys, h => by
    rw [List.forall_mem_cons] at h
    rw [backingListEq]
    refine (encodeValue_fails v).bind fun _ _ => y.read_fails.bind fun b _ => ?_
    refine (h.1 b).bind fun r _ => stopsOnRefusal_ite (fun _ => ?_) fun _ => ?_
    · exact backingListEq_fails ys h.2
    · exact stopsOnRefusal_pure _ _

theorem backingMapEq_fails (others : List (CelValue × CelValue)) :
    ∀ (keys : List CelValue) {entries : List (HostValue × HostValue)},
    (∀ e ∈ entries, ∀ b, FailsOnRefusal (backingValueEq messagesEqual e.2 b)) →
    FailsOnRefusal (backingMapEq messagesEqual others keys entries)
  | [], _, _ => by unfold backingMapEq; exact stopsOnRefusal_pure _ _
  | _ :: _, [], _ => stopsOnRefusal_pure _ _
  | key :: keys, e :: entries, h => by
    rw [List.forall_mem_cons] at h
    have hentry : FailsOnRefusal (backingEntryMatches messagesEqual others key e) := by
      obtain ⟨name, value⟩ := e
      rw [backingEntryMatches]
      cases others.find? fun e => hostMapKeyEq key e.1 with
      | some e => exact h.1 e.2
      | none => exact stopsOnRefusal_pure _ _
    rw [backingMapEq]
    refine hentry.bind fun r _ => stopsOnRefusal_ite (fun _ => ?_) fun _ => ?_
    · exact backingMapEq_fails others keys h.2
    · exact stopsOnRefusal_pure _ _

/-- **The host's comparison of a backing's value**, to any depth. -/
theorem backingValueEq_fails : ∀ (v : HostValue) (b : CelValue),
    FailsOnRefusal (backingValueEq messagesEqual v b)
  | .list elements, b => by
    rw [backingValueEq]
    refine stopsOnRefusal_ite (fun _ => stopsOnRefusal_pure _ _) fun _ => ?_
    refine stopsOnRefusal_ite (fun _ => stopsOnRefusal_pure _ _) fun _ => ?_
    exact backingListEq_fails _ fun v hmem => backingValueEq_fails v
  | .map entries, b => by
    rw [backingValueEq]
    refine stopsOnRefusal_ite (fun _ => stopsOnRefusal_pure _ _) fun _ => ?_
    refine stopsOnRefusal_ite (fun _ => stopsOnRefusal_pure _ _) fun _ => ?_
    refine (snapshotMapEntries_fails _).bind fun cells _ =>
      (snapshotMapEntries_fails b).bind fun others _ => ?_
    exact backingMapEq_fails others _ fun e hmem => backingValueEq_fails e.2
  | .message m, b => by cases b <;> exact stopsOnRefusal_pure _ _
  | .null, _ | .bool _, _ | .int _, _ | .uint _, _ | .double _, _ | .string _, _ | .bytes _, _
  | .type _, _ | .duration _, _ | .timestamp _, _ | .unknown _, _ | .error _, _ =>
    stopsOnRefusal_pure _ _
termination_by v => sizeOf v
decreasing_by
  · exact HostValue.sizeOf_element hmem
  · exact HostValue.sizeOf_value hmem

theorem wireListEq_fails : ∀ {xs : List CelValue} (ys : List Element),
    (∀ x ∈ xs, ∀ b, FailsOnRefusal (wireValueEq messagesEqual x b)) →
    FailsOnRefusal (wireListEq messagesEqual xs ys)
  | [], _, _ => stopsOnRefusal_pure _ _
  | _ :: _, [], _ => stopsOnRefusal_pure _ _
  | x :: xs, y :: ys, h => by
    rw [List.forall_mem_cons] at h
    rw [wireListEq]
    refine y.read_fails.bind fun b _ => (h.1 b).bind fun r _ => ?_
    refine stopsOnRefusal_ite (fun _ => ?_) fun _ => stopsOnRefusal_pure _ _
    exact wireListEq_fails ys h.2

theorem wireMapEq_fails (others : List (CelValue × CelValue)) :
    ∀ {entries : List (CelValue × CelValue)},
    (∀ e ∈ entries, ∀ b, FailsOnRefusal (wireValueEq messagesEqual e.2 b)) →
    FailsOnRefusal (wireMapEq messagesEqual others entries)
  | [], _ => stopsOnRefusal_pure _ _
  | e :: entries, h => by
    rw [List.forall_mem_cons] at h
    have hentry : FailsOnRefusal (wireEntryMatches messagesEqual others e) := by
      obtain ⟨name, value⟩ := e
      rw [wireEntryMatches]
      cases others.find? fun e => hostMapKeyEq name e.1 with
      | some e => exact h.1 e.2
      | none => exact stopsOnRefusal_pure _ _
    rw [wireMapEq]
    refine hentry.bind fun r _ => ?_
    refine stopsOnRefusal_ite (fun _ => ?_) fun _ => stopsOnRefusal_pure _ _
    exact wireMapEq_fails others h.2

/-- **The host's comparison of two cells**, to any depth. -/
theorem wireValueEq_fails : ∀ a b : CelValue, FailsOnRefusal (wireValueEq messagesEqual a b)
  | .listArena _ xs, b => by
    rw [wireValueEq]
    refine stopsOnRefusal_ite (fun _ => stopsOnRefusal_pure _ _) fun _ => ?_
    refine stopsOnRefusal_ite (fun _ => stopsOnRefusal_pure _ _) fun _ => ?_
    exact wireListEq_fails _ fun x hmem => wireValueEq_fails x
  | .mapArena _ entries _, b => by
    rw [wireValueEq]
    refine stopsOnRefusal_ite (fun _ => stopsOnRefusal_pure _ _) fun _ => ?_
    refine stopsOnRefusal_ite (fun _ => stopsOnRefusal_pure _ _) fun _ => ?_
    refine (snapshotMapEntries_fails b).bind fun others _ => ?_
    exact wireMapEq_fails others fun e hmem => wireValueEq_fails e.2
  | .listHost _, b => backingValueEq_fails _ b
  | .mapHost _, b => backingValueEq_fails _ b
  | .message m, b => by cases b <;> exact stopsOnRefusal_pure _ _
  | .null, _ | .bool _, _ | .int _, _ | .uint _, _ | .double _, _ | .string _, _ | .bytes _, _
  | .type _, _ | .duration _, _ | .timestamp _, _ | .optional _, _ | .unknown _, _ | .error _, _
  | .ip _, _ | .cidr _, _ => stopsOnRefusal_pure _ _
termination_by a => sizeOf a
decreasing_by
  · exact CelValue.sizeOf_element hmem
  · exact CelValue.sizeOf_value hmem

theorem absorbBinary_fails (a b : CelValue) {body : Kernel CelValue} (h : FailsOnRefusal body) :
    FailsOnRefusal (absorbBinary a b body) := by
  unfold absorbBinary
  split
  all_goals first | exact h | exact stopsOnRefusal_pure _ _

theorem backingValueEqualsQuery_fails (v : HostValue) (query : CelValue) :
    FailsOnRefusal (backingValueEqualsQuery messagesEqual v query) := by
  cases v with
  | string s => cases query <;> exact stopsOnRefusal_pure _ _
  | bytes s => cases query <;> exact stopsOnRefusal_pure _ _
  | null => cases query <;> exact stopsOnRefusal_pure _ _
  | message m => exact (encodeValue_fails _).bind fun cell _ => wireValueEq_fails cell query
  | list vs => exact (encodeValue_fails _).bind fun cell _ => wireValueEq_fails cell query
  | map es => exact (encodeValue_fails _).bind fun cell _ => wireValueEq_fails cell query
  | _ => exact stopsOnRefusal_pure _ _

/-- `in` on a host list. -/
theorem celListInImpl_fails (query list : CelValue) :
    FailsOnRefusal (celListInImpl messagesEqual query list) := by
  refine absorbBinary_fails query list ?_
  split
  · refine (stopsOnRefusal_foldlM (fun found v => ?_) _ false).map
    exact stopsOnRefusal_ite (fun _ => stopsOnRefusal_pure _ _)
      fun _ => backingValueEqualsQuery_fails v query
  · exact stopsOnRefusal_pure _ _

/-- `in` on a host map. -/
theorem celMapInImpl_fails (key m : CelValue) : FailsOnRefusal (celMapInImpl key m) := by
  refine absorbBinary_fails key m ?_
  split
  · split <;> exact stopsOnRefusal_pure _ _
  · exact stopsOnRefusal_pure _ _

/-- The imports a comparison goes to fail on refusal. -/
structure CelHost.ComparesOrFails (host : CelHost) : Prop where
  listEq (a b : CelValue) : FailsOnRefusal (host.listEq a b)
  mapEq (a b : CelValue) : FailsOnRefusal (host.mapEq a b)
  messageEq (a b : CelValue) : FailsOnRefusal (host.messageEq a b)

/-- The imports of the evaluator. `CelMessageEqImpl` asks for nothing; what it writes is a
parameter. -/
def CelHost.trampolines (messagesEqual : ℕ → ℕ → Bool)
    (messageVerdict : CelValue → CelValue → CelValue) : CelHost :=
  { (CelHost.stubs.withHostMaps.withHostEquality messagesEqual).withSnapshots with
    listIn := celListInImpl messagesEqual
    messageEq := fun a b => return messageVerdict a b }

theorem CelHost.trampolines_comparesOrFails (messageVerdict : CelValue → CelValue → CelValue) :
    (CelHost.trampolines messagesEqual messageVerdict).ComparesOrFails where
  listEq a b := absorbBinary_fails a b <| stopsOnRefusal_ite (fun _ => stopsOnRefusal_pure _ _)
    fun _ => (wireValueEq_fails a b).map
  mapEq a b := absorbBinary_fails a b <| stopsOnRefusal_ite (fun _ => stopsOnRefusal_pure _ _)
    fun _ => (wireValueEq_fails a b).map
  messageEq _ _ := stopsOnRefusal_pure _ _

end Host

/-! ## Walks -/

/-- What a walk compares next: two values, or nothing where an entry has no partner. Looking for the
partner may stop. -/
abbrev Pick := Except Stop (Option (CelValue × CelValue))

/-- The pairs of two lists. -/
def listPicks (xs ys : List CelValue) : List Pick := (xs.zip ys).map fun p => .ok (some p)

/-- The values of two maps under the same key. -/
def mapPicks (other : List (CelValue × CelValue)) (index : Option MapIndex)
    (entries : List (CelValue × CelValue)) : List Pick :=
  entries.map fun e => (matchingEntry e.1 other index).granted.map fun val => val.map (e.2, ·)

/-- The elements of a list, each with the value looked for. -/
def scanPicks (value : CelValue) (elements : List CelValue) : List Pick :=
  elements.map fun e => .ok (some (e, value))

section Walks

variable (host : CelHost)

/-- **One walk for the three of them**: it compares pair after pair for as long as the verdict is
`goOn`. -/
def walkPairs (goOn : Bool) (scratch : Bool) : List Pick → Kernel (Option Bool)
  | [] => return some goOn
  | .error e :: _ => Prog.stop e
  | .ok none :: _ => return some false
  | .ok (some (x, y)) :: rest => do
    match ← deepValuesEqual scratch x y (equalityKernel host x y) with
    | (scratch, some verdict) =>
      if verdict = goOn then walkPairs goOn scratch rest else return some verdict
    | (_, none) => return none

theorem elementsEqual_eq_walkPairs : ∀ (scratch : Bool) (xs ys : List CelValue),
    elementsEqual host scratch xs ys = walkPairs host true scratch (listPicks xs ys)
  | _, [], _ => rfl
  | _, _ :: _, [] => rfl
  | scratch, x :: xs, y :: ys => by
    rw [elementsEqual]
    refine congrArg (Bind.bind (deepValuesEqual scratch x y (equalityKernel host x y)))
      (funext fun r => ?_)
    obtain ⟨scratch, _ | _ | _⟩ := r
    · rfl
    · rfl
    · exact elementsEqual_eq_walkPairs scratch xs ys

theorem arenaListScanGeneric_eq_walkPairs (value : CelValue) :
    ∀ (scratch : Bool) (elements : List CelValue),
    arenaListScanGeneric host value scratch elements
      = walkPairs host false scratch (scanPicks value elements)
  | _, [] => rfl
  | scratch, e :: rest => by
    rw [arenaListScanGeneric]
    refine congrArg (Bind.bind (deepValuesEqual scratch e value (equalityKernel host e value)))
      (funext fun r => ?_)
    obtain ⟨scratch, _ | _ | _⟩ := r
    · rfl
    · exact arenaListScanGeneric_eq_walkPairs value scratch rest
    · rfl

/-- Looking for a partner asks for nothing. -/
theorem matchingEntry_cases (key : CelValue) (other : List (CelValue × CelValue))
    (index : Option MapIndex) :
    (∃ val, matchingEntry key other index = pure val) ∨
      ∃ e, e ≠ Stop.hostFailure ∧ matchingEntry key other index = Prog.stop e := by
  cases index with
  | none => exact .inl ⟨_, rfl⟩
  | some index =>
    rw [matchingEntry, arenaMapFind]
    cases celMapIndexFind (other.map Prod.fst) (some index) key with
    | none => exact .inr ⟨.diverges, by decide, rfl⟩
    | some found =>
      cases found with
      | none => exact .inl ⟨none, rfl⟩
      | some j =>
        change (∃ val, some <$> arenaMapEntryVal other j = pure val) ∨
          ∃ e, _ ∧ some <$> arenaMapEntryVal other j = Prog.stop e
        rw [arenaMapEntryVal]
        cases other[j]? with
        | some e => exact .inl ⟨some e.2, rfl⟩
        | none => exact .inr ⟨.wildRead, by decide, rfl⟩

theorem entriesEqual_eq_walkPairs (other : List (CelValue × CelValue)) (index : Option MapIndex) :
    ∀ (scratch : Bool) (entries : List (CelValue × CelValue)),
    entriesEqual host other index scratch entries
      = walkPairs host true scratch (mapPicks other index entries)
  | _, [] => rfl
  | scratch, (key, val) :: rest => by
    rw [entriesEqual, arenaMapEntryMatches, mapPicks, List.map_cons]
    obtain ⟨partner, hpartner⟩ | ⟨e, -, hstop⟩ := matchingEntry_cases key other index
    · rw [hpartner]
      cases partner with
      | none => rfl
      | some val' =>
        refine congrArg
          (Bind.bind (deepValuesEqual scratch val val' (equalityKernel host val val')))
          (funext fun r => ?_)
        obtain ⟨scratch, _ | _ | _⟩ := r
        · rfl
        · rfl
        · exact entriesEqual_eq_walkPairs other index scratch rest
    · rw [hstop]
      rfl

/-! ### What a walk hands to the kernel -/

/-- The verdict on two values with memory to spare; none where there is no verdict. -/
def verdictOn (x y : CelValue) : Option Bool :=
  if isScalarEqKind x && isScalarEqKind y then some (celValueEq x y)
  else
    match (equalityKernel host x y).granted with
    | .ok v => some (v.isBool true)
    | .error _ => none

/-- **The pairs that a walk compares by the kernel**, with memory to spare. -/
def comparedPairs (goOn : Bool) : List Pick → List (CelValue × CelValue)
  | .ok (some (x, y)) :: rest =>
    (if isScalarEqKind x && isScalarEqKind y then [] else [(x, y)]) ++
      if verdictOn host x y = some goOn then comparedPairs goOn rest else []
  | _ => []

end Walks

/-- Whether a walk comes to a pair that is not scalar. -/
def comesToCompound : List Pick → Bool
  | .ok (some (x, y)) :: rest =>
    if isScalarEqKind x && isScalarEqKind y then celValueEq x y && comesToCompound rest else true
  | _ => false

/-- **A comparison that asks for a block of its own**: for the ids of two UNKNOWNs, or for the
scratch cell of a walk. -/
def asksOnItsOwn : CelValue → CelValue → Bool
  | .unknown s, .unknown t => !(s = ∅ || t = ∅)
  | .optional (some x), .optional (some y) => asksOnItsOwn x y
  | .listArena _ xs, .listArena _ ys => xs.length == ys.length && comesToCompound (listPicks xs ys)
  | .mapArena _ xs _, .mapArena _ ys index =>
    xs.length == ys.length && comesToCompound (mapPicks ys index xs)
  | _, _ => false

/-- No pair that a walk hands to the kernel asks for a block of its own. -/
def WalksSafely (host : CelHost) (goOn : Bool) (picks : List Pick) : Prop :=
  ∀ p ∈ comparedPairs host goOn picks, asksOnItsOwn p.1 p.2 = false

/-- **A comparison is safe** if its walk is. -/
def ComparesSafely (host : CelHost) : CelValue → CelValue → Prop
  | .optional (some x), .optional (some y) => ComparesSafely host x y
  | .listArena _ xs, .listArena _ ys =>
    xs.length = ys.length → WalksSafely host true (listPicks xs ys)
  | .mapArena _ xs _, .mapArena _ ys index =>
    xs.length = ys.length → WalksSafely host true (mapPicks ys index xs)
  | _, _ => True

/-! ## The kernel -/

section Kernel

variable {host : CelHost}

/-- **How a comparison uses the arena**: not at all but for what the host asks, for the ids of a
merged set, through an optional, or in a walk. -/
inductive KernelShape (host : CelHost) (a b : CelValue) : Prop
  | fails (h : FailsOnRefusal (equalityKernel host a b)) (hasks : asksOnItsOwn a b = false)
      (hsafe : ComparesSafely host a b)
  | merge (s t : UnknownSet) (ha : a = .unknown s) (hb : b = .unknown t) (hs : s ≠ ∅) (ht : t ≠ ∅)
  | optional (x y : CelValue) (ha : a = .optional (some x)) (hb : b = .optional (some y))
  | lists (capacity capacity' : ℕ) (xs ys : List CelValue) (ha : a = .listArena capacity xs)
      (hb : b = .listArena capacity' ys) (hlength : xs.length = ys.length)
  | maps (capacity capacity' : ℕ) (xs ys : List (CelValue × CelValue))
      (index index' : Option MapIndex) (ha : a = .mapArena capacity xs index)
      (hb : b = .mapArena capacity' ys index') (hlength : xs.length = ys.length)

/-- A comparison of other values is left to the host, if it is not decided on the spot. -/
theorem equalityKernel_fails (hhost : host.ComparesOrFails) {a b : CelValue}
    (ha : a.isPoison = false) (hb : b.isPoison = false)
    (hoptional : ∀ x y, a = .optional x → b ≠ .optional y)
    (hlists : ∀ c xs c' ys, a = .listArena c xs → b ≠ .listArena c' ys)
    (hmaps : ∀ c xs i c' ys i', a = .mapArena c xs i → b ≠ .mapArena c' ys i') :
    FailsOnRefusal (equalityKernel host a b) := by
  unfold equalityKernel
  rw [unlessAbsorbed_of_not_poison ha hb]
  refine stopsOnRefusal_ite (fun _ => stopsOnRefusal_pure _ _) fun _ => ?_
  cases equalSameKind a b with
  | some verdict => exact stopsOnRefusal_pure _ _
  | none =>
    dsimp only
    split
    · exact absurd rfl (hoptional _ _ rfl)
    · exact absurd rfl (hlists _ _ _ _ rfl)
    · exact absurd rfl (hmaps _ _ _ _ _ _ rfl)
    · exact hhost.messageEq _ _
    · refine stopsOnRefusal_ite (fun _ => hhost.listEq _ _) fun _ => ?_
      exact stopsOnRefusal_ite (fun _ => hhost.mapEq _ _) fun _ => stopsOnRefusal_pure _ _

theorem equalityKernel_listArena (capacity capacity' : ℕ) (xs ys : List CelValue) :
    equalityKernel host (.listArena capacity xs) (.listArena capacity' ys)
      = if xs.length ≠ ys.length then return .bool false
        else walkVerdict <$> walkPairs host true false (listPicks xs ys) := by
  rw [← elementsEqual_eq_walkPairs]
  rfl

theorem equalityKernel_mapArena (capacity capacity' : ℕ) (xs ys : List (CelValue × CelValue))
    (index index' : Option MapIndex) :
    equalityKernel host (.mapArena capacity xs index) (.mapArena capacity' ys index')
      = if xs.length ≠ ys.length then return .bool false
        else walkVerdict <$> walkPairs host true false (mapPicks ys index' xs) := by
  rw [← entriesEqual_eq_walkPairs]
  rfl

/-- Poison is absorbed, and two UNKNOWNs are merged. -/
theorem kernelShape_of_poison {a b : CelValue} (h : a.isPoison = true ∨ b.isPoison = true) :
    KernelShape host a b := by
  have hsafe : ComparesSafely host a b := by
    unfold ComparesSafely
    split
    · rcases h with h | h <;> cases h
    · rcases h with h | h <;> cases h
    · rcases h with h | h <;> cases h
    · trivial
  by_cases hunknowns : ∃ s t, a = .unknown s ∧ b = .unknown t
  · obtain ⟨s, t, rfl, rfl⟩ := hunknowns
    have hkernel : equalityKernel host (.unknown s) (.unknown t)
        = celUnknownMerge (.unknown s) (.unknown t) := unlessAbsorbed_unknowns s t _
    by_cases hs : s = ∅
    · refine .fails ?_ (by simp [asksOnItsOwn, hs]) hsafe
      rw [hkernel, celUnknownMerge, if_pos hs]
      exact stopsOnRefusal_pure _ _
    by_cases ht : t = ∅
    · refine .fails ?_ (by simp [asksOnItsOwn, ht]) hsafe
      rw [hkernel, celUnknownMerge, if_neg hs, if_pos ht]
      exact stopsOnRefusal_pure _ _
    exact .merge s t rfl rfl hs ht
  · have hasks : asksOnItsOwn a b = false := by
      unfold asksOnItsOwn
      split
      · exact absurd ⟨_, _, rfl, rfl⟩ hunknowns
      · rcases h with h | h <;> cases h
      · rcases h with h | h <;> cases h
      · rcases h with h | h <;> cases h
      · rfl
    refine .fails ?_ hasks hsafe
    unfold equalityKernel
    cases ha : a.isPoison with
    | false =>
      rw [unlessAbsorbed_of_poison_right ha (h.resolve_left (Bool.eq_false_iff.mp ha))]
      exact stopsOnRefusal_pure _ _
    | true =>
      cases hb : b.isPoison with
      | false =>
        rw [unlessAbsorbed_of_poison_left ha hb]
        exact stopsOnRefusal_pure _ _
      | true =>
        obtain ⟨e, rfl⟩ | ⟨s, rfl⟩ := CelValue.isPoison_iff.mp ha
        · exact stopsOnRefusal_pure _ _
        · obtain ⟨e, rfl⟩ | ⟨t, rfl⟩ := CelValue.isPoison_iff.mp hb
          · exact stopsOnRefusal_pure _ _
          · exact absurd ⟨s, t, rfl, rfl⟩ hunknowns

theorem kernelShape (hhost : host.ComparesOrFails) (a b : CelValue) : KernelShape host a b := by
  by_cases hoptional : ∃ x y, a = .optional x ∧ b = .optional y
  · obtain ⟨x, y, rfl, rfl⟩ := hoptional
    cases x with
    | none => cases y <;> exact .fails (stopsOnRefusal_pure _ _) rfl trivial
    | some x =>
      cases y with
      | none => exact .fails (stopsOnRefusal_pure _ _) rfl trivial
      | some y => exact .optional x y rfl rfl
  by_cases hlists : ∃ c xs c' ys, a = .listArena c xs ∧ b = .listArena c' ys
  · obtain ⟨c, xs, c', ys, rfl, rfl⟩ := hlists
    by_cases hlength : xs.length = ys.length
    · exact .lists c c' xs ys rfl rfl hlength
    · refine .fails ?_ ?_ fun h => absurd h hlength
      · rw [equalityKernel_listArena, if_pos hlength]
        exact stopsOnRefusal_pure _ _
      · rw [asksOnItsOwn, beq_eq_false_iff_ne.mpr hlength, Bool.false_and]
  by_cases hmaps : ∃ c xs i c' ys i', a = .mapArena c xs i ∧ b = .mapArena c' ys i'
  · obtain ⟨c, xs, i, c', ys, i', rfl, rfl⟩ := hmaps
    by_cases hlength : xs.length = ys.length
    · exact .maps c c' xs ys i i' rfl rfl hlength
    · refine .fails ?_ ?_ fun h => absurd h hlength
      · rw [equalityKernel_mapArena, if_pos hlength]
        exact stopsOnRefusal_pure _ _
      · rw [asksOnItsOwn, beq_eq_false_iff_ne.mpr hlength, Bool.false_and]
  by_cases hpoison : a.isPoison = true ∨ b.isPoison = true
  · exact kernelShape_of_poison hpoison
  push Not at hoptional hlists hmaps hpoison
  refine .fails (equalityKernel_fails hhost (Bool.eq_false_of_not_eq_true hpoison.1)
    (Bool.eq_false_of_not_eq_true hpoison.2) hoptional hlists hmaps) ?_ ?_
  · unfold asksOnItsOwn
    split
    · exact absurd rfl hpoison.1
    · exact absurd rfl (hoptional _ _ rfl)
    · exact absurd rfl (hlists _ _ _ _ rfl)
    · exact absurd rfl (hmaps _ _ _ _ _ _ rfl)
    · rfl
  · unfold ComparesSafely
    split
    · exact absurd rfl (hoptional _ _ rfl)
    · exact absurd rfl (hlists _ _ _ _ rfl)
    · exact absurd rfl (hmaps _ _ _ _ _ _ rfl)
    · trivial

/-! ### Comparisons within a walk -/

/-- A walk over scalars asks for nothing. -/
theorem walkPairs_fails_of_scalar : ∀ (scratch : Bool) {picks : List Pick},
    (∀ e, .error e ∈ picks → e ≠ Stop.hostFailure) → comesToCompound picks = false →
    FailsOnRefusal (walkPairs host true scratch picks)
  | _, [], _, _ => stopsOnRefusal_pure _ _
  | _, .error e :: _, hstops, _ => stopsOnRefusal_stop (hstops e List.mem_cons_self)
  | _, .ok none :: _, _, _ => stopsOnRefusal_pure _ _
  | scratch, .ok (some (x, y)) :: rest, hstops, h => by
    rw [comesToCompound] at h
    split_ifs at h with hscalar
    rw [walkPairs, deepValuesEqual, if_pos hscalar]
    change FailsOnRefusal (if celValueEq x y = true then walkPairs host true scratch rest
      else return some (celValueEq x y))
    refine stopsOnRefusal_ite (fun heq => ?_) fun _ => stopsOnRefusal_pure _ _
    rw [heq, Bool.true_and] at h
    exact walkPairs_fails_of_scalar scratch (fun e he => hstops e (List.mem_cons_of_mem _ he)) h

/-- A walk that comes to a pair that is not scalar overflows when it is refused the cell for it. -/
theorem overflow_of_comesToCompound {good : CelValue → Prop} {stops : Stop → Prop} :
    ∀ {picks : List Pick}, comesToCompound picks = true →
      (walkVerdict <$> walkPairs host true false picks).AfterRefusal good stops →
      good (.error .overflow)
  | .ok (some (x, y)) :: rest, h, hrefusal => by
    rw [comesToCompound] at h
    rw [walkPairs, deepValuesEqual] at hrefusal
    split_ifs at h hrefusal with hscalar
    · rw [Bool.and_eq_true] at h
      change (walkVerdict <$> (if celValueEq x y = true then walkPairs host true false rest
        else return some (celValueEq x y))).AfterRefusal good stops at hrefusal
      rw [if_pos h.1] at hrefusal
      exact overflow_of_comesToCompound h.2 hrefusal
    · exact hrefusal.1 (by decide)

theorem listPicks_stops {xs ys : List CelValue} (e : Stop) (he : .error e ∈ listPicks xs ys) :
    e ≠ Stop.hostFailure := by
  obtain ⟨_, -, h⟩ := List.mem_map.mp he
  exact nomatch h

theorem mapPicks_stops {other entries : List (CelValue × CelValue)} {index : Option MapIndex}
    (e : Stop) (he : .error e ∈ mapPicks other index entries) : e ≠ Stop.hostFailure := by
  obtain ⟨entry, -, h⟩ := List.mem_map.mp he
  obtain ⟨val, hval⟩ | ⟨e', he', hstop⟩ := matchingEntry_cases entry.1 other index
  · rw [hval] at h
    exact nomatch h
  · rw [hstop] at h
    exact Except.error.inj h ▸ he'

theorem mem_of_mem_listPicks {xs ys : List CelValue} {x y : CelValue}
    (h : .ok (some (x, y)) ∈ listPicks xs ys) : x ∈ xs := by
  obtain ⟨p, hp, heq⟩ := List.mem_map.mp h
  obtain rfl := Option.some.inj (Except.ok.inj heq)
  exact (List.of_mem_zip hp).1

theorem mem_of_mem_mapPicks {other entries : List (CelValue × CelValue)} {index : Option MapIndex}
    {x y : CelValue} (h : .ok (some (x, y)) ∈ mapPicks other index entries) :
    ∃ key, (key, x) ∈ entries := by
  obtain ⟨⟨key, val⟩, he, heq⟩ := List.mem_map.mp h
  obtain ⟨partner, hpartner⟩ | ⟨e, -, hstop⟩ := matchingEntry_cases key other index
  · rw [hpartner] at heq
    cases partner with
    | none => exact nomatch Except.ok.inj heq
    | some val' =>
      obtain ⟨rfl, rfl⟩ := Prod.mk.inj (Option.some.inj (Except.ok.inj heq))
      exact ⟨key, he⟩
  · rw [hstop] at heq
    exact nomatch heq

/-- **A comparison that asks for no block of its own** fails with the host. -/
theorem equalityKernel_fails_of_not_asks (hhost : host.ComparesOrFails) :
    ∀ (a b : CelValue), asksOnItsOwn a b = false → FailsOnRefusal (equalityKernel host a b)
  | a, b, h => by
    cases kernelShape hhost a b with
    | fails hfails => exact hfails
    | merge s t ha hb hs ht =>
      subst ha hb
      simp [asksOnItsOwn, hs, ht] at h
    | optional x y ha hb =>
      subst ha hb
      rw [asksOnItsOwn] at h
      exact equalityKernel_fails_of_not_asks hhost x y h
    | lists c c' xs ys ha hb hlength =>
      subst ha hb
      rw [asksOnItsOwn, hlength, beq_self_eq_true, Bool.true_and] at h
      rw [equalityKernel_listArena, if_neg (not_not.mpr hlength)]
      exact (walkPairs_fails_of_scalar false listPicks_stops h).map
    | maps c c' xs ys i i' ha hb hlength =>
      subst ha hb
      rw [asksOnItsOwn, hlength, beq_self_eq_true, Bool.true_and] at h
      rw [equalityKernel_mapArena, if_neg (not_not.mpr hlength)]
      exact (walkPairs_fails_of_scalar false mapPicks_stops h).map
termination_by a => sizeOf a

/-- **A comparison that asks for a block of its own** overflows when it is refused it. -/
theorem overflow_of_asks (hhost : host.ComparesOrFails) {good : CelValue → Prop}
    {stops : Stop → Prop} : ∀ (a b : CelValue), asksOnItsOwn a b = true →
      (equalityKernel host a b).AfterRefusal good stops → good (.error .overflow)
  | a, b, h, hrefusal => by
    cases kernelShape hhost a b with
    | fails hfails hasks => exact absurd (hasks.symm.trans h) Bool.false_ne_true
    | merge s t ha hb hs ht =>
      subst ha hb
      have hkernel : equalityKernel host (.unknown s) (.unknown t)
          = celUnknownMerge (.unknown s) (.unknown t) := unlessAbsorbed_unknowns s t _
      rw [hkernel, celUnknownMerge, if_neg hs, if_neg ht] at hrefusal
      exact hrefusal.1 (by omega)
    | optional x y ha hb =>
      subst ha hb
      rw [asksOnItsOwn] at h
      exact overflow_of_asks hhost x y h hrefusal
    | lists c c' xs ys ha hb hlength =>
      subst ha hb
      rw [asksOnItsOwn, Bool.and_eq_true] at h
      rw [equalityKernel_listArena, if_neg (not_not.mpr hlength)] at hrefusal
      exact overflow_of_comesToCompound h.2 hrefusal
    | maps c c' xs ys i i' ha hb hlength =>
      subst ha hb
      rw [asksOnItsOwn, Bool.and_eq_true] at h
      rw [equalityKernel_mapArena, if_neg (not_not.mpr hlength)] at hrefusal
      exact overflow_of_comesToCompound h.2 hrefusal
termination_by a => sizeOf a

/-! ### Comparisons with memory to spare -/

/-- With memory to spare, a walk comes to a verdict or stops short of a failing status. -/
theorem granted_walkPairs (goOn : Bool) : ∀ (scratch : Bool) {picks : List Pick},
    (∀ e, .error e ∈ picks → e ≠ Stop.hostFailure) →
    (∀ x y, .ok (some (x, y)) ∈ picks →
      (equalityKernel host x y).granted ≠ .error .hostFailure) →
    (∃ verdict, (walkPairs host goOn scratch picks).granted = .ok (some verdict)) ∨
      ∃ e, e ≠ Stop.hostFailure ∧ (walkPairs host goOn scratch picks).granted = .error e
  | _, [], _, _ => .inl ⟨goOn, rfl⟩
  | _, .error e :: _, hstops, _ => .inr ⟨e, hstops e List.mem_cons_self, rfl⟩
  | _, .ok none :: _, _, _ => .inl ⟨false, rfl⟩
  | scratch, .ok (some (x, y)) :: rest, hstops, hkernels => by
    have hrest : ∀ scratch verdict,
        (∃ v, (if verdict = goOn then walkPairs host goOn scratch rest
          else return some verdict : Kernel (Option Bool)).granted = .ok (some v)) ∨
        ∃ e, e ≠ Stop.hostFailure ∧ (if verdict = goOn then walkPairs host goOn scratch rest
          else return some verdict : Kernel (Option Bool)).granted = .error e := by
      intro scratch verdict
      split
      · exact granted_walkPairs goOn scratch (fun e he => hstops e (List.mem_cons_of_mem _ he))
          fun x y hmem => hkernels x y (List.mem_cons_of_mem _ hmem)
      · exact .inl ⟨verdict, rfl⟩
    rw [walkPairs, deepValuesEqual]
    split_ifs with hscalar
    · exact hrest scratch (celValueEq x y)
    · have hcell : (scratchCell scratch).granted = .ok true := by cases scratch <;> rfl
      rw [granted_bind, granted_bind, hcell]
      change (∃ v, ((equalityKernel host x y >>= fun v => pure (true, some (v.isBool true))).granted
        >>= _) = _) ∨ ∃ e, _ ∧ ((equalityKernel host x y >>= fun v =>
          pure (true, some (v.isBool true))).granted >>= _) = _
      rw [granted_bind]
      cases hkernel : (equalityKernel host x y).granted with
      | ok v => exact hrest true (v.isBool true)
      | error e =>
        refine .inr ⟨e, fun he => ?_, rfl⟩
        exact hkernels x y List.mem_cons_self (he ▸ hkernel)

/-- **With memory to spare no comparison fails with the host.** -/
theorem granted_equalityKernel_ne (hhost : host.ComparesOrFails) : ∀ a b : CelValue,
    (equalityKernel host a b).granted ≠ .error .hostFailure
  | a, b => by
    cases kernelShape hhost a b with
    | fails hfails => exact hfails.2
    | merge s t ha hb hs ht =>
      have hkernel : equalityKernel host (.unknown s) (.unknown t)
          = celUnknownMerge (.unknown s) (.unknown t) := unlessAbsorbed_unknowns s t _
      rw [ha, hb, hkernel, granted_celUnknownMerge]
      exact nofun
    | optional x y ha hb =>
      rw [ha, hb]
      exact granted_equalityKernel_ne hhost x y
    | lists c c' xs ys ha hb hlength =>
      rw [ha, hb, equalityKernel_listArena, if_neg (not_not.mpr hlength), map_eq_pure_bind,
        granted_bind]
      obtain ⟨v, hv⟩ | ⟨e, he, hstop⟩ := granted_walkPairs true false
        (@listPicks_stops xs ys) fun x y hmem =>
          have hx := mem_of_mem_listPicks hmem
          granted_equalityKernel_ne hhost x y
      · rw [hv]
        exact nofun
      · rw [hstop]
        exact fun h => he (Except.error.inj h)
    | maps c c' xs ys i i' ha hb hlength =>
      rw [ha, hb, equalityKernel_mapArena, if_neg (not_not.mpr hlength), map_eq_pure_bind,
        granted_bind]
      obtain ⟨v, hv⟩ | ⟨e, he, hstop⟩ := granted_walkPairs true false
        (@mapPicks_stops ys xs i') fun x y hmem =>
          have hx := mem_of_mem_mapPicks hmem
          granted_equalityKernel_ne hhost x y
      · rw [hv]
        exact nofun
      · rw [hstop]
        exact fun h => he (Except.error.inj h)
termination_by a => sizeOf a
decreasing_by
  · simp [ha]
    omega
  · have := List.sizeOf_lt_of_mem hx
    simp [ha]
    omega
  · obtain ⟨key, hkey⟩ := hx
    have := List.sizeOf_lt_of_mem hkey
    simp [ha] at this ⊢
    omega

/-! ### Whole walks -/

/-- What a comparison writes that was refused a block. -/
abbrev Overflows (v : CelValue) : Prop := v = .error .overflow

/-- What a trampoline returns that was refused a block. -/
abbrev FailsHost (s : Stop) : Prop := s = .hostFailure

theorem walksSafely_cons_of_scalar {goOn : Bool} {x y : CelValue} {rest : List Pick}
    (h : (isScalarEqKind x && isScalarEqKind y) = true) :
    WalksSafely host goOn (.ok (some (x, y)) :: rest) ↔
      (celValueEq x y = goOn → WalksSafely host goOn rest) := by
  rw [WalksSafely, comparedPairs, verdictOn, if_pos h, if_pos h, List.nil_append]
  by_cases hverdict : celValueEq x y = goOn
  · rw [if_pos (congrArg some hverdict), forall_prop_of_true hverdict]
    rfl
  · rw [if_neg fun heq => hverdict (Option.some.inj heq)]
    exact iff_of_true nofun fun heq => absurd heq hverdict

theorem walksSafely_cons {goOn : Bool} {x y : CelValue} {rest : List Pick}
    (h : ¬(isScalarEqKind x && isScalarEqKind y) = true) :
    WalksSafely host goOn (.ok (some (x, y)) :: rest) ↔ asksOnItsOwn x y = false ∧
      ∀ v, (equalityKernel host x y).granted = .ok v → v.isBool true = goOn →
        WalksSafely host goOn rest := by
  rw [WalksSafely, comparedPairs, verdictOn, if_neg h, if_neg h, List.singleton_append,
    List.forall_mem_cons]
  refine and_congr_right fun _ => ?_
  cases (equalityKernel host x y).granted with
  | error e => exact iff_of_true nofun nofun
  | ok v =>
    dsimp only
    by_cases hverdict : v.isBool true = goOn
    · rw [if_pos (congrArg some hverdict)]
      exact ⟨fun hrest v' hv' _ => hrest, fun hrest => hrest v rfl hverdict⟩
    · rw [if_neg fun heq => hverdict (Option.some.inj heq)]
      exact iff_of_true nofun fun v' hv' heq => absurd heq (Except.ok.inj hv' ▸ hverdict)

/-- A walk past a pair that is not scalar: the cell, unless it is there, the comparison, and on. -/
theorem walk_cons_afterRefusal_iff {goOn scratch : Bool} {x y : CelValue} {rest : List Pick}
    (h : ¬(isScalarEqKind x && isScalarEqKind y) = true) :
    (walkVerdict <$> walkPairs host goOn scratch (.ok (some (x, y)) :: rest)).AfterRefusal
        Overflows FailsHost ↔
      (equalityKernel host x y >>= fun v => walkVerdict <$> if v.isBool true = goOn then
        walkPairs host goOn true rest else return some (v.isBool true)).AfterRefusal
          Overflows FailsHost := by
  rw [walkPairs, deepValuesEqual, if_neg h]
  cases scratch with
  | true =>
    simp only [scratchCell, if_true, pure_bind, map_eq_pure_bind, bind_assoc]
  | false =>
    simp only [scratchCell, Bool.false_eq_true, if_false, map_eq_pure_bind, bind_assoc]
    refine afterRefusal_alloc_bind.trans ((and_iff_right fun _ => rfl).trans ?_)
    simp only [if_true, bind_assoc, pure_bind]

/-- **A walk is safe exactly when no comparison within it asks for a block of its own.** -/
theorem walk_afterRefusal_iff (hhost : host.ComparesOrFails) (goOn : Bool) :
    ∀ (scratch : Bool) {picks : List Pick},
    (∀ e, .error e ∈ picks → e ≠ Stop.hostFailure) →
    ((walkVerdict <$> walkPairs host goOn scratch picks).AfterRefusal Overflows FailsHost ↔
      WalksSafely host goOn picks)
  | _, [], _ => iff_of_true trivial nofun
  | _, .error e :: _, _ => iff_of_true trivial nofun
  | _, .ok none :: _, _ => iff_of_true trivial nofun
  | scratch, .ok (some (x, y)) :: rest, hstops => by
    have hrest : ∀ e, .error e ∈ rest → e ≠ Stop.hostFailure :=
      fun e he => hstops e (List.mem_cons_of_mem _ he)
    -- What follows a verdict: the rest of the walk, or the verdict itself.
    have hnext : ∀ scratch verdict, ((walkVerdict <$> if verdict = goOn then
        walkPairs host goOn scratch rest else return some verdict).AfterRefusal Overflows FailsHost ↔
          (verdict = goOn → WalksSafely host goOn rest)) := by
      intro scratch verdict
      split
      · rw [walk_afterRefusal_iff hhost goOn scratch hrest, forall_prop_of_true ‹_›]
      · exact iff_of_true trivial fun h => absurd h ‹_›
    by_cases hscalar : (isScalarEqKind x && isScalarEqKind y) = true
    · rw [walksSafely_cons_of_scalar hscalar, ← hnext scratch, walkPairs, deepValuesEqual,
        if_pos hscalar]
      rfl
    · rw [walk_cons_afterRefusal_iff hscalar, walksSafely_cons hscalar]
      cases hasks : asksOnItsOwn x y with
      | false =>
        have hfails := equalityKernel_fails_of_not_asks hhost x y hasks
        refine (hfails.afterRefusal_bind_iff (show FailsHost .hostFailure from rfl)).trans ?_
        rw [and_iff_right rfl]
        exact forall₂_congr fun v _ => hnext true (v.isBool true)
      | true =>
        refine iff_of_false (fun hrefusal => ?_) fun h => absurd h.1.symm Bool.false_ne_true
        -- The overflow is read as unequal, and whatever comes of that is no overflow.
        have hmeets := overflow_of_asks hhost x y hasks (afterRefusal_bind.mp hrefusal).1
        cases goOn with
        | true => exact nomatch (show CelValue.bool false = .error .overflow from hmeets)
        | false =>
          have hends := Meets.granted hmeets
          change EndsWell Overflows FailsHost
            (walkVerdict <$> walkPairs host false true rest).granted at hends
          rw [map_eq_pure_bind, granted_bind] at hends
          obtain ⟨v, hv⟩ | ⟨e, he, hstop⟩ := granted_walkPairs false true hrest
            fun x y _ => granted_equalityKernel_ne hhost x y
          · rw [hv] at hends
            exact nomatch (show CelValue.bool v = .error .overflow from hends)
          · rw [hstop] at hends
            exact he hends

/-- **`==` is safe exactly when its walk is.** -/
theorem equalityKernel_afterRefusal_iff (hhost : host.ComparesOrFails) : ∀ a b : CelValue,
    (equalityKernel host a b).AfterRefusal Overflows FailsHost ↔ ComparesSafely host a b
  | a, b => by
    cases kernelShape hhost a b with
    | fails hfails _ hsafe => exact iff_of_true (hfails.1.mono fun _ => False.elim) hsafe
    | merge s t ha hb hs ht =>
      have hkernel : equalityKernel host (.unknown s) (.unknown t)
          = celUnknownMerge (.unknown s) (.unknown t) := unlessAbsorbed_unknowns s t _
      rw [ha, hb, hkernel, celUnknownMerge, if_neg hs, if_neg ht]
      exact iff_of_true ⟨fun _ => rfl, fun _ => rfl, trivial⟩ trivial
    | optional x y ha hb =>
      rw [ha, hb, ComparesSafely]
      exact equalityKernel_afterRefusal_iff hhost x y
    | lists c c' xs ys ha hb hlength =>
      rw [ha, hb, equalityKernel_listArena, if_neg (not_not.mpr hlength), ComparesSafely,
        forall_prop_of_true hlength]
      exact walk_afterRefusal_iff hhost true false listPicks_stops
    | maps c c' xs ys i i' ha hb hlength =>
      rw [ha, hb, equalityKernel_mapArena, if_neg (not_not.mpr hlength), ComparesSafely,
        forall_prop_of_true hlength]
      exact walk_afterRefusal_iff hhost true false mapPicks_stops
termination_by a => sizeOf a
decreasing_by
  simp [ha]
  omega

/-- The kinds that `cel_list_in_arena` scans for without comparing. -/
def scansByKind (value : CelValue) : Bool :=
  isNumericKind value ||
    match value with
    | .string _ | .bool _ => true
    | _ => false

/-- **A scan of an arena list is safe** if its walk is, where there is one. -/
def ScansSafely (host : CelHost) (value : CelValue) : CelValue → Prop
  | .listArena _ elements =>
    value.isPoison = true ∨ scansByKind value = true ∨
      WalksSafely host false (scanPicks value elements)
  | _ => True

theorem scanPicks_stops {value : CelValue} {elements : List CelValue} (e : Stop)
    (he : .error e ∈ scanPicks value elements) : e ≠ Stop.hostFailure := by
  obtain ⟨_, -, h⟩ := List.mem_map.mp he
  exact nomatch h

theorem celListInArena_listArena {value : CelValue} (hvalue : value.isPoison = false)
    (capacity : ℕ) (elements : List CelValue) :
    (∃ verdict, scansByKind value = true ∧
      celListInArena host value (.listArena capacity elements) = pure verdict) ∨
    scansByKind value = false ∧ celListInArena host value (.listArena capacity elements)
      = walkVerdict <$> walkPairs host false false (scanPicks value elements) := by
  unfold celListInArena
  rw [unlessAbsorbed_of_not_poison hvalue rfl, ← arenaListScanGeneric_eq_walkPairs]
  dsimp only
  unfold scansByKind
  cases hnumeric : isNumericKind value with
  | true => exact .inl ⟨_, rfl, rfl⟩
  | false =>
    rw [Bool.false_or, if_neg Bool.false_ne_true]
    cases value with
    | string s => exact .inl ⟨_, rfl, rfl⟩
    | bool b => exact .inl ⟨_, rfl, rfl⟩
    | _ => exact .inr ⟨rfl, rfl⟩

/-- **`in` on a list is safe exactly when its scan is.** -/
theorem celListIn_afterRefusal_iff (hhost : host.ComparesOrFails)
    (hlistIn : ∀ a b, FailsOnRefusal (host.listIn a b)) (value list : CelValue) :
    (celListIn host value list).AfterRefusal Overflows FailsHost ↔
      ScansSafely host value list := by
  unfold celListIn unlessPoison
  split_ifs with hvalue hlist
  · refine iff_of_true trivial ?_
    cases list with
    | listArena capacity elements => exact .inl hvalue
    | _ => trivial
  · obtain ⟨e, rfl⟩ | ⟨s, rfl⟩ := CelValue.isPoison_iff.mp hlist
    · exact iff_of_true trivial trivial
    · exact iff_of_true trivial trivial
  · cases list with
    | listArena capacity elements =>
      change (celListInArena host value (.listArena capacity elements)).AfterRefusal _ _ ↔ _
      rw [ScansSafely, or_iff_right hvalue]
      obtain ⟨verdict, hkind, hscan⟩ | ⟨hkind, hscan⟩ :=
        @celListInArena_listArena host value (Bool.eq_false_of_not_eq_true hvalue) capacity elements
      · rw [hscan]
        exact iff_of_true trivial (.inl hkind)
      · rw [hscan, hkind, or_iff_right Bool.false_ne_true]
        exact walk_afterRefusal_iff hhost false false scanPicks_stops
    | listHost elements =>
      exact iff_of_true ((hlistIn _ _).afterRefusal (show FailsHost .hostFailure from rfl)) trivial
    | _ => exact iff_of_true trivial trivial

end Kernel

/-! ## The operations -/

/-- An operation on containers, with its operands. A comprehension's range guard lets no poison come
to a walk, and the checker nothing but lists and maps. -/
inductive ContainerOp
  /-- `cel_equals_at_vv`. -/
  | equals (a b : CelValue)
  /-- `cel_not_equals_at_vv`. -/
  | notEquals (a b : CelValue)
  /-- `cel_list_in`. -/
  | listIn (value list : CelValue)
  /-- `cel_map_in`. -/
  | mapIn (key m : CelValue)
  /-- `cel_list_concat`. -/
  | concat (a b : CelValue)
  /-- `cel_list_arena_view`. -/
  | walkList (range : { v : CelValue // isListShaped v = true })
  /-- `cel_map_iter_init`. -/
  | walkMap (range : { v : CelValue // isMapShaped v = true })

/-- What an operation leaves: a value, or the elements or entries that a loop walks. -/
inductive OpResult
  | value (v : CelValue)
  | elements (walked : List CelValue)
  | entries (walked : List (CelValue × CelValue))

/-- **The overflow, written or walked**: a walk of one overflow makes the comprehension one. -/
def OpResult.IsOverflow : OpResult → Prop
  | value v => v = .error .overflow
  | elements walked => walked = [.error .overflow]
  | entries walked => walked = [(.error .overflow, .error .overflow)]

namespace ContainerOp

/-- The operation as the runtime runs it. -/
def kernel (host : CelHost) : ContainerOp → Kernel OpResult
  | equals a b => .value <$> celEquals host a b
  | notEquals a b => .value <$> celNotEquals host a b
  | listIn value list => .value <$> celListIn host value list
  | mapIn key m => .value <$> celMapIn host key m
  | concat a b => .value <$> celListConcat host a b
  | walkList range => .elements <$> celListArenaView host range
  | walkMap range => .entries <$> celMapIterInit host range

/-- **The operations whose overflows all come out**: a comparison and a scan whose walks are safe, and
a walk that copies nothing. A host list too long to copy asks for no run, and neither does a host
map the size of whose copy wraps to nothing. -/
def Safe (host : CelHost) : ContainerOp → Prop
  | equals a b | notEquals a b => ComparesSafely host a b
  | listIn value list => ScansSafely host value list
  | mapIn _ _ | concat _ _ => True
  | walkList range =>
    match range.1 with
    | .listHost elements => elements = [] ∨ (2 ^ 32 - 1) / kCelListEntryStride < elements.length
    | _ => True
  | walkMap range =>
    match range.1 with
    | .mapHost entries => entries.length * kCelMapEntryStride % 2 ^ 32 = 0
    | _ => True

end ContainerOp

/-! ## Every operation -/

section Operations

theorem allocRun_afterRefusal (headerBytes stride n : ℕ) :
    (allocRun headerBytes stride n).AfterRefusal (· = false) FailsHost := by
  refine ⟨fun _ => rfl, ?_⟩
  change (if n = 0 then pure true
    else if entriesBytesChecked stride n = 0 then pure false
    else Prog.alloc (entriesBytesChecked stride n) : Kernel Bool).AfterRefusal _ _
  split_ifs
  · trivial
  · trivial
  · exact ⟨fun _ => rfl, trivial⟩

theorem allocArenaList_afterRefusal (count : ℕ) :
    (allocArenaList count).AfterRefusal (· = false) FailsHost := by
  unfold allocArenaList
  split
  · trivial
  · refine ⟨fun _ => rfl, ?_⟩
    change (if count = 0 then pure true
      else Prog.alloc (count * kCelListEntryStride) : Kernel Bool).AfterRefusal _ _
    split
    · trivial
    · exact ⟨fun _ => rfl, trivial⟩

theorem celListConcatImpl_afterRefusal (a b : CelValue) :
    (celListConcatImpl a b).AfterRefusal Overflows FailsHost := by
  have hcopy : ∀ list, FailsOnRefusal (copyListElementsIntoRun list) :=
    fun list => stopsOnRefusal_mapM Element.read_fails _
  unfold celListConcatImpl absorbBinary
  split
  · trivial
  · trivial
  · trivial
  · trivial
  · split
    · trivial
    · refine afterRefusal_bind.mpr ⟨(allocArenaList_afterRefusal _).mono fun granted hgranted => ?_,
        fun granted _ => ?_⟩
      · rw [hgranted]
        rfl
      · cases granted with
        | false => trivial
        | true =>
          have hrun := (hcopy a).bind fun xs _ => (hcopy b).bind fun ys _ =>
            stopsOnRefusal_pure Stop.hostFailure (CelValue.listArena
              ((listElements a).length + (listElements b).length) (xs ++ ys))
          exact hrun.afterRefusal (show FailsHost .hostFailure from rfl)

variable {host : CelHost}

/-- **A concatenation overflows** where it is refused a run, and fails where the host is refused. -/
theorem celListConcat_afterRefusal (hconcat : host.listConcat = celListConcatImpl)
    (a b : CelValue) : (celListConcat host a b).AfterRefusal Overflows FailsHost := by
  unfold celListConcat unlessPoison
  split_ifs with ha hb
  · trivial
  · trivial
  · cases (listOrigin a).both (listOrigin b) with
    | neither => trivial
    | arena =>
      change (celListConcatArena a b).AfterRefusal _ _
      unfold celListConcatArena
      rw [unlessAbsorbed_of_not_poison (Bool.eq_false_of_not_eq_true ha)
        (Bool.eq_false_of_not_eq_true hb)]
      split
      · split
        · trivial
        · refine afterRefusal_bind.mpr ⟨(allocRun_afterRefusal _ _ _).mono fun granted h => ?_,
            fun granted _ => by cases granted <;> trivial⟩
          rw [h]
          rfl
      · trivial
    | host =>
      change (host.listConcat a b).AfterRefusal _ _
      rw [hconcat]
      exact celListConcatImpl_afterRefusal a b

theorem celMapIn_afterRefusal (hmapIn : ∀ a b, FailsOnRefusal (host.mapIn a b))
    (key m : CelValue) : (celMapIn host key m).AfterRefusal Overflows FailsHost := by
  unfold celMapIn unlessPoison
  split_ifs with hkey hm
  · trivial
  · trivial
  · cases m with
    | mapArena capacity entries index =>
      change (celMapInArena key (.mapArena capacity entries index)).AfterRefusal _ _
      unfold celMapInArena
      rw [unlessAbsorbed_of_not_poison (Bool.eq_false_of_not_eq_true hkey) rfl]
      cases index with
      | none => trivial
      | some index =>
        dsimp only
        rw [arenaMapFind]
        cases celMapIndexFind (entries.map Prod.fst) (some index) key <;> trivial
    | mapHost entries => exact (hmapIn _ _).afterRefusal (show FailsHost .hostFailure from rfl)
    | _ => trivial

theorem writeEmptyArenaList_fails : FailsOnRefusal writeEmptyArenaList :=
  ⟨⟨fun _ => rfl, trivial⟩, nofun⟩

/-- Opening a list that is not copied. -/
theorem celListIterOpenImpl_fails {elements : List HostValue}
    (h : elements = [] ∨ (2 ^ 32 - 1) / kCelListEntryStride < elements.length) :
    FailsOnRefusal (celListIterOpenImpl (.listHost elements)) := by
  cases elements with
  | nil => exact writeEmptyArenaList_fails
  | cons v elements =>
    change FailsOnRefusal (snapshotHostListToArena (v :: elements) >>= _)
    rw [snapshotHostListToArena, allocArenaList, if_pos (h.resolve_left nofun)]
    exact writeEmptyArenaList_fails

/-- Opening a list that is copied: the empty list, where its header is refused. -/
theorem celListIterOpenImpl_empty {elements : List HostValue} {good : CelValue → Prop}
    {stops : Stop → Prop}
    (h : ¬(elements = [] ∨ (2 ^ 32 - 1) / kCelListEntryStride < elements.length))
    (hrefusal : (celListIterOpenImpl (.listHost elements)).AfterRefusal good stops) :
    good (.listArena 0 []) := by
  obtain ⟨hnil, hfits⟩ := not_or.mp h
  cases elements with
  | nil => exact absurd rfl hnil
  | cons v elements =>
    change (snapshotHostListToArena (v :: elements) >>= _).AfterRefusal good stops at hrefusal
    rw [snapshotHostListToArena, allocArenaList, if_neg hfits] at hrefusal
    exact hrefusal.1 (by decide) true

/-- **A list is walked safely** unless it is copied. -/
theorem celListArenaView_afterRefusal_iff (hopen : host.listIterOpen = celListIterOpenImpl)
    {range : CelValue} (hrange : isListShaped range = true) :
    (celListArenaView host range).AfterRefusal (· = [.error .overflow]) FailsHost ↔
      ∀ elements, range = .listHost elements →
        elements = [] ∨ (2 ^ 32 - 1) / kCelListEntryStride < elements.length := by
  obtain ⟨capacity, elements, rfl⟩ | ⟨elements, rfl⟩ := isListShaped_iff.mp hrange
  · exact iff_of_true trivial nofun
  · rw [celListArenaView]
    refine afterRefusal_alloc_bind.trans ((and_iff_right fun _ _ => rfl).trans ?_)
    rw [if_pos rfl, hopen]
    simp only [CelValue.listHost.injEq, forall_eq']
    by_cases h : elements = [] ∨ (2 ^ 32 - 1) / kCelListEntryStride < elements.length
    · refine iff_of_true ((celListIterOpenImpl_fails h).afterRefusal_bind_iff
        (show FailsHost .hostFailure from rfl) |>.mpr fun view _ => ?_) h
      cases view <;> trivial
    · refine iff_of_false (fun hrefusal => ?_) h
      exact nomatch celListIterOpenImpl_empty h (afterRefusal_bind.mp hrefusal).1

/-- **A map is walked safely** unless it is copied. -/
theorem celMapIterInit_afterRefusal_iff (hopen : host.mapIterOpen = celMapIterOpenImpl)
    {range : CelValue} (hrange : isMapShaped range = true) :
    (celMapIterInit host range).AfterRefusal
        (· = [(.error .overflow, .error .overflow)]) FailsHost ↔
      ∀ entries, range = .mapHost entries →
        entries.length * kCelMapEntryStride % 2 ^ 32 = 0 := by
  obtain ⟨capacity, entries, index, rfl⟩ | ⟨entries, rfl⟩ := isMapShaped_iff.mp hrange
  · refine iff_of_true ?_ nofun
    cases entries with
    | nil => trivial
    | cons e entries => exact ⟨fun _ _ => rfl, trivial⟩
  · change (mapIterInitHost host (.mapHost entries)).AfterRefusal _ _ ↔ _
    rw [mapIterInitHost]
    refine afterRefusal_alloc_bind.trans ((and_iff_right fun _ _ => rfl).trans ?_)
    rw [if_pos rfl, hopen]
    simp only [CelValue.mapHost.injEq, forall_eq']
    cases entries with
    | nil => exact iff_of_true trivial rfl
    | cons e entries =>
      change (snapshotMapEntriesToArena (e :: entries) >>= _).AfterRefusal _ _ ↔ _
      rw [snapshotMapEntriesToArena, bind_assoc]
      refine afterRefusal_alloc_bind.trans ⟨fun h => ?_, fun hsize => ⟨(absurd hsize ·), ?_⟩⟩
      · by_contra hsize
        exact nomatch h.1 hsize
      · refine StopsOnRefusal.afterRefusal ?_ (show FailsHost .hostFailure from rfl)
        refine (stopsOnRefusal_ite (fun _ => stopsOnRefusal_pure _ _) fun _ => ?_).bind
          fun _ _ => stopsOnRefusal_pure _ _
        refine stopsOnRefusal_ite (fun _ => stopsOnRefusal_stop (by decide)) fun _ => ?_
        exact (stopsOnRefusal_mapM encodeEntry_fails _).bind fun _ _ => stopsOnRefusal_pure _ _

/-- What `!=` makes of a verdict. -/
def flipVerdict : CelValue → CelValue
  | .bool verdict => .bool !verdict
  | out => out

theorem flipVerdict_eq_overflow {v : CelValue} :
    flipVerdict v = .error .overflow ↔ v = .error .overflow := by
  cases v with
  | bool verdict => exact iff_of_false nofun nofun
  | _ => exact Iff.rfl

/-- A flipped verdict is an overflow where the verdict is. -/
theorem celNotEquals_afterRefusal_iff (a b : CelValue) :
    (celNotEquals host a b).AfterRefusal Overflows FailsHost ↔
      (equalityKernel host a b).AfterRefusal Overflows FailsHost := by
  have hflip : celNotEquals host a b = flipVerdict <$> equalityKernel host a b := by
    rw [map_eq_pure_bind]
    refine congrArg (Bind.bind _) (funext fun v => ?_)
    cases v <;> rfl
  rw [hflip, afterRefusal_map]
  exact ⟨fun h => h.mono fun v => flipVerdict_eq_overflow.mp,
    fun h => h.mono fun v => flipVerdict_eq_overflow.mpr⟩

/-- **The runs of an operation all end well exactly when it is safe**: whatever block is refused, it
writes an overflow, or walks one, or its trampoline fails. -/
theorem containerOp_exhaustion_iff (messagesEqual : ℕ → ℕ → Bool)
    (messageVerdict : CelValue → CelValue → CelValue) (op : ContainerOp) :
    (∀ n refused r, n ≠ 0 →
        (op.kernel (.trampolines messagesEqual messageVerdict)).Runs (n :: refused) r →
        EndsWell OpResult.IsOverflow FailsHost r) ↔
      op.Safe (.trampolines messagesEqual messageVerdict) := by
  have hhost := @CelHost.trampolines_comparesOrFails messagesEqual messageVerdict
  rw [← afterRefusal_iff]
  cases op with
  | equals a b => exact afterRefusal_map.trans (equalityKernel_afterRefusal_iff hhost a b)
  | notEquals a b =>
    exact afterRefusal_map.trans
      ((celNotEquals_afterRefusal_iff a b).trans (equalityKernel_afterRefusal_iff hhost a b))
  | listIn value list =>
    refine afterRefusal_map.trans (celListIn_afterRefusal_iff hhost (fun a b => ?_) value list)
    exact celListInImpl_fails a b
  | mapIn key m =>
    refine afterRefusal_map.trans (iff_of_true (celMapIn_afterRefusal ?_ key m) trivial)
    exact celMapInImpl_fails
  | concat a b =>
    exact afterRefusal_map.trans (iff_of_true (celListConcat_afterRefusal rfl a b) trivial)
  | walkList range =>
    refine afterRefusal_map.trans ((celListArenaView_afterRefusal_iff rfl range.2).trans ?_)
    obtain ⟨range, hrange⟩ := range
    obtain ⟨capacity, elements, rfl⟩ | ⟨elements, rfl⟩ := isListShaped_iff.mp hrange
    · exact iff_of_true nofun trivial
    · simp only [CelValue.listHost.injEq, forall_eq', ContainerOp.Safe]
  | walkMap range =>
    refine afterRefusal_map.trans ((celMapIterInit_afterRefusal_iff rfl range.2).trans ?_)
    obtain ⟨range, hrange⟩ := range
    obtain ⟨capacity, entries, index, rfl⟩ | ⟨entries, rfl⟩ := isMapShaped_iff.mp hrange
    · exact iff_of_true nofun trivial
    · simp only [CelValue.mapHost.injEq, forall_eq', ContainerOp.Safe]

/-- `[[[1]]] == [[[1]]]` with the inner walk refused its cell, and a walk of a host list whose copy is
refused its header: `false`, and nothing to walk. -/
theorem exhausted_verdicts :
    let nested : CelValue := .listArena 1 [.listArena 1 [.listArena 1 [.int 1]]]
    let host := CelHost.trampolines (fun _ _ => false) fun _ _ => .bool false
    ((ContainerOp.equals nested nested).kernel host).Runs [24] (.ok (.value (.bool false))) ∧
      ((ContainerOp.walkList ⟨.listHost [.int 1], rfl⟩).kernel host).Runs [16]
        (.ok (.elements [])) :=
  ⟨.granted 24 _ (.refused 24 _ (.ret _)), .granted 24 _ (.refused 16 _ (.granted 16 _ (.ret _)))⟩

end Operations

end CelWasm
