import CelWasm.Compiler.FusedSteps
import CelWasm.Runtime.MapPairs

/-!
# Compiler/EntryMerge — `transformMapEntry` with a literal entry

A literal entry is not built: its keys and values are inserted into the accumulator one after the
other. Building the literal and merging it would come to the same map but for what only the literal
does — it refuses a repeated key, it drops an optional entry that is None, and its gate is read even
when it is empty. `entryMerge_agree` takes these for the condition on an iteration.
-/

namespace CelWasm

variable {α : Type}

/-! ## The literal -/

/-- The pairs a literal entry comes to. -/
def pairValues (val : Valuation α) (entries : List (Bool × Expr α × Expr α)) :
    List (CelValue × CelValue) := entries.map fun e => (val e.2.1, val e.2.2)

/-- **No optional entry is reached**: none stands up to the pair that spoils the map. -/
def PlainReached (val : Valuation α) : List (Bool × Expr α × Expr α) → Prop
  | [] => True
  | (optional, key, value) :: entries =>
    optional = false ∧ (spoil (val key) (val value) = none → PlainReached val entries)

theorem plainReached_of_forall {val : Valuation α} :
    ∀ {entries : List (Bool × Expr α × Expr α)}, (∀ e ∈ entries, e.1 = false) →
      PlainReached val entries
  | [], _ => trivial
  | _ :: _, h => ⟨h _ List.mem_cons_self, fun _ =>
    plainReached_of_forall fun e he => h e (List.mem_cons_of_mem _ he)⟩

/-- One entry of a literal. -/
def insertLiteralEntry (val : Valuation α) (m : CelValue) (entry : Bool × Expr α × Expr α) :
    Kernel CelValue :=
  if entry.1 then celMapInsertAtIfPresent m (val entry.2.1) (val entry.2.2)
  else return celMapInsert m (val entry.2.1) (val entry.2.2)

theorem mapLiteral_eq (val : Valuation α) (entries : List (Bool × Expr α × Expr α)) :
    mapLiteral val entries = celMapCreate entries.length >>= fun m =>
      entries.foldlM (insertLiteralEntry val) m >>= celMapIndexBuild := rfl

section Literal

variable {val : Valuation α} {capacity : ℕ} {p : CelValue}

theorem insertLiteralEntry_poison (hp : p.isPoison = true) (entry : Bool × Expr α × Expr α) :
    insertLiteralEntry val p entry = return p := by
  obtain ⟨_ | _, key, value⟩ := entry <;>
    obtain ⟨e, rfl⟩ | ⟨s, rfl⟩ := CelValue.isPoison_iff.mp hp <;> rfl

theorem foldlM_insertLiteralEntry_poison (hp : p.isPoison = true)
    (entries : List (Bool × Expr α × Expr α)) :
    entries.foldlM (insertLiteralEntry val) p = return p := by
  induction entries with
  | nil => rfl
  | cons entry entries ih => rw [List.foldlM_cons, insertLiteralEntry_poison hp, pure_bind, ih]

/-- A literal none of whose optional entries is reached is a fold of inserts. -/
theorem foldlM_insertLiteralEntry_of_plain :
    ∀ (entries : List (Bool × Expr α × Expr α)) (done : List (CelValue × CelValue)),
      PlainReached val entries →
      entries.foldlM (insertLiteralEntry val) (.mapArena capacity done none)
        = pure ((pairValues val entries).foldl insertLiteralPair (.mapArena capacity done none))
  | [], _, _ => rfl
  | (optional, key, value) :: entries, done, ⟨hoptional, hrest⟩ => by
    obtain rfl : optional = false := hoptional
    rw [List.foldlM_cons, pairValues, List.map_cons, List.foldl_cons]
    change pure (celMapInsert _ (val key) (val value)) >>= _
      = pure (List.foldl _ (celMapInsert _ (val key) (val value)) _)
    rw [pure_bind]
    cases hspoil : spoil (val key) (val value) with
    | some q =>
      have hq := isPoison_of_spoil hspoil
      rw [celMapInsert_of_spoil hspoil, foldlM_insertLiteralEntry_poison hq,
        foldl_insertLiteralPair_poison hq]
    | none =>
      obtain ⟨done', -, hinsert⟩ | hpoison :=
        celMapInsert_cases capacity done (val key) (val value)
      · rw [hinsert]
        exact foldlM_insertLiteralEntry_of_plain entries done' (hrest hspoil)
      · rw [foldlM_insertLiteralEntry_poison hpoison, foldl_insertLiteralPair_poison hpoison]

/-- One entry never finds a literal full. -/
theorem insertLiteralEntry_cases {done : List (CelValue × CelValue)} (hroom : done.length < capacity)
    (entry : Bool × Expr α × Expr α) :
    (∃ done', done'.length ≤ done.length + 1 ∧
      insertLiteralEntry val (.mapArena capacity done none) entry
        = return .mapArena capacity done' none) ∨
    ∃ q, q.isPoison = true ∧
      insertLiteralEntry val (.mapArena capacity done none) entry = return q := by
  obtain ⟨_ | _, key, value⟩ := entry
  · change (∃ done', _ ∧ pure (celMapInsert _ (val key) (val value)) = _)
      ∨ ∃ q, _ ∧ pure (celMapInsert _ (val key) (val value)) = _
    obtain ⟨done', hlength, hinsert⟩ | hpoison := celMapInsert_cases capacity done (val key) (val value)
    · exact .inl ⟨done', hlength, by rw [hinsert]⟩
    · exact .inr ⟨_, hpoison, rfl⟩
  · change (∃ done', _ ∧ ifPresent _ (val value) (celMapInsertAt _ (val key)) = _)
      ∨ ∃ q, _ ∧ ifPresent _ (val value) (celMapInsertAt _ (val key)) = _
    unfold ifPresent
    split
    · exact .inr ⟨_, rfl, rfl⟩
    · exact .inr ⟨_, rfl, rfl⟩
    · next v _ =>
      cases hspoil : spoil (val key) v with
      | some q => exact .inr ⟨q, isPoison_of_spoil hspoil, mapInsertAtKernel_of_spoil hspoil⟩
      | none =>
        obtain ⟨done', hlength, hkernel⟩ := mapInsertAtKernel_of_room none hspoil hroom
        exact .inl ⟨done', hlength, hkernel false⟩
    · exact .inl ⟨done, Nat.le_succ _, rfl⟩
    · exact .inr ⟨_, rfl, rfl⟩

theorem foldlM_insertLiteralEntry_ok : ∀ (entries : List (Bool × Expr α × Expr α))
    (done : List (CelValue × CelValue)), done.length + entries.length ≤ capacity →
    ∃ v, entries.foldlM (insertLiteralEntry val) (.mapArena capacity done none) = return v
  | [], done, _ => ⟨_, rfl⟩
  | entry :: entries, done, hroom => by
    rw [List.length_cons] at hroom
    rw [List.foldlM_cons]
    obtain ⟨done', hlength, hinsert⟩ | ⟨q, hq, hinsert⟩ :=
      @insertLiteralEntry_cases _ val capacity done (by omega) entry
    · rw [hinsert, pure_bind]
      exact foldlM_insertLiteralEntry_ok entries done' (by omega)
    · rw [hinsert, pure_bind]
      exact ⟨q, foldlM_insertLiteralEntry_poison hq entries⟩

variable {entries : List (Bool × Expr α × Expr α)}

/-- A literal that fits in memory is built, or poisoned, but not stuck. -/
theorem granted_mapLiteral_ok (hfit : entries.length * kCelMapEntryStride ≤ 2 ^ 32 - 8) :
    ∃ v, (mapLiteral val entries).granted = .ok v := by
  obtain ⟨m, hm⟩ := @foldlM_insertLiteralEntry_ok _ val entries.length entries [] (by simp)
  obtain ⟨v, hv⟩ := granted_celMapIndexBuild_ok m
  refine ⟨v, ?_⟩
  rw [mapLiteral_eq, Prog.granted_bind, granted_celMapCreate, if_pos hfit]
  change (entries.foldlM _ _ >>= celMapIndexBuild).granted = _
  rw [hm, pure_bind, hv]

/-- Building a literal whose reached entries are plain is a fold of inserts and the index. -/
theorem granted_mapLiteral_of_plain (hplain : PlainReached val entries)
    (hfit : entries.length * kCelMapEntryStride ≤ 2 ^ 32 - 8) :
    (mapLiteral val entries).granted = (celMapIndexBuild ((pairValues val entries).foldl
      insertLiteralPair (.mapArena entries.length [] none))).granted := by
  rw [mapLiteral_eq, Prog.granted_bind, granted_celMapCreate, if_pos hfit]
  change (entries.foldlM _ _ >>= celMapIndexBuild).granted = _
  rw [foldlM_insertLiteralEntry_of_plain entries [] hplain, pure_bind]

/-- **A literal of clean pairs** is the first poison, or the map of all of them. -/
theorem granted_mapLiteral_of_clean (hplain : PlainReached val entries)
    (hfit : entries.length * kCelMapEntryStride ≤ 2 ^ 32 - 8)
    (hclean : CleanKeys (pairValues val entries)) :
    (∀ p, firstSpoil (pairValues val entries) = some p →
      (mapLiteral val entries).granted = .ok p) ∧
    (firstSpoil (pairValues val entries) = none → ∃ index,
      (mapLiteral val entries).granted
        = .ok (.mapArena entries.length (pairValues val entries) index)) := by
  obtain ⟨hpoison, hlive⟩ := foldl_insertLiteralPair_of_clean (pairValues val entries) []
    (show [].length + (pairValues val entries).length ≤ entries.length by simp [pairValues]) hclean
  rw [granted_mapLiteral_of_plain hplain hfit]
  refine ⟨fun p hp => ?_, fun hnone => ?_⟩
  · obtain ⟨pair, -, hspoil⟩ := List.exists_of_findSome?_eq_some hp
    rw [hpoison p hp, celMapIndexBuild_poison (isPoison_of_spoil hspoil)]
    rfl
  · rw [hlive hnone]
    rw [CleanKeys, takeWhile_eq_self_of_firstSpoil hnone] at hclean
    exact granted_celMapIndexBuild_of_pairwise _ hclean

/-- **A literal that repeats a key** is an error. -/
theorem granted_mapLiteral_of_repeat (hplain : PlainReached val entries)
    (hfit : entries.length * kCelMapEntryStride ≤ 2 ^ 32 - 8)
    (hrepeat : ¬CleanKeys (pairValues val entries)) :
    (mapLiteral val entries).granted = .ok (.error .duplicateKey) := by
  rw [granted_mapLiteral_of_plain hplain hfit, foldl_insertLiteralPair_of_repeat
    (pairValues val entries) [] (by simp [pairValues]) List.Pairwise.nil hrepeat]
  rfl

end Literal

/-! ## One iteration -/

/-- The shape of a merge of `entry`, behind `pred` if there is one. -/
def mergeShape (pred : Option (Expr α)) (entry : Expr α) : LoopStepShape α :=
  match pred with
  | none => .mapMerge entry
  | some pred => .mapMergeIf pred entry

/-- The merge with the entry built first, as any map literal is. -/
def mergeLiteral (host : CelHost) (pred : Option (Expr α))
    (entries : List (Bool × Expr α × Expr α)) (val : Valuation α) (accu : CelValue) :
    Kernel CelValue := do
  let entry ← mapLiteral val entries
  match pred with
  | none => celMapMergeAt host accu entry
  | some pred => celMapMergeAtIfBool host accu (val pred) entry

/-- The merge as it is emitted. -/
def mergeDecomposed (host : CelHost) (ann : α) (pred : Option (Expr α)) (entries : MapEntries α)
    (val : Valuation α) (accu : CelValue) : Kernel CelValue :=
  match pred with
  | none => mapMergeStep host val accu (.map ann entries)
  | some pred => mapMergeIfStep host val accu pred (.map ann entries)

/-- **The entry is in order** for an iteration: no optional entry is reached and no key repeated,
unless the poison that follows is the very error a repeated key makes; behind a predicate, an entry
of none asks for a bool, an entry of one is plain if it is taken, and longer ones are built. -/
def EntryInOrder (pred : Option (Expr α)) (entries : List (Bool × Expr α × Expr α))
    (val : Valuation α) : Prop :=
  match pred, entries with
  | none, entries => PlainReached val entries ∧ (CleanKeys (pairValues val entries) ∨
      firstSpoil (pairValues val entries) = some (.error .duplicateKey))
  | some pred, [] => (val pred).isBoolKind = true
  | some pred, [entry] => val pred = .bool true → entry.1 = false
  | some _, _ :: _ :: _ => True

/-- **Room for the iterations to come**: the accumulator is poisoned, or has space for a whole entry
in each of them. -/
def RoomFor (width iterations : ℕ) (accu : CelValue) : Prop :=
  accu.isPoison = true ∨ ∃ capacity entries index, accu = .mapArena capacity entries index ∧
    entries.length + iterations * width ≤ capacity

section Step

variable {host : CelHost} {ann : α} {pred : Option (Expr α)} {entries : MapEntries α}
  {val : Valuation α} {accu : CelValue}

theorem mergeDecomposed_none : mergeDecomposed host ann none entries val accu
    = (pairValues val entries.toList).foldlM insertPair accu := by
  rw [pairValues, List.foldlM_map]
  rfl

theorem celMapMergeAt_poison {p : CelValue} (hp : p.isPoison = true) {capacity : ℕ}
    {done : List (CelValue × CelValue)} {index : Option MapIndex} :
    celMapMergeAt host (.mapArena capacity done index) p = return p := if_pos hp

/-- **A merge without a predicate** agrees with the built entry when the reached entries are plain,
and only when their keys are in order. -/
theorem granted_mergeDecomposed_none (host : CelHost) (ann : α) (entries : MapEntries α)
    (index : Option MapIndex) {capacity : ℕ} {done : List (CelValue × CelValue)}
    (hplain : PlainReached val entries.toList) (hroom : done.length + entries.toList.length ≤ capacity)
    (hfit : entries.toList.length * kCelMapEntryStride ≤ 2 ^ 32 - 8) :
    (mergeDecomposed host ann none entries val (.mapArena capacity done index)).granted
        = (mergeLiteral host none entries.toList val (.mapArena capacity done index)).granted ↔
      CleanKeys (pairValues val entries.toList) ∨
        firstSpoil (pairValues val entries.toList) = some (.error .duplicateKey) := by
  obtain ⟨hpoison, hlive⟩ := foldlM_insertPair capacity index (pairValues val entries.toList)
    done (by rwa [pairValues, List.length_map])
  rw [mergeDecomposed_none, mergeLiteral, Prog.granted_bind]
  by_cases hclean : CleanKeys (pairValues val entries.toList)
  · refine iff_of_true ?_ (.inl hclean)
    obtain ⟨hspoiled, hbuilt⟩ := granted_mapLiteral_of_clean hplain hfit hclean
    cases hfirst : firstSpoil (pairValues val entries.toList) with
    | some p =>
      obtain ⟨pair, -, hspoil⟩ := List.exists_of_findSome?_eq_some hfirst
      rw [hspoiled p hfirst, hpoison p hfirst]
      exact congrArg Prog.granted (celMapMergeAt_poison (isPoison_of_spoil hspoil)).symm
    | none =>
      obtain ⟨index', hliteral⟩ := hbuilt hfirst
      obtain ⟨entries', -, hfold, hmerge⟩ := hlive hfirst
      rw [hliteral, hfold]
      exact congrArg Prog.granted hmerge.symm
  · rw [granted_mapLiteral_of_repeat hplain hfit hclean]
    change _ = (celMapMergeAt host _ (.error .duplicateKey)).granted ↔ _
    rw [celMapMergeAt_poison rfl]
    cases hfirst : firstSpoil (pairValues val entries.toList) with
    | some p =>
      rw [hpoison p hfirst]
      simp [hclean]
    | none =>
      obtain ⟨entries', -, hfold, -⟩ := hlive hfirst
      rw [hfold]
      simp [hclean]

/-- **A merge of nothing** asks of the predicate that it is a bool. -/
theorem granted_mergeDecomposed_some_nil {gate : Expr α} {capacity : ℕ}
    {done : List (CelValue × CelValue)} {index : Option MapIndex} :
    (mergeDecomposed host ann (some gate) .nil val (.mapArena capacity done index)).granted
        = (mergeLiteral host (some gate) [] val (.mapArena capacity done index)).granted ↔
      (val gate).isBoolKind = true := by
  change Except.ok (.mapArena capacity done index)
    = (ifBool (.mapArena capacity done index) (val gate)
        (pure (.mapArena capacity done index))).granted ↔ _
  cases val gate with
  | bool b => cases b <;> simp [ifBool, CelValue.isBoolKind]
  | _ => simp [ifBool, CelValue.isBoolKind]

/-- **A merge of one plain entry** agrees with the built entry. -/
theorem granted_mergeDecomposed_some_single {gate : Expr α} {optional : Bool} {key value : Expr α}
    {capacity : ℕ} {done : List (CelValue × CelValue)} {index : Option MapIndex}
    (hplain : val gate = .bool true → optional = false) (hroom : done.length + 1 ≤ capacity) :
    (mergeDecomposed host ann (some gate) (.cons optional key value .nil) val
        (.mapArena capacity done index)).granted
      = (mergeLiteral host (some gate) [(optional, key, value)] val
          (.mapArena capacity done index)).granted := by
  have hfit : 1 * kCelMapEntryStride ≤ 2 ^ 32 - 8 := by decide
  obtain ⟨entry, hentry⟩ := @granted_mapLiteral_ok _ val [(optional, key, value)] hfit
  rw [mergeLiteral, Prog.granted_bind, hentry]
  change (ifBool _ (val gate) (celMapInsertAt _ (val key) (val value))).granted
    = (ifBool _ (val gate) (celMapMergeAt host _ entry)).granted
  by_cases hgate : val gate = .bool true
  · obtain rfl := hplain hgate
    have hclean : CleanKeys (pairValues val [(false, key, value)]) :=
      (List.pairwise_singleton _ _).sublist (List.takeWhile_sublist _)
    have hmerge := (granted_mergeDecomposed_none host ann (.cons false key value .nil) index
      (plainReached_of_forall (List.forall_mem_singleton.mpr rfl)) hroom hfit).mpr (.inl hclean)
    have hdirect : mergeDecomposed host ann none (.cons false key value .nil) val
        (.mapArena capacity done index)
          = celMapInsertAt (.mapArena capacity done index) (val key) (val value) := bind_pure _
    rw [hdirect, mergeLiteral, Prog.granted_bind] at hmerge
    rw [hgate]
    refine hmerge.trans ?_
    change (mapLiteral val [(false, key, value)]).granted >>= _ = _
    rw [hentry]
    rfl
  · cases hg : val gate with
    | bool b =>
      cases b with
      | true => exact absurd hg hgate
      | false => rfl
    | _ => rfl

theorem mergeDecomposed_poison (host : CelHost) (ann : α) (val : Valuation α)
    (hpred : pred = none ∨ entries.toList.length ≤ 1) (hpoison : accu.isPoison = true) :
    mergeDecomposed host ann pred entries val accu = return accu := by
  cases pred with
  | none => rw [mergeDecomposed_none, foldlM_insertPair_poison hpoison]
  | some gate =>
    match entries, hpred with
    | .nil, _ => rfl
    | .cons _ _ _ .nil, _ =>
      obtain ⟨e, rfl⟩ | ⟨s, rfl⟩ := CelValue.isPoison_iff.mp hpoison <;> rfl
    | .cons _ _ _ (.cons _ _ _ _), .inr hlength => simp [MapEntries.toList] at hlength

/-- An emitted merge comes to an end, and leaves room for the iterations after it. -/
theorem mergeDecomposed_spec (host : CelHost) (ann : α) (val : Valuation α)
    (hpred : pred = none ∨ entries.toList.length ≤ 1) {n : ℕ}
    (h : RoomFor entries.toList.length (n + 1) accu) :
    ∃ accu', mergeDecomposed host ann pred entries val accu = pure accu' ∧
      RoomFor entries.toList.length n accu' := by
  rcases h with hpoison | ⟨capacity, done, index, rfl, hroom⟩
  · exact ⟨accu, mergeDecomposed_poison host ann val hpred hpoison, .inl hpoison⟩
  · rw [Nat.succ_mul] at hroom
    cases pred with
    | none =>
      rw [mergeDecomposed_none]
      obtain ⟨hspoiled, hlive⟩ := foldlM_insertPair capacity index
        (pairValues val entries.toList) done (by rw [pairValues, List.length_map]; omega)
      cases hfirst : firstSpoil (pairValues val entries.toList) with
      | some p =>
        obtain ⟨pair, -, hspoil⟩ := List.exists_of_findSome?_eq_some hfirst
        exact ⟨p, hspoiled p hfirst, .inl (isPoison_of_spoil hspoil)⟩
      | none =>
        obtain ⟨done', hlength, hfold, -⟩ := hlive hfirst
        rw [pairValues, List.length_map] at hlength
        exact ⟨_, hfold, .inr ⟨capacity, done', index, rfl, by omega⟩⟩
    | some gate =>
      have hkept : RoomFor entries.toList.length n (.mapArena capacity done index) :=
        .inr ⟨capacity, done, index, rfl, by omega⟩
      match entries, hpred with
      | .nil, _ => exact ⟨_, rfl, hkept⟩
      | .cons _ key value .nil, _ =>
        change ∃ accu', ifBool _ (val gate) (celMapInsertAt _ (val key) (val value)) = _ ∧ _
        unfold ifBool
        split
        · exact ⟨_, rfl, .inl rfl⟩
        · exact ⟨_, rfl, .inl rfl⟩
        · cases hspoil : spoil (val key) (val value) with
          | some p =>
            exact ⟨p, mapInsertAtKernel_of_spoil hspoil, .inl (isPoison_of_spoil hspoil)⟩
          | none =>
            simp only [MapEntries.toList, List.length_cons, List.length_nil] at hroom
            obtain ⟨done', hlength, hkernel⟩ := mapInsertAtKernel_of_room index hspoil
              (show done.length < capacity by omega)
            refine ⟨_, hkernel false, .inr ⟨capacity, done', index, rfl, ?_⟩⟩
            simp only [MapEntries.toList, List.length_cons, List.length_nil]
            omega
        · exact ⟨_, rfl, hkept⟩
        · exact ⟨_, rfl, .inl rfl⟩
      | .cons _ _ _ (.cons _ _ _ _), .inr hlength => simp [MapEntries.toList] at hlength

/-- On a poisoned accumulator there is nothing to merge either way. -/
theorem granted_mergeLiteral_poison (host : CelHost) (pred : Option (Expr α)) (val : Valuation α)
    {entries : List (Bool × Expr α × Expr α)}
    (hfit : entries.length * kCelMapEntryStride ≤ 2 ^ 32 - 8) (hpoison : accu.isPoison = true) :
    (mergeLiteral host pred entries val accu).granted = .ok accu := by
  obtain ⟨entry, hentry⟩ := @granted_mapLiteral_ok _ val _ hfit
  rw [mergeLiteral, Prog.granted_bind, hentry]
  obtain ⟨e, rfl⟩ | ⟨s, rfl⟩ := CelValue.isPoison_iff.mp hpoison <;> cases pred <;> rfl

/-- **One merge**: with room and an entry in order, emitted and built agree; and where they agree on
an entry with nothing optional, it was in order. -/
theorem granted_mergeDecomposed_iff (host : CelHost) (ann : α) (val : Valuation α)
    (hpred : pred = none ∨ entries.toList.length ≤ 1) {n : ℕ}
    (h : RoomFor entries.toList.length (n + 1) accu)
    (hfit : entries.toList.length * kCelMapEntryStride ≤ 2 ^ 32 - 8) :
    ((accu.isPoison = false → EntryInOrder pred entries.toList val) →
      (mergeDecomposed host ann pred entries val accu).granted
        = (mergeLiteral host pred entries.toList val accu).granted) ∧
    ((∀ e ∈ entries.toList, e.1 = false) →
      (mergeDecomposed host ann pred entries val accu).granted
        = (mergeLiteral host pred entries.toList val accu).granted →
      accu.isPoison = false → EntryInOrder pred entries.toList val) := by
  rcases h with hpoison | ⟨capacity, done, index, rfl, hroom⟩
  · rw [mergeDecomposed_poison host ann val hpred hpoison,
      granted_mergeLiteral_poison host pred val hfit hpoison]
    exact ⟨fun _ => rfl, fun _ _ hlive => absurd hpoison (by rw [hlive]; exact Bool.false_ne_true)⟩
  · rw [Nat.succ_mul] at hroom
    cases pred with
    | none =>
      refine ⟨fun horder => ?_, fun hall heq _ => ?_⟩
      · obtain ⟨hplain, hkeys⟩ := horder rfl
        exact (granted_mergeDecomposed_none host ann entries index hplain (by omega) hfit).mpr hkeys
      · have hplain : PlainReached val entries.toList := plainReached_of_forall hall
        exact ⟨hplain,
          (granted_mergeDecomposed_none host ann entries index hplain (by omega) hfit).mp heq⟩
    | some gate =>
      match entries, hpred with
      | .nil, _ => exact ⟨fun horder => granted_mergeDecomposed_some_nil.mpr (horder rfl),
          fun _ heq _ => granted_mergeDecomposed_some_nil.mp heq⟩
      | .cons _ _ _ .nil, _ =>
        simp only [MapEntries.toList, List.length_cons, List.length_nil] at hroom
        exact ⟨fun horder => granted_mergeDecomposed_some_single (horder rfl) (by omega),
          fun hall _ _ _ => hall _ List.mem_cons_self⟩
      | .cons _ _ _ (.cons _ _ _ _), .inr hlength => simp [MapEntries.toList] at hlength

end Step

/-! ## The whole run -/

/-- **The entries are in order along a run**: in every iteration that meets a live accumulator. -/
def EntriesInOrder (host : CelHost) (accuVar : String) (step : Expr α) (pred : Option (Expr α))
    (entries : List (Bool × Expr α × Expr α)) : List (Valuation α) → CelValue → Prop :=
  Prog.Along (fun val accu => accu.isPoison = false → EntryInOrder pred entries val)
    fun accu val => compLoopStep host accuVar val accu step

/-- The emitted step of a merge of a literal. -/
theorem compLoopStep_eq_mergeDecomposed {host : CelHost} {accuVar : String} {step : Expr α} {ann : α}
    {pred : Option (Expr α)} {entries : MapEntries α}
    (hshape : classifyLoopStep step accuVar = mergeShape pred (.map ann entries))
    (accu : CelValue) (val : Valuation α) :
    compLoopStep host accuVar val accu step = mergeDecomposed host ann pred entries val accu := by
  rw [compLoopStep, hshape]
  cases pred <;> rfl

/-- A gated entry of two or more is built either way. -/
theorem mergeDecomposed_of_built (host : CelHost) (ann : α) {pred : Option (Expr α)}
    {entries : MapEntries α} (hpred : ¬(pred = none ∨ entries.toList.length ≤ 1))
    (val : Valuation α) (accu : CelValue) :
    mergeDecomposed host ann pred entries val accu = mergeLiteral host pred entries.toList val accu ∧
      EntryInOrder pred entries.toList val := by
  cases pred with
  | none => exact absurd (.inl rfl) hpred
  | some gate =>
    match entries with
    | .nil | .cons _ _ _ .nil => simp [MapEntries.toList] at hpred
    | .cons _ _ _ (.cons _ _ _ _) => exact ⟨rfl, trivial⟩

section Runs

variable {host : CelHost} {accuVar : String} {step : Expr α} {ann : α} {pred : Option (Expr α)}
  {entries : MapEntries α}

theorem roomFor_of_emitted
    (hshape : classifyLoopStep step accuVar = mergeShape pred (.map ann entries))
    (hpred : pred = none ∨ entries.toList.length ≤ 1) (val : Valuation α) (rest : List (Valuation α))
    (accu accu' : CelValue) (h : RoomFor entries.toList.length (val :: rest).length accu)
    (hstep : (compLoopStep host accuVar val accu step).granted = .ok accu') :
    RoomFor entries.toList.length rest.length accu' := by
  rw [compLoopStep_eq_mergeDecomposed hshape] at hstep
  obtain ⟨accu'', hmerge, hroom⟩ := mergeDecomposed_spec host ann val hpred h
  rw [hmerge] at hstep
  exact Except.ok.inj hstep ▸ hroom

variable {vals : List (Valuation α)} {start : CelValue}

/-- Emitted and built agree after every iteration of a run whose entries are in order. -/
theorem granted_merge_of_inOrder
    (hshape : classifyLoopStep step accuVar = mergeShape pred (.map ann entries))
    (hpred : pred = none ∨ entries.toList.length ≤ 1)
    (hroom : RoomFor entries.toList.length vals.length start)
    (hfit : entries.toList.length * kCelMapEntryStride ≤ 2 ^ 32 - 8)
    (h : EntriesInOrder host accuVar step pred entries.toList vals start) :
    (vals.foldlM (fun accu val => compLoopStep host accuVar val accu step) start).granted
      = (vals.foldlM (fun accu val => mergeLiteral host pred entries.toList val accu) start).granted :=
  Prog.granted_foldlM_congr_of_along
    (P := fun rest accu => RoomFor entries.toList.length rest.length accu)
    (roomFor_of_emitted hshape hpred)
    (fun val rest accu hroom horder => by
      rw [compLoopStep_eq_mergeDecomposed hshape]
      exact (granted_mergeDecomposed_iff host ann val hpred hroom hfit).1 horder)
    vals start hroom h

/-- A run after every iteration of which emitted and built agree, on entries with nothing optional,
had them in order. -/
theorem inOrder_of_granted_merge
    (hshape : classifyLoopStep step accuVar = mergeShape pred (.map ann entries))
    (hpred : pred = none ∨ entries.toList.length ≤ 1)
    (hroom : RoomFor entries.toList.length vals.length start)
    (hfit : entries.toList.length * kCelMapEntryStride ≤ 2 ^ 32 - 8)
    (hplain : ∀ e ∈ entries.toList, e.1 = false)
    (h : ∀ n, ((vals.take n).foldlM
          (fun accu val => compLoopStep host accuVar val accu step) start).granted
        = ((vals.take n).foldlM
          (fun accu val => mergeLiteral host pred entries.toList val accu) start).granted) :
    EntriesInOrder host accuVar step pred entries.toList vals start :=
  Prog.along_of_granted_foldlM_take
    (P := fun rest accu => RoomFor entries.toList.length rest.length accu)
    (roomFor_of_emitted hshape hpred)
    (fun val rest accu hroom heq => by
      rw [compLoopStep_eq_mergeDecomposed hshape] at heq
      exact (granted_mergeDecomposed_iff host ann val hpred hroom hfit).2 hplain heq)
    vals start hroom h

/-- The accumulator of a merge is created with room for a whole entry in every iteration, so one such
entry fits in memory. -/
theorem roomFor_of_create {n : ℕ}
    (hcreate : (celMapCreate (n * entries.toList.length % 2 ^ 32)).granted = .ok start)
    (hlive : start.isPoison = false) (hpresize : n * entries.toList.length < 2 ^ 32) (hn : 0 < n) :
    RoomFor entries.toList.length n start ∧
      entries.toList.length * kCelMapEntryStride ≤ 2 ^ 32 - 8 := by
  rw [Nat.mod_eq_of_lt hpresize, granted_celMapCreate] at hcreate
  split_ifs at hcreate with hfit
  · obtain rfl := Except.ok.inj hcreate
    refine ⟨.inr ⟨_, [], none, rfl, (Nat.zero_add _).le⟩, le_trans ?_ hfit⟩
    exact Nat.mul_le_mul_right _ (Nat.le_mul_of_pos_left _ hn)
  · obtain rfl := Except.ok.inj hcreate
    exact nomatch hlive

end Runs

/-- **Merging a literal entry piecewise agrees with building it.** For a `transformMapEntry` whose
entry is a literal, and every sequence of values of its sub-expressions: where the entries are in
order the two accumulators agree after every iteration, and where nothing is optional they agree
after every iteration only then. -/
theorem entryMerge_agrees (host : CelHost) (comp : ComprehensionExpr α) (init : CelValue)
    (pred : Option (Expr α)) (ann ann' : α) (entries : MapEntries α) (vals : List (Valuation α))
    (start : CelValue)
    (hshape : classifyLoopStep comp.loopStep comp.accuVar = mergeShape pred (.map ann entries))
    (hinit : comp.accuInit = .map ann' .nil)
    (hcreate : (initAccu comp init vals.length).granted = .ok start) (hlive : start.isPoison = false)
    (hpresize : vals.length * entries.toList.length < 2 ^ 32) :
    (EntriesInOrder host comp.accuVar comp.loopStep pred entries.toList vals start → ∀ n,
      ((vals.take n).foldlM
          (fun accu val => compLoopStep host comp.accuVar val accu comp.loopStep) start).granted
        = ((vals.take n).foldlM
          (fun accu val => mergeLiteral host pred entries.toList val accu) start).granted) ∧
    ((∀ e ∈ entries.toList, e.1 = false) → (∀ n,
      ((vals.take n).foldlM
          (fun accu val => compLoopStep host comp.accuVar val accu comp.loopStep) start).granted
        = ((vals.take n).foldlM
          (fun accu val => mergeLiteral host pred entries.toList val accu) start).granted) →
      EntriesInOrder host comp.accuVar comp.loopStep pred entries.toList vals start) := by
  by_cases hpred : pred = none ∨ entries.toList.length ≤ 1
  · rcases vals.eq_nil_or_concat' with rfl | ⟨_, _, hvals⟩
    · exact ⟨fun _ n => by rw [List.take_nil, List.foldlM_nil, List.foldlM_nil], fun _ _ => trivial⟩
    · have hcreate' : (celMapCreate (vals.length * entries.toList.length % 2 ^ 32)).granted
          = .ok start := by
        rw [initAccu, hinit, hshape] at hcreate
        cases pred <;> exact hcreate
      obtain ⟨hroom, hfit⟩ := roomFor_of_create hcreate' hlive hpresize (by simp [hvals])
      refine ⟨fun h n => ?_, inOrder_of_granted_merge hshape hpred hroom hfit⟩
      refine granted_merge_of_inOrder hshape hpred ?_ hfit (h.take n)
      rcases hroom with hpoison | ⟨capacity, done, index, rfl, hroom⟩
      · exact .inl hpoison
      · exact .inr ⟨capacity, done, index, rfl, le_trans (Nat.add_le_add_left (Nat.mul_le_mul_right _
          (List.length_take_le' n vals)) _) hroom⟩
  · have hsame : (fun accu val => compLoopStep host comp.accuVar val accu comp.loopStep)
        = fun accu val => mergeLiteral host pred entries.toList val accu := by
      funext accu val
      rw [compLoopStep_eq_mergeDecomposed hshape, (mergeDecomposed_of_built host ann hpred val accu).1]
    refine ⟨fun _ n => by rw [hsame], fun _ _ => ?_⟩
    exact Prog.along_of_forall
      (fun val accu _ => (mergeDecomposed_of_built host ann hpred val accu).2) vals start

/-- `range.transformMapEntry(i, v, {a: v, b: i})`, for keys `a` and `b`. -/
def transformEntries (a b : Constant) : MapEntries Unit :=
  .cons false (.const () a) (.ident () "v") (.cons false (.const () b) (.ident () "i") .nil)

/-- The comprehension around such an entry. -/
def transformComprehension (a b : Constant) : ComprehensionExpr Unit where
  iterVar := "i"
  iterVar2 := "v"
  iterRange := .ident () "range"
  accuVar := "@result"
  accuInit := .map () .nil
  loopCondition := .const () (.bool true)
  loopStep := .call () "cel.@mapInsert" false [.ident () "@result", .map () (transformEntries a b)]
  result := .ident () "@result"

/-- One iteration: the literals for themselves, and the element for both variables. -/
def entryIteration (x : CelValue) : Valuation Unit
  | .const _ c => c.value
  | _ => x

/-- Keys 1 and 2, over two elements. -/
theorem entryMerge_agrees_twoKeys :
    ([entryIteration (.int 5), entryIteration (.int 6)].foldlM
        (fun accu val => compLoopStep .stubs "@result" val accu
          (transformComprehension (.int 1) (.int 2)).loopStep) (.mapArena 4 [] none)).granted
      = ([entryIteration (.int 5), entryIteration (.int 6)].foldlM
        (fun accu val => mergeLiteral .stubs none (transformEntries (.int 1) (.int 2)).toList val accu)
        (.mapArena 4 [] none)).granted :=
  (entryMerge_agrees .stubs (transformComprehension (.int 1) (.int 2)) .null none () ()
    (transformEntries (.int 1) (.int 2)) [entryIteration (.int 5), entryIteration (.int 6)]
    (.mapArena 4 [] none) rfl rfl rfl rfl (by decide)).1
    ⟨fun _ => ⟨⟨rfl, fun _ => ⟨rfl, fun _ => trivial⟩⟩, .inl (by unfold CleanKeys; decide)⟩,
      fun _ _ => ⟨fun _ => ⟨⟨rfl, fun _ => ⟨rfl, fun _ => trivial⟩⟩,
        .inl (by unfold CleanKeys; decide)⟩, fun _ _ => trivial⟩⟩ 2

/-- Keys 1 and 1, over one element: emitted, the last write wins; built, the literal is an error. -/
theorem entryMerge_hides_repeat : ∃ emitted built,
    ([entryIteration (.int 5)].foldlM
        (fun accu val => compLoopStep .stubs "@result" val accu
          (transformComprehension (.int 1) (.int 1)).loopStep) (.mapArena 2 [] none)).granted
      = .ok emitted ∧
    ([entryIteration (.int 5)].foldlM
        (fun accu val => mergeLiteral .stubs none (transformEntries (.int 1) (.int 1)).toList val accu)
        (.mapArena 2 [] none)).granted = .ok built ∧
    emitted = .mapArena 2 [(.int 1, .int 5)] none ∧ built = .error .duplicateKey :=
  ⟨_, _, rfl, rfl, rfl, rfl⟩

end CelWasm
