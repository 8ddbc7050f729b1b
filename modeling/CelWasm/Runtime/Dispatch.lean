import CelWasm.Runtime.Equality

/-!
# Runtime/Dispatch — the `kDynamic` dispatchers against the arena kernels

Codegen calls an `_arena` kernel where it knows the container was built in the arena and a dispatcher
where it does not. On arena containers the dispatcher tail-calls that same kernel, so the two can part
only over poison: the dispatchers hand on the first poison they meet, in an order of their own, while
the strict kernels prefer an ERROR and merge two UNKNOWNs. `dispatchers_agree_iff` says exactly where
they part.
-/

namespace CelWasm

/-! ## The dispatchers -/

/-- What the kind test of a dispatcher tells it. -/
inductive Origin
  | arena
  | host
  | neither
  deriving DecidableEq, Repr

/-- The origin of a list operand. -/
def listOrigin : CelValue → Origin
  | .listArena _ _ => .arena
  | .listHost _ => .host
  | _ => .neither

/-- The origin of a map operand. -/
def mapOrigin : CelValue → Origin
  | .mapArena _ _ _ => .arena
  | .mapHost _ => .host
  | _ => .neither

/-- Two containers stay in the module only if both are there. -/
def Origin.both : Origin → Origin → Origin
  | .arena, .arena => .arena
  | .neither, _ | _, .neither => .neither
  | _, _ => .host

/-- The tail call a dispatcher ends in. -/
def dispatch (origin : Origin) (arena host : Kernel CelValue) : Kernel CelValue :=
  match origin with
  | .arena => arena
  | .host => host
  | .neither => return .error .typeMismatch

/-- The poison arms of the two-operand dispatchers: the first poison wins, whatever it is. -/
def unlessPoison (a b : CelValue) (body : Kernel CelValue) : Kernel CelValue :=
  if a.isPoison then return a else if b.isPoison then return b else body

section Dispatchers

variable (host : CelHost)

/-- `cel_map_lookup`. -/
def celMapLookup (m key : CelValue) : Kernel CelValue :=
  if m.isPoison then return m
  else dispatch (mapOrigin m) (celMapLookupArena m key) (host.mapLookup m key)

/-- `cel_list_at`. -/
def celListAt (list index : CelValue) : Kernel CelValue :=
  if list.isPoison then return list
  else dispatch (listOrigin list) (celListAtArena list index) (host.listAt list index)

/-- `cel_list_in`. -/
def celListIn (value list : CelValue) : Kernel CelValue :=
  unlessPoison value list <|
    dispatch (listOrigin list) (celListInArena host value list) (host.listIn value list)

/-- `cel_map_in`. -/
def celMapIn (key m : CelValue) : Kernel CelValue :=
  unlessPoison key m <| dispatch (mapOrigin m) (celMapInArena key m) (host.mapIn key m)

/-- `cel_list_eq`. -/
def celListEq (a b : CelValue) : Kernel CelValue :=
  unlessPoison a b <|
    dispatch ((listOrigin a).both (listOrigin b)) (celListEqArena host a b) (host.listEq a b)

/-- `cel_map_eq`. -/
def celMapEq (a b : CelValue) : Kernel CelValue :=
  unlessPoison a b <|
    dispatch ((mapOrigin a).both (mapOrigin b)) (celMapEqArena host a b) (host.mapEq a b)

/-- `cel_list_concat`. -/
def celListConcat (a b : CelValue) : Kernel CelValue :=
  unlessPoison a b <|
    dispatch ((listOrigin a).both (listOrigin b)) (celListConcatArena a b) (host.listConcat a b)

end Dispatchers

theorem isListShaped_iff {v : CelValue} : isListShaped v = true ↔
    (∃ capacity elements, v = .listArena capacity elements) ∨ ∃ elements, v = .listHost elements := by
  cases v <;> simp [isListShaped]

theorem isMapShaped_iff {v : CelValue} : isMapShaped v = true ↔
    (∃ capacity entries index, v = .mapArena capacity entries index) ∨
      ∃ entries, v = .mapHost entries := by
  cases v <;> simp [isMapShaped]

/-! ## Arena operands -/

/-- A list operand that is in the arena or poison. -/
abbrev ArenaList := { v : CelValue // listOrigin v = .arena ∨ v.isPoison = true }

/-- A map operand that is in the arena or poison. -/
abbrev ArenaMap := { v : CelValue // mapOrigin v = .arena ∨ v.isPoison = true }

theorem mapOrigin_of_not_poison {m : ArenaMap} (h : m.1.isPoison = false) :
    mapOrigin m.1 = .arena :=
  m.2.resolve_right (Bool.eq_false_iff.mp h)

theorem listOrigin_of_not_poison {l : ArenaList} (h : l.1.isPoison = false) :
    listOrigin l.1 = .arena :=
  l.2.resolve_right (Bool.eq_false_iff.mp h)

/-! ## The strict operators -/

/-- The arena has room for the ids of two sets and for the descriptor of their merge. -/
def RoomToMerge (answer : List ℕ → Bool) (s t : UnknownSet) : Prop :=
  let idBytes := max 4 (4 * (s.toList.length + t.toList.length))
  answer [idBytes] = true ∧ answer [8, idBytes] = true

/-- **Where first-wins and strict absorption agree** on two operands: an UNKNOWN before an ERROR is
lost to it, and an UNKNOWN before an UNKNOWN must hold the other's ids already — with room for the
merged set, unless there is nothing to merge. -/
def PoisonsAgree (answer : List ℕ → Bool) : CelValue → CelValue → Prop
  | .unknown _, .error _ => False
  | .unknown s, .unknown t => t = ∅ ∨ t ⊆ s ∧ RoomToMerge answer s t
  | _, _ => True

section Strict

variable {answer : List ℕ → Bool} {a b : CelValue} {body arena : Kernel CelValue}

/-- Merging two sets that both have ids, with room or without. -/
theorem run_celUnknownMerge {s t : UnknownSet} (hs : s ≠ ∅) (ht : t ≠ ∅) :
    (RoomToMerge answer s t →
      (celUnknownMerge (.unknown s) (.unknown t)).run answer [] = .ok (.unknown (s ∪ t))) ∧
      (¬ RoomToMerge answer s t →
        (celUnknownMerge (.unknown s) (.unknown t)).run answer [] = .ok (.error .overflow)) := by
  simp only [celUnknownMerge, if_neg hs, if_neg ht]
  dsimp only [RoomToMerge]
  cases hids : answer [max 4 (4 * (s.toList.length + t.toList.length))] <;>
    cases hdesc : answer [8, max 4 (4 * (s.toList.length + t.toList.length))] <;>
    simp [mergeUnknownDescriptors, Prog.alloc, Prog.run, Prog.pure_eq_ret, hids, hdesc]

/-- The first UNKNOWN is the merge of the two exactly when it holds the other's ids already. -/
theorem run_celUnknownMerge_iff {s t : UnknownSet} :
    .ok (.unknown s) = (celUnknownMerge (.unknown s) (.unknown t)).run answer [] ↔
      PoisonsAgree answer (.unknown s) (.unknown t) := by
  change _ ↔ t = ∅ ∨ t ⊆ s ∧ RoomToMerge answer s t
  by_cases hs : s = ∅
  · have hmerge : celUnknownMerge (.unknown s) (.unknown t) = return .unknown t := if_pos hs
    rw [hmerge, hs, Prog.run_pure, SortedSet.subset_empty_iff]
    simp only [Except.ok.injEq, CelValue.unknown.injEq]
    exact ⟨fun h => .inl h.symm, fun h => (h.elim id (·.1)).symm⟩
  · by_cases ht : t = ∅
    · have hmerge : celUnknownMerge (.unknown s) (.unknown t) = return .unknown s :=
        (if_neg hs).trans (if_pos ht)
      rw [hmerge]
      exact iff_of_true rfl (.inl ht)
    · by_cases hroom : RoomToMerge answer s t
      · rw [(run_celUnknownMerge hs ht).1 hroom]
        simp only [Except.ok.injEq, CelValue.unknown.injEq]
        rw [eq_comm, SortedSet.union_eq_left_iff, or_iff_right ht, and_iff_left hroom]
      · rw [(run_celUnknownMerge hs ht).2 hroom]
        simp [ht, hroom]

/-- Poisons agree wherever there is at most one. -/
theorem poisonsAgree_of_not_poison (h : a.isPoison = false ∨ b.isPoison = false) :
    PoisonsAgree answer a b := by
  unfold PoisonsAgree
  split
  · exact h.elim (nomatch ·) (nomatch ·)
  · exact h.elim (nomatch ·) (nomatch ·)
  · trivial

/-- **First-wins against strict absorption**: where neither operand is poison both run the arena
kernel, and elsewhere they agree exactly where the poisons do. -/
theorem run_unlessPoison_iff (h : a.isPoison = false → b.isPoison = false →
      arena = unlessAbsorbed a b body) :
    (unlessPoison a b arena).run answer [] = (unlessAbsorbed a b body).run answer [] ↔
      PoisonsAgree answer a b := by
  cases ha : a.isPoison with
  | false =>
    refine iff_of_true ?_ (poisonsAgree_of_not_poison (.inl ha))
    cases hb : b.isPoison with
    | false => rw [unlessPoison, ha, hb, h ha hb]; rfl
    | true => rw [unlessPoison, ha, hb, unlessAbsorbed_of_poison_right ha hb]; rfl
  | true =>
    rw [unlessPoison, ha, if_pos rfl]
    cases hb : b.isPoison with
    | false =>
      rw [unlessAbsorbed_of_poison_left ha hb]
      exact iff_of_true rfl (poisonsAgree_of_not_poison (.inr hb))
    | true =>
      obtain ⟨e, rfl⟩ | ⟨s, rfl⟩ := CelValue.isPoison_iff.mp ha
      · exact iff_of_true rfl trivial
      · obtain ⟨e, rfl⟩ | ⟨t, rfl⟩ := CelValue.isPoison_iff.mp hb
        · exact iff_of_false (fun heq => nomatch Except.ok.inj heq) id
        · rw [unlessAbsorbed_unknowns]
          exact run_celUnknownMerge_iff

end Strict

/-! ## The two entry points agree -/

/-- A keyed read meets the container before the key in a dispatcher and after it in the arena. -/
theorem run_read_iff {answer : List ℕ → Bool} {container key : CelValue}
    {dispatched arena body : Kernel CelValue}
    (hdispatched : dispatched = if container.isPoison then return container else arena)
    (harena : arena = if key.isPoison then return key
      else if container.isPoison then return container else body) :
    dispatched.run answer [] = arena.run answer [] ↔
      ¬ (container.isPoison = true ∧ key.isPoison = true ∧ container ≠ key) := by
  rw [hdispatched, harena]
  cases hc : container.isPoison with
  | false => simp
  | true => cases hk : key.isPoison <;> simp

/-- **The dispatchers agree with the arena kernels exactly where the poisons do.** A keyed read
agrees unless container and key are two different poisons; the other five agree where first-wins
and strict absorption do. -/
theorem dispatchers_agree_iff (host : CelHost) (answer : List ℕ → Bool) :
    (∀ (m : ArenaMap) (key : CelValue),
      (celMapLookup host m key).run answer [] = (celMapLookupArena m key).run answer [] ↔
        ¬ (m.1.isPoison = true ∧ key.isPoison = true ∧ m.1 ≠ key)) ∧
    (∀ (l : ArenaList) (index : CelValue),
      (celListAt host l index).run answer [] = (celListAtArena l index).run answer [] ↔
        ¬ (l.1.isPoison = true ∧ index.isPoison = true ∧ l.1 ≠ index)) ∧
    (∀ (value : CelValue) (l : ArenaList),
      (celListIn host value l).run answer [] = (celListInArena host value l).run answer [] ↔
        PoisonsAgree answer value l) ∧
    (∀ (key : CelValue) (m : ArenaMap),
      (celMapIn host key m).run answer [] = (celMapInArena key m).run answer [] ↔
        PoisonsAgree answer key m) ∧
    (∀ a b : ArenaList,
      (celListEq host a b).run answer [] = (celListEqArena host a b).run answer [] ↔
        PoisonsAgree answer a b) ∧
    (∀ a b : ArenaMap,
      (celMapEq host a b).run answer [] = (celMapEqArena host a b).run answer [] ↔
        PoisonsAgree answer a b) ∧
    (∀ a b : ArenaList,
      (celListConcat host a b).run answer [] = (celListConcatArena a b).run answer [] ↔
        PoisonsAgree answer a b) := by
  refine ⟨fun m key => ?_, fun l index => ?_, fun value l => ?_, fun key m => ?_, fun a b => ?_,
    fun a b => ?_, fun a b => ?_⟩
  · refine run_read_iff (ite_congr rfl (fun _ => rfl) fun hm => ?_) rfl
    rw [mapOrigin_of_not_poison (Bool.eq_false_of_not_eq_true hm)]
    rfl
  · refine run_read_iff (ite_congr rfl (fun _ => rfl) fun hl => ?_) rfl
    rw [listOrigin_of_not_poison (Bool.eq_false_of_not_eq_true hl)]
    rfl
  · refine run_unlessPoison_iff fun _ hl => ?_
    rw [listOrigin_of_not_poison hl]
    rfl
  · refine run_unlessPoison_iff fun _ hm => ?_
    rw [mapOrigin_of_not_poison hm]
    rfl
  · refine run_unlessPoison_iff fun ha hb => ?_
    rw [listOrigin_of_not_poison ha, listOrigin_of_not_poison hb]
    rfl
  · refine run_unlessPoison_iff fun ha hb => ?_
    rw [mapOrigin_of_not_poison ha, mapOrigin_of_not_poison hb]
    rfl
  · refine run_unlessPoison_iff fun ha hb => ?_
    rw [listOrigin_of_not_poison ha, listOrigin_of_not_poison hb]
    rfl

/-- A failed map before a failed key, and an UNKNOWN before an ERROR: the dispatcher hands on the
first, the arena kernel the second. -/
theorem dispatchers_prefer_first :
    (celMapLookup .stubs (.error .noSuchKey) (.error .divideByZero)).run (fun _ => true) []
        ≠ (celMapLookupArena (.error .noSuchKey) (.error .divideByZero)).run (fun _ => true) [] ∧
      (celListIn .stubs (.unknown ∅) (.error .noSuchKey)).run (fun _ => true) []
        ≠ (celListInArena .stubs (.unknown ∅) (.error .noSuchKey)).run (fun _ => true) [] := by
  refine ⟨fun h => ?_, fun h => ?_⟩
  · exact nomatch CelValue.error.inj (Except.ok.inj h)
  · exact nomatch Except.ok.inj h

end CelWasm
