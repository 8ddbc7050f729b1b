import CelWasm.Library.LastWrite
import CelWasm.Runtime.MapPairs
import Mathlib.Logic.Relation

/-!
# Runtime/MapRuns — every run of the calls that build arena maps

    ⟨create | insert | insert_at | merge_at | index_build⟩* ──▸ the fold of what was inserted

Literals and accumulators write into one representation. Whatever the order of the calls, a map that
is not poisoned holds what was inserted, in the order of first insertion, under legal keys no two of
which are equal. Its index is another matter: building it is the last step of a construction, and only
growing takes it away again, so a key appended later is one the index does not know.
-/

namespace CelWasm

open LastWrite

/-- A capacity is doubled until it holds what is wanted. -/
theorem le_growUntil {want : ℕ} : ∀ {fuel capacity : ℕ}, want ≤ capacity * 2 ^ fuel →
    want ≤ growUntil want fuel capacity
  | 0, capacity, h => by simpa [growUntil] using h
  | fuel + 1, capacity, h => by
    rw [growUntil]
    split_ifs with hlt
    · exact le_growUntil (by rwa [Nat.mul_assoc, ← Nat.pow_succ'])
    · exact not_lt.mp hlt

/-- **A grown map has room** for the entry it was grown for. -/
theorem lt_of_arenaMapGrowOne {count capacity grown : ℕ}
    (h : (arenaMapGrowOne count capacity).Reaches (.ok (some grown))) : count < grown := by
  have hwant : count + 1 ≤ growUntil (count + 1) (count + 1)
      (if capacity ≠ 0 then capacity * 2 else 4) := by
    refine le_growUntil ?_
    have hfuel : count + 1 < 2 ^ (count + 1) := Nat.lt_two_pow_self
    have hstart : 1 ≤ if capacity ≠ 0 then capacity * 2 else 4 := by split_ifs <;> omega
    exact hfuel.le.trans (Nat.le_mul_of_pos_left _ hstart)
  rw [arenaMapGrowOne] at h
  generalize growUntil _ _ _ = newCap at h hwant
  dsimp only at h
  split_ifs at h with hbig hbytes
  · exact nomatch Prog.reaches_pure.mp h
  · exact nomatch Prog.reaches_pure.mp h
  · obtain ⟨answer, -, h⟩ := h.of_bind
    cases answer with
    | false => exact nomatch Prog.reaches_pure.mp h
    | true =>
      obtain rfl := Option.some.inj (Except.ok.inj (Prog.reaches_pure.mp h))
      exact hwant

/-! ## What a map holds -/

/-- **A map's representation**: no more entries than it has room for, under legal keys no two of which
are equal, and its content is the fold of what was inserted. -/
structure HoldsInserted (capacity : ℕ) (entries inserted : List (CelValue × CelValue)) : Prop where
  length_le : entries.length ≤ capacity
  legal : ∀ e ∈ entries, isValidMapKeyKind e.1 = true
  distinct : Distinct celMapKeyEq entries
  content : entries = inserted.foldl (write celMapKeyEq) []

section Insert

variable {capacity capacity' : ℕ} {entries entries' inserted : List (CelValue × CelValue)}
  {index index' : Option MapIndex} {key value : CelValue} {allowGrow : Bool}

/-- A key is equal to one entry of a map at most. -/
theorem HoldsInserted.unique (h : HoldsInserted capacity entries inserted) {i j : ℕ}
    (hi : i < entries.length) (hj : j < entries.length)
    (hik : celMapKeyEq entries[i].1 key = true) (hjk : celMapKeyEq entries[j].1 key = true) :
    i = j := by
  have hdiffer {a b : ℕ} (ha : a < entries.length) (hb : b < entries.length) (hab : a < b) :
      celMapKeyEq entries[a].1 entries[b].1 = false :=
    List.pairwise_iff_getElem.mp h.distinct a b ha hb hab
  have hlegal {a : ℕ} (ha : a < entries.length) : isValidMapKeyKind entries[a].1 = true :=
    h.legal _ (List.getElem_mem ha)
  rcases Nat.lt_trichotomy i j with hlt | heq | hgt
  · exact absurd (celMapKeyEq_trans (hlegal hi) (hlegal hj) hik hjk)
      (ne_true_of_eq_false (hdiffer hi hj hlt))
  · exact heq
  · exact absurd (celMapKeyEq_trans (hlegal hj) (hlegal hi) hjk hik)
      (ne_true_of_eq_false (hdiffer hj hi hgt))

/-- **Overwriting where the scan stops is a write**, and so is appending where it does not. -/
theorem HoldsInserted.overwriteValue_getD (h : HoldsInserted capacity entries inserted) :
    (overwriteValue entries key value).getD (entries ++ [(key, value)])
      = write celMapKeyEq entries (key, value) := by
  rw [overwriteValue]
  cases hscan : entries.findIdx? fun e => celMapKeyEq e.1 key with
  | none => exact (@write_of_fresh _ _ _ _ (key, value) (List.findIdx?_eq_none_iff.mp hscan)).symm
  | some i =>
    obtain ⟨hi, hik, -⟩ := List.findIdx?_eq_some_iff_getElem.mp hscan
    exact (@write_of_taken _ _ _ _ (key, value) i hi fun j hj =>
      ⟨fun hjk => h.unique hj hi hjk hik, fun hji => by subst hji; exact hik⟩).symm

/-- A write of a legal key that is given room. -/
theorem HoldsInserted.written (h : HoldsInserted capacity entries inserted)
    (hkey : isValidMapKeyKind key = true)
    (hroom : (write celMapKeyEq entries (key, value)).length ≤ capacity') :
    HoldsInserted capacity' (write celMapKeyEq entries (key, value)) (inserted ++ [(key, value)]) where
  length_le := hroom
  legal := by
    intro e he
    rw [write] at he
    split at he
    · obtain ⟨old, hold, rfl⟩ := List.mem_map.mp he
      split <;> exact h.legal old hold
    · obtain hold | hnew := List.mem_append.mp he
      · exact h.legal e hold
      · exact List.mem_singleton.mp hnew ▸ hkey
  distinct := h.distinct.write
  content := by rw [List.foldl_append, ← h.content, List.foldl_cons, List.foldl_nil]

/-- **What an accumulating insert can do**: poison the map, overwrite where the scan stops, append
where there is room, or grow and append, which drops the index. -/
theorem mapInsertAtKernel_cases {m : CelValue}
    (h : (mapInsertAtKernel capacity entries index key value allowGrow).Reaches (.ok m)) :
    m.isPoison = true ∨
      isValidMapKeyKind key = true ∧
        ((∃ entries', overwriteValue entries key value = some entries' ∧
            m = .mapArena capacity entries' index) ∨
          overwriteValue entries key value = none ∧
            (entries.length < capacity ∧ m = .mapArena capacity (entries ++ [(key, value)]) index ∨
              ∃ grown, entries.length < grown ∧
                m = .mapArena grown (entries ++ [(key, value)]) none)) := by
  unfold mapInsertAtKernel at h
  cases hover : overwriteValue entries key value with
  | some entries' =>
    rw [hover] at h
    dsimp only at h
    split_ifs at h with hkey hvalue hvalid
    · exact .inl (Except.ok.inj (Prog.reaches_pure.mp h) ▸ hkey)
    · exact .inl (Except.ok.inj (Prog.reaches_pure.mp h) ▸ hvalue)
    · exact .inl (Except.ok.inj (Prog.reaches_pure.mp h) ▸ rfl)
    · exact .inr ⟨by simpa using hvalid, .inl ⟨entries', rfl,
        Except.ok.inj (Prog.reaches_pure.mp h)⟩⟩
  | none =>
    rw [hover] at h
    dsimp only at h
    split_ifs at h with hkey hvalue hvalid hroom hfixed
    · exact .inl (Except.ok.inj (Prog.reaches_pure.mp h) ▸ hkey)
    · exact .inl (Except.ok.inj (Prog.reaches_pure.mp h) ▸ hvalue)
    · exact .inl (Except.ok.inj (Prog.reaches_pure.mp h) ▸ rfl)
    · exact .inr ⟨by simpa using hvalid, .inr ⟨rfl, .inl ⟨hroom,
        Except.ok.inj (Prog.reaches_pure.mp h)⟩⟩⟩
    · exact nomatch h
    · obtain ⟨grown, hgrow, h⟩ := h.of_bind
      cases grown with
      | none => exact .inl (Except.ok.inj (Prog.reaches_pure.mp h) ▸ rfl)
      | some grown =>
        exact .inr ⟨by simpa using hvalid, .inr ⟨rfl, .inr ⟨grown, lt_of_arenaMapGrowOne hgrow,
          Except.ok.inj (Prog.reaches_pure.mp h)⟩⟩⟩

/-- **One insert into a sound map**: what is left, if it is a map, is the map after one write, with
the index it had or none. -/
theorem HoldsInserted.insertAt (h : HoldsInserted capacity entries inserted)
    (hrun : (mapInsertAtKernel capacity entries index key value allowGrow).Reaches
      (.ok (.mapArena capacity' entries' index'))) :
    entries' = write celMapKeyEq entries (key, value) ∧
      HoldsInserted capacity' entries' (inserted ++ [(key, value)]) ∧
        (index' = none ∨ index' = index) := by
  have hwrite : (overwriteValue entries key value).getD (entries ++ [(key, value)]) = _ :=
    h.overwriteValue_getD
  obtain hpoison | ⟨hkey, ⟨overwritten, hover, hm⟩ | ⟨hover, ⟨hroom, hm⟩ | ⟨grown, hgrown, hm⟩⟩⟩ :=
    mapInsertAtKernel_cases hrun
  · exact nomatch hpoison
  all_goals
    obtain ⟨rfl, rfl, rfl⟩ := CelValue.mapArena.inj hm
    rw [hover] at hwrite
  · have hlength : entries'.length = entries.length := by
      obtain ⟨i, -, rfl⟩ := Option.map_eq_some_iff.mp hover
      exact List.length_modify ..
    have heq : entries' = write celMapKeyEq entries (key, value) := hwrite
    exact ⟨heq, heq ▸ h.written hkey (heq ▸ hlength.trans_le h.length_le), .inr rfl⟩
  · have heq : entries ++ [(key, value)] = write celMapKeyEq entries (key, value) := hwrite
    refine ⟨heq, heq ▸ h.written hkey ?_, .inr rfl⟩
    rw [← heq, List.length_append]
    exact hroom
  · have heq : entries ++ [(key, value)] = write celMapKeyEq entries (key, value) := hwrite
    refine ⟨heq, heq ▸ h.written hkey ?_, .inl rfl⟩
    rw [← heq, List.length_append]
    exact hgrown

/-- **One insert into a sound literal.** -/
theorem HoldsInserted.insert (h : HoldsInserted capacity entries inserted)
    (hrun : celMapInsert (.mapArena capacity entries index) key value
      = .mapArena capacity' entries' index') :
    entries' = write celMapKeyEq entries (key, value) ∧
      HoldsInserted capacity' entries' (inserted ++ [(key, value)]) ∧ index' = index := by
  dsimp only [celMapInsert] at hrun
  split_ifs at hrun with hkey hvalue hvalid htaken hfull
  · exact nomatch hrun ▸ hkey
  · exact nomatch hrun ▸ hvalue
  · obtain ⟨rfl, rfl, rfl⟩ := CelValue.mapArena.inj hrun
    have hfresh : ∀ e ∈ entries, celMapKeyEq e.1 key = false := by simpa using htaken
    have heq : entries ++ [(key, value)] = write celMapKeyEq entries (key, value) :=
      (@write_of_fresh _ _ _ _ (key, value) hfresh).symm
    refine ⟨heq, heq ▸ h.written (by simpa using hvalid) ?_, rfl⟩
    rw [← heq, List.length_append]
    exact not_le.mp hfull

end Insert

/-! ## Merging and indexing -/

/-- `cel_map_merge_at`, with the pairs it has walked. -/
def mergeWalked (host : CelHost) (m entry : CelValue) :
    Kernel (CelValue × List (CelValue × CelValue)) :=
  match m with
  | .mapArena capacity entries index =>
    if entry.isPoison then return (entry, [])
    else
      match entry with
      | .mapArena _ source _ => do
        return (← mapMergeEntries (.mapArena capacity entries index) source, source)
      | .mapHost _ => do
        match ← mapIterInitHost host entry with
        | [] => return (.mapArena capacity entries index, [])
        | snapshot =>
          if ← Prog.alloc 48 then
            return (← mapMergeEntries (.mapArena capacity entries index) snapshot, snapshot)
          else return (.error .overflow, snapshot)
      | _ => return (.error .typeMismatch, [])
  | m => return (m, [])

section Merge

variable {capacity capacity' : ℕ} {entries entries' inserted : List (CelValue × CelValue)}
  {index index' : Option MapIndex}

theorem mapMergeEntries_poison {p : CelValue} (hp : p.isPoison = true)
    (pairs : List (CelValue × CelValue)) : mapMergeEntries p pairs = return p := by
  obtain ⟨e, rfl⟩ | ⟨s, rfl⟩ := CelValue.isPoison_iff.mp hp <;> cases pairs <;> rfl

/-- **Merging pairs into a sound map** writes them in their order. -/
theorem HoldsInserted.merge : ∀ {pairs entries inserted : List (CelValue × CelValue)}
    {capacity : ℕ} {index : Option MapIndex}, HoldsInserted capacity entries inserted →
    (mapMergeEntries (.mapArena capacity entries index) pairs).Reaches
      (.ok (.mapArena capacity' entries' index')) →
      HoldsInserted capacity' entries' (inserted ++ pairs) ∧
        entries.map Prod.fst <+: entries'.map Prod.fst ∧ (index' = none ∨ index' = index)
  | [], entries, inserted, capacity, index, h, hrun => by
    obtain ⟨rfl, rfl, rfl⟩ := CelValue.mapArena.inj (Except.ok.inj (Prog.reaches_pure.mp hrun))
    exact ⟨by rwa [List.append_nil], List.prefix_rfl, .inr rfl⟩
  | (key, value) :: pairs, entries, inserted, capacity, index, h, hrun => by
    rw [mapMergeEntries] at hrun
    obtain ⟨m, hinsert, hrest⟩ := hrun.of_bind
    obtain hpoison | ⟨capacity₁, entries₁, index₁, rfl⟩ : m.isPoison = true ∨
        ∃ capacity₁ entries₁ index₁, m = .mapArena capacity₁ entries₁ index₁ := by
      obtain hpoison | ⟨-, ⟨overwritten, -, hm⟩ | ⟨-, ⟨-, hm⟩ | ⟨grown, -, hm⟩⟩⟩ :=
        mapInsertAtKernel_cases hinsert
      · exact .inl hpoison
      all_goals exact .inr ⟨_, _, _, hm⟩
    · rw [mapMergeEntries_poison hpoison] at hrest
      rw [← Except.ok.inj (Prog.reaches_pure.mp hrest)] at hpoison
      cases hpoison
    · obtain ⟨rfl, hone, hindex₁⟩ := h.insertAt hinsert
      obtain ⟨hall, hkeys, hindex⟩ := hone.merge hrest
      rw [List.append_assoc, List.singleton_append] at hall
      refine ⟨hall, (keys_prefix_write _ _).trans hkeys, ?_⟩
      obtain rfl | rfl := hindex
      · exact .inl rfl
      · exact hindex₁

/-- **A merge into a sound map** writes what it has walked. -/
theorem HoldsInserted.mergeWalked {host : CelHost} {entry : CelValue}
    {walked : List (CelValue × CelValue)} (h : HoldsInserted capacity entries inserted)
    (hrun : (mergeWalked host (.mapArena capacity entries index) entry).Reaches
      (.ok (.mapArena capacity' entries' index', walked))) :
    HoldsInserted capacity' entries' (inserted ++ walked) ∧
      entries.map Prod.fst <+: entries'.map Prod.fst ∧ (index' = none ∨ index' = index) := by
  -- Both arms end in the walk over what they have found.
  have hwalk {pairs : List (CelValue × CelValue)}
      (hrun : (do return (← mapMergeEntries (.mapArena capacity entries index) pairs, pairs) :
        Kernel (CelValue × List (CelValue × CelValue))).Reaches
          (.ok (.mapArena capacity' entries' index', walked))) :
      HoldsInserted capacity' entries' (inserted ++ walked) ∧
        entries.map Prod.fst <+: entries'.map Prod.fst ∧ (index' = none ∨ index' = index) := by
    obtain ⟨m, hmerge, hpair⟩ := hrun.of_bind
    obtain ⟨rfl, rfl⟩ := Prod.mk.inj (Except.ok.inj (Prog.reaches_pure.mp hpair))
    exact h.merge hmerge
  have hdead {m : CelValue} {pairs : List (CelValue × CelValue)}
      (hm : m.isPoison = true)
      (hrun : (pure (m, pairs) : Kernel (CelValue × List (CelValue × CelValue))).Reaches
        (.ok (.mapArena capacity' entries' index', walked))) : False := by
    obtain ⟨rfl, -⟩ := Prod.mk.inj (Except.ok.inj (Prog.reaches_pure.mp hrun))
    exact nomatch hm
  cases entry with
  | mapArena _ source _ => exact hwalk hrun
  | mapHost source =>
    obtain ⟨snapshot, -, hrun⟩ := hrun.of_bind
    cases snapshot with
    | nil =>
      obtain ⟨hm, rfl⟩ := Prod.mk.inj (Except.ok.inj (Prog.reaches_pure.mp hrun))
      obtain ⟨rfl, rfl, rfl⟩ := CelValue.mapArena.inj hm
      exact ⟨by rwa [List.append_nil], List.prefix_rfl, .inr rfl⟩
    | cons pair rest =>
      obtain ⟨answer, -, hrun⟩ := hrun.of_bind
      cases answer with
      | true => exact hwalk hrun
      | false => exact (hdead rfl hrun).elim
  | _ => exact (hdead rfl hrun).elim

/-- **What the index build leaves**, if it is a map: the same entries, and their index or none. -/
theorem celMapIndexBuild_cases
    (h : (celMapIndexBuild (.mapArena capacity entries index)).Reaches
      (.ok (.mapArena capacity' entries' index'))) :
    capacity' = capacity ∧ entries' = entries ∧ IndexedBy (entries.map Prod.fst) index' := by
  have hrun := h
  rw [celMapIndexBuild] at h
  split_ifs at h with hsmall
  · obtain ⟨rfl, rfl, rfl⟩ := CelValue.mapArena.inj (Except.ok.inj (Prog.reaches_pure.mp h))
    exact ⟨rfl, rfl, .inl rfl⟩
  · obtain ⟨answer, -, h⟩ := h.of_bind
    cases answer with
    | false =>
      obtain ⟨rfl, rfl, rfl⟩ := CelValue.mapArena.inj (Except.ok.inj (Prog.reaches_pure.mp h))
      exact ⟨rfl, rfl, .inl rfl⟩
    | true =>
      change (publishIndex capacity entries _).Reaches _ at h
      unfold publishIndex at h
      split at h
      · cases h
      · cases Prog.reaches_pure.mp h
      · next built hplaced =>
        obtain ⟨rfl, rfl, rfl⟩ := CelValue.mapArena.inj (Except.ok.inj (Prog.reaches_pure.mp h))
        refine ⟨rfl, rfl, .inr ⟨fun hlt => ?_, fun _ => ⟨built, rfl, ?_⟩⟩⟩
        · rw [List.length_map] at hlt
          exact absurd hlt hsmall
        · rw [List.length_map]
          exact hplaced

end Merge

/-! ## Cells and calls -/

/-- The cells that calls name, and what was inserted into each since it was created. -/
structure MapCells where
  cells : ℕ → CelValue
  inserted : ℕ → List (CelValue × CelValue)

namespace MapCells

/-- Cells that hold nothing. -/
def start : MapCells := ⟨fun _ => .null, fun _ => []⟩

/-- One cell written. -/
def set (s : MapCells) (i : ℕ) (m : CelValue) (inserted : List (CelValue × CelValue)) : MapCells :=
  ⟨Function.update s.cells i m, Function.update s.inserted i inserted⟩

variable (s : MapCells) (m : CelValue) (inserted : List (CelValue × CelValue)) {i j : ℕ}

@[simp] theorem cells_set_self : (s.set i m inserted).cells i = m := Function.update_self ..

@[simp] theorem inserted_set_self : (s.set i m inserted).inserted i = inserted :=
  Function.update_self ..

theorem cells_set_of_ne (h : i ≠ j) : (s.set j m inserted).cells i = s.cells i :=
  Function.update_of_ne h ..

theorem inserted_set_of_ne (h : i ≠ j) : (s.set j m inserted).inserted i = s.inserted i :=
  Function.update_of_ne h ..

end MapCells

/-- **One call**, with any operands and whatever the arena grants. -/
inductive MapStep (host : CelHost) (s : MapCells) : MapCells → Prop
  | create (i capacity : ℕ) {m : CelValue} (h : (celMapCreate capacity).Reaches (.ok m)) :
      MapStep host s (s.set i m [])
  | insert (i : ℕ) (key value : CelValue) :
      MapStep host s
        (s.set i (celMapInsert (s.cells i) key value) (s.inserted i ++ [(key, value)]))
  | insertAt (i : ℕ) (key value : CelValue) {m : CelValue}
      (h : (celMapInsertAt (s.cells i) key value).Reaches (.ok m)) :
      MapStep host s (s.set i m (s.inserted i ++ [(key, value)]))
  | mergeAt (i : ℕ) (entry : CelValue) {m : CelValue} {walked : List (CelValue × CelValue)}
      (h : (mergeWalked host (s.cells i) entry).Reaches (.ok (m, walked))) :
      MapStep host s (s.set i m (s.inserted i ++ walked))
  | indexBuild (i : ℕ) {m : CelValue} (h : (celMapIndexBuild (s.cells i)).Reaches (.ok m)) :
      MapStep host s (s.set i m (s.inserted i))

/-- Without the pairs, a merge is that of the kernel. -/
theorem map_fst_mergeWalked (host : CelHost) (m entry : CelValue) :
    Prod.fst <$> mergeWalked host m entry = celMapMergeAt host m entry := by
  cases m with
  | mapArena capacity entries index =>
    cases entry with
    | mapArena _ source _ =>
      change Prod.fst <$> (mapMergeEntries _ source >>= fun m => pure (m, source)) = _
      rw [map_bind]
      exact bind_pure _
    | mapHost source =>
      change Prod.fst <$> (mapIterInitHost host (.mapHost source) >>= _)
        = mapIterInitHost host (.mapHost source) >>= _
      rw [map_bind]
      refine congrArg _ (funext fun snapshot => ?_)
      cases snapshot with
      | nil => rfl
      | cons pair rest =>
        change Prod.fst <$> (Prog.alloc 48 >>= _) = Prog.alloc 48 >>= _
        rw [map_bind]
        refine congrArg _ (funext fun answer => ?_)
        cases answer with
        | false => rfl
        | true =>
          change Prod.fst <$> (mapMergeEntries _ (pair :: rest) >>= fun m => pure (m, _)) = _
          rw [map_bind]
          exact bind_pure _
    | _ => rfl
  | _ => rfl

/-- **Every merge of the kernel is a step**, of the pairs it walks. -/
theorem exists_mapStep_celMapMergeAt {host : CelHost} {s : MapCells} {i : ℕ} {entry m : CelValue}
    (h : (celMapMergeAt host (s.cells i) entry).Reaches (.ok m)) :
    ∃ walked, MapStep host s (s.set i m (s.inserted i ++ walked)) := by
  rw [← map_fst_mergeWalked, map_eq_pure_bind] at h
  obtain ⟨⟨m', walked⟩, hrun, hm⟩ := h.of_bind
  obtain rfl := Except.ok.inj (Prog.reaches_pure.mp hm)
  exact ⟨walked, .mergeAt i entry hrun⟩

/-- A key is appended to a map whose index stays as it was: no growing has taken it away, and it is
not built again. -/
def AppendsUnderIndex (s s' : MapCells) : Prop :=
  ∃ i capacity entries index capacity' entries' index',
    s.cells i = .mapArena capacity entries (some index) ∧
      s'.cells i = .mapArena capacity' entries' (some index') ∧ entries.length < entries'.length

/-- Every map holds what was inserted into it. -/
def MapCells.Sound (s : MapCells) : Prop :=
  ∀ i capacity entries index, s.cells i = .mapArena capacity entries index →
    HoldsInserted capacity entries (s.inserted i)

/-- Every index is the one of the entries it stands beside. -/
def MapCells.IndexesCurrent (s : MapCells) : Prop :=
  ∀ i capacity entries index, s.cells i = .mapArena capacity entries index →
    IndexedBy (entries.map Prod.fst) index

section Step

variable {host : CelHost} {s s' : MapCells}

/-- What one call can leave of a map: it holds what was inserted; and its index is the one of its
entries, or the index of before, over keys that are still in their places. -/
def LeftBy (s : MapCells) (i capacity : ℕ) (entries : List (CelValue × CelValue))
    (index : Option MapIndex) (inserted : List (CelValue × CelValue)) : Prop :=
  HoldsInserted capacity entries inserted ∧
    (IndexedBy (entries.map Prod.fst) index ∨
      ∃ capacity' entries', s.cells i = .mapArena capacity' entries' index ∧
        entries'.map Prod.fst <+: entries.map Prod.fst)

/-- A new map holds nothing. -/
theorem leftBy_create {i capacity capacity' : ℕ} {entries : List (CelValue × CelValue)}
    {index : Option MapIndex}
    (h : (celMapCreate capacity).Reaches (.ok (.mapArena capacity' entries index))) :
    LeftBy s i capacity' entries index [] := by
  obtain ⟨answer, -, h⟩ := h.of_bind
  cases answer with
  | false => exact nomatch Prog.reaches_pure.mp h
  | true =>
    obtain ⟨rfl, rfl, rfl⟩ := CelValue.mapArena.inj (Except.ok.inj (Prog.reaches_pure.mp h))
    exact ⟨⟨Nat.zero_le _, nofun, .nil, rfl⟩, .inl (.inl rfl)⟩

/-- What an insert or a merge leaves is left by the call. -/
theorem leftBy_of_kept {i capacity capacity' : ℕ} {entries entries' : List (CelValue × CelValue)}
    {inserted : List (CelValue × CelValue)} {index index' : Option MapIndex}
    (hcell : s.cells i = .mapArena capacity entries index)
    (h : HoldsInserted capacity' entries' inserted)
    (hkeys : entries.map Prod.fst <+: entries'.map Prod.fst)
    (hindex : index' = none ∨ index' = index) : LeftBy s i capacity' entries' index' inserted := by
  refine ⟨h, ?_⟩
  obtain rfl | rfl := hindex
  · exact .inl (.inl rfl)
  · exact .inr ⟨capacity, entries, hcell, hkeys⟩

/-- **What one call leaves in the cell it is about.** -/
theorem MapStep.left (hsound : s.Sound) (h : MapStep host s s') : ∃ i m inserted,
    s' = s.set i m inserted ∧ ∀ capacity entries index, m = .mapArena capacity entries index →
      LeftBy s i capacity entries index inserted := by
  cases h with
  | create i capacity h => exact ⟨i, _, _, rfl, fun _ _ _ hm => leftBy_create (hm ▸ h)⟩
  | insert i key value =>
    refine ⟨i, _, _, rfl, fun capacity' entries' index' hm => ?_⟩
    cases hcell : s.cells i with
    | mapArena capacity entries index =>
      rw [hcell] at hm
      obtain ⟨rfl, hnew, rfl⟩ := (hsound i _ _ _ hcell).insert hm
      exact leftBy_of_kept hcell hnew (keys_prefix_write _ _) (.inr rfl)
    | _ =>
      rw [hcell] at hm
      exact nomatch hm
  | insertAt i key value h =>
    refine ⟨i, _, _, rfl, fun capacity' entries' index' hm => ?_⟩
    cases hcell : s.cells i with
    | mapArena capacity entries index =>
      rw [hcell, hm] at h
      obtain ⟨rfl, hnew, hindex⟩ := (hsound i _ _ _ hcell).insertAt h
      exact leftBy_of_kept hcell hnew (keys_prefix_write _ _) hindex
    | _ =>
      rw [hcell, hm] at h
      exact nomatch Prog.reaches_pure.mp h
  | @mergeAt i entry m walked h =>
    refine ⟨i, _, _, rfl, fun capacity' entries' index' hm => ?_⟩
    cases hcell : s.cells i with
    | mapArena capacity entries index =>
      rw [hcell, hm] at h
      obtain ⟨hnew, hkeys, hindex⟩ := (hsound i _ _ _ hcell).mergeWalked h
      exact leftBy_of_kept hcell hnew hkeys hindex
    | _ =>
      rw [hcell, hm] at h
      exact nomatch Prog.reaches_pure.mp h
  | indexBuild i h =>
    refine ⟨i, _, _, rfl, fun capacity' entries' index' hm => ?_⟩
    cases hcell : s.cells i with
    | mapArena capacity entries index =>
      rw [hcell, hm] at h
      obtain ⟨rfl, rfl, hindex⟩ := celMapIndexBuild_cases h
      exact ⟨hsound i _ _ _ hcell, .inl hindex⟩
    | _ =>
      rw [hcell, hm] at h
      exact nomatch Prog.reaches_pure.mp h

/-- **…and in every cell.** -/
theorem MapStep.leftBy (hsound : s.Sound) (h : MapStep host s s') {i capacity : ℕ}
    {entries : List (CelValue × CelValue)} {index : Option MapIndex}
    (hcell : s'.cells i = .mapArena capacity entries index) :
    LeftBy s i capacity entries index (s'.inserted i) := by
  obtain ⟨j, m, inserted, rfl, hleft⟩ := h.left hsound
  by_cases hij : i = j
  · subst hij
    rw [s.cells_set_self] at hcell
    rw [s.inserted_set_self]
    exact hleft _ _ _ hcell
  · rw [s.cells_set_of_ne m inserted hij] at hcell
    rw [s.inserted_set_of_ne m inserted hij]
    exact ⟨hsound i _ _ _ hcell, .inr ⟨_, _, hcell, List.prefix_rfl⟩⟩

theorem MapStep.sound (hsound : s.Sound) (h : MapStep host s s') : s'.Sound :=
  fun _ _ _ _ hcell => (h.leftBy hsound hcell).1

/-- **A call that appends under no index leaves every index current.** -/
theorem MapStep.indexesCurrent (hsound : s.Sound) (hcurrent : s.IndexesCurrent)
    (h : MapStep host s s') (hkeep : ¬AppendsUnderIndex s s') : s'.IndexesCurrent := by
  intro i capacity entries index hcell
  obtain ⟨-, hindexed | ⟨capacity₀, entries₀, hbefore, hkeys⟩⟩ := h.leftBy hsound hcell
  · exact hindexed
  · cases index with
    | none => exact .inl rfl
    | some index =>
      have hlength : (entries₀.map Prod.fst).length = (entries.map Prod.fst).length := by
        refine le_antisymm hkeys.length_le (not_lt.mp fun hlt => hkeep ?_)
        rw [List.length_map, List.length_map] at hlt
        exact ⟨i, _, _, _, _, _, _, hbefore, hcell, hlt⟩
      rw [← hkeys.eq_of_length hlength]
      exact hcurrent i _ _ _ hbefore

end Step

/-! ## Whole runs -/

theorem sound_of_reachable {host : CelHost} {s : MapCells}
    (h : Relation.ReflTransGen (MapStep host) .start s) : s.Sound := by
  induction h with
  | refl => exact nofun
  | tail _ hstep ih => exact hstep.sound ih

theorem indexesCurrent_of_reachable {host : CelHost} {s : MapCells}
    (h : Relation.ReflTransGen (fun s s' => MapStep host s s' ∧ ¬AppendsUnderIndex s s') .start s) :
    s.IndexesCurrent := by
  have hsound {s : MapCells} (h : Relation.ReflTransGen
      (fun s s' => MapStep host s s' ∧ ¬AppendsUnderIndex s s') .start s) : s.Sound :=
    @sound_of_reachable host _ (Relation.ReflTransGen.mono (fun _ _ hstep => hstep.1) _ _ h)
  induction h with
  | refl => exact nofun
  | tail hrun hstep ih => exact hstep.1.indexesCurrent (hsound hrun) ih hstep.2

/-- A search of a map whose index is current finds what a scan finds. -/
theorem arenaMapFind_of_indexedBy {entries : List (CelValue × CelValue)} {index : Option MapIndex}
    (hindex : IndexedBy (entries.map Prod.fst) index)
    (hkeys : ∀ e ∈ entries, isValidMapKeyKind e.1 = true) (key : CelValue) :
    arenaMapFind entries index key = return celMapScan (entries.map Prod.fst) key := by
  have hscan : celMapScan (entries.map Prod.fst) key
      = entries.findIdx? fun e => celMapKeyEq e.1 key := List.findIdx?_map
  have hvalid : ∀ k ∈ entries.map Prod.fst, isValidMapKeyKind k = true := by simpa using hkeys
  rw [hscan]
  rcases hindex with rfl | ⟨hsmall, hlarge⟩
  · rfl
  · rcases Nat.lt_or_ge (entries.map Prod.fst).length kCelMapIndexThreshold with hlt | hge
    · rw [hsmall hlt]
      rfl
    · obtain ⟨built, rfl, hbuilt⟩ := hlarge hge
      rw [arenaMapFind, celMapIndexFind_eq_scan hbuilt hvalid key, hscan]

/-- **Arena maps are sound in every run**, and as long as no key is appended under an index that
stays, every index that a reader consults is the one of the current entries. -/
theorem arenaMaps_sound (host : CelHost) :
    (∀ s, Relation.ReflTransGen (MapStep host) .start s →
      ∀ i capacity entries index, s.cells i = .mapArena capacity entries index →
        HoldsInserted capacity entries (s.inserted i)) ∧
    (∀ s, Relation.ReflTransGen (fun s s' => MapStep host s s' ∧ ¬AppendsUnderIndex s s') .start s →
      ∀ i capacity entries index, s.cells i = .mapArena capacity entries index →
        IndexedBy (entries.map Prod.fst) index ∧
          ∀ key, arenaMapFind entries index key
            = return celMapScan (entries.map Prod.fst) key) := by
  refine ⟨fun s hrun => sound_of_reachable hrun, fun s hrun i capacity entries index hcell => ?_⟩
  have hindexed := indexesCurrent_of_reachable hrun i _ _ _ hcell
  have hsound := @sound_of_reachable host _ (Relation.ReflTransGen.mono (fun _ _ hstep => hstep.1) _ _ hrun)
  exact ⟨hindexed, arenaMapFind_of_indexedBy hindexed (hsound i _ _ _ hcell).legal⟩

/-! ## A map with an index -/

/-- The index of the map from `0, …, 7`. -/
def diagonalIndex : MapIndex :=
  ((indexPlaceEntries (diagonalEntries.map Prod.fst) 16 8).getD none).getD (.empty 16)

/-- The first cell holds a map of eight entries, which has room for a ninth. -/
def mergedDiagonal : MapCells :=
  (MapCells.start.set 0 (.mapArena 9 [] none) []).set 0 (.mapArena 9 diagonalEntries none)
    diagonalEntries

/-- A merge of eight pairs, and the index of what they make. -/
theorem exists_indexed : ∃ s : MapCells, Relation.ReflTransGen
      (fun s s' => MapStep .stubs s s' ∧ ¬AppendsUnderIndex s s') .start s ∧
    s.cells 0 = .mapArena 9 diagonalEntries (some diagonalIndex) ∧
    s.inserted 0 = diagonalEntries := by
  have hcreate : MapStep .stubs .start (MapCells.start.set 0 (.mapArena 9 [] none) []) :=
    .create 0 9 (Prog.reaches_granted _)
  have hmerge : MapStep .stubs (MapCells.start.set 0 (.mapArena 9 [] none) []) mergedDiagonal :=
    .mergeAt 0 (.mapArena 8 diagonalEntries none) (Prog.reaches_granted _)
  have hbuild : (celMapIndexBuild (.mapArena 9 diagonalEntries none)).Reaches
      (.ok (.mapArena 9 diagonalEntries (some diagonalIndex))) := by
    have hplaced : indexPlaceEntries (diagonalEntries.map Prod.fst) 16 8
        = some (some diagonalIndex) := by set_option maxRecDepth 2000 in decide
    have hindex : IndexOf (diagonalEntries.map Prod.fst) (some diagonalIndex) :=
      ⟨fun hlt => absurd hlt (by decide), fun _ => ⟨_, rfl, hplaced⟩⟩
    rw [← granted_celMapIndexBuild_of_indexOf hindex]
    exact Prog.reaches_granted _
  -- no cell holds an index before the last step
  have hnone : ∀ i capacity entries index,
      mergedDiagonal.cells i ≠ .mapArena capacity entries (some index) ∧
      (MapCells.start.set 0 (.mapArena 9 [] none) []).cells i
        ≠ .mapArena capacity entries (some index) := by
    intro i capacity entries index
    by_cases hi : i = 0
    · subst hi
      exact ⟨nofun, nofun⟩
    · rw [mergedDiagonal, MapCells.cells_set_of_ne _ _ _ hi, MapCells.cells_set_of_ne _ _ _ hi]
      exact ⟨nofun, nofun⟩
  refine ⟨mergedDiagonal.set 0 (.mapArena 9 diagonalEntries (some diagonalIndex)) diagonalEntries,
    .tail (.tail (.tail .refl ⟨hcreate, ?_⟩) ⟨hmerge, ?_⟩) ⟨.indexBuild 0 hbuild, ?_⟩, rfl, rfl⟩
  · exact fun ⟨_, _, _, _, _, _, _, hbefore, _⟩ => nomatch hbefore
  · exact fun ⟨i, _, _, _, _, _, _, hbefore, _⟩ => (hnone i _ _ _).2 hbefore
  · exact fun ⟨i, _, _, _, _, _, _, hbefore, _⟩ => (hnone i _ _ _).1 hbefore

/-- The uint 5 finds the entry of the int 5, through the index. -/
theorem arenaMaps_sound_indexed :
    HoldsInserted 9 diagonalEntries diagonalEntries ∧
      IndexedBy (diagonalEntries.map Prod.fst) (some diagonalIndex) ∧
      arenaMapFind diagonalEntries (some diagonalIndex) (.uint 5) = return some 5 := by
  obtain ⟨s, hrun, hcell, hinserted⟩ := exists_indexed
  have hsound := (arenaMaps_sound .stubs).1 s
    (Relation.ReflTransGen.mono (fun _ _ hstep => hstep.1) _ _ hrun) 0 _ _ _ hcell
  have hcurrent := (arenaMaps_sound .stubs).2 s hrun 0 _ _ _ hcell
  exact ⟨hinserted ▸ hsound, hcurrent.1, hcurrent.2 (.uint 5)⟩

/-- **A key inserted after the index was built** is not found: the index stays, and does not know
it. -/
theorem arenaMaps_stale_index :
    ¬∀ (host : CelHost) (s : MapCells), Relation.ReflTransGen (MapStep host) .start s →
      ∀ i capacity entries index, s.cells i = .mapArena capacity entries index →
        ∀ key, arenaMapFind entries index key
          = return celMapScan (entries.map Prod.fst) key := by
  intro h
  obtain ⟨s, hindexed, hcell, -⟩ := exists_indexed
  have hlast : celMapInsert (.mapArena 9 diagonalEntries (some diagonalIndex)) (.int 8) .null
      = .mapArena 9 (diagonalEntries ++ [(.int 8, .null)]) (some diagonalIndex) :=
    celMapInsert_of_fresh rfl (by decide) (by decide)
  have hrun : Relation.ReflTransGen (MapStep .stubs) .start _ :=
    .tail (Relation.ReflTransGen.mono (fun _ _ hstep => hstep.1) _ _ hindexed)
      (.insert 0 (.int 8) .null)
  have hfind := h .stubs _ hrun 0 _ _ _
    (by rw [MapCells.cells_set_self, hcell, hlast]) (.int 8)
  have hmiss : celMapIndexFind ((diagonalEntries ++ [(CelValue.int 8, CelValue.null)]).map Prod.fst)
      (some diagonalIndex) (.int 8) = some none := by set_option maxRecDepth 2000 in decide
  have hscan : celMapScan ((diagonalEntries ++ [(CelValue.int 8, CelValue.null)]).map Prod.fst)
      (.int 8) = some 8 := by rfl
  rw [arenaMapFind, hmiss, hscan] at hfind
  cases hfind

end CelWasm
