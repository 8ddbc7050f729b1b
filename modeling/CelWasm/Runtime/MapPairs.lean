import CelWasm.Runtime.MapIndexSound
import CelWasm.Runtime.Maps
import Mathlib.Data.List.TakeWhile

/-!
# Runtime/MapPairs — inserting a run of pairs

A pair spoils a map if its key or value is poison or its key is of a kind no map takes; the map then
is that poison for good. Up to the first such pair a literal takes every key once and an accumulator
lets the last value win, and both know no other way to fail while they have room.
-/

namespace CelWasm

/-- What inserting a pair poisons a map with, whatever the map holds. -/
def spoil (key value : CelValue) : Option CelValue :=
  if key.isPoison then some key
  else if value.isPoison then some value
  else if !isValidMapKeyKind key then some (.error .typeMismatch)
  else none

theorem isPoison_of_spoil {key value p : CelValue} (h : spoil key value = some p) :
    p.isPoison = true := by
  unfold spoil at h
  split_ifs at h with hkey hvalue
  · exact Option.some.inj h ▸ hkey
  · exact Option.some.inj h ▸ hvalue
  · exact Option.some.inj h ▸ rfl

/-- The direct insert of one pair. -/
def insertPair (m : CelValue) (pair : CelValue × CelValue) : Kernel CelValue :=
  celMapInsertAt m pair.1 pair.2

/-- The insert of one pair into a literal. -/
def insertLiteralPair (m : CelValue) (pair : CelValue × CelValue) : CelValue :=
  celMapInsert m pair.1 pair.2

/-- The first pair that spoils a map. -/
def firstSpoil (pairs : List (CelValue × CelValue)) : Option CelValue :=
  pairs.findSome? fun pair => spoil pair.1 pair.2

/-- **No key repeats an earlier one**, up to the pair that spoils the map. -/
def CleanKeys (pairs : List (CelValue × CelValue)) : Prop :=
  (pairs.takeWhile fun pair => (spoil pair.1 pair.2).isNone).Pairwise
    fun a b => celMapKeyEq a.1 b.1 = false

section Pairs

variable {capacity : ℕ} {entries : List (CelValue × CelValue)} {index : Option MapIndex}
  {key value p : CelValue}

theorem mapInsertAtKernel_of_spoil {allowGrow : Bool} (h : spoil key value = some p) :
    mapInsertAtKernel capacity entries index key value allowGrow = return p := by
  unfold spoil at h
  unfold mapInsertAtKernel
  split_ifs at h ⊢ <;> rw [← Option.some.inj h]

theorem celMapInsert_of_spoil (h : spoil key value = some p) :
    celMapInsert (.mapArena capacity entries index) key value = p := by
  unfold spoil at h
  dsimp only [celMapInsert]
  split_ifs at h ⊢ <;> exact Option.some.inj h

/-- Into a literal with room, a pair with a key of its own is appended. -/
theorem celMapInsert_of_fresh (h : spoil key value = none)
    (hfresh : ∀ e ∈ entries, celMapKeyEq e.1 key = false) (hroom : entries.length < capacity) :
    celMapInsert (.mapArena capacity entries index) key value
      = .mapArena capacity (entries ++ [(key, value)]) index := by
  unfold spoil at h
  split_ifs at h with hkey hvalue hvalid
  dsimp only [celMapInsert]
  rw [if_neg hkey, if_neg hvalue, if_neg hvalid, if_neg (by simpa using hfresh),
    if_neg (not_le.mpr hroom)]

/-- Into a literal, a pair with a key that is there already poisons it. -/
theorem celMapInsert_of_taken (h : spoil key value = none)
    (htaken : ¬∀ e ∈ entries, celMapKeyEq e.1 key = false) :
    celMapInsert (.mapArena capacity entries index) key value = .error .duplicateKey := by
  unfold spoil at h
  split_ifs at h with hkey hvalue hvalid
  dsimp only [celMapInsert]
  rw [if_neg hkey, if_neg hvalue, if_neg hvalid, if_pos (by simpa using htaken)]

/-- Into a map with room, a pair that does not spoil it is inserted. -/
theorem mapInsertAtKernel_of_room (index : Option MapIndex) (h : spoil key value = none)
    (hroom : entries.length < capacity) :
    ∃ entries', entries'.length ≤ entries.length + 1 ∧ ∀ allowGrow,
      mapInsertAtKernel capacity entries index key value allowGrow
        = return .mapArena capacity entries' index := by
  unfold spoil at h
  split_ifs at h with hkey hvalue hvalid
  unfold mapInsertAtKernel
  simp only [hkey, hvalue, hvalid, Bool.false_eq_true, if_false]
  cases hover : overwriteValue entries key value with
  | some entries' =>
    refine ⟨entries', ?_, fun _ => rfl⟩
    obtain ⟨i, -, rfl⟩ := Option.map_eq_some_iff.mp hover
    simp
  | none => exact ⟨entries ++ [(key, value)], by simp, fun _ => if_pos hroom⟩

/-- A poisoned map takes no more pairs. -/
theorem insertPair_poison (hp : p.isPoison = true) (pair : CelValue × CelValue) :
    insertPair p pair = return p := by
  obtain ⟨e, rfl⟩ | ⟨s, rfl⟩ := CelValue.isPoison_iff.mp hp <;> rfl

theorem insertLiteralPair_poison (hp : p.isPoison = true) (pair : CelValue × CelValue) :
    insertLiteralPair p pair = p := by
  obtain ⟨e, rfl⟩ | ⟨s, rfl⟩ := CelValue.isPoison_iff.mp hp <;> rfl

theorem foldlM_insertPair_poison (hp : p.isPoison = true) (pairs : List (CelValue × CelValue)) :
    pairs.foldlM insertPair p = return p := by
  induction pairs with
  | nil => rfl
  | cons pair pairs ih => rw [List.foldlM_cons, insertPair_poison hp, pure_bind, ih]

theorem foldl_insertLiteralPair_poison (hp : p.isPoison = true)
    (pairs : List (CelValue × CelValue)) : pairs.foldl insertLiteralPair p = p := by
  induction pairs with
  | nil => rfl
  | cons pair pairs ih => rw [List.foldl_cons, insertLiteralPair_poison hp, ih]

/-- **Direct inserts into a map with room** end in the first poison, or in a map with at most that
many entries more, which is what merging them would give. -/
theorem foldlM_insertPair (capacity : ℕ) (index : Option MapIndex) :
    ∀ (pairs entries : List (CelValue × CelValue)), entries.length + pairs.length ≤ capacity →
    (∀ p, firstSpoil pairs = some p →
      pairs.foldlM insertPair (.mapArena capacity entries index) = return p) ∧
    (firstSpoil pairs = none → ∃ entries', entries'.length ≤ entries.length + pairs.length ∧
      pairs.foldlM insertPair (.mapArena capacity entries index)
        = pure (.mapArena capacity entries' index) ∧
      mapMergeEntries (.mapArena capacity entries index) pairs
        = pure (.mapArena capacity entries' index))
  | [], entries, _ => ⟨nofun, fun _ => ⟨entries, le_rfl, rfl, rfl⟩⟩
  | (key, value) :: pairs, entries, hroom => by
    rw [List.length_cons] at hroom
    rw [List.foldlM_cons, firstSpoil, List.findSome?_cons]
    cases hspoil : spoil key value with
    | some q =>
      have hq := isPoison_of_spoil hspoil
      refine ⟨fun p hp => ?_, nofun⟩
      obtain rfl := Option.some.inj hp
      change mapInsertAtKernel capacity entries index key value false >>= _ = _
      rw [mapInsertAtKernel_of_spoil hspoil, pure_bind, foldlM_insertPair_poison hq]
    | none =>
      obtain ⟨entries', hlength, hkernel⟩ := mapInsertAtKernel_of_room index hspoil
        (show entries.length < capacity by omega)
      obtain ⟨hpoison, hlive⟩ := foldlM_insertPair capacity index pairs entries' (by omega)
      have hinsert : insertPair (.mapArena capacity entries index) (key, value)
        = return .mapArena capacity entries' index := hkernel false
      rw [hinsert, pure_bind]
      refine ⟨hpoison, fun hnone => ?_⟩
      obtain ⟨entries'', hlength', hfold, hmerge⟩ := hlive hnone
      refine ⟨entries'', by rw [List.length_cons]; omega, hfold, ?_⟩
      rw [mapMergeEntries, hkernel true, pure_bind, hmerge]

end Pairs

/-! ## A whole literal -/

section Literal

variable {capacity : ℕ} {p : CelValue}

/-- An insert into a literal leaves a literal with no more than one entry more, or a poison. -/
theorem celMapInsert_cases (capacity : ℕ) (done : List (CelValue × CelValue))
    (key value : CelValue) :
    (∃ done', done'.length ≤ done.length + 1 ∧
      celMapInsert (.mapArena capacity done none) key value = .mapArena capacity done' none) ∨
    (celMapInsert (.mapArena capacity done none) key value).isPoison = true := by
  dsimp only [celMapInsert]
  split_ifs with hkey hvalue
  · exact .inr hkey
  · exact .inr hvalue
  · exact .inr rfl
  · exact .inr rfl
  · exact .inr rfl
  · exact .inl ⟨_, by simp, rfl⟩

/-- **Inserting clean pairs into a literal** ends in the first poison, or holds them all. -/
theorem foldl_insertLiteralPair_of_clean : ∀ (pairs done : List (CelValue × CelValue)),
    done.length + pairs.length ≤ capacity →
    (done ++ pairs.takeWhile fun pair => (spoil pair.1 pair.2).isNone).Pairwise
      (fun a b => celMapKeyEq a.1 b.1 = false) →
    (∀ p, firstSpoil pairs = some p →
      pairs.foldl insertLiteralPair (.mapArena capacity done none) = p) ∧
    (firstSpoil pairs = none →
      pairs.foldl insertLiteralPair (.mapArena capacity done none)
        = .mapArena capacity (done ++ pairs) none)
  | [], done, _, _ => ⟨nofun, fun _ => by rw [List.append_nil]; rfl⟩
  | (key, value) :: pairs, done, hroom, hclean => by
    rw [List.length_cons] at hroom
    rw [List.foldl_cons, firstSpoil, List.findSome?_cons]
    rw [List.takeWhile_cons] at hclean
    cases hspoil : spoil key value with
    | some q =>
      have hq := isPoison_of_spoil hspoil
      refine ⟨fun p hp => ?_, nofun⟩
      obtain rfl := Option.some.inj hp
      have hinsert : insertLiteralPair (.mapArena capacity done none) (key, value) = q :=
        celMapInsert_of_spoil hspoil
      rw [hinsert, foldl_insertLiteralPair_poison hq]
    | none =>
      rw [hspoil] at hclean
      simp only [Option.isNone_none, if_true] at hclean
      have hinsert : insertLiteralPair (.mapArena capacity done none) (key, value)
          = .mapArena capacity (done ++ [(key, value)]) none :=
        celMapInsert_of_fresh hspoil (fun e he => (List.pairwise_append.mp hclean).2.2 e he _
          List.mem_cons_self) (by omega)
      rw [hinsert, show done ++ (key, value) :: pairs = done ++ [(key, value)] ++ pairs by simp]
      exact foldl_insertLiteralPair_of_clean pairs (done ++ [(key, value)])
        (by rw [List.length_append, List.length_singleton]; omega)
        (by rwa [List.append_assoc, List.singleton_append])

/-- **A repeated key** poisons a literal, whatever comes after. -/
theorem foldl_insertLiteralPair_of_repeat : ∀ (pairs done : List (CelValue × CelValue)),
    done.length + pairs.length ≤ capacity →
    done.Pairwise (fun a b => celMapKeyEq a.1 b.1 = false) →
    ¬(done ++ pairs.takeWhile fun pair => (spoil pair.1 pair.2).isNone).Pairwise
      (fun a b => celMapKeyEq a.1 b.1 = false) →
    pairs.foldl insertLiteralPair (.mapArena capacity done none) = .error .duplicateKey
  | [], done, _, hdone, hrepeat => by
    rw [List.takeWhile_nil, List.append_nil] at hrepeat
    exact absurd hdone hrepeat
  | (key, value) :: pairs, done, hroom, hdone, hrepeat => by
    rw [List.length_cons] at hroom
    rw [List.takeWhile_cons] at hrepeat
    cases hspoil : spoil key value with
    | some q =>
      rw [hspoil] at hrepeat
      simp only [Option.isNone_some, Bool.false_eq_true, if_false, List.append_nil] at hrepeat
      exact absurd hdone hrepeat
    | none =>
      rw [hspoil] at hrepeat
      simp only [Option.isNone_none, if_true] at hrepeat
      rw [List.foldl_cons]
      by_cases hfresh : ∀ e ∈ done, celMapKeyEq e.1 key = false
      · have hinsert : insertLiteralPair (.mapArena capacity done none) (key, value)
            = .mapArena capacity (done ++ [(key, value)]) none :=
          celMapInsert_of_fresh hspoil hfresh (by omega)
        rw [hinsert]
        refine foldl_insertLiteralPair_of_repeat pairs (done ++ [(key, value)])
          (by rw [List.length_append, List.length_singleton]; omega) ?_
          (by rwa [List.append_assoc, List.singleton_append])
        refine List.pairwise_append.mpr ⟨hdone, List.pairwise_singleton _ _, fun a ha b hb => ?_⟩
        obtain rfl := List.mem_singleton.mp hb
        exact hfresh a ha
      · have hinsert : insertLiteralPair (.mapArena capacity done none) (key, value)
            = .error .duplicateKey := celMapInsert_of_taken hspoil hfresh
        rw [hinsert, foldl_insertLiteralPair_poison rfl]

theorem takeWhile_eq_self_of_firstSpoil {pairs : List (CelValue × CelValue)}
    (h : firstSpoil pairs = none) :
    (pairs.takeWhile fun pair => (spoil pair.1 pair.2).isNone) = pairs :=
  List.takeWhile_eq_self_iff.mpr fun pair hpair => by
    rw [List.findSome?_eq_none_iff.mp h pair hpair]
    rfl

/-- Pairs with different keys throughout are what the index build asks for. -/
theorem distinctKeys_of_pairwise {pairs : List (CelValue × CelValue)}
    (h : pairs.Pairwise fun a b => celMapKeyEq a.1 b.1 = false) :
    DistinctKeys (pairs.map Prod.fst) pairs.length := by
  intro a b hab hb
  have hget := List.pairwise_iff_getElem.mp h a b (hab.trans hb) hb hab
  rwa [indexMapEntryKey_eq_getElem (by rw [List.length_map]; omega),
    indexMapEntryKey_eq_getElem (by rw [List.length_map]; omega), List.getElem_map, List.getElem_map]

/-- Indexing a map with different keys leaves its entries alone. -/
theorem granted_celMapIndexBuild_of_pairwise (capacity : ℕ) {pairs : List (CelValue × CelValue)}
    (h : pairs.Pairwise fun a b => celMapKeyEq a.1 b.1 = false) :
    ∃ index, (celMapIndexBuild (.mapArena capacity pairs none)).granted
      = .ok (.mapArena capacity pairs index) := by
  rcases Nat.lt_or_ge pairs.length kCelMapIndexThreshold with hsmall | hlarge
  · refine ⟨none, ?_⟩
    rw [celMapIndexBuild, if_pos hsmall]
    rfl
  · obtain ⟨index, hindex⟩ :=
      (granted_celMapIndexBuild capacity pairs none hlarge).1 (distinctKeys_of_pairwise h)
    exact ⟨some index, hindex⟩

/-- With memory to spare the index build comes to an end. -/
theorem granted_celMapIndexBuild_ok (m : CelValue) :
    ∃ v, (celMapIndexBuild m).granted = .ok v := by
  cases m with
  | mapArena capacity pairs index =>
    rcases Nat.lt_or_ge pairs.length kCelMapIndexThreshold with hsmall | hlarge
    · exact ⟨_, by rw [celMapIndexBuild, if_pos hsmall]; rfl⟩
    · obtain ⟨hdistinct, hrepeat⟩ := granted_celMapIndexBuild capacity pairs index hlarge
      by_cases hd : DistinctKeys (pairs.map Prod.fst) pairs.length
      · obtain ⟨built, hbuilt⟩ := hdistinct hd
        exact ⟨_, hbuilt⟩
      · exact ⟨_, hrepeat hd⟩
  | _ => exact ⟨_, rfl⟩

/-- **The index of a map with these keys**: none for a small map, else the one their placement comes
to. -/
def IndexOf (keys : List CelValue) (index : Option MapIndex) : Prop :=
  (keys.length < kCelMapIndexThreshold → index = none) ∧
    (kCelMapIndexThreshold ≤ keys.length → ∃ built, index = some built ∧
      indexPlaceEntries keys (celMapIndexNumSlots keys.length) keys.length = some (some built))

/-- The index build gives a map the index of its keys. -/
theorem granted_celMapIndexBuild_of_indexOf {pairs : List (CelValue × CelValue)}
    {index : Option MapIndex} (h : IndexOf (pairs.map Prod.fst) index) :
    (celMapIndexBuild (.mapArena capacity pairs none)).granted
      = .ok (.mapArena capacity pairs index) := by
  rw [IndexOf, List.length_map] at h
  rw [celMapIndexBuild]
  rcases Nat.lt_or_ge pairs.length kCelMapIndexThreshold with hsmall | hlarge
  · rw [if_pos hsmall, h.1 hsmall]
    rfl
  · obtain ⟨built, rfl, hbuilt⟩ := h.2 hlarge
    rw [if_neg (not_lt.mpr hlarge)]
    change (publishIndex capacity pairs (indexPlaceEntries (pairs.map Prod.fst)
      (celMapIndexNumSlots pairs.length) pairs.length)).granted = _
    rw [hbuilt]
    rfl

theorem celMapIndexBuild_poison (hp : p.isPoison = true) : celMapIndexBuild p = return p := by
  obtain ⟨e, rfl⟩ | ⟨s, rfl⟩ := CelValue.isPoison_iff.mp hp <;> rfl

end Literal

/-! ## Keyed reads -/

/-- An arena map that carries no index, or the index of its keys. -/
def IndexedBy (keys : List CelValue) (index : Option MapIndex) : Prop :=
  index = none ∨ IndexOf keys index

section Reads

variable {cells : List (CelValue × CelValue)} {index : Option MapIndex} {query : CelValue}

/-- An arena map is searched as a scan would search it, indexed or not. -/
theorem granted_arenaMapFind (hindex : IndexedBy (cells.map Prod.fst) index)
    (hkeys : ∀ c ∈ cells, isValidMapKeyKind c.1 = true) (query : CelValue) :
    (arenaMapFind cells index query).granted
      = .ok (cells.findIdx? fun c => celMapKeyEq c.1 query) := by
  have hscan : celMapScan (cells.map Prod.fst) query
      = cells.findIdx? fun c => celMapKeyEq c.1 query := List.findIdx?_map
  have hvalid : ∀ k ∈ cells.map Prod.fst, isValidMapKeyKind k = true := by simpa using hkeys
  rcases hindex with rfl | ⟨hsmall, hlarge⟩
  · rfl
  · rcases Nat.lt_or_ge (cells.map Prod.fst).length kCelMapIndexThreshold with hlt | hge
    · rw [hsmall hlt]
      rfl
    · obtain ⟨built, rfl, hbuilt⟩ := hlarge hge
      rw [arenaMapFind, celMapIndexFind_eq_scan hbuilt hvalid query, hscan]
      rfl

theorem granted_arenaMapEntryVal {i : ℕ} {c : CelValue × CelValue} (h : cells[i]? = some c) :
    (arenaMapEntryVal cells i).granted = .ok c.2 := by
  rw [arenaMapEntryVal, h]
  rfl

/-- **A lookup in an arena map** is the value of the first entry with the key. -/
theorem granted_celMapLookupArena (capacity : ℕ) (hindex : IndexedBy (cells.map Prod.fst) index)
    (hkeys : ∀ c ∈ cells, isValidMapKeyKind c.1 = true) (hquery : query.isPoison = false) :
    (celMapLookupArena (.mapArena capacity cells index) query).granted
      = .ok (((cells.find? fun c => celMapKeyEq c.1 query).map Prod.snd).getD
        (.error .noSuchKey)) := by
  have hlive : (CelValue.mapArena capacity cells index).isPoison = false := rfl
  rw [celMapLookupArena, hquery, hlive, if_neg Bool.false_ne_true, if_neg Bool.false_ne_true,
    Prog.granted_bind, granted_arenaMapFind hindex hkeys query, List.find?_eq_bind_findIdx?_getElem?]
  cases hfound : cells.findIdx? fun c => celMapKeyEq c.1 query with
  | none => rfl
  | some i =>
    obtain ⟨hi, -⟩ := List.findIdx?_eq_some_iff_getElem.mp hfound
    have hget : cells[i]? = some cells[i] := List.getElem?_eq_getElem hi
    change (arenaMapEntryVal cells i).granted = _
    rw [granted_arenaMapEntryVal hget, Option.bind_some, hget]
    rfl

end Reads

end CelWasm
