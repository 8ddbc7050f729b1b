import CelWasm.Compiler.EntryMerge

/-!
# Compiler/OptionalEntries — map literals with `?k: v` entries

A plain entry goes through the insert that refuses a key it has already seen, an optional entry that
has a value through the insert that overwrites. So a literal reports the keys that plain entries
repeat, and those that optional entries repeat only if a plain entry does the same.
-/

namespace CelWasm

variable {α : Type}

/-- What a literal should hold of an entry: whether it is optional, its key and its value. An
optional entry of none is not there. -/
def presentEntry (val : Valuation α) (entry : Bool × Expr α × Expr α) :
    Option (Bool × CelValue × CelValue) :=
  if entry.1 then
    match val entry.2.2 with
    | .optional (some held) => some (true, val entry.2.1, held)
    | _ => none
  else some (false, val entry.2.1, val entry.2.2)

/-- The entries that are present, in the order they are written. -/
def presentEntries (val : Valuation α) (entries : List (Bool × Expr α × Expr α)) :
    List (Bool × CelValue × CelValue) := entries.filterMap (presentEntry val)

/-- **No entry of one kind repeats an earlier key**, whatever kind the earlier entry is of. -/
def FreshEntries (optional : Bool) (present : List (Bool × CelValue × CelValue)) : Prop :=
  present.Pairwise fun a b => b.1 = optional → celMapKeyEq a.2.1 b.2.1 = false

/-- The operands of an entry are in order: the key is of a legal kind, a plain value is no poison,
and an optional value is an optional that holds none. -/
def OperandsInOrder (val : Valuation α) (entry : Bool × Expr α × Expr α) : Prop :=
  isValidMapKeyKind (val entry.2.1) = true ∧
    if entry.1 then ∃ held, val entry.2.2 = .optional held ∧ ∀ v ∈ held, v.isPoison = false
    else (val entry.2.2).isPoison = false

theorem spoil_eq_none {key value : CelValue} (hkey : isValidMapKeyKind key = true)
    (hvalue : value.isPoison = false) : spoil key value = none := by
  have hlive : key.isPoison = false := by cases key <;> first | rfl | exact nomatch hkey
  simp [spoil, hlive, hvalue, hkey]

/-! ## Inserting over a key -/

section Overwrite

variable {capacity : ℕ} {done : List (CelValue × CelValue)} {key value : CelValue}

/-- Overwriting leaves the keys as they were. -/
theorem overwriteValue_keys {done' : List (CelValue × CelValue)}
    (h : overwriteValue done key value = some done') :
    done'.map Prod.fst = done.map Prod.fst := by
  obtain ⟨i, -, rfl⟩ := Option.map_eq_some_iff.mp h
  refine List.ext_getElem (by simp) fun j hj hj' => ?_
  rw [List.getElem_map, List.getElem_map, List.getElem_modify]
  split <;> rfl

/-- **The overwriting insert** into a map with room: a key that is there keeps its place, a new one is
appended. -/
theorem celMapInsertAt_of_room (hspoil : spoil key value = none) (hroom : done.length < capacity) :
    ((∀ e ∈ done, celMapKeyEq e.1 key = false) ∧
      celMapInsertAt (.mapArena capacity done none) key value
        = return .mapArena capacity (done ++ [(key, value)]) none) ∨
    (¬(∀ e ∈ done, celMapKeyEq e.1 key = false) ∧ ∃ done',
      done'.map Prod.fst = done.map Prod.fst ∧
      celMapInsertAt (.mapArena capacity done none) key value
        = return .mapArena capacity done' none) := by
  unfold spoil at hspoil
  split_ifs at hspoil with hkey hvalue hvalid
  change (_ ∧ mapInsertAtKernel capacity done none key value false = _)
    ∨ (_ ∧ ∃ done', _ ∧ mapInsertAtKernel capacity done none key value false = _)
  unfold mapInsertAtKernel
  rw [if_neg hkey, if_neg hvalue, if_neg hvalid]
  cases hover : overwriteValue done key value with
  | none =>
    refine .inl ⟨?_, if_pos hroom⟩
    exact List.findIdx?_eq_none_iff.mp (Option.map_eq_none_iff.mp hover)
  | some done' =>
    refine .inr ⟨fun hfresh => ?_, done', overwriteValue_keys hover, rfl⟩
    rw [overwriteValue, List.findIdx?_eq_none_iff.mpr hfresh] at hover
    exact nomatch hover

end Overwrite

/-! ## The literal entry by entry -/

/-- **What a literal holds** once some entries have been inserted: each of their keys once, and with
no key repeated the very entries. -/
structure Inserted (seen : List (Bool × CelValue × CelValue)) (done : List (CelValue × CelValue)) :
    Prop where
  /-- No key twice. -/
  distinct : done.Pairwise fun a b => celMapKeyEq a.1 b.1 = false
  valid : ∀ e ∈ done, isValidMapKeyKind e.1 = true
  /-- The keys the literal knows are those that were seen. -/
  classes : ∀ c, (∃ e ∈ done, keyClass e.1 = c) ↔ ∃ e ∈ seen, keyClass e.2.1 = c
  /-- Nothing is overwritten unless an optional entry repeats a key. -/
  exact : FreshEntries true seen → done = seen.map Prod.snd
  length_le : done.length ≤ seen.length

theorem inserted_nil : Inserted [] [] :=
  ⟨List.Pairwise.nil, nofun, fun _ => by simp, fun _ => rfl, le_rfl⟩

section Insert

variable {seen : List (Bool × CelValue × CelValue)} {done : List (CelValue × CelValue)}
  {optional : Bool} {key value : CelValue}

/-- A key is new to the literal just when no entry seen so far has it. -/
theorem Inserted.fresh_iff (h : Inserted seen done)
    (hseen : ∀ e ∈ seen, isValidMapKeyKind e.2.1 = true) :
    (∀ e ∈ done, celMapKeyEq e.1 key = false) ↔ ∀ e ∈ seen, celMapKeyEq e.2.1 key = false := by
  have hclass := h.classes (keyClass key)
  rw [← not_iff_not] at hclass
  push Not at hclass
  refine Iff.trans (forall₂_congr fun e he => ?_) (hclass.trans (forall₂_congr fun e he => ?_))
  · rw [← Bool.not_eq_true, celMapKeyEq_iff (h.valid e he)]
  · rw [← Bool.not_eq_true, celMapKeyEq_iff (hseen e he)]

theorem freshEntries_concat : FreshEntries optional (seen ++ [(optional, key, value)]) ↔
    FreshEntries optional seen ∧ ∀ e ∈ seen, celMapKeyEq e.2.1 key = false := by
  rw [FreshEntries, List.pairwise_append]
  simp [FreshEntries]

theorem freshEntries_concat_other {other : Bool} (hother : optional ≠ other) :
    FreshEntries other (seen ++ [(optional, key, value)]) ↔ FreshEntries other seen := by
  rw [FreshEntries, List.pairwise_append]
  simp [FreshEntries, hother]

/-- A key of its own is appended. -/
theorem Inserted.append (h : Inserted seen done) (hkey : isValidMapKeyKind key = true)
    (hfresh : ∀ e ∈ done, celMapKeyEq e.1 key = false) :
    Inserted (seen ++ [(optional, key, value)]) (done ++ [(key, value)]) where
  distinct := List.pairwise_append.mpr ⟨h.distinct, List.pairwise_singleton _ _, fun a ha b hb => by
    obtain rfl := List.mem_singleton.mp hb
    exact hfresh a ha⟩
  valid := by
    intro e he
    rcases List.mem_append.mp he with he | he
    · exact h.valid e he
    · obtain rfl := List.mem_singleton.mp he
      exact hkey
  classes c := by
    have := h.classes c
    simp only [List.mem_append, List.mem_singleton, or_and_right, exists_or, exists_eq_left, this]
  exact hopt := by
    have hseen : FreshEntries true seen := (List.pairwise_append.mp hopt).1
    rw [h.exact hseen, List.map_append]
    rfl
  length_le := by
    have := h.length_le
    simp only [List.length_append, List.length_singleton]
    omega

/-- An optional entry takes the place of the one whose key it repeats. -/
theorem Inserted.overwrite {done' : List (CelValue × CelValue)} (h : Inserted seen done)
    (hseen : ∀ e ∈ seen, isValidMapKeyKind e.2.1 = true)
    (htaken : ¬∀ e ∈ done, celMapKeyEq e.1 key = false)
    (hkeys : done'.map Prod.fst = done.map Prod.fst) :
    Inserted (seen ++ [(true, key, value)]) done' := by
  have hmem : ∀ {P : CelValue → Prop}, (∃ e ∈ done', P e.1) ↔ ∃ e ∈ done, P e.1 := by
    intro P
    have := congrArg (fun keys : List CelValue => ∃ k ∈ keys, P k) hkeys
    simpa using this
  refine ⟨?_, ?_, fun c => ?_, fun hfresh => ?_, ?_⟩
  · have hmap : (done.map Prod.fst).Pairwise fun a b => celMapKeyEq a b = false :=
      List.pairwise_map.mpr h.distinct
    exact List.pairwise_map.mp (hkeys ▸ hmap)
  · intro e he
    have hin : e.1 ∈ done.map Prod.fst := hkeys ▸ List.mem_map_of_mem he
    obtain ⟨e', he', hfst⟩ := List.mem_map.mp hin
    exact hfst ▸ h.valid e' he'
  · rw [@hmem fun k => keyClass k = c, h.classes c]
    refine ⟨fun ⟨e, he, hc⟩ => ⟨e, List.mem_append_left _ he, hc⟩, fun ⟨e, he, hc⟩ => ?_⟩
    rcases List.mem_append.mp he with he | he
    · exact ⟨e, he, hc⟩
    · obtain rfl := List.mem_singleton.mp he
      push Not at htaken
      obtain ⟨e', he', heq⟩ := htaken
      rw [ne_eq, Bool.not_eq_false, celMapKeyEq_iff (h.valid e' he')] at heq
      exact (h.classes c).mp ⟨e', he', heq.trans hc⟩
  · exact absurd ((h.fresh_iff hseen).mpr (freshEntries_concat.mp hfresh).2) htaken
  · have hlength := congrArg List.length hkeys
    have := h.length_le
    simp only [List.length_map] at hlength
    simp only [List.length_append, List.length_singleton]
    omega

end Insert

section Step

variable {val : Valuation α} {capacity : ℕ} {seen : List (Bool × CelValue × CelValue)}
  {done : List (CelValue × CelValue)} {entry : Bool × Expr α × Expr α}

/-- An optional entry of none leaves the literal alone. -/
theorem insertLiteralEntry_absent (hentry : OperandsInOrder val entry)
    (habsent : presentEntry val entry = none) :
    insertLiteralEntry val (.mapArena capacity done none) entry
      = return .mapArena capacity done none := by
  obtain ⟨_ | _, key, value⟩ := entry
  · exact nomatch habsent
  · obtain ⟨-, held, hopt, -⟩ := hentry
    replace hopt : val value = .optional held := hopt
    simp only [presentEntry, hopt, if_true] at habsent
    cases held with
    | some v => exact nomatch habsent
    | none =>
      change ifPresent _ (val value) _ = _
      rw [hopt]
      rfl

/-- **One entry of a literal**: a plain entry that repeats a key is an error, and any other is
inserted. -/
theorem insertLiteralEntry_present {present : Bool × CelValue × CelValue} (h : Inserted seen done)
    (hseen : ∀ e ∈ seen, isValidMapKeyKind e.2.1 = true) (hroom : seen.length < capacity)
    (hentry : OperandsInOrder val entry) (hpresent : presentEntry val entry = some present) :
    (FreshEntries false seen → ¬FreshEntries false (seen ++ [present]) →
      insertLiteralEntry val (.mapArena capacity done none) entry
        = return .error .duplicateKey) ∧
    (FreshEntries false (seen ++ [present]) → ∃ done', Inserted (seen ++ [present]) done' ∧
      insertLiteralEntry val (.mapArena capacity done none) entry
        = return .mapArena capacity done' none) := by
  have hroom' : done.length < capacity := h.length_le.trans_lt hroom
  obtain ⟨_ | _, key, value⟩ := entry
  · obtain ⟨hkey, hvalue⟩ := hentry
    replace hvalue : (val value).isPoison = false := hvalue
    obtain rfl := Option.some.inj hpresent
    have hspoil := spoil_eq_none hkey hvalue
    refine ⟨fun hplain hrepeat => congrArg pure (celMapInsert_of_taken hspoil fun hfresh => ?_),
      fun hplain => ?_⟩
    · exact hrepeat (freshEntries_concat.mpr ⟨hplain, (h.fresh_iff hseen).mp hfresh⟩)
    · have hfresh := (h.fresh_iff hseen).mpr (freshEntries_concat.mp hplain).2
      exact ⟨_, h.append hkey hfresh, congrArg pure (celMapInsert_of_fresh hspoil hfresh hroom')⟩
  · obtain ⟨hkey, held, hopt, hheld⟩ := hentry
    replace hopt : val value = .optional held := hopt
    simp only [presentEntry, hopt, if_true] at hpresent
    cases held with
    | none => exact nomatch hpresent
    | some v =>
      obtain rfl := Option.some.inj hpresent
      have hinsert : insertLiteralEntry val (.mapArena capacity done none) (true, key, value)
          = celMapInsertAt (.mapArena capacity done none) (val key) v := by
        change ifPresent _ (val value) _ = _
        rw [hopt]
        rfl
      rw [hinsert]
      refine ⟨fun hplain hrepeat => ?_, fun _ => ?_⟩
      · exact absurd ((freshEntries_concat_other (by decide)).mpr hplain) hrepeat
      · obtain ⟨hfresh, hinsert⟩ | ⟨htaken, done', hkeys, hinsert⟩ :=
          celMapInsertAt_of_room (spoil_eq_none hkey (hheld v rfl)) hroom'
        · exact ⟨_, h.append hkey hfresh, hinsert⟩
        · exact ⟨_, h.overwrite hseen htaken hkeys, hinsert⟩

theorem isValidMapKeyKind_present {present : Bool × CelValue × CelValue}
    (hentry : OperandsInOrder val entry) (hpresent : presentEntry val entry = some present) :
    isValidMapKeyKind present.2.1 = true := by
  unfold presentEntry at hpresent
  split at hpresent
  · split at hpresent
    · exact Option.some.inj hpresent ▸ hentry.1
    · exact nomatch hpresent
  · exact Option.some.inj hpresent ▸ hentry.1

end Step

/-- **A run of entries**: the first plain entry that repeats a key makes the literal an error, and
until then all of them are inserted. -/
theorem foldlM_insertLiteralEntry_inserted {val : Valuation α} {capacity : ℕ} :
    ∀ (entries : List (Bool × Expr α × Expr α)) (seen : List (Bool × CelValue × CelValue))
      (done : List (CelValue × CelValue)), Inserted seen done →
      (∀ e ∈ seen, isValidMapKeyKind e.2.1 = true) → seen.length + entries.length ≤ capacity →
      (∀ e ∈ entries, OperandsInOrder val e) → FreshEntries false seen →
      (¬FreshEntries false (seen ++ presentEntries val entries) →
        entries.foldlM (insertLiteralEntry val) (.mapArena capacity done none)
          = return .error .duplicateKey) ∧
      (FreshEntries false (seen ++ presentEntries val entries) → ∃ done',
        Inserted (seen ++ presentEntries val entries) done' ∧
        entries.foldlM (insertLiteralEntry val) (.mapArena capacity done none)
          = return .mapArena capacity done' none)
  | [], seen, done, h, _, _, _, hplain => by
    rw [presentEntries, List.filterMap_nil, List.append_nil]
    exact ⟨fun hrepeat => absurd hplain hrepeat, fun _ => ⟨done, h, rfl⟩⟩
  | entry :: entries, seen, done, h, hseen, hroom, hentries, hplain => by
    have hentry := hentries entry List.mem_cons_self
    have hrest : ∀ e ∈ entries, OperandsInOrder val e :=
      fun e he => hentries e (List.mem_cons_of_mem _ he)
    rw [List.length_cons] at hroom
    rw [List.foldlM_cons, presentEntries]
    cases hpresent : presentEntry val entry with
    | none =>
      have hroom' : seen.length + entries.length ≤ capacity := by omega
      rw [List.filterMap_cons_none hpresent, insertLiteralEntry_absent hentry hpresent, pure_bind]
      exact foldlM_insertLiteralEntry_inserted entries seen done h hseen hroom' hrest hplain
    | some present =>
      rw [List.filterMap_cons_some hpresent, ← List.singleton_append, ← List.append_assoc]
      have hroom' : seen.length < capacity := by omega
      obtain ⟨hrepeated, hinserted⟩ :=
        insertLiteralEntry_present h hseen hroom' hentry hpresent
      by_cases hfresh : FreshEntries false (seen ++ [present])
      · obtain ⟨done', h', hinsert⟩ := hinserted hfresh
        rw [hinsert, pure_bind]
        refine foldlM_insertLiteralEntry_inserted entries _ done' h' ?_ ?_ hrest hfresh
        · intro e he
          rcases List.mem_append.mp he with he | he
          · exact hseen e he
          · exact List.mem_singleton.mp he ▸ isValidMapKeyKind_present hentry hpresent
        · rw [List.length_append, List.length_singleton]
          omega
      · rw [hrepeated hplain hfresh, pure_bind, foldlM_insertLiteralEntry_poison rfl]
        refine ⟨fun _ => rfl, fun hall => absurd ?_ hfresh⟩
        exact (List.pairwise_append.mp hall).1

/-! ## The whole literal -/

/-- The keys and values a literal should hold. -/
def presentPairs (val : Valuation α) (entries : List (Bool × Expr α × Expr α)) :
    List (CelValue × CelValue) := (presentEntries val entries).map Prod.snd

section Literal

variable {val : Valuation α} {entries : List (Bool × Expr α × Expr α)}

/-- **What a literal with optional entries comes to**: an error if a plain entry repeats a key, and
else a map with every key once. -/
theorem granted_mapLiteral_present (hentries : ∀ e ∈ entries, OperandsInOrder val e)
    (hfit : entries.length * kCelMapEntryStride ≤ 2 ^ 32 - 8) :
    (¬FreshEntries false (presentEntries val entries) →
      (mapLiteral val entries).granted = .ok (.error .duplicateKey)) ∧
    (FreshEntries false (presentEntries val entries) → ∃ done index,
      Inserted (presentEntries val entries) done ∧
      (mapLiteral val entries).granted = .ok (.mapArena entries.length done index)) := by
  obtain ⟨hrepeated, hinserted⟩ := @foldlM_insertLiteralEntry_inserted _ val entries.length entries
    [] [] inserted_nil nofun (by simp) hentries List.Pairwise.nil
  rw [List.nil_append] at hrepeated hinserted
  rw [mapLiteral_eq, Prog.granted_bind, granted_celMapCreate, if_pos hfit]
  change (_ → (entries.foldlM _ _ >>= celMapIndexBuild).granted = _)
    ∧ (_ → ∃ done index, _ ∧ (entries.foldlM _ _ >>= celMapIndexBuild).granted = _)
  refine ⟨fun hrepeat => ?_, fun hfresh => ?_⟩
  · rw [hrepeated hrepeat]
    rfl
  · obtain ⟨done, hdone, hfold⟩ := hinserted hfresh
    obtain ⟨index, hindex⟩ :=
      granted_celMapIndexBuild_of_pairwise entries.length hdone.distinct
    exact ⟨done, index, hdone, by rw [hfold, pure_bind, hindex]⟩

/-- Two present entries have equal keys just when an entry of one kind or the other repeats an
earlier key. -/
theorem not_repeatsKey_presentPairs : ¬RepeatsKey (presentPairs val entries) ↔
    FreshEntries true (presentEntries val entries) ∧
      FreshEntries false (presentEntries val entries) := by
  have hpairwise : ¬RepeatsKey (presentPairs val entries) ↔
      (presentPairs val entries).Pairwise fun a b => celMapKeyEq a.1 b.1 = false := by
    rw [← not_distinctKeys_iff, not_not]
    refine ⟨fun hdistinct => List.pairwise_iff_getElem.mpr fun a b ha hb hab => ?_,
      distinctKeys_of_pairwise⟩
    have hkeys := hdistinct a b hab hb
    rwa [indexMapEntryKey_eq_getElem (by rw [List.length_map]; omega),
      indexMapEntryKey_eq_getElem (by rw [List.length_map]; omega), List.getElem_map,
      List.getElem_map] at hkeys
  rw [hpairwise, presentPairs, List.pairwise_map, FreshEntries, FreshEntries, ← List.pairwise_and_iff]
  refine ⟨fun h => h.imp fun hab => ⟨fun _ => hab, fun _ => hab⟩, fun h => h.imp ?_⟩
  rintro a ⟨_ | _, b⟩ ⟨hoptional, hplain⟩
  · exact hplain rfl
  · exact hoptional rfl

/-- **A literal reports its repeated keys** — an error if two present entries have equal keys, and
else the map of exactly the present entries — if and only if no optional entry repeats a key, or a
plain entry does so too. -/
theorem mapLiteral_reports_iff (hentries : ∀ e ∈ entries, OperandsInOrder val e)
    (hfit : entries.length * kCelMapEntryStride ≤ 2 ^ 32 - 8) :
    (((mapLiteral val entries).granted = .ok (.error .duplicateKey) ↔
        RepeatsKey (presentPairs val entries)) ∧
      (¬RepeatsKey (presentPairs val entries) → ∃ index,
        (mapLiteral val entries).granted
          = .ok (.mapArena entries.length (presentPairs val entries) index))) ↔
    (FreshEntries false (presentEntries val entries) →
      FreshEntries true (presentEntries val entries)) := by
  obtain ⟨hrepeated, hinserted⟩ := granted_mapLiteral_present hentries hfit
  have hkeys := @not_repeatsKey_presentPairs _ val entries
  constructor
  · intro ⟨hreports, _⟩ hplain
    obtain ⟨done, index, -, hmap⟩ := hinserted hplain
    by_contra hoptional
    have hrepeat : RepeatsKey (presentPairs val entries) :=
      not_not.mp fun h => hoptional (hkeys.mp h).1
    rw [hmap] at hreports
    exact nomatch Except.ok.inj (hreports.mpr hrepeat)
  · intro hcondition
    refine ⟨⟨fun herror => ?_, fun hrepeat => hrepeated fun hplain => ?_⟩, fun hnone => ?_⟩
    · by_contra hnone
      obtain ⟨done, index, -, hmap⟩ := hinserted (hkeys.mp hnone).2
      rw [hmap] at herror
      exact nomatch Except.ok.inj herror
    · exact hkeys.mpr ⟨hcondition hplain, hplain⟩ hrepeat
    · obtain ⟨hoptional, hplain⟩ := hkeys.mp hnone
      obtain ⟨done, index, hdone, hmap⟩ := hinserted hplain
      exact ⟨index, by rw [hmap, hdone.exact hoptional, presentPairs]⟩

end Literal

/-- `{1: 'a', ?k: optional.of('b')}`. -/
def mixedEntries (k : Constant) : List (Bool × Expr Unit × Expr Unit) :=
  [(false, .const () (.int 1), .const () (.string [97])),
    (true, .const () k, .call () "optional.of" false [.const () (.string [98])])]

/-- The constants for themselves, and the call for the optional it makes. -/
def mixedValuation : Valuation Unit
  | .const _ c => c.value
  | .call _ _ _ [.const _ c] => .optional (some c.value)
  | _ => .null

/-- Keys 1 and 2: the map of both. -/
theorem mapLiteral_reports_distinct : ∃ index,
    (mapLiteral mixedValuation (mixedEntries (.int 2))).granted
      = .ok (.mapArena 2 (presentPairs mixedValuation (mixedEntries (.int 2))) index) := by
  have hentries : ∀ e ∈ mixedEntries (.int 2), OperandsInOrder mixedValuation e := by
    intro e he
    simp only [mixedEntries, List.mem_cons, List.not_mem_nil, or_false] at he
    rcases he with rfl | rfl
    · exact ⟨rfl, rfl⟩
    · exact ⟨rfl, some (.string [98]), rfl, fun v hv => Option.mem_some.mp hv ▸ rfl⟩
  have hfresh : ∀ optional,
      FreshEntries optional (presentEntries mixedValuation (mixedEntries (.int 2))) := by
    unfold FreshEntries
    decide
  exact ((mapLiteral_reports_iff hentries (by decide)).mpr fun _ => hfresh true).2
    (not_repeatsKey_presentPairs.mpr ⟨hfresh true, hfresh false⟩)

/-- Keys 1 and 1: the optional entry takes the place of the plain one. -/
theorem mapLiteral_hides_optional_repeat :
    RepeatsKey (presentPairs mixedValuation (mixedEntries (.int 1))) ∧
    (mapLiteral mixedValuation (mixedEntries (.int 1))).granted
      = .ok (.mapArena 2 [(.int 1, .string [98])] none) ∧
    ¬((mapLiteral mixedValuation (mixedEntries (.int 1))).granted = .ok (.error .duplicateKey) ↔
      RepeatsKey (presentPairs mixedValuation (mixedEntries (.int 1)))) := by
  have hrepeat : RepeatsKey (presentPairs mixedValuation (mixedEntries (.int 1))) :=
    ⟨0, 1, by decide, by decide, by decide⟩
  have hmap : (mapLiteral mixedValuation (mixedEntries (.int 1))).granted
      = .ok (.mapArena 2 [(.int 1, .string [98])] none) := rfl
  refine ⟨hrepeat, hmap, fun hreports => ?_⟩
  rw [hmap] at hreports
  exact nomatch Except.ok.inj (hreports.mpr hrepeat)

end CelWasm
