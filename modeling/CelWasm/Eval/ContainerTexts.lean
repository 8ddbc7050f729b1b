import CelWasm.Eval.Datum
import CelWasm.Eval.FormatStack
import CelWasm.Eval.WellFormedStrings
import CelWasm.Library.TreeText

/-!
# Eval/ContainerTexts — what `%s` writes for a container

    container ──▸ what it denotes ──▸ text

`%s` writes what a container denotes, wherever the containers in it are stored. A list is written
element by element, a map from a table that is keyed by the texts of its keys: `1`, `1u` and `'1'` have
one text, and of the entries with one text the table keeps the one the walk comes to first.
-/

namespace CelWasm

open Filter

/-- Bytes are ordered as numbers. -/
instance uint8LinearOrder : LinearOrder UInt8 where
  le_refl := UInt8.le_refl
  le_trans _ _ _ := UInt8.le_trans
  le_antisymm _ _ := UInt8.le_antisymm
  le_total := UInt8.le_total
  lt_iff_le_not_ge a b := by grind
  toDecidableLE := inferInstance
  toDecidableLT := inferInstance
  toDecidableEq := inferInstance

/-! ## What is written -/

section Notation

variable (absl : AbslFormat)

/-- The canonical text of a scalar; none for what `%s` does not render. -/
def canonicalText : CelValue → Option (List UInt8)
  | .null => some (verbatim "null")
  | .bool b => some (verbatim (if b then "true" else "false"))
  | .int i => some (strCatInt i.toInt)
  | .uint u => some (strCatInt u.toNat)
  | .double d => some (appendDoubleToken d (absl.strCatDouble d))
  | .string s => some s
  | .bytes s => some s
  | .type name => some name
  | .timestamp t => some (appendTimestampCanonical absl t)
  | .duration d => some (appendDurationCanonical d)
  | _ => none

/-- The text of a key. -/
def keyText : Option KeyClass → List UInt8
  | some (.bool b) => verbatim (if b then "true" else "false")
  | some (.integer z) => strCatInt z
  | some (.string s) => s
  | none => []

/-- **The notation of `%s`.** -/
def canonicalNotation : TreeNotation CelValue (Option KeyClass) UInt8 where
  leaf c := (canonicalText absl c).getD []
  key := keyText
  listOpen := [0x5B]
  listClose := [0x5D]
  mapOpen := [0x7B]
  mapClose := [0x7D]
  separator := verbatim ", "
  colon := verbatim ": "
  colon_pos := by decide

/-- A container of the host is of values that have cells, and these fit the memory. -/
def Copyable : CelValue → Prop
  | .listHost elements => elements.length * kCelListEntryStride < 2 ^ 32 ∧
      ∀ e ∈ elements, e.encoded.isSome = true
  | .mapHost entries => entries.length * kCelMapEntryStride < 2 ^ 32 ∧
      ∀ e ∈ entries, e.1.encoded.isSome = true ∧ e.2.encoded.isSome = true
  | _ => True

/-- **A value of scalars that have a canonical text, lists, and maps with keys that are formattable**,
nested to any depth, each container in the arena or behind a handle. -/
inductive Formattable : CelValue → Prop
  | scalar {c : CelValue} {t : List UInt8} (h : canonicalText absl c = some t) : Formattable c
  | list {c : CelValue} (hshape : isListShaped c = true) (hcopy : Copyable c)
    (h : ∀ d ∈ listCells c, Formattable d) : Formattable c
  | map {c : CelValue} (hshape : isMapShaped c = true) (hcopy : Copyable c)
    (hkeys : ∀ e ∈ mapCells c, isFormattableMapKey e.1 = true)
    (h : ∀ e ∈ mapCells c, Formattable e.2) : Formattable c

end Notation

/-! ## Containers as they are walked -/

section Walk

variable {host : CelHost} {c : CelValue}

theorem granted_encodeValue_cell {v : HostValue} (h : v.encoded.isSome = true) :
    (encodeValue v).granted = .ok v.cell := by
  obtain ⟨cell, hcell⟩ := Option.isSome_iff_exists.mp h
  rw [granted_encodeValue_of_encoded hcell, HostValue.cell, hcell]
  rfl

theorem granted_allocArenaList {count : ℕ} (h : count * kCelListEntryStride < 2 ^ 32) :
    (allocArenaList count).granted = .ok true := by
  rw [kCelListEntryStride] at h
  rw [allocArenaList, if_neg (by rw [kCelListEntryStride]; omega)]
  by_cases hzero : count = 0
  · subst hzero
    rfl
  · change (if count = 0 then pure true else Prog.alloc _ : Kernel Bool).granted = _
    rw [if_neg hzero]
    rfl

theorem granted_snapshotHostListToArena {elements : List HostValue}
    (hfit : elements.length * kCelListEntryStride < 2 ^ 32)
    (hcells : ∀ e ∈ elements, e.encoded.isSome = true) :
    (snapshotHostListToArena elements).granted
      = .ok (some (.listArena elements.length (elements.map HostValue.cell))) := by
  have hmap := Prog.granted_mapM_map fun e he => granted_encodeValue_cell (hcells e he)
  rw [snapshotHostListToArena, Prog.granted_bind, granted_allocArenaList hfit]
  change (elements.mapM encodeValue >>= fun cells => pure _).granted = _
  rw [Prog.granted_bind, hmap]
  rfl

/-- **A list is walked element by element**, with memory to spare. -/
theorem granted_celListArenaView (hshape : isListShaped c = true) (hcopy : Copyable c) :
    (celListArenaView host.withSnapshots c).granted = .ok (listCells c) := by
  obtain ⟨capacity, elements, rfl⟩ | ⟨elements, rfl⟩ := isListShaped_iff.mp hshape
  · rfl
  · cases elements with
    | nil => rfl
    | cons e elements =>
      have hsnapshot := granted_snapshotHostListToArena hcopy.1 hcopy.2
      change (((snapshotHostListToArena (e :: elements) >>= _) >>= _ : Kernel _)).granted = _
      rw [Prog.granted_bind, Prog.granted_bind, hsnapshot]
      rfl

theorem granted_snapshotMapEntriesToArena {entries : List (HostValue × HostValue)}
    (hfit : entries.length * kCelMapEntryStride < 2 ^ 32)
    (hcells : ∀ e ∈ entries, e.1.encoded.isSome = true ∧ e.2.encoded.isSome = true) :
    (snapshotMapEntriesToArena entries).granted
      = .ok (some (entries.map fun e => (e.1.cell, e.2.cell))) := by
  have hencode : ∀ e ∈ entries, (encodeEntry e).granted = .ok (e.1.cell, e.2.cell) := by
    intro e he
    obtain ⟨hkey, hvalue⟩ := hcells e he
    rw [encodeEntry, Prog.granted_bind, granted_encodeValue_cell hkey]
    change (encodeValue e.2 >>= _ : Kernel _).granted = _
    rw [Prog.granted_bind, granted_encodeValue_cell hvalue]
    rfl
  have hmap := Prog.granted_mapM_map hencode
  rw [snapshotMapEntriesToArena]
  change ((if _ then _ else _ : Kernel _)).granted = _
  rw [if_neg (not_le.mpr hfit), Prog.granted_bind, hmap]
  rfl

/-- **A copy of a map is of its entries**, with memory to spare. -/
theorem granted_celMapIterOpenImpl {entries : List (HostValue × HostValue)}
    (hcopy : Copyable (.mapHost entries)) :
    (celMapIterOpenImpl (.mapHost entries)).granted = .ok (mapCells (.mapHost entries)) := by
  cases entries with
  | nil => rfl
  | cons e entries =>
    have hsnapshot := granted_snapshotMapEntriesToArena hcopy.1 hcopy.2
    change ((snapshotMapEntriesToArena (e :: entries) >>= _ : Kernel _)).granted = _
    rw [Prog.granted_bind, hsnapshot]
    rfl

/-- **A map is walked entry by entry**, with memory to spare. -/
theorem granted_celMapIterInit (hshape : isMapShaped c = true) (hcopy : Copyable c) :
    (celMapIterInit host.withSnapshots c).granted = .ok (mapCells c) := by
  obtain ⟨capacity, entries, index, rfl⟩ | ⟨entries, rfl⟩ := isMapShaped_iff.mp hshape
  · cases entries <;> rfl
  · exact granted_celMapIterOpenImpl hcopy

end Walk

/-! ## What is walked is what is denoted -/

section Denotation

variable {c : CelValue}

theorem datum_cell {v : HostValue} (h : v.encoded.isSome = true) : v.cell.datum = v.datum := by
  cases v with
  | unknown ids => exact absurd h Bool.false_ne_true
  | type name => exact absurd h Bool.false_ne_true
  | _ => simp [HostValue.cell, HostValue.encoded, CelValue.datum, HostValue.datum]

theorem datum_of_list (hshape : isListShaped c = true) (hcopy : Copyable c) :
    c.datum = .list ((listCells c).map CelValue.datum) := by
  obtain ⟨capacity, elements, rfl⟩ | ⟨elements, rfl⟩ := isListShaped_iff.mp hshape
  · exact CelValue.datum_listArena capacity elements
  · rw [CelValue.datum_listHost, HostValue.datum_list, listCells, List.map_map]
    exact congrArg _ (List.map_congr_left fun e he => (datum_cell (hcopy.2 e he)).symm)

theorem datum_of_map (hshape : isMapShaped c = true) (hcopy : Copyable c) :
    c.datum = .map ((mapCells c).map entryDatum) := by
  obtain ⟨capacity, entries, index, rfl⟩ | ⟨entries, rfl⟩ := isMapShaped_iff.mp hshape
  · exact CelValue.datum_mapArena capacity entries index
  · rw [CelValue.datum_mapHost, HostValue.datum_map, mapCells, List.map_map]
    refine congrArg _ (List.map_congr_left fun e he => ?_)
    obtain ⟨hkey, hvalue⟩ := hcopy.2 e he
    obtain ⟨key, hkey⟩ := Option.isSome_iff_exists.mp hkey
    rw [Function.comp_apply, entryDatum, hostEntryDatum, datum_cell hvalue, hostKeyClass,
      HostValue.cell, hkey]
    rfl

/-- What has a canonical text is a scalar. -/
theorem datum_of_canonicalText {absl : AbslFormat} {t : List UInt8}
    (h : canonicalText absl c = some t) : c.datum = .scalar c := by
  refine CelValue.datum_scalar ?_
  cases c with
  | _ => first | rfl | exact nomatch h

end Denotation

/-! ## The renderer -/

section Render

variable {render : CelValue → Kernel (Option (List UInt8))}

/-- `std::map::emplace` is that of tables. -/
theorem emplace_eq (key value : List UInt8) (t : List (List UInt8 × List UInt8)) :
    emplace key value t = SortedTable.emplace (key, value) t := by
  induction t with
  | nil => rfl
  | cons e rest ih =>
    rw [emplace, SortedTable.emplace, ih]
    split_ifs <;> rfl

theorem granted_renderElements {f : CelValue → List UInt8} {elements : List CelValue}
    (h : ∀ v ∈ elements, (render v).granted = .ok (some (f v))) :
    (renderElements render elements).granted = .ok (some (elements.map f)) := by
  induction elements with
  | nil => rfl
  | cons v rest ih =>
    rw [List.forall_mem_cons] at h
    rw [renderElements, Prog.granted_bind, h.1]
    change (renderElements render rest >>= _ : Kernel _).granted = _
    rw [Prog.granted_bind, ih h.2]
    rfl

/-- **The table of a map's texts.** -/
theorem granted_renderEntries {k v : CelValue × CelValue → List UInt8}
    {entries : List (CelValue × CelValue)}
    (hkeys : ∀ e ∈ entries, isFormattableMapKey e.1 = true)
    (hkey : ∀ e ∈ entries, (render e.1).granted = .ok (some (k e)))
    (hvalue : ∀ e ∈ entries, (render e.2).granted = .ok (some (v e)))
    (sorted : List (List UInt8 × List UInt8)) :
    (renderEntries render entries sorted).granted
      = .ok (some (SortedTable.emplaceAll sorted (entries.map fun e => (k e, v e)))) := by
  induction entries generalizing sorted with
  | nil => rfl
  | cons e rest ih =>
    obtain ⟨key, value⟩ := e
    rw [List.forall_mem_cons] at hkeys hkey hvalue
    rw [renderEntries, hkeys.1]
    change (render key >>= _ : Kernel _).granted = _
    rw [Prog.granted_bind, hkey.1]
    change (render value >>= _ : Kernel _).granted = _
    rw [Prog.granted_bind, hvalue.1]
    change (renderEntries render rest (emplace _ _ sorted)).granted = _
    rw [ih hkeys.2 hkey.2 hvalue.2, emplace_eq]
    rfl

variable {host : CelHost} {absl : AbslFormat} {c : CelValue} {stack : ℕ}

theorem renderString_scalar {t : List UInt8} (h : canonicalText absl c = some t) :
    renderString host absl (stack + 1) c = return some t := by
  cases c with
  | _ => first | exact congrArg _ h | exact nomatch h

theorem renderString_key (h : isFormattableMapKey c = true) :
    renderString host absl (stack + 1) c = return some (keyText (keyClass c)) := by
  cases c with
  | _ => first | rfl | exact absurd h Bool.false_ne_true

theorem renderString_list (h : isListShaped c = true) : renderString host absl (stack + 1) c
    = appendListCanonical (renderString host absl stack) host c := by
  cases c with
  | _ => first | rfl | exact absurd h Bool.false_ne_true

theorem renderString_map (h : isMapShaped c = true) : renderString host absl (stack + 1) c
    = appendMapCanonical (renderString host absl stack) host c := by
  cases c with
  | _ => first | rfl | exact absurd h Bool.false_ne_true

/-- What holds one step later holds in the end. -/
theorem eventually_of_succ {P : ℕ → Prop} (h : ∀ᶠ n in atTop, P (n + 1)) : ∀ᶠ n in atTop, P n := by
  rw [← map_add_atTop_eq_nat 1]
  exact h

/-- **`%s` writes what a value denotes**, with enough stack and memory to spare. -/
theorem granted_renderString (hc : Formattable absl c) : ∀ᶠ stack in atTop,
    (renderString host.withSnapshots absl stack c).granted
      = .ok (some (c.datum.text (canonicalNotation absl))) := by
  induction hc with
  | @scalar c t h =>
    refine eventually_of_succ (.of_forall fun stack => ?_)
    rw [renderString_scalar h, datum_of_canonicalText h, KeyedTree.text]
    change _ = Except.ok (some ((canonicalText absl c).getD []))
    rw [h]
    rfl
  | @list c hshape hcopy h ih =>
    refine eventually_of_succ ?_
    filter_upwards [(eventually_all_finite (listCells c).finite_toSet).mpr ih] with stack hcells
    have helements := granted_renderElements hcells
    rw [renderString_list hshape, appendListCanonical, Prog.granted_bind,
      granted_celListArenaView hshape hcopy]
    change (renderElements _ (listCells c) >>= _ : Kernel _).granted = _
    rw [Prog.granted_bind, helements, datum_of_list hshape hcopy, KeyedTree.text, List.map_map]
    rfl
  | @map c hshape hcopy hkeys h ih =>
    refine eventually_of_succ ?_
    filter_upwards [(eventually_all_finite (mapCells c).finite_toSet).mpr ih, eventually_ge_atTop 1]
      with stack hcells hstack
    obtain ⟨stack, rfl⟩ := Nat.exists_eq_add_of_le' hstack
    have hentries := granted_renderEntries hkeys
      (fun e he => congrArg Prog.granted (@renderString_key host.withSnapshots absl e.1 stack
        (hkeys e he))) hcells []
    rw [renderString_map hshape]
    change (celMapIterInit host.withSnapshots c >>= _ : Kernel _).granted = _
    rw [Prog.granted_bind, granted_celMapIterInit hshape hcopy]
    change (renderEntries _ (mapCells c) [] >>= _ : Kernel _).granted = _
    rw [Prog.granted_bind, hentries, datum_of_map hshape hcopy, KeyedTree.text_map,
      KeyedTree.rowsOf, List.map_map]
    rfl

end Render

/-- **Containers are written whole, whatever the order of their entries and wherever they are stored,
exactly where in no map on the way two keys have one text.** -/
theorem containers_written_iff (host : CelHost) (absl : AbslFormat) (v : CelValue)
    (hv : Formattable absl v) : ∃ text,
      (∀ᶠ stack in atTop, (renderString host.withSnapshots absl stack v).granted = .ok (some text)) ∧
      ((v.datum.Written (canonicalNotation absl) text ∧
          ∀ w, Formattable absl w → SameUpToOrder v w → ∀ᶠ stack in atTop,
            (renderString host.withSnapshots absl stack w).granted = .ok (some text)) ↔
        v.datum.KeysApart (canonicalNotation absl)) := by
  refine ⟨_, granted_renderString hv, fun h => KeyedTree.written_text_iff.mp h.1, fun hapart => ?_⟩
  refine ⟨KeyedTree.written_text_iff.mpr hapart, fun w hw hsame => ?_⟩
  rw [KeyedTree.text_eq_of_matches hapart hsame]
  exact granted_renderString hw

/-! ## Two keys of one text -/

/-- `1: 'a'`. -/
def intEntry : CelValue × CelValue := (.int 1, .string (verbatim "a"))

/-- `'1': 'b'`. -/
def textEntry : CelValue × CelValue := (.string (verbatim "1"), .string (verbatim "b"))

/-- **Of two entries one is lost, and which one depends on their order.** -/
theorem map_loses_entry :
    (renderString CelHost.stubs.withSnapshots .ofZero 2 (.mapArena 2 [intEntry, textEntry] none)).granted
      = .ok (some (verbatim "{1: a}")) ∧
    (renderString CelHost.stubs.withSnapshots .ofZero 2 (.mapArena 2 [textEntry, intEntry] none)).granted
      = .ok (some (verbatim "{1: b}")) ∧
    SameUpToOrder (.mapArena 2 [intEntry, textEntry] none) (.mapArena 2 [textEntry, intEntry] none) ∧
    ¬ (CelValue.mapArena 2 [intEntry, textEntry] none).datum.Written (canonicalNotation .ofZero)
      (verbatim "{1: a}") := by
  refine ⟨rfl, rfl, sameUpToOrder_mapArena (.swap _ _ []) 2 2 none none, fun h => ?_⟩
  have hlength := h.length_eq
  have hscalar : ∀ s, (CelValue.string s).datum = .scalar (.string s) :=
    fun s => CelValue.datum_scalar rfl
  simp only [CelValue.datum_mapArena, KeyedTree.fullLength, List.map_cons, List.map_nil, entryDatum,
    intEntry, textEntry, hscalar] at hlength
  exact absurd hlength (by decide)

/-- `{'b': {2: 'x', '1': 7}, 'a': 3}`, in the arena but for the inner map. -/
def arenaNested : CelValue :=
  .mapArena 2 [(.string (verbatim "b"), .mapHost [(.int 2, .string (verbatim "x")),
    (.string (verbatim "1"), .int 7)]), (.string (verbatim "a"), .int 3)] none

/-- The same behind a handle, its entries in another order. -/
def hostNested : CelValue :=
  .mapHost [(.string (verbatim "a"), .int 3), (.string (verbatim "b"),
    .map [(.string (verbatim "1"), .int 7), (.int 2, .string (verbatim "x"))])]

/-- Both are written whole, by one text. -/
theorem containers_written_nested : ∃ text,
    arenaNested.datum.Written (canonicalNotation .ofZero) text ∧
    (∀ᶠ stack in atTop, (renderString CelHost.stubs.withSnapshots .ofZero stack arenaNested).granted
      = .ok (some text)) ∧
    ∀ᶠ stack in atTop, (renderString CelHost.stubs.withSnapshots .ofZero stack hostNested).granted
      = .ok (some text) := by
  have hinner : ∀ entries : List (HostValue × HostValue),
      (∀ e ∈ entries, isFormattableMapKey e.1.cell = true ∧
        ∃ t, canonicalText .ofZero e.2.cell = some t) → Copyable (.mapHost entries) →
      Formattable .ofZero (.mapHost entries) := by
    intro entries h hcopy
    refine .map rfl hcopy (List.forall_mem_map.mpr fun e he => (h e he).1)
      (List.forall_mem_map.mpr fun e he => ?_)
    obtain ⟨t, ht⟩ := (h e he).2
    exact .scalar ht
  have harena : Formattable .ofZero arenaNested := by
    refine .map rfl trivial (by simp [arenaNested, mapCells, isFormattableMapKey]) ?_
    refine List.forall_mem_cons.mpr ⟨hinner _ ?_ ?_, List.forall_mem_singleton.mpr (.scalar rfl)⟩
    · simp [HostValue.cell, HostValue.encoded, isFormattableMapKey, canonicalText]
    · exact ⟨by decide, by simp [HostValue.encoded]⟩
  have hhost : Formattable .ofZero hostNested := by
    refine .map rfl ⟨by decide, by simp [HostValue.encoded]⟩
      (by simp [hostNested, mapCells, HostValue.cell, HostValue.encoded, isFormattableMapKey]) ?_
    refine List.forall_mem_cons.mpr ⟨.scalar rfl, List.forall_mem_singleton.mpr (hinner _ ?_ ?_)⟩
    · simp [HostValue.cell, HostValue.encoded, isFormattableMapKey, canonicalText]
    · exact ⟨by decide, by simp [HostValue.encoded]⟩
  have hsame : SameUpToOrder arenaNested hostNested := by
    simp [SameUpToOrder, arenaNested, hostNested, CelValue.datum, HostValue.datum,
      KeyedTree.map_matches_map, keyClass, hostKeyClass, HostValue.encoded]
  have hapart : arenaNested.datum.KeysApart (canonicalNotation .ofZero) := by
    have houter : verbatim "b" ≠ verbatim "a" := by decide
    have hinner : strCatInt 2 ≠ verbatim "1" := by decide
    simp [arenaNested, CelValue.datum, HostValue.datum, KeyedTree.KeysApart, keyClass, hostKeyClass,
      HostValue.encoded, canonicalNotation, keyText, houter, hinner]
  obtain ⟨text, htext, hiff⟩ := containers_written_iff .stubs .ofZero arenaNested harena
  obtain ⟨hwritten, hevery⟩ := hiff.mpr hapart
  exact ⟨text, hwritten, htext, hevery hostNested hhost hsame⟩

end CelWasm
