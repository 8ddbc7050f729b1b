import CelWasm.Runtime.Dispatch
import CelWasm.Runtime.SlotStrings

/-!
# Runtime/SlotContainers — lists, maps, equality and optionals on cells

What these kernels walk is in the arena, and so is the cell an element's verdict goes to; the operands
they look at again on the way are still there, as the result is written once the walk is over. A
host import reads both operands before it writes. `!=` is the one kernel that looks at its
result: it flips what `==` has left there.
-/

namespace CelWasm

open CellProg

/-! ## Walks -/

/-- `k == CEL_UNKNOWN || k == CEL_ERROR`. -/
def isPoisonTag (k : CelKind) : Bool := k = .unknown || k = .error

/-- The test of a cell's kind is the test of its value. -/
theorem isPoisonTag_kind (v : CelValue) : isPoisonTag v.kind = v.isPoison := by cases v <;> rfl

/-- A call of an import with two operands. -/
def hostCallAt (call : CelValue → CelValue → Kernel CelValue) (out a b : Slot) :
    SlotKernel Unit := do
  let va ← load a
  let vb ← load b
  store out (← liftM (call va vb))

/-- **A call of an import** computes what the import does, as the host reads both operands before it
writes. -/
theorem computes_hostCallAt (call : CelValue → CelValue → Kernel CelValue) (a b : Slot) :
    Computes (hostCallAt call · a b) fun cells => call (cells a) (cells b) :=
  .congr (.read (reads_load a) fun _ => .read (reads_load b) fun _ => .read (reads_lift _) fun _ =>
    computes_store _) fun _ => by simp only [pure_bind, bind_pure]

/-- `cel_list_at_arena`. -/
def celListAtArenaAt (out list index : Slot) : SlotKernel Unit := do
  if isPoisonTag (← loadKind index) then
    copyAt out index
    return
  if isPoisonTag (← loadKind list) then
    copyAt out list
    return
  match decodeListIndex (← load index) with
  | .error e => poisonAt out e
  | .ok i =>
    let elements ← payload CelValue.listArena? list
    if i < 0 || elements.length ≤ i.toInt.toNat then poisonAt out .indexOutOfBounds
    else store out (elements.getD i.toInt.toNat .null)

/-- **The element at an index**: the list is read again once the index is decoded, and nothing has
been written by then. -/
theorem computes_celListAtArenaAt (list index : Slot) : Computes (celListAtArenaAt · list index)
    fun cells => celListAtArena (cells list) (cells index) := by
  refine .congr (.read (reads_loadKind index) fun _ => .ite (computes_copyAt index) <|
    .read (reads_loadKind list) fun _ => .ite (computes_copyAt list) <|
      .read (K := fun v cells => match decodeListIndex v with
          | .error e => pure (.error e)
          | .ok i => (cells list).listArena?.elim (Prog.stop .wildRead) pure >>= fun elements =>
            if i < 0 || elements.length ≤ i.toInt.toNat then pure (.error .indexOutOfBounds)
            else pure (elements.getD i.toInt.toNat .null))
        (reads_load index) fun v => by
          cases decodeListIndex v with
          | error e => exact computes_store _
          | ok i =>
            exact .read (reads_payload _ list) fun _ => .ite (computes_store _) (computes_store _))
    fun cells => ?_
  generalize cells index = vi
  generalize cells list = vl
  simp only [pure_bind, isPoisonTag_kind, celListAtArena]
  refine ite_congr rfl (fun _ => rfl) fun _ => ite_congr rfl (fun _ => rfl) fun _ => ?_
  cases decodeListIndex vi with
  | error e => rfl
  | ok i =>
    cases vl with
    | listArena capacity elements =>
      simp only [CelValue.listArena?, Option.elim, pure_bind, Bool.or_eq_true, decide_eq_true_eq]
      by_cases hneg : i < 0
      · simp [hneg]
      · by_cases hlen : elements.length ≤ i.toInt.toNat
        · rw [if_pos (.inr hlen), if_neg hneg, List.getElem?_eq_none hlen]
        · have hlt := not_le.mp hlen
          rw [if_neg (by tauto), if_neg hneg, List.getD_eq_getElem?_getD,
            List.getElem?_eq_getElem hlt]
          rfl
    | _ => rfl

/-- `cel_list_concat_arena`. -/
def celListConcatArenaAt (out a b : Slot) : SlotKernel Unit := do
  if ← absorb3vlBinaryAt out a b then return
  if ← requireKindsAt .listArena out a b then return
  let xs ← payload CelValue.listArena? a
  let ys ← payload CelValue.listArena? b
  if 2 ^ 32 - 1 - xs.length < ys.length then poisonAt out .overflow
  else if ← liftM (allocRun 16 kCelListEntryStride (xs.length + ys.length) : Kernel Bool) then
    store out (.listArena (xs.length + ys.length) (xs ++ ys))
  else poisonAt out .overflow

/-- A concatenation has both runs read before the result's header is written. -/
theorem computes_celListConcatArenaAt (a b : Slot) : Computes (celListConcatArenaAt · a b)
    fun cells => celListConcatArena (cells a) (cells b) := by
  refine computes_unlessAbsorbed a b <| .congr (.unless (settles_requireKinds2At a b _ _) <|
    .read (reads_payload _ a) fun _ => .read (reads_payload _ b) fun _ => .ite (computes_store _) <|
      .read (reads_lift _) fun _ => .ite (computes_store _) (computes_store _)) fun cells => ?_
  cases cells a with
  | listArena => cases cells b <;> rfl
  | _ => rfl

/-- `arena_list_scan_generic`: the value is read again for each element. -/
def arenaListScanGenericAt (host : CelHost) (value : Slot) (scratch : Bool) :
    List CelValue → SlotKernel (Option Bool)
  | [] => return some false
  | e :: rest => do
    let v ← load value
    match ← liftM (deepValuesEqual scratch e v (equalityKernel host e v)) with
    | (scratch, some false) => arenaListScanGenericAt host value scratch rest
    | (_, verdict) => return verdict

/-- **A scan only reads**, though it reads the value again for each element. -/
theorem reads_arenaListScanGenericAt (host : CelHost) (value : Slot) :
    ∀ (scratch : Bool) (elements : List CelValue),
      Reads (arenaListScanGenericAt host value scratch elements) fun cells =>
        arenaListScanGeneric host (cells value) scratch elements
  | _, [] => reads_pure _
  | scratch, e :: rest => by
    refine .congr (.bind (reads_load value) fun v => .bind (Q := fun r cells => match r with
        | (scratch, some false) => arenaListScanGeneric host (cells value) scratch rest
        | (_, verdict) => pure verdict) (reads_lift _) fun r => ?_) fun cells => pure_bind _ _
    match r with
    | (scratch, some false) => exact reads_arenaListScanGenericAt host value scratch rest
    | (_, some true) => exact reads_pure _
    | (_, none) => exact reads_pure _

/-- `cel_list_in_arena`. -/
def celListInArenaAt (host : CelHost) (out value list : Slot) : SlotKernel Unit := do
  if ← absorb3vlBinaryAt out value list then return
  if (← loadKind list) ≠ .listArena then
    poisonAt out .typeMismatch
    return
  let elements ← payload CelValue.listArena? list
  if isNumericTag (← loadKind value) then
    let needle ← load value
    store out (.bool (elements.any (scanNumeric needle)))
    return
  if (← loadKind value) = .string then
    let needle ← payload CelValue.string? value
    store out (.bool (elements.any (scanString needle)))
    return
  if (← loadKind value) = .bool then
    let needle ← payload CelValue.bool? value
    store out (.bool (elements.any (scanBool needle)))
    return
  store out (walkVerdict (← arenaListScanGenericAt host value false elements))

/-- Membership writes its verdict once the scan is over. -/
theorem computes_celListInArenaAt (host : CelHost) (value list : Slot) :
    Computes (celListInArenaAt host · value list) fun cells =>
      celListInArena host (cells value) (cells list) := by
  refine computes_unlessAbsorbed value list <| .congr
    (.read (reads_loadKind list) fun _ => .ite (computes_store _) <|
      .read (reads_payload _ list) fun elements =>
        .read (reads_loadKind value) fun _ =>
          .ite (.read (reads_load value) fun _ => computes_store _) <|
            .read (reads_loadKind value) fun _ =>
              .ite (.read (reads_payload _ value) fun _ => computes_store _) <|
                .read (reads_loadKind value) fun _ =>
                  .ite (.read (reads_payload _ value) fun _ => computes_store _) <|
                    .read (reads_arenaListScanGenericAt host value false elements) fun _ =>
                      computes_store _) fun cells => ?_
  cases cells list with
  | listArena => cases cells value <;> rfl
  | _ => rfl

/-! ## Keyed reads -/

/-- The scan of an unindexed map: the key is read again for each entry. -/
def scanKeysAt (key : Slot) : List (CelValue × CelValue) → SlotKernel (Option ℕ)
  | [] => return none
  | e :: rest => do
    if celMapKeyEq e.1 (← load key) then return some 0
    else return (← scanKeysAt key rest).map (· + 1)

/-- **A scan of keys only reads**, the key again for each entry. -/
theorem reads_scanKeysAt (key : Slot) : ∀ entries : List (CelValue × CelValue),
    Reads (scanKeysAt key entries) fun cells =>
      pure (entries.findIdx? fun e => celMapKeyEq e.1 (cells key))
  | [] => reads_pure _
  | e :: rest => by
    refine .congr (.bind (reads_load key) fun _ => .ite (reads_pure _) <|
      .bind (reads_scanKeysAt key rest) fun _ => reads_pure _) fun cells => ?_
    rw [List.findIdx?_cons, pure_bind, pure_bind]
    split <;> rfl

/-- Where an arena map holds the key of a cell. -/
def arenaMapFindAt (entries : List (CelValue × CelValue)) (index : Option MapIndex) (key : Slot) :
    SlotKernel (Option ℕ) :=
  match index with
  | some index => do
    match celMapIndexFind (entries.map Prod.fst) (some index) (← load key) with
    | some found => return found
    | none => halt .diverges
  | none => scanKeysAt key entries

/-- A search of a map only reads, by its index or by a scan. -/
theorem reads_arenaMapFindAt (entries : List (CelValue × CelValue)) (key : Slot) :
    ∀ index : Option MapIndex, Reads (arenaMapFindAt entries index key) fun cells =>
      arenaMapFind entries index (cells key)
  | none => reads_scanKeysAt key entries
  | some index => by
    refine .congr (.bind (Q := fun v _ => arenaMapFind entries (some index) v) (reads_load key)
      fun v => ?_) fun cells => pure_bind _ _
    rw [arenaMapFind]
    cases celMapIndexFind (entries.map Prod.fst) (some index) v with
    | some found => exact reads_pure _
    | none => exact reads_lift _

/-- `cel_map_lookup_arena`. -/
def celMapLookupArenaAt (out m key : Slot) : SlotKernel Unit := do
  if isPoisonTag (← loadKind key) then
    copyAt out key
    return
  if isPoisonTag (← loadKind m) then
    copyAt out m
    return
  let (entries, index) ← payload CelValue.mapArena? m
  match ← arenaMapFindAt entries index key with
  | some i => store out (← liftM (arenaMapEntryVal entries i))
  | none => poisonAt out .noSuchKey

/-- **A lookup in a map** reads the key again for the search, before it writes the value found. -/
theorem computes_celMapLookupArenaAt (m key : Slot) : Computes (celMapLookupArenaAt · m key)
    fun cells => celMapLookupArena (cells m) (cells key) := by
  refine .congr (.read (reads_loadKind key) fun _ => .ite (computes_copyAt key) <|
    .read (reads_loadKind m) fun _ => .ite (computes_copyAt m) <|
      .read (reads_payload _ m) fun hdr =>
        .read (K := fun i _ => match i with
            | some i => arenaMapEntryVal hdr.1 i >>= pure
            | none => pure (.error .noSuchKey)) (reads_arenaMapFindAt hdr.1 key hdr.2) fun i => by
          cases i with
          | some i => exact .read (reads_lift _) computes_store
          | none => exact computes_store _) fun cells => ?_
  simp only [pure_bind, bind_pure, isPoisonTag_kind, celMapLookupArena]
  refine ite_congr rfl (fun _ => rfl) fun _ => ite_congr rfl (fun _ => rfl) fun _ => ?_
  cases cells m <;> rfl

/-- `cel_map_in_arena`. -/
def celMapInArenaAt (out key m : Slot) : SlotKernel Unit := do
  if ← absorb3vlBinaryAt out key m then return
  if (← loadKind m) ≠ .mapArena then
    poisonAt out .typeMismatch
    return
  let (entries, index) ← payload CelValue.mapArena? m
  store out (.bool (← arenaMapFindAt entries index key).isSome)

theorem computes_celMapInArenaAt (key m : Slot) : Computes (celMapInArenaAt · key m)
    fun cells => celMapInArena (cells key) (cells m) := by
  refine computes_unlessAbsorbed key m <| .congr
    (.read (reads_loadKind m) fun _ => .ite (computes_store _) <|
      .read (reads_payload _ m) fun hdr =>
        .read (reads_arenaMapFindAt hdr.1 key hdr.2) fun _ => computes_store _) fun cells => ?_
  cases cells m <;> rfl

/-! ## Aggregate equality -/

/-- `cel_list_eq_arena`. -/
def celListEqArenaAt (host : CelHost) (out a b : Slot) : SlotKernel Unit := do
  if ← absorb3vlBinaryAt out a b then return
  if ← requireKindsAt .listArena out a b then return
  let xs ← payload CelValue.listArena? a
  let ys ← payload CelValue.listArena? b
  if xs.length ≠ ys.length then store out (.bool false)
  else store out (walkVerdict (← liftM (elementsEqual host false xs ys)))

/-- Equality of lists keeps the verdicts of the elements in a cell of its own, and not in the
result's. -/
theorem computes_celListEqArenaAt (host : CelHost) (a b : Slot) :
    Computes (celListEqArenaAt host · a b) fun cells => celListEqArena host (cells a) (cells b) := by
  refine computes_unlessAbsorbed a b <| .congr (.unless (settles_requireKinds2At a b _ _) <|
    .read (reads_payload _ a) fun _ => .read (reads_payload _ b) fun _ => .ite (computes_store _) <|
      .read (reads_lift _) fun _ => computes_store _) fun cells => ?_
  cases cells a with
  | listArena => cases cells b <;> rfl
  | _ => rfl

/-- `cel_map_eq_arena`. -/
def celMapEqArenaAt (host : CelHost) (out a b : Slot) : SlotKernel Unit := do
  if ← absorb3vlBinaryAt out a b then return
  if ← requireKindsAt .mapArena out a b then return
  let (xs, _) ← payload CelValue.mapArena? a
  let (ys, index) ← payload CelValue.mapArena? b
  if xs.length ≠ ys.length then store out (.bool false)
  else store out (walkVerdict (← liftM (entriesEqual host ys index false xs)))

/-- …and equality of maps likewise. -/
theorem computes_celMapEqArenaAt (host : CelHost) (a b : Slot) :
    Computes (celMapEqArenaAt host · a b) fun cells => celMapEqArena host (cells a) (cells b) := by
  refine computes_unlessAbsorbed a b <| .congr (.unless (settles_requireKinds2At a b _ _) <|
    .read (reads_payload _ a) fun _ => .read (reads_payload _ b) fun _ => .ite (computes_store _) <|
      .read (reads_lift _) fun _ => computes_store _) fun cells => ?_
  cases cells a with
  | mapArena => cases cells b <;> rfl
  | _ => rfl

/-! ## Dispatchers -/

/-- The poison arms of the two-operand dispatchers. -/
def firstPoisonAt (out a b : Slot) : SlotKernel Bool := do
  if isPoisonTag (← loadKind a) then
    copyAt out a
    return true
  if isPoisonTag (← loadKind b) then
    copyAt out b
    return true
  return false

/-- The tail call of a dispatcher that goes by one operand. -/
def dispatchAt (arenaKind hostKind : CelKind) (container : Slot) (arena host : Slot → SlotKernel Unit)
    (out : Slot) : SlotKernel Unit := do
  if (← loadKind container) = arenaKind then arena out
  else if (← loadKind container) = hostKind then host out
  else poisonAt out .typeMismatch

/-- …and of one that goes by both. -/
def dispatchBothAt (arenaKind hostKind : CelKind) (a b : Slot) (arena host : Slot → SlotKernel Unit)
    (out : Slot) : SlotKernel Unit := do
  if (← loadKind a) = arenaKind && (← loadKind b) = arenaKind then arena out
  else if ((← loadKind a) = arenaKind || (← loadKind a) = hostKind)
      && ((← loadKind b) = arenaKind || (← loadKind b) = hostKind) then host out
  else poisonAt out .typeMismatch

section Rules

variable {arena host : Slot → SlotKernel Unit} {A H : (Slot → CelValue) → Kernel CelValue}

/-- **The poison of an operand goes first**: of the two, the first that is poison. -/
theorem computes_unlessPoison {k : Slot → SlotKernel Unit} {K : (Slot → CelValue) → Kernel CelValue}
    (a b : Slot) (hk : Computes k K) :
    Computes (fun out => firstPoisonAt out a b >>= fun done => if done then pure () else k out)
      fun cells => unlessPoison (cells a) (cells b) (K cells) := by
  refine .congr (.unless (.read (reads_loadKind a) fun _ => .ite (.done (computes_copyAt a)) <|
    .read (reads_loadKind b) fun _ => .ite (.done (computes_copyAt b)) settles_false) hk)
    fun cells => ?_
  simp only [pure_bind, isPoisonTag_kind, unlessPoison]
  split_ifs <;> rfl

/-- **A dispatch on where a container is stored** computes what the kernel for it does, be it the
arena's or the host's. -/
theorem computes_dispatchAt {arenaKind hostKind : CelKind} (container : Slot)
    (origin : CelValue → Origin) (ho : ∀ v : CelValue, origin v =
      if v.kind = arenaKind then .arena else if v.kind = hostKind then .host else .neither)
    (ha : Computes arena A) (hh : Computes host H) :
    Computes (dispatchAt arenaKind hostKind container arena host) fun cells =>
      dispatch (origin (cells container)) (A cells) (H cells) := by
  refine .congr (.read (reads_loadKind container) fun _ => .ite ha <|
    .read (reads_loadKind container) fun _ => .ite hh (computes_store _)) fun cells => ?_
  simp only [pure_bind, ho]
  split_ifs <;> rfl

/-- …and a dispatch on two containers, of which both are in the arena or one is the host's. -/
theorem computes_dispatchBothAt {arenaKind hostKind : CelKind} (a b : Slot)
    (origin : CelValue → Origin) (ho : ∀ v : CelValue, origin v =
      if v.kind = arenaKind then .arena else if v.kind = hostKind then .host else .neither)
    (ha : Computes arena A) (hh : Computes host H) :
    Computes (dispatchBothAt arenaKind hostKind a b arena host) fun cells =>
      dispatch ((origin (cells a)).both (origin (cells b))) (A cells) (H cells) := by
  refine .congr (.read (reads_loadKind a) fun _ => .read (reads_loadKind b) fun _ => .ite ha <|
    .read (reads_loadKind a) fun _ => .read (reads_loadKind a) fun _ =>
      .read (reads_loadKind b) fun _ => .read (reads_loadKind b) fun _ => .ite hh (computes_store _))
    fun cells => ?_
  simp only [pure_bind, ho, Bool.and_eq_true, Bool.or_eq_true, decide_eq_true_eq]
  split_ifs <;> first | rfl | (exfalso; tauto)

theorem listOrigin_eq (v : CelValue) : listOrigin v =
    if v.kind = .listArena then .arena else if v.kind = .listHost then .host else .neither := by
  cases v <;> rfl

theorem mapOrigin_eq (v : CelValue) : mapOrigin v =
    if v.kind = .mapArena then .arena else if v.kind = .mapHost then .host else .neither := by
  cases v <;> rfl

end Rules

section Dispatchers

variable (host : CelHost)

/-- `cel_map_lookup`. -/
def celMapLookupAt (out m key : Slot) : SlotKernel Unit := do
  if isPoisonTag (← loadKind m) then
    copyAt out m
    return
  dispatchAt .mapArena .mapHost m (celMapLookupArenaAt · m key) (hostCallAt host.mapLookup · m key) out

/-- `cel_list_at`. -/
def celListAtAt (out list index : Slot) : SlotKernel Unit := do
  if isPoisonTag (← loadKind list) then
    copyAt out list
    return
  dispatchAt .listArena .listHost list (celListAtArenaAt · list index)
    (hostCallAt host.listAt · list index) out

/-- `cel_list_in`. -/
def celListInAt (out value list : Slot) : SlotKernel Unit := do
  if ← firstPoisonAt out value list then return
  dispatchAt .listArena .listHost list (celListInArenaAt host · value list)
    (hostCallAt host.listIn · value list) out

/-- `cel_map_in`. -/
def celMapInAt (out key m : Slot) : SlotKernel Unit := do
  if ← firstPoisonAt out key m then return
  dispatchAt .mapArena .mapHost m (celMapInArenaAt · key m) (hostCallAt host.mapIn · key m) out

/-- `cel_list_eq`. -/
def celListEqAt (out a b : Slot) : SlotKernel Unit := do
  if ← firstPoisonAt out a b then return
  dispatchBothAt .listArena .listHost a b (celListEqArenaAt host · a b) (hostCallAt host.listEq · a b)
    out

/-- `cel_map_eq`. -/
def celMapEqAt (out a b : Slot) : SlotKernel Unit := do
  if ← firstPoisonAt out a b then return
  dispatchBothAt .mapArena .mapHost a b (celMapEqArenaAt host · a b) (hostCallAt host.mapEq · a b) out

/-- `cel_list_concat`. -/
def celListConcatAt (out a b : Slot) : SlotKernel Unit := do
  if ← firstPoisonAt out a b then return
  dispatchBothAt .listArena .listHost a b (celListConcatArenaAt · a b)
    (hostCallAt host.listConcat · a b) out

variable (a b : Slot)

theorem computes_celMapLookupAt : Computes (celMapLookupAt host · a b) fun cells =>
    celMapLookup host (cells a) (cells b) :=
  .congr (.read (reads_loadKind a) fun _ => .ite (computes_copyAt a) <|
    computes_dispatchAt a mapOrigin mapOrigin_eq (computes_celMapLookupArenaAt a b)
      (computes_hostCallAt _ a b)) fun _ => by simp only [pure_bind, isPoisonTag_kind, celMapLookup]

theorem computes_celListAtAt : Computes (celListAtAt host · a b) fun cells =>
    celListAt host (cells a) (cells b) :=
  .congr (.read (reads_loadKind a) fun _ => .ite (computes_copyAt a) <|
    computes_dispatchAt a listOrigin listOrigin_eq (computes_celListAtArenaAt a b)
      (computes_hostCallAt _ a b)) fun _ => by simp only [pure_bind, isPoisonTag_kind, celListAt]

theorem computes_celListInAt : Computes (celListInAt host · a b) fun cells =>
    celListIn host (cells a) (cells b) :=
  computes_unlessPoison a b <| computes_dispatchAt b listOrigin listOrigin_eq
    (computes_celListInArenaAt host a b) (computes_hostCallAt _ a b)

theorem computes_celMapInAt : Computes (celMapInAt host · a b) fun cells =>
    celMapIn host (cells a) (cells b) :=
  computes_unlessPoison a b <| computes_dispatchAt b mapOrigin mapOrigin_eq
    (computes_celMapInArenaAt a b) (computes_hostCallAt _ a b)

/-- **Equality of two lists** goes to the kernel of the arena only if both are there. -/
theorem computes_celListEqAt : Computes (celListEqAt host · a b) fun cells =>
    celListEq host (cells a) (cells b) :=
  computes_unlessPoison a b <| computes_dispatchBothAt a b listOrigin listOrigin_eq
    (computes_celListEqArenaAt host a b) (computes_hostCallAt _ a b)

theorem computes_celMapEqAt : Computes (celMapEqAt host · a b) fun cells =>
    celMapEq host (cells a) (cells b) :=
  computes_unlessPoison a b <| computes_dispatchBothAt a b mapOrigin mapOrigin_eq
    (computes_celMapEqArenaAt host a b) (computes_hostCallAt _ a b)

theorem computes_celListConcatAt : Computes (celListConcatAt host · a b) fun cells =>
    celListConcat host (cells a) (cells b) :=
  computes_unlessPoison a b <| computes_dispatchBothAt a b listOrigin listOrigin_eq
    (computes_celListConcatArenaAt a b) (computes_hostCallAt _ a b)

end Dispatchers

/-! ## Equality -/

/-- `type_eq_at_vv`. -/
def typeEqAt (out a b : Slot) : SlotKernel Unit := do
  let s ← payload CelValue.type? a
  let t ← payload CelValue.type? b
  store out (.bool (s == t))

/-- `optional_eq_at_vv`: the held values are compared behind their cells. -/
def optionalEqAt (host : CelHost) (out a b : Slot) : SlotKernel Unit := do
  let x ← payload CelValue.optional? a
  let y ← payload CelValue.optional? b
  if x.isNone && y.isNone then store out (.bool true)
  else if x.isSome ≠ y.isSome then store out (.bool false)
  else store out (← liftM (equalityKernel host (x.getD .null) (y.getD .null)))

/-- The comparison of two payloads of one arm, past the poison. -/
def payloadEqAt {α : Type} [BEq α] (arm : CelValue → Option α) (out a b : Slot) :
    SlotKernel Unit := do
  let x ← payload arm a
  let y ← payload arm b
  store out (.bool (x == y))

/-- `equal_same_kind`: whether it has published the result. -/
def equalSameKindAt (host : CelHost) (kind : CelKind) (out a b : Slot) : SlotKernel Bool :=
  match kind with
  | .null => do celNullEqAt out a b; return true
  | .bool => do celBoolEqAt out a b; return true
  | .string => do celStringEqAt out a b; return true
  | .bytes => do celBytesEqAt out a b; return true
  | .type => do typeEqAt out a b; return true
  | .optional => do optionalEqAt host out a b; return true
  | .duration | .timestamp => do payloadEqAt CelValue.durTs? out a b; return true
  | .ip => do payloadEqAt CelValue.ip? out a b; return true
  | .cidr => do payloadEqAt CelValue.cidr? out a b; return true
  | _ => return false

/-- The second test of `equality_kernel`. -/
def sameKindAt (host : CelHost) (out a b : Slot) : SlotKernel Bool := do
  if (← loadKind a) = (← loadKind b) then
    let kind ← loadKind a
    equalSameKindAt host kind out a b
  else return false

/-- One arm of `both_lists`, of a kind. -/
def isListTag (k : CelKind) : Bool := k = .listArena || k = .listHost

/-- One arm of `both_maps`, of a kind. -/
def isMapTag (k : CelKind) : Bool := k = .mapArena || k = .mapHost

/-- The arms of `equality_kernel` for aggregates and messages. -/
def aggregateEqAt (host : CelHost) (out a b : Slot) : SlotKernel Unit := do
  if isListTag (← loadKind a) && isListTag (← loadKind b) then celListEqAt host out a b
  else if isMapTag (← loadKind a) && isMapTag (← loadKind b) then celMapEqAt host out a b
  else if (← loadKind a) = .message && (← loadKind b) = .message then
    hostCallAt host.messageEq out a b
  else store out (.bool false)

/-- `equality_kernel`. -/
def equalityKernelAt (host : CelHost) (out a b : Slot) : SlotKernel Unit := do
  if ← absorb3vlBinaryAt out a b then return
  if isNumericTag (← loadKind a) && isNumericTag (← loadKind b) then celNumericEqAt out a b
  else
    if ← sameKindAt host out a b then return
    aggregateEqAt host out a b

/-- `cel_equals_at_vv`. -/
def celEqualsAt : CelHost → Slot → Slot → Slot → SlotKernel Unit := equalityKernelAt

/-- The end of `cel_not_equals_at_vv`: poison is left as it is, a bool is flipped. -/
def flipAt (out : Slot) : SlotKernel Unit := do
  match ← load out with
  | .bool verdict => store out (.bool (!verdict))
  | _ => return

/-- `cel_not_equals_at_vv`. -/
def celNotEqualsAt (host : CelHost) (out a b : Slot) : SlotKernel Unit := do
  equalityKernelAt host out a b
  flipAt out

section Equality

variable (host : CelHost) (a b : Slot)

/-- Equality of two payloads of a kind that has been tested. -/
theorem computes_payloadEqAt {α : Type} [BEq α] (arm : CelValue → Option α) :
    Computes (payloadEqAt arm · a b) fun cells => (do
      let x ← (arm (cells a)).elim (Prog.stop .wildRead) pure
      let y ← (arm (cells b)).elim (Prog.stop .wildRead) pure
      return .bool (x == y)) :=
  .read (reads_payload _ a) fun _ => .read (reads_payload _ b) fun _ => computes_store _

/-- Equality of optionals reads what both hold before it compares them. -/
theorem computes_optionalEqAt : Computes (optionalEqAt host · a b) fun cells => (do
    let x ← (cells a).optional?.elim (Prog.stop .wildRead) pure
    let y ← (cells b).optional?.elim (Prog.stop .wildRead) pure
    optionalEq host x y) := by
  refine .congr (.read (reads_payload _ a) fun _ => .read (reads_payload _ b) fun _ =>
    .ite (computes_store _) <| .ite (computes_store _) <| .read (reads_lift _) fun _ =>
      computes_store _) fun cells => ?_
  refine bind_congr fun x => bind_congr fun y => ?_
  cases x <;> cases y <;> simp [optionalEq]

/-- What `equal_same_kind` publishes of two values, if it publishes. -/
def sameKindVerdict (a b : CelValue) : Kernel (Option CelValue) :=
  match equalSameKind a b with
  | some verdict => return some (.bool verdict)
  | none =>
    match a, b with
    | .optional x, .optional y => some <$> optionalEq host x y
    | _, _ => return none

/-- Values of different kinds are settled elsewhere. -/
theorem sameKindVerdict_of_kind_ne {v w : CelValue} (h : v.kind ≠ w.kind) :
    sameKindVerdict host v w = pure none := by
  have hscalar : equalSameKind v w = none := by
    rw [equalSameKind.eq_def]
    split <;> first | rfl | exact absurd rfl h
  simp only [sameKindVerdict, hscalar]
  cases v with
  | optional _ =>
    cases w with
    | optional _ => exact absurd rfl h
    | _ => rfl
  | _ => rfl

/-- **One kind**: the kernel picked by the kind publishes the verdict. -/
theorem settles_equalSameKindAt (kind : CelKind) : ∃ G,
    Settles (equalSameKindAt host kind · a b) G ∧ ∀ cells : Slot → CelValue,
      (cells a).kind = kind → (cells b).kind = kind →
        G cells = sameKindVerdict host (cells a) (cells b) := by
  cases kind with
  | null =>
    refine ⟨_, .done (computes_celNullEqAt a b), fun cells ha hb => ?_⟩
    match cells a, cells b, ha, hb with
    | .null, .null, _, _ => rfl
  | bool =>
    refine ⟨_, .done (computes_strictKernelAt _ _ _ a b), fun cells ha hb => ?_⟩
    match cells a, cells b, ha, hb with
    | .bool _, .bool _, _, _ => rfl
  | string =>
    refine ⟨_, .done (computes_strictKernelAt _ _ _ a b), fun cells ha hb => ?_⟩
    match cells a, cells b, ha, hb with
    | .string _, .string _, _, _ => rfl
  | bytes =>
    refine ⟨_, .done (computes_strictKernelAt _ _ _ a b), fun cells ha hb => ?_⟩
    match cells a, cells b, ha, hb with
    | .bytes _, .bytes _, _, _ => rfl
  | type =>
    refine ⟨_, .done (computes_payloadEqAt a b CelValue.type?), fun cells ha hb => ?_⟩
    match cells a, cells b, ha, hb with
    | .type _, .type _, _, _ => rfl
  | optional =>
    refine ⟨_, .done (computes_optionalEqAt host a b), fun cells ha hb => ?_⟩
    match cells a, cells b, ha, hb with
    | .optional _, .optional _, _, _ => rfl
  | duration =>
    refine ⟨_, .done (computes_payloadEqAt a b CelValue.durTs?), fun cells ha hb => ?_⟩
    match cells a, cells b, ha, hb with
    | .duration _, .duration _, _, _ => rfl
  | timestamp =>
    refine ⟨_, .done (computes_payloadEqAt a b CelValue.durTs?), fun cells ha hb => ?_⟩
    match cells a, cells b, ha, hb with
    | .timestamp _, .timestamp _, _, _ => rfl
  | ip =>
    refine ⟨_, .done (computes_payloadEqAt a b CelValue.ip?), fun cells ha hb => ?_⟩
    match cells a, cells b, ha, hb with
    | .ip _, .ip _, _, _ => rfl
  | cidr =>
    refine ⟨_, .done (computes_payloadEqAt a b CelValue.cidr?), fun cells ha hb => ?_⟩
    match cells a, cells b, ha, hb with
    | .cidr _, .cidr _, _, _ => rfl
  | _ =>
    refine ⟨_, settles_false, fun cells ha hb => ?_⟩
    cases hv : cells a <;> rw [hv] at ha <;> first | rfl | cases ha

/-- **Values of one kind are settled** by the kernel for the kind; others fall through. -/
theorem settles_sameKindAt : Settles (sameKindAt host · a b) fun cells =>
    sameKindVerdict host (cells a) (cells b) := by
  choose G hG hverdict using settles_equalSameKindAt host a b
  refine .congr (.read (reads_loadKind a) fun _ => .read (reads_loadKind b) fun _ =>
    .ite (.read (reads_loadKind a) fun kind => hG kind) settles_false) fun cells => ?_
  simp only [pure_bind]
  split_ifs with h
  · exact hverdict _ cells rfl h.symm
  · exact (sameKindVerdict_of_kind_ne host h).symm

theorem isNumericTag_kind (v : CelValue) : isNumericTag v.kind = isNumericKind v := by
  cases v <;> rfl

/-- Behind the absorber, only values without poison count. -/
theorem unlessAbsorbed_congr {v w : CelValue} {x y : Kernel CelValue}
    (h : v.isPoison = false → w.isPoison = false → x = y) :
    unlessAbsorbed v w x = unlessAbsorbed v w y := by
  cases hv : v.isPoison with
  | false =>
    cases hw : w.isPoison with
    | false => rw [h hv hw]
    | true => rw [unlessAbsorbed_of_poison_right hv hw, unlessAbsorbed_of_poison_right hv hw]
  | true =>
    cases hw : w.isPoison with
    | false => rw [unlessAbsorbed_of_poison_left hv hw, unlessAbsorbed_of_poison_left hv hw]
    | true =>
      obtain ⟨e, rfl⟩ | ⟨ids, rfl⟩ := CelValue.isPoison_iff.mp hv
      · rfl
      · obtain ⟨e, rfl⟩ | ⟨ids', rfl⟩ := CelValue.isPoison_iff.mp hw
        · rfl
        · rw [unlessAbsorbed_unknowns, unlessAbsorbed_unknowns]

/-- **Equality of containers and messages**, and of nothing else: what is left is not equal. -/
theorem computes_aggregateEqAt : Computes (aggregateEqAt host · a b) fun cells =>
    if isListShaped (cells a) && isListShaped (cells b) then celListEq host (cells a) (cells b)
    else if isMapShaped (cells a) && isMapShaped (cells b) then celMapEq host (cells a) (cells b)
    else if (cells a).kind = .message && (cells b).kind = .message then
      host.messageEq (cells a) (cells b)
    else return .bool false := by
  refine .congr (.read (reads_loadKind a) fun _ => .read (reads_loadKind b) fun _ =>
    .ite (computes_celListEqAt host a b) <|
      .read (reads_loadKind a) fun _ => .read (reads_loadKind b) fun _ =>
        .ite (computes_celMapEqAt host a b) <|
          .read (reads_loadKind a) fun _ => .read (reads_loadKind b) fun _ =>
            .ite (computes_hostCallAt _ a b) (computes_store _)) fun cells => ?_
  have hlist : ∀ v : CelValue, isListTag v.kind = isListShaped v := fun v => by cases v <;> rfl
  have hmap : ∀ v : CelValue, isMapTag v.kind = isMapShaped v := fun v => by cases v <;> rfl
  simp only [pure_bind, hlist, hmap]

/-- **`==` computes equality of values**: poison first, then numbers, then kinds that are the same,
then containers. -/
theorem computes_equalityKernelAt : Computes (equalityKernelAt host · a b) fun cells =>
    equalityKernel host (cells a) (cells b) := by
  refine .congr (computes_unlessAbsorbed a b <|
    .read (reads_loadKind a) fun _ => .read (reads_loadKind b) fun _ =>
      .ite (computes_numericKernelAt _ a b) <|
        .unless (settles_sameKindAt host a b) (computes_aggregateEqAt host a b)) fun cells => ?_
  generalize cells a = va
  generalize cells b = vb
  rw [equalityKernel.eq_def]
  refine unlessAbsorbed_congr fun ha hb => ?_
  simp only [pure_bind, isNumericTag_kind, unlessAbsorbed_of_not_poison ha hb]
  by_cases hnum : (isNumericKind va && isNumericKind vb) = true
  · have hboth := Bool.and_eq_true_iff.mp hnum
    rw [if_pos hnum, if_pos hnum, hboth.1, hboth.2]
    rfl
  rw [if_neg hnum, if_neg hnum]
  simp only [sameKindVerdict]
  cases hscalar : equalSameKind va vb with
  | some verdict => rfl
  | none =>
    cases va with
    | optional x =>
      cases vb with
      | optional y => simp only [bind_map_left, Option.elim, bind_pure]
      | _ => rfl
    | listArena => cases vb <;> rfl
    | listHost => cases vb <;> rfl
    | mapArena => cases vb <;> rfl
    | mapHost => cases vb <;> rfl
    | message => cases vb <;> rfl
    | _ => rfl

/-- `!=` flips the bool that `==` has left, and leaves poison. -/
theorem revises_flipAt : Revises flipAt fun
    | .bool verdict => pure (.bool (!verdict))
    | v => pure v := by
  intro out cells
  rw [flipAt, StateT.run_bind, reads_load out cells]
  simp only [pure_bind]
  cases h : cells out with
  | bool _ => rfl
  | _ =>
    simp only [pure_bind, ← h, Function.update_eq_self]
    rfl

/-- **`!=` flips its own result**, wherever that is. -/
theorem computes_celNotEqualsAt : Computes (celNotEqualsAt host · a b) fun cells =>
    celNotEquals host (cells a) (cells b) :=
  .congr (.revise (computes_equalityKernelAt host a b) revises_flipAt) fun _ =>
    bind_congr fun v => by cases v <;> rfl

end Equality

/-! ## Optionals -/

/-- `cel_optional_or_at_vv`. -/
def celOptionalOrAt (out opt other : Slot) : SlotKernel Unit := do
  if ← absorb3vlUnaryAt out opt then return
  if (← loadKind opt) ≠ .optional then
    poisonAt out .typeMismatch
    return
  if (← payload CelValue.optional? opt).isSome then
    copyAt out opt
    return
  if ← absorb3vlUnaryAt out other then return
  if (← loadKind other) ≠ .optional then
    poisonAt out .typeMismatch
    return
  copyAt out other

/-- `cel_optional_or_value_at_vv`. -/
def celOptionalOrValueAt (out opt dflt : Slot) : SlotKernel Unit := do
  if ← absorb3vlUnaryAt out opt then return
  if (← loadKind opt) ≠ .optional then
    poisonAt out .typeMismatch
    return
  let held ← payload CelValue.optional? opt
  if held.isSome then
    store out (held.getD .null)
    return
  copyAt out dflt

/-- `is_absent_error`. -/
def isAbsentError : CelValue → Bool
  | .error e => e == .noSuchKey || e == .indexOutOfBounds || e == .fieldNotFound
  | _ => false

/-- `dispatch_lookup`, into a cell of its own: what it finds under a key of the workspace, or nothing
on a kind it does not know. -/
def dispatchLookupAt (src : CelValue) (key : Slot) : SlotKernel (Option CelValue) :=
  match src with
  | .mapArena .. => do return some (← liftM (celMapLookupArena src (← load key)))
  | .listArena .. => do return some (← liftM (celListAtArena src (← load key)))
  | .mapHost _ | .listHost _ | .message _ => halt .trap
  | _ => return none

/-- `finalize_lookup_result`: an absent key is no value, another error goes on. -/
def finalizedLookup (found : CelValue) : CelValue :=
  if isAbsentError found then .optional none
  else if found.isPoison then found
  else .optional (some found)

/-- The lookup, and its result. -/
def selectFromAt (out : Slot) (src : CelValue) (key : Slot) : SlotKernel Unit := do
  let found ← dispatchLookupAt src key
  if found.isNone then
    poisonAt out .typeMismatch
    return
  store out (finalizedLookup (found.getD .null))

/-- `cel_select_optional_field_at_vv`. -/
def celSelectOptionalFieldAt (out src key : Slot) : SlotKernel Unit := do
  if ← absorb3vlBinaryAt out src key then return
  if ← arenaAllocAt 32 then
    if (← loadKind src) = .optional then
      let held ← payload CelValue.optional? src
      if held.isNone then store out (.optional none)
      else selectFromAt out (held.getD .null) key
    else
      let v ← load src
      selectFromAt out v key
  else poisonAt out .overflow

section Optionals

variable (a b : Slot)

/-- `or` reads the second optional only if the first holds nothing, and writes then. -/
theorem writesLast_celOptionalOrAt : WritesLast (celOptionalOrAt · a b) :=
  ⟨_, .unless (settles_absorb3vlUnaryAt a) <| .read (reads_loadKind a) fun _ =>
    .ite (computes_store _) <| .read (reads_payload _ a) fun _ => .ite (computes_copyAt a) <|
      .unless (settles_absorb3vlUnaryAt b) <| .read (reads_loadKind b) fun _ =>
        .ite (computes_store _) (computes_copyAt b)⟩

theorem writesLast_celOptionalOrValueAt : WritesLast (celOptionalOrValueAt · a b) :=
  ⟨_, .unless (settles_absorb3vlUnaryAt a) <| .read (reads_loadKind a) fun _ =>
    .ite (computes_store _) <| .read (reads_payload _ a) fun _ =>
      .ite (computes_store _) (computes_copyAt b)⟩

/-- The lookup that a selection rests on only reads. -/
theorem reads_dispatchLookupAt (src : CelValue) (key : Slot) :
    ∃ P, Reads (dispatchLookupAt src key) P := by
  cases src with
  | mapArena | listArena =>
    exact ⟨_, .bind (reads_load key) fun _ => .bind (reads_lift _) fun _ => reads_pure _⟩
  | mapHost | listHost | message => exact ⟨_, reads_lift _⟩
  | _ => exact ⟨_, reads_pure none⟩

theorem writesLast_selectFromAt (src : CelValue) (key : Slot) :
    WritesLast (selectFromAt · src key) := by
  obtain ⟨P, hP⟩ := reads_dispatchLookupAt src key
  exact ⟨_, .read hP fun _ => .ite (computes_store _) (computes_store _)⟩

/-- **Optional selection writes last**, through an optional or without one. -/
theorem writesLast_celSelectOptionalFieldAt : WritesLast (celSelectOptionalFieldAt · a b) :=
  .unless (settles_absorb3vlBinaryAt a b) <| .read (reads_lift _) fun _ =>
    .ite
      (.read (reads_loadKind a) fun _ =>
        .ite
          (.read (reads_payload _ a) fun _ =>
            .ite (computes_store _).writesLast (writesLast_selectFromAt _ b))
          (.read (reads_load a) fun _ => writesLast_selectFromAt _ b))
      (computes_store _).writesLast

end Optionals

end CelWasm
