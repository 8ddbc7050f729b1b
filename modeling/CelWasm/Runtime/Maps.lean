import CelWasm.Runtime.Lists
import CelWasm.Runtime.MapIndex

/-!
# Runtime/Maps — arena maps

Two writers with opposite collision rules share one entry run: `celMapInsert` builds literals and
poisons the map on a repeated key, `mapInsertAtKernel` serves comprehension accumulators and lets the
last write win. Keyed reads go through the hash index where the map carries one.
-/

namespace CelWasm

/-- `cel_map_create`. -/
def celMapCreate (capacity : ℕ) : Kernel CelValue := do
  if ← allocRun 16 kCelMapEntryStride capacity then return .mapArena capacity [] none
  else return .error .overflow

theorem granted_celMapCreate (capacity : ℕ) : (celMapCreate capacity).granted
    = .ok (if capacity * kCelMapEntryStride ≤ 2 ^ 32 - 8 then .mapArena capacity [] none
      else .error .overflow) := by
  rw [celMapCreate, Prog.granted_bind, granted_allocRun (by decide)]
  by_cases hfit : capacity * kCelMapEntryStride ≤ 2 ^ 32 - 8
  · rw [decide_eq_true hfit, if_pos hfit]
    rfl
  · rw [decide_eq_false hfit, if_neg hfit]
    rfl

/-! ## Literals -/

/-- **`cel_map_insert`**: what the map cell holds afterwards. -/
def celMapInsert (m key val : CelValue) : CelValue :=
  match m with
  | .mapArena capacity entries index =>
    if key.isPoison then key
    else if val.isPoison then val
    else if !isValidMapKeyKind key then .error .typeMismatch
    else if entries.any fun e => celMapKeyEq e.1 key then .error .duplicateKey
    else if capacity ≤ entries.length then .error .overflow
    else .mapArena capacity (entries ++ [(key, val)]) index
  | m => m

/-! ## Accumulators -/

/-- `while (new_cap < want) new_cap *= 2`. -/
def growUntil (want : ℕ) : ℕ → ℕ → ℕ
  | 0, capacity => capacity
  | fuel + 1, capacity => if capacity < want then growUntil want fuel (capacity * 2) else capacity

/-- `arena_map_grow_one`: the capacity of the run that replaces a full one, unless the arena has no
room for it. -/
def arenaMapGrowOne (count capacity : ℕ) : Kernel (Option ℕ) := do
  let newCap := growUntil (count + 1) (count + 1) (if capacity ≠ 0 then capacity * 2 else 4)
  if 2 ^ 32 - 1 < newCap then return none
  else
    let bytes := entriesBytesChecked kCelMapEntryStride newCap
    if bytes = 0 then return none
    else if ← Prog.alloc bytes then return some newCap
    else return none

/-- Overwrite the value of the first entry whose key is equal; `none` when there is none. -/
def overwriteValue (entries : List (CelValue × CelValue)) (key val : CelValue) :
    Option (List (CelValue × CelValue)) :=
  (entries.findIdx? fun e => celMapKeyEq e.1 key).map fun i =>
    entries.modify i fun e => (e.1, val)

/-- **`map_insert_at_kernel`** on a live arena map. Growing drops the hash index. -/
def mapInsertAtKernel (capacity : ℕ) (entries : List (CelValue × CelValue))
    (index : Option MapIndex) (key val : CelValue) (allowGrow : Bool) : Kernel CelValue :=
  if key.isPoison then return key
  else if val.isPoison then return val
  else if !isValidMapKeyKind key then return .error .typeMismatch
  else
    match overwriteValue entries key val with
    | some entries => return .mapArena capacity entries index
    | none =>
      if entries.length < capacity then return .mapArena capacity (entries ++ [(key, val)]) index
      else if !allowGrow then Prog.stop .trap
      else do
        match ← arenaMapGrowOne entries.length capacity with
        | none => return .error .overflow
        | some capacity => return .mapArena capacity (entries ++ [(key, val)]) none

/-- `cel_map_insert_at`. -/
def celMapInsertAt (m key val : CelValue) : Kernel CelValue :=
  match m with
  | .mapArena capacity entries index => mapInsertAtKernel capacity entries index key val false
  | m => return m

/-- `cel_map_insert_at_if_bool`. -/
def celMapInsertAtIfBool (m pred key val : CelValue) : Kernel CelValue :=
  match m with
  | .mapArena capacity entries index =>
    ifBool (.mapArena capacity entries index) pred
      (celMapInsertAt (.mapArena capacity entries index) key val)
  | m => return m

/-- `cel_map_insert_at_if_present`. -/
def celMapInsertAtIfPresent (m key opt : CelValue) : Kernel CelValue :=
  match m with
  | .mapArena capacity entries index =>
    ifPresent (.mapArena capacity entries index) opt
      (celMapInsertAt (.mapArena capacity entries index) key)
  | m => return m

/-- The entry loop shared by `map_merge_arena_entries` and `map_merge_host_entries`: it stops once
the accumulator is no longer a map. -/
def mapMergeEntries : CelValue → List (CelValue × CelValue) → Kernel CelValue
  | .mapArena capacity entries index, (key, val) :: rest => do
    let m ← mapInsertAtKernel capacity entries index key val true
    mapMergeEntries m rest
  | m, _ => return m

/-- `cel_map_iter_init` on a host map: the entries to walk, none of them for an empty map. Out of
memory is one poisoned entry, in a block of its own or in the one kept for emergencies. -/
def mapIterInitHost (host : CelHost) (m : CelValue) : Kernel (List (CelValue × CelValue)) := do
  if ← Prog.alloc 16 then host.mapIterOpen m
  else
    let _ ← Prog.alloc 64
    return [(.error .overflow, .error .overflow)]

/-- `map_merge_host_entries`: the walk needs two scratch cells, unless there is nothing to walk. -/
def mapMergeHostEntries (host : CelHost) (m entry : CelValue) : Kernel CelValue := do
  match ← mapIterInitHost host entry with
  | [] => return m
  | snapshot =>
    if ← Prog.alloc 48 then mapMergeEntries m snapshot
    else return .error .overflow

/-- **`cel_map_merge_at`**. -/
def celMapMergeAt (host : CelHost) (m entry : CelValue) : Kernel CelValue :=
  match m with
  | .mapArena capacity entries index =>
    if entry.isPoison then return entry
    else
      match entry with
      | .mapArena _ source _ => mapMergeEntries (.mapArena capacity entries index) source
      | .mapHost _ => mapMergeHostEntries host (.mapArena capacity entries index) entry
      | _ => return .error .typeMismatch
  | m => return m

/-- `cel_map_merge_at_if_bool`. -/
def celMapMergeAtIfBool (host : CelHost) (m pred entry : CelValue) : Kernel CelValue :=
  match m with
  | .mapArena capacity entries index =>
    ifBool (.mapArena capacity entries index) pred
      (celMapMergeAt host (.mapArena capacity entries index) entry)
  | m => return m

/-! ## Walking -/

/-- `cel_map_count`: zero, too, where the cell for a host map's size is refused. -/
def celMapCount : CelValue → Kernel ℕ
  | .mapArena _ entries _ => return entries.length
  | .mapHost entries => do
    if ← Prog.alloc 24 then return entries.length % 2 ^ 32 else return 0
  | _ => return 0

/-- `vend_poison_map_iter`: one entry of poison, in a block of its own or in the one kept for
emergencies. -/
def vendPoisonMapIter (poison : CelValue) : Kernel (List (CelValue × CelValue)) := do
  let _ ← Prog.alloc 64
  return [(poison, poison)]

/-- `cel_map_iter_init`: the entries a comprehension walks. -/
def celMapIterInit (host : CelHost) (m : CelValue) : Kernel (List (CelValue × CelValue)) :=
  match m with
  | .mapArena _ [] _ => return []
  | .mapArena _ entries _ => do
    if ← Prog.alloc 16 then return entries else vendPoisonMapIter (.error .overflow)
  | .mapHost entries => mapIterInitHost host (.mapHost entries)
  | m => vendPoisonMapIter (if m.isPoison then m else .error .typeMismatch)

/-! ## Keyed reads -/

/-- Where an arena map holds `key`: the hash index answers where there is one, and a scan
otherwise. -/
def arenaMapFind (entries : List (CelValue × CelValue)) (index : Option MapIndex)
    (key : CelValue) : Kernel (Option ℕ) :=
  match index with
  | some index =>
    match celMapIndexFind (entries.map Prod.fst) (some index) key with
    | some found => return found
    | none => Prog.stop .diverges
  | none => return entries.findIdx? fun e => celMapKeyEq e.1 key

/-- `arena_map_entry_val`. -/
def arenaMapEntryVal (entries : List (CelValue × CelValue)) (i : ℕ) : Kernel CelValue :=
  match entries[i]? with
  | some e => return e.2
  | none => Prog.stop .wildRead

/-- `cel_map_lookup_arena`. -/
def celMapLookupArena (m key : CelValue) : Kernel CelValue :=
  if key.isPoison then return key
  else if m.isPoison then return m
  else
    match m with
    | .mapArena _ entries index => do
      match ← arenaMapFind entries index key with
      | some i => arenaMapEntryVal entries i
      | none => return .error .noSuchKey
    | _ => Prog.stop .wildRead

/-- `cel_map_in_arena`. -/
def celMapInArena (key m : CelValue) : Kernel CelValue :=
  unlessAbsorbed key m <|
    match m with
    | .mapArena _ entries index => do return .bool (← arenaMapFind entries index key).isSome
    | _ => return .error .typeMismatch

end CelWasm
