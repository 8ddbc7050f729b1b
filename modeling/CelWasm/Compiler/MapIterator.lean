import CelWasm.Compiler.EarlyExit
import CelWasm.Eval.ContainerTexts
import CelWasm.Library.Cursor

/-!
# Compiler/MapIterator — walking a map

A comprehension over a map holds a handle on a block of state. The kernel that makes the block knows the
kinds of map: an arena map is walked in place, a map of the host in a copy made first, and an empty one
has the null handle. The other kernels only step the block's cursor and read the entry it is at. What is
no map, and poison, is walked as one entry of poison.
-/

namespace CelWasm

/-- `MAP_ITER_KIND_*`. -/
inductive MapIterKind
  | arena
  | host
  deriving DecidableEq

/-- **`MapIterState`**; the payload by the entries it leads to, those of the map's header or those of
the copy. -/
structure MapIterState where
  kind : MapIterKind
  cursor : ℕ
  payload : List (CelValue × CelValue)
  count : ℕ

/-! ## The kernels -/

/-- `map_iter_count`: an arena map is asked, a copy was counted. -/
def mapIterCount (state : MapIterState) : ℕ :=
  match state.kind with
  | .arena => state.payload.length
  | .host => state.count

/-- `vend_poison_map_iter`. -/
def vendPoisonMapIterState (poison : CelValue) : Kernel (Option MapIterState) := do
  let _ ← Prog.alloc 64
  return some { kind := .host, cursor := 0, payload := [(poison, poison)], count := 1 }

/-- `map_iter_init_arena`: none is the null handle. -/
def mapIterInitArena (entries : List (CelValue × CelValue)) : Kernel (Option MapIterState) := do
  if entries.length = 0 then return none
  else if ← Prog.alloc 16 then
    return some { kind := .arena, cursor := 0, payload := entries, count := 0 }
  else vendPoisonMapIterState (.error .overflow)

/-- What `CelMapIterOpenImpl` writes to the block. -/
def openedState (entries : List (CelValue × CelValue)) : MapIterState where
  kind := .host
  cursor := 0
  payload := entries
  count := entries.length

/-- `map_iter_init_host`. -/
def mapIterInitHostState (host : CelHost) (m : CelValue) : Kernel (Option MapIterState) := do
  if ← Prog.alloc 16 then
    let state := openedState (← host.mapIterOpen m)
    if state.count = 0 then return none else return some state
  else vendPoisonMapIterState (.error .overflow)

/-- **`cel_map_iter_init`**. -/
def celMapIterInitState (host : CelHost) (m : CelValue) : Kernel (Option MapIterState) :=
  match m with
  | .mapArena _ entries _ => mapIterInitArena entries
  | .mapHost entries => mapIterInitHostState host (.mapHost entries)
  | m => vendPoisonMapIterState (if m.isPoison then m else .error .typeMismatch)

/-- **`cel_map_iter_next`**. -/
def celMapIterNext : Option MapIterState → Bool × Option MapIterState
  | none => (false, none)
  | some state =>
    if mapIterCount state ≤ state.cursor then (false, some state)
    else (true, some { state with cursor := state.cursor + 1 })

/-- `copy_iter_entry`, to which `cel_map_iter_key_at` and `cel_map_iter_value_at` come. -/
def copyIterEntry (wantValue : Bool) : Option MapIterState → Kernel CelValue
  | none => return .error .indexOutOfBounds
  | some state =>
    if state.cursor = 0 then return .error .indexOutOfBounds
    else
      match state.payload[state.cursor - 1]? with
      | some e => return if wantValue then e.2 else e.1
      | none => Prog.stop .wildRead

/-- The reads of `EmitMapLoopHead`: only a loop with two variables reads the value. -/
def readIterVars (twoIter : Bool) (handle : Option MapIterState) :
    Kernel (CelValue × Option CelValue) := do
  let key ← copyIterEntry false handle
  if twoIter then return (key, some (← copyIterEntry true handle)) else return (key, none)

/-- The loop of `BuildCompLoop` over a map: head, exit and step; none is out of fuel. -/
def compMapLoop (exit : LoopExit) (twoIter : Bool)
    (step : CelValue → CelValue × Option CelValue → Kernel CelValue) :
    ℕ → Option MapIterState → CelValue → Kernel (Option CelValue)
  | 0, _, _ => return none
  | fuel + 1, handle, accu =>
    match celMapIterNext handle with
    | (false, _) => return some accu
    | (true, handle) => do
      let vars ← readIterVars twoIter handle
      if exit.taken accu then return some accu
      else compMapLoop exit twoIter step fuel handle (← step accu vars)

/-! ## The cursor of a handle -/

/-- A copy was counted right. -/
def Counted (handle : Option MapIterState) : Prop :=
  ∀ state ∈ handle, mapIterCount state = state.payload.length

/-- **The cursor a handle stands for.** -/
def handleCursor : Option MapIterState → Cursor (CelValue × CelValue)
  | none => .start []
  | some state => { items := state.payload, passed := state.cursor }

/-- **A step of the handle is a step of its cursor.** -/
theorem celMapIterNext_refines {handle : Option MapIterState} (h : Counted handle) :
    (celMapIterNext handle).1 = (handleCursor handle).next.1 ∧
      handleCursor (celMapIterNext handle).2 = (handleCursor handle).next.2 ∧
      Counted (celMapIterNext handle).2 := by
  cases handle with
  | none => exact ⟨rfl, rfl, h⟩
  | some state =>
    have hcount := h state rfl
    rw [celMapIterNext, hcount, handleCursor, Cursor.next]
    dsimp only
    split_ifs
    · exact ⟨rfl, rfl, h⟩
    · refine ⟨rfl, rfl, ?_⟩
      rintro _ ⟨⟩
      exact hcount

/-- A step that finds nothing changes nothing. -/
theorem celMapIterNext_of_false {handle : Option MapIterState}
    (h : (celMapIterNext handle).1 = false) : celMapIterNext handle = (false, handle) := by
  cases handle with
  | none => rfl
  | some state =>
    rw [celMapIterNext] at h ⊢
    split_ifs at h ⊢
    rfl

/-- **A read gives the entry the cursor is at.** -/
theorem copyIterEntry_of_current {handle : Option MapIterState} {e : CelValue × CelValue}
    (h : (handleCursor handle).current = some e) (wantValue : Bool) :
    copyIterEntry wantValue handle = return if wantValue then e.2 else e.1 := by
  cases handle with
  | none => exact nomatch h
  | some state =>
    rw [handleCursor, Cursor.current] at h
    dsimp only at h
    split_ifs at h with hzero
    rw [copyIterEntry, if_neg hzero, h]

/-- The handle after so many steps. -/
def steppedHandle (handle : Option MapIterState) : ℕ → Option MapIterState
  | 0 => handle
  | n + 1 => (celMapIterNext (steppedHandle handle n)).2

theorem handleCursor_stepped {handle : Option MapIterState} (h : Counted handle) (n : ℕ) :
    handleCursor (steppedHandle handle n) = (handleCursor handle).after n ∧
      Counted (steppedHandle handle n) := by
  induction n with
  | zero => exact ⟨rfl, h⟩
  | succ n ih =>
    obtain ⟨hcursor, hcounted⟩ := ih
    obtain ⟨-, hnext, hkept⟩ := celMapIterNext_refines hcounted
    exact ⟨by rw [steppedHandle, hnext, hcursor, Cursor.after], hkept⟩

/-! ## The loop -/

/-- What an iteration reads of an entry. -/
def entryVars (twoIter : Bool) (e : CelValue × CelValue) : CelValue × Option CelValue :=
  (e.1, if twoIter then some e.2 else none)

theorem readIterVars_of_current {handle : Option MapIterState} {e : CelValue × CelValue}
    (h : (handleCursor handle).current = some e) (twoIter : Bool) :
    readIterVars twoIter handle = return entryVars twoIter e := by
  rw [readIterVars, copyIterEntry_of_current h, copyIterEntry_of_current h]
  cases twoIter <;> rfl

/-- **The loop goes through the entries ahead**, and fuel for one step more is enough. -/
theorem compMapLoop_eq {exit : LoopExit} {twoIter : Bool}
    {step : CelValue → CelValue × Option CelValue → Kernel CelValue} :
    ∀ {entries : List (CelValue × CelValue)} {fuel : ℕ} {handle : Option MapIterState}
      {accu : CelValue}, Counted handle → (handleCursor handle).remaining = entries →
      entries.length < fuel →
      compMapLoop exit twoIter step fuel handle accu
        = some <$> compLoop exit (fun accu e => step accu (entryVars twoIter e)) accu entries := by
  intro entries
  induction entries with
  | nil =>
    intro fuel handle accu hcounted hahead hfuel
    obtain ⟨fuel, rfl⟩ := Nat.exists_eq_add_one.mpr hfuel
    obtain ⟨hgoes, -, -⟩ := celMapIterNext_refines hcounted
    rw [Cursor.next_of_nil hahead] at hgoes
    rcases hnext : celMapIterNext handle with ⟨goes, handle'⟩
    rw [hnext] at hgoes
    obtain rfl : goes = false := hgoes
    rw [compMapLoop, hnext]
    rfl
  | cons e entries ih =>
    intro fuel handle accu hcounted hahead hfuel
    obtain ⟨fuel, rfl⟩ := Nat.exists_eq_add_one.mpr (Nat.zero_lt_of_lt hfuel)
    obtain ⟨hgoes, hcursor, hcounted'⟩ := celMapIterNext_refines hcounted
    obtain ⟨htrue, hcurrent, hrest⟩ := Cursor.next_of_cons hahead
    rcases hnext : celMapIterNext handle with ⟨goes, handle'⟩
    rw [hnext] at hgoes hcursor hcounted'
    obtain rfl : goes = true := hgoes.trans htrue
    dsimp only at hcursor hcounted'
    rw [← hcursor] at hcurrent hrest
    rw [compMapLoop, hnext, compLoop]
    simp only [readIterVars_of_current hcurrent, pure_bind]
    by_cases hexit : exit.taken accu = true
    · rw [if_pos hexit, if_pos hexit]
      rfl
    · rw [if_neg hexit, if_neg hexit, map_bind]
      exact bind_congr fun accu => ih hcounted' hrest (Nat.lt_of_succ_lt_succ hfuel)

/-! ## The whole walk -/

section Walk

variable {host : CelHost} {m : CelValue}

/-- A handle with its cursor before the first of some entries. -/
structure Opens (entries : List (CelValue × CelValue)) (handle : Option MapIterState) : Prop where
  counted : Counted handle
  cursor : handleCursor handle = .start entries

theorem opens_none : Opens [] none := ⟨nofun, rfl⟩

theorem opens_openedState (entries : List (CelValue × CelValue)) :
    Opens entries (some (openedState entries)) := by
  refine ⟨?_, rfl⟩
  rintro _ ⟨⟩
  rfl

theorem opens_vended (poison : CelValue) :
    ∃ handle, (vendPoisonMapIterState poison).granted = .ok handle ∧
      Opens [(poison, poison)] handle := by
  refine ⟨_, rfl, ?_, rfl⟩
  rintro _ ⟨⟩
  rfl

/-- What is no map is walked as one entry of poison. -/
theorem opens_of_not_map (hshape : isMapShaped m = false) :
    ∃ handle, (celMapIterInitState host m).granted = .ok handle ∧
      Opens (let poison := if m.isPoison then m else .error .typeMismatch
        [(poison, poison)]) handle := by
  cases m with
  | mapArena | mapHost => exact nomatch hshape
  | _ => exact opens_vended _

/-- **The handle of a map is on its entries**, with memory to spare. -/
theorem opens_of_map (hshape : isMapShaped m = true) (hcopy : Copyable m) :
    ∃ handle, (celMapIterInitState host.withSnapshots m).granted = .ok handle ∧
      Opens (mapCells m) handle := by
  obtain ⟨capacity, entries, index, rfl⟩ | ⟨entries, rfl⟩ := isMapShaped_iff.mp hshape
  · cases entries with
    | nil => exact ⟨none, rfl, opens_none⟩
    | cons e entries =>
      refine ⟨_, rfl, ?_, rfl⟩
      rintro _ ⟨⟩
      rfl
  · have hopen := granted_celMapIterOpenImpl hcopy
    have hinit : (celMapIterInitState host.withSnapshots (.mapHost entries)).granted
        = (celMapIterOpenImpl (.mapHost entries)).granted >>= fun walked =>
            .ok (if (openedState walked).count = 0 then none else some (openedState walked)) := by
      change ((celMapIterOpenImpl (.mapHost entries) >>= fun walked =>
        (if (openedState walked).count = 0 then pure none else pure (some (openedState walked)) :
          Kernel (Option MapIterState)))).granted = _
      rw [Prog.granted_bind]
      refine bind_congr fun walked => ?_
      split_ifs <;> rfl
    rw [hinit, hopen]
    refine ⟨_, rfl, ?_⟩
    split_ifs with hempty
    · rw [List.eq_nil_of_length_eq_zero hempty]
      exact opens_none
    · exact opens_openedState _

/-- **A walk of some entries from the first to the last**: a step to each of them and none further,
and a loop that goes through them in the same order, all of them where nothing breaks it. -/
structure Walks (entries : List (CelValue × CelValue)) (handle : Option MapIterState) : Prop where
  step : ∀ n (h : n < entries.length),
    (celMapIterNext (steppedHandle handle n)).1 = true ∧
      ∀ wantValue, copyIterEntry wantValue (steppedHandle handle (n + 1))
        = return if wantValue then entries[n].2 else entries[n].1
  exhausted : ∀ n, entries.length ≤ n →
    celMapIterNext (steppedHandle handle n) = (false, steppedHandle handle n)
  loop : ∀ exit twoIter step fuel accu, entries.length < fuel →
    compMapLoop exit twoIter step fuel handle accu
      = some <$> compLoop exit (fun accu e => step accu (entryVars twoIter e)) accu entries
  whole : ∀ twoIter step fuel accu, entries.length < fuel →
    compMapLoop .never twoIter step fuel handle accu
      = some <$> entries.foldlM (fun accu e => step accu (entryVars twoIter e)) accu

variable {entries : List (CelValue × CelValue)} {handle : Option MapIterState}

theorem Opens.walks (h : Opens entries handle) : Walks entries handle := by
  have hafter (n : ℕ) : handleCursor (steppedHandle handle n) = (Cursor.start entries).after n := by
    rw [(handleCursor_stepped h.counted n).1, h.cursor]
  have hnext (n : ℕ) := celMapIterNext_refines (handleCursor_stepped h.counted n).2
  have hloop : ∀ exit twoIter step fuel accu, entries.length < fuel →
      compMapLoop exit twoIter step fuel handle accu
        = some <$> compLoop exit (fun accu e => step accu (entryVars twoIter e)) accu entries := by
    intro exit twoIter step fuel accu hfuel
    exact compMapLoop_eq h.counted (by rw [h.cursor]; rfl) hfuel
  refine ⟨fun n hn => ?_, fun n hn => ?_, hloop, fun twoIter step fuel accu hfuel => ?_⟩
  · obtain ⟨hgoes, hcurrent⟩ := Cursor.step_of_lt hn
    rw [← hafter] at hgoes hcurrent
    exact ⟨(hnext n).1.trans hgoes, copyIterEntry_of_current hcurrent⟩
  · have hstays := Cursor.step_of_le hn
    rw [← hafter] at hstays
    exact celMapIterNext_of_false ((hnext n).1.trans hstays)
  · rw [hloop .never twoIter step fuel accu hfuel, compLoop_eq_foldlM nofun]

/-- The count that a comprehension asks for. -/
theorem granted_celMapCount (hshape : isMapShaped m = true) (hcopy : Copyable m) :
    (celMapCount m).granted = .ok (mapCells m).length := by
  obtain ⟨capacity, entries, index, rfl⟩ | ⟨entries, rfl⟩ := isMapShaped_iff.mp hshape
  · rfl
  · have hfit := hcopy.1
    rw [kCelMapEntryStride] at hfit
    change Except.ok (entries.length % 2 ^ 32) = _
    rw [Nat.mod_eq_of_lt (by omega), mapCells, List.length_map]

/-- **A map is walked entry by entry, each once and in its order, and no further**, as often as its
count says; and what is no map, poison among it, is walked as one entry of poison, while the loop over
a poisoned range is branched past. -/
theorem mapIterator_walks_entries (host : CelHost) (m : CelValue) :
    (isMapShaped m = true → Copyable m →
      ∃ handle, (celMapIterInitState host.withSnapshots m).granted = .ok handle ∧
        Walks (mapCells m) handle ∧ (celMapCount m).granted = .ok (mapCells m).length) ∧
    (isMapShaped m = false →
      ∃ handle, (celMapIterInitState host.withSnapshots m).granted = .ok handle ∧
        Walks (let poison := if m.isPoison then m else .error .typeMismatch
          [(poison, poison)]) handle) ∧
    (m.isPoison = true →
      ∀ {α β : Type} (comp : ComprehensionExpr α) (exit : LoopExit)
        (prologue : Kernel (CelValue × List β)) (val : β → Valuation α),
        guardedLoop host comp m exit prologue val = return m) := by
  refine ⟨fun hshape hcopy => ?_, fun hshape => ?_, fun hpoison α β comp exit prologue val => ?_⟩
  · obtain ⟨handle, hinit, hopens⟩ := opens_of_map hshape hcopy
    exact ⟨handle, hinit, hopens.walks, granted_celMapCount hshape hcopy⟩
  · obtain ⟨handle, hinit, hopens⟩ := opens_of_not_map hshape
    exact ⟨handle, hinit, hopens.walks⟩
  · rw [guardedLoop, if_pos hpoison]

/-- A comprehension that keeps its accumulator. -/
def keptAccu : ComprehensionExpr Unit where
  iterVar := "k"
  iterVar2 := ""
  iterRange := .ident () "m"
  accuVar := "@result"
  accuInit := .const () (.bool true)
  loopCondition := .const () (.bool true)
  loopStep := .ident () "@result"
  result := .ident () "@result"

/-- A map of the host, a number and an error. -/
theorem mapIterator_walks_entries_each :
    (∃ handle, (celMapIterInitState CelHost.stubs.withSnapshots
        (.mapHost [(.int 1, .string [97]), (.int 1, .null)])).granted = .ok handle ∧
      Walks [(.int 1, .string [97]), (.int 1, .null)] handle) ∧
    (∃ handle, (celMapIterInitState CelHost.stubs.withSnapshots (.int 5)).granted = .ok handle ∧
      Walks [(.error .typeMismatch, .error .typeMismatch)] handle) ∧
    guardedLoop CelHost.stubs keptAccu (.error .divideByZero) .never
      (return (CelValue.bool true, [()])) (fun _ _ => .null) = return .error .divideByZero := by
  refine ⟨?_, (mapIterator_walks_entries .stubs (.int 5)).2.1 rfl,
    (mapIterator_walks_entries .stubs (.error .divideByZero)).2.2 rfl ..⟩
  obtain ⟨handle, hinit, hwalks, -⟩ := (mapIterator_walks_entries .stubs
    (.mapHost [(.int 1, .string [97]), (.int 1, .null)])).1 rfl ⟨by decide, by decide⟩
  exact ⟨handle, hinit, hwalks⟩

/-- What is no map does yield an entry. -/
theorem celMapIterNext_of_int :
    (celMapIterInitState CelHost.stubs.withSnapshots (.int 5)).granted.map
        (fun handle => (celMapIterNext handle).1) = .ok true ∧
      (celMapIterInitState CelHost.stubs.withSnapshots (.error .divideByZero)).granted.map
        (fun handle => (celMapIterNext handle).1) = .ok true :=
  ⟨rfl, rfl⟩

end Walk

end CelWasm
