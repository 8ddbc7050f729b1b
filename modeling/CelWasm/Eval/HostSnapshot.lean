import CelWasm.Eval.HostEquality
import CelWasm.Library.ProgramLogic

/-!
# Eval/HostSnapshot — host containers copied into the arena

A comprehension walks a host list or map in a copy, and so is a concatenation with a host list made.
The copy asks the arena for its runs first and then for the bytes of each string. What becomes of a
refusal differs: the bytes of a string and an empty header end in a failing status and a concatenation
is an error, but a walk whose run is refused is an empty one.
-/

namespace CelWasm

/-! ## The trampolines -/

/-- `AllocArenaList`: whether there is room for the header and the elements. -/
def allocArenaList (count : ℕ) : Kernel Bool := do
  if (2 ^ 32 - 1) / kCelListEntryStride < count then return false
  else if !(← Prog.alloc 16) then return false
  else if count = 0 then return true
  else Prog.alloc (count * kCelListEntryStride)

/-- `SnapshotHostListToArena`; none is out of memory. -/
def snapshotHostListToArena (elements : List HostValue) : Kernel (Option CelValue) := do
  if ← allocArenaList elements.length then
    return some (.listArena elements.length (← elements.mapM encodeValue))
  else return none

/-- `WriteEmptyArenaList`. -/
def writeEmptyArenaList : Kernel CelValue := do
  if ← allocArenaList 0 then return .listArena 0 [] else Prog.stop .hostFailure

/-- **`CelListIterOpenImpl`**: an empty list where the copy is refused. -/
def celListIterOpenImpl (list : CelValue) : Kernel CelValue :=
  if list.isPoison then Prog.stop .hostFailure
  else
    match list with
    | .listHost [] => writeEmptyArenaList
    | .listHost elements => do
      match ← snapshotHostListToArena elements with
      | some snapshot => return snapshot
      | none => writeEmptyArenaList
    | _ => writeEmptyArenaList

/-- `SnapshotMapEntriesToArena`; none is out of memory. The size of the run is computed in 32 bits,
and past that the entries are written beyond it. -/
def snapshotMapEntriesToArena (entries : List (HostValue × HostValue)) :
    Kernel (Option (List (CelValue × CelValue))) := do
  if !(← Prog.alloc (entries.length * kCelMapEntryStride % 2 ^ 32)) then return none
  else if 2 ^ 32 ≤ entries.length * kCelMapEntryStride then Prog.stop .wildRead
  else return some (← entries.mapM encodeEntry)

/-- **`CelMapIterOpenImpl`**: no entries where the copy is refused. -/
def celMapIterOpenImpl (m : CelValue) : Kernel (List (CelValue × CelValue)) :=
  if m.isPoison then Prog.stop .hostFailure
  else
    match m with
    | .mapHost [] => return []
    | .mapHost entries => do return (← snapshotMapEntriesToArena entries).getD []
    | _ => return []

/-- `CopyListElementsIntoRun`. -/
def copyListElementsIntoRun (list : CelValue) : Kernel (List CelValue) :=
  (listElements list).mapM Element.read

/-- **`CelListConcatImpl`**. -/
def celListConcatImpl (a b : CelValue) : Kernel CelValue :=
  absorbBinary a b <|
    if !isListShaped a || !isListShaped b then return .error .typeMismatch
    else do
      let count := (listElements a).length + (listElements b).length
      if ← allocArenaList count then
        let xs ← copyListElementsIntoRun a
        let ys ← copyListElementsIntoRun b
        return .listArena count (xs ++ ys)
      else return .error .overflow

/-- The imports with the copies of host containers. -/
def CelHost.withSnapshots (host : CelHost) : CelHost :=
  { host with
    mapIterOpen := celMapIterOpenImpl
    listIterOpen := celListIterOpenImpl
    listConcat := celListConcatImpl }

/-! ## What a copy is -/

/-- What a copy may stop with: a failing status, a failed check, or a run written beyond its end. -/
inductive Stop.OfCopy : Stop → Prop
  | hostFailure : OfCopy .hostFailure
  | abort : OfCopy .abort
  | wildRead : OfCopy .wildRead

/-- What a run may stop with, short of a trap of a kernel's own. -/
abbrev Untrapped (s : Stop) : Prop := s ≠ .trap

/-- A copy has no trap of its own. -/
theorem Stop.OfCopy.untrapped {s : Stop} (h : s.OfCopy) : Untrapped s := by
  cases h <;> exact nofun

/-- The cell a value of the host is copied into; an unknown and a type never are. -/
def HostValue.cell (v : HostValue) : CelValue := v.encoded.getD .null

/-- The elements of a list, as cells. -/
def listCells : CelValue → List CelValue
  | .listArena _ elements => elements
  | .listHost elements => elements.map HostValue.cell
  | _ => []

theorem encodeSpan_meets (bytes : List UInt8) (cell : CelValue) :
    (encodeSpan bytes cell).Meets (cell = ·) Stop.OfCopy :=
  Prog.meets_alloc_bind.mpr ⟨Prog.meets_ite (fun _ => .hostFailure) fun _ => rfl, rfl⟩

/-- **A value is written as its cell.** -/
theorem encodeValue_meets (v : HostValue) : (encodeValue v).Meets (v.cell = ·) Stop.OfCopy := by
  cases v with
  | string s => exact encodeSpan_meets s _
  | bytes s => exact encodeSpan_meets s _
  | timestamp t =>
    rw [encodeValue, AbslDuration.sub_ofSeconds_zero]
    exact rfl
  | unknown ids => exact .abort
  | type name => exact .abort
  | _ => exact rfl

theorem encodeEntry_meets (e : HostValue × HostValue) :
    (encodeEntry e).Meets ((e.1.cell, e.2.cell) = ·) Stop.OfCopy := by
  refine (encodeValue_meets e.1).bind fun key hkey => ?_
  refine (encodeValue_meets e.2).bind fun value hvalue => ?_
  rw [hkey, hvalue]
  exact rfl

theorem allocArenaList_meets (count : ℕ) :
    (allocArenaList count).Meets (fun _ => True) Stop.OfCopy :=
  Prog.meets_ite (fun _ => trivial) fun _ => Prog.meets_alloc_bind.mpr
    ⟨trivial, Prog.meets_ite (fun _ => trivial) fun _ =>
      Prog.meets_ite (fun _ => trivial) fun _ _ => trivial⟩

/-- **The copy of a list** has its elements, or none where it is refused. -/
theorem celListIterOpenImpl_meets (elements : List HostValue) :
    (celListIterOpenImpl (.listHost elements)).Meets (fun view => ∃ capacity cells,
      view = .listArena capacity cells ∧ (cells = elements.map HostValue.cell ∨ cells = []))
      Stop.OfCopy := by
  have hempty : writeEmptyArenaList.Meets (fun view => ∃ capacity cells,
      view = .listArena capacity cells ∧ (cells = elements.map HostValue.cell ∨ cells = []))
      Stop.OfCopy :=
    (allocArenaList_meets 0).bind fun _ _ =>
      Prog.meets_ite (fun _ => ⟨0, [], rfl, .inr rfl⟩) fun _ => .hostFailure
  have hsnapshot : (snapshotHostListToArena elements).Meets (fun o => ∀ view ∈ o,
      ∃ capacity cells, view = CelValue.listArena capacity cells ∧
        (cells = elements.map HostValue.cell ∨ cells = [])) Stop.OfCopy :=
    (allocArenaList_meets _).bind fun _ _ => Prog.meets_ite
      (fun _ => (Prog.meets_mapM_eq encodeValue_meets elements).bind fun cells hcells view hview =>
        ⟨_, cells, (Option.some.inj hview).symm, .inl hcells.symm⟩)
      fun _ => nofun
  cases elements with
  | nil => exact hempty
  | cons e elements =>
    refine hsnapshot.bind fun o ho => ?_
    cases o with
    | none => exact hempty
    | some view => exact ho view rfl

/-- **The copy of a map** has its entries, or none where it is refused. -/
theorem celMapIterOpenImpl_meets (entries : List (HostValue × HostValue)) :
    (celMapIterOpenImpl (.mapHost entries)).Meets
      (fun walked => walked = entries.map (fun e => (e.1.cell, e.2.cell)) ∨ walked = [])
      Stop.OfCopy := by
  have hsnapshot : (snapshotMapEntriesToArena entries).Meets (fun o => ∀ walked ∈ o,
      walked = entries.map fun e => (e.1.cell, e.2.cell)) Stop.OfCopy := by
    refine Prog.meets_alloc_bind.mpr ⟨nofun, ?_⟩
    refine Prog.meets_ite (fun _ => nofun) fun _ =>
      Prog.meets_ite (fun _ => Stop.OfCopy.wildRead) fun _ => ?_
    refine (Prog.meets_mapM_eq encodeEntry_meets entries).bind fun cells hcells => ?_
    rintro _ ⟨⟩
    exact hcells.symm
  cases entries with
  | nil => exact .inr rfl
  | cons e entries =>
    refine hsnapshot.bind fun o ho => ?_
    cases o with
    | none => exact .inr rfl
    | some walked => exact .inl (ho walked rfl)

/-- **What a list is viewed as**: its elements, none of them, or one of poison. -/
theorem celListArenaView_withSnapshots_meets (host : CelHost) (list : CelValue) :
    (celListArenaView host.withSnapshots list).Meets
      (fun elements => elements = listCells list ∨ elements = [] ∨
        ∃ poison, elements = [poison] ∧ poison.isPoison = true) Stop.OfCopy := by
  cases list with
  | listArena capacity elements => exact .inl rfl
  | listHost elements =>
    refine Prog.meets_alloc_bind.mpr ⟨fun _ => .inr (.inr ⟨.error .overflow, rfl, rfl⟩), ?_⟩
    refine (celListIterOpenImpl_meets elements).bind fun view hview => ?_
    obtain ⟨capacity, cells, rfl, hcells⟩ := hview
    exact hcells.imp_right .inl
  | unknown ids => exact fun _ => .inr (.inr ⟨.unknown ids, rfl, rfl⟩)
  | error code => exact fun _ => .inr (.inr ⟨.error code, rfl, rfl⟩)
  | _ => exact fun _ => .inr (.inr ⟨.error .typeMismatch, rfl, rfl⟩)

end CelWasm
