import CelWasm.Eval.FieldAccess

/-!
# Eval/FieldHistory — histories of field accesses

A history is a sequence of `Eval`s, each with its patterns and with the accesses, the encodings and
the guest's own steps in it; messages may change from step to step, and the caches of the sites last.
A history is run with the caches or without: then every access resolves its field anew, and encodes
the value it has read.
-/

namespace CelWasm

/-! ## Histories -/

/-- What happens in an `Eval`: an access to a field, a value of the host that is encoded into a cell,
and what the guest does to its cells and its memory. -/
inductive FieldEvent (Msg Field Mem : Type)
  | get (out msgSlot fieldRefId attributeId : ℕ)
  | has (out msgSlot fieldRefId attributeId : ℕ)
  | encode (out : ℕ) (v : FieldValue Msg Field)
  | copy (out src : ℕ)
  | put (out : ℕ) (cell : WireCell)
  | linear (f : Mem → Mem)

/-- An event, and the messages as they are then. -/
structure FieldStep (Msg Desc Field Mem : Type) where
  messages : Reflections Msg Desc Field
  event : FieldEvent Msg Field Mem

/-- An `Eval`. -/
structure FieldEval (Msg Desc Field Mem : Type) where
  unknownPatterns : List AttributePattern
  steps : List (FieldStep Msg Desc Field Mem)

/-- What comes of a step: a cell is written, a failing status traps the guest, a check fails, or the
host has no part in it. -/
inductive FieldOutcome
  | wrote (cell : WireCell)
  | failed (code : StatusCode)
  | aborted
  | silent

/-- The `Eval` is over. -/
def FieldOutcome.ends : FieldOutcome → Bool
  | failed _ | aborted => true
  | wrote _ | silent => false

section Runs

variable {Msg Desc Field Mem : Type} [DecidableEq Msg] [DecidableEq Field] [DecidableEq Desc]
  (A : ArenaAllocator Mem) (B : CelHostBindings) (D : Schema Desc Field)

/-- The outcome of a trampoline that writes a cell. -/
def FieldHost.outcome (out : ℕ) (r : Except FieldFailure Unit × FieldHost Msg Field Mem) :
    FieldOutcome :=
  match r.1 with
  | .ok _ => .wrote (r.2.slots out)
  | .error (.failed status) => .failed status.code
  | .error .aborted => .aborted

/-- The guest writes a cell. -/
def FieldHost.guestWrite (h : FieldHost Msg Field Mem) (out : ℕ) (cell : WireCell) :
    FieldHost Msg Field Mem :=
  { h with slots := Function.update h.slots out cell }

/-- What a run is at: the host, and the caches of the sites. -/
abbrev FieldState (Msg Desc Field Mem : Type) [DecidableEq Msg] [DecidableEq Field] :=
  FieldHost Msg Field Mem × SiteCaches Desc Field

/-- A step, with the caches or without. -/
def FieldStep.run (cached : Bool) (step : FieldStep Msg Desc Field Mem)
    (s : FieldState Msg Desc Field Mem) : FieldOutcome × FieldState Msg Desc Field Mem :=
  let (h, caches) := s
  match step.event with
  | .get out msgSlot fieldRefId attributeId =>
    let (status, h, caches) :=
      if cached then
        celGetFieldImpl A B D step.messages h caches out msgSlot fieldRefId attributeId
      else
        caches.leftBy
          (h.celGetFieldUncached A B D step.messages out msgSlot fieldRefId attributeId)
    (FieldHost.outcome out (status, h), h, caches)
  | .has out msgSlot fieldRefId attributeId =>
    let (status, h, caches) :=
      if cached then
        celHasFieldImpl A B D step.messages h caches out msgSlot fieldRefId attributeId
      else
        caches.leftBy
          (h.celHasFieldUncached A B D step.messages out msgSlot fieldRefId attributeId)
    (FieldHost.outcome out (status, h), h, caches)
  | .encode out v =>
    let (status, h) := h.encodeFieldResult A out v
    (FieldHost.outcome out (status, h), h, caches)
  | .copy out src => (.silent, h.guestWrite out (h.slots src), caches)
  | .put out cell => (.silent, h.guestWrite out cell, caches)
  | .linear f => (.silent, { h with mem := f h.mem }, caches)

/-- The steps of an `Eval`, up to the first that ends it. -/
def runFieldSteps (cached : Bool) : List (FieldStep Msg Desc Field Mem) →
    FieldState Msg Desc Field Mem → List FieldOutcome × FieldState Msg Desc Field Mem
  | [], s => ([], s)
  | step :: rest, s =>
    let (outcome, s) := step.run A B D cached s
    if outcome.ends then ([outcome], s)
    else
      let (outcomes, s) := runFieldSteps cached rest s
      (outcome :: outcomes, s)

/-- `Eval` begins with a reset of the tables. -/
def resetTables (s : FieldState Msg Desc Field Mem) : FieldState Msg Desc Field Mem :=
  ({ s.1 with refs := s.1.refs.reset }, s.2)

/-- An `Eval`, or a `PartialEval`. -/
def FieldEval.run (cached : Bool) (eval : FieldEval Msg Desc Field Mem)
    (s : FieldState Msg Desc Field Mem) : List FieldOutcome × FieldState Msg Desc Field Mem :=
  runFieldSteps A { B with unknownPatterns := eval.unknownPatterns } D cached eval.steps
    (resetTables s)

/-- **A history**: what each `Eval` came to, and what it left. -/
def runFieldEvals (cached : Bool) : List (FieldEval Msg Desc Field Mem) →
    FieldState Msg Desc Field Mem → List (List FieldOutcome × FieldState Msg Desc Field Mem)
  | [], _ => []
  | eval :: rest, s =>
    let r := eval.run A B D cached s
    r :: runFieldEvals cached rest r.2

/-! ## What the reads of a history meet -/

/-- What a step reads through a site: the site, a message of protobuf, and the field. -/
def FieldEvent.reads (h : FieldHost Msg Field Mem) :
    FieldEvent Msg Field Mem → Option (ℕ × Msg × FieldRefEntry)
  | .get _ msgSlot fieldRefId attributeId | .has _ msgSlot fieldRefId attributeId =>
    match h.fieldPrelude B msgSlot fieldRefId attributeId with
    | .found (.proto m) site => some (fieldRefId, m, site)
    | _ => none
  | .encode .. | .copy .. | .put .. | .linear _ => none

/-- **A message knows a cached extension**: where the cache is for the message's descriptor, and the
descriptor has no such field itself, the message's reflection knows by the name the field that is
cached. -/
def ResolvedFieldCache.Known (R : Reflections Msg Desc Field) (c : ResolvedFieldCache Desc Field)
    (m : Msg) (site : FieldRefEntry) : Prop :=
  c.owner = some (R.descriptor m) →
    D.ownField (R.descriptor m) (.ofNat site.fieldNumber) site.fieldName = none →
      R.findKnownExtensionByName m site.fieldName = c.field

/-- A step's message knows what its site has cached. -/
def FieldStep.Knows (step : FieldStep Msg Desc Field Mem) (s : FieldState Msg Desc Field Mem) :
    Prop :=
  ∀ fieldRefId m site, step.event.reads B s.1 = some (fieldRefId, m, site) →
    (s.2 fieldRefId).Known D step.messages m site

/-- All messages of an `Eval` do. -/
def KnowingSteps : List (FieldStep Msg Desc Field Mem) → FieldState Msg Desc Field Mem → Prop
  | [], _ => True
  | step :: rest, s =>
    step.Knows B D s ∧
      ((step.run A B D true s).1.ends = false → KnowingSteps rest (step.run A B D true s).2)

/-- **All messages of a history know what is cached at the sites they are read through.** -/
def KnowingEvals : List (FieldEval Msg Desc Field Mem) → FieldState Msg Desc Field Mem → Prop
  | [], _ => True
  | eval :: rest, s =>
    KnowingSteps A { B with unknownPatterns := eval.unknownPatterns } D eval.steps (resetTables s) ∧
      KnowingEvals rest (eval.run A B D true s).2

end Runs

/-! ## Cells at other slots -/

/-- A cell with its slots of maps and lists renamed. -/
def Cell.rename (maps lists : ℕ → ℕ) : WireCell → WireCell
  | mapHost slot => mapHost (maps slot)
  | listHost slot => listHost (lists slot)
  | cell => cell

/-- A cell without the slot of a map or a list. -/
def Cell.unslotted : WireCell → WireCell := Cell.rename (fun _ => 0) fun _ => 0

/-- An outcome with the slots renamed. -/
def FieldOutcome.rename (maps lists : ℕ → ℕ) : FieldOutcome → FieldOutcome
  | wrote cell => wrote (cell.rename maps lists)
  | outcome => outcome

/-- **A cell is another, at the slots of the renaming**, which has them. -/
inductive CellMoves (maps lists : List ℕ) : WireCell → WireCell → Prop
  | mapHost {slot slot' : ℕ} (h : slotRow maps slot = some slot') :
    CellMoves maps lists (.mapHost slot) (.mapHost slot')
  | listHost {slot slot' : ℕ} (h : slotRow lists slot = some slot') :
    CellMoves maps lists (.listHost slot) (.listHost slot')
  | same {cell : WireCell} (h : ∀ f g, cell.rename f g = cell) : CellMoves maps lists cell cell

/-- An outcome is another, at the slots of the renaming. -/
inductive OutcomeMoves (maps lists : List ℕ) : FieldOutcome → FieldOutcome → Prop
  | wrote {cell cell' : WireCell} (h : CellMoves maps lists cell cell') :
    OutcomeMoves maps lists (.wrote cell) (.wrote cell')
  | failed {code : StatusCode} : OutcomeMoves maps lists (.failed code) (.failed code)
  | aborted : OutcomeMoves maps lists .aborted .aborted
  | silent : OutcomeMoves maps lists .silent .silent

section Moves

variable {maps lists maps' lists' : List ℕ} {cell cell' : WireCell} {o o' : FieldOutcome}

theorem CellMoves.mono (h : CellMoves maps lists cell cell') (hmaps : maps <+: maps')
    (hlists : lists <+: lists') : CellMoves maps' lists' cell cell' := by
  cases h with
  | mapHost h => exact .mapHost (slotRow_mono hmaps h)
  | listHost h => exact .listHost (slotRow_mono hlists h)
  | same h => exact .same h

theorem OutcomeMoves.mono (h : OutcomeMoves maps lists o o') (hmaps : maps <+: maps')
    (hlists : lists <+: lists') : OutcomeMoves maps' lists' o o' := by
  cases h with
  | wrote h => exact .wrote (h.mono hmaps hlists)
  | failed => exact .failed
  | aborted => exact .aborted
  | silent => exact .silent

theorem CellMoves.eq_rename (h : CellMoves maps lists cell cell') :
    cell' = cell.rename (renameSlot maps) (renameSlot lists) := by
  cases h with
  | mapHost h => exact congrArg Cell.mapHost (renameSlot_eq h).symm
  | listHost h => exact congrArg Cell.listHost (renameSlot_eq h).symm
  | same h => exact (h _ _).symm

theorem OutcomeMoves.eq_rename (h : OutcomeMoves maps lists o o') :
    o' = o.rename (renameSlot maps) (renameSlot lists) := by
  cases h with
  | wrote h => exact congrArg FieldOutcome.wrote h.eq_rename
  | failed | aborted | silent => rfl

/-- But for the slots the cells are the same. -/
theorem CellMoves.unslotted_eq (h : CellMoves maps lists cell cell') :
    cell'.unslotted = cell.unslotted := by
  cases h with
  | mapHost | listHost | same => rfl

theorem OutcomeMoves.ends_eq (h : OutcomeMoves maps lists o o') : o'.ends = o.ends := by
  cases h with
  | wrote | failed | aborted | silent => rfl

end Moves

end CelWasm
