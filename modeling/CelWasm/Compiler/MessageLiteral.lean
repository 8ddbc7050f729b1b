import CelWasm.Compiler.Comprehension
import CelWasm.Eval.SetField

/-!
# Compiler/MessageLiteral — message literals whose fields are poison

The first field that does not simply write decides what becomes of a literal: an ERROR in the cell
outlasts every later call, an UNKNOWN is left by the calls for optional fields and fails the first
call for a plain one. So the literal propagates the poison of its fields only when that first field
carries it.
-/

namespace CelWasm

variable {F M α : Type}

/-- The fields of a literal, with what their expressions evaluate to. -/
def structFields (val : Valuation α) (fields : List (String × Bool)) (values : List (Expr α)) :
    List StructField :=
  List.zipWith (fun field e => { name := field.1, optional := field.2, value := val e }) fields values

/-- **`EmitKStructExpr`**: make the message, assign the fields in order, and unwrap a well-known
message (`MaybeEmitWktUnwrapTailCall`). -/
def emitKStructExpr (writers : FieldWriters F M) (handle : ℕ) (prototype : String → Option M)
    (unwrap : String → Option (M → Kernel CelValue)) (val : Valuation α) (name : String)
    (fields : List (String × Bool)) (values : List (Expr α)) : Kernel CelValue := do
  let c ← (structFields val fields values).foldlM (setField writers)
    (celMakeMessage handle (prototype name))
  match unwrap name with
  | some unwrap => celWktUnwrap unwrap c
  | none => return c.slot

/-! ## What a literal should come to -/

/-- A field is assigned an ERROR. -/
def StructField.AssignsError (f : StructField) : Prop := ∃ e, f.assigned = some (.error e)

/-- The ids of the UNKNOWN a field is assigned. -/
def StructField.assignedIds (f : StructField) : UnknownSet :=
  (f.assigned.map CelValue.unknownIds).getD ∅

/-- The ids of every UNKNOWN that is assigned. -/
def assignedIds : List StructField → UnknownSet
  | [] => ∅
  | f :: fields => f.assignedIds ∪ assignedIds fields

/-- **A literal propagates poison**: it comes to an ERROR if a field is assigned one, and otherwise
to the UNKNOWN of all the ids assigned. -/
def PropagatesPoison (fields : List StructField) (result : Outcome CelValue) : Prop :=
  ((∃ f ∈ fields, f.AssignsError) ∧ ∃ e, result = .ok (.error e)) ∨
    ((∀ f ∈ fields, ¬f.AssignsError) ∧ result = .ok (.unknown (assignedIds fields)))

/-- **The first field that does not write carries the literal's poison.** -/
def FirstCarriesPoison (writers : FieldWriters F M) (fields : List StructField) : Prop :=
  ∃ before f after, fields = before ++ f :: after ∧
    (∀ g ∈ before, ∃ write, g.effect writers = .writes write) ∧
    (((∃ e, f.effect writers = .poisons (.error e)) ∧ ∃ g ∈ fields, g.AssignsError) ∨
      ∃ s, f.effect writers = .poisons (.unknown s) ∧
        ∀ g ∈ after, g.optional = true ∧ ¬g.AssignsError ∧ g.assignedIds ⊆ s)

theorem mem_assignedIds {fields : List StructField} {id : ℕ} :
    id ∈ assignedIds fields ↔ ∃ f ∈ fields, id ∈ f.assignedIds := by
  induction fields with
  | nil => simp [assignedIds]
  | cons f fields ih => simp [assignedIds, ih]

section Effects

variable {writers : FieldWriters F M} {f : StructField}

/-- A field that writes is assigned no poison. -/
theorem StructField.live_of_writes {write : M → M} (h : f.effect writers = .writes write) :
    ∀ v, f.assigned = some v → v.isPoison = false := by
  intro v hv
  rw [StructField.effect, hv] at h
  dsimp only at h
  by_contra hpoison
  rw [if_pos (by simpa using hpoison)] at h
  cases h

theorem StructField.assignedIds_of_live (h : ∀ v, f.assigned = some v → v.isPoison = false) :
    ¬f.AssignsError ∧ f.assignedIds = ∅ := by
  refine ⟨fun ⟨e, he⟩ => by simpa using h _ he, ?_⟩
  rw [StructField.assignedIds]
  cases hv : f.assigned with
  | none => rfl
  | some v =>
    have hlive := h v hv
    cases v <;> first | rfl | simp [CelValue.isPoison] at hlive

/-- What a field poisons the cell with is an ERROR or the UNKNOWN it is assigned. -/
theorem StructField.poisons_cases {v : CelValue} (h : f.effect writers = .poisons v) :
    (∃ e, v = .error e) ∨ ∃ s, v = .unknown s ∧ f.assigned = some (.unknown s) := by
  rw [StructField.effect] at h
  cases hassigned : f.assigned with
  | none => rw [hassigned] at h; cases h
  | some value =>
    rw [hassigned] at h
    dsimp only at h
    split_ifs at h with hpoison
    · cases h
      obtain ⟨e, rfl⟩ | ⟨s, rfl⟩ := CelValue.isPoison_iff.mp hpoison
      · exact .inl ⟨e, rfl⟩
      · exact .inr ⟨s, rfl, rfl⟩
    · split at h
      · cases h
      · cases h
        exact .inl ⟨_, rfl⟩
      · cases h
      · cases h

end Effects

/-! ## Runs of calls -/

section Runs

variable {writers : FieldWriters F M} {handle : ℕ}

/-- Fields that write leave a message in the cell. -/
theorem granted_writes : ∀ {fields : List StructField} {message : M},
    (∀ f ∈ fields, (writers.descriptor f.name).isSome = true) →
    (∀ f ∈ fields, ∃ write, f.effect writers = .writes write) →
    ∃ message', (fields.foldlM (setField writers)
      { slot := .message handle, backing := some message }).granted
        = .ok { slot := .message handle, backing := some message' }
  | [], message, _, _ => ⟨message, rfl⟩
  | f :: fields, message, hnames, hwrites => by
    rw [List.forall_mem_cons] at hnames hwrites
    obtain ⟨write, hwrite⟩ := hwrites.1
    obtain ⟨message', hrest⟩ := @granted_writes _ (write message) hnames.2 hwrites.2
    refine ⟨message', ?_⟩
    rw [List.foldlM_cons, Prog.granted_bind, setField_message hnames.1, hwrite]
    exact hrest

/-- An ERROR stays to the end. -/
theorem foldlM_error {e : CelErr} {backing : Option M} (fields : List StructField) :
    fields.foldlM (setField writers) { slot := .error e, backing }
      = return { slot := .error e, backing } := by
  induction fields with
  | nil => rfl
  | cons f fields ih => rw [List.foldlM_cons, setField_error, pure_bind, ih]

/-- An UNKNOWN stays while the fields are optional. -/
theorem foldlM_unknown {s : UnknownSet} {backing : Option M} {fields : List StructField}
    (h : ∀ f ∈ fields, f.optional = true) :
    fields.foldlM (setField writers) { slot := .unknown s, backing }
      = return { slot := .unknown s, backing } := by
  induction fields with
  | nil => rfl
  | cons f fields ih =>
    rw [List.forall_mem_cons] at h
    rw [List.foldlM_cons, setField_unknown, if_pos h.1, pure_bind, ih h.2]

/-- The first plain field after an UNKNOWN fails the literal. -/
theorem foldlM_unknown_plain {s : UnknownSet} {backing : Option M} {fields : List StructField}
    (h : ∃ f ∈ fields, f.optional = false) :
    fields.foldlM (setField writers) { slot := .unknown s, backing } = Prog.stop .hostFailure := by
  induction fields with
  | nil => simp at h
  | cons f fields ih =>
    rw [List.foldlM_cons, setField_unknown]
    cases hoptional : f.optional with
    | false => rfl
    | true =>
      rw [if_pos rfl, pure_bind]
      refine ih ?_
      simpa [hoptional] using h

end Runs

/-! ## The literal -/

section Literal

variable {writers : FieldWriters F M} {handle : ℕ} {prototype : String → Option M}
  {unwrap : String → Option (M → Kernel CelValue)} {val : Valuation α} {name : String}
  {fields : List (String × Bool)} {values : List (Expr α)} {message : M}

/-- What the calls up to the first that does not write, and those after it, come to. -/
theorem granted_emitKStructExpr {before : List StructField} {f : StructField}
    {after : List StructField} (hprototype : prototype name = some message)
    (hsplit : structFields val fields values = before ++ f :: after)
    (hnames : ∀ f ∈ structFields val fields values, (writers.descriptor f.name).isSome = true)
    (hbefore : ∀ g ∈ before, ∃ write, g.effect writers = .writes write) :
    (∀ e, f.effect writers = .poisons (.error e) →
      (emitKStructExpr writers handle prototype unwrap val name fields values).granted
        = .ok (.error e)) ∧
    (∀ s, f.effect writers = .poisons (.unknown s) →
      (emitKStructExpr writers handle prototype unwrap val name fields values).granted
        = if ∀ g ∈ after, g.optional = true then .ok (.unknown s) else .error .hostFailure) ∧
    (f.effect writers = .fails →
      (emitKStructExpr writers handle prototype unwrap val name fields values).granted
        = .error .hostFailure) := by
  rw [hsplit, List.forall_mem_append, List.forall_mem_cons] at hnames
  obtain ⟨message', hrun⟩ := @granted_writes F M writers handle before message hnames.1 hbefore
  have hcalls : (emitKStructExpr writers handle prototype unwrap val name fields values).granted
      = (setField writers { slot := .message handle, backing := some message' } f).granted >>=
          fun c => (after.foldlM (setField writers) c >>= fun c =>
            match unwrap name with
            | some unwrap => celWktUnwrap unwrap c
            | none => return c.slot).granted := by
    rw [emitKStructExpr, hsplit, hprototype, celMakeMessage, List.foldlM_append, bind_assoc,
      Prog.granted_bind, hrun]
    change ((f :: after).foldlM (setField writers) _ >>= _).granted = _
    rw [List.foldlM_cons, bind_assoc, Prog.granted_bind]
  rw [hcalls, setField_message hnames.2.1]
  refine ⟨fun e he => ?_, fun s hs => ?_, fun hfails => ?_⟩
  · rw [he]
    change (after.foldlM (setField writers) _ >>= _).granted = _
    rw [foldlM_error, pure_bind]
    cases unwrap name <;> rfl
  · rw [hs]
    change (after.foldlM (setField writers) _ >>= _).granted = _
    split_ifs with hoptional
    · rw [foldlM_unknown hoptional, pure_bind]
      cases unwrap name <;> rfl
    · rw [foldlM_unknown_plain (by simpa using hoptional)]
      rfl
  · rw [hfails]
    rfl

/-- A literal with a poisoned field has a first field that does not write. -/
theorem exists_first_not_writes {entries : List StructField}
    (h : ∃ f ∈ entries, ∃ v, f.assigned = some v ∧ v.isPoison = true) :
    ∃ before f after, entries = before ++ f :: after ∧
      (∀ g ∈ before, ∃ write, g.effect writers = .writes write) ∧
      ¬∃ write, f.effect writers = .writes write := by
  classical
  obtain ⟨f, hf, v, hv, hpoison⟩ := h
  have hsome : (entries.find? fun f => decide (¬∃ write, f.effect writers = .writes write)).isSome := by
    rw [List.find?_isSome]
    refine ⟨f, hf, decide_eq_true fun ⟨write, hwrite⟩ => ?_⟩
    rw [StructField.live_of_writes hwrite v hv] at hpoison
    exact nomatch hpoison
  obtain ⟨g, hg⟩ := Option.isSome_iff_exists.mp hsome
  obtain ⟨hnot, before, after, hsplit, hbefore⟩ := List.find?_eq_some_iff_append.mp hg
  exact ⟨before, g, after, hsplit, fun b hb => by simpa using hbefore b hb, of_decide_eq_true hnot⟩

/-- The ids of the whole literal, where its first poison is an UNKNOWN that has them all. -/
theorem assignedIds_eq_iff {before : List StructField} {f : StructField} {after : List StructField}
    {s : UnknownSet} (hbefore : ∀ g ∈ before, ∃ write, g.effect writers = .writes write)
    (hf : f.assigned = some (.unknown s)) :
    assignedIds (before ++ f :: after) = s ↔ ∀ g ∈ after, g.assignedIds ⊆ s := by
  have hown : f.assignedIds = s := by rw [StructField.assignedIds, hf]; rfl
  have hnone : ∀ g ∈ before, g.assignedIds = ∅ := fun g hg => by
    obtain ⟨write, hwrite⟩ := hbefore g hg
    exact (StructField.assignedIds_of_live (StructField.live_of_writes hwrite)).2
  constructor
  · intro hall g hg id hid
    rw [← hall]
    exact mem_assignedIds.mpr ⟨g, by simp [hg], hid⟩
  · intro hsub
    ext id
    rw [mem_assignedIds]
    constructor
    · rintro ⟨g, hg, hid⟩
      rw [List.mem_append, List.mem_cons] at hg
      obtain hg | rfl | hg := hg
      · rw [hnone g hg] at hid
        exact absurd hid (SortedSet.notMem_empty id)
      · exact hown ▸ hid
      · exact hsub g hg id hid
    · exact fun hid => ⟨f, by simp, hown.symm ▸ hid⟩

/-- **A message literal with a poisoned field propagates poison** if and only if the first field that
does not write carries it. -/
theorem messageLiteral_propagates_iff (hprototype : prototype name = some message)
    (hnames : ∀ f ∈ structFields val fields values, (writers.descriptor f.name).isSome = true)
    (hpoison : ∃ f ∈ structFields val fields values, ∃ v, f.assigned = some v ∧ v.isPoison = true) :
    PropagatesPoison (structFields val fields values)
        (emitKStructExpr writers handle prototype unwrap val name fields values).granted ↔
      FirstCarriesPoison writers (structFields val fields values) := by
  constructor
  · intro hresult
    obtain ⟨before, f, after, hsplit, hbefore, hf⟩ := exists_first_not_writes hpoison
    obtain ⟨herror, hunknown, hfails⟩ :=
      granted_emitKStructExpr hprototype hsplit hnames hbefore
    refine ⟨before, f, after, hsplit, hbefore, ?_⟩
    cases heffect : f.effect writers with
    | writes write => exact (hf ⟨write, heffect⟩).elim
    | fails =>
      rw [hfails heffect] at hresult
      obtain ⟨-, e, he⟩ | ⟨-, hs⟩ := hresult
      · exact nomatch he
      · exact nomatch hs
    | poisons v =>
      obtain ⟨e, rfl⟩ | ⟨s, rfl, hassigned⟩ := StructField.poisons_cases heffect
      · rw [herror e heffect] at hresult
        obtain ⟨hexists, -⟩ | ⟨-, hs⟩ := hresult
        · exact .inl ⟨⟨e, rfl⟩, hexists⟩
        · exact nomatch hs
      · rw [hunknown s heffect] at hresult
        split_ifs at hresult with hoptional
        · obtain ⟨-, e, he⟩ | ⟨hnone, hs⟩ := hresult
          · exact nomatch he
          · rw [hsplit] at hs hnone
            have hids := (assignedIds_eq_iff hbefore hassigned).mp
              (CelValue.unknown.inj (Except.ok.inj hs)).symm
            exact .inr ⟨s, rfl, fun g hg => ⟨hoptional g hg, hnone g (by simp [hg]), hids g hg⟩⟩
        · obtain ⟨-, e, he⟩ | ⟨-, hs⟩ := hresult
          · exact nomatch he
          · exact nomatch hs
  · rintro ⟨before, f, after, hsplit, hbefore, hcarries⟩
    obtain ⟨herror, hunknown, -⟩ :=
      granted_emitKStructExpr hprototype hsplit hnames hbefore
    obtain ⟨⟨e, he⟩, hexists⟩ | ⟨s, hs, hafter⟩ := hcarries
    · exact .inl ⟨hexists, e, herror e he⟩
    · have hassigned : f.assigned = some (.unknown s) := by
        obtain ⟨e, he⟩ | ⟨t, ht, hassigned⟩ := StructField.poisons_cases hs
        · exact nomatch he
        · exact CelValue.unknown.inj ht ▸ hassigned
      refine .inr ⟨?_, ?_⟩
      · rw [hsplit, List.forall_mem_append, List.forall_mem_cons]
        refine ⟨fun g hg => ?_, fun ⟨e, he⟩ => ?_, fun g hg => (hafter g hg).2.1⟩
        · obtain ⟨write, hwrite⟩ := hbefore g hg
          exact (StructField.assignedIds_of_live (StructField.live_of_writes hwrite)).1
        · exact nomatch hassigned.symm.trans he
      · rw [hunknown s hs, if_pos fun g hg => (hafter g hg).1, hsplit,
          (assignedIds_eq_iff hbefore hassigned).mpr fun g hg => (hafter g hg).2.2]

end Literal

/-- A type whose every write succeeds. -/
def openWriters : FieldWriters Unit Unit where
  descriptor _ := some ()
  dispatch _ _ := .ok id

/-- The values of `x` and of every other expression. -/
def twoValues (x other : CelValue) : Valuation Unit := fun e => if e.isIdentNamed "x" then x else other

/-- `Foo{a: x, b: y}`, or `Foo{a: x, ?b: y}`, evaluated. -/
def twoFieldLiteral (optional : Bool) (x y : CelValue) : Kernel CelValue :=
  emitKStructExpr openWriters 0 (fun _ => some ()) (fun _ => none) (twoValues x y) "Foo"
    [("a", false), ("b", optional)] [.ident () "x", .ident () "y"]

/-- `Foo{a: x, b: 1}` with `x` an ERROR is that ERROR. -/
theorem messageLiteral_propagates_error :
    PropagatesPoison [{ name := "a", optional := false, value := .error .divideByZero },
        { name := "b", optional := false, value := .int 1 }]
      (twoFieldLiteral false (.error .divideByZero) (.int 1)).granted :=
  (@messageLiteral_propagates_iff Unit Unit Unit openWriters 0 (fun _ => some ()) (fun _ => none)
    (twoValues (.error .divideByZero) (.int 1)) "Foo" [("a", false), ("b", false)]
    [.ident () "x", .ident () "y"] () rfl (fun _ _ => rfl) ⟨_, List.mem_cons_self, _, rfl, rfl⟩).mpr
    ⟨[], _, _, rfl, nofun, .inl ⟨⟨_, rfl⟩, _, List.mem_cons_self, _, rfl⟩⟩

/-- **`Foo{a: x, b: 1}` with `x` UNKNOWN fails the evaluation**; `Foo{a: x, ?b: y}` with `y` an ERROR
is the UNKNOWN. -/
theorem messageLiteral_fails_after_unknown :
    (twoFieldLiteral false (.unknown ∅) (.int 1)).granted = .error .hostFailure ∧
      (twoFieldLiteral true (.unknown ∅) (.error .divideByZero)).granted = .ok (.unknown ∅) :=
  ⟨rfl, rfl⟩

end CelWasm
