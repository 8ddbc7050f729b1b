import CelWasm.Eval.FieldHistory

/-!
# Eval/FieldTracks — hosts that are the same up to slots

Interning maps and lists by identity issues fewer slots than pushing them. Two hosts track each other
when a renaming of the slots of maps and lists leads from the one to the other; encoding a value, and
reading a resolved field by its class, keeps them tracking, at a renaming that grows.
-/

namespace CelWasm

/-! ## Hosts at other slots -/

section Tracks

variable {Msg Desc Field Mem : Type} [DecidableEq Msg] [DecidableEq Field]
  {A : ArenaAllocator Mem} {B : CelHostBindings} {D : Schema Desc Field}
  {R : Reflections Msg Desc Field} {maps lists maps' lists' : List ℕ}
  {h h' : FieldHost Msg Field Mem} {cell cell' : WireCell}
  {out msgSlot fieldRefId attributeId : ℕ} {m : Msg} {field : Field}

/-- **A host tracks another**: it has the same messages and the same memory, the other's maps and
lists at the slots of the renaming, and the same cells but for those slots. -/
structure Tracks (maps lists : List ℕ) (h h' : FieldHost Msg Field Mem) : Prop where
  messages : h'.refs.messages = h.refs.messages
  maps : LeadsTo maps h.refs.maps.rows h'.refs.maps.rows
  lists : LeadsTo lists h.refs.lists.rows h'.refs.lists.rows
  mem : h'.mem = h.mem
  slots : ∀ a, (h'.slots a).unslotted = (h.slots a).unslotted

/-- **A trampoline's result tracks another's**, at a renaming that has grown. -/
def ResultTracks (maps lists : List ℕ) (out : ℕ)
    (r r' : Except FieldFailure Unit × FieldHost Msg Field Mem) : Prop :=
  ∃ maps' lists', maps <+: maps' ∧ lists <+: lists' ∧ Tracks maps' lists' r.2 r'.2 ∧
    OutcomeMoves maps' lists' (FieldHost.outcome out r) (FieldHost.outcome out r')

theorem ResultTracks.of_grown {r r' : Except FieldFailure Unit × FieldHost Msg Field Mem}
    (hr : ResultTracks maps' lists' out r r') (hmaps : maps <+: maps') (hlists : lists <+: lists') :
    ResultTracks maps lists out r r' := by
  obtain ⟨maps'', lists'', hmaps', hlists', hr⟩ := hr
  exact ⟨maps'', lists'', hmaps.trans hmaps', hlists.trans hlists', hr⟩

/-- Cells are written. -/
theorem Tracks.slots_update (ht : Tracks maps lists h h') (hcell : cell'.unslotted = cell.unslotted)
    (a : ℕ) : (Function.update h'.slots out cell' a).unslotted
      = (Function.update h.slots out cell a).unslotted := by
  by_cases hout : a = out
  · subst hout
    simpa only [Function.update_self] using hcell
  · simpa only [Function.update_of_ne hout] using ht.slots a

theorem Tracks.guestWrite (ht : Tracks maps lists h h') (hcell : cell'.unslotted = cell.unslotted) :
    Tracks maps lists (h.guestWrite out cell) (h'.guestWrite out cell') :=
  { ht with slots := ht.slots_update hcell }

theorem Tracks.writeCelValue (ht : Tracks maps lists h h') (hcell : CellMoves maps lists cell cell') :
    ResultTracks maps lists out (h.writeCelValue out cell) (h'.writeCelValue out cell') := by
  refine ⟨maps, lists, List.prefix_rfl, List.prefix_rfl, ht.guestWrite hcell.unslotted_eq, ?_⟩
  refine .wrote ?_
  simpa only [FieldHost.writeCelValue, Function.update_self] using hcell

/-- The same cell is written. -/
theorem Tracks.writeSame (ht : Tracks maps lists h h') (hcell : ∀ f g, cell.rename f g = cell) :
    ResultTracks maps lists out (h.writeCelValue out cell) (h'.writeCelValue out cell) :=
  ht.writeCelValue (.same hcell)

theorem Tracks.with_mem (ht : Tracks maps lists h h') (mem : Mem) :
    Tracks maps lists { h with mem } { h' with mem } :=
  { ht with mem := rfl }

/-- Both fail. -/
theorem Tracks.fail (ht : Tracks maps lists h h') {e e' : FieldFailure}
    (he : OutcomeMoves maps lists (FieldHost.outcome out (.error e, h))
      (FieldHost.outcome out (.error e', h'))) :
    ResultTracks maps lists out (.error e, h) (.error e', h') :=
  ⟨maps, lists, List.prefix_rfl, List.prefix_rfl, ht, he⟩

/-- Both fail alike. -/
theorem Tracks.failSame (ht : Tracks maps lists h h') (e : FieldFailure) :
    ResultTracks maps lists out (.error e, h) (.error e, h') := by
  cases e with
  | failed => exact ht.fail .failed
  | aborted => exact ht.fail .aborted

/-- **A span is copied alike**, whatever the failure says. -/
theorem Tracks.writeSpan (ht : Tracks maps lists h h') {oom oom' : String} {bytes : List UInt8}
    {span : CelSpan → WireCell} (hspan : ∀ s f g, (span s).rename f g = span s) :
    ResultTracks maps lists out (h.writeSpan A out oom span bytes)
      (h'.writeSpan A out oom' span bytes) := by
  rw [FieldHost.writeSpan, FieldHost.writeSpan, ht.mem, ArenaAllocator.copySpan,
    ArenaAllocator.copySpan]
  obtain ⟨_ | off, mem⟩ := A.alloc h.mem bytes.length
  · by_cases hbytes : bytes ≠ []
    · simp only [if_pos hbytes]
      exact (ht.with_mem mem).fail .failed
    · simp only [if_neg hbytes]
      exact (ht.with_mem mem).writeSame (hspan _)
  · exact (ht.with_mem _).writeSame (hspan _)

theorem Tracks.writeUnknown (ht : Tracks maps lists h h') (id : ℕ) :
    ResultTracks maps lists out (h.writeUnknown A out id) (h'.writeUnknown A out id) := by
  rw [FieldHost.writeUnknown, FieldHost.writeUnknown, ht.mem]
  obtain ⟨_ | off, mem⟩ := A.alloc h.mem 12
  · exact (ht.with_mem mem).fail .failed
  · exact (ht.with_mem _).writeSame fun _ _ => rfl

theorem Tracks.encodeValue (ht : Tracks maps lists h h') (v : HostValue) :
    ResultTracks maps lists out (h.encodeValue A out v) (h'.encodeValue A out v) := by
  cases v with
  | string s | bytes s => exact ht.writeSpan fun _ _ _ => rfl
  | unknown | type | message | map | list => exact ht.fail .aborted
  | _ => exact ht.writeSame fun _ _ => rfl

/-! ### What is interned -/

/-- A message is interned alike. -/
theorem Tracks.intern (ht : Tracks maps lists h h') (backing : MessageBacking Msg) :
    (h'.refs.intern backing).1 = (h.refs.intern backing).1 ∧
      Tracks maps lists { h with refs := (h.refs.intern backing).2 }
        { h' with refs := (h'.refs.intern backing).2 } := by
  cases backing with
  | proto m | custom id =>
    simp only [RefTables.intern, ht.messages, true_and]
    exact { ht with messages := rfl }

/-- A message that is interned without a backing is interned as its backing. -/
theorem RefTables.internProtoMessage_eq (t : RefTables Msg Field) (m : Msg) :
    t.internProtoMessage m = t.intern (.proto m) := by
  rw [RefTables.internProtoMessage]
  cases hslot : t.messages.slots.lookup m with
  | none => rfl
  | some slot =>
    simp only [RefTables.intern, SlotTable.intern, hslot]

/-- **A map is pushed, and in the other table found or pushed.** -/
theorem Tracks.push_map (ht : Tracks maps lists h h') {backing : MapBacking Msg Field} {slot' : ℕ}
    {refs' : RefTables Msg Field} (hmessages : refs'.messages = h'.refs.messages)
    (hlists : refs'.lists = h'.refs.lists) (hgrows : h'.refs.maps.rows <+: refs'.maps.rows)
    (hrow : slotRow refs'.maps.rows slot' = some backing) :
    ResultTracks maps lists out
      ({ h with refs := (h.refs.internMap backing).2 }.writeCelValue out
        (.mapHost (h.refs.internMap backing).1))
      ({ h' with refs := refs' }.writeCelValue out (.mapHost slot')) := by
  have ht' : Tracks (maps ++ [slot']) lists { h with refs := (h.refs.internMap backing).2 }
      { h' with refs := refs' } :=
    { messages := hmessages.trans ht.messages
      maps := ht.maps.concat hgrows hrow
      lists := by
        dsimp only
        rw [hlists]
        exact ht.lists
      mem := ht.mem
      slots := ht.slots }
  refine (ht'.writeCelValue (.mapHost ?_)).of_grown (List.prefix_append _ _) List.prefix_rfl
  exact ht.maps.slotRow_concat

/-- The same of a list. -/
theorem Tracks.push_list (ht : Tracks maps lists h h') {backing : ListBacking Msg Field} {slot' : ℕ}
    {refs' : RefTables Msg Field} (hmessages : refs'.messages = h'.refs.messages)
    (hmaps : refs'.maps = h'.refs.maps) (hgrows : h'.refs.lists.rows <+: refs'.lists.rows)
    (hrow : slotRow refs'.lists.rows slot' = some backing) :
    ResultTracks maps lists out
      ({ h with refs := (h.refs.internList backing).2 }.writeCelValue out
        (.listHost (h.refs.internList backing).1))
      ({ h' with refs := refs' }.writeCelValue out (.listHost slot')) := by
  have ht' : Tracks maps (lists ++ [slot']) { h with refs := (h.refs.internList backing).2 }
      { h' with refs := refs' } :=
    { messages := hmessages.trans ht.messages
      maps := by
        dsimp only
        rw [hmaps]
        exact ht.maps
      lists := ht.lists.concat hgrows hrow
      mem := ht.mem
      slots := ht.slots }
  refine (ht'.writeCelValue (.listHost ?_)).of_grown List.prefix_rfl (List.prefix_append _ _)
  exact ht.lists.slotRow_concat

/-- **A value is encoded alike.** -/
theorem Tracks.encodeFieldResult (ht : Tracks maps lists h h') (v : FieldValue Msg Field) :
    ResultTracks maps lists out (h.encodeFieldResult A out v) (h'.encodeFieldResult A out v) := by
  have hmessage : ∀ backing, ResultTracks maps lists out
      ({ h with refs := (h.refs.intern backing).2 }.writeCelValue out
        (.message (h.refs.intern backing).1))
      ({ h' with refs := (h'.refs.intern backing).2 }.writeCelValue out
        (.message (h'.refs.intern backing).1)) := by
    intro backing
    obtain ⟨hslot, ht'⟩ := ht.intern backing
    rw [hslot]
    exact ht'.writeSame fun _ _ => rfl
  cases v with
  | protoMessage m => exact hmessage (.proto m)
  | protoMap => exact ht.push_map rfl rfl SlotTable.prefix_push SlotTable.slotRow_push
  | protoList => exact ht.push_list rfl rfl SlotTable.prefix_push SlotTable.slotRow_push
  | error e => exact ht.writeSame fun _ _ => rfl
  | plain v =>
    cases v with
    | message id => exact hmessage (.custom id)
    | map => exact ht.push_map rfl rfl SlotTable.prefix_push SlotTable.slotRow_push
    | list => exact ht.push_list rfl rfl SlotTable.prefix_push SlotTable.slotRow_push
    | _ => exact ht.encodeValue _

/-! ### The fast path -/

/-- **A scalar is written as its value is encoded.** -/
theorem Tracks.writeScalarFieldToSlot (ht : Tracks maps lists h h')
    (hscalar : D.cppType field ≠ .message) :
    ∃ v, R.readScalarField D m field = .ok v ∧
      ResultTracks maps lists out (h.encodeFieldResult A out v)
        (h'.writeScalarFieldToSlot A D R out m field) := by
  rw [Reflections.readScalarField, Reflections.readNumericField, FieldHost.writeScalarFieldToSlot]
  cases htype : D.cppType field with
  | message => exact absurd htype hscalar
  | string =>
    refine ⟨_, if_pos rfl, ?_⟩
    rw [Reflections.readStringOrBytes]
    split_ifs
    · exact ht.writeSpan fun _ _ _ => rfl
    · exact ht.writeSpan fun _ _ _ => rfl
  | _ => exact ⟨_, rfl, ht.writeSame fun _ _ => rfl⟩

/-- A field that is classified as a scalar is no message. -/
theorem Schema.cppType_of_kScalar {Field : Type} {D : Schema Desc Field} {field : Field}
    (h : (D.classified field).readClass = .kScalar) : D.cppType field ≠ .message := by
  intro htype
  rw [Schema.classified, Schema.classifyResolvedField] at h
  cases hmt : D.messageType field with
  | none | some mt =>
    rw [hmt] at h
    dsimp only at h
    split_ifs at h
    contradiction

/-- **A resolved field is read and written as `ReadFieldClassified` reads it**, by the class in the
cache. -/
theorem Tracks.readClassified (ht : Tracks maps lists h h') {rc : ResolvedFieldCache Desc Field}
    {owner : Option Desc} (hrc : rc = { D.classified field with owner }) :
    ResultTracks maps lists out
      (match R.readFieldClassified D (D.classified field) m field with
        | .error e => (.error e, h)
        | .ok v => h.encodeFieldResult A out v)
      (h'.readResolvedField A D R out rc m field) := by
  subst hrc
  have hmessage : R.readClassifiedMessageField D { D.classified field with owner } m field
      = R.readClassifiedMessageField D (D.classified field) m field := rfl
  rw [FieldHost.readResolvedField, hmessage, FieldHost.tryEncodeAggregateFieldFast, Reflections.readFieldClassified]
  cases hclass : (D.classified field).readClass with
  | kMap => exact ht.push_map rfl rfl SlotTable.prefix_intern SlotTable.slotRow_intern
  | kRepeated => exact ht.push_list rfl rfl SlotTable.prefix_intern SlotTable.slotRow_intern
  | kMessagePlain =>
    simp only [Reflections.readClassifiedMessageField, hclass, RefTables.internProtoMessage_eq]
    exact ht.encodeFieldResult (.protoMessage _)
  | kScalar =>
    obtain ⟨v, hv, hr⟩ : ∃ v, R.readScalarField D m field = .ok v ∧
        ResultTracks maps lists out (h.encodeFieldResult A out v)
          (h'.writeScalarFieldToSlot A D R out m field) :=
      ht.writeScalarFieldToSlot (Schema.cppType_of_kScalar hclass)
    dsimp only
    rw [hv]
    exact hr
  | _ =>
    dsimp only
    cases R.readClassifiedMessageField D (D.classified field) m field with
    | error e => exact ht.failSame e
    | ok v => exact ht.encodeFieldResult v

/-! ### The prelude -/

/-- The prelude does not look at the slots of maps and lists. -/
theorem FieldHost.fieldPrelude_unslotted (h : FieldHost Msg Field Mem) :
    { h with slots := fun a => (h.slots a).unslotted }.fieldPrelude B msgSlot fieldRefId attributeId
      = h.fieldPrelude B msgSlot fieldRefId attributeId := by
  rw [FieldHost.fieldPrelude, FieldHost.fieldPrelude]
  dsimp only
  cases h.slots msgSlot <;> rfl

/-- **The prelude finds the same.** -/
theorem Tracks.fieldPrelude_eq (ht : Tracks maps lists h h') :
    h'.fieldPrelude B msgSlot fieldRefId attributeId
      = h.fieldPrelude B msgSlot fieldRefId attributeId := by
  rw [← h.fieldPrelude_unslotted, ← h'.fieldPrelude_unslotted, funext ht.slots,
    FieldHost.fieldPrelude, FieldHost.fieldPrelude, ht.messages]

/-- A cell that is handed on has no slot of a map or a list. -/
theorem FieldHost.rename_of_handled
    (hp : h.fieldPrelude B msgSlot fieldRefId attributeId = .handled cell) (f g : ℕ → ℕ) :
    cell.rename f g = cell := by
  rw [FieldHost.fieldPrelude] at hp
  split at hp
  case h_3 =>
    split at hp
    · cases hp
      rfl
    · split_ifs at hp
      split at hp
      · cases hp
        rfl
      · cases hp
  all_goals
    cases hp
    rfl

/-- A site that is found is that of the reference. -/
theorem FieldHost.resolveFieldRef_of_found {backing : MessageBacking Msg} {site : FieldRefEntry}
    (hp : h.fieldPrelude B msgSlot fieldRefId attributeId = .found backing site) :
    B.resolveFieldRef fieldRefId = some site := by
  rw [FieldHost.fieldPrelude] at hp
  split at hp
  case h_3 =>
    split at hp
    case h_1 => cases hp
    case h_2 site' hsite =>
      split_ifs at hp
      split at hp
      · cases hp
      · cases hp
        exact hsite
  all_goals cases hp

end Tracks

end CelWasm
