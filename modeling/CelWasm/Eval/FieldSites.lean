import CelWasm.Eval.FieldTracks

/-!
# Eval/FieldSites — a run through the caches of the sites

The cache of a site is told apart by descriptors. What it has for a descriptor's own field is right
for every message of the descriptor; an extension is resolved by the message's reflection, so that
the message has to know the one that is cached. Then a step through the caches does what a step
without them does, and so does a run.
-/

namespace CelWasm

/-! ## The caches of the sites -/

section Caches

variable {Msg Desc Field Mem : Type} [DecidableEq Msg] [DecidableEq Field] [DecidableEq Desc]
  {A : ArenaAllocator Mem} {B : CelHostBindings} {D : Schema Desc Field}
  {R : Reflections Msg Desc Field} {caches : SiteCaches Desc Field} {maps lists : List ℕ}
  {h h' : FieldHost Msg Field Mem} {out msgSlot fieldRefId attributeId : ℕ} {m : Msg}
  {site : FieldRefEntry}

/-- **The caches are right**: each has a field with its class, and that field if the descriptor it is
kept for has one itself. -/
def SiteCaches.Right (B : CelHostBindings) (D : Schema Desc Field) (caches : SiteCaches Desc Field) :
    Prop :=
  ∀ fieldRefId site d, B.resolveFieldRef fieldRefId = some site →
    (caches fieldRefId).owner = some d →
      ∃ field, caches fieldRefId = { D.classified field with owner := some d } ∧
        ∀ own, D.ownField d (.ofNat site.fieldNumber) site.fieldName = some own → own = field

omit [DecidableEq Field] [DecidableEq Desc] in
theorem SiteCaches.right_empty : SiteCaches.Right B D fun _ => .empty := nofun

omit [DecidableEq Field] [DecidableEq Desc] in
theorem Schema.classified_field {field : Field} : (D.classified field).field = some field := by
  rw [Schema.classified, Schema.classifyResolvedField]
  cases D.messageType field <;> dsimp only <;> split_ifs <;> rfl

omit [DecidableEq Msg] [DecidableEq Field] in
/-- **A right cache resolves a field as the message does**, if the message knows what is cached; it
stays right, and has the field with its class. -/
theorem SiteCaches.Right.resolveField (hright : caches.Right B D)
    (hsite : B.resolveFieldRef fieldRefId = some site)
    (hknown : (caches fieldRefId).Known D R m site) :
    (caches.resolveField D R fieldRefId m site).1
        = R.resolveFieldDescriptor D m (.ofNat site.fieldNumber) site.fieldName ∧
      (caches.resolveField D R fieldRefId m site).2.Right B D ∧
      ∀ field, (caches.resolveField D R fieldRefId m site).1 = some field →
        (caches.resolveField D R fieldRefId m site).2 fieldRefId
          = { D.classified field with owner := some (R.descriptor m) } := by
  rw [SiteCaches.resolveField]
  by_cases howner : (caches fieldRefId).owner = some (R.descriptor m)
  · rw [if_pos howner]
    obtain ⟨field, hcache, hown⟩ := hright fieldRefId site _ hsite howner
    have hfield : (caches fieldRefId).field = some field := by
      rw [hcache]
      exact Schema.classified_field
    refine ⟨?_, hright, fun field' h => ?_⟩
    · rw [Reflections.resolveFieldDescriptor, hfield]
      cases hfound : D.ownField (R.descriptor m) (.ofNat site.fieldNumber) site.fieldName with
      | some own => rw [hown own hfound]
      | none => rw [← hfield, ← hknown howner hfound]
    · obtain rfl := Option.some.inj (hfield.symm.trans h)
      exact hcache
  · rw [if_neg howner]
    cases hfield : R.resolveFieldDescriptor D m (.ofNat site.fieldNumber) site.fieldName with
    | none => exact ⟨rfl, hright, nofun⟩
    | some field =>
      refine ⟨rfl, fun fieldRefId' site' d hsite' howner' => ?_, ?_⟩
      · by_cases href : fieldRefId' = fieldRefId
        · subst href
          obtain rfl := Option.some.inj (hsite'.symm.trans hsite)
          simp only [Function.update_self] at howner' ⊢
          obtain rfl := Option.some.inj howner'
          refine ⟨field, rfl, fun own hown => ?_⟩
          rw [Reflections.resolveFieldDescriptor, hown] at hfield
          exact Option.some.inj hfield
        · simp only [Function.update_of_ne href] at howner' ⊢
          exact hright fieldRefId' site' d hsite' howner'
      · rintro _ ⟨⟩
        exact Function.update_self ..

/-! ## An access, with the cache and without -/

/-- **`CelGetFieldImpl` writes what is written without a cache.** -/
theorem Tracks.celGetField (A : ArenaAllocator Mem) (out : ℕ) (ht : Tracks maps lists h h')
    (hright : caches.Right B D)
    (hknown : ∀ m site, h'.fieldPrelude B msgSlot fieldRefId attributeId = .found (.proto m) site →
      (caches fieldRefId).Known D R m site) :
    ∃ r' caches', celGetFieldImpl A B D R h' caches out msgSlot fieldRefId attributeId
        = SiteCaches.leftBy caches' r' ∧ caches'.Right B D ∧
      ResultTracks maps lists out
        (h.celGetFieldUncached A B D R out msgSlot fieldRefId attributeId) r' := by
  rw [celGetFieldImpl, FieldHost.celGetFieldUncached]
  rw [ht.fieldPrelude_eq] at hknown ⊢
  cases hp : h.fieldPrelude B msgSlot fieldRefId attributeId with
  | handled cell => exact ⟨_, caches, rfl, hright, ht.writeSame (FieldHost.rename_of_handled hp)⟩
  | hidden => exact ⟨_, caches, rfl, hright, ht.writeUnknown attributeId⟩
  | found backing site =>
    cases backing with
    | custom id =>
      dsimp only
      cases R.customReadField id (.ofNat site.fieldNumber) site.fieldName with
      | error status => exact ⟨_, caches, rfl, hright, ht.failSame _⟩
      | ok v => exact ⟨_, caches, rfl, hright, ht.encodeFieldResult v⟩
    | proto m =>
      obtain ⟨hfield, hright', hcache⟩ :=
        hright.resolveField (FieldHost.resolveFieldRef_of_found hp) (hknown m site hp)
      dsimp only
      rw [Reflections.protoReadField, ← hfield]
      generalize caches.resolveField D R fieldRefId m site = resolved at hright' hcache ⊢
      obtain ⟨_ | field, caches'⟩ := resolved
      · exact ⟨_, caches', rfl, hright', ht.encodeFieldResult _⟩
      · exact ⟨_, caches', rfl, hright', ht.readClassified (hcache field rfl)⟩

/-- **`CelHasFieldImpl` does too.** -/
theorem Tracks.celHasField (A : ArenaAllocator Mem) (out : ℕ) (ht : Tracks maps lists h h')
    (hright : caches.Right B D)
    (hknown : ∀ m site, h'.fieldPrelude B msgSlot fieldRefId attributeId = .found (.proto m) site →
      (caches fieldRefId).Known D R m site) :
    ∃ r' caches', celHasFieldImpl A B D R h' caches out msgSlot fieldRefId attributeId
        = SiteCaches.leftBy caches' r' ∧ caches'.Right B D ∧
      ResultTracks maps lists out
        (h.celHasFieldUncached A B D R out msgSlot fieldRefId attributeId) r' := by
  rw [celHasFieldImpl, FieldHost.celHasFieldUncached]
  rw [ht.fieldPrelude_eq] at hknown ⊢
  cases hp : h.fieldPrelude B msgSlot fieldRefId attributeId with
  | handled cell => exact ⟨_, caches, rfl, hright, ht.writeSame (FieldHost.rename_of_handled hp)⟩
  | hidden => exact ⟨_, caches, rfl, hright, ht.writeUnknown attributeId⟩
  | found backing site =>
    cases backing with
    | custom id => exact ⟨_, caches, rfl, hright, ht.writeSame fun _ _ => rfl⟩
    | proto m =>
      obtain ⟨hfield, hright', -⟩ :=
        hright.resolveField (FieldHost.resolveFieldRef_of_found hp) (hknown m site hp)
      dsimp only
      rw [Reflections.protoHasField, ← hfield]
      generalize caches.resolveField D R fieldRefId m site = resolved at hright' ⊢
      obtain ⟨_ | field, caches'⟩ := resolved
      · exact ⟨_, caches', rfl, hright', ht.writeSame fun _ _ => rfl⟩
      · exact ⟨_, caches', rfl, hright', ht.writeSame fun _ _ => rfl⟩

/-! ## Steps and runs -/

variable {s s' : FieldState Msg Desc Field Mem}

/-- **A step through the caches does what a step without them does.** -/
theorem Tracks.step (ht : Tracks maps lists s.1 s'.1) (hright : s'.2.Right B D)
    {step : FieldStep Msg Desc Field Mem} (hknows : step.Knows B D s') :
    ∃ maps' lists', maps <+: maps' ∧ lists <+: lists' ∧
      Tracks maps' lists' (step.run A B D false s).2.1 (step.run A B D true s').2.1 ∧
      (step.run A B D true s').2.2.Right B D ∧
      OutcomeMoves maps' lists' (step.run A B D false s).1 (step.run A B D true s').1 := by
  obtain ⟨h, caches⟩ := s
  obtain ⟨h', caches'⟩ := s'
  obtain ⟨R, event⟩ := step
  cases event with
  | get out msgSlot fieldRefId attributeId =>
    have hknown : ∀ m site, h'.fieldPrelude B msgSlot fieldRefId attributeId = .found (.proto m) site →
        (caches' fieldRefId).Known D R m site := fun m site hp =>
      hknows fieldRefId m site (by simp only [FieldEvent.reads, hp])
    obtain ⟨r', caches'', hrun, hright', maps', lists', hmaps, hlists, ht', houtcome⟩ :=
      Tracks.celGetField A out ht hright hknown
    refine ⟨maps', lists', hmaps, hlists, ?_⟩
    simp only [FieldStep.run, hrun, if_true, Bool.false_eq_true, if_false]
    exact ⟨ht', hright', houtcome⟩
  | has out msgSlot fieldRefId attributeId =>
    have hknown : ∀ m site, h'.fieldPrelude B msgSlot fieldRefId attributeId = .found (.proto m) site →
        (caches' fieldRefId).Known D R m site := fun m site hp =>
      hknows fieldRefId m site (by simp only [FieldEvent.reads, hp])
    obtain ⟨r', caches'', hrun, hright', maps', lists', hmaps, hlists, ht', houtcome⟩ :=
      Tracks.celHasField A out ht hright hknown
    refine ⟨maps', lists', hmaps, hlists, ?_⟩
    simp only [FieldStep.run, hrun, if_true, Bool.false_eq_true, if_false]
    exact ⟨ht', hright', houtcome⟩
  | encode out v =>
    obtain ⟨maps', lists', hmaps, hlists, ht', houtcome⟩ := ht.encodeFieldResult v
    exact ⟨maps', lists', hmaps, hlists, ht', hright, houtcome⟩
  | copy out src =>
    exact ⟨maps, lists, List.prefix_rfl, List.prefix_rfl, ht.guestWrite (ht.slots src), hright,
      .silent⟩
  | put out cell =>
    exact ⟨maps, lists, List.prefix_rfl, List.prefix_rfl, ht.guestWrite rfl, hright, .silent⟩
  | linear f =>
    exact ⟨maps, lists, List.prefix_rfl, List.prefix_rfl,
      { ht with mem := congrArg f ht.mem }, hright, .silent⟩

/-- **So do the steps of an `Eval`.** -/
theorem Tracks.steps {steps : List (FieldStep Msg Desc Field Mem)} (ht : Tracks maps lists s.1 s'.1)
    (hright : s'.2.Right B D) (hknowing : KnowingSteps A B D steps s') :
    ∃ maps' lists', maps <+: maps' ∧ lists <+: lists' ∧
      Tracks maps' lists' (runFieldSteps A B D false steps s).2.1
        (runFieldSteps A B D true steps s').2.1 ∧
      (runFieldSteps A B D true steps s').2.2.Right B D ∧
      List.Forall₂ (OutcomeMoves maps' lists') (runFieldSteps A B D false steps s).1
        (runFieldSteps A B D true steps s').1 := by
  induction steps generalizing maps lists s s' with
  | nil => exact ⟨maps, lists, List.prefix_rfl, List.prefix_rfl, ht, hright, .nil⟩
  | cons step rest ih =>
    obtain ⟨hknows, hrest⟩ := hknowing
    obtain ⟨maps', lists', hmaps, hlists, ht', hright', houtcome⟩ := ht.step hright hknows
    rw [runFieldSteps, runFieldSteps]
    dsimp only
    rw [← houtcome.ends_eq]
    rcases hend : (step.run A B D true s').1.ends
    case true => exact ⟨maps', lists', hmaps, hlists, ht', hright', .cons houtcome .nil⟩
    case false =>
      simp only [Bool.false_eq_true, if_false]
      obtain ⟨maps'', lists'', hmaps', hlists', ht'', hright'', houtcomes⟩ :=
        ih ht' hright' (hrest hend)
      exact ⟨maps'', lists'', hmaps.trans hmaps', hlists.trans hlists', ht'', hright'',
        .cons (houtcome.mono hmaps' hlists') houtcomes⟩

omit [DecidableEq Desc] in
/-- A reset leaves no slot. -/
theorem RefTables.reset_eq_empty (t : RefTables Msg Field) : t.reset = .empty Msg Field := by
  rw [RefTables.reset]
  split_ifs with hrows
  · simp only [Bool.and_eq_true, List.isEmpty_iff] at hrows
    obtain ⟨⟨hmessages, hmaps⟩, hlists⟩ := hrows
    obtain ⟨messages, maps, lists⟩ := t
    obtain rfl := SlotTable.eq_empty_of_rows hmessages
    obtain rfl := SlotTable.eq_empty_of_rows hmaps
    obtain rfl := SlotTable.eq_empty_of_rows hlists
    rfl
  · rfl

omit [DecidableEq Desc] in
/-- After a reset the renaming begins anew. -/
theorem Tracks.reset (ht : Tracks maps lists s.1 s'.1) :
    Tracks [] [] (resetTables s).1 (resetTables s').1 where
  messages := by rw [resetTables, resetTables, RefTables.reset_eq_empty, RefTables.reset_eq_empty]
  maps := by
    rw [resetTables, RefTables.reset_eq_empty]
    exact .nil
  lists := by
    rw [resetTables, RefTables.reset_eq_empty]
    exact .nil
  mem := ht.mem
  slots := ht.slots

/-- **An `Eval` comes to what another comes to, up to the slots**: at a renaming of the slots of maps
and lists the outcomes are the same, and a renamed slot leads to what the slot leads to; the messages
are at the same slots, and the memory is the same. -/
def SameUpToSlots (r r' : List FieldOutcome × FieldState Msg Desc Field Mem) : Prop :=
  ∃ maps lists : ℕ → ℕ, r'.1 = r.1.map (FieldOutcome.rename maps lists) ∧
    (∀ slot backing, slotRow r.2.1.refs.maps.rows slot = some backing →
      slotRow r'.2.1.refs.maps.rows (maps slot) = some backing) ∧
    (∀ slot backing, slotRow r.2.1.refs.lists.rows slot = some backing →
      slotRow r'.2.1.refs.lists.rows (lists slot) = some backing) ∧
    r'.2.1.refs.messages = r.2.1.refs.messages ∧ r'.2.1.mem = r.2.1.mem

/-- **And an `Eval`**, which leaves right caches and hosts that track each other. -/
theorem Tracks.eval {eval : FieldEval Msg Desc Field Mem} (ht : Tracks maps lists s.1 s'.1)
    (hright : s'.2.Right B D)
    (hknowing : KnowingSteps A { B with unknownPatterns := eval.unknownPatterns } D eval.steps
      (resetTables s')) :
    SameUpToSlots (eval.run A B D false s) (eval.run A B D true s') ∧
      (eval.run A B D true s').2.2.Right B D ∧
      ∃ maps' lists', Tracks maps' lists' (eval.run A B D false s).2.1
        (eval.run A B D true s').2.1 := by
  have hright : s'.2.Right { B with unknownPatterns := eval.unknownPatterns } D := hright
  obtain ⟨maps', lists', -, -, ht', hright', houtcomes⟩ := ht.reset.steps hright hknowing
  refine ⟨⟨renameSlot maps', renameSlot lists', ?_, fun _ _ => ht'.maps.slotRow_renameSlot,
    fun _ _ => ht'.lists.slotRow_renameSlot, ht'.messages, ht'.mem⟩, hright', maps', lists', ht'⟩
  refine (List.forall₂_eq_eq_eq ▸ List.forall₂_map_left_iff.mpr ?_ :
    _ = _).symm
  exact houtcomes.imp fun _ _ h => h.eq_rename.symm

/-- **So does a history.** -/
theorem Tracks.evals {evals : List (FieldEval Msg Desc Field Mem)} (ht : Tracks maps lists s.1 s'.1)
    (hright : s'.2.Right B D) (hknowing : KnowingEvals A B D evals s') :
    List.Forall₂ SameUpToSlots (runFieldEvals A B D false evals s)
      (runFieldEvals A B D true evals s') := by
  induction evals generalizing maps lists s s' with
  | nil => exact .nil
  | cons eval rest ih =>
    obtain ⟨hsteps, hrest⟩ := hknowing
    obtain ⟨hsame, hright', maps', lists', ht'⟩ := ht.eval hright hsteps
    exact .cons hsame (ih ht' hright' hrest)

end Caches

end CelWasm
