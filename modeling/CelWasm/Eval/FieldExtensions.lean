import CelWasm.Eval.FieldSites

/-!
# Eval/FieldExtensions — when the caches of the sites are transparent

The messages of a history know what is cached if the messages of one descriptor share the extensions
that they know, as they do if each reflection searches the pool of its descriptor. A reflection may
search another pool: of two messages of one descriptor that are read through one site, the first may
know an extension that the second does not, and the second is then read as if it did.
-/

namespace CelWasm

/-! ## What messages of one descriptor know -/

section Shared

variable {Msg Desc Field Mem : Type} [DecidableEq Msg] [DecidableEq Field] [DecidableEq Desc]
  {A : ArenaAllocator Mem} {B : CelHostBindings} {D : Schema Desc Field}
  {caches : SiteCaches Desc Field} {s : FieldState Msg Desc Field Mem}
  {past : List (Reflections Msg Desc Field)}

/-- **What a message knows, the later messages of its descriptor know**: pools may grow, but the
reflections of a descriptor's messages search the same. -/
def SharesExtensions (R R' : Reflections Msg Desc Field) : Prop :=
  ∀ m m' name field, R.descriptor m = R'.descriptor m' →
    R.findKnownExtensionByName m name = some field → R'.findKnownExtensionByName m' name = some field

/-- An extension that is cached was known to a message of the descriptor. -/
def SiteCaches.From (B : CelHostBindings) (D : Schema Desc Field)
    (past : List (Reflections Msg Desc Field)) (caches : SiteCaches Desc Field) : Prop :=
  ∀ fieldRefId site d, B.resolveFieldRef fieldRefId = some site →
    (caches fieldRefId).owner = some d →
      D.ownField d (.ofNat site.fieldNumber) site.fieldName = none →
        ∃ R ∈ past, ∃ m field, R.descriptor m = d ∧ (caches fieldRefId).field = some field ∧
          R.findKnownExtensionByName m site.fieldName = some field

/-- The caches a step leaves. -/
theorem FieldStep.caches_run (step : FieldStep Msg Desc Field Mem) :
    (step.run A B D true s).2.2 = match step.event.reads B s.1 with
      | some (fieldRefId, m, site) => (s.2.resolveField D step.messages fieldRefId m site).2
      | none => s.2 := by
  obtain ⟨h, caches⟩ := s
  obtain ⟨R, event⟩ := step
  cases event with
  | get out msgSlot fieldRefId attributeId =>
    simp only [FieldStep.run, if_true, celGetFieldImpl, FieldEvent.reads]
    cases h.fieldPrelude B msgSlot fieldRefId attributeId with
    | handled | hidden => rfl
    | found backing site =>
      cases backing with
      | proto m =>
        dsimp only
        obtain ⟨_ | field, caches'⟩ := caches.resolveField D R fieldRefId m site <;> rfl
      | custom id =>
        dsimp only
        cases R.customReadField id (.ofNat site.fieldNumber) site.fieldName <;> rfl
  | has out msgSlot fieldRefId attributeId =>
    simp only [FieldStep.run, if_true, celHasFieldImpl, FieldEvent.reads]
    cases h.fieldPrelude B msgSlot fieldRefId attributeId with
    | handled | hidden => rfl
    | found backing site =>
      cases backing with
      | proto m =>
        dsimp only
        obtain ⟨_ | field, caches'⟩ := caches.resolveField D R fieldRefId m site <;> rfl
      | custom id => rfl
  | encode | copy | put | linear => rfl

/-- A site that is read is that of the reference. -/
theorem FieldEvent.resolveFieldRef_of_reads {event : FieldEvent Msg Field Mem}
    {h : FieldHost Msg Field Mem} {fieldRefId : ℕ} {m : Msg} {site : FieldRefEntry}
    (hreads : event.reads B h = some (fieldRefId, m, site)) :
    B.resolveFieldRef fieldRefId = some site := by
  cases event with
  | get | has =>
    rw [FieldEvent.reads] at hreads
    split at hreads
    case h_1 hp =>
      cases hreads
      exact FieldHost.resolveFieldRef_of_found hp
    case h_2 => cases hreads
  | encode | copy | put | linear => cases hreads

/-- **A step caches what its message knows.** -/
theorem SiteCaches.From.run (hfrom : s.2.From B D past) (step : FieldStep Msg Desc Field Mem) :
    (step.run A B D true s).2.2.From B D (step.messages :: past) := by
  have hold : s.2.From B D (step.messages :: past) := by
    intro fieldRefId site d hsite howner hown
    obtain ⟨R, hR, hknown⟩ := hfrom fieldRefId site d hsite howner hown
    exact ⟨R, List.mem_cons_of_mem _ hR, hknown⟩
  rw [FieldStep.caches_run]
  split
  case h_2 => exact hold
  case h_1 fieldRefId m site hreads =>
    rw [SiteCaches.resolveField]
    split_ifs
    · exact hold
    · split
      · exact hold
      · rename_i field hfield
        intro fieldRefId' site' d hsite' howner' hown'
        by_cases href : fieldRefId' = fieldRefId
        · subst href
          obtain rfl := Option.some.inj
            (hsite'.symm.trans (FieldEvent.resolveFieldRef_of_reads hreads))
          simp only [Function.update_self] at howner' ⊢
          obtain rfl := Option.some.inj howner'
          rw [Reflections.resolveFieldDescriptor, hown'] at hfield
          exact ⟨step.messages, List.mem_cons_self, m, field, rfl, Schema.classified_field, hfield⟩
        · simp only [Function.update_of_ne href] at howner' ⊢
          exact hold fieldRefId' site' d hsite' howner' hown'

omit [DecidableEq Desc] in
/-- A message knows what messages before it knew. -/
theorem SiteCaches.From.knows (hfrom : s.2.From B D past) {step : FieldStep Msg Desc Field Mem}
    (hshares : ∀ R ∈ past, SharesExtensions R step.messages) : step.Knows B D s := by
  intro fieldRefId m site hreads howner hown
  obtain ⟨R, hR, m', field, hdescriptor, hfield, hknown⟩ := hfrom fieldRefId site _
    (FieldEvent.resolveFieldRef_of_reads hreads) howner hown
  rw [hfield]
  exact hshares R hR m' m site.fieldName field hdescriptor hknown

omit [DecidableEq Msg] [DecidableEq Field] [DecidableEq Desc] in
theorem SiteCaches.From.mono {past' : List (Reflections Msg Desc Field)}
    (hfrom : caches.From B D past) (hsub : past ⊆ past') : caches.From B D past' := by
  intro fieldRefId site d hsite howner hown
  obtain ⟨R, hR, hknown⟩ := hfrom fieldRefId site d hsite howner hown
  exact ⟨R, hsub hR, hknown⟩

/-- **In an `Eval` whose messages share what they know, the messages know what is cached.** -/
theorem SiteCaches.From.steps {steps : List (FieldStep Msg Desc Field Mem)}
    (hfrom : s.2.From B D past)
    (hpast : ∀ R ∈ past, ∀ step ∈ steps, SharesExtensions R step.messages)
    (hshares : steps.Pairwise fun earlier later =>
      SharesExtensions earlier.messages later.messages) :
    KnowingSteps A B D steps s ∧
      (runFieldSteps A B D true steps s).2.2.From B D (steps.map (·.messages) ++ past) := by
  induction steps generalizing past s with
  | nil => exact ⟨trivial, hfrom⟩
  | cons step rest ih =>
    obtain ⟨hfirst, hrest⟩ := List.pairwise_cons.mp hshares
    have hstep := hfrom.run (A := A) step
    obtain ⟨hknowing, hfrom'⟩ := ih hstep (fun R hR later hlater => by
      obtain rfl | hR := List.mem_cons.mp hR
      · exact hfirst later hlater
      · exact hpast R hR later (List.mem_cons_of_mem _ hlater)) hrest
    refine ⟨⟨hfrom.knows fun R hR => hpast R hR step List.mem_cons_self, fun _ => hknowing⟩, ?_⟩
    rw [runFieldSteps]
    dsimp only
    split_ifs
    · refine hstep.mono ?_
      rw [List.map_cons, List.cons_append]
      exact List.cons_subset_cons _ (List.subset_append_right _ _)
    · refine hfrom'.mono fun R hR => ?_
      simp only [List.map_cons, List.cons_append, List.mem_cons, List.mem_append] at hR ⊢
      tauto

/-- **In a history too.** -/
theorem SiteCaches.From.evals {evals : List (FieldEval Msg Desc Field Mem)}
    (hfrom : s.2.From B D past)
    (hpast : ∀ R ∈ past, ∀ eval ∈ evals, ∀ step ∈ eval.steps, SharesExtensions R step.messages)
    (hshares : (evals.flatMap (·.steps)).Pairwise fun earlier later =>
      SharesExtensions earlier.messages later.messages) :
    KnowingEvals A B D evals s := by
  induction evals generalizing past s with
  | nil => trivial
  | cons eval rest ih =>
    rw [List.flatMap_cons, List.pairwise_append] at hshares
    obtain ⟨hsteps, hrest, hacross⟩ := hshares
    have hfrom' : (resetTables s).2.From { B with unknownPatterns := eval.unknownPatterns } D past :=
      hfrom
    obtain ⟨hknowing, hleft⟩ := hfrom'.steps (A := A) (fun R hR step hstep =>
      hpast R hR eval List.mem_cons_self step hstep) hsteps
    refine ⟨hknowing, ih hleft (fun R hR eval' heval step hstep => ?_) hrest⟩
    obtain hR | hR := List.mem_append.mp hR
    · obtain ⟨earlier, hearlier, rfl⟩ := List.mem_map.mp hR
      exact hacross earlier hearlier step (List.mem_flatMap.mpr ⟨eval', heval, hstep⟩)
    · exact hpast R hR eval' (List.mem_cons_of_mem _ heval) step hstep

end Shared

/-! ## Histories from the start -/

section Start

variable {Msg Desc Field Mem : Type} [DecidableEq Msg] [DecidableEq Field] [DecidableEq Desc]
  {A : ArenaAllocator Mem} {B : CelHostBindings} {D : Schema Desc Field}

/-- An instance that has not been evaluated: nothing is interned, and nothing is cached. -/
def FieldState.start (slots : ℕ → WireCell) (mem : Mem) : FieldState Msg Desc Field Mem :=
  ({ refs := .empty Msg Field, slots, mem }, fun _ => .empty)

/-- **The messages of a history know what is cached, if the messages of one descriptor share the
extensions they know.** -/
theorem knowingEvals_of_pairwise {evals : List (FieldEval Msg Desc Field Mem)}
    {slots : ℕ → WireCell} {mem : Mem}
    (hshares : (evals.flatMap (·.steps)).Pairwise fun earlier later =>
      SharesExtensions earlier.messages later.messages) :
    KnowingEvals A B D evals (.start slots mem) := by
  have hstart : (FieldState.start slots mem : FieldState Msg Desc Field Mem).2.From B D
      ([] : List (Reflections Msg Desc Field)) := fun _ _ _ _ howner => nomatch howner
  exact hstart.evals (fun _ hR => absurd hR List.not_mem_nil) hshares

/-- **The sites' caches and the fast path are transparent** where every message knows the extension
that is cached at the site it is read through: in every history, every `Eval` writes through them the
cells it writes without, up to the slots of maps and lists. -/
theorem fieldAccess_sameUpToSlots (evals : List (FieldEval Msg Desc Field Mem))
    (slots : ℕ → WireCell) (mem : Mem) (hknowing : KnowingEvals A B D evals (.start slots mem)) :
    List.Forall₂ SameUpToSlots (runFieldEvals A B D false evals (.start slots mem))
      (runFieldEvals A B D true evals (.start slots mem)) := by
  have ht : Tracks [] [] (FieldState.start slots mem : FieldState Msg Desc Field Mem).1
      (FieldState.start slots mem : FieldState Msg Desc Field Mem).1 :=
    { messages := rfl, maps := .nil, lists := .nil, mem := rfl, slots := fun _ => rfl }
  exact ht.evals SiteCaches.right_empty hknowing

end Start

/-! ### Two messages of one descriptor -/

/-- A descriptor that has no field, and an extension of it. -/
def extendedSchema : Schema Unit Unit where
  fullName _ := "Extended"
  findFieldByNumber _ _ := none
  findFieldByName _ _ := none
  isMap _ := false
  isRepeated _ := false
  cppType _ := .int32
  isBytes _ := false
  messageType _ := none

/-- Two empty messages of the descriptor, and which of them has a reflection that knows the
extension. -/
def extendedMessages (knows : Bool → Bool) : Reflections Bool Unit Unit where
  descriptor _ := ()
  findKnownExtensionByName m _ := if knows m then some () else none
  hasField _ _ := false
  fieldSize _ _ := 0
  getMessage m _ := m
  getInt32 _ _ := 0
  getInt64 _ _ := 0
  getUInt32 _ _ := 0
  getUInt64 _ _ := 0
  getBool _ _ := false
  getDouble _ _ := ⟨0⟩
  getFloat _ _ := 0
  getEnumValue _ _ := 0
  getStringReference _ _ := []
  view _ := .other
  findMessageTypeByName _ _ := none
  prototype _ := false
  parse _ _ := none
  customReadField _ _ _ := .ok (.plain .null)
  customHasField _ _ _ := false

/-- A memory without an arena. -/
def noArena : ArenaAllocator Unit where
  alloc _ _ := (none, ())
  write _ _ _ := ()

/-- One site, for the extension by its name. -/
def extensionSite : CelHostBindings where
  fieldRefs := [{ fieldNumber := 0, fieldName := "" }, { fieldNumber := 0, fieldName := "ext" }]
  attributes := []
  unknownPatterns := []

/-- Both messages are bound, and read through the site one after the other. -/
def readBoth (knows : Bool → Bool) : FieldEval Bool Unit Unit Unit where
  unknownPatterns := []
  steps := [.encode 0 (.protoMessage true), .encode 24 (.protoMessage false), .get 48 0 1 0,
    .get 72 24 1 0].map fun event => { messages := extendedMessages knows, event }

/-- Of messages that both know the extension. -/
theorem fieldAccess_sameUpToSlots_shared :
    List.Forall₂ SameUpToSlots
      (runFieldEvals noArena extensionSite extendedSchema false [readBoth fun _ => true]
        (.start (fun _ => .inline .null) ()))
      (runFieldEvals noArena extensionSite extendedSchema true [readBoth fun _ => true]
        (.start (fun _ => .inline .null) ())) := by
  refine fieldAccess_sameUpToSlots _ _ _ (knowingEvals_of_pairwise ?_)
  have hshares : SharesExtensions (extendedMessages fun _ => true) (extendedMessages fun _ => true) :=
    fun _ _ _ _ _ hknown => hknown
  simp [readBoth, hshares]

/-- **Where the first message knows the extension and the second does not**, the second reads the
extension's default through the cache, and has no such field without. -/
theorem fieldAccess_unsharedExtension :
    ¬List.Forall₂ SameUpToSlots
      (runFieldEvals noArena extensionSite extendedSchema false [readBoth id]
        (.start (fun _ => .inline .null) ()))
      (runFieldEvals noArena extensionSite extendedSchema true [readBoth id]
        (.start (fun _ => .inline .null) ())) := by
  rintro (_ | ⟨⟨maps, lists, houtcomes, -⟩, -⟩)
  have hlast := congrArg (·[3]?) houtcomes
  have hcached : ((readBoth id).run noArena extensionSite extendedSchema true
      (.start (fun _ => .inline .null) ())).1[3]? = some (.wrote (.inline (.int 0))) := rfl
  have huncached : ((readBoth id).run noArena extensionSite extendedSchema false
      (.start (fun _ => .inline .null) ())).1[3]? = some (.wrote (.inline (.error .fieldNotFound))) :=
    rfl
  simp only [hcached, List.getElem?_map, huncached] at hlast
  exact absurd hlast nofun

end CelWasm
