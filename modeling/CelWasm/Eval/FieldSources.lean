import CelWasm.Eval.ProtoField

/-!
# Eval/FieldSources — a field set from a backing or from the arena

The same list or map is written by one family of writers when it is in the arena and by another when
it is behind a handle. The two agree on scalars, with their range checks, on messages and on
durations. They part on times before the epoch, which one rounds toward zero and the other down, and
on JSON values and `Any`, into which only the arena's values are packed.
-/

namespace CelWasm

/-! ## Copies -/

/-- **A cell is a copy of a backing's value**: the cell it is written as, or an arena container of
copies. -/
inductive Copied : HostValue → CelValue → Prop
  | cell {v : HostValue} {c : CelValue} (h : v.encoded = some c) : Copied v c
  | list {elements : List HostValue} {cells : List CelValue} (capacity : ℕ)
    (h : List.Forall₂ Copied elements cells) :
    Copied (.list elements) (.listArena capacity cells)
  | map {entries : List (HostValue × HostValue)} {cells : List (CelValue × CelValue)}
    (capacity : ℕ) (index : Option MapIndex)
    (hkeys : List.Forall₂ Copied (entries.map Prod.fst) (cells.map Prod.fst))
    (hvalues : List.Forall₂ Copied (entries.map Prod.snd) (cells.map Prod.snd)) :
    Copied (.map entries) (.mapArena capacity cells index)

/-- An entry and a copy of it. -/
def CopiedEntry (e : HostValue × HostValue) (c : CelValue × CelValue) : Prop :=
  Copied e.1 c.1 ∧ Copied e.2 c.2

/-- **A container behind a handle and a copy of it in the arena.** -/
inductive CopiedSource : CelValue → CelValue → Prop
  | list {elements : List HostValue} {cells : List CelValue} (capacity : ℕ)
    (h : List.Forall₂ Copied elements cells) :
    CopiedSource (.listHost elements) (.listArena capacity cells)
  | map {entries : List (HostValue × HostValue)} {cells : List (CelValue × CelValue)}
    (capacity : ℕ) (index : Option MapIndex) (h : List.Forall₂ CopiedEntry entries cells) :
    CopiedSource (.mapHost entries) (.mapArena capacity cells index)

/-! ## What fits a field -/

variable {Msg : Type}

/-- How a cell misfits a scalar type: its kind is another, or it is out of range. -/
def ScalarType.misfit : ScalarType → CelValue → Option SetFailure
  | .bool, .bool _ | .int64, .int _ | .uint64, .uint _ | .float, .double _ | .double, .double _
  | .string, .string _ | .bytes, .bytes _ => none
  | .int32, .int i | .enum, .int i =>
    if -2 ^ 31 ≤ i.toInt ∧ i.toInt < 2 ^ 31 then none else some .outOfRange
  | .uint32, .uint u => if u.toNat < 2 ^ 32 then none else some .outOfRange
  | _, _ => some .invalid

mutual

/-- A cell is a JSON value, its containers in the arena and its maps keyed by strings. -/
def CelValue.isJson : CelValue → Bool
  | .null | .bool _ | .int _ | .uint _ | .double _ | .string _ => true
  | .listArena _ elements => jsonElements elements
  | .mapArena _ entries _ => jsonEntries entries
  | _ => false

/-- All elements are. -/
def jsonElements : List CelValue → Bool
  | [] => true
  | v :: rest => v.isJson && jsonElements rest

/-- All keys are strings and all values are. -/
def jsonEntries : List (CelValue × CelValue) → Bool
  | [] => true
  | (.string _, v) :: rest => v.isJson && jsonEntries rest
  | _ :: _ => false

end

/-- A well-known type is packed from a cell. -/
def Descriptor.packs (env : ProtoEnv Msg) (d : Descriptor) (c : CelValue) : WktName → Bool
  | .duration => (c matches .duration _)
  | .timestamp => (c matches .timestamp _)
  | .value => c.isJson
  | .struct => (c matches .mapArena ..) && c.isJson
  | .listValue => (c matches .listArena ..) && c.isJson
  | .any => env.prototype { d with fullName := anyInnerFqn c } && (c.isJson || (c matches .bytes _))

/-- **A message type takes a cell**: null, a message it can hold, or what is packed into it. -/
def Descriptor.takes (env : ProtoEnv Msg) (d : Descriptor) : CelValue → Bool
  | .null => true
  | .message slot =>
    match env.message slot with
    | some src => env.descriptor src = d || d.wkt = some .any
    | none => false
  | c => d.wkt.any (d.packs env c)

/-- How a cell misfits a message type. -/
def Descriptor.misfit (env : ProtoEnv Msg) (d : Descriptor) (c : CelValue) : Option SetFailure :=
  if d.takes env c then none else some .invalid

/-- How an entry misfits a map of messages: an entry with a null value is left out whatever its key,
else the key is looked at first. -/
def Descriptor.entryMisfit (env : ProtoEnv Msg) (key : KeyType) (d : Descriptor)
    (e : CelValue × CelValue) : Option SetFailure :=
  match e.2 with
  | .null => none
  | v => key.scalar.misfit e.1 <|> d.misfit env v

/-- The types only the arena's values are packed into. -/
def Descriptor.packsArena (d : Descriptor) : Bool :=
  match d.wkt with
  | some .value | some .struct | some .listValue | some .any => true
  | _ => false

/-- **A backing's value and its copy part**, at a field of a message type: a time before the epoch
within a second, or what is neither null nor a message and has to be packed. -/
def Descriptor.parts (d : Descriptor) : HostValue → Prop
  | .null | .message _ => False
  | .timestamp (.finite hi lo) => d.packsArena ∨ d.wkt = some .timestamp ∧ hi.toInt < 0 ∧ lo ≠ 0
  | _ => d.packsArena

/-- Two sources of a field of messages agree: ahead of the first misfit nothing parts, or that misfit
ends both alike. -/
def Descriptor.Agrees {α β : Type} (d : Descriptor) (misfit : β → Option SetFailure)
    (parts : α → Prop) (xs : List α) (ys : List β) : Prop :=
  (∀ p ∈ fitting misfit xs ys, ¬parts p.1) ∨
    if d.packsArena then ys.findSome? misfit = some .invalid
    else (ys.findSome? misfit).isSome = true

/-- **The two sources of a field agree.** -/
def FieldShape.Agrees (env : ProtoEnv Msg) : FieldShape → CelValue → CelValue → Prop
  | .singular (.message d), _, copy => d.takes env copy = false
  | .repeated (.message d), .listHost elements, .listArena _ cells =>
    d.Agrees (d.misfit env) d.parts elements cells
  | .map key (.message d), .mapHost entries, .mapArena _ cells _ =>
    d.Agrees (d.entryMisfit env key) (fun e => d.parts e.2) entries cells
  | _, _, _ => True

/-! ## Scalars -/

/-- A scalar is refused as its cell misfits. -/
theorem scalarOfCell_spec (t : ScalarType) (c : CelValue) :
    (∀ e, t.misfit c = some e → scalarOfCell t c = .error e) ∧
      (t.misfit c = none → ∃ s, scalarOfCell t c = .ok s) := by
  fun_cases scalarOfCell t c with
  | case2 i | case10 i =>
    rw [ScalarType.misfit, checkInt32Range]
    split_ifs
    · exact ⟨nofun, fun _ => ⟨_, rfl⟩⟩
    · exact ⟨fun e h => congrArg Except.error (Option.some.inj h), nofun⟩
  | case4 u =>
    rw [ScalarType.misfit, checkUint32Range]
    split_ifs
    · exact ⟨nofun, fun _ => ⟨_, rfl⟩⟩
    · exact ⟨fun e h => congrArg Except.error (Option.some.inj h), nofun⟩
  | case11 =>
    have hmisfit : t.misfit c = some .invalid := by
      rw [ScalarType.misfit] <;> assumption
    rw [hmisfit]
    exact ⟨fun e h => congrArg Except.error (Option.some.inj h), nofun⟩
  | _ => exact ⟨nofun, fun _ => ⟨_, rfl⟩⟩

theorem scalarOfHost_eq {v : HostValue} {c : CelValue} (h : Copied v c) (t : ScalarType) :
    scalarOfHost t v = scalarOfCell t c := by
  cases h with
  | cell h =>
    cases v with
    | unknown ids => exact nomatch h
    | type name => exact nomatch h
    | _ =>
      obtain rfl := Option.some.inj h
      cases t <;> rfl
  | list | map => cases t <;> rfl

/-- A result, or the failure of what does not fit. -/
def okIf {α : Type} (fits : Bool) (a : α) : Except SetFailure α :=
  if fits then .ok a else .error .invalid

@[simp] theorem map_okIf {α β : Type} (f : α → β) (fits : Bool) (a : α) :
    (okIf fits a).map f = okIf fits (f a) := by cases fits <;> rfl

/-! ## JSON values -/

mutual

theorem packCelValueIntoJsonValue_spec : ∀ c : CelValue, ∃ j,
    packCelValueIntoJsonValue c = okIf c.isJson j
  | .listArena capacity elements => by
    obtain ⟨js, hjs⟩ := packListElements_spec elements
    refine ⟨.list js, ?_⟩
    rw [packCelValueIntoJsonValue, CelValue.isJson, hjs, map_okIf]
  | .mapArena capacity entries index => by
    obtain ⟨js, hjs⟩ := packStructEntries_spec entries
    refine ⟨.struct js, ?_⟩
    rw [packCelValueIntoJsonValue, CelValue.isJson, hjs, map_okIf]
  | .null | .bool _ | .int _ | .uint _ | .double _ | .string _ => ⟨_, rfl⟩
  | .bytes _ | .mapHost _ | .message _ | .type _ | .duration _ | .timestamp _ | .optional _
  | .unknown _ | .error _ | .listHost _ | .ip _ | .cidr _ => ⟨.null, rfl⟩

theorem packListElements_spec : ∀ elements : List CelValue, ∃ js,
    packListElements elements = okIf (jsonElements elements) js
  | [] => ⟨[], rfl⟩
  | v :: rest => by
    obtain ⟨j, hj⟩ := packCelValueIntoJsonValue_spec v
    obtain ⟨js, hjs⟩ := packListElements_spec rest
    refine ⟨j :: js, ?_⟩
    rw [packListElements, jsonElements, hj, hjs]
    cases v.isJson <;> cases jsonElements rest <;> rfl

theorem packStructEntries_spec : ∀ entries : List (CelValue × CelValue), ∃ js,
    packStructEntries entries = okIf (jsonEntries entries) js
  | [] => ⟨[], rfl⟩
  | (key, v) :: rest => by
    obtain ⟨j, hj⟩ := packCelValueIntoJsonValue_spec v
    obtain ⟨js, hjs⟩ := packStructEntries_spec rest
    cases key with
    | string s =>
      refine ⟨(s, j) :: js, ?_⟩
      rw [packStructEntries, jsonEntries, hj, hjs]
      cases v.isJson <;> cases jsonEntries rest <;> rfl
    | _ => exact ⟨[], rfl⟩

end

/-! ## Messages -/

section Messages

variable {env : ProtoEnv Msg} {d : Descriptor}

theorem packStruct_spec (c : CelValue) :
    ∃ js, packStruct c = okIf ((c matches .mapArena ..) && c.isJson) js := by
  cases c with
  | mapArena capacity entries index => exact packStructEntries_spec entries
  | _ => exact ⟨[], rfl⟩

theorem packListValue_spec (c : CelValue) :
    ∃ js, packListValue c = okIf ((c matches .listArena ..) && c.isJson) js := by
  cases c with
  | listArena capacity elements => exact packListElements_spec elements
  | _ => exact ⟨[], rfl⟩

/-- What an `Any` is to hold is a JSON value, or bytes. -/
theorem anyInner_spec (c : CelValue) :
    ∃ m : ProtoMessage Msg, anyInner c = okIf (c.isJson || (c matches .bytes _)) m := by
  cases c with
  | listArena capacity elements =>
    obtain ⟨js, hjs⟩ := packListElements_spec elements
    refine ⟨.listValue js, ?_⟩
    rw [anyInner, packListValue, hjs, map_okIf, CelValue.isJson, Bool.or_false]
  | mapArena capacity entries index =>
    obtain ⟨js, hjs⟩ := packStructEntries_spec entries
    refine ⟨.struct js, ?_⟩
    rw [anyInner, packStruct, hjs, map_okIf, CelValue.isJson, Bool.or_false]
  | null | bool _ | double _ | string _ => exact ⟨.value _, rfl⟩
  | int _ | uint _ | bytes _ => exact ⟨.wrapper _, rfl⟩
  | _ => exact ⟨.value .null, rfl⟩

/-- A cell is packed into a well-known type if and only if the type is packed from it. -/
theorem maybePackWktMessage_spec (c : CelValue) : ∃ m,
    (maybePackWktMessage env d c).getD (.error .invalid) = okIf (d.wkt.any (d.packs env c)) m := by
  cases hwkt : d.wkt with
  | none => exact ⟨.value .null, by simp only [maybePackWktMessage, hwkt]; rfl⟩
  | some name =>
    simp only [maybePackWktMessage, hwkt]
    cases name with
    | duration | timestamp => cases c <;> first | exact ⟨_, rfl⟩ | exact ⟨.value .null, rfl⟩
    | value =>
      obtain ⟨j, hj⟩ := packCelValueIntoJsonValue_spec c
      exact ⟨.value j, by rw [Option.getD_some, hj, map_okIf]; rfl⟩
    | struct =>
      obtain ⟨js, hjs⟩ := packStruct_spec c
      exact ⟨.struct js, by rw [Option.getD_some, hjs, map_okIf]; rfl⟩
    | listValue =>
      obtain ⟨js, hjs⟩ := packListValue_spec c
      exact ⟨.listValue js, by rw [Option.getD_some, hjs, map_okIf]; rfl⟩
    | any =>
      have hpacks : d.packs env c .any = (env.prototype { d with fullName := anyInnerFqn c } &&
          (c.isJson || (c matches .bytes _))) := rfl
      obtain ⟨m, hm⟩ := @anyInner_spec Msg c
      refine ⟨.any ("type.googleapis.com/" ++ anyInnerFqn c) m, ?_⟩
      rw [Option.getD_some, packAnyFromScalar, hm, map_okIf, Option.any_some, hpacks]
      cases env.prototype { d with fullName := anyInnerFqn c } <;> rfl

theorem copyMessage_spec (slot : ℕ) :
    ∃ m, copyMessage env d slot = okIf (d.takes env (.message slot)) m := by
  rw [copyMessage, Descriptor.takes]
  cases env.message slot with
  | none => exact ⟨.value .null, rfl⟩
  | some src =>
    simp only [writeMessageOrPack]
    by_cases hsame : env.descriptor src = d
    · exact ⟨.copied src, by simp [hsame, okIf]⟩
    · refine ⟨.any ("type.googleapis.com/" ++ (env.descriptor src).fullName) (.copied src), ?_⟩
      simp [hsame, okIf]

/-- **A cell is written into a field of messages if and only if the type takes it.** -/
theorem cellMessage_spec {c : CelValue} (h : c ≠ .null) :
    ∃ m, cellMessage env d c = okIf (d.takes env c) m := by
  cases c with
  | null => exact absurd rfl h
  | message slot => exact copyMessage_spec slot
  | _ => exact maybePackWktMessage_spec _

/-- **What the two writers make of a backing's value and its copy.** -/
structure MessagePair (env : ProtoEnv Msg) (d : Descriptor) (v : HostValue) (c : CelValue) :
    Prop where
  refused : d.takes env c = false → hostMessage env d v = .error .invalid
  same : d.takes env c = true → ¬d.parts v → hostMessage env d v = cellMessage env d c
  unpacked : d.takes env c = true → d.parts v → d.packsArena = true →
    hostMessage env d v = .error .invalid
  altered : d.takes env c = true → d.parts v → d.packsArena = false →
    ∃ m m', m ≠ m' ∧ hostMessage env d v = .ok m ∧ cellMessage env d c = .ok m'

/-- What the backing's writer does not pack, and no time type is packed from. -/
theorem MessagePair.of_unpacked {v : HostValue} {c : CelValue}
    (hhost : hostMessage env d v = .error .invalid) (hparts : d.parts v ↔ d.packsArena = true)
    (hcell : d.takes env c = d.wkt.any (d.packs env c))
    (hduration : d.wkt = some .duration → d.packs env c .duration = false)
    (htimestamp : d.wkt = some .timestamp → d.packs env c .timestamp = false) :
    MessagePair env d v c := by
  have htakes : d.packsArena = false → d.takes env c = false := by
    intro harena
    rw [hcell]
    rw [Descriptor.packsArena] at harena
    cases hwkt : d.wkt with
    | none => rfl
    | some name =>
      rw [hwkt] at harena
      cases name with
      | duration => exact hduration hwkt
      | timestamp => exact htimestamp hwkt
      | _ => exact nomatch harena
  refine ⟨fun _ => hhost, fun htake hpart => ?_, fun _ _ _ => hhost, fun htake _ harena => ?_⟩
  · have hfalse := htakes (Bool.eq_false_iff.mpr fun h => hpart (hparts.mpr h))
    exact absurd htake (by simp [hfalse])
  · exact absurd htake (by simp [htakes harena])

theorem hostMessage_message (slot : ℕ) :
    hostMessage env d (.message slot) = copyMessage env d slot := by
  unfold hostMessage maybePackWktFromHostValue
  cases d.wkt with
  | none => rfl
  | some name => cases name <;> rfl

theorem messagePair_message (slot : ℕ) : MessagePair env d (.message slot) (.message slot) := by
  have hhost := @hostMessage_message Msg env d slot
  obtain ⟨m, hm⟩ := @copyMessage_spec Msg env d slot
  refine ⟨fun h => ?_, fun _ _ => hhost, fun _ h => h.elim, fun _ h => h.elim⟩
  rw [hhost, hm, h]
  rfl

theorem messagePair_duration (time : AbslDuration) :
    MessagePair env d (.duration time) (.duration (decomposeAbslDuration time)) := by
  by_cases hwkt : d.wkt = some .duration
  · have harena : d.packsArena = false := by rw [Descriptor.packsArena, hwkt]
    have htakes : d.takes env (.duration (decomposeAbslDuration time)) = true := by
      simp only [Descriptor.takes, hwkt]
      rfl
    have hsame : hostMessage env d (.duration time)
        = cellMessage env d (.duration (decomposeAbslDuration time)) := by
      unfold hostMessage cellMessage maybePackWktFromHostValue maybePackWktMessage
      simp only [hwkt]
      rfl
    have hparts : ¬d.parts (.duration time) := by simp [Descriptor.parts, harena]
    exact ⟨fun h => absurd htakes (by simp [h]), fun _ _ => hsame, fun _ h => absurd h hparts,
      fun _ h => absurd h hparts⟩
  · refine .of_unpacked ?_ Iff.rfl rfl (fun h => absurd h hwkt) fun _ => rfl
    unfold hostMessage maybePackWktFromHostValue
    cases hname : d.wkt with
    | none => rfl
    | some name => cases name <;> first | rfl | exact absurd hname hwkt

/-- **The two roundings of a time differ** before the epoch within a second. -/
theorem flooredTime_eq_iff {hi : Int64} {lo : Fin 4000000000} :
    flooredTime (.finite hi lo) = decomposeAbslDuration (.finite hi lo) ↔
      ¬(hi.toInt < 0 ∧ lo ≠ 0) := by
  have hfloor : flooredTime (.finite hi lo)
      = { seconds := hi, nanos := Int32.ofInt (lo.val / 4 : ℕ) } := by
    rw [flooredTime, AbslDuration.toInt64Nanoseconds_sub_toUnixSeconds]
    rfl
  rw [hfloor]
  by_cases hfraction : hi.toInt < 0 ∧ lo ≠ 0
  · rw [decomposeAbslDuration_of_fraction hfraction.1 hfraction.2]
    refine iff_of_false (fun heq => ?_) (not_not.mpr hfraction)
    have hseconds := congrArg (fun pair => pair.seconds.toInt) heq
    have hlow := hi.le_toInt
    simp only [Int64.toInt_add] at hseconds
    rw [Int.bmod_eq_of_le] at hseconds <;> simp at hseconds ⊢ <;> omega
  · refine iff_of_true (decomposeAbslDuration_of_whole ?_).symm hfraction
    by_cases hneg : 0 ≤ hi.toInt
    · exact .inl hneg
    · exact .inr (not_not.mp fun hne => hfraction ⟨not_le.mp hneg, hne⟩)

theorem messagePair_timestamp (time : AbslTime) :
    MessagePair env d (.timestamp time) (.timestamp (decomposeAbslDuration time)) := by
  by_cases hwkt : d.wkt = some .timestamp
  · have harena : d.packsArena = false := by rw [Descriptor.packsArena, hwkt]
    have htakes : d.takes env (.timestamp (decomposeAbslDuration time)) = true := by
      simp only [Descriptor.takes, hwkt]
      rfl
    have hhost : hostMessage env d (.timestamp time) = .ok (.timestamp (flooredTime time)) := by
      unfold hostMessage maybePackWktFromHostValue
      rw [hwkt]
    have hcell : cellMessage env d (.timestamp (decomposeAbslDuration time))
        = .ok (.timestamp (decomposeAbslDuration time)) := by
      unfold cellMessage maybePackWktMessage
      simp only [hwkt]
      rfl
    refine ⟨fun h => absurd htakes (by simp [h]), fun _ hpart => ?_,
      fun _ _ h => absurd h (by simp [harena]), fun _ hpart _ => ?_⟩
    · rw [hhost, hcell]
      cases time with
      | infinite negative => cases negative <;> rfl
      | finite hi lo =>
        rw [flooredTime_eq_iff.mpr fun h => hpart (.inr ⟨hwkt, h⟩)]
    · cases time with
      | infinite negative => exact absurd hpart (by simp [Descriptor.parts, harena])
      | finite hi lo =>
        obtain h | ⟨-, hfraction⟩ := hpart
        · exact absurd h (by simp [harena])
        · refine ⟨_, _, fun heq => ?_, hhost, hcell⟩
          exact flooredTime_eq_iff.mp (ProtoMessage.timestamp.inj heq) hfraction
  · refine .of_unpacked ?_ ?_ rfl (fun _ => rfl) fun h => absurd h hwkt
    · unfold hostMessage maybePackWktFromHostValue
      cases hname : d.wkt with
      | none => rfl
      | some name => cases name <;> first | rfl | exact absurd hname hwkt
    · cases time with
      | infinite negative => exact Iff.rfl
      | finite hi lo => simp [Descriptor.parts, hwkt]

/-- The backing's writer refuses what is neither null, a message nor a time. -/
theorem hostMessage_refused {v : HostValue}
    (h : (v matches .null | .message _ | .duration _ | .timestamp _) = false) :
    hostMessage env d v = .error .invalid := by
  unfold hostMessage maybePackWktFromHostValue
  cases v with
  | null | message _ | duration _ | timestamp _ => exact nomatch h
  | _ =>
    cases d.wkt with
    | none => rfl
    | some name => cases name <;> rfl

/-- **A value and its copy are written alike, unless they part.** -/
theorem messagePair {v : HostValue} {c : CelValue} (h : Copied v c) (hv : v ≠ .null) :
    MessagePair env d v c := by
  cases h with
  | cell h =>
    cases v with
    | null => exact absurd rfl hv
    | unknown ids => exact nomatch h
    | type name => exact nomatch h
    | message slot =>
      obtain rfl := Option.some.inj h
      exact messagePair_message slot
    | duration time =>
      obtain rfl := Option.some.inj h
      exact messagePair_duration time
    | timestamp time =>
      obtain rfl := Option.some.inj h
      exact messagePair_timestamp time
    | _ =>
      obtain rfl := Option.some.inj h
      exact .of_unpacked (hostMessage_refused rfl) Iff.rfl rfl (fun _ => rfl) fun _ => rfl
  | list capacity h | map capacity index hkeys hvalues =>
    exact .of_unpacked (hostMessage_refused rfl) Iff.rfl rfl (fun _ => rfl) fun _ => rfl

/-! ## Elements and entries -/

/-- An element that is not pruned. -/
theorem appendRepeatedFromCelValue_of_ne {c : CelValue} (h : c ≠ .null) :
    appendRepeatedFromCelValue env (.message d) c
      = ((cellMessage env d c).map some).map fun m => m.map .message := by
  cases c with
  | null => exact absurd rfl h
  | _ => rfl

theorem appendRepeatedFromHostListValue_of_ne {v : HostValue} (h : v ≠ .null) :
    appendRepeatedFromHostListValue env (.message d) v
      = (hostMessage env d v).map fun m => some (.message m) := by
  cases v with
  | null => exact absurd rfl h
  | _ => rfl

/-- The copy of null is null, and of nothing else. -/
theorem Copied.null_iff {v : HostValue} {c : CelValue} (h : Copied v c) :
    v = .null ↔ c = .null := by
  cases h with
  | cell h =>
    cases v with
    | unknown ids => exact nomatch h
    | type name => exact nomatch h
    | _ =>
      obtain rfl := Option.some.inj h
      simp
  | list capacity h | map capacity index hkeys hvalues => simp

theorem takes_of_misfit {c : CelValue} (h : d.misfit env c = none) : d.takes env c = true := by
  by_contra htakes
  exact nomatch (if_neg htakes).symm.trans h

theorem not_takes_of_misfit {c : CelValue} {e : SetFailure} (h : d.misfit env c = some e) :
    d.takes env c = false ∧ e = .invalid := by
  cases htakes : d.takes env c with
  | true => exact nomatch (if_pos htakes).symm.trans h
  | false =>
    refine ⟨rfl, ?_⟩
    exact (Option.some.inj ((if_neg (by simp [htakes])).symm.trans h)).symm

/-- **An element of a backing and its copy correspond.** -/
theorem corresponds_element {v : HostValue} {c : CelValue} (h : Copied v c) :
    Corresponds (appendRepeatedFromHostListValue env (.message d))
      (appendRepeatedFromCelValue env (.message d)) (d.misfit env) (fun v _ => d.parts v) v c := by
  by_cases hv : v = .null
  · obtain rfl := hv
    obtain rfl := h.null_iff.mp rfl
    exact ⟨nofun, fun _ => ⟨none, rfl, fun _ => rfl⟩⟩
  · have hc : c ≠ .null := fun hc => hv (h.null_iff.mpr hc)
    obtain ⟨m, hm⟩ := @cellMessage_spec Msg env d c hc
    have hpair := @messagePair Msg env d v c h hv
    have hcell : appendRepeatedFromCelValue env (.message d) c
        = okIf (d.takes env c) (some (.message m)) := by
      rw [appendRepeatedFromCelValue_of_ne hc, hm, map_okIf, map_okIf]
      rfl
    refine ⟨fun e he => ?_, fun hfit => ?_⟩
    · obtain ⟨htakes, rfl⟩ := not_takes_of_misfit he
      rw [appendRepeatedFromHostListValue_of_ne hv, hpair.refused htakes, hcell, htakes]
      exact ⟨rfl, rfl⟩
    · have htakes := takes_of_misfit hfit
      refine ⟨some (.message m), by rw [hcell, htakes]; rfl, fun hpart => ?_⟩
      rw [appendRepeatedFromHostListValue_of_ne hv, hpair.same htakes hpart, hm, htakes]
      rfl

/-- An entry of a backing that is not pruned: its key, then its value. -/
theorem insertHostMapEntry_of_ne {key : KeyType} {k v : HostValue} (h : v ≠ .null) :
    insertHostMapEntry env key (.message d) (k, v)
      = (scalarOfHost key.scalar k).bind fun k =>
          (hostMessage env d v).map fun m => some (k, .message m) := by
  cases v with
  | null => exact absurd rfl h
  | _ =>
    change scalarOfHost key.scalar k >>= (fun k => (hostMessage env d _).map FieldItem.message >>=
      fun item => pure (some (k, item))) = _
    cases scalarOfHost key.scalar k with
    | error e => rfl
    | ok s => cases hostMessage env d _ <;> rfl

/-- An entry of the arena that is not pruned. -/
theorem insertArenaMapEntry_of_ne {key : KeyType} {k v : CelValue} (h : v ≠ .null) :
    insertArenaMapEntry env key (.message d) (k, v)
      = (scalarOfCell key.scalar k).bind fun k =>
          (cellMessage env d v).map fun m => some (k, .message m) := by
  cases v with
  | null => exact absurd rfl h
  | _ =>
    change scalarOfCell key.scalar k >>= (fun k => (cellMessage env d _).map FieldItem.message >>=
      fun item => pure (some (k, item))) = _
    cases scalarOfCell key.scalar k with
    | error e => rfl
    | ok s => cases cellMessage env d _ <;> rfl

theorem entryMisfit_of_ne {key : KeyType} {k v : CelValue} (h : v ≠ .null) :
    d.entryMisfit env key (k, v) = (key.scalar.misfit k <|> d.misfit env v) := by
  cases v with
  | null => exact absurd rfl h
  | _ => rfl

/-- An entry that fits: its key is written, and its value is taken. -/
theorem entryMisfit_eq_none {key : KeyType} {k v : CelValue} (h : v ≠ .null)
    (hfit : d.entryMisfit env key (k, v) = none) :
    (∃ s, scalarOfCell key.scalar k = .ok s) ∧ d.takes env v = true := by
  rw [entryMisfit_of_ne h] at hfit
  cases hmisfit : key.scalar.misfit k with
  | some e =>
    rw [hmisfit] at hfit
    exact nomatch hfit
  | none =>
    rw [hmisfit] at hfit
    exact ⟨(scalarOfCell_spec key.scalar k).2 hmisfit, takes_of_misfit hfit⟩

/-- An entry that does not: its key is refused, or it is written and the value is not taken. -/
theorem entryMisfit_eq_some {key : KeyType} {k v : CelValue} (h : v ≠ .null) {e : SetFailure}
    (hmisfit : d.entryMisfit env key (k, v) = some e) :
    scalarOfCell key.scalar k = .error e ∨
      (∃ s, scalarOfCell key.scalar k = .ok s) ∧ e = .invalid ∧ d.takes env v = false := by
  rw [entryMisfit_of_ne h] at hmisfit
  have hkey := scalarOfCell_spec key.scalar k
  cases hkeyfit : key.scalar.misfit k with
  | some e' =>
    rw [hkeyfit] at hmisfit
    obtain rfl : e' = e := Option.some.inj hmisfit
    exact .inl (hkey.1 e' hkeyfit)
  | none =>
    rw [hkeyfit] at hmisfit
    obtain ⟨htakes, he⟩ := @not_takes_of_misfit Msg env d v e hmisfit
    exact .inr ⟨hkey.2 hkeyfit, he, htakes⟩

/-- **An entry of a backing and its copy correspond.** -/
theorem corresponds_entry {key : KeyType} {e : HostValue × HostValue} {c : CelValue × CelValue}
    (h : CopiedEntry e c) :
    Corresponds (insertHostMapEntry env key (.message d)) (insertArenaMapEntry env key (.message d))
      (d.entryMisfit env key) (fun e _ => d.parts e.2) e c := by
  obtain ⟨k, v⟩ := e
  obtain ⟨ck, cv⟩ := c
  obtain ⟨hk, hcopied⟩ := h
  dsimp only at hk hcopied
  by_cases hv : v = .null
  · obtain rfl := hv
    obtain rfl := hcopied.null_iff.mp rfl
    exact ⟨nofun, fun _ => ⟨none, rfl, fun _ => rfl⟩⟩
  · have hc : cv ≠ .null := fun hc => hv (hcopied.null_iff.mpr hc)
    obtain ⟨m, hm⟩ := @cellMessage_spec Msg env d cv hc
    have hpair := @messagePair Msg env d v cv hcopied hv
    refine ⟨fun e he => ?_, fun hfit => ?_⟩
    · rw [insertHostMapEntry_of_ne hv, insertArenaMapEntry_of_ne hc, scalarOfHost_eq hk]
      obtain hrefused | ⟨⟨s, hs⟩, rfl, htakes⟩ := entryMisfit_eq_some hc he
      · rw [hrefused]
        exact ⟨rfl, rfl⟩
      · rw [hs, hpair.refused htakes, hm, htakes]
        exact ⟨rfl, rfl⟩
    · obtain ⟨⟨s, hs⟩, htakes⟩ := entryMisfit_eq_none hc hfit
      rw [insertHostMapEntry_of_ne hv, insertArenaMapEntry_of_ne hc, scalarOfHost_eq hk, hs, hm,
        htakes]
      refine ⟨some (s, .message m), rfl, fun hpart => ?_⟩
      rw [hpair.same htakes hpart, hm, htakes]
      rfl

/-! ## Fields -/

/-- Loops over elements that correspond agree as the sources do. -/
theorem Descriptor.collect_eq_iff {α β γ : Type} {f : α → Except SetFailure (Option γ)}
    {g : β → Except SetFailure (Option γ)} {misfit : β → Option SetFailure} {parts : α → Prop}
    {xs : List α} {ys : List β}
    (h : List.Forall₂ (Corresponds f g misfit fun x _ => parts x) xs ys)
    (hrefused : d.packsArena = true →
      List.Forall₂ (fun x y => misfit y = none → parts x → f x = .error .invalid) xs ys)
    (haltered : d.packsArena = false →
      List.Forall₂ (fun x y => misfit y = none → parts x →
        ∃ a b, a ≠ b ∧ f x = .ok (some a) ∧ g y = .ok (some b)) xs ys) :
    collect f xs = collect g ys ↔ d.Agrees misfit parts xs ys := by
  rw [Descriptor.Agrees]
  cases harena : d.packsArena with
  | true => simpa using collect_eq_iff_of_refused h (hrefused harena)
  | false => simpa using collect_eq_iff_of_altered h (haltered harena)

/-- **A repeated field of messages** is set alike if and only if the sources agree. -/
theorem setRepeatedField_eq_iff {elements : List HostValue} {cells : List CelValue}
    (capacity : ℕ) (h : List.Forall₂ Copied elements cells) :
    setRepeatedField env (.message d) (.listHost elements)
        = setRepeatedField env (.message d) (.listArena capacity cells) ↔
      d.Agrees (d.misfit env) d.parts elements cells := by
  refine Descriptor.collect_eq_iff (h.imp fun _ _ => corresponds_element) (fun harena => ?_)
    fun harena => ?_
  · refine h.imp fun v c hcopied hfit hpart => ?_
    have hv : v ≠ .null := by
      rintro rfl
      exact hpart
    rw [appendRepeatedFromHostListValue_of_ne hv,
      (messagePair hcopied hv).unpacked (takes_of_misfit hfit) hpart harena]
    rfl
  · refine h.imp fun v c hcopied hfit hpart => ?_
    have hv : v ≠ .null := by
      rintro rfl
      exact hpart
    obtain ⟨m, m', hne, hm, hm'⟩ :=
      (messagePair hcopied hv).altered (takes_of_misfit hfit) hpart harena
    refine ⟨.message m, .message m', fun heq => hne (FieldItem.message.inj heq), ?_, ?_⟩
    · rw [appendRepeatedFromHostListValue_of_ne hv, hm]
      rfl
    · rw [appendRepeatedFromCelValue_of_ne fun hc => hv (hcopied.null_iff.mpr hc), hm']
      rfl

/-- **A map field of messages** is set alike if and only if the sources agree. -/
theorem setMapField_eq_iff {key : KeyType} {entries : List (HostValue × HostValue)}
    {cells : List (CelValue × CelValue)} (capacity : ℕ) (index : Option MapIndex)
    (h : List.Forall₂ CopiedEntry entries cells) :
    setMapField env key (.message d) (.mapHost entries)
        = setMapField env key (.message d) (.mapArena capacity cells index) ↔
      d.Agrees (d.entryMisfit env key) (fun e => d.parts e.2) entries cells := by
  refine Descriptor.collect_eq_iff (h.imp fun _ _ => corresponds_entry) (fun harena => ?_)
    fun harena => ?_
  · refine h.imp fun (k, v) (ck, cv) ⟨hk, hcopied⟩ hfit hpart => ?_
    dsimp only at hk hcopied hpart
    have hv : v ≠ .null := by
      rintro rfl
      exact hpart
    obtain ⟨⟨s, hs⟩, htakes⟩ :=
      entryMisfit_eq_none (fun hc => hv (hcopied.null_iff.mpr hc)) hfit
    rw [insertHostMapEntry_of_ne hv, scalarOfHost_eq hk, hs,
      (messagePair hcopied hv).unpacked htakes hpart harena]
    rfl
  · refine h.imp fun (k, v) (ck, cv) ⟨hk, hcopied⟩ hfit hpart => ?_
    dsimp only at hk hcopied hpart
    have hv : v ≠ .null := by
      rintro rfl
      exact hpart
    have hc : cv ≠ .null := fun hc => hv (hcopied.null_iff.mpr hc)
    obtain ⟨⟨s, hs⟩, htakes⟩ := entryMisfit_eq_none hc hfit
    obtain ⟨m, m', hne, hm, hm'⟩ := (messagePair hcopied hv).altered htakes hpart harena
    refine ⟨(s, .message m), (s, .message m'), fun heq => ?_, ?_, ?_⟩
    · exact hne (FieldItem.message.inj (Prod.mk.inj heq).2)
    · rw [insertHostMapEntry_of_ne hv, scalarOfHost_eq hk, hs, hm]
      rfl
    · rw [insertArenaMapEntry_of_ne hc, hs, hm']
      rfl

end Messages

/-- Scalars are set alike. -/
theorem setRepeatedField_scalar {env : ProtoEnv Msg} {t : ScalarType} {elements : List HostValue}
    {cells : List CelValue} (capacity : ℕ) (h : List.Forall₂ Copied elements cells) :
    setRepeatedField env (.scalar t) (.listHost elements)
      = setRepeatedField env (.scalar t) (.listArena capacity cells) := by
  refine collect_congr (h.imp fun v c hcopied => ?_)
  rw [appendRepeatedFromHostListValue, appendRepeatedFromCelValue, appendRepeatedHostScalar,
    appendRepeatedScalar, scalarOfHost_eq hcopied]

/-- Maps of scalars are set alike. -/
theorem setMapField_scalar {env : ProtoEnv Msg} {key : KeyType} {t : ScalarType}
    {entries : List (HostValue × HostValue)} {cells : List (CelValue × CelValue)} (capacity : ℕ)
    (index : Option MapIndex) (h : List.Forall₂ CopiedEntry entries cells) :
    setMapField env key (.scalar t) (.mapHost entries)
      = setMapField env key (.scalar t) (.mapArena capacity cells index) := by
  refine collect_congr (h.imp fun e c hcopied => ?_)
  change scalarOfHost key.scalar e.1 >>= (fun k => (scalarOfHost t e.2).map FieldItem.scalar >>=
    fun item => pure (some (k, item))) = _
  rw [scalarOfHost_eq hcopied.1, scalarOfHost_eq hcopied.2]
  rfl

/-! ## The message under construction -/

/-- A wrapper type is none of the types that are packed. -/
theorem Descriptor.wkt_of_wrapper {d : Descriptor} {t : ScalarType} (h : d.wrapper = some t) :
    d.wkt = none := by
  rw [Descriptor.wrapper] at h
  rw [Descriptor.wkt]
  split at h <;> first | simp [*] | exact nomatch h

section Singular

variable {env : ProtoEnv Msg} {d : Descriptor} {t : FieldType} {c : CelValue}

/-- A container is set into a singular field of messages if and only if the type takes it. -/
theorem setSingularMessageField_container
    (h : (c matches .listArena .. | .listHost _ | .mapArena .. | .mapHost _) = true) :
    ∃ m, setSingularMessageField env d c = okIf (d.takes env c) m := by
  have hscalar : ∀ t, scalarOfCell t c = .error .invalid := by
    intro t
    cases c with
    | listArena _ _ | listHost _ | mapArena _ _ _ | mapHost _ => cases t <;> rfl
    | _ => exact nomatch h
  cases hwrapper : d.wrapper with
  | some t =>
    have hwkt := Descriptor.wkt_of_wrapper hwrapper
    refine ⟨none, ?_⟩
    cases c with
    | listArena _ _ | listHost _ | mapArena _ _ _ | mapHost _ =>
      simp only [setSingularMessageField, hwrapper, setWrapperInnerValue, hscalar t, Descriptor.takes,
        hwkt]
      split_ifs <;> rfl
    | _ => exact nomatch h
  | none =>
    obtain ⟨m, hm⟩ := @maybePackWktMessage_spec Msg env d c
    refine ⟨some m, ?_⟩
    cases c with
    | listArena _ _ | listHost _ | mapArena _ _ _ | mapHost _ =>
      simp only [setSingularMessageField, hwrapper, cellMessage, hm, map_okIf]
      rfl
    | _ => exact nomatch h

/-- No type takes a container behind a handle. -/
theorem takes_host (h : (c matches .listHost _ | .mapHost _) = true) : d.takes env c = false := by
  cases c with
  | listHost _ | mapHost _ =>
    simp only [Descriptor.takes]
    cases d.wkt with
    | none => rfl
    | some name =>
      cases name with
      | any => exact Bool.and_false _
      | _ => rfl
  | _ => exact nomatch h

theorem setSingularField_message (v : CelValue) : setSingularField env (.message d) v
    = (setSingularMessageField env d v).map fun m => m.map .message := rfl

/-- A list or a map behind a handle is refused by every singular field. -/
theorem setSingularField_host {host copy : CelValue} (h : CopiedSource host copy) :
    setSingularField env t host = .error .invalid := by
  cases t with
  | scalar t => cases h <;> cases t <;> rfl
  | message d =>
    have hhost : ∃ m, setSingularMessageField env d host = okIf (d.takes env host) m := by
      cases h <;> exact setSingularMessageField_container rfl
    have hrefused : d.takes env host = false := by cases h <;> exact takes_host rfl
    obtain ⟨m, hm⟩ := hhost
    rw [setSingularField_message, hm, hrefused]
    rfl

/-- **A copy is refused by a singular field** if and only if its type does not take it. -/
theorem setSingularField_copy_iff {host copy : CelValue} (h : CopiedSource host copy) :
    setSingularField env t copy = .error .invalid ↔
      FieldShape.Agrees env (.singular t) host copy := by
  cases t with
  | scalar t =>
    refine iff_of_true ?_ trivial
    cases h <;> cases t <;> rfl
  | message d =>
    have hcopy : ∃ m, setSingularMessageField env d copy = okIf (d.takes env copy) m := by
      cases h <;> exact setSingularMessageField_container rfl
    obtain ⟨m, hm⟩ := hcopy
    rw [setSingularField_message, hm, map_okIf, FieldShape.Agrees]
    cases d.takes env copy <;> simp [okIf]

end Singular

section Outcome

variable {env : ProtoEnv Msg} {fields : String → Option FieldDescriptor} {name : String}
  {field : FieldDescriptor} {host copy : CelValue}

/-- Writes that tell what they write apart are alike if and only if what is written is. -/
theorem map_apply_eq_iff {α β : Type} {write : α → β → β} {m : β}
    (h : ∀ a b, write a m = write b m → a = b) {r s : Except SetFailure α} :
    (r.map write).map (· m) = (s.map write).map (· m) ↔ r = s := by
  cases r with
  | error e => cases s <;> simp [Except.map]
  | ok a =>
    cases s with
    | error e => simp [Except.map]
    | ok b => simpa [Except.map] using ⟨h a b, fun heq => heq ▸ rfl⟩

/-- **A field is written alike** if and only if its sources agree. -/
theorem dispatchFieldSet_eq_iff (h : CopiedSource host copy) (m : MessageContents Msg) :
    (dispatchFieldSet env field host).map (· m) = (dispatchFieldSet env field copy).map (· m) ↔
      field.shape.Agrees env host copy := by
  obtain ⟨name, shape⟩ := field
  cases shape with
  | singular t =>
    simp only [dispatchFieldSet, setSingularField_host h, ← setSingularField_copy_iff h]
    cases setSingularField env t copy with
    | error failure => simp [Except.map, eq_comm]
    | ok item => simp [Except.map]
  | repeated t =>
    have hwrite : ∀ added added' : List (FieldItem Msg),
        ({ m with repeated := Function.update m.repeated name (m.repeated name ++ added) } :
          MessageContents Msg)
          = { m with repeated := Function.update m.repeated name (m.repeated name ++ added') } →
        added = added' := by
      intro added added' heq
      have hname := congrFun (congrArg MessageContents.repeated heq) name
      simpa using hname
    simp only [dispatchFieldSet]
    rw [map_apply_eq_iff hwrite]
    cases h with
    | list capacity h =>
      cases t with
      | scalar t => exact iff_of_true (setRepeatedField_scalar capacity h) trivial
      | message d => exact setRepeatedField_eq_iff capacity h
    | map capacity index h => exact iff_of_true rfl (by cases t <;> trivial)
  | map key t =>
    have hwrite : ∀ added added' : List (ProtoScalar × FieldItem Msg),
        ({ m with entries := Function.update m.entries name (m.entries name ++ added) } :
          MessageContents Msg)
          = { m with entries := Function.update m.entries name (m.entries name ++ added') } →
        added = added' := by
      intro added added' heq
      have hname := congrFun (congrArg MessageContents.entries heq) name
      simpa using hname
    simp only [dispatchFieldSet]
    rw [map_apply_eq_iff hwrite]
    cases h with
    | list capacity h => exact iff_of_true rfl (by cases t <;> trivial)
    | map capacity index h =>
      cases t with
      | scalar t => exact iff_of_true (setMapField_scalar capacity index h) trivial
      | message d => exact setMapField_eq_iff capacity index h

end Outcome

/-- **Message construction does not depend on where a list or a map is kept** exactly as far as this:
a field is assigned a container behind a handle and a copy of it in the arena with the same outcome if
and only if the sources agree. -/
theorem messageField_agrees_iff (env : ProtoEnv Msg) (fields : String → Option FieldDescriptor)
    (handle : ℕ) (message : MessageContents Msg) (name : String) (field : FieldDescriptor)
    (host copy : CelValue) (hfield : fields name = some field) (hcopy : CopiedSource host copy) :
    (celSetFieldImpl (protoWriters env fields)
        { slot := .message handle, backing := some message } name host).granted
      = (celSetFieldImpl (protoWriters env fields)
        { slot := .message handle, backing := some message } name copy).granted ↔
      field.shape.Agrees env host copy := by
  have houtcome : ∀ v : CelValue, v.isPoison = false →
      (celSetFieldImpl (protoWriters env fields)
        { slot := .message handle, backing := some message } name v).granted
      = match (dispatchFieldSet env field v).map (· message) with
        | .ok written => .ok { slot := .message handle, backing := some written }
        | .error .outOfRange => .ok { slot := .error .overflow, backing := some message }
        | .error .invalid => .error .hostFailure := by
    intro v hpoison
    have hcall := @celSetFieldImpl_message _ _ (protoWriters env fields) handle message
      ⟨name, false, v⟩ v field hfield
    have hdispatch : (protoWriters env fields).dispatch field v = dispatchFieldSet env field v := rfl
    rw [hcall, hpoison, if_neg Bool.false_ne_true, hdispatch]
    cases dispatchFieldSet env field v with
    | ok write => rfl
    | error failure => cases failure <;> rfl
  have hhost : host.isPoison = false := by cases hcopy <;> rfl
  have hcell : copy.isPoison = false := by cases hcopy <;> rfl
  rw [houtcome host hhost, houtcome copy hcell, ← dispatchFieldSet_eq_iff hcopy message]
  cases (dispatchFieldSet env field host).map (· message) with
  | ok written =>
    cases (dispatchFieldSet env field copy).map (· message) with
    | ok written' => simp
    | error failure => cases failure <;> simp
  | error failure =>
    cases (dispatchFieldSet env field copy).map (· message) with
    | ok written' => cases failure <;> simp
    | error failure' => cases failure <;> cases failure' <;> simp

/-- A message with no field set. -/
def MessageContents.empty : MessageContents Msg where
  singular _ := none
  repeated _ := []
  entries _ := []

/-- A host with no message, and every prototype. -/
def ProtoEnv.empty : ProtoEnv Empty where
  message _ := none
  descriptor m := m.elim
  prototype _ := true

/-- A repeated field of timestamps. -/
def timesField : FieldDescriptor where
  name := "times"
  shape := .repeated (.message { pool := 0, fullName := "google.protobuf.Timestamp" })

/-- A field of a list of JSON values. -/
def listField : FieldDescriptor where
  name := "list"
  shape := .singular (.message { pool := 0, fullName := "google.protobuf.ListValue" })

/-- The empty message with one field assigned. -/
def assignOnly (field : FieldDescriptor) (v : CelValue) : Outcome (Construction (MessageContents Empty)) :=
  (celSetFieldImpl (protoWriters .empty fun _ => some field)
    { slot := .message 0, backing := some .empty } field.name v).granted

/-- The epoch, and null, are added to a field of times from either list. -/
theorem messageField_agrees_epoch :
    assignOnly timesField (.listHost [.timestamp (.finite 0 0), .null])
      = assignOnly timesField (.listArena 2 [.timestamp { seconds := 0, nanos := 0 }, .null]) := by
  have hepoch : Copied (.timestamp (.finite 0 0)) (.timestamp { seconds := 0, nanos := 0 }) := by
    refine .cell ?_
    rw [HostValue.encoded, decomposeAbslDuration_of_whole (.inr rfl)]
    rfl
  refine (messageField_agrees_iff .empty _ 0 .empty "times" timesField _ _ rfl
    (.list 2 (.cons hepoch (.cons (.cell rfl) .nil)))).mpr (Or.inl fun p hp => ?_)
  have hpair := (List.takeWhile_sublist _).subset hp
  simp only [List.zip_cons_cons, List.zip_nil_right, List.mem_cons, List.not_mem_nil,
    or_false] at hpair
  obtain rfl | rfl := hpair
  · rintro (harena | ⟨-, hneg, -⟩)
    · exact nomatch harena
    · exact absurd hneg (by decide)
  · exact id

/-- **A list of strings behind a handle is refused by a field that takes its copy, and half a second
before the epoch becomes two different timestamps.** -/
theorem messageField_parts :
    CopiedSource (.listHost [.string [97]]) (.listArena 1 [.string [97]]) ∧
      assignOnly listField (.listHost [.string [97]]) = .error .hostFailure ∧
      (assignOnly listField (.listArena 1 [.string [97]])).map
          (fun c => c.backing.map fun m => m.singular "list")
        = .ok (some (some (.message (.listValue [.string [97]])))) ∧
      CopiedSource (.listHost [.timestamp (.finite (-1) 2000000000)])
        (.listArena 1 [.timestamp { seconds := 0, nanos := -500000000 }]) ∧
      (assignOnly timesField (.listHost [.timestamp (.finite (-1) 2000000000)])).map
          (fun c => c.backing.map fun m => m.repeated "times")
        = .ok (some [.message (.timestamp { seconds := -1, nanos := 500000000 })]) ∧
      (assignOnly timesField (.listArena 1 [.timestamp { seconds := 0, nanos := -500000000 }])).map
          (fun c => c.backing.map fun m => m.repeated "times")
        = .ok (some [.message (.timestamp { seconds := 0, nanos := -500000000 })]) := by
  have hcell : (HostValue.timestamp (.finite (-1) 2000000000)).encoded
      = some (.timestamp { seconds := 0, nanos := -500000000 }) := by
    rw [HostValue.encoded, decomposeAbslDuration_of_fraction (by decide) (by decide)]
    rfl
  exact ⟨.list 1 (.cons (.cell rfl) .nil), rfl, rfl, .list 1 (.cons (.cell hcell) .nil), rfl, rfl⟩

end CelWasm
