import CelWasm.Runtime.SlotContainers

/-!
# Runtime/Optionals — what the kernels of optionals compute

Optional selection looks a key up as indexing does and sorts what it finds: an error that stands for
absence is no value, another poison goes on, and the rest is a value. `or` and `orValue` take the first
value there is, however they are bracketed.
-/

namespace CelWasm

open CellProg

/-! ## `or` and `orValue` -/

/-- What `or` computes: the first optional, unless it holds nothing. -/
def optionalOr : CelValue → CelValue → CelValue
  | .error e, _ => .error e
  | .unknown ids, _ => .unknown ids
  | .optional (some v), _ => .optional (some v)
  | .optional none, .error e => .error e
  | .optional none, .unknown ids => .unknown ids
  | .optional none, .optional held => .optional held
  | _, _ => .error .typeMismatch

/-- What `orValue` computes: what the optional holds, or the default. -/
def optionalOrValue : CelValue → CelValue → CelValue
  | .error e, _ => .error e
  | .unknown ids, _ => .unknown ids
  | .optional held, dflt => held.getD dflt
  | _, _ => .error .typeMismatch

section Or

variable (a b : Slot)

theorem computes_celOptionalOrAt :
    Computes (celOptionalOrAt · a b) fun cells => pure (optionalOr (cells a) (cells b)) := by
  refine .congr (.unless (settles_absorb3vlUnaryAt a) <| .read (reads_loadKind a) fun _ =>
    .ite (computes_store _) <| .read (reads_payload _ a) fun _ => .ite (computes_copyAt a) <|
      .unless (settles_absorb3vlUnaryAt b) <| .read (reads_loadKind b) fun _ =>
        .ite (computes_store _) (computes_copyAt b)) fun cells => ?_
  cases ha : cells a with
  | optional held =>
    cases held with
    | none => cases hb : cells b <;> rfl
    | some v => rfl
  | _ => rfl

theorem computes_celOptionalOrValueAt :
    Computes (celOptionalOrValueAt · a b) fun cells =>
      pure (optionalOrValue (cells a) (cells b)) := by
  refine .congr (.unless (settles_absorb3vlUnaryAt a) <| .read (reads_loadKind a) fun _ =>
    .ite (computes_store _) <| .read (reads_payload _ a) fun _ =>
      .ite (computes_store _) (computes_copyAt b)) fun cells => ?_
  cases ha : cells a with
  | optional held => cases held <;> rfl
  | _ => rfl

end Or

/-- A chain of optionals joined by `or`, bracketed in any way. -/
inductive OrChain
  | opt (held : Option CelValue)
  | or (left right : OrChain)

/-- What a chain evaluates to. -/
def OrChain.value : OrChain → CelValue
  | opt held => .optional held
  | or left right => optionalOr left.value right.value

/-- The optionals of a chain, from the left. -/
def OrChain.optionals : OrChain → List (Option CelValue)
  | opt held => [held]
  | or left right => left.optionals ++ right.optionals

/-- **A chain is its first value**, whatever its brackets. -/
theorem OrChain.value_eq (c : OrChain) : c.value = .optional (c.optionals.findSome? id) := by
  induction c with
  | opt held => cases held <;> rfl
  | or left right ihl ihr =>
    rw [value, optionals, ihl, ihr, List.findSome?_append]
    cases left.optionals.findSome? id <;> rfl

/-! ## Optional selection -/

/-- What a lookup in a container that is no optional finds; none where there is no such lookup. -/
def dispatchLookup (src key : CelValue) : Kernel (Option CelValue) :=
  match src with
  | .mapArena .. => do return some (← celMapLookupArena src key)
  | .listArena .. => do return some (← celListAtArena src key)
  | .mapHost _ | .listHost _ | .message _ => Prog.stop .trap
  | _ => return none

/-- The lookup, and its result. -/
def selectFrom (src key : CelValue) : Kernel CelValue := do
  return (← dispatchLookup src key).elim (.error .typeMismatch) finalizedLookup

/-- What optional selection computes of operands without poison. -/
def selectOptional : CelValue → CelValue → Kernel CelValue
  | .optional none, _ => return .optional none
  | .optional (some held), key => selectFrom held key
  | src, key => selectFrom src key

/-- **What optional selection computes**: poison is absorbed, and the cell of the result is asked for
first. -/
def celSelectOptionalField (src key : CelValue) : Kernel CelValue :=
  unlessAbsorbed src key do
    if ← Prog.alloc 32 then selectOptional src key else return .error .overflow

theorem reads_dispatchLookup (src : CelValue) (key : Slot) :
    Reads (dispatchLookupAt src key) fun cells => dispatchLookup src (cells key) := by
  cases src with
  | mapArena | listArena =>
    refine .congr (.bind (reads_load key) fun _ => .bind (reads_lift _) fun _ => reads_pure _) ?_
    exact fun cells => pure_bind _ _
  | mapHost | listHost | message => exact reads_lift _
  | _ => exact reads_pure none

theorem computes_selectFromAt (src : CelValue) (key : Slot) :
    Computes (selectFromAt · src key) fun cells => selectFrom src (cells key) := by
  refine .congr (.read (reads_dispatchLookup src key) fun _ =>
    .ite (computes_store _) (computes_store _)) fun cells => ?_
  exact bind_congr fun found => by cases found <;> rfl

theorem computes_celSelectOptionalFieldAt (src key : Slot) :
    Computes (celSelectOptionalFieldAt · src key) fun cells =>
      celSelectOptionalField (cells src) (cells key) := by
  refine .congr (computes_unlessAbsorbed src key <| .read (reads_lift _) fun _ =>
    .ite (.read (reads_loadKind src) fun _ => .ite
      (.read (reads_payload _ src) fun held => .ite (computes_store _)
        (computes_selectFromAt (held.getD .null) key))
      (.read (reads_load src) fun v => computes_selectFromAt v key))
      (computes_store _)) fun cells => ?_
  refine congrArg (unlessAbsorbed (cells src) (cells key)) (bind_congr fun granted => ?_)
  cases granted with
  | false => rfl
  | true =>
    cases hsrc : cells src with
    | optional held => cases held <;> rfl
    | _ => rfl

/-! ## Selection and lookup -/

/-- Plain lookup in an arena container. -/
def plainLookup (src key : CelValue) : Kernel CelValue :=
  match src with
  | .mapArena .. => celMapLookupArena src key
  | _ => celListAtArena src key

/-- A map or a list in the arena. -/
def isArenaContainer : CelValue → Bool
  | .mapArena .. | .listArena .. => true
  | _ => false

/-- The errors that stand for absence. -/
def AbsentError (v : CelValue) : Prop :=
  v = .error .noSuchKey ∨ v = .error .indexOutOfBounds ∨ v = .error .fieldNotFound

/-- **Optional selection sorts what a lookup comes to**: a value is held, an error that stands for
absence is none, another poison goes on, and a stop is the same stop. -/
structure SortsLookup (plain selected : Except Stop CelValue) : Prop where
  held : ∀ v, selected = .ok (.optional (some v)) ↔ plain = .ok v ∧ v.isPoison = false
  absent : selected = .ok (.optional none) ↔ ∃ v, plain = .ok v ∧ AbsentError v
  poison : ∀ v, v.isPoison = true → (selected = .ok v ↔ plain = .ok v ∧ ¬AbsentError v)
  stops : ∀ e, selected = .error e ↔ plain = .error e

theorem isAbsentError_iff {v : CelValue} : isAbsentError v = true ↔ AbsentError v := by
  cases v with
  | error e => cases e <;> simp [isAbsentError, AbsentError]
  | _ => simp [isAbsentError, AbsentError]

theorem AbsentError.isPoison {v : CelValue} (h : AbsentError v) : v.isPoison = true := by
  rcases h with rfl | rfl | rfl <;> rfl

theorem finalizedLookup_of_absent {v : CelValue} (h : AbsentError v) :
    finalizedLookup v = .optional none := if_pos (isAbsentError_iff.mpr h)

theorem finalizedLookup_of_poison {v : CelValue} (h : v.isPoison = true) (habsent : ¬AbsentError v) :
    finalizedLookup v = v := by
  rw [finalizedLookup, if_neg (mt isAbsentError_iff.mp habsent), if_pos h]

theorem finalizedLookup_of_not_poison {v : CelValue} (h : v.isPoison = false) :
    finalizedLookup v = .optional (some v) := by
  have habsent : ¬AbsentError v := fun hv => by simp [hv.isPoison] at h
  rw [finalizedLookup, if_neg (mt isAbsentError_iff.mp habsent), if_neg (by simp [h])]

/-- What a lookup comes to, sorted. -/
theorem sortsLookup_map (plain : Except Stop CelValue) :
    SortsLookup plain (plain.map finalizedLookup) := by
  cases plain with
  | error e => refine ⟨?_, ?_, ?_, ?_⟩ <;> simp [Except.map]
  | ok v =>
    have hmap : (Except.ok v : Except Stop CelValue).map finalizedLookup = .ok (finalizedLookup v) :=
      rfl
    rw [hmap]
    by_cases habsent : AbsentError v
    · rw [finalizedLookup_of_absent habsent]
      have hpoison := habsent.isPoison
      refine ⟨fun w => ?_, ?_, fun w hw => ?_, fun e => ?_⟩
      · refine iff_of_false (by simp) ?_
        rintro ⟨⟨⟩, hw⟩
        simp [hpoison] at hw
      · exact iff_of_true rfl ⟨v, rfl, habsent⟩
      · refine iff_of_false ?_ ?_
        · rintro ⟨⟩
          exact nomatch hw
        · rintro ⟨⟨⟩, hnot⟩
          exact hnot habsent
      · simp
    by_cases hpoison : v.isPoison = true
    · rw [finalizedLookup_of_poison hpoison habsent]
      refine ⟨fun w => ?_, ?_, fun w _ => ?_, fun e => Iff.rfl⟩
      · refine iff_of_false ?_ ?_
        · rintro ⟨⟩
          exact nomatch hpoison
        · rintro ⟨⟨⟩, hw⟩
          simp [hpoison] at hw
      · refine iff_of_false ?_ ?_
        · rintro ⟨⟩
          exact nomatch hpoison
        · rintro ⟨w, ⟨⟩, hw⟩
          exact habsent hw
      · refine ⟨fun h => ⟨h, ?_⟩, And.left⟩
        obtain rfl : v = w := Except.ok.inj h
        exact habsent
    · have hlive : v.isPoison = false := Bool.eq_false_iff.mpr hpoison
      rw [finalizedLookup_of_not_poison hlive]
      refine ⟨fun w => ?_, ?_, fun w hw => ?_, fun e => ?_⟩
      · constructor
        · rintro ⟨⟩
          exact ⟨rfl, hlive⟩
        · rintro ⟨⟨⟩, -⟩
          rfl
      · refine iff_of_false (by simp) ?_
        rintro ⟨w, ⟨⟩, hw⟩
        exact habsent hw
      · refine iff_of_false ?_ ?_
        · rintro ⟨⟩
          exact nomatch hw
        · rintro ⟨⟨⟩, -⟩
          exact hpoison hw
      · simp

theorem granted_selectFrom {src key : CelValue} (h : isArenaContainer src = true) :
    (selectFrom src key).granted = (plainLookup src key).granted.map finalizedLookup := by
  cases src with
  | mapArena capacity entries index =>
    simp only [selectFrom, dispatchLookup, plainLookup, Prog.granted_bind]
    cases (celMapLookupArena (.mapArena capacity entries index) key).granted <;> rfl
  | listArena capacity elements =>
    simp only [selectFrom, dispatchLookup, plainLookup, Prog.granted_bind]
    cases (celListAtArena (.listArena capacity elements) key).granted <;> rfl
  | _ => exact nomatch h

section Select

variable {src key : CelValue}

theorem granted_celSelectOptionalField (hsrc : src.isPoison = false) (hkey : key.isPoison = false) :
    (celSelectOptionalField src key).granted = (selectOptional src key).granted := by
  rw [celSelectOptionalField, unlessAbsorbed_of_not_poison hsrc hkey]
  rfl

/-- **Selection in an arena container sorts the lookup there.** -/
theorem sortsLookup_celSelectOptionalField (h : isArenaContainer src = true)
    (hkey : key.isPoison = false) :
    SortsLookup (plainLookup src key).granted (celSelectOptionalField src key).granted := by
  have hselect : (celSelectOptionalField src key).granted
      = (plainLookup src key).granted.map finalizedLookup := by
    cases src with
    | mapArena | listArena =>
      rw [granted_celSelectOptionalField rfl hkey]
      exact granted_selectFrom rfl
    | _ => exact nomatch h
  rw [hselect]
  exact sortsLookup_map _

theorem selectOptional_of_ne {v : CelValue} (h : v.kind ≠ .optional) :
    selectOptional v key = selectFrom v key := by
  cases v with
  | optional held => exact absurd rfl h
  | _ => rfl

/-- **Selection through an optional is bound**: what the optional holds is selected from, unless it is
poison or an optional itself. -/
theorem granted_celSelectOptionalField_optional {held : Option CelValue}
    (hkey : key.isPoison = false) :
    (celSelectOptionalField (.optional held) key).granted
      = held.elim (.ok (.optional none)) fun v =>
          if v.isPoison = true ∨ v.kind = .optional then .ok (.error .typeMismatch)
          else (celSelectOptionalField v key).granted := by
  rw [granted_celSelectOptionalField rfl hkey]
  cases held with
  | none => rfl
  | some v =>
    rw [Option.elim_some]
    split_ifs with hodd
    · cases v with
      | error | unknown | optional => rfl
      | _ => rcases hodd with h | h <;> exact nomatch h
    · obtain ⟨hpoison, hkind⟩ := not_or.mp hodd
      rw [granted_celSelectOptionalField (Bool.eq_false_iff.mpr hpoison) hkey,
        selectOptional_of_ne hkind]
      rfl

/-- A container that holds no poison. -/
def CelValue.HoldsNoPoison : CelValue → Prop
  | .mapArena _ entries _ => ∀ e ∈ entries, e.2.isPoison = false
  | .listArena _ elements => ∀ v ∈ elements, v.isPoison = false
  | _ => True

theorem decodeListIndex_ne_fieldNotFound {index : CelValue} :
    decodeListIndex index ≠ .error .fieldNotFound := by
  fun_cases decodeListIndex index <;> exact nofun

/-- A value without poison is not an error that a lookup came to. -/
theorem ok_ne_fieldNotFound {v : CelValue} (h : v.isPoison = false) :
    (Except.ok v : Except Stop CelValue) ≠ .ok (.error .fieldNotFound) := by
  rintro ⟨⟩
  exact nomatch h

theorem celListAtArena_ne_fieldNotFound {capacity : ℕ} {elements : List CelValue}
    (hclean : ∀ v ∈ elements, v.isPoison = false) (hkey : key.isPoison = false) :
    (celListAtArena (.listArena capacity elements) key).granted ≠ .ok (.error .fieldNotFound) := by
  rw [celListAtArena, if_neg (by simp [hkey]), if_neg (by rintro ⟨⟩)]
  cases hdecode : decodeListIndex key with
  | error e =>
    rintro ⟨⟩
    exact decodeListIndex_ne_fieldNotFound hdecode
  | ok i =>
    simp only [Prog.granted_ite]
    split_ifs
    · rintro ⟨⟩
    · cases hat : elements[i.toInt.toNat]? with
      | none => rintro ⟨⟩
      | some v => exact ok_ne_fieldNotFound (hclean v (List.mem_of_getElem? hat))

theorem celMapLookupArena_ne_fieldNotFound {capacity : ℕ} {entries : List (CelValue × CelValue)}
    {index : Option MapIndex} (hclean : ∀ e ∈ entries, e.2.isPoison = false)
    (hkey : key.isPoison = false) :
    (celMapLookupArena (.mapArena capacity entries index) key).granted
      ≠ .ok (.error .fieldNotFound) := by
  rw [celMapLookupArena, if_neg (by simp [hkey]), if_neg (by rintro ⟨⟩)]
  simp only [Prog.granted_bind]
  cases (arenaMapFind entries index key).granted with
  | error e => rintro ⟨⟩
  | ok found =>
    cases found with
    | none => rintro ⟨⟩
    | some i =>
      change (arenaMapEntryVal entries i).granted ≠ _
      rw [arenaMapEntryVal]
      cases hat : entries[i]? with
      | none => rintro ⟨⟩
      | some e => exact ok_ne_fieldNotFound (hclean e (List.mem_of_getElem? hat))

/-- In such a container a lookup does not come to the third of the errors. -/
theorem plainLookup_ne_fieldNotFound (h : isArenaContainer src = true) (hclean : src.HoldsNoPoison)
    (hkey : key.isPoison = false) : (plainLookup src key).granted ≠ .ok (.error .fieldNotFound) := by
  cases src with
  | mapArena capacity entries index => exact celMapLookupArena_ne_fieldNotFound hclean hkey
  | listArena capacity elements => exact celListAtArena_ne_fieldNotFound hclean hkey
  | _ => exact nomatch h

/-- A poisoned key goes on as it does through plain lookup. -/
theorem celSelectOptionalField_of_poison (hsrc : src.isPoison = false) (hkey : key.isPoison = true) :
    celSelectOptionalField src key = return key :=
  unlessAbsorbed_of_poison_right hsrc hkey _

end Select

/-- **Optional selection and `or`.** In an arena container selection sorts what the lookup comes to, and
the error of a missing field stands for absence as the other two do, though no lookup among values comes
to it; a poisoned key goes on; through an optional selection is bound. A chain of `or` is its first
value, with nothing as the unit, and `orValue` is that value or the default. -/
theorem optionalSelection_sorts_lookup :
    (∀ (src key out : Slot) (cells : Slot → CelValue),
      result (celSelectOptionalFieldAt · src key) out cells
        = celSelectOptionalField (cells src) (cells key)) ∧
    (∀ src key : CelValue, isArenaContainer src = true → key.isPoison = false →
      SortsLookup (plainLookup src key).granted (celSelectOptionalField src key).granted ∧
        (src.HoldsNoPoison → (plainLookup src key).granted ≠ .ok (.error .fieldNotFound))) ∧
    (∀ src key : CelValue, src.isPoison = false → key.isPoison = true →
      celSelectOptionalField src key = return key) ∧
    (∀ (held : Option CelValue) (key : CelValue), key.isPoison = false →
      (celSelectOptionalField (.optional held) key).granted
        = held.elim (.ok (.optional none)) fun v =>
            if v.isPoison = true ∨ v.kind = .optional then .ok (.error .typeMismatch)
            else (celSelectOptionalField v key).granted) ∧
    (∀ (a b out : Slot) (cells : Slot → CelValue),
      result (celOptionalOrAt · a b) out cells = pure (optionalOr (cells a) (cells b))) ∧
    (∀ c : OrChain, c.value = .optional (c.optionals.findSome? id)) ∧
    ∀ (a dflt out : Slot) (cells : Slot → CelValue) (c : OrChain), cells a = c.value →
      result (celOptionalOrValueAt · a dflt) out cells
        = pure ((c.optionals.findSome? id).getD (cells dflt)) := by
  refine ⟨fun src key out cells => (computes_celSelectOptionalFieldAt src key).result_eq out cells,
    fun src key hsrc hkey => ⟨sortsLookup_celSelectOptionalField hsrc hkey, fun hclean =>
      plainLookup_ne_fieldNotFound hsrc hclean hkey⟩,
    fun src key hsrc hkey => celSelectOptionalField_of_poison hsrc hkey,
    fun held key hkey => granted_celSelectOptionalField_optional hkey,
    fun a b out cells => (computes_celOptionalOrAt a b).result_eq out cells,
    OrChain.value_eq, fun a dflt out cells c hc => ?_⟩
  rw [(computes_celOptionalOrValueAt a dflt).result_eq out cells, hc, c.value_eq]
  rfl

/-- A map of two entries. -/
def oneAndK : CelValue := .mapArena 2 [(.int 1, .bool true), (.string [0x6b], .int 2)] none

/-- A chain of three optionals, the first of them none. -/
def orOfThree : OrChain := .or (.opt none) (.or (.opt (some (.int 2))) (.opt (some (.int 3))))

/-- A key of the map, another, one of poison, and a key through an optional of the map; and the value
of the chain. -/
theorem optionalSelection_sorts_map :
    (celSelectOptionalField oneAndK (.int 1)).granted = .ok (.optional (some (.bool true))) ∧
    (celSelectOptionalField oneAndK (.int 7)).granted = .ok (.optional none) ∧
    celSelectOptionalField oneAndK (.error .overflow) = pure (.error .overflow) ∧
    (celSelectOptionalField (.optional (some oneAndK)) (.string [0x6b])).granted
      = .ok (.optional (some (.int 2))) ∧
    result (celOptionalOrValueAt · 0 1) 2
      (fun s => if s = 0 then orOfThree.value else .int 9) = pure (.int 2) := by
  obtain ⟨-, hsorts, hpoison, hbind, -, -, hvalue⟩ := optionalSelection_sorts_lookup
  have hkey : (celSelectOptionalField oneAndK (.string [0x6b])).granted
      = .ok (.optional (some (.int 2))) :=
    ((hsorts oneAndK (.string [0x6b]) rfl rfl).1.held _).mpr ⟨rfl, rfl⟩
  refine ⟨((hsorts oneAndK (.int 1) rfl rfl).1.held _).mpr ⟨rfl, rfl⟩,
    (hsorts oneAndK (.int 7) rfl rfl).1.absent.mpr ⟨_, rfl, .inl rfl⟩,
    hpoison oneAndK (.error .overflow) rfl rfl, ?_, hvalue 0 1 2 _ orOfThree rfl⟩
  exact (hbind (some oneAndK) (.string [0x6b]) rfl).trans hkey

/-- A list that was joined from a list of the host holds the error of a message with a type that is
not known: indexing gives the error, and optional indexing nothing. -/
theorem celSelectOptionalField_fieldNotFound :
    ¬∀ src key : CelValue, isArenaContainer src = true →
      ((celSelectOptionalField src key).granted = .ok (.optional none) ↔
        (plainLookup src key).granted = .ok (.error .noSuchKey) ∨
          (plainLookup src key).granted = .ok (.error .indexOutOfBounds)) := by
  intro h
  rcases (h (.listArena 1 [.error .fieldNotFound]) (.int 0) rfl).mp rfl with hplain | hplain
  · exact nomatch hplain
  · exact nomatch hplain

end CelWasm
