import CelWasm.Eval.FieldSources
import CelWasm.Eval.ProtoRead

/-!
# Eval/IntegerFields — an integer written into a field is the integer read back

A field of 32 bits, and an open enum, is narrower than the ints and uints of CEL. The range is checked
by each writer for itself: of singular fields, of wrappers, of the elements of a repeated field, of
the keys and of the values of a map, and again for each when the list or the map is behind a handle.
Whatever is written, the field reads back the integers or the literal is an overflow.
-/

namespace CelWasm

variable {Msg : Type}

/-! ## Integers -/

/-- The integers a type holds. -/
def ScalarType.Holds : ScalarType → ℤ → Prop
  | .int32, n | .enum, n => -2 ^ 31 ≤ n ∧ n < 2 ^ 31
  | .int64, n => -2 ^ 63 ≤ n ∧ n < 2 ^ 63
  | .uint32, n => 0 ≤ n ∧ n < 2 ^ 32
  | .uint64, n => 0 ≤ n ∧ n < 2 ^ 64
  | _, _ => False

instance : ∀ (t : ScalarType) (n : ℤ), Decidable (t.Holds n)
  | .int32, n | .enum, n => inferInstanceAs (Decidable (-2 ^ 31 ≤ n ∧ n < 2 ^ 31))
  | .int64, n => inferInstanceAs (Decidable (-2 ^ 63 ≤ n ∧ n < 2 ^ 63))
  | .uint32, n => inferInstanceAs (Decidable (0 ≤ n ∧ n < 2 ^ 32))
  | .uint64, n => inferInstanceAs (Decidable (0 ≤ n ∧ n < 2 ^ 64))
  | .bool, _ | .float, _ | .double, _ | .string, _ | .bytes, _ => inferInstanceAs (Decidable False)

/-- The integer a cell is, for an integer type of its signedness. -/
def ScalarType.integer : ScalarType → CelValue → Option ℤ
  | .int32, .int i | .int64, .int i | .enum, .int i => some i.toInt
  | .uint32, .uint u | .uint64, .uint u => some u.toNat
  | _, _ => none

/-- The integer a backing's value is, for an integer type of its signedness. -/
def ScalarType.hostInteger : ScalarType → HostValue → Option ℤ
  | .int32, .int i | .int64, .int i | .enum, .int i => some i.toInt
  | .uint32, .uint u | .uint64, .uint u => some u.toNat
  | _, _ => none

/-- The integer a read comes to. -/
def HostValue.integer : HostValue → Option ℤ
  | .int i => some i.toInt
  | .uint u => some u.toNat
  | _ => none

/-- A field that is no message reads as an integer. -/
def FieldItem.integer : FieldItem Msg → Option ℤ
  | .scalar s => (readScalarField s).integer
  | .message _ => none

/-- A singular field reads as an integer, a wrapper as what is in it. -/
def FieldItem.singularInteger : FieldItem Msg → Option ℤ
  | .message (.wrapper s) => (unpackWrapperValueField s).integer
  | item => item.integer

/-! ## What is written and what is read -/

/-- The integer with the type it is written to. -/
def ScalarType.written (t : ScalarType) (c : CelValue) : List (ScalarType × ℤ) :=
  (t.integer c).toList.map (t, ·)

/-- The integer of a backing with the type it is written to. -/
def ScalarType.hostWritten (t : ScalarType) (v : HostValue) : List (ScalarType × ℤ) :=
  (t.hostInteger v).toList.map (t, ·)

/-- The integers an entry writes, its key's first; an entry that is pruned writes none. -/
def entryWritten (key : KeyType) (value : FieldType) (e : CelValue × CelValue) :
    List (ScalarType × ℤ) :=
  match value, e.2 with
  | .message _, .null => []
  | .message _, _ => key.scalar.written e.1
  | .scalar t, v => key.scalar.written e.1 ++ t.written v

/-- The integers an entry of a backing writes. -/
def hostEntryWritten (key : KeyType) (value : FieldType) (e : HostValue × HostValue) :
    List (ScalarType × ℤ) :=
  match value, e.2 with
  | .message _, .null => []
  | .message _, _ => key.scalar.hostWritten e.1
  | .scalar t, v => key.scalar.hostWritten e.1 ++ t.hostWritten v

/-- **The integers a value writes to a field**, each with the type it is written to, in order. -/
def FieldShape.written : FieldShape → CelValue → List (ScalarType × ℤ)
  | .singular (.scalar t), c => t.written c
  | .singular (.message d), c => d.wrapper.elim [] fun t => t.written c
  | .repeated (.scalar t), .listArena _ cells => cells.flatMap t.written
  | .repeated (.scalar t), .listHost elements => elements.flatMap t.hostWritten
  | .map key value, .mapArena _ entries _ => entries.flatMap (entryWritten key value)
  | .map key value, .mapHost entries => entries.flatMap (hostEntryWritten key value)
  | _, _ => []

/-- The integers an entry of a map field reads as. -/
def entryRead (e : ProtoScalar × FieldItem Msg) : List ℤ :=
  (readScalarField e.1).integer.toList ++ e.2.integer.toList

/-- **The integers a field reads back as**, in order. -/
def FieldDescriptor.read (field : FieldDescriptor) (m : MessageContents Msg) : List ℤ :=
  match field.shape with
  | .singular _ => ((m.singular field.name).bind FieldItem.singularInteger).toList
  | .repeated _ => (m.repeated field.name).flatMap fun item => item.integer.toList
  | .map _ _ => (m.entries field.name).flatMap entryRead

/-- The integers a field reads as that a write adds to. -/
def FieldDescriptor.kept (field : FieldDescriptor) (m : MessageContents Msg) : List ℤ :=
  match field.shape with
  | .singular _ => []
  | _ => field.read m

/-! ## Targets -/

/-- A cell has the kind a type is written from. -/
def ScalarType.takes (t : ScalarType) (c : CelValue) : Bool := t.misfit c != some .invalid

/-- A backing's value has the kind a type is written from. -/
def ScalarType.takesHost (t : ScalarType) (v : HostValue) : Bool := v.encoded.any t.takes

/-- A message type takes a backing's value: null, a message it can hold, or a time. -/
def Descriptor.takesHost (env : ProtoEnv Msg) (d : Descriptor) : HostValue → Bool
  | .null => true
  | .message slot => d.takes env (.message slot)
  | .duration _ => d.wkt = some .duration
  | .timestamp _ => d.wkt = some .timestamp
  | _ => false

/-- A value of a map may be written from a cell. -/
def FieldType.takes (env : ProtoEnv Msg) : FieldType → CelValue → Bool
  | .scalar t, c => t.takes c
  | .message d, c => d.takes env c

/-- A value of a map may be written from a backing's value. -/
def FieldType.takesHost (env : ProtoEnv Msg) : FieldType → HostValue → Bool
  | .scalar t, v => t.takesHost v
  | .message d, v => d.takesHost env v

/-- **A value is of the type of a field**: a scalar or a wrapper of the scalar's kind, a list of
scalars, a map of what its keys and its values are written from. A wrapper has to be one the pool can
make. -/
def FieldShape.takes (env : ProtoEnv Msg) : FieldShape → CelValue → Bool
  | .singular (.scalar t), c => t.takes c
  | .singular (.message d), c => d.wrapper.any (·.takes c) && env.prototype d
  | .repeated (.scalar t), .listArena _ cells => cells.all t.takes
  | .repeated (.scalar t), .listHost elements => elements.all t.takesHost
  | .map key value, .mapArena _ entries _ =>
    entries.all fun e => key.scalar.takes e.1 && value.takes env e.2
  | .map key value, .mapHost entries =>
    entries.all fun e => key.scalar.takesHost e.1 && value.takesHost env e.2
  | _, _ => false

/-! ## One integer -/

theorem checkInt32Range_checked (i : Int64) {make : Int32 → ProtoScalar}
    (hmake : ∀ j, readScalarField (make j) = .int j.toInt64) :
    Checked .outOfRange (-2 ^ 31 ≤ i.toInt ∧ i.toInt < 2 ^ 31)
      (fun s => (readScalarField s).integer = some i.toInt) ((checkInt32Range i).map make) where
  gives h := by
    refine ⟨make i.toInt32, by rw [checkInt32Range, if_pos h]; rfl, ?_⟩
    have hback : i.toInt32.toInt64.toInt = i.toInt := by
      rw [Int32.toInt_toInt64, Int64.toInt_toInt32]
      exact Int.bmod_eq_of_le (by omega) (by omega)
    rw [hmake, HostValue.integer, hback]
  fails h := by
    rw [checkInt32Range, if_neg h]
    rfl

theorem checkUint32Range_checked (u : UInt64) :
    Checked .outOfRange (u.toNat < 2 ^ 32)
      (fun s => (readScalarField s).integer = some (u.toNat : ℤ))
      ((checkUint32Range u).map .uint32) where
  gives h := by
    refine ⟨.uint32 u.toUInt32, by rw [checkUint32Range, if_pos h]; rfl, ?_⟩
    have hback : u.toUInt32.toUInt64.toNat = u.toNat := by
      rw [UInt32.toNat_toUInt64, UInt64.toNat_toUInt32, Nat.mod_eq_of_lt h]
    rw [readScalarField, HostValue.integer, hback]
  fails h := by
    rw [checkUint32Range, if_neg h]
    rfl

/-- **A cell written to a scalar field** reads back as the integer it is, or is out of range. -/
theorem scalarOfCell_checked {t : ScalarType} {c : CelValue} (h : t.takes c = true) :
    Checked .outOfRange (∀ p ∈ t.written c, p.1.Holds p.2)
      (fun s => (readScalarField s).integer = t.integer c) (scalarOfCell t c) := by
  have hfits : (∀ p ∈ t.written c, p.1.Holds p.2) ↔ ∀ n ∈ t.integer c, t.Holds n := by
    simp [ScalarType.written]
  rw [hfits]
  fun_cases scalarOfCell t c with
  | case2 i =>
    exact (checkInt32Range_checked i fun j => rfl).congr (by simp [ScalarType.integer, ScalarType.Holds])
  | case3 i =>
    have hlow := i.le_toInt
    have hhigh := i.toInt_lt
    refine .of_ok rfl ?_ rfl
    simp only [ScalarType.integer, ScalarType.Holds, Option.mem_some_iff, forall_eq']
    omega
  | case4 u =>
    exact (checkUint32Range_checked u).congr
      (by simp only [ScalarType.integer, ScalarType.Holds, Option.mem_some_iff, forall_eq']; omega)
  | case5 u =>
    have := u.toNat_lt
    refine .of_ok rfl ?_ rfl
    simp only [ScalarType.integer, ScalarType.Holds, Option.mem_some_iff, forall_eq']
    omega
  | case10 i =>
    exact (checkInt32Range_checked i fun j => rfl).congr (by simp [ScalarType.integer, ScalarType.Holds])
  | case11 =>
    have hmisfit : t.misfit c = some .invalid := by rw [ScalarType.misfit] <;> assumption
    exact absurd h (by simp [ScalarType.takes, hmisfit])
  | _ => exact .of_ok rfl (by simp [ScalarType.integer]) rfl

/-- The integer of a backing's value is the integer of its cell. -/
theorem ScalarType.hostInteger_eq {t : ScalarType} {v : HostValue} {c : CelValue}
    (h : v.encoded = some c) : t.hostInteger v = t.integer c := by
  cases v with
  | unknown ids => exact nomatch h
  | type name => exact nomatch h
  | _ =>
    obtain rfl := Option.some.inj h
    cases t <;> rfl

/-- **A backing's value written to a scalar field**, likewise. -/
theorem scalarOfHost_checked {t : ScalarType} {v : HostValue} (h : t.takesHost v = true) :
    Checked .outOfRange (∀ p ∈ t.hostWritten v, p.1.Holds p.2)
      (fun s => (readScalarField s).integer = t.hostInteger v) (scalarOfHost t v) := by
  rw [ScalarType.takesHost] at h
  obtain ⟨c, hc, htakes⟩ : ∃ c, v.encoded = some c ∧ t.takes c = true := by
    cases hc : v.encoded with
    | none => simp [hc] at h
    | some c => exact ⟨c, rfl, by simpa [hc] using h⟩
  rw [scalarOfHost_eq (.cell hc), ScalarType.hostWritten, ScalarType.hostInteger_eq hc]
  exact scalarOfCell_checked htakes

/-! ## Elements and entries -/

section Items

variable {env : ProtoEnv Msg} {t : ScalarType}

/-- The integers of what is written, without their types. -/
def integers (written : List (ScalarType × ℤ)) : List ℤ := written.map Prod.snd

theorem integers_written (t : ScalarType) (c : CelValue) :
    integers (t.written c) = (t.integer c).toList := by
  cases h : t.integer c <;> simp [integers, ScalarType.written, h]

theorem integers_hostWritten (t : ScalarType) (v : HostValue) :
    integers (t.hostWritten v) = (t.hostInteger v).toList := by
  cases h : t.hostInteger v <;> simp [integers, ScalarType.hostWritten, h]

theorem appendRepeatedFromCelValue_checked {c : CelValue} (h : t.takes c = true) :
    Checked .outOfRange (∀ p ∈ t.written c, p.1.Holds p.2)
      (fun y => y.toList.flatMap (fun item => item.integer.toList) = integers (t.written c))
      (appendRepeatedFromCelValue env (.scalar t) c) := by
  refine (scalarOfCell_checked h).map fun s hs => ?_
  rw [integers_written, ← hs]
  simp [FieldItem.integer]

theorem appendRepeatedFromHostListValue_checked {v : HostValue} (h : t.takesHost v = true) :
    Checked .outOfRange (∀ p ∈ t.hostWritten v, p.1.Holds p.2)
      (fun y => y.toList.flatMap (fun item => item.integer.toList) = integers (t.hostWritten v))
      (appendRepeatedFromHostListValue env (.scalar t) v) := by
  refine (scalarOfHost_checked h).map fun s hs => ?_
  rw [integers_hostWritten, ← hs]
  simp [FieldItem.integer]

/-- A value a message type takes is written, and is no integer. -/
theorem cellMessage_of_takes {d : Descriptor} {c : CelValue} (hnull : c ≠ .null)
    (h : d.takes env c = true) : ∃ m, cellMessage env d c = .ok m := by
  obtain ⟨m, hm⟩ := @cellMessage_spec Msg env d c hnull
  exact ⟨m, by rw [hm, h]; rfl⟩

theorem hostMessage_of_takes {d : Descriptor} {v : HostValue} (hnull : v ≠ .null)
    (h : d.takesHost env v = true) : ∃ m, hostMessage env d v = .ok m := by
  cases v with
  | null => exact absurd rfl hnull
  | message slot =>
    obtain ⟨m, hm⟩ := @copyMessage_spec Msg env d slot
    exact ⟨m, by rw [hostMessage_message, hm, show d.takes env (.message slot) = true from h]; rfl⟩
  | duration time =>
    have hwkt : d.wkt = some .duration := of_decide_eq_true h
    exact ⟨_, by simp only [hostMessage, maybePackWktFromHostValue, hwkt]; rfl⟩
  | timestamp time =>
    have hwkt : d.wkt = some .timestamp := of_decide_eq_true h
    exact ⟨_, by simp only [hostMessage, maybePackWktFromHostValue, hwkt]; rfl⟩
  | _ => exact nomatch h

/-- An entry of scalars reads as what is written for its key and for its value. -/
theorem entryRead_scalars {written written' : List (ScalarType × ℤ)} {k s : ProtoScalar}
    (hk : (readScalarField k).integer.toList = integers written)
    (hs : (readScalarField s).integer.toList = integers written') :
    (some (k, (.scalar s : FieldItem Msg))).toList.flatMap entryRead
      = integers (written ++ written') := by
  simp only [Option.toList_some, List.flatMap_singleton, entryRead, FieldItem.integer, hk, hs]
  exact (List.map_append ..).symm

/-- An entry with a message reads as what is written for its key. -/
theorem entryRead_message {written : List (ScalarType × ℤ)} {k : ProtoScalar} {m : ProtoMessage Msg}
    (hk : (readScalarField k).integer.toList = integers written) :
    (some (k, FieldItem.message m)).toList.flatMap entryRead = integers written := by
  simp only [Option.toList_some, List.flatMap_singleton, entryRead, FieldItem.integer, hk,
    Option.toList_none, List.append_nil]

/-- An entry of scalars: its key, then its value. -/
theorem insertArenaMapEntry_scalar {key : KeyType} {k v : CelValue} :
    insertArenaMapEntry env key (.scalar t) (k, v)
      = (scalarOfCell key.scalar k).bind fun k =>
          (scalarOfCell t v).map fun s => some (k, .scalar s) := by
  rw [insertArenaMapEntry, setScalarField]
  · cases scalarOfCell key.scalar k with
    | error e => rfl
    | ok s =>
      simp only [setArenaMapEntryValue, setScalarField]
      cases scalarOfCell t v <;> rfl
  · exact nofun

theorem insertHostMapEntry_scalar {key : KeyType} {k v : HostValue} :
    insertHostMapEntry env key (.scalar t) (k, v)
      = (scalarOfHost key.scalar k).bind fun k =>
          (scalarOfHost t v).map fun s => some (k, .scalar s) := by
  rw [insertHostMapEntry, setHostMapEntryKey]
  · cases scalarOfHost key.scalar k with
    | error e => rfl
    | ok s =>
      simp only [setHostMapEntryValue, setHostMapEntryScalar]
      cases scalarOfHost t v <;> rfl
  · exact nofun

/-- **An entry of the arena**: what is made of its key and of its value. -/
theorem insertArenaMapEntry_checked {key : KeyType} {value : FieldType} {e : CelValue × CelValue}
    (hkey : key.scalar.takes e.1 = true) (hvalue : value.takes env e.2 = true) :
    Checked .outOfRange (∀ p ∈ entryWritten key value e, p.1.Holds p.2)
      (fun y => y.toList.flatMap entryRead = integers (entryWritten key value e))
      (insertArenaMapEntry env key value e) := by
  obtain ⟨k, v⟩ := e
  have hk := scalarOfCell_checked hkey
  cases value with
  | scalar t =>
    have hwritten : entryWritten key (.scalar t) (k, v) = key.scalar.written k ++ t.written v := by
      cases v <;> rfl
    rw [insertArenaMapEntry_scalar, hwritten]
    refine (Checked.both hk (scalarOfCell_checked hvalue) fun s s' hs hs' => ?_).congr
      List.forall_mem_append.symm
    exact entryRead_scalars (by rw [hs, integers_written]) (by rw [hs', integers_written])
  | message d =>
    by_cases hnull : v = .null
    · subst hnull
      exact .of_ok rfl (fun p hp => nomatch hp) rfl
    · obtain ⟨m, hm⟩ := cellMessage_of_takes hnull hvalue
      have hwritten : entryWritten key (.message d) (k, v) = key.scalar.written k := by
        cases v with
        | null => exact absurd rfl hnull
        | _ => rfl
      rw [insertArenaMapEntry_of_ne hnull, hm, hwritten]
      refine hk.map fun s hs => ?_
      exact entryRead_message (by rw [hs, integers_written])

/-- **An entry of a backing**, likewise. -/
theorem insertHostMapEntry_checked {key : KeyType} {value : FieldType} {e : HostValue × HostValue}
    (hkey : key.scalar.takesHost e.1 = true) (hvalue : value.takesHost env e.2 = true) :
    Checked .outOfRange (∀ p ∈ hostEntryWritten key value e, p.1.Holds p.2)
      (fun y => y.toList.flatMap entryRead = integers (hostEntryWritten key value e))
      (insertHostMapEntry env key value e) := by
  obtain ⟨k, v⟩ := e
  have hk := scalarOfHost_checked hkey
  cases value with
  | scalar t =>
    have hwritten : hostEntryWritten key (.scalar t) (k, v)
        = key.scalar.hostWritten k ++ t.hostWritten v := by
      cases v <;> rfl
    rw [insertHostMapEntry_scalar, hwritten]
    refine (Checked.both hk (scalarOfHost_checked hvalue) fun s s' hs hs' => ?_).congr
      List.forall_mem_append.symm
    exact entryRead_scalars (by rw [hs, integers_hostWritten]) (by rw [hs', integers_hostWritten])
  | message d =>
    by_cases hnull : v = .null
    · subst hnull
      exact .of_ok rfl (fun p hp => nomatch hp) rfl
    · obtain ⟨m, hm⟩ := hostMessage_of_takes hnull hvalue
      have hwritten : hostEntryWritten key (.message d) (k, v) = key.scalar.hostWritten k := by
        cases v with
        | null => exact absurd rfl hnull
        | _ => rfl
      rw [insertHostMapEntry_of_ne hnull, hm, hwritten]
      refine hk.map fun s hs => ?_
      exact entryRead_message (by rw [hs, integers_hostWritten])

end Items

/-! ## Fields -/

section Fields

variable {env : ProtoEnv Msg} {field : FieldDescriptor} {value : CelValue}
  {m : MessageContents Msg}

/-- A loop over elements whose writes are checked. -/
theorem collect_checked {α γ : Type} {f : α → Except SetFailure (Option γ)}
    {written : α → List (ScalarType × ℤ)} {read : γ → List ℤ} {xs : List α}
    (h : ∀ x ∈ xs, Checked .outOfRange (∀ p ∈ written x, p.1.Holds p.2)
      (fun y => y.toList.flatMap read = integers (written x)) (f x)) :
    Checked .outOfRange (∀ p ∈ xs.flatMap written, p.1.Holds p.2)
      (fun ys => ys.flatMap read = integers (xs.flatMap written)) (collect f xs) := by
  refine ((Checked.collect h).congr ?_).imp fun ys hys => ?_
  · simp only [List.mem_flatMap]
    exact ⟨fun h p ⟨x, hx, hp⟩ => h x hx p hp, fun h x hx p hp => h p ⟨x, hx, hp⟩⟩
  · rw [hys, integers, List.map_flatMap]
    rfl

/-- A wrapper is set as the scalar in it. -/
theorem setSingularMessageField_wrapper {d : Descriptor} {t : ScalarType} (hd : d.wrapper = some t)
    (hproto : env.prototype d = true) (h : t.takes value = true) :
    setSingularMessageField env d value
      = (scalarOfCell t value).map fun s => some (.wrapper s) := by
  cases value with
  | null | message slot => cases t <;> exact nomatch h
  | _ =>
    simp only [setSingularMessageField, hd, if_pos hproto]
    rfl

/-- What a singular field is set to takes the place of what it held. -/
theorem setSingularField_checked {t : FieldType}
    (h : (FieldShape.singular t).takes env value = true) :
    Checked .outOfRange (∀ p ∈ (FieldShape.singular t).written value, p.1.Holds p.2)
      (fun item => ∃ i : FieldItem Msg, item = some i ∧ (∀ old, FieldItem.settle old i = i) ∧
        i.singularInteger.toList = integers ((FieldShape.singular t).written value))
      (setSingularField env t value) := by
  cases t with
  | scalar t =>
    refine (scalarOfCell_checked h).map fun s hs => ⟨.scalar s, rfl, fun old => ?_, ?_⟩
    · rw [FieldItem.settle] <;> nofun
    · rw [FieldItem.singularInteger, FieldItem.integer, hs]
      · exact (integers_written t value).symm
      · exact nofun
  | message d =>
    obtain ⟨hwrapper, hproto⟩ := (Bool.and_eq_true ..).mp h
    cases hd : d.wrapper with
    | none => simp [hd] at hwrapper
    | some t =>
      have htakes : t.takes value = true := by simpa [hd] using hwrapper
      have hwritten : (FieldShape.singular (.message d)).written value = t.written value := by
        rw [FieldShape.written, hd]
        rfl
      rw [setSingularField, setSingularMessageField_wrapper hd hproto htakes, hwritten]
      have hmade : Checked .outOfRange (∀ p ∈ t.written value, p.1.Holds p.2)
          (fun m : Option (ProtoMessage Msg) => ∃ s, m = some (.wrapper s) ∧
            (readScalarField s).integer = t.integer value)
          ((scalarOfCell t value).map fun s => some (.wrapper s)) :=
        (scalarOfCell_checked htakes).map fun s hs => ⟨s, rfl, hs⟩
      refine hmade.map fun item ⟨s, hitem, hs⟩ => ?_
      subst hitem
      refine ⟨.message (.wrapper s), rfl, fun old => ?_, ?_⟩
      · rw [FieldItem.settle] <;> nofun
      · rw [integers_written, ← hs]
        rfl

/-- **A field is set to the integers written, or out of range.** -/
theorem dispatchFieldSet_checked (h : field.shape.takes env value = true) :
    Checked .outOfRange (∀ p ∈ field.shape.written value, p.1.Holds p.2)
      (fun write => field.read (write m) = field.kept m ++ integers (field.shape.written value))
      (dispatchFieldSet env field value) := by
  obtain ⟨name, shape⟩ := field
  dsimp only at h ⊢
  rw [dispatchFieldSet]
  cases shape with
  | singular t =>
    refine (setSingularField_checked h).map fun item hchecked => ?_
    obtain ⟨i, rfl, hsettle, hread⟩ := hchecked
    simp only [FieldDescriptor.read, FieldDescriptor.kept, Function.update_self, Option.map_some,
      hsettle, Option.bind_some, hread, List.nil_append]
  | repeated t =>
    cases t with
    | message d => cases h
    | scalar t =>
      cases value with
      | listArena capacity cells =>
        have helements := collect_checked fun c hc =>
          @appendRepeatedFromCelValue_checked Msg env t c (List.all_eq_true.mp h c hc)
        refine helements.map fun added hadded => ?_
        simp only [FieldDescriptor.read, FieldDescriptor.kept, Function.update_self,
          List.flatMap_append, hadded]
        rfl
      | listHost elements =>
        have helements := collect_checked fun v hv =>
          @appendRepeatedFromHostListValue_checked Msg env t v (List.all_eq_true.mp h v hv)
        refine helements.map fun added hadded => ?_
        simp only [FieldDescriptor.read, FieldDescriptor.kept, Function.update_self,
          List.flatMap_append, hadded]
        rfl
      | _ => cases h
  | map key t =>
    cases value with
    | mapArena capacity entries index =>
      have hentries := collect_checked fun e he =>
        have htakes := (Bool.and_eq_true ..).mp (List.all_eq_true.mp h e he)
        @insertArenaMapEntry_checked Msg env key t e htakes.1 htakes.2
      refine hentries.map fun added hadded => ?_
      simp only [FieldDescriptor.read, FieldDescriptor.kept, Function.update_self,
        List.flatMap_append, hadded]
      rfl
    | mapHost entries =>
      have hentries := collect_checked fun e he =>
        have htakes := (Bool.and_eq_true ..).mp (List.all_eq_true.mp h e he)
        @insertHostMapEntry_checked Msg env key t e htakes.1 htakes.2
      refine hentries.map fun added hadded => ?_
      simp only [FieldDescriptor.read, FieldDescriptor.kept, Function.update_self,
        List.flatMap_append, hadded]
      rfl
    | _ => cases t <;> cases h

/-- What a field takes is no poison. -/
theorem FieldShape.isPoison_of_takes {shape : FieldShape} (h : shape.takes env value = true) :
    value.isPoison = false := by
  cases value with
  | error e | unknown ids =>
    cases shape with
    | singular t =>
      cases t with
      | scalar t => cases t <;> exact nomatch h
      | message d =>
        obtain ⟨hwrapper, -⟩ := (Bool.and_eq_true ..).mp h
        cases hd : d.wrapper with
        | none => simp [hd] at hwrapper
        | some t =>
          rw [hd] at hwrapper
          cases t <;> exact nomatch hwrapper
    | repeated t | map key t => cases t <;> exact nomatch h
  | _ => rfl

/-- **A field of a literal never truncates.** Whatever the integer target and wherever the list or the
map is, the literal holds a message whose field reads back the integers written, after what was there
for a list or a map; or one of them is outside the range of its type, and the literal is an
overflow, through which no message is seen. -/
theorem integerField_exact_or_overflow {fields : String → Option FieldDescriptor} {name : String}
    {handle : ℕ} (hname : fields name = some field) (h : field.shape.takes env value = true) :
    let c := (celSetFieldImpl (protoWriters env fields)
      { slot := .message handle, backing := some m } name value).granted
    ((∀ p ∈ field.shape.written value, p.1.Holds p.2) →
      ∃ after, c = .ok { slot := .message handle, backing := some after } ∧
        field.read after = field.kept m ++ integers (field.shape.written value)) ∧
    ((∃ p ∈ field.shape.written value, ¬p.1.Holds p.2) →
      c = .ok { slot := .error .overflow, backing := some m }) := by
  have hset := @celSetFieldImpl_message _ _ (protoWriters env fields) handle m
    { name, optional := false, value } value field hname
  have hpoison := FieldShape.isPoison_of_takes h
  have hdispatch := @dispatchFieldSet_checked Msg env field value m h
  rw [hpoison] at hset
  intro c
  refine ⟨fun hfits => ?_, fun hmisfit => ?_⟩
  · obtain ⟨write, hwrite, hread⟩ := hdispatch.gives hfits
    refine ⟨write m, hset.trans ?_, hread⟩
    simp only [protoWriters, hwrite]
    rfl
  · have hfails := hdispatch.fails (by push Not; exact hmisfit)
    refine hset.trans ?_
    simp only [protoWriters, hfails]
    rfl

/-- A map of 32-bit keys and values, behind a handle. -/
theorem integerField_exact_or_overflow_map :
    let env : ProtoEnv Unit := ⟨fun _ => none, fun _ => ⟨0, "M"⟩, fun _ => true⟩
    let field : FieldDescriptor := ⟨"counts", .map .int32 (.scalar .uint32)⟩
    let empty : MessageContents Unit := ⟨fun _ => none, fun _ => [], fun _ => []⟩
    (∃ after, (celSetFieldImpl (protoWriters env fun _ => some field)
        { slot := .message 1, backing := some empty } "counts"
        (.mapHost [(.int (-1), .uint 4294967295)])).granted
          = .ok { slot := .message 1, backing := some after } ∧
        field.read after = [-1, 4294967295]) ∧
      (celSetFieldImpl (protoWriters env fun _ => some field)
        { slot := .message 1, backing := some empty } "counts"
        (.mapHost [(.int 2147483648, .uint 0)])).granted
          = .ok { slot := .error .overflow, backing := some empty } := by
  refine ⟨(integerField_exact_or_overflow rfl rfl).1 ?_, (integerField_exact_or_overflow rfl rfl).2 ?_⟩
  · decide
  · decide

end Fields

end CelWasm
