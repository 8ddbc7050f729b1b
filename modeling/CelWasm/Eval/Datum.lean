import CelWasm.Eval.HostEquality
import CelWasm.Library.KeyedTree

/-!
# Eval/Datum — the value a cell denotes, wherever it is stored

A list or a map is the same value in the arena and behind a handle. `CelValue.datum` forgets where a
container is stored, its capacity and its index: what is left is a tree of scalars, lists and maps
keyed by what their keys stand for. Equality ought to depend on the trees alone.
-/

namespace CelWasm

/-! ## Plain values -/

/-- What a key of a backing stands for, once it is written. -/
def hostKeyClass (key : HostValue) : Option KeyClass := key.encoded.bind keyClass

/-- **A backing's value built from scalars, lists and maps**, the keys of a map legal and distinct. -/
def HostValue.Plain : HostValue → Prop
  | .list elements => ∀ v ∈ elements, v.Plain
  | .map entries => (∀ e ∈ entries, e.1.isValidMapKeyKind = true ∧ e.2.Plain) ∧
      (entries.map fun e => hostKeyClass e.1).Nodup
  | .unknown _ | .type _ | .message _ | .error _ => False
  | _ => True
termination_by v => sizeOf v
decreasing_by
  all_goals
    rename_i h
    have := List.sizeOf_lt_of_mem h
    first | (obtain ⟨key, value⟩ := e; simp at *; omega) | (simp; omega)

/-- **A cell built from scalars, lists and maps**, each of them in the arena or behind a handle; the
keys of a map are legal and distinct, and its index, if it has one, is the index of its keys. -/
def CelValue.Plain : CelValue → Prop
  | .listArena _ elements => ∀ v ∈ elements, v.Plain
  | .mapArena _ entries index => (∀ e ∈ entries, isValidMapKeyKind e.1 = true ∧ e.2.Plain) ∧
      (entries.map fun e => keyClass e.1).Nodup ∧ IndexedBy (entries.map Prod.fst) index
  | .listHost elements => (HostValue.list elements).Plain
  | .mapHost entries => (HostValue.map entries).Plain
  | .message _ | .optional _ | .unknown _ | .error _ => False
  | _ => True
termination_by v => sizeOf v
decreasing_by
  all_goals
    rename_i h
    have := List.sizeOf_lt_of_mem h
    first | (obtain ⟨key, value⟩ := e; simp at *; omega) | (simp; omega)

/-- Scalars, the kinds that hold no cell. -/
def isScalar : CelValue → Bool
  | .type _ => true
  | v => isScalarEqKind v

/-! ## The value denoted -/

/-- A value apart from where it is stored. -/
abbrev Datum := KeyedTree CelValue (Option KeyClass)

/-- What a backing's value denotes. -/
def HostValue.datum : HostValue → Datum
  | .list elements => .list (elements.map fun v => v.datum)
  | .map entries => .map (entries.map fun e => (hostKeyClass e.1, e.2.datum))
  | v => .scalar (v.encoded.getD .null)
termination_by v => sizeOf v
decreasing_by
  all_goals
    rename_i h
    have := List.sizeOf_lt_of_mem h
    first | (obtain ⟨key, value⟩ := e; simp at *; omega) | (simp; omega)

/-- What a cell denotes. -/
def CelValue.datum : CelValue → Datum
  | .listArena _ elements => .list (elements.map fun v => v.datum)
  | .mapArena _ entries _ => .map (entries.map fun e => (keyClass e.1, e.2.datum))
  | .listHost elements => (HostValue.list elements).datum
  | .mapHost entries => (HostValue.map entries).datum
  | v => .scalar v
termination_by v => sizeOf v
decreasing_by
  all_goals
    rename_i h
    have := List.sizeOf_lt_of_mem h
    first | (obtain ⟨key, value⟩ := e; simp at *; omega) | (simp; omega)

/-- What a list operand's element denotes. -/
def Element.datum : Element → Datum
  | cell v => v.datum
  | backing v => v.datum

/-- What an entry denotes. -/
def entryDatum (e : CelValue × CelValue) : Option KeyClass × Datum := (keyClass e.1, e.2.datum)

/-- What an entry of a backing denotes. -/
def hostEntryDatum (e : HostValue × HostValue) : Option KeyClass × Datum :=
  (hostKeyClass e.1, e.2.datum)

/-- The equality of scalars. -/
def scalarEqual (a b : CelValue) : Bool :=
  if isNumericKind a && isNumericKind b then numericCompareKernel a b == .equal
  else (equalSameKind a b).getD false

/-- Two scalars are equal. -/
def ScalarsEqual (s t : CelValue) : Prop := scalarEqual s t = true

/-- **Two data are equal**: scalars by value, lists in order, maps as sets of entries. -/
def Datum.Equal (a b : Datum) : Prop := a.Matches ScalarsEqual b

/-! ## Scalars -/

theorem cmpDouble_eq_equal {a b : Binary64} : cmpDouble a b = .equal ↔ a.eq b = true := by
  rw [Binary64.eq_iff, cmpDouble]
  cases ha : a.isNaN with
  | true => simp
  | false =>
    cases hb : b.isNaN with
    | true => simp
    | false =>
      have hlt : a.lt b = true ↔ a.scaled < b.scaled := by simp [Binary64.lt_iff, ha, hb]
      have hgt : b.lt a = true ↔ b.scaled < a.scaled := by simp [Binary64.lt_iff, ha, hb]
      simp only [Bool.or_self, Bool.false_eq_true, if_false, hlt, hgt, true_and]
      split_ifs <;> simp <;> omega

/-- The ladder's equality does not depend on the order of the two. -/
theorem numericCompareKernel_comm {a b : CelValue} (h : numericCompareKernel a b = .equal) :
    numericCompareKernel b a = .equal := by
  cases a with
  | int x =>
    cases b with
    | int y => exact cmpI64_eq_equal.mpr (cmpI64_eq_equal.mp h).symm
    | uint y => exact cmpFlip_eq_equal.mpr h
    | double y => exact cmpFlip_eq_equal.mpr h
    | _ => exact nomatch h
  | uint x =>
    cases b with
    | int y => exact cmpFlip_eq_equal.mp h
    | uint y => exact cmpU64_eq_equal.mpr (cmpU64_eq_equal.mp h).symm
    | double y => exact cmpFlip_eq_equal.mpr h
    | _ => exact nomatch h
  | double x =>
    cases b with
    | int y => exact cmpFlip_eq_equal.mp h
    | uint y => exact cmpFlip_eq_equal.mp h
    | double y =>
      exact cmpDouble_eq_equal.mpr (Binary64.eq_comm' x y ▸ cmpDouble_eq_equal.mp h)
    | _ => exact nomatch h
  | _ => exact nomatch h

/-- **Equality of scalars does not depend on the order of the two.** -/
theorem scalarEqual_comm (a b : CelValue) (h : scalarEqual a b = true) :
    scalarEqual b a = true := by
  rw [scalarEqual] at h ⊢
  rw [Bool.and_comm]
  split_ifs at h ⊢ with hnumeric
  · exact beq_iff_eq.mpr (numericCompareKernel_comm (beq_iff_eq.mp h))
  · have hsame : equalSameKind b a = equalSameKind a b := by
      cases a <;> cases b <;> first | rfl | exact congrArg some Bool.beq_comm
    rw [hsame]
    exact h

/-- A scalar written from a backing is compared with any scalar as the kernel compares them. -/
theorem hostScalarValueEq_eq {v : HostValue} {a c : CelValue} (hv : v.Plain)
    (hc : v.encoded = some c) (hscalar : isScalar c = true) :
    hostScalarValueEq a c = scalarEqual a c ∧ hostScalarValueEq c a = scalarEqual c a := by
  have hdouble : ∀ x y : Binary64, (cmpDouble x y == CmpResult.equal) = x.eq y := fun x y => by
    rw [Bool.eq_iff_iff, beq_iff_eq, cmpDouble_eq_equal]
  have hint : ∀ x y : Int64, (cmpI64 x y == CmpResult.equal) = (x == y) := fun x y => by
    rw [Bool.eq_iff_iff, beq_iff_eq, cmpI64_eq_equal, beq_iff_eq]
  have huint : ∀ x y : UInt64, (cmpU64 x y == CmpResult.equal) = (x == y) := fun x y => by
    rw [Bool.eq_iff_iff, beq_iff_eq, cmpU64_eq_equal, beq_iff_eq]
  cases v with
  | unknown ids => exact nomatch hc
  | type name => exact nomatch hc
  | error code => simp [HostValue.Plain] at hv
  | list elements | map entries | message slot =>
    obtain rfl := Option.some.inj hc
    exact nomatch hscalar
  | int x =>
    obtain rfl := Option.some.inj hc
    cases a with
    | int y => exact ⟨(hint _ _).symm, (hint _ _).symm⟩
    | _ => exact ⟨rfl, rfl⟩
  | uint x =>
    obtain rfl := Option.some.inj hc
    cases a with
    | uint y => exact ⟨(huint _ _).symm, (huint _ _).symm⟩
    | _ => exact ⟨rfl, rfl⟩
  | double x =>
    obtain rfl := Option.some.inj hc
    cases a with
    | double y => exact ⟨(hdouble _ _).symm, (hdouble _ _).symm⟩
    | _ => exact ⟨rfl, rfl⟩
  | _ =>
    obtain rfl := Option.some.inj hc
    cases a <;> exact ⟨rfl, rfl⟩

/-- The one-layer matcher of the arena walks is the same equality. -/
theorem celValueEq_eq {a : CelValue} (ha : isScalarEqKind a = true) (b : CelValue) :
    celValueEq a b = scalarEqual a b := by
  cases a <;> cases b <;> first | rfl | exact nomatch ha

/-! ## Reading a container -/

theorem HostValue.datum_list (elements : List HostValue) :
    (HostValue.list elements).datum = .list (elements.map HostValue.datum) := by
  rw [HostValue.datum]

theorem HostValue.datum_map (entries : List (HostValue × HostValue)) :
    (HostValue.map entries).datum = .map (entries.map hostEntryDatum) := by
  rw [HostValue.datum]
  rfl

theorem CelValue.datum_listArena (capacity : ℕ) (elements : List CelValue) :
    (CelValue.listArena capacity elements).datum = .list (elements.map CelValue.datum) := by
  rw [CelValue.datum]

theorem CelValue.datum_mapArena (capacity : ℕ) (entries : List (CelValue × CelValue))
    (index : Option MapIndex) :
    (CelValue.mapArena capacity entries index).datum = .map (entries.map entryDatum) := by
  rw [CelValue.datum]
  rfl

theorem CelValue.datum_listHost (elements : List HostValue) :
    (CelValue.listHost elements).datum = (HostValue.list elements).datum := by
  rw [CelValue.datum]

theorem CelValue.datum_mapHost (entries : List (HostValue × HostValue)) :
    (CelValue.mapHost entries).datum = (HostValue.map entries).datum := by
  rw [CelValue.datum]

theorem CelValue.datum_scalar {c : CelValue} (h : isScalar c = true) : c.datum = .scalar c := by
  cases c <;> first | (simp [CelValue.datum]; done) | exact nomatch h

/-- **Writing a value keeps what it denotes.** -/
theorem HostValue.Plain.encoded {v : HostValue} (h : v.Plain) :
    ∃ c, v.encoded = some c ∧ c.Plain ∧ c.datum = v.datum := by
  cases v with
  | unknown ids => simp [HostValue.Plain] at h
  | type name => simp [HostValue.Plain] at h
  | message slot => simp [HostValue.Plain] at h
  | error code => simp [HostValue.Plain] at h
  | list elements => exact ⟨_, rfl, by rwa [CelValue.Plain], by rw [CelValue.datum]⟩
  | map entries => exact ⟨_, rfl, by rwa [CelValue.Plain], by rw [CelValue.datum]⟩
  | _ => exact ⟨_, rfl, by simp [CelValue.Plain], by simp [CelValue.datum, HostValue.datum, HostValue.encoded]⟩

/-- A plain cell is a scalar, a list or a map. -/
theorem CelValue.Plain.shape {c : CelValue} (h : c.Plain) :
    isScalar c = true ∨ isListShaped c = true ∨ isMapShaped c = true := by
  cases c with
  | message _ | optional _ | unknown _ | error _ => simp [CelValue.Plain] at h
  | _ => first | exact .inl rfl | exact .inr (.inl rfl) | exact .inr (.inr rfl)

/-- The elements of a list operand are read one by one, and denote the list. -/
theorem CelValue.Plain.listElements {b : CelValue} (h : b.Plain) (hlist : isListShaped b = true) :
    b.datum = .list ((listElements b).map Element.datum) ∧
      ∀ y ∈ listElements b, ∃ c, y.read.granted = .ok c ∧ c.Plain ∧ c.datum = y.datum := by
  cases b with
  | listArena capacity elements =>
    rw [CelValue.Plain] at h
    rw [CelValue.datum_listArena, CelWasm.listElements, List.map_map]
    refine ⟨rfl, fun y hy => ?_⟩
    obtain ⟨v, hv, rfl⟩ := List.mem_map.mp hy
    exact ⟨v, rfl, h v hv, rfl⟩
  | listHost elements =>
    rw [CelValue.Plain, HostValue.Plain] at h
    rw [CelValue.datum, HostValue.datum_list, CelWasm.listElements, List.map_map]
    refine ⟨rfl, fun y hy => ?_⟩
    obtain ⟨v, hv, rfl⟩ := List.mem_map.mp hy
    obtain ⟨c, hc, hplain, hdatum⟩ := (h v hv).encoded
    exact ⟨c, granted_encodeValue_of_encoded hc, hplain, hdatum⟩
  | _ => exact nomatch hlist

/-- What a snapshot of a plain map holds. -/
structure PlainEntries (cells : List (CelValue × CelValue)) : Prop where
  valid : ∀ c ∈ cells, isValidMapKeyKind c.1 = true
  plain : ∀ c ∈ cells, c.2.Plain
  distinct : (cells.map fun c => keyClass c.1).Nodup

theorem EncodedEntries.map_entryDatum {entries : List (HostValue × HostValue)}
    {cells : List (CelValue × CelValue)} (h : EncodedEntries entries cells)
    (hplain : ∀ e ∈ entries, e.2.Plain) :
    cells.map entryDatum = entries.map hostEntryDatum := by
  induction h with
  | nil => rfl
  | @cons e c entries cells hec _ ih =>
    rw [List.forall_mem_cons] at hplain
    obtain ⟨v, hv, -, hdatum⟩ := hplain.1.encoded
    obtain rfl : c.2 = v := Option.some.inj (hec.2.symm.trans hv)
    rw [List.map_cons, List.map_cons, ih hplain.2, entryDatum, hostEntryDatum, hdatum, hostKeyClass,
      hec.1]
    rfl

/-- **A backing's entries are written as a plain map's**, and each value from a plain one. -/
theorem HostValue.Plain.snapshot {entries : List (HostValue × HostValue)}
    (h : (HostValue.map entries).Plain) : ∃ cells,
      (snapshotMapEntries (.mapHost entries)).granted = .ok cells ∧ EncodedEntries entries cells ∧
        PlainEntries cells ∧ cells.map entryDatum = entries.map hostEntryDatum := by
  rw [HostValue.Plain] at h
  have hkey : ∀ e ∈ entries, ∃ k, e.1.encoded = some k := by
    intro e he
    obtain ⟨b, hb⟩ | ⟨i, hi⟩ | ⟨u, hu⟩ | ⟨s, hs⟩ := HostValue.isValidMapKeyKind_iff.mp (h.1 e he).1
    · exact ⟨.bool b, by rw [hb]; rfl⟩
    · exact ⟨.int i, by rw [hi]; rfl⟩
    · exact ⟨.uint u, by rw [hu]; rfl⟩
    · exact ⟨.string s, by rw [hs]; rfl⟩
  obtain ⟨cells, hcells, hencoded⟩ := granted_snapshot_mapHost fun e he =>
    ⟨hkey e he, (h.1 e he).2.encoded.imp fun _ hv => hv.1⟩
  have hdatum := hencoded.map_entryDatum fun e he => (h.1 e he).2
  refine ⟨cells, hcells, hencoded, ⟨hencoded.valid fun e he => (h.1 e he).1, ?_, ?_⟩, hdatum⟩
  · refine hencoded.forall_mem fun e he c _ hc => ?_
    obtain ⟨v, hv, hplain, -⟩ := (h.1 e he).2.encoded
    exact Option.some.inj (hc.symm.trans hv) ▸ hplain
  · have hclasses := congrArg (List.map Prod.fst) hdatum
    rw [List.map_map, List.map_map] at hclasses
    exact hclasses ▸ h.2

/-- A map operand is snapshot as it is. -/
theorem CelValue.Plain.snapshot {b : CelValue} (h : b.Plain) (hmap : isMapShaped b = true) :
    ∃ cells, (snapshotMapEntries b).granted = .ok cells ∧ cells.length = mapEntryCount b ∧
      PlainEntries cells ∧ b.datum = .map (cells.map entryDatum) := by
  obtain ⟨capacity, entries, index, rfl⟩ | ⟨entries, rfl⟩ := isMapShaped_iff.mp hmap
  · rw [CelValue.Plain] at h
    exact ⟨entries, rfl, rfl, ⟨fun e he => (h.1 e he).1, fun e he => (h.1 e he).2, h.2.1⟩,
      CelValue.datum_mapArena ..⟩
  · rw [CelValue.Plain] at h
    obtain ⟨cells, hcells, hencoded, hplain, hdatum⟩ := h.snapshot
    refine ⟨cells, hcells, (List.Forall₂.length_eq hencoded).symm, hplain, ?_⟩
    rw [CelValue.datum, HostValue.datum_map, hdatum]

/-! ## Kinds that never match -/

section Shapes

variable {b : CelValue}

theorem CelValue.Plain.not_list_equal (h : b.Plain) (hlist : isListShaped b = false)
    (xs : List Datum) : ¬Datum.Equal (.list xs) b.datum := by
  obtain hscalar | hshape | hmap := h.shape
  · rw [CelValue.datum_scalar hscalar]
    exact id
  · exact absurd hshape (by simp [hlist])
  · obtain ⟨cells, -, -, -, hdatum⟩ := h.snapshot hmap
    rw [hdatum]
    exact id

theorem CelValue.Plain.not_map_equal (h : b.Plain) (hmap : isMapShaped b = false)
    (xs : List (Option KeyClass × Datum)) : ¬Datum.Equal (.map xs) b.datum := by
  obtain hscalar | hlist | hshape := h.shape
  · rw [CelValue.datum_scalar hscalar]
    exact id
  · rw [(h.listElements hlist).1]
    exact id
  · exact absurd hshape (by simp [hmap])

theorem CelValue.Plain.not_scalar_equal (h : b.Plain) (hscalar : isScalar b = false)
    (s : CelValue) : ¬Datum.Equal (.scalar s) b.datum := by
  obtain hshape | hlist | hmap := h.shape
  · exact absurd hshape (by simp [hscalar])
  · rw [(h.listElements hlist).1]
    exact id
  · obtain ⟨cells, -, -, -, hdatum⟩ := h.snapshot hmap
    rw [hdatum]
    exact id

end Shapes

/-! ## Distinct keys -/

theorem HostValue.Plain.distinct : ∀ {v : HostValue}, v.Plain → v.datum.Distinct
  | .list elements, h => by
    rw [HostValue.Plain] at h
    rw [HostValue.datum_list, KeyedTree.Distinct]
    intro x hx
    obtain ⟨v, hv, rfl⟩ := List.mem_map.mp hx
    exact (h v hv).distinct
  | .map entries, h => by
    rw [HostValue.Plain] at h
    rw [HostValue.datum_map, KeyedTree.Distinct, List.map_map]
    refine ⟨h.2, fun x hx => ?_⟩
    obtain ⟨e, he, rfl⟩ := List.mem_map.mp hx
    exact (h.1 e he).2.distinct
  | .unknown _, h | .type _, h | .message _, h | .error _, h => by simp [HostValue.Plain] at h
  | .null, _ | .bool _, _ | .int _, _ | .uint _, _ | .double _, _ | .string _, _ | .bytes _, _
  | .duration _, _ | .timestamp _, _ => by simp [HostValue.datum, KeyedTree.Distinct]
termination_by v => sizeOf v
decreasing_by
  · exact HostValue.sizeOf_element hv
  · exact HostValue.sizeOf_value he

/-- **The keys of a plain value's maps are distinct**, to any depth. -/
theorem CelValue.Plain.distinct : ∀ {c : CelValue}, c.Plain → c.datum.Distinct
  | .listArena _ elements, h => by
    rw [CelValue.Plain] at h
    rw [CelValue.datum_listArena, KeyedTree.Distinct]
    intro x hx
    obtain ⟨v, hv, rfl⟩ := List.mem_map.mp hx
    exact (h v hv).distinct
  | .mapArena _ entries _, h => by
    rw [CelValue.Plain] at h
    rw [CelValue.datum_mapArena, KeyedTree.Distinct, List.map_map]
    refine ⟨h.2.1, fun x hx => ?_⟩
    obtain ⟨e, he, rfl⟩ := List.mem_map.mp hx
    exact (h.1 e he).2.distinct
  | .listHost _, h => by
    rw [CelValue.Plain] at h
    exact CelValue.datum_listHost _ ▸ h.distinct
  | .mapHost _, h => by
    rw [CelValue.Plain] at h
    exact CelValue.datum_mapHost _ ▸ h.distinct
  | .message _, h | .optional _, h | .unknown _, h | .error _, h => by simp [CelValue.Plain] at h
  | .null, _ | .bool _, _ | .int _, _ | .uint _, _ | .double _, _ | .string _, _ | .bytes _, _
  | .type _, _ | .duration _, _ | .timestamp _, _ | .ip _, _ | .cidr _, _ => by
    simp [CelValue.datum, KeyedTree.Distinct]
termination_by c => sizeOf c
decreasing_by
  · exact CelValue.sizeOf_element hv
  · exact CelValue.sizeOf_value he

/-! ## The same value, differently kept -/

/-- **Two cells hold the same value**, wherever their containers are stored and however the entries of
their maps are ordered. -/
def SameUpToOrder (a b : CelValue) : Prop := a.datum.Matches (· = ·) b.datum

theorem SameUpToOrder.refl (a : CelValue) : SameUpToOrder a a :=
  KeyedTree.Matches.refl (fun _ => rfl) a.datum

/-- An arena map with its entries in another order. -/
theorem sameUpToOrder_mapArena {entries entries' : List (CelValue × CelValue)}
    (h : entries.Perm entries') (capacity capacity' : ℕ) (index index' : Option MapIndex) :
    SameUpToOrder (.mapArena capacity entries index) (.mapArena capacity' entries' index') := by
  rw [SameUpToOrder, CelValue.datum_mapArena, CelValue.datum_mapArena]
  exact KeyedTree.matches_of_perm (fun _ => rfl) (h.map _)

/-- **Equality of data goes both ways**, where keys are distinct. -/
theorem Datum.Equal.symm {a b : Datum} (ha : a.Distinct) (hb : b.Distinct) (h : a.Equal b) :
    b.Equal a :=
  KeyedTree.Matches.swap scalarEqual_comm ha hb h

/-- **The same values are equal to the same values.** -/
theorem SameUpToOrder.equal {a a' b b' : CelValue} (ha : SameUpToOrder a a')
    (hb : SameUpToOrder b b') (h : a'.datum.Equal b'.datum) (hdistinct : b.datum.Distinct)
    (hdistinct' : b'.datum.Distinct) : a.datum.Equal b.datum := by
  have hback : b'.datum.Matches (· = ·) b.datum := hb.swap (fun _ _ => Eq.symm) hdistinct hdistinct'
  have hfirst : a.datum.Matches ScalarsEqual b'.datum := ha.comp (fun _ _ _ h h' => h ▸ h') h
  exact hfirst.comp (fun _ _ _ h h' => h' ▸ h) hback

end CelWasm
