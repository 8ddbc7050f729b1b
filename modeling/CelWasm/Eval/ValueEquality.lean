import CelWasm.Eval.Datum
import CelWasm.Runtime.Equality

/-!
# Eval/ValueEquality — `==` is equality of what is denoted

`==` has one walk for two arena containers and another for every pair that has a handle in it. Over
plain values both decide `Datum.Equal`, so the answer does not depend on where a container is stored,
on the order of a map's entries or on the order of the operands. Each direction of a map comparison
looks for the entries of one side in the other; that this is enough rests on distinct keys.
-/

namespace CelWasm

open KeyedTree (ElementsMatch EntriesMatch HasPartner)

/-! ## Keys -/

/-- Between legal keys the host compares as the arena does. -/
theorem hostMapKeyEq_iff {a b : CelValue} (ha : isValidMapKeyKind a = true) :
    hostMapKeyEq a b = true ↔ keyClass a = keyClass b := by
  rw [← celMapKeyEq_iff ha, hostMapKeyEq, celMapKeyEq]
  cases a <;> cases b <;> first | exact Iff.rfl | cases ha

/-- At most one entry of a plain map has a key of a class. -/
theorem PlainEntries.eq_of_keyClass {cells : List (CelValue × CelValue)} (h : PlainEntries cells)
    {c d : CelValue × CelValue} (hc : c ∈ cells) (hd : d ∈ cells)
    (hclass : keyClass c.1 = keyClass d.1) : c = d :=
  List.inj_on_of_nodup_map h.distinct hc hd hclass

/-- **A partner sought among a snapshot's cells by key** is a partner among what they denote. -/
theorem decides_hasPartner {α : Type} {out : Bool → α} {cells : List (CelValue × CelValue)}
    (h : PlainEntries cells) {key : CelValue} {value : Datum} (test : CelValue × CelValue → Bool)
    (htest : ∀ c ∈ cells, test c = true ↔ keyClass c.1 = keyClass key) {p : Kernel α}
    (hnone : cells.find? test = none → p.granted = .ok (out false))
    (hsome : ∀ c ∈ cells, cells.find? test = some c →
      Prog.Decides out p (value.Matches ScalarsEqual c.2.datum)) :
    Prog.Decides out p
      (HasPartner ScalarsEqual (cells.map entryDatum) (keyClass key, value)) := by
  have hunique : ∀ c ∈ cells, ∀ d ∈ cells, test c = true → test d = true → c = d :=
    fun c hc d hd hct hdt =>
      h.eq_of_keyClass hc hd (((htest c hc).mp hct).trans ((htest d hd).mp hdt).symm)
  refine (Prog.decides_find? hunique hnone hsome).congr ?_
  rw [HasPartner]
  constructor
  · rintro ⟨c, hc, hct, hmatch⟩
    exact ⟨entryDatum c, List.mem_map_of_mem hc, (htest c hc).mp hct, hmatch⟩
  · rintro ⟨f, hf, hclass, hmatch⟩
    obtain ⟨c, hc, rfl⟩ := List.mem_map.mp hf
    exact ⟨c, hc, (htest c hc).mpr hclass, hmatch⟩

section Walks

variable {messagesEqual : ℕ → ℕ → Bool}

/-! ## The host's walk -/

theorem backingListEq_decides : ∀ {elements : List HostValue} {ys : List Element},
    (∀ v ∈ elements, v.Plain ∧ ∀ b, CelValue.Plain b →
      Prog.Decides id (backingValueEq messagesEqual v b) (v.datum.Equal b.datum)) →
    (∀ y ∈ ys, ∃ c, y.read.granted = .ok c ∧ c.Plain ∧ c.datum = y.datum) →
    Prog.Decides id (backingListEq messagesEqual elements ys)
      (ElementsMatch ScalarsEqual (elements.map HostValue.datum) (ys.map Element.datum))
  | [], _, _, _ => Prog.decides_pure id true |>.congr (by simp [ElementsMatch])
  | _ :: _, [], _, _ => Prog.decides_pure id true |>.congr (by simp [ElementsMatch])
  | v :: vs, y :: ys, hvs, hys => by
    rw [List.forall_mem_cons] at hvs hys
    obtain ⟨c, hc, -⟩ := hvs.1.1.encoded
    obtain ⟨b, hb, hplain, hdatum⟩ := hys.1
    rw [backingListEq, List.map_cons, List.map_cons, ElementsMatch, ← hdatum]
    refine .of_granted (granted_encodeValue_of_encoded hc) (.of_granted hb ?_)
    exact (hvs.1.2 b hplain).and (backingListEq_decides hvs.2 hys.2)

theorem backingMapEq_decides {others : List (CelValue × CelValue)} (hothers : PlainEntries others) :
    ∀ {entries : List (HostValue × HostValue)} {cells : List (CelValue × CelValue)},
    EncodedEntries entries cells → (∀ c ∈ cells, isValidMapKeyKind c.1 = true) →
    (∀ e ∈ entries, ∀ b, CelValue.Plain b →
      Prog.Decides id (backingValueEq messagesEqual e.2 b) (e.2.datum.Equal b.datum)) →
    Prog.Decides id (backingMapEq messagesEqual others (cells.map Prod.fst) entries)
      (EntriesMatch ScalarsEqual (others.map entryDatum) (entries.map hostEntryDatum)) := by
  intro entries cells hencoded
  induction hencoded with
  | nil => exact fun _ _ => Prog.decides_pure id true |>.congr (by simp [EntriesMatch])
  | @cons e c entries cells hec hrest ih =>
    intro hvalid h
    obtain ⟨name, value⟩ := e
    rw [List.forall_mem_cons] at hvalid h
    rw [List.map_cons, List.map_cons, backingMapEq, EntriesMatch]
    refine .and ?_ (ih hvalid.2 h.2)
    have hclass : hostEntryDatum (name, value) = (keyClass c.1, value.datum) := by
      rw [hostEntryDatum, hostKeyClass, hec.1]
      rfl
    rw [backingEntryMatches, hclass]
    refine decides_hasPartner hothers (fun e => hostMapKeyEq c.1 e.1) (fun d hd => ?_)
      (fun hnone => ?_) fun d hd hsome => ?_
    · rw [hostMapKeyEq_iff hvalid.1]
      exact eq_comm
    · rw [hnone]
      rfl
    · rw [hsome]
      exact h.1 d.2 (hothers.plain d hd)

/-- Only what holds cells is an aggregate. -/
theorem CelValue.Plain.isAggregate_eq {b : CelValue} (h : b.Plain) :
    isAggregate b = !isScalar b := by
  cases b <;> first | rfl | simp [CelValue.Plain] at h

/-- A scalar of a backing is compared as the cell it is written as. -/
theorem backingScalarEq_decides {v : HostValue} {c b : CelValue}
    (hbody : backingValueEq messagesEqual v b = return !isAggregate b && hostScalarValueEq c b)
    (hv : v.Plain) (hc : v.encoded = some c) (hscalar : isScalar c = true) (hb : b.Plain) :
    Prog.Decides id (backingValueEq messagesEqual v b) (v.datum.Equal b.datum) := by
  obtain ⟨c', hc', -, hdatum⟩ := hv.encoded
  obtain rfl : c = c' := Option.some.inj (hc.symm.trans hc')
  rw [hbody, ← hdatum, CelValue.datum_scalar hscalar, (hostScalarValueEq_eq hv hc hscalar).2]
  rw [hb.isAggregate_eq, Bool.not_not]
  cases hshape : isScalar b with
  | false => exact Prog.decides_false id (hb.not_scalar_equal hshape c)
  | true =>
    rw [CelValue.datum_scalar hshape]
    exact Prog.decides_pure id (scalarEqual c b)

/-- **The host's comparison of a backing's value** decides equality. -/
theorem backingValueEq_decides : ∀ (v : HostValue), v.Plain → ∀ b, CelValue.Plain b →
    Prog.Decides id (backingValueEq messagesEqual v b) (v.datum.Equal b.datum)
  | .list elements, hv, b, hb => by
    rw [HostValue.Plain] at hv
    rw [backingValueEq, HostValue.datum_list]
    cases hlist : isListShaped b with
    | false => exact Prog.decides_false id (hb.not_list_equal hlist _)
    | true =>
      obtain ⟨hdatum, hread⟩ := hb.listElements hlist
      rw [hdatum, Bool.not_true, if_neg Bool.false_ne_true]
      split_ifs with hlength
      · exact Prog.decides_false id fun h => hlength (by simpa using h.1)
      · refine (backingListEq_decides (fun v hmem => ⟨hv v hmem, backingValueEq_decides v (hv v hmem)⟩)
          hread).congr ?_
        exact (and_iff_right (by simpa using hlength)).symm
  | .map entries, hv, b, hb => by
    obtain ⟨cells, hcells, hencoded, hplain, -⟩ := hv.snapshot
    rw [HostValue.Plain] at hv
    rw [backingValueEq, HostValue.datum_map]
    cases hmap : isMapShaped b with
    | false => exact Prog.decides_false id (hb.not_map_equal hmap _)
    | true =>
      obtain ⟨others, hothers, hcount, hplain', hdatum⟩ := hb.snapshot hmap
      rw [hdatum, Bool.not_true, if_neg Bool.false_ne_true]
      split_ifs with hlength
      · exact Prog.decides_false id fun h => hlength (by simpa [hcount] using h.1)
      · refine .of_granted hcells (.of_granted hothers ?_)
        refine (backingMapEq_decides hplain' hencoded hplain.valid fun e hmem =>
          backingValueEq_decides e.2 (hv.1 e hmem).2).congr ?_
        exact (and_iff_right (by simpa [hcount] using hlength)).symm
  | .unknown _, hv, _, _ | .type _, hv, _, _ | .message _, hv, _, _ | .error _, hv, _, _ => by
    simp [HostValue.Plain] at hv
  | .null, hv, b, hb => backingScalarEq_decides rfl hv rfl rfl hb
  | .bool _, hv, b, hb => backingScalarEq_decides rfl hv rfl rfl hb
  | .int _, hv, b, hb => backingScalarEq_decides rfl hv rfl rfl hb
  | .uint _, hv, b, hb => backingScalarEq_decides rfl hv rfl rfl hb
  | .double _, hv, b, hb => backingScalarEq_decides rfl hv rfl rfl hb
  | .string _, hv, b, hb => backingScalarEq_decides rfl hv rfl rfl hb
  | .bytes _, hv, b, hb => backingScalarEq_decides rfl hv rfl rfl hb
  | .duration _, hv, b, hb => backingScalarEq_decides rfl hv rfl rfl hb
  | .timestamp _, hv, b, hb => backingScalarEq_decides rfl hv rfl rfl hb
termination_by v => sizeOf v
decreasing_by
  · exact HostValue.sizeOf_element hmem
  · exact HostValue.sizeOf_value hmem

/-! ## An arena value against a backing's -/

theorem wireListEq_decides : ∀ {xs : List CelValue} {vs : List HostValue},
    (∀ x ∈ xs, ∀ v c, HostValue.Plain v → v.encoded = some c →
      Prog.Decides id (wireValueEq messagesEqual x c) (x.datum.Equal v.datum)) →
    (∀ v ∈ vs, v.Plain) →
    Prog.Decides id (wireListEq messagesEqual xs (vs.map .backing))
      (ElementsMatch ScalarsEqual (xs.map CelValue.datum) (vs.map HostValue.datum))
  | [], _, _, _ => Prog.decides_pure id true |>.congr (by simp [ElementsMatch])
  | _ :: _, [], _, _ => Prog.decides_pure id true |>.congr (by simp [ElementsMatch])
  | x :: xs, v :: vs, hxs, hvs => by
    rw [List.forall_mem_cons] at hxs hvs
    obtain ⟨c, hc, -⟩ := hvs.1.encoded
    rw [List.map_cons, List.map_cons, List.map_cons, wireListEq, ElementsMatch]
    refine .of_granted (granted_encodeValue_of_encoded hc) ?_
    exact (hxs.1 v c hvs.1 hc).and (wireListEq_decides hxs.2 hvs.2)

theorem wireMapEq_decides {others : List (CelValue × CelValue)} (hothers : PlainEntries others)
    (hwritten : ∀ d ∈ others, ∃ v, HostValue.Plain v ∧ v.encoded = some d.2) :
    ∀ {cells : List (CelValue × CelValue)}, (∀ c ∈ cells, isValidMapKeyKind c.1 = true) →
    (∀ e ∈ cells, ∀ v c, HostValue.Plain v → v.encoded = some c →
      Prog.Decides id (wireValueEq messagesEqual e.2 c) (e.2.datum.Equal v.datum)) →
    Prog.Decides id (wireMapEq messagesEqual others cells)
      (EntriesMatch ScalarsEqual (others.map entryDatum) (cells.map entryDatum))
  | [], _, _ => Prog.decides_pure id true |>.congr (by simp [EntriesMatch])
  | (key, value) :: cells, hvalid, h => by
    rw [List.forall_mem_cons] at hvalid h
    rw [List.map_cons, wireMapEq, EntriesMatch]
    refine .and ?_ (wireMapEq_decides hothers hwritten hvalid.2 h.2)
    rw [wireEntryMatches, entryDatum]
    refine decides_hasPartner hothers (fun e => hostMapKeyEq key e.1) (fun d hd => ?_)
      (fun hnone => ?_) fun d hd hsome => ?_
    · rw [hostMapKeyEq_iff hvalid.1]
      exact eq_comm
    · rw [hnone]
      rfl
    · obtain ⟨v, hv, hd⟩ := hwritten d hd
      obtain ⟨c, hc, -, hdatum⟩ := hv.encoded
      obtain rfl : d.2 = c := Option.some.inj (hd.symm.trans hc)
      rw [hsome, hdatum]
      exact h.1 v d.2 hv hd

theorem eq_of_encoded_list {v : HostValue} {c : CelValue} (hc : v.encoded = some c)
    (hlist : isListShaped c = true) : ∃ vs, v = .list vs ∧ c = .listHost vs := by
  cases v with
  | list vs => exact ⟨vs, rfl, (Option.some.inj hc).symm⟩
  | unknown _ | type _ => exact nomatch hc
  | _ =>
    obtain rfl := Option.some.inj hc
    exact nomatch hlist

theorem eq_of_encoded_map {v : HostValue} {c : CelValue} (hc : v.encoded = some c)
    (hmap : isMapShaped c = true) : ∃ entries, v = .map entries ∧ c = .mapHost entries := by
  cases v with
  | map entries => exact ⟨entries, rfl, (Option.some.inj hc).symm⟩
  | unknown _ | type _ => exact nomatch hc
  | _ =>
    obtain rfl := Option.some.inj hc
    exact nomatch hmap

/-- A scalar of the arena is compared with the cell of a backing's value. -/
theorem wireScalarEq_decides {v : HostValue} {a c : CelValue}
    (hbody : wireValueEq messagesEqual a c = return !isAggregate c && hostScalarValueEq a c)
    (ha : isScalar a = true) (hv : v.Plain) (hc : v.encoded = some c) :
    Prog.Decides id (wireValueEq messagesEqual a c) (a.datum.Equal v.datum) := by
  obtain ⟨c', hc', hplain, hdatum⟩ := hv.encoded
  obtain rfl : c = c' := Option.some.inj (hc.symm.trans hc')
  rw [hbody, ← hdatum, CelValue.datum_scalar ha, hplain.isAggregate_eq, Bool.not_not]
  cases hshape : isScalar c with
  | false => exact Prog.decides_false id (hplain.not_scalar_equal hshape a)
  | true =>
    rw [(hostScalarValueEq_eq hv hc hshape).1, CelValue.datum_scalar hshape]
    exact Prog.decides_pure id (scalarEqual a c)

/-- **The host's comparison of any cell with one written from a backing** decides equality. -/
theorem wireValueEq_decides : ∀ (a : CelValue), a.Plain → ∀ v c, HostValue.Plain v →
    v.encoded = some c → Prog.Decides id (wireValueEq messagesEqual a c) (a.datum.Equal v.datum)
  | .listArena _ xs, ha, v, c, hv, hc => by
    rw [CelValue.Plain] at ha
    rw [wireValueEq, CelValue.datum_listArena]
    cases hlist : isListShaped c with
    | false =>
      obtain ⟨c', hc', hplain, hdatum⟩ := hv.encoded
      obtain rfl : c = c' := Option.some.inj (hc.symm.trans hc')
      exact Prog.decides_false id (hdatum ▸ hplain.not_list_equal hlist _)
    | true =>
      obtain ⟨vs, rfl, rfl⟩ := eq_of_encoded_list hc hlist
      rw [HostValue.Plain] at hv
      rw [HostValue.datum_list, listElements, Bool.not_true, if_neg Bool.false_ne_true]
      split_ifs with hlength
      · exact Prog.decides_false id fun h => hlength (by simpa using h.1)
      · refine (wireListEq_decides (fun x hmem => wireValueEq_decides x (ha x hmem)) hv).congr ?_
        exact (and_iff_right (by simpa using hlength)).symm
  | .mapArena _ entries _, ha, v, c, hv, hc => by
    rw [CelValue.Plain] at ha
    rw [wireValueEq, CelValue.datum_mapArena]
    cases hmap : isMapShaped c with
    | false =>
      obtain ⟨c', hc', hplain, hdatum⟩ := hv.encoded
      obtain rfl : c = c' := Option.some.inj (hc.symm.trans hc')
      exact Prog.decides_false id (hdatum ▸ hplain.not_map_equal hmap _)
    | true =>
      obtain ⟨others, rfl, rfl⟩ := eq_of_encoded_map hc hmap
      obtain ⟨cells, hcells, hencoded, hplain, hdatum⟩ := hv.snapshot
      have hcount : cells.length = others.length := (List.Forall₂.length_eq hencoded).symm
      rw [HostValue.Plain] at hv
      rw [HostValue.datum_map, ← hdatum, Bool.not_true, if_neg Bool.false_ne_true, mapEntryCount]
      split_ifs with hlength
      · exact Prog.decides_false id fun h => hlength (by simpa [hcount] using h.1)
      · refine .of_granted hcells ?_
        have hwritten : ∀ d ∈ cells, ∃ v, HostValue.Plain v ∧ v.encoded = some d.2 :=
          hencoded.forall_mem fun e he d _ hd => ⟨e.2, (hv.1 e he).2, hd⟩
        refine (wireMapEq_decides hplain hwritten (fun e hmem => (ha.1 e hmem).1)
          fun e hmem => wireValueEq_decides e.2 (ha.1 e hmem).2).congr ?_
        exact (and_iff_right (by simpa [hcount] using hlength)).symm
  | .listHost xs, ha, v, c, hv, hc => by
    obtain ⟨c', hc', hplain, hdatum⟩ := hv.encoded
    obtain rfl : c = c' := Option.some.inj (hc.symm.trans hc')
    rw [CelValue.Plain] at ha
    rw [wireValueEq, CelValue.datum, ← hdatum]
    exact backingValueEq_decides _ ha c hplain
  | .mapHost xs, ha, v, c, hv, hc => by
    obtain ⟨c', hc', hplain, hdatum⟩ := hv.encoded
    obtain rfl : c = c' := Option.some.inj (hc.symm.trans hc')
    rw [CelValue.Plain] at ha
    rw [wireValueEq, CelValue.datum, ← hdatum]
    exact backingValueEq_decides _ ha c hplain
  | .message _, ha, _, _, _, _ | .optional _, ha, _, _, _, _ | .unknown _, ha, _, _, _, _
  | .error _, ha, _, _, _, _ => by simp [CelValue.Plain] at ha
  | .null, _, v, c, hv, hc | .bool _, _, v, c, hv, hc | .int _, _, v, c, hv, hc
  | .uint _, _, v, c, hv, hc | .double _, _, v, c, hv, hc | .string _, _, v, c, hv, hc
  | .bytes _, _, v, c, hv, hc | .type _, _, v, c, hv, hc | .duration _, _, v, c, hv, hc
  | .timestamp _, _, v, c, hv, hc | .ip _, _, v, c, hv, hc | .cidr _, _, v, c, hv, hc =>
    wireScalarEq_decides rfl rfl hv hc
termination_by a => sizeOf a
decreasing_by
  · exact CelValue.sizeOf_element hmem
  · exact CelValue.sizeOf_value hmem

end Walks

/-! ## The arena's walk -/

section Kernel

variable {host : CelHost} {messagesEqual : ℕ → ℕ → Bool}

/-- Where an entry's partner is found, by a scan or by the index: at the entry with its key. -/
theorem granted_matchingEntry {cells : List (CelValue × CelValue)} {index : Option MapIndex}
    {key : CelValue} (h : PlainEntries cells) (hindex : IndexedBy (cells.map Prod.fst) index)
    (hkey : isValidMapKeyKind key = true) :
    ((matchingEntry key cells index).granted = .ok none ∧
        ∀ c ∈ cells, keyClass c.1 ≠ keyClass key) ∨
      ∃ c ∈ cells, keyClass c.1 = keyClass key ∧
        (matchingEntry key cells index).granted = .ok (some c.2) := by
  cases index with
  | none =>
    rw [matchingEntry, Prog.granted_pure]
    cases hfind : cells.find? fun c => celMapKeyEq key c.1 with
    | none =>
      refine .inl ⟨rfl, fun c hc hclass => ?_⟩
      exact List.find?_eq_none.mp hfind c hc ((celMapKeyEq_iff hkey).mpr hclass.symm)
    | some c =>
      have hhit : celMapKeyEq key c.1 = true := by simpa using List.find?_some hfind
      exact .inr ⟨c, List.mem_of_find?_eq_some hfind, ((celMapKeyEq_iff hkey).mp hhit).symm, rfl⟩
  | some index =>
    rw [matchingEntry, Prog.granted_bind, granted_arenaMapFind hindex h.valid]
    cases hfind : cells.findIdx? fun c => celMapKeyEq c.1 key with
    | none =>
      refine .inl ⟨rfl, fun c hc hclass => ?_⟩
      have hmiss := List.findIdx?_eq_none_iff.mp hfind c hc
      rw [(celMapKeyEq_iff (h.valid c hc)).mpr hclass] at hmiss
      exact nomatch hmiss
    | some i =>
      obtain ⟨hi, hhit, -⟩ := List.findIdx?_eq_some_iff_getElem.mp hfind
      have hmem : cells[i] ∈ cells := List.getElem_mem hi
      refine .inr ⟨cells[i], hmem, (celMapKeyEq_iff (h.valid _ hmem)).mp hhit, ?_⟩
      change (some <$> arenaMapEntryVal cells i).granted = _
      rw [map_eq_pure_bind, Prog.granted_bind,
        granted_arenaMapEntryVal (List.getElem?_eq_getElem hi)]
      rfl

/-- Two scalars are compared without a walk. -/
theorem equalityKernel_scalar {a b : CelValue} (ha : isScalar a = true) (hb : isScalar b = true) :
    equalityKernel host a b = return .bool (scalarEqual a b) := by
  cases a <;> first
    | exact Bool.noConfusion ha
    | (cases b <;> first | rfl | exact Bool.noConfusion hb)

theorem deepValuesEqual_decides {a b : CelValue} {kernel : Kernel CelValue}
    (hkernel : Prog.Decides .bool kernel (a.datum.Equal b.datum)) (scratch : Bool) :
    ∃ scratch', Prog.Decides (fun r => (scratch', some r)) (deepValuesEqual scratch a b kernel)
      (a.datum.Equal b.datum) := by
  have hscalar : ∀ {c : CelValue}, isScalarEqKind c = true → isScalar c = true := fun {c} h => by
    cases c <;> first | exact h | rfl
  rw [deepValuesEqual]
  split_ifs with hkinds
  · rw [Bool.and_eq_true] at hkinds
    rw [celValueEq_eq hkinds.1, CelValue.datum_scalar (hscalar hkinds.1),
      CelValue.datum_scalar (hscalar hkinds.2)]
    exact ⟨scratch, Prog.decides_pure (fun r => (scratch, some r)) (scalarEqual a b)⟩
  · obtain ⟨r, hr, hiff⟩ := hkernel
    refine ⟨true, r, ?_, hiff⟩
    have hcell : (scratchCell scratch).granted = .ok true := by cases scratch <;> rfl
    rw [Prog.granted_bind, hcell]
    change (kernel >>= fun v => pure (true, some (v.isBool true))).granted = _
    rw [Prog.granted_bind, hr]
    cases r <;> rfl

theorem elementsEqual_decides : ∀ (scratch : Bool) {xs ys : List CelValue},
    (∀ x ∈ xs, ∀ b, CelValue.Plain b →
      Prog.Decides .bool (equalityKernel host x b) (x.datum.Equal b.datum)) →
    (∀ y ∈ ys, y.Plain) →
    Prog.Decides some (elementsEqual host scratch xs ys)
      (ElementsMatch ScalarsEqual (xs.map CelValue.datum) (ys.map CelValue.datum))
  | _, [], _, _, _ => Prog.decides_pure some true |>.congr (by simp [ElementsMatch])
  | _, _ :: _, [], _, _ => Prog.decides_pure some true |>.congr (by simp [ElementsMatch])
  | scratch, x :: xs, y :: ys, hxs, hys => by
    rw [List.forall_mem_cons] at hxs hys
    obtain ⟨scratch', r, hr, hiff⟩ := deepValuesEqual_decides (hxs.1 y hys.1) scratch
    rw [elementsEqual, List.map_cons, List.map_cons, ElementsMatch]
    refine .of_granted hr ?_
    cases r with
    | true =>
      refine (elementsEqual_decides scratch' hxs.2 hys.2).congr ?_
      exact (and_iff_right (hiff.mp rfl)).symm
    | false =>
      exact Prog.decides_false some fun h => Bool.false_ne_true (hiff.mpr h.1)

theorem entriesEqual_decides {other : List (CelValue × CelValue)} {index : Option MapIndex}
    (hother : PlainEntries other) (hindex : IndexedBy (other.map Prod.fst) index) :
    ∀ (scratch : Bool) {entries : List (CelValue × CelValue)},
    (∀ e ∈ entries, isValidMapKeyKind e.1 = true) →
    (∀ e ∈ entries, ∀ b, CelValue.Plain b →
      Prog.Decides .bool (equalityKernel host e.2 b) (e.2.datum.Equal b.datum)) →
    Prog.Decides some (entriesEqual host other index scratch entries)
      (EntriesMatch ScalarsEqual (other.map entryDatum) (entries.map entryDatum))
  | _, [], _, _ => Prog.decides_pure some true |>.congr (by simp [EntriesMatch])
  | scratch, (key, value) :: entries, hvalid, h => by
    rw [List.forall_mem_cons] at hvalid h
    have hentry : ∃ scratch', Prog.Decides (fun r => (scratch', some r))
        (arenaMapEntryMatches host other index scratch (key, value))
        (HasPartner ScalarsEqual (other.map entryDatum) (entryDatum (key, value))) := by
      rw [arenaMapEntryMatches, entryDatum, HasPartner]
      obtain ⟨hnone, hmiss⟩ | ⟨c, hc, hclass, hsome⟩ :=
        granted_matchingEntry hother hindex hvalid.1
      · refine ⟨scratch, .of_granted hnone (Prog.decides_false (fun r => (scratch, some r)) ?_)⟩
        rintro ⟨f, hf, hfclass, -⟩
        obtain ⟨d, hd, rfl⟩ := List.mem_map.mp hf
        exact hmiss d hd hfclass
      · obtain ⟨scratch', hdeep⟩ := deepValuesEqual_decides (h.1 c.2 (hother.plain c hc)) scratch
        refine ⟨scratch', .of_granted hsome (hdeep.congr ⟨fun hmatch => ?_, ?_⟩)⟩
        · exact ⟨entryDatum c, List.mem_map_of_mem hc, hclass, hmatch⟩
        · rintro ⟨f, hf, hfclass, hmatch⟩
          obtain ⟨d, hd, rfl⟩ := List.mem_map.mp hf
          obtain rfl := hother.eq_of_keyClass hc hd (hclass.trans hfclass.symm)
          exact hmatch
    obtain ⟨scratch', r, hr, hiff⟩ := hentry
    rw [entriesEqual, List.map_cons, EntriesMatch]
    refine .of_granted hr ?_
    cases r with
    | true =>
      refine (entriesEqual_decides hother hindex scratch' hvalid.2 h.2).congr ?_
      exact (and_iff_right (hiff.mp rfl)).symm
    | false =>
      exact Prog.decides_false some fun h => Bool.false_ne_true (hiff.mpr h.1)

theorem CelValue.Plain.isPoison_eq {b : CelValue} (h : b.Plain) : b.isPoison = false := by
  cases b <;> first | rfl | simp [CelValue.Plain] at h

theorem isScalar_of_numeric {a : CelValue} (h : isNumericKind a = true) : isScalar a = true := by
  cases a <;> first | rfl | exact Bool.noConfusion h

theorem isScalar_of_sameKind {a b : CelValue} {verdict : Bool} (h : equalSameKind a b = some verdict) :
    isScalar a = true ∧ isScalar b = true := by
  unfold equalSameKind at h
  split at h
  all_goals first | exact ⟨rfl, rfl⟩ | exact nomatch h

/-- Values of different shapes are unequal. -/
theorem equalityKernel_of_shapes {a b : CelValue} (ha : a.Plain) (hb : b.Plain)
    (hscalar : (isScalar a && isScalar b) = false)
    (hlist : (isListShaped a && isListShaped b) = false)
    (hmap : (isMapShaped a && isMapShaped b) = false) :
    equalityKernel host a b = return .bool false := by
  have hnumeric : ¬(isNumericKind a && isNumericKind b) = true := fun h => by
    rw [Bool.and_eq_true] at h
    rw [isScalar_of_numeric h.1, isScalar_of_numeric h.2] at hscalar
    cases hscalar
  have hsame : equalSameKind a b = none := by
    cases hsame : equalSameKind a b with
    | none => rfl
    | some verdict =>
      obtain ⟨hsa, hsb⟩ := isScalar_of_sameKind hsame
      rw [hsa, hsb] at hscalar
      cases hscalar
  unfold equalityKernel
  rw [unlessAbsorbed_of_not_poison ha.isPoison_eq hb.isPoison_eq, if_neg hnumeric, hsame]
  dsimp only
  split
  · simp [CelValue.Plain] at ha
  · cases hlist
  · cases hmap
  · simp [CelValue.Plain] at ha
  · rw [hlist, hmap]
    rfl
theorem equalityKernel_scalar_decides {a b : CelValue} (ha : isScalar a = true) (hb : b.Plain) :
    Prog.Decides .bool (equalityKernel host a b) (a.datum.Equal b.datum) := by
  rw [CelValue.datum_scalar ha]
  cases hshape : isScalar b with
  | true =>
    rw [equalityKernel_scalar ha hshape, CelValue.datum_scalar hshape]
    exact Prog.decides_pure CelValue.bool (scalarEqual a b)
  | false =>
    have hplain : a.Plain := by
      cases a <;> first | (simp [CelValue.Plain]; done) | exact Bool.noConfusion ha
    have hlist : isListShaped a = false := by
      cases a <;> first | rfl | exact Bool.noConfusion ha
    have hmap : isMapShaped a = false := by
      cases a <;> first | rfl | exact Bool.noConfusion ha
    rw [equalityKernel_of_shapes hplain hb (by rw [hshape, Bool.and_false])
      (by rw [hlist, Bool.false_and]) (by rw [hmap, Bool.false_and])]
    exact Prog.decides_false CelValue.bool (hb.not_scalar_equal hshape a)

/-- **`==` on plain values** decides equality of what they denote. -/
theorem equalityKernel_decides : ∀ (a : CelValue), a.Plain → ∀ b, CelValue.Plain b →
    Prog.Decides .bool (equalityKernel (host.withHostEquality messagesEqual) a b)
      (a.datum.Equal b.datum)
  | .listArena _ xs, ha, b, hb => by
    cases hlist : isListShaped b with
    | false =>
      rw [equalityKernel_of_shapes ha hb rfl hlist rfl, CelValue.datum_listArena]
      exact Prog.decides_false CelValue.bool (hb.not_list_equal hlist _)
    | true =>
      obtain ⟨capacity, ys, rfl⟩ | ⟨ys, rfl⟩ := isListShaped_iff.mp hlist
      · rw [CelValue.Plain] at ha hb
        rw [CelValue.datum_listArena, CelValue.datum_listArena]
        change Prog.Decides .bool (if xs.length ≠ ys.length then return .bool false
          else walkVerdict <$> elementsEqual _ false xs ys) _
        split_ifs with hlength
        · exact Prog.decides_false CelValue.bool fun h => hlength (by simpa using h.1)
        · refine ((elementsEqual_decides false (fun x hmem =>
            equalityKernel_decides x (ha x hmem)) hb).map walkVerdict).congr ?_
          exact (and_iff_right (by simpa using hlength)).symm
      · rw [CelValue.Plain] at hb
        rw [CelValue.datum_listHost]
        exact (wireValueEq_decides _ ha _ _ hb rfl).map CelValue.bool
  | .mapArena _ xs _, ha, b, hb => by
    cases hmap : isMapShaped b with
    | false =>
      rw [equalityKernel_of_shapes ha hb rfl rfl hmap, CelValue.datum_mapArena]
      exact Prog.decides_false CelValue.bool (hb.not_map_equal hmap _)
    | true =>
      obtain ⟨capacity, ys, index, rfl⟩ | ⟨ys, rfl⟩ := isMapShaped_iff.mp hmap
      · rw [CelValue.Plain] at ha hb
        rw [CelValue.datum_mapArena, CelValue.datum_mapArena]
        change Prog.Decides .bool (if xs.length ≠ ys.length then return .bool false
          else walkVerdict <$> entriesEqual _ ys index false xs) _
        have hys : PlainEntries ys := ⟨fun e he => (hb.1 e he).1, fun e he => (hb.1 e he).2, hb.2.1⟩
        split_ifs with hlength
        · exact Prog.decides_false CelValue.bool fun h => hlength (by simpa using h.1)
        · refine ((entriesEqual_decides hys hb.2.2 false (fun e hmem => (ha.1 e hmem).1)
            fun e hmem => equalityKernel_decides e.2 (ha.1 e hmem).2).map walkVerdict).congr ?_
          exact (and_iff_right (by simpa using hlength)).symm
      · rw [CelValue.Plain] at hb
        rw [CelValue.datum_mapHost]
        exact (wireValueEq_decides _ ha _ _ hb rfl).map CelValue.bool
  | .listHost xs, ha, b, hb => by
    rw [CelValue.datum]
    cases hlist : isListShaped b with
    | false =>
      rw [equalityKernel_of_shapes ha hb rfl hlist rfl, HostValue.datum_list]
      exact Prog.decides_false CelValue.bool (hb.not_list_equal hlist _)
    | true =>
      rw [CelValue.Plain] at ha
      obtain ⟨capacity, ys, rfl⟩ | ⟨ys, rfl⟩ := isListShaped_iff.mp hlist
      · exact (backingValueEq_decides _ ha _ hb).map CelValue.bool
      · exact (backingValueEq_decides _ ha _ hb).map CelValue.bool
  | .mapHost xs, ha, b, hb => by
    rw [CelValue.datum]
    cases hmap : isMapShaped b with
    | false =>
      rw [equalityKernel_of_shapes ha hb rfl rfl hmap, HostValue.datum_map]
      exact Prog.decides_false CelValue.bool (hb.not_map_equal hmap _)
    | true =>
      rw [CelValue.Plain] at ha
      obtain ⟨capacity, ys, index, rfl⟩ | ⟨ys, rfl⟩ := isMapShaped_iff.mp hmap
      · exact (backingValueEq_decides _ ha _ hb).map CelValue.bool
      · exact (backingValueEq_decides _ ha _ hb).map CelValue.bool
  | .message _, ha, _, _ | .optional _, ha, _, _ | .unknown _, ha, _, _ | .error _, ha, _, _ => by
    simp [CelValue.Plain] at ha
  | .null, _, b, hb | .bool _, _, b, hb | .int _, _, b, hb | .uint _, _, b, hb
  | .double _, _, b, hb | .string _, _, b, hb | .bytes _, _, b, hb | .type _, _, b, hb
  | .duration _, _, b, hb | .timestamp _, _, b, hb | .ip _, _, b, hb | .cidr _, _, b, hb =>
    equalityKernel_scalar_decides rfl hb
termination_by a => sizeOf a
decreasing_by
  · exact CelValue.sizeOf_element hmem
  · exact CelValue.sizeOf_value hmem

/-! ## Symmetry -/

/-- **`==` on plain values** gives one bool for both orders of the operands, for every order of the
entries of either side's maps and every way the two are stored; `!=` gives the other. -/
theorem celEquals_symmetric {a b : CelValue} (ha : a.Plain) (hb : b.Plain) :
    ∃ r : Bool,
      (celEquals (host.withHostEquality messagesEqual) a b).granted = .ok (.bool r) ∧
      (celEquals (host.withHostEquality messagesEqual) b a).granted = .ok (.bool r) ∧
      (celNotEquals (host.withHostEquality messagesEqual) a b).granted = .ok (.bool !r) ∧
      ∀ a' b' : CelValue, a'.Plain → b'.Plain → SameUpToOrder a a' → SameUpToOrder b b' →
        (celEquals (host.withHostEquality messagesEqual) a' b').granted = .ok (.bool r) := by
  obtain ⟨r, hr, hiff⟩ :=
    @equalityKernel_decides host messagesEqual a ha b hb
  have hsame : ∀ {c d : CelValue}, c.Plain → d.Plain →
      (c.datum.Equal d.datum ↔ a.datum.Equal b.datum) →
      (celEquals (host.withHostEquality messagesEqual) c d).granted = .ok (.bool r) := by
    intro c d hc hd hcd
    obtain ⟨s, hs, hiff'⟩ := @equalityKernel_decides host messagesEqual c hc d hd
    obtain rfl : s = r := Bool.eq_iff_iff.mpr (hiff'.trans (hcd.trans hiff.symm))
    exact hs
  refine ⟨r, hr, hsame hb ha ?_, ?_, fun a' b' ha' hb' haa' hbb' => hsame ha' hb' ?_⟩
  · exact ⟨fun h => h.symm hb.distinct ha.distinct, fun h => h.symm ha.distinct hb.distinct⟩
  · rw [celNotEquals, Prog.granted_bind, hr]
    rfl
  · have hback : SameUpToOrder a' a := haa'.swap (fun _ _ => Eq.symm) ha.distinct ha'.distinct
    have hback' : SameUpToOrder b' b := hbb'.swap (fun _ _ => Eq.symm) hb.distinct hb'.distinct
    exact ⟨fun h => haa'.equal hbb' h hb.distinct hb'.distinct,
      fun h => hback.equal hback' h hb'.distinct hb.distinct⟩

end Kernel

/-- The host map `{1: 'a', 2: 'b'}`. -/
def twoEntries : CelValue := .mapHost [(.int 1, .string [97]), (.int 2, .string [98])]

/-- The arena map of the same entries. -/
def twoCells (first second : CelValue × CelValue) : CelValue := .mapArena 2 [first, second] none

/-- The two maps compare alike in either order, also once the second is turned around. -/
theorem celEquals_symmetric_reordered :
    ∃ r : Bool,
      (celEquals (CelHost.stubs.withHostEquality (· == ·)) twoEntries
        (twoCells (.int 1, .string [97]) (.int 2, .string [98]))).granted = .ok (.bool r) ∧
      (celEquals (CelHost.stubs.withHostEquality (· == ·))
        (twoCells (.int 1, .string [97]) (.int 2, .string [98])) twoEntries).granted
          = .ok (.bool r) ∧
      (celEquals (CelHost.stubs.withHostEquality (· == ·)) twoEntries
        (twoCells (.int 2, .string [98]) (.int 1, .string [97]))).granted = .ok (.bool r) := by
  have hhost : twoEntries.Plain := by
    simp [twoEntries, CelValue.Plain, HostValue.Plain, HostValue.isValidMapKeyKind, hostKeyClass,
      HostValue.encoded, keyClass]
  have hcells : ∀ i j : Int64, i ≠ j → ∀ s t : List UInt8,
      (twoCells (.int i, .string s) (.int j, .string t)).Plain := fun i j hij s t => by
    simp [twoCells, CelValue.Plain, isValidMapKeyKind, keyClass, IndexedBy, Int64.toInt_inj, hij]
  obtain ⟨r, hab, hba, -, hreordered⟩ := @celEquals_symmetric .stubs (· == ·) _ _ hhost
    (hcells 1 2 (by decide) [97] [98])
  exact ⟨r, hab, hba, hreordered _ _ hhost (hcells 2 1 (by decide) [98] [97]) (.refl _)
    (sameUpToOrder_mapArena (.swap ..) ..)⟩

/-- **A key held twice makes the test one-sided**; so does an arena with no room for a scratch cell,
when one order of the operands meets a difference before the first container. -/
theorem celEquals_repeated_key :
    ((celEquals (CelHost.stubs.withHostEquality (· == ·))
      (.mapHost [(.int 1, .string [97]), (.int 1, .string [97])])
      (twoCells (.int 1, .string [97]) (.int 2, .string [98]))).granted = .ok (.bool true) ∧
      (celEquals (CelHost.stubs.withHostEquality (· == ·))
        (twoCells (.int 1, .string [97]) (.int 2, .string [98]))
        (.mapHost [(.int 1, .string [97]), (.int 1, .string [97])])).granted
          = .ok (.bool false)) ∧
    ((celEquals (CelHost.stubs.withHostEquality (· == ·))
      (twoCells (.int 1, .bool true) (.int 2, .listArena 0 []))
      (twoCells (.int 2, .listArena 0 []) (.int 1, .bool false))).run (fun _ => false) []
        = .ok (.bool false) ∧
      (celEquals (CelHost.stubs.withHostEquality (· == ·))
        (twoCells (.int 2, .listArena 0 []) (.int 1, .bool false))
        (twoCells (.int 1, .bool true) (.int 2, .listArena 0 []))).run (fun _ => false) []
          = .ok (.error .overflow)) :=
  ⟨⟨rfl, rfl⟩, rfl, rfl⟩

end CelWasm
