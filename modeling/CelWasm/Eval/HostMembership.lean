import CelWasm.Eval.HostEquality

/-!
# Eval/HostMembership — `in` on a host list against `==` on its elements

Membership compares the backing's own values with the query, indexing writes an element as a cell
first. A time is split with two different roundings on the two ways, so a list that holds a time
before the epoch, within a second, has a query on which they part.
-/

namespace CelWasm

/-! ## What backings hold -/

/-- A backing's value that can be written, to any depth: no unknown, and no type. -/
def HostValue.Deliverable : HostValue → Prop
  | .list elements => ∀ v ∈ elements, v.Deliverable
  | .map entries => ∀ e ∈ entries, e.1.Deliverable ∧ e.2.Deliverable
  | .unknown _ | .type _ => False
  | _ => True
termination_by v => sizeOf v
decreasing_by
  all_goals
    rename_i h
    have := List.sizeOf_lt_of_mem h
    first | (obtain ⟨key, value⟩ := e; simp at *; omega) | (simp; omega)

/-- A cell all of whose backings can be written. -/
def CelValue.Deliverable : CelValue → Prop
  | .listArena _ elements => ∀ v ∈ elements, v.Deliverable
  | .mapArena _ entries _ => ∀ e ∈ entries, e.1.Deliverable ∧ e.2.Deliverable
  | .listHost elements => (HostValue.list elements).Deliverable
  | .mapHost entries => (HostValue.map entries).Deliverable
  | _ => True
termination_by v => sizeOf v
decreasing_by
  all_goals
    rename_i h
    have := List.sizeOf_lt_of_mem h
    first | (obtain ⟨key, value⟩ := e; simp at *; omega) | (simp; omega)

/-- An element that can be read. -/
def Element.Deliverable : Element → Prop
  | cell v => v.Deliverable
  | backing v => v.Deliverable

theorem HostValue.Deliverable.encoded {v : HostValue} (h : v.Deliverable) :
    ∃ c, v.encoded = some c ∧ c.Deliverable := by
  cases v with
  | unknown ids => simp [HostValue.Deliverable] at h
  | type name => simp [HostValue.Deliverable] at h
  | list elements => exact ⟨_, rfl, by rwa [CelValue.Deliverable]⟩
  | map entries => exact ⟨_, rfl, by rwa [CelValue.Deliverable]⟩
  | _ => exact ⟨_, rfl, by simp [CelValue.Deliverable]⟩

theorem Element.Deliverable.read {y : Element} (h : y.Deliverable) :
    ∃ c, y.read.granted = .ok c ∧ c.Deliverable := by
  cases y with
  | cell v => exact ⟨v, rfl, h⟩
  | backing v =>
    obtain ⟨c, hc, hdeliverable⟩ := HostValue.Deliverable.encoded h
    exact ⟨c, granted_encodeValue_of_encoded hc, hdeliverable⟩

theorem CelValue.Deliverable.listElements {b : CelValue} (h : b.Deliverable) :
    ∀ y ∈ listElements b, y.Deliverable := by
  intro y hy
  cases b with
  | listArena capacity elements =>
    obtain ⟨v, hv, rfl⟩ := List.mem_map.mp hy
    rw [CelValue.Deliverable] at h
    exact h v hv
  | listHost elements =>
    obtain ⟨v, hv, rfl⟩ := List.mem_map.mp hy
    rw [CelValue.Deliverable, HostValue.Deliverable] at h
    exact h v hv
  | _ => exact nomatch hy

/-- The cells of a backing's entries can be written. -/
theorem HostValue.Deliverable.snapshot {entries : List (HostValue × HostValue)}
    (h : (HostValue.map entries).Deliverable) : ∃ cells,
      (snapshotMapEntries (.mapHost entries)).granted = .ok cells ∧ EncodedEntries entries cells ∧
        ∀ c ∈ cells, c.1.Deliverable ∧ c.2.Deliverable := by
  rw [HostValue.Deliverable] at h
  obtain ⟨cells, hcells, hencoded⟩ := granted_snapshot_mapHost fun e he =>
    ⟨(h e he).1.encoded.imp fun _ hk => hk.1, (h e he).2.encoded.imp fun _ hv => hv.1⟩
  refine ⟨cells, hcells, hencoded, hencoded.forall_mem fun e he c hk hv => ?_⟩
  obtain ⟨k, hk', hkd⟩ := (h e he).1.encoded
  obtain ⟨v, hv', hvd⟩ := (h e he).2.encoded
  exact ⟨Option.some.inj (hk.symm.trans hk') ▸ hkd, Option.some.inj (hv.symm.trans hv') ▸ hvd⟩

theorem CelValue.Deliverable.snapshot {b : CelValue} (h : b.Deliverable)
    (hmap : isMapShaped b = true) : ∃ cells, (snapshotMapEntries b).granted = .ok cells ∧
      cells.length = mapEntryCount b ∧ ∀ c ∈ cells, c.1.Deliverable ∧ c.2.Deliverable := by
  obtain ⟨capacity, entries, index, rfl⟩ | ⟨entries, rfl⟩ := isMapShaped_iff.mp hmap
  · rw [CelValue.Deliverable] at h
    exact ⟨entries, rfl, rfl, h⟩
  · rw [CelValue.Deliverable] at h
    obtain ⟨cells, hcells, hencoded, hd⟩ := h.snapshot
    exact ⟨cells, hcells, (List.Forall₂.length_eq hencoded).symm, hd⟩

/-! ## A comparison comes to a verdict -/

section Verdict

variable {messagesEqual : ℕ → ℕ → Bool}

theorem granted_and_verdict {first rest : Kernel Bool} {r : Bool} (hfirst : first.granted = .ok r)
    (hrest : ∃ s, rest.granted = .ok s) :
    ∃ s, (first >>= fun r => if r then rest else pure false).granted = .ok s := by
  rw [Prog.granted_bind, hfirst]
  cases r with
  | true => exact hrest
  | false => exact ⟨false, rfl⟩

theorem backingListEq_total : ∀ {elements : List HostValue} {ys : List Element},
    (∀ v ∈ elements, v.Deliverable ∧
      ∀ b, CelValue.Deliverable b → ∃ r, (backingValueEq messagesEqual v b).granted = .ok r) →
    (∀ y ∈ ys, y.Deliverable) →
    ∃ r, (backingListEq messagesEqual elements ys).granted = .ok r
  | [], _, _, _ => ⟨true, rfl⟩
  | _ :: _, [], _, _ => ⟨true, rfl⟩
  | v :: vs, y :: ys, hvs, hys => by
    rw [List.forall_mem_cons] at hvs hys
    obtain ⟨c, hc, -⟩ := hvs.1.1.encoded
    obtain ⟨b, hb, hbd⟩ := hys.1.read
    obtain ⟨r, hr⟩ := hvs.1.2 b hbd
    obtain ⟨s, hs⟩ := granted_and_verdict hr (backingListEq_total hvs.2 hys.2)
    refine ⟨s, ?_⟩
    rw [backingListEq, Prog.granted_bind, granted_encodeValue_of_encoded hc]
    change (y.read >>= _).granted = _
    rw [Prog.granted_bind, hb]
    exact hs

theorem backingMapEq_total {others : List (CelValue × CelValue)}
    (hothers : ∀ c ∈ others, c.1.Deliverable ∧ c.2.Deliverable) :
    ∀ {keys : List CelValue} {entries : List (HostValue × HostValue)},
    (∀ e ∈ entries, ∀ b, CelValue.Deliverable b →
      ∃ r, (backingValueEq messagesEqual e.2 b).granted = .ok r) →
    ∃ r, (backingMapEq messagesEqual others keys entries).granted = .ok r
  | [], [], _ | [], _ :: _, _ | _ :: _, [], _ => ⟨true, rfl⟩
  | key :: keys, (name, value) :: entries, h => by
    rw [List.forall_mem_cons] at h
    have hentry : ∃ r, (backingEntryMatches messagesEqual others key (name, value)).granted
        = .ok r := by
      rw [backingEntryMatches]
      cases hfind : others.find? fun e => hostMapKeyEq key e.1 with
      | none => exact ⟨false, rfl⟩
      | some e => exact h.1 e.2 (hothers e (List.mem_of_find?_eq_some hfind)).2
    obtain ⟨r, hr⟩ := hentry
    rw [backingMapEq]
    exact granted_and_verdict hr (backingMapEq_total hothers h.2)

/-- **The comparison of a backing's value comes to a verdict.** -/
theorem backingValueEq_total : ∀ (v : HostValue), v.Deliverable → ∀ b, CelValue.Deliverable b →
    ∃ r, (backingValueEq messagesEqual v b).granted = .ok r
  | .list elements, hv, b, hb => by
    rw [HostValue.Deliverable] at hv
    rw [backingValueEq]
    split_ifs
    · exact ⟨false, rfl⟩
    · exact ⟨false, rfl⟩
    · exact backingListEq_total
        (fun v hmem => ⟨hv v hmem, backingValueEq_total v (hv v hmem)⟩) hb.listElements
  | .map entries, hv, b, hb => by
    obtain ⟨cells, hcells, -, -⟩ := hv.snapshot
    rw [HostValue.Deliverable] at hv
    rw [backingValueEq]
    split_ifs with hmap
    · exact ⟨false, rfl⟩
    · exact ⟨false, rfl⟩
    · obtain ⟨others, hothers, -, hod⟩ := hb.snapshot (by simpa using hmap)
      obtain ⟨r, hr⟩ := @backingMapEq_total messagesEqual others hod (cells.map Prod.fst) entries
        fun e hmem => backingValueEq_total e.2 (hv e hmem).2
      refine ⟨r, ?_⟩
      rw [Prog.granted_bind, hcells]
      change (snapshotMapEntries b >>= _).granted = _
      rw [Prog.granted_bind, hothers]
      exact hr
  | .message m, _, b, _ => by cases b <;> exact ⟨_, rfl⟩
  | .unknown _, hv, _, _ | .type _, hv, _, _ => by simp [HostValue.Deliverable] at hv
  | .null, _, _, _ | .bool _, _, _, _ | .int _, _, _, _ | .uint _, _, _, _ | .double _, _, _, _
  | .string _, _, _, _ | .bytes _, _, _, _ | .duration _, _, _, _ | .timestamp _, _, _, _
  | .error _, _, _, _ => ⟨_, rfl⟩
termination_by v => sizeOf v
decreasing_by
  · exact HostValue.sizeOf_element hmem
  · exact HostValue.sizeOf_value hmem

end Verdict

/-! ## Seconds and nanoseconds against a query -/

theorem Int32.ofInt_eq_iff {z : ℤ} {n : Int32} (hlow : -2 ^ 31 ≤ z) (hhigh : z < 2 ^ 31) :
    Int32.ofInt z = n ↔ z = n.toInt := by
  rw [← Int32.toInt_inj, Int32.toInt_ofInt_of_le hlow hhigh]

/-- A pair in range matches the query it is written as. -/
theorem pair_beq {s : Int64} {z : ℤ} {q : CelDurTs} (hlow : -2 ^ 31 ≤ z) (hhigh : z < 2 ^ 31) :
    (s == q.seconds && z == q.nanos.toInt)
      = (({ seconds := s, nanos := Int32.ofInt z } : CelDurTs) == q) := by
  obtain ⟨seconds, nanos⟩ := q
  rw [Bool.eq_iff_iff, Bool.and_eq_true, beq_iff_eq, beq_iff_eq, beq_iff_eq, CelDurTs.mk.injEq,
    Int32.ofInt_eq_iff hlow hhigh]

section Times

variable {hi : Int64} {lo : Fin 4000000000} {q : CelDurTs}

/-- A finite duration is split alike for a comparison and for the wire. -/
theorem temporalBackingEqualsQuery_duration :
    temporalBackingEqualsQuery (.duration (.finite hi lo)) (.duration q)
      = (decomposeAbslDuration (.finite hi lo) == q) := by
  have hlo := lo.isLt
  rw [temporalBackingEqualsQuery, AbslDuration.toInt64Seconds]
  by_cases h : hi < 0 ∧ lo ≠ 0
  · have hneg : hi.toInt < 0 := Int64.lt_iff_toInt_lt.mp h.1
    have hlow := hi.le_toInt
    have hsucc : (hi + 1).toInt = hi.toInt + 1 := by
      rw [Int64.toInt_add, Int.bmod_eq_of_le] <;> simp <;> omega
    have hdiff : AbslDuration.ticks hi lo - AbslDuration.ticks (hi + 1) 0
        = AbslDuration.ticks (-1) lo := by
      have hone : (-1 : Int64).toInt = -1 := rfl
      rw [AbslDuration.ticks, AbslDuration.ticks, AbslDuration.ticks, hsucc, hone, Fin.val_zero]
      omega
    rw [if_pos h, AbslDuration.ofSeconds, AbslDuration.sub, hdiff, AbslDuration.ofTicks_ticks,
      AbslDuration.toInt64Nanoseconds_neg, pair_beq (by omega) (by omega),
      decomposeAbslDuration_of_fraction hneg h.2]
  · have hwhole : 0 ≤ hi.toInt ∨ lo = 0 := by
      rw [Int64.lt_iff_toInt_lt] at h
      by_cases hzero : lo = 0
      · exact .inr hzero
      · exact .inl (not_lt.mp fun hneg => h ⟨hneg, hzero⟩)
    have hdiff : AbslDuration.ticks hi lo - AbslDuration.ticks hi 0 = lo.val := by
      simp [AbslDuration.ticks]
    rw [if_neg h, AbslDuration.ofSeconds, AbslDuration.sub, hdiff, AbslDuration.ofTicks_lo,
      AbslDuration.toInt64Nanoseconds_lo, pair_beq (by omega) (by omega),
      decomposeAbslDuration_of_whole hwhole]

/-- A time is compared as the second it is in and the nanoseconds past it. -/
theorem temporalBackingEqualsQuery_timestamp :
    temporalBackingEqualsQuery (.timestamp (.finite hi lo)) (.timestamp q)
      = (({ seconds := hi, nanos := Int32.ofInt (lo.val / 4 : ℕ) } : CelDurTs) == q) := by
  have hlo := lo.isLt
  rw [temporalBackingEqualsQuery, AbslDuration.toInt64Nanoseconds_sub_toUnixSeconds,
    AbslDuration.toUnixSeconds, pair_beq (by omega) (by omega)]

/-- Only an instant from the epoch on has nanoseconds past its second on the wire. -/
theorem seconds_nonneg_of_nanos_pos {t : AbslTime}
    (h : 0 < (decomposeAbslDuration t).nanos.toInt) :
    0 ≤ (decomposeAbslDuration t).seconds.toInt := by
  match t with
  | .infinite true => exact absurd h (by decide)
  | .infinite false => decide
  | .finite hi lo =>
    have hlo := lo.isLt
    by_cases hneg : hi.toInt < 0 ∧ lo ≠ 0
    · rw [decomposeAbslDuration_of_fraction hneg.1 hneg.2] at h
      simp only [Int32.toInt_ofInt_of_le (show (-2 : ℤ) ^ 31 ≤ -((4000000000 - lo.val) / 4 : ℕ) by omega)
        (by omega)] at h
      omega
    · have hwhole : 0 ≤ hi.toInt ∨ lo = 0 := by
        by_cases hzero : lo = 0
        · exact .inr hzero
        · exact .inl (not_lt.mp fun h => hneg ⟨h, hzero⟩)
      rw [decomposeAbslDuration_of_whole hwhole] at h ⊢
      obtain hpos | rfl := hwhole
      · exact hpos
      · have hzero : Int32.ofInt ((0 : Fin 4000000000).val / 4 : ℕ) = 0 := rfl
        simp only [hzero, Int32.toInt_zero, lt_irrefl] at h

end Times

/-! ## Membership and indexing -/

section Membership

variable (messagesEqual : ℕ → ℕ → Bool)

/-- `list[i] == query`: the element is written as a cell, and the cells are compared. -/
def elementEqualsQuery (v : HostValue) (query : CelValue) : Kernel Bool := do
  let cell ← encodeValue v
  wireValueEq messagesEqual cell query

/-- **An element that membership and indexing read as different times**: an instant before the epoch
within a second, or an infinity, unless the instant its cell denotes is in the list too. -/
def HostValue.Misread (elements : List HostValue) : HostValue → Prop
  | .timestamp (.finite hi lo) => hi.toInt < 0 ∧ lo ≠ 0
  | .timestamp (.infinite negative) =>
    ¬(negative = true ∧ .timestamp (.ofSeconds Int64.minValue) ∈ elements)
  | .duration (.infinite negative) =>
    ¬(negative = true ∧ .duration (.ofSeconds Int64.minValue) ∈ elements)
  | _ => False

/-- A time no comparison can split in two. -/
def HostValue.SplitsAlike : HostValue → Prop
  | .timestamp (.finite hi lo) => 0 ≤ hi.toInt ∨ lo = 0
  | .timestamp (.infinite _) | .duration (.infinite _) => False
  | _ => True

variable {messagesEqual} {v : HostValue} {query : CelValue}

theorem granted_elementEqualsQuery {cell : CelValue} (h : v.encoded = some cell) :
    (elementEqualsQuery messagesEqual v query).granted
      = (wireValueEq messagesEqual cell query).granted := by
  rw [elementEqualsQuery, Prog.granted_bind, granted_encodeValue_of_encoded h]
  rfl

/-- **Membership compares an element as `==` does**, times aside. -/
theorem granted_backingValueEqualsQuery (hv : v.Deliverable) (h : v.SplitsAlike) :
    (backingValueEqualsQuery messagesEqual v query).granted
      = (elementEqualsQuery messagesEqual v query).granted := by
  cases v with
  | message slot => rfl
  | list elements => rfl
  | map entries => rfl
  | unknown ids => simp [HostValue.Deliverable] at hv
  | type name => simp [HostValue.Deliverable] at hv
  | duration d =>
    obtain negative | ⟨hi, lo⟩ := d
    · exact h.elim
    · rw [granted_elementEqualsQuery rfl]
      cases query with
      | duration q => exact congrArg Except.ok temporalBackingEqualsQuery_duration
      | _ => rfl
  | timestamp t =>
    obtain negative | ⟨hi, lo⟩ := t
    · exact h.elim
    · rw [granted_elementEqualsQuery rfl, decomposeAbslDuration_of_whole h]
      cases query with
      | timestamp q => exact congrArg Except.ok temporalBackingEqualsQuery_timestamp
      | _ => rfl
  | bool a =>
    rw [granted_elementEqualsQuery rfl]
    cases query with
    | bool b => exact congrArg Except.ok Bool.beq_comm
    | _ => rfl
  | string a =>
    rw [granted_elementEqualsQuery rfl]
    cases query with
    | string b => exact congrArg Except.ok Bool.beq_comm
    | _ => rfl
  | bytes a =>
    rw [granted_elementEqualsQuery rfl]
    cases query with
    | bytes b => exact congrArg Except.ok Bool.beq_comm
    | _ => rfl
  | null | int a | uint a | double a | error code =>
    rw [granted_elementEqualsQuery rfl]
    cases query <;> rfl

theorem elementEqualsQuery_total (hv : v.Deliverable) (hquery : query.Deliverable) :
    ∃ r, (elementEqualsQuery messagesEqual v query).granted = .ok r := by
  obtain ⟨cell, hcell, -⟩ := hv.encoded
  obtain ⟨r, hr⟩ := @backingValueEq_total messagesEqual v hv query hquery
  rw [granted_elementEqualsQuery hcell]
  cases v with
  | unknown ids => exact nomatch hcell
  | type name => exact nomatch hcell
  | list elements | map entries => exact ⟨r, Option.some.inj hcell ▸ hr⟩
  | message slot =>
    obtain rfl := Option.some.inj hcell
    cases query <;> exact ⟨_, rfl⟩
  | _ =>
    obtain rfl := Option.some.inj hcell
    exact ⟨_, rfl⟩

/-- A time that is split two ways is no container, and membership does not write it. -/
theorem backingValueEqualsQuery_total (hv : v.Deliverable) (hquery : query.Deliverable) :
    ∃ r, (backingValueEqualsQuery messagesEqual v query).granted = .ok r := by
  by_cases h : v.SplitsAlike
  · rw [granted_backingValueEqualsQuery hv h]
    exact elementEqualsQuery_total hv hquery
  · cases v with
    | duration d => exact ⟨_, rfl⟩
    | timestamp t => exact ⟨_, rfl⟩
    | _ => exact (h trivial).elim

/-- **`in` finds what it compares equal to an element**, one element after another. -/
theorem granted_foldlM_visitElement : ∀ {elements : List HostValue} (found : Bool),
    (∀ v ∈ elements, ∃ r, (backingValueEqualsQuery messagesEqual v query).granted = .ok r) →
    ∃ r, (elements.foldlM (visitElement messagesEqual query) found).granted = .ok r ∧
      (r = true ↔ found = true ∨
        ∃ v ∈ elements, (backingValueEqualsQuery messagesEqual v query).granted = .ok true)
  | [], found, _ => ⟨found, rfl, by simp⟩
  | v :: elements, found, h => by
    rw [List.forall_mem_cons] at h
    obtain ⟨s, hs⟩ := h.1
    obtain ⟨r, hr, hiff⟩ := granted_foldlM_visitElement (found || s) h.2
    have hvisit : (visitElement messagesEqual query found v).granted = .ok (found || s) := by
      cases found with
      | true => rfl
      | false => exact hs
    refine ⟨r, ?_, ?_⟩
    · rw [List.foldlM_cons, Prog.granted_bind, hvisit]
      exact hr
    · simp [hiff, hs, or_assoc]

theorem celListInImpl_eq_true_iff {elements : List HostValue} (hlive : query.isPoison = false)
    (htotal : ∀ v ∈ elements, ∃ r, (backingValueEqualsQuery messagesEqual v query).granted = .ok r) :
    (celListInImpl messagesEqual query (.listHost elements)).granted = .ok (.bool true) ↔
      ∃ v ∈ elements, (backingValueEqualsQuery messagesEqual v query).granted = .ok true := by
  have hbody : celListInImpl messagesEqual query (.listHost elements)
      = CelValue.bool <$> elements.foldlM (visitElement messagesEqual query) false := by
    cases query <;> first | rfl | simp [CelValue.isPoison] at hlive
  obtain ⟨r, hr, hiff⟩ := granted_foldlM_visitElement false htotal
  rw [hbody, map_eq_pure_bind, Prog.granted_bind, hr]
  change Except.ok (CelValue.bool r) = Except.ok (.bool true) ↔ _
  simpa using hiff

/-- Nothing equals a poisoned query. -/
theorem element_ne_poison (hlive : query.isPoison = true) :
    (elementEqualsQuery messagesEqual v query).granted ≠ .ok true := by
  intro h
  obtain ⟨e, rfl⟩ | ⟨s, rfl⟩ := CelValue.isPoison_iff.mp hlive <;> cases v with
  | unknown ids => exact nomatch h
  | type name => exact nomatch h
  | _ => exact nomatch (Except.ok.inj h : false = true)

/-! ## The times the two read apart -/

section Apart

variable {elements : List HostValue} {q : CelDurTs}

/-- An infinity is no pair. -/
theorem infinite_nanos (negative : Bool) (s : Int64) (n : Int32) :
    (((AbslDuration.infinite negative).sub (.ofSeconds s)).toInt64Nanoseconds == n.toInt) = false := by
  have hlow := n.le_toInt
  have hhigh := n.toInt_lt
  rw [beq_eq_false_iff_ne]
  cases negative with
  | true =>
    change (-2 ^ 63 : ℤ) ≠ _
    omega
  | false =>
    change (2 ^ 63 - 1 : ℤ) ≠ _
    omega

/-- What `in` finds for a time is an instant of that second and those nanoseconds. -/
theorem eq_of_backing_timestamp
    (h : (backingValueEqualsQuery messagesEqual v (.timestamp q)).granted = .ok true) :
    ∃ hi lo, v = .timestamp (.finite hi lo) ∧ hi = q.seconds ∧
      (lo.val / 4 : ℕ) = q.nanos.toInt := by
  cases v with
  | timestamp t =>
    cases t with
    | finite hi lo =>
      have hlo := lo.isLt
      refine ⟨hi, lo, rfl, ?_⟩
      rw [backingValueEqualsQuery, temporalBackingEqualsQuery,
        AbslDuration.toInt64Nanoseconds_sub_toUnixSeconds, AbslDuration.toUnixSeconds] at h
      simpa using Except.ok.inj h
    | infinite negative =>
      rw [backingValueEqualsQuery, temporalBackingEqualsQuery, infinite_nanos, Bool.and_false] at h
      cases Except.ok.inj h
  | _ => cases (Except.ok.inj h : false = true)

theorem eq_of_backing_duration
    (h : (backingValueEqualsQuery messagesEqual v (.duration q)).granted = .ok true) :
    ∃ hi lo, v = .duration (.finite hi lo) ∧ decomposeAbslDuration (.finite hi lo) = q := by
  cases v with
  | duration d =>
    cases d with
    | finite hi lo =>
      refine ⟨hi, lo, rfl, ?_⟩
      rw [backingValueEqualsQuery, temporalBackingEqualsQuery_duration] at h
      exact beq_iff_eq.mp (Except.ok.inj h)
    | infinite negative =>
      rw [backingValueEqualsQuery, temporalBackingEqualsQuery, infinite_nanos, Bool.and_false] at h
      exact nomatch Except.ok.inj h
  | _ => exact nomatch (Except.ok.inj h : false = true)

/-- What `==` finds for a time is a time written as that cell. -/
theorem element_timestamp_iff :
    (elementEqualsQuery messagesEqual v (.timestamp q)).granted = .ok true ↔
      ∃ t, v = .timestamp t ∧ decomposeAbslDuration t = q := by
  refine ⟨fun h => ?_, ?_⟩
  · cases v with
    | timestamp t =>
      rw [granted_elementEqualsQuery rfl] at h
      exact ⟨t, rfl, beq_iff_eq.mp (Except.ok.inj h)⟩
    | unknown ids => exact nomatch h
    | type name => exact nomatch h
    | _ => exact nomatch (Except.ok.inj h : false = true)
  · rintro ⟨t, rfl, rfl⟩
    rw [granted_elementEqualsQuery rfl]
    exact congrArg Except.ok (beq_self_eq_true (decomposeAbslDuration t))

theorem element_duration_self (d : AbslDuration) :
    (elementEqualsQuery messagesEqual (.duration d) (.duration (decomposeAbslDuration d))).granted
      = .ok true := by
  rw [granted_elementEqualsQuery rfl]
  exact congrArg Except.ok (beq_self_eq_true (decomposeAbslDuration d))

/-- **An instant before the epoch within a second is read apart**: by the cell it is written as when
that has nanoseconds back from a second, by the pair `in` compares otherwise. -/
theorem reads_apart_of_fraction {hi : Int64} {lo : Fin 4000000000}
    (hmem : HostValue.timestamp (.finite hi lo) ∈ elements) (hneg : hi.toInt < 0) (hlo : lo ≠ 0) :
    ∃ query, query.Deliverable ∧ query.isPoison = false ∧
      ¬((∃ v ∈ elements, (backingValueEqualsQuery messagesEqual v query).granted = .ok true) ↔
        ∃ v ∈ elements, (elementEqualsQuery messagesEqual v query).granted = .ok true) := by
  have hlt := lo.isLt
  by_cases hback : lo.val ≤ 3999999996
  · refine ⟨.timestamp (decomposeAbslDuration (.finite hi lo)), by simp [CelValue.Deliverable], rfl,
      fun hiff => ?_⟩
    obtain ⟨v, -, hv⟩ := hiff.mpr ⟨_, hmem, element_timestamp_iff.mpr ⟨_, rfl, rfl⟩⟩
    obtain ⟨hi', lo', -, -, hnanos⟩ := eq_of_backing_timestamp hv
    rw [decomposeAbslDuration_of_fraction hneg hlo] at hnanos
    simp only [Int32.toInt_ofInt_of_le
      (show (-2 : ℤ) ^ 31 ≤ -((4000000000 - lo.val) / 4 : ℕ) by omega) (by omega)] at hnanos
    omega
  · refine ⟨.timestamp { seconds := hi, nanos := Int32.ofInt (lo.val / 4 : ℕ) },
      by simp [CelValue.Deliverable], rfl, fun hiff => ?_⟩
    have hfound : (backingValueEqualsQuery messagesEqual (.timestamp (.finite hi lo))
        (.timestamp { seconds := hi, nanos := Int32.ofInt (lo.val / 4 : ℕ) })).granted
        = .ok true := by
      rw [backingValueEqualsQuery, temporalBackingEqualsQuery_timestamp, beq_self_eq_true]
      rfl
    obtain ⟨v, -, hv⟩ := hiff.mp ⟨_, hmem, hfound⟩
    obtain ⟨t, -, ht⟩ := element_timestamp_iff.mp hv
    have hnonneg := @seconds_nonneg_of_nanos_pos t
    simp only [ht, Int32.toInt_ofInt_of_le (show (-2 : ℤ) ^ 31 ≤ (lo.val / 4 : ℕ) by omega)
      (show ((lo.val / 4 : ℕ) : ℤ) < 2 ^ 31 by omega)] at hnonneg
    omega

/-- Of the finite durations only the least is written as an infinity is. -/
theorem eq_of_decompose_infinite {hi : Int64} {lo : Fin 4000000000} {negative : Bool}
    (h : decomposeAbslDuration (.finite hi lo) = decomposeAbslDuration (.infinite negative)) :
    negative = true ∧ hi = Int64.minValue ∧ lo = 0 := by
  have hlow := hi.le_toInt
  have hlt := lo.isLt
  rw [decomposeAbslDuration_infinite] at h
  by_cases hfraction : hi.toInt < 0 ∧ lo ≠ 0
  · have hsucc : (hi + 1).toInt = hi.toInt + 1 := by
      rw [Int64.toInt_add, Int.bmod_eq_of_le] <;> simp <;> omega
    rw [decomposeAbslDuration_of_fraction hfraction.1 hfraction.2] at h
    have hseconds := congrArg (fun pair => pair.seconds.toInt) h
    simp only [hsucc] at hseconds
    cases negative with
    | false =>
      have hmax : Int64.maxValue.toInt = 2 ^ 63 - 1 := rfl
      simp only [Bool.false_eq_true, if_false, hmax] at hseconds
      omega
    | true =>
      have hmin : Int64.minValue.toInt = -2 ^ 63 := rfl
      simp only [if_true, hmin] at hseconds
      omega
  · have hwhole : 0 ≤ hi.toInt ∨ lo = 0 := by
      by_cases hzero : lo = 0
      · exact .inr hzero
      · exact .inl (not_lt.mp fun hneg => hfraction ⟨hneg, hzero⟩)
    rw [decomposeAbslDuration_of_whole hwhole] at h
    cases negative with
    | false =>
      have hnanos := congrArg (fun pair => pair.nanos.toInt) h
      simp only [Int32.toInt_ofInt_of_le (show (-2 : ℤ) ^ 31 ≤ (lo.val / 4 : ℕ) by omega)
        (show ((lo.val / 4 : ℕ) : ℤ) < 2 ^ 31 by omega)] at hnanos
      exact absurd hnanos (by simp; omega)
    | true =>
      obtain rfl : hi = Int64.minValue := congrArg CelDurTs.seconds h
      exact ⟨rfl, rfl, hwhole.resolve_left (by decide)⟩

/-- **Every element read apart has a query that tells**. -/
theorem reads_apart_of_misread (hmem : v ∈ elements) (h : v.Misread elements) :
    ∃ query, query.Deliverable ∧ query.isPoison = false ∧
      ¬((∃ v ∈ elements, (backingValueEqualsQuery messagesEqual v query).granted = .ok true) ↔
        ∃ v ∈ elements, (elementEqualsQuery messagesEqual v query).granted = .ok true) := by
  match v, h with
  | .timestamp (.finite hi lo), h => exact reads_apart_of_fraction hmem h.1 h.2
  | .timestamp (.infinite negative), h =>
    by_cases hfraction : ∃ hi lo, HostValue.timestamp (.finite hi lo) ∈ elements ∧
        hi.toInt < 0 ∧ lo ≠ 0
    · obtain ⟨hi, lo, hmem', hneg, hlo⟩ := hfraction
      exact reads_apart_of_fraction hmem' hneg hlo
    · refine ⟨.timestamp (decomposeAbslDuration (.infinite negative)),
        by simp [CelValue.Deliverable], rfl, fun hiff => ?_⟩
      obtain ⟨v, hmem', hv⟩ := hiff.mpr ⟨_, hmem, element_timestamp_iff.mpr ⟨_, rfl, rfl⟩⟩
      obtain ⟨hi, lo, rfl, hseconds, hnanos⟩ := eq_of_backing_timestamp hv
      rw [decomposeAbslDuration_infinite] at hseconds hnanos
      cases negative with
      | false => exact absurd hnanos (by simp; omega)
      | true =>
        obtain rfl : hi = Int64.minValue := hseconds
        by_cases hlo : lo = 0
        · subst hlo
          exact h ⟨rfl, hmem'⟩
        · exact hfraction ⟨_, lo, hmem', by decide, hlo⟩
  | .duration (.infinite negative), h =>
    refine ⟨.duration (decomposeAbslDuration (.infinite negative)),
      by simp [CelValue.Deliverable], rfl, fun hiff => ?_⟩
    obtain ⟨v, hmem', hv⟩ := hiff.mpr ⟨_, hmem, element_duration_self _⟩
    obtain ⟨hi, lo, rfl, hpair⟩ := eq_of_backing_duration hv
    obtain ⟨rfl, rfl, rfl⟩ := eq_of_decompose_infinite hpair
    exact h ⟨rfl, hmem'⟩

theorem splitsAlike_or_of_not_misread (h : ¬v.Misread elements) : v.SplitsAlike ∨
    (v = .timestamp (.infinite true) ∧ .timestamp (.ofSeconds Int64.minValue) ∈ elements) ∨
    (v = .duration (.infinite true) ∧ .duration (.ofSeconds Int64.minValue) ∈ elements) := by
  match v with
  | .timestamp (.finite hi lo) =>
    refine .inl ?_
    by_cases hlo : lo = 0
    · exact .inr hlo
    · exact .inl (not_lt.mp fun hneg => h ⟨hneg, hlo⟩)
  | .timestamp (.infinite negative) =>
    obtain ⟨rfl, hmem⟩ := not_not.mp h
    exact .inr (.inl ⟨rfl, hmem⟩)
  | .duration (.infinite negative) =>
    obtain ⟨rfl, hmem⟩ := not_not.mp h
    exact .inr (.inr ⟨rfl, hmem⟩)
  | .duration (.finite hi lo) => exact .inl trivial
  | .null | .bool _ | .int _ | .uint _ | .double _ | .string _ | .bytes _ | .list _ | .map _
  | .message _ | .type _ | .unknown _ | .error _ => exact .inl trivial

theorem backing_infinite_ne_true (negative : Bool) :
    (backingValueEqualsQuery messagesEqual (.timestamp (.infinite negative)) query).granted
        ≠ .ok true ∧
      (backingValueEqualsQuery messagesEqual (.duration (.infinite negative)) query).granted
        ≠ .ok true := by
  refine ⟨fun h => ?_, fun h => ?_⟩
  · cases query with
    | timestamp q =>
      obtain ⟨hi, lo, hfinite, -⟩ := eq_of_backing_timestamp h
      exact nomatch hfinite
    | _ => exact nomatch (Except.ok.inj h : false = true)
  · cases query with
    | duration q =>
      obtain ⟨hi, lo, hfinite, -⟩ := eq_of_backing_duration h
      exact nomatch hfinite
    | _ => exact nomatch (Except.ok.inj h : false = true)

/-- The least instant is found by the query the negative infinity is written as. -/
theorem backing_least_of_infinite :
    ((elementEqualsQuery messagesEqual (.timestamp (.infinite true)) query).granted = .ok true →
      (backingValueEqualsQuery messagesEqual (.timestamp (.ofSeconds Int64.minValue)) query).granted
        = .ok true) ∧
    ((elementEqualsQuery messagesEqual (.duration (.infinite true)) query).granted = .ok true →
      (backingValueEqualsQuery messagesEqual (.duration (.ofSeconds Int64.minValue)) query).granted
        = .ok true) := by
  have hwritten : decomposeAbslDuration (.infinite true)
      = decomposeAbslDuration (.ofSeconds Int64.minValue) := by
    rw [decomposeAbslDuration_infinite, AbslDuration.ofSeconds,
      decomposeAbslDuration_of_whole (.inr rfl)]
    rfl
  refine ⟨fun h => ?_, fun h => ?_⟩
  · rw [granted_elementEqualsQuery rfl, hwritten] at h
    have hsplit : (HostValue.timestamp (.ofSeconds Int64.minValue)).SplitsAlike := .inr rfl
    rw [granted_backingValueEqualsQuery (by simp [HostValue.Deliverable]) hsplit]
    exact (granted_elementEqualsQuery rfl).trans h
  · rw [granted_elementEqualsQuery rfl, hwritten] at h
    have hsplit : (HostValue.duration (.ofSeconds Int64.minValue)).SplitsAlike := trivial
    rw [granted_backingValueEqualsQuery (by simp [HostValue.Deliverable]) hsplit]
    exact (granted_elementEqualsQuery rfl).trans h

/-- **In a list with nothing read apart, membership and indexing find alike.** An infinity is only
ever found by indexing, and stands beside the instant it is written as. -/
theorem found_iff_of_not_misread (hd : ∀ v ∈ elements, v.Deliverable)
    (hread : ∀ v ∈ elements, ¬v.Misread elements) :
    (∃ v ∈ elements, (backingValueEqualsQuery messagesEqual v query).granted = .ok true) ↔
      ∃ v ∈ elements, (elementEqualsQuery messagesEqual v query).granted = .ok true := by
  constructor
  · rintro ⟨v, hmem, hv⟩
    obtain hsplit | ⟨rfl, -⟩ | ⟨rfl, -⟩ := splitsAlike_or_of_not_misread (hread v hmem)
    · exact ⟨v, hmem, granted_backingValueEqualsQuery (hd v hmem) hsplit ▸ hv⟩
    · exact absurd hv (backing_infinite_ne_true true).1
    · exact absurd hv (backing_infinite_ne_true true).2
  · rintro ⟨v, hmem, hv⟩
    obtain hsplit | ⟨rfl, hleast⟩ | ⟨rfl, hleast⟩ := splitsAlike_or_of_not_misread (hread v hmem)
    · exact ⟨v, hmem, (granted_backingValueEqualsQuery (hd v hmem) hsplit).trans hv⟩
    · exact ⟨_, hleast, backing_least_of_infinite.1 hv⟩
    · exact ⟨_, hleast, backing_least_of_infinite.2 hv⟩

/-- **Membership in a host list agrees with equality of its elements**, for every query, if and only
if no element is read apart. -/
theorem celListIn_agrees_iff (hd : ∀ v ∈ elements, v.Deliverable) :
    (∀ query : CelValue, query.Deliverable →
      ((celListInImpl messagesEqual query (.listHost elements)).granted = .ok (.bool true) ↔
        ∃ i : Fin elements.length,
          (elementEqualsQuery messagesEqual elements[i] query).granted = .ok true)) ↔
    ∀ v ∈ elements, ¬v.Misread elements := by
  have hindex : ∀ query, (∃ i : Fin elements.length,
      (elementEqualsQuery messagesEqual elements[i] query).granted = .ok true) ↔
      ∃ v ∈ elements, (elementEqualsQuery messagesEqual v query).granted = .ok true :=
    fun query => by simp [List.exists_mem_iff_getElem, Fin.exists_iff]
  have hin : ∀ query : CelValue, query.Deliverable → query.isPoison = false →
      ((celListInImpl messagesEqual query (.listHost elements)).granted = .ok (.bool true) ↔
        ∃ v ∈ elements, (backingValueEqualsQuery messagesEqual v query).granted = .ok true) :=
    fun query hquery hlive => celListInImpl_eq_true_iff hlive fun v hv =>
      backingValueEqualsQuery_total (hd v hv) hquery
  constructor
  · intro hagree v hmem hmisread
    obtain ⟨query, hquery, hlive, hapart⟩ := @reads_apart_of_misread messagesEqual v _ hmem hmisread
    exact hapart ((hin query hquery hlive).symm.trans ((hagree query hquery).trans (hindex query)))
  · intro hread query hquery
    rw [hindex query]
    cases hlive : query.isPoison with
    | true =>
      refine iff_of_false (fun hfound => ?_) ?_
      · obtain ⟨e, rfl⟩ | ⟨s, rfl⟩ := CelValue.isPoison_iff.mp hlive
        · exact nomatch Except.ok.inj hfound
        · exact nomatch Except.ok.inj hfound
      · rintro ⟨v, -, hv⟩
        exact element_ne_poison hlive hv
    | false =>
      rw [hin query hquery hlive]
      exact found_iff_of_not_misread hd hread

end Apart

/-- In the list of the epoch nothing is read apart, and the list holds what its element equals. -/
theorem celListIn_agrees_epoch :
    ¬(HostValue.timestamp (.ofSeconds 0)).Misread [.timestamp (.ofSeconds 0)] ∧
      ∀ query : CelValue, query.Deliverable →
        ((celListInImpl (· == ·) query (.listHost [.timestamp (.ofSeconds 0)])).granted
            = .ok (.bool true) ↔
          ∃ i : Fin [HostValue.timestamp (.ofSeconds 0)].length,
            (elementEqualsQuery (· == ·) [HostValue.timestamp (.ofSeconds 0)][i] query).granted
              = .ok true) := by
  have hread : ¬(HostValue.timestamp (.ofSeconds 0)).Misread [.timestamp (.ofSeconds 0)] := by
    simp [AbslDuration.ofSeconds, HostValue.Misread]
  exact ⟨hread, (celListIn_agrees_iff (by simp [HostValue.Deliverable])).mpr (by simpa using hread)⟩

end Membership

/-- Half a second before the epoch, as a backing holds it. -/
def halfBefore : HostValue := .timestamp (.finite (-1) 2000000000)

/-- **Half a second before the epoch is not found in the list that holds it**, though the element it
is read as equals the query. -/
theorem celListIn_misses_fraction :
    (encodeValue halfBefore).granted = .ok (.timestamp { seconds := 0, nanos := -500000000 }) ∧
      (elementEqualsQuery (· == ·) halfBefore
        (.timestamp { seconds := 0, nanos := -500000000 })).granted = .ok true ∧
      (celListInImpl (· == ·) (.timestamp { seconds := 0, nanos := -500000000 })
        (.listHost [halfBefore])).granted = .ok (.bool false) := by
  have hcell : halfBefore.encoded = some (.timestamp { seconds := 0, nanos := -500000000 }) := by
    rw [halfBefore, HostValue.encoded, decomposeAbslDuration_of_fraction (by decide) (by decide)]
    rfl
  refine ⟨granted_encodeValue_of_encoded hcell, ?_, ?_⟩
  · rw [granted_elementEqualsQuery hcell]
    rfl
  · rfl

end CelWasm
