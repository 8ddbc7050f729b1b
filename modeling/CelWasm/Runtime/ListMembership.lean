import CelWasm.Runtime.Equality

/-!
# Runtime/ListMembership — `in` on an arena list against `==` on its elements

A number, a string and a bool are looked for by scans of their own, which compare payloads; the rest is
looked for by deep comparison, whose verdict lands in a scratch cell. All of them come to the same
question, asked of one element after another until the answer is yes:

    e₀ == v?   e₁ == v?   …   eᵢ == v ── yes ──▸ true

A comparison that stops on the way takes the evaluation with it.
-/

namespace CelWasm

section Scans

variable (host : CelHost)

/-! ## The scans by kind -/

/-- The payloads of two numbers of a kind compare as the ladder does. -/
theorem numericCompareKernel_same :
    (∀ x y : Int64, (numericCompareKernel (.int x) (.int y) == .equal) = (x == y)) ∧
    (∀ x y : UInt64, (numericCompareKernel (.uint x) (.uint y) == .equal) = (x == y)) ∧
    ∀ x y : Binary64, (numericCompareKernel (.double x) (.double y) == .equal) = x.eq y := by
  refine ⟨fun x y => ?_, fun x y => ?_, fun x y => ?_⟩
  · rw [Bool.eq_iff_iff, beq_iff_eq, beq_iff_eq]
    exact cmpI64_eq_equal
  · rw [Bool.eq_iff_iff, beq_iff_eq, beq_iff_eq]
    exact cmpU64_eq_equal
  · rw [Bool.eq_iff_iff, beq_iff_eq, Binary64.eq_iff, numericCompareKernel, cmpDouble,
      Binary64.lt, Binary64.lt]
    cases x.isNaN <;> cases y.isNaN <;> simp
    split_ifs <;> simp <;> omega

theorem scanNumeric_eq (needle e : CelValue) (h : isNumericKind needle = true) :
    scanNumeric needle e = (isNumericKind e && numericCompareKernel e needle == .equal) := by
  obtain ⟨hint, huint, hdouble⟩ := numericCompareKernel_same
  cases needle with
  | int y =>
    cases e with
    | int x => exact (hint x y).symm
    | _ => rfl
  | uint y =>
    cases e with
    | uint x => exact (huint x y).symm
    | _ => rfl
  | double y =>
    cases e with
    | double x => exact (hdouble x y).symm
    | _ => rfl
  | _ => exact nomatch h

/-- **What `==` makes of an element and a number**: poison is handed on, and the rest is the scan. -/
theorem equalityKernel_numeric {needle : CelValue} (h : isNumericKind needle = true) (e : CelValue) :
    equalityKernel host e needle
      = return if e.isPoison then e else .bool (scanNumeric needle e) := by
  rw [scanNumeric_eq needle e h]
  cases needle with
  | int _ | uint _ | double _ => cases e <;> rfl
  | _ => exact nomatch h

/-- …of an element and a string. -/
theorem equalityKernel_string (needle : List UInt8) (e : CelValue) :
    equalityKernel host e (.string needle)
      = return if e.isPoison then e else .bool (scanString needle e) := by
  cases e <;> rfl

/-- …of an element and a bool. -/
theorem equalityKernel_bool (needle : Bool) (e : CelValue) :
    equalityKernel host e (.bool needle)
      = return if e.isPoison then e else .bool (scanBool needle e) := by
  cases e <;> rfl

/-! ## Asking one element after another -/

section Asking

variable {host} (value : CelValue)

/-- An element is equal to the value, in the run with memory to spare. -/
def EqualsElement (host : CelHost) (e value : CelValue) : Prop :=
  (celEquals host e value).granted = .ok (.bool true)

/-- The comparison with an element comes back. -/
def ComparisonReturns (host : CelHost) (e value : CelValue) : Prop :=
  ∃ v, (celEquals host e value).granted = .ok v

/-- **An element is found**: it is equal, and the comparisons before it come back. -/
def FoundIn (host : CelHost) (value : CelValue) (elements : List CelValue) : Prop :=
  ∃ before e after, elements = before ++ e :: after ∧ EqualsElement host e value ∧
    ∀ x ∈ before, ComparisonReturns host x value

theorem not_foundIn_nil : ¬ FoundIn host value [] := by
  rintro ⟨before, e, after, h, -⟩
  exact absurd h.symm (List.append_ne_nil_of_right_ne_nil before (List.cons_ne_nil e after))

/-- The first element is the one, or it is behind it. -/
theorem foundIn_cons_iff {e : CelValue} {rest : List CelValue} : FoundIn host value (e :: rest) ↔
    EqualsElement host e value ∨ ComparisonReturns host e value ∧ FoundIn host value rest := by
  constructor
  · rintro ⟨before, x, after, h, hx, hbefore⟩
    cases before with
    | nil =>
      obtain ⟨rfl, -⟩ := List.cons.inj h
      exact .inl hx
    | cons b before =>
      obtain ⟨rfl, rfl⟩ := List.cons.inj h
      exact .inr ⟨hbefore e List.mem_cons_self, before, x, after, rfl, hx,
        fun y hy => hbefore y (List.mem_cons_of_mem e hy)⟩
  · rintro (h | ⟨he, before, x, after, rfl, hx, hbefore⟩)
    · exact ⟨[], e, rest, rfl, h, nofun⟩
    · refine ⟨e :: before, x, after, rfl, hx, fun y hy => ?_⟩
      obtain rfl | hy := List.mem_cons.mp hy
      · exact he
      · exact hbefore y hy

/-- If every comparison comes back, whatever is there is found. -/
theorem foundIn_iff_of_returns {elements : List CelValue}
    (h : ∀ e ∈ elements, ComparisonReturns host e value) :
    FoundIn host value elements ↔ ∃ e ∈ elements, EqualsElement host e value := by
  constructor
  · rintro ⟨before, e, after, rfl, he, -⟩
    exact ⟨e, List.mem_append_right _ List.mem_cons_self, he⟩
  · rintro ⟨e, hmem, he⟩
    obtain ⟨before, after, rfl⟩ := List.append_of_mem hmem
    exact ⟨before, e, after, rfl, he, fun x hx => h x (List.mem_append_left _ hx)⟩

/-- **A scan by kind finds what is there.** -/
theorem any_iff_foundIn {scan : CelValue → Bool}
    (hpoison : ∀ e, scan e = true → e.isPoison = false)
    (hscan : ∀ e, equalityKernel host e value = return if e.isPoison then e else .bool (scan e))
    (elements : List CelValue) : elements.any scan = true ↔ FoundIn host value elements := by
  have hequal : ∀ e, EqualsElement host e value ↔ scan e = true := fun e => by
    rw [EqualsElement, celEquals, hscan, Prog.granted_pure, Except.ok.injEq]
    split_ifs with hp
    · refine iff_of_false (fun h => ?_) fun h => absurd (hpoison e h) (by rw [hp]; nofun)
      rw [h] at hp
      exact nomatch hp
    · rw [CelValue.bool.injEq]
  rw [foundIn_iff_of_returns value fun e _ => ⟨_, by rw [celEquals, hscan]; rfl⟩, List.any_eq_true]
  simp only [hequal]

end Asking

/-! ## The scan by deep comparison -/

/-- Two scalars are compared as the kernel compares them. -/
theorem equalityKernel_scalarKinds {a b : CelValue} (ha : isScalarEqKind a = true)
    (hb : isScalarEqKind b = true) : equalityKernel host a b = return .bool (celValueEq a b) := by
  cases a <;> first
    | exact Bool.noConfusion ha
    | (cases b <;> first | rfl | exact Bool.noConfusion hb)

/-- **A deep comparison is the kernel's verdict**, and leaves a scratch cell perhaps. -/
theorem granted_deepValuesEqual (scratch : Bool) (a b : CelValue) : ∃ scratch',
    (deepValuesEqual scratch a b (equalityKernel host a b)).granted
      = (fun v => (scratch', some (v.isBool true))) <$> (equalityKernel host a b).granted := by
  rw [deepValuesEqual]
  split_ifs with hkinds
  · rw [Bool.and_eq_true] at hkinds
    refine ⟨scratch, ?_⟩
    rw [equalityKernel_scalarKinds host hkinds.1 hkinds.2]
    cases celValueEq a b <;> rfl
  · refine ⟨true, ?_⟩
    have hcell : (scratchCell scratch).granted = .ok true := by cases scratch <;> rfl
    rw [Prog.granted_bind, hcell]
    change (equalityKernel host a b >>= fun v => pure (true, some (v.isBool true))).granted = _
    rw [Prog.granted_bind]
    cases (equalityKernel host a b).granted <;> rfl

theorem isBool_true_iff {v : CelValue} : v.isBool true = true ↔ v = .bool true := by
  cases v with
  | bool b => cases b <;> simp [CelValue.isBool]
  | _ => simp [CelValue.isBool]

/-- **The scan by deep comparison finds what is there.** -/
theorem granted_arenaListScanGeneric_iff (value : CelValue) (scratch : Bool)
    (elements : List CelValue) :
    (arenaListScanGeneric host value scratch elements).granted = .ok (some true) ↔
      FoundIn host value elements := by
  induction elements generalizing scratch with
  | nil =>
    exact iff_of_false (by simp [arenaListScanGeneric]) (not_foundIn_nil value)
  | cons e rest ih =>
    obtain ⟨scratch', hdeep⟩ := granted_deepValuesEqual host scratch e value
    rw [foundIn_cons_iff, arenaListScanGeneric, Prog.granted_bind, hdeep, EqualsElement,
      ComparisonReturns, celEquals]
    cases hkernel : (equalityKernel host e value).granted with
    | error _ => exact iff_of_false (by rintro ⟨⟩) (by simp)
    | ok v =>
      rw [and_iff_right ⟨v, rfl⟩, Except.ok.injEq, ← isBool_true_iff]
      dsimp only [Functor.map, bind, Except.map, Except.bind]
      cases v.isBool true with
      | true => exact iff_of_true rfl (.inl rfl)
      | false => exact (ih scratch').trans (or_iff_right Bool.false_ne_true).symm

/-! ## Whatever the arena grants -/

/-- An element is equal to the value in some run. -/
def MayEqualElement (e value : CelValue) : Prop := (celEquals host e value).Reaches (.ok (.bool true))

/-- A deep comparison is never equal by itself: where it is, the kernel says so. -/
theorem mayEqualElement_of_deepValuesEqual {scratch scratch' : Bool} {e value : CelValue}
    (h : (deepValuesEqual scratch e value (equalityKernel host e value)).Reaches
      (.ok (scratch', some true))) : MayEqualElement host e value := by
  rw [deepValuesEqual] at h
  split_ifs at h with hkinds
  · rw [Bool.and_eq_true] at hkinds
    rw [Prog.reaches_pure, Except.ok.injEq, Prod.mk.injEq, Option.some.injEq] at h
    rw [MayEqualElement, celEquals, equalityKernel_scalarKinds host hkinds.1 hkinds.2, ← h.2]
    exact .ret _
  · obtain ⟨granted, -, h⟩ := h.of_bind
    cases granted with
    | false =>
      have h := Prog.reaches_pure.mp h
      rw [Except.ok.injEq, Prod.mk.injEq] at h
      exact nomatch h.2
    | true =>
      obtain ⟨v, hv, h⟩ := Prog.Reaches.of_bind h
      rw [Prog.reaches_pure, Except.ok.injEq, Prod.mk.injEq, Option.some.injEq] at h
      rwa [isBool_true_iff.mp h.2.symm] at hv

theorem mayEqualElement_of_scanGeneric {value : CelValue} {scratch : Bool}
    {elements : List CelValue}
    (h : (arenaListScanGeneric host value scratch elements).Reaches (.ok (some true))) :
    ∃ e ∈ elements, MayEqualElement host e value := by
  induction elements generalizing scratch with
  | nil => exact nomatch Prog.reaches_pure.mp h
  | cons e rest ih =>
    rw [arenaListScanGeneric] at h
    obtain ⟨⟨scratch', verdict⟩, hdeep, h⟩ := h.of_bind
    cases verdict with
    | none => exact nomatch Prog.reaches_pure.mp h
    | some verdict =>
      cases verdict with
      | true => exact ⟨e, List.mem_cons_self, mayEqualElement_of_deepValuesEqual host hdeep⟩
      | false =>
        obtain ⟨x, hx, hequal⟩ := ih h
        exact ⟨x, List.mem_cons_of_mem e hx, hequal⟩

/-! ## Membership -/

section Membership

variable {host} {value : CelValue}

/-- **The scans, by the kind of the value**: one that asks for nothing, or the deep one. -/
theorem celListInArena_cases (hvalue : value.isPoison = false) (capacity : ℕ)
    (elements : List CelValue) :
    (∃ scan : CelValue → Bool, (∀ e, scan e = true → e.isPoison = false) ∧
      (∀ e, equalityKernel host e value = return if e.isPoison then e else .bool (scan e)) ∧
      celListInArena host value (.listArena capacity elements)
        = return .bool (elements.any scan)) ∨
    celListInArena host value (.listArena capacity elements)
      = walkVerdict <$> arenaListScanGeneric host value false elements := by
  have habsorb : ∀ body, unlessAbsorbed value (.listArena capacity elements) body = body := by
    intro body
    cases value with
    | error _ | unknown _ => exact nomatch hvalue
    | _ => rfl
  unfold celListInArena
  rw [habsorb]
  dsimp only
  cases hnumeric : isNumericKind value with
  | true =>
    refine .inl ⟨scanNumeric value, fun e h => ?_, equalityKernel_numeric host hnumeric, if_pos rfl⟩
    rw [scanNumeric_eq value e hnumeric, Bool.and_eq_true] at h
    cases e with
    | error _ | unknown _ => exact nomatch h.1
    | _ => rfl
  | false =>
    rw [if_neg Bool.false_ne_true]
    cases value with
    | string s =>
      refine .inl ⟨scanString s, fun e h => ?_, equalityKernel_string host s, rfl⟩
      cases e with
      | string _ => rfl
      | _ => exact nomatch h
    | bool b =>
      refine .inl ⟨scanBool b, fun e h => ?_, equalityKernel_bool host b, rfl⟩
      cases e with
      | bool _ => rfl
      | _ => exact nomatch h
    | _ => exact .inr rfl

theorem celListInArena_iff_foundIn (hvalue : value.isPoison = false) (capacity : ℕ)
    (elements : List CelValue) :
    (celListInArena host value (.listArena capacity elements)).granted = .ok (.bool true) ↔
      FoundIn host value elements := by
  obtain ⟨scan, hpoison, hscan, h⟩ | h :=
    @celListInArena_cases host value hvalue capacity elements
  · rw [h, ← any_iff_foundIn value hpoison hscan, Prog.granted_pure, Except.ok.injEq,
      CelValue.bool.injEq]
  · rw [h, ← granted_arenaListScanGeneric_iff host value false, map_eq_pure_bind, Prog.granted_bind]
    cases (arenaListScanGeneric host value false elements).granted with
    | error _ => exact iff_of_false nofun nofun
    | ok verdict =>
      change (Except.ok (walkVerdict verdict) : Except Stop CelValue) = _ ↔ _
      rw [Except.ok.injEq, Except.ok.injEq]
      obtain _ | _ | _ := verdict <;> simp [walkVerdict]

theorem mayEqualElement_of_celListInArena (hvalue : value.isPoison = false) {capacity : ℕ}
    {elements : List CelValue}
    (h : (celListInArena host value (.listArena capacity elements)).Reaches (.ok (.bool true))) :
    ∃ e ∈ elements, MayEqualElement host e value := by
  obtain ⟨scan, hpoison, hscan, hrun⟩ | hrun :=
    @celListInArena_cases host value hvalue capacity elements
  · rw [hrun, Prog.reaches_pure, Except.ok.injEq, CelValue.bool.injEq, eq_comm,
      List.any_eq_true] at h
    obtain ⟨e, hmem, he⟩ := h
    refine ⟨e, hmem, ?_⟩
    rw [MayEqualElement, celEquals, hscan, hpoison e he, he]
    exact .ret _
  · rw [hrun, map_eq_pure_bind] at h
    obtain ⟨verdict, hverdict, h⟩ := h.of_bind
    obtain _ | _ | _ := verdict
    · exact nomatch Prog.reaches_pure.mp h
    · exact nomatch Prog.reaches_pure.mp h
    · exact mayEqualElement_of_scanGeneric host hverdict

/-- **`in` is true exactly when an element is equal.** The comparisons before it have to come back, so
if all do, it is true exactly when there is one; and however the arena runs out of memory, it is never
true without one. -/
theorem celListInArena_true_iff (hvalue : value.isPoison = false) (capacity : ℕ)
    (elements : List CelValue) :
    ((celListInArena host value (.listArena capacity elements)).granted = .ok (.bool true) ↔
      FoundIn host value elements) ∧
    ((∀ e ∈ elements, ComparisonReturns host e value) →
      ((celListInArena host value (.listArena capacity elements)).granted = .ok (.bool true) ↔
        ∃ e ∈ elements, EqualsElement host e value)) ∧
    ((celListInArena host value (.listArena capacity elements)).Reaches (.ok (.bool true)) →
      ∃ e ∈ elements, MayEqualElement host e value) := by
  have hiff := @celListInArena_iff_foundIn host value hvalue capacity elements
  refine ⟨hiff, fun hreturns => ?_, mayEqualElement_of_celListInArena hvalue⟩
  rw [hiff, foundIn_iff_of_returns value hreturns]

/-- An int among a string and a double. -/
theorem celListInArena_true_iff_mixed :
    (celListInArena .stubs (.int 1) (.listArena 2 [.string [], .double (.ofInt 1)])).granted
        = .ok (.bool true) ↔
      ∃ e ∈ [CelValue.string [], .double (.ofInt 1)], EqualsElement .stubs e (.int 1) := by
  refine (@celListInArena_true_iff .stubs (.int 1) rfl 2 _).2.1 fun e he => ?_
  rw [List.mem_cons, List.mem_singleton] at he
  obtain rfl | rfl := he <;> exact ⟨_, rfl⟩

end Membership

end Scans

end CelWasm
