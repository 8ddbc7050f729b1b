import Mathlib.Order.Filter.AtTopBot.Basic
import Mathlib.Order.Filter.Finite
import CelWasm.Eval.HostSnapshot
import CelWasm.Runtime.StringFormat

/-!
# Eval/FormatStack — what a format needs of the stack

`%s` renders a list by rendering its elements, and a map by its values, as deep as they are nested.
Values are finite, so that with enough stack no format stops for want of it, whatever the arena
grants. It may stop for other reasons all the same: the bytes of an element of a host list that the
arena refuses are a failing status of the import that copies the list.
-/

namespace CelWasm

open Filter

/-- What a run may stop with, the stack apart. -/
abbrev HasFrames (s : Stop) : Prop := s ≠ .stackExhausted

/-- A copy does not stop for want of stack. -/
theorem Stop.OfCopy.hasFrames {s : Stop} (h : s.OfCopy) : HasFrames s := by
  cases h <;> exact nofun

/-- What a map has, as cells. -/
def mapCells : CelValue → List (CelValue × CelValue)
  | .mapArena _ entries _ => entries
  | .mapHost entries => entries.map fun e => (e.1.cell, e.2.cell)
  | _ => []

/-- What a list is viewed as. -/
theorem celListArenaView_hasFrames (host : CelHost) (list : CelValue) :
    (celListArenaView host.withSnapshots list).Meets
      (fun elements => elements = listCells list ∨ elements = [] ∨
        ∃ poison, elements = [poison] ∧ poison.isPoison = true) HasFrames :=
  (celListArenaView_withSnapshots_meets host list).mono (fun _ => id) fun _ => Stop.OfCopy.hasFrames

/-- **What a map is walked in**: its entries, none of them, or one of poison. -/
theorem celMapIterInit_hasFrames (host : CelHost) (m : CelValue) :
    (celMapIterInit host.withSnapshots m).Meets
      (fun entries => entries = mapCells m ∨ entries = [] ∨
        ∃ poison, entries = [(poison, poison)] ∧ poison.isPoison = true) HasFrames := by
  have hpoison : ∀ poison : CelValue, poison.isPoison = true → (vendPoisonMapIter poison).Meets
      (fun entries => entries = mapCells m ∨ entries = [] ∨
        ∃ poison, entries = [(poison, poison)] ∧ poison.isPoison = true) HasFrames :=
    fun poison h _ => .inr (.inr ⟨poison, rfl, h⟩)
  cases m with
  | mapArena capacity entries index =>
    cases entries with
    | nil => exact .inl rfl
    | cons e entries => exact Prog.meets_alloc_bind.mpr ⟨hpoison _ rfl, .inl rfl⟩
  | mapHost entries =>
    refine Prog.meets_alloc_bind.mpr ⟨fun _ => .inr (.inr ⟨.error .overflow, rfl, rfl⟩), ?_⟩
    exact (celMapIterOpenImpl_meets entries).mono (fun _ h => h.imp_right .inl)
      fun _ => Stop.OfCopy.hasFrames
  | _ => exact hpoison _ rfl

section Render

variable {render : CelValue → Kernel (Option (List UInt8))}

/-- Elements are rendered one by one. -/
theorem renderElements_hasFrames {elements : List CelValue}
    (h : ∀ v ∈ elements, (render v).Meets (fun _ => True) HasFrames) :
    (renderElements render elements).Meets (fun _ => True) HasFrames := by
  induction elements with
  | nil => trivial
  | cons v rest ih =>
    rw [List.forall_mem_cons] at h
    refine h.1.bind fun r _ => ?_
    cases r with
    | none => trivial
    | some text => exact (ih h.2).bind fun _ _ => trivial

/-- Entries are rendered one by one, up to a key that no text is for. -/
theorem renderEntries_hasFrames {entries : List (CelValue × CelValue)}
    (hkey : ∀ e ∈ entries, isFormattableMapKey e.1 = true →
      (render e.1).Meets (fun _ => True) HasFrames)
    (hvalue : ∀ e ∈ entries, isFormattableMapKey e.1 = true →
      (render e.2).Meets (fun _ => True) HasFrames) (sorted : List (List UInt8 × List UInt8)) :
    (renderEntries render entries sorted).Meets (fun _ => True) HasFrames := by
  induction entries generalizing sorted with
  | nil => trivial
  | cons e rest ih =>
    rw [List.forall_mem_cons] at hkey hvalue
    refine Prog.meets_ite (fun _ => trivial) fun hformattable => ?_
    rw [Bool.not_eq_true', Bool.not_eq_false] at hformattable
    refine (hkey.1 hformattable).bind fun r _ => ?_
    cases r with
    | none => trivial
    | some keyStr =>
      refine (hvalue.1 hformattable).bind fun r _ => ?_
      cases r with
      | none => trivial
      | some valStr => exact ih hkey.2 hvalue.2 _

end Render

/-! ## Values -/

section Values

variable {host : CelHost} {absl : AbslFormat}

/-- **A value is rendered**, with enough stack. -/
def Rendered (host : CelHost) (absl : AbslFormat) (v : CelValue) : Prop :=
  ∀ᶠ stack in atTop,
    (renderString host.withSnapshots absl stack v).Meets (fun _ => True) HasFrames

/-- A value is rendered where one more frame renders it. -/
theorem rendered_of_succ {v : CelValue} (h : ∀ᶠ stack in atTop,
    (renderString host.withSnapshots absl (stack + 1) v).Meets (fun _ => True) HasFrames) :
    Rendered host absl v := by
  rw [Rendered, ← map_add_atTop_eq_nat 1]
  exact h

/-- A list is rendered where its elements are. -/
theorem rendered_list {v : CelValue} (h : ∀ c ∈ listCells v, Rendered host absl c)
    (hshape : ∀ stack, renderString host.withSnapshots absl (stack + 1) v
      = appendListCanonical (renderString host.withSnapshots absl stack) host.withSnapshots v) :
    Rendered host absl v := by
  refine rendered_of_succ ?_
  filter_upwards [(eventually_all_finite (listCells v).finite_toSet).mpr h, eventually_ge_atTop 1]
    with stack hcells hstack
  obtain ⟨stack, rfl⟩ := Nat.exists_eq_add_of_le' hstack
  rw [hshape]
  refine (celListArenaView_hasFrames host v).bind fun elements helements => ?_
  refine (renderElements_hasFrames fun c hc => ?_).bind fun _ _ => trivial
  obtain rfl | rfl | ⟨poison, rfl, hpoison⟩ := helements
  · exact hcells c hc
  · exact absurd hc List.not_mem_nil
  · rw [List.mem_singleton.mp hc]
    obtain ⟨e, rfl⟩ | ⟨s, rfl⟩ | hnot := poison.poison_cases
    · trivial
    · trivial
    · exact absurd hpoison (by rw [hnot]; exact Bool.false_ne_true)

/-- A map is rendered where its values are. -/
theorem rendered_map {v : CelValue} (h : ∀ e ∈ mapCells v, Rendered host absl e.2)
    (hshape : ∀ stack, renderString host.withSnapshots absl (stack + 1) v
      = appendMapCanonical (renderString host.withSnapshots absl stack) host.withSnapshots v) :
    Rendered host absl v := by
  refine rendered_of_succ ?_
  filter_upwards [(eventually_all_finite (mapCells v).finite_toSet).mpr h, eventually_ge_atTop 1]
    with stack hcells hstack
  obtain ⟨stack, rfl⟩ := Nat.exists_eq_add_of_le' hstack
  have hkey : ∀ key : CelValue, isFormattableMapKey key = true →
      (renderString host.withSnapshots absl (stack + 1) key).Meets (fun _ => True) HasFrames := by
    intro key hformattable
    cases key with
    | string s => trivial
    | bool b => trivial
    | int i => trivial
    | uint u => trivial
    | _ => exact absurd hformattable Bool.false_ne_true
  rw [hshape]
  refine Prog.meets_alloc_bind.mpr ⟨trivial, ?_⟩
  refine (celMapIterInit_hasFrames host v).bind fun entries hentries => ?_
  refine (renderEntries_hasFrames (fun e _ => hkey e.1) (fun e he hformattable => ?_) []).bind
    fun _ _ => trivial
  obtain rfl | rfl | ⟨poison, rfl, hpoison⟩ := hentries
  · exact hcells e he
  · exact absurd he List.not_mem_nil
  · rw [List.mem_singleton.mp he]
    rw [List.mem_singleton.mp he] at hformattable
    exact hkey _ hformattable

/-- What is no container is rendered in one frame. -/
theorem rendered_scalar {v : CelValue} (h : ∀ stack,
    (renderString host.withSnapshots absl (stack + 1) v).Meets (fun _ => True) HasFrames) :
    Rendered host absl v :=
  rendered_of_succ (.of_forall h)

/-- A value of the host, as its cell. -/
theorem HostValue.rendered (v : HostValue) : Rendered host absl v.cell := by
  cases v with
  | list elements =>
    exact rendered_list (List.forall_mem_map.mpr fun e he => e.rendered) fun _ => rfl
  | map entries =>
    exact rendered_map (List.forall_mem_map.mpr fun e he => e.2.rendered) fun _ => rfl
  | _ => exact rendered_scalar fun _ => trivial
termination_by sizeOf v
decreasing_by
  · exact sizeOf_element he
  · exact sizeOf_value he

/-- **Every value is rendered.** -/
theorem CelValue.rendered (v : CelValue) : Rendered host absl v := by
  cases v with
  | listArena capacity elements =>
    have helements : ∀ e ∈ elements, Rendered host absl e := fun e he => e.rendered
    exact rendered_list helements fun _ => rfl
  | mapArena capacity entries index =>
    have hvalues : ∀ e ∈ entries, Rendered host absl e.2 := fun e he => e.2.rendered
    exact rendered_map hvalues fun _ => rfl
  | listHost elements => exact (HostValue.list elements).rendered
  | mapHost entries => exact (HostValue.map entries).rendered
  | _ => exact rendered_scalar fun _ => trivial
termination_by sizeOf v
decreasing_by
  · exact sizeOf_element he
  · exact sizeOf_value he

/-- A clause renders its argument. -/
theorem dispatchDirective_hasFrames {stack : ℕ} {op : DirectiveOp} {arg : CelValue}
    (h : (renderString host absl stack arg).Meets (fun _ => True) HasFrames) :
    (dispatchDirective host absl stack op arg).Meets (fun _ => True) HasFrames := by
  rw [dispatchDirective]
  cases op.kind with
  | kSubstring => exact h
  | kLiteral => exact nofun
  | _ => trivial

/-- The clauses of a format take the arguments in turn. -/
theorem runFormat_hasFrames {stack : ℕ} {fmt : List UInt8} (ops : List DirectiveOp)
    {args : List CelValue}
    (h : ∀ v ∈ args, (renderString host absl stack v).Meets (fun _ => True) HasFrames) :
    (runFormat host absl stack fmt ops args).Meets (fun _ => True) HasFrames := by
  induction ops generalizing args with
  | nil => trivial
  | cons op ops ih =>
    refine Prog.meets_ite (fun _ => (ih h).bind fun _ _ => trivial) fun _ => ?_
    cases args with
    | nil => trivial
    | cons arg rest =>
      rw [List.forall_mem_cons] at h
      refine (dispatchDirective_hasFrames h.1).bind fun r _ => ?_
      cases r with
      | none => trivial
      | some text => exact (ih h.2).bind fun _ _ => trivial

/-- **With enough stack no format stops for want of it.** -/
theorem celStringFormat_hasFrames (host : CelHost) (absl : AbslFormat) (s args : CelValue) :
    ∀ᶠ stack in atTop, (celStringFormat host.withSnapshots absl stack s args).Meets
      (fun _ => True) HasFrames := by
  have hrendered : ∀ᶠ stack in atTop, ∀ c ∈ listCells args,
      (renderString host.withSnapshots absl stack c).Meets (fun _ => True) HasFrames :=
    (eventually_all_finite (listCells args).finite_toSet).mpr fun c _ => c.rendered
  filter_upwards [hrendered] with stack hcells
  have hformat : ∀ fmt,
      (formatArgs host.withSnapshots absl stack fmt args).Meets (fun _ => True) HasFrames := by
    intro fmt
    refine (celListArenaView_hasFrames host args).bind fun elements helements => ?_
    cases parseFormat fmt with
    | error e => trivial
    | ok ops =>
      dsimp only
      cases habsorbed : elements.find? CelValue.isPoison with
      | some absorbed => trivial
      | none =>
        have helement : ∀ c ∈ elements, (renderString host.withSnapshots absl stack c).Meets
            (fun _ => True) HasFrames := by
          intro c hc
          obtain rfl | rfl | ⟨poison, rfl, hpoison⟩ := helements
          · exact hcells c hc
          · exact absurd hc List.not_mem_nil
          · exact absurd hpoison (List.find?_eq_none.mp habsorbed poison (List.mem_singleton_self _))
        refine (runFormat_hasFrames ops helement).bind fun r _ => ?_
        cases r with
        | none => trivial
        | some text =>
          exact Prog.meets_ite (fun _ => trivial) fun _ =>
            Prog.meets_alloc_bind.mpr ⟨trivial, trivial⟩
  have hunless : ∀ (a : CelValue) {body : Kernel CelValue}, body.Meets (fun _ => True) HasFrames →
      (unlessAbsorbedUnary a body).Meets (fun _ => True) HasFrames := by
    intro a body h
    rw [unlessAbsorbedUnary]
    cases absorb3vlUnary a with
    | some poison => trivial
    | none => exact h
  refine hunless s (hunless args ?_)
  split
  · exact hformat _
  · exact hformat _
  · trivial

end Values

end CelWasm
