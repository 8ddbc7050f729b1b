import CelWasm.Runtime.StringKernels
import Mathlib.Logic.Function.Basic

/-!
# Eval/HostCallback — calling a function of the embedder

    cel_fn.<overload_id>(out_slot, arg_slot …)

The trampoline reads the argument cells first. If one of them is poison, a poison is written to the
result cell and the callback is not run: the leftmost ERROR, or else the leftmost UNKNOWN as it is,
whatever ids the others carry.
-/

namespace CelWasm

/-! ## The trampoline -/

/-- The cells of the linear memory. -/
abbrev Cells := UInt32 → CelValue

/-- `HostCallContext`: where a callback finds its arguments and leaves its result. -/
structure HostCallContext where
  outSlot : UInt32
  argSlots : List UInt32

/-- `HostCallback`: the cells it leaves, or its failing status. -/
abbrev HostCallback := HostCallContext → Cells → Except String Cells

/-- The cells, and the contexts of the callbacks run so far. -/
structure HostRun where
  cells : Cells
  invoked : List HostCallContext

/-- What `AbsorbUnknownOrErrorArg` keeps over its loop. -/
structure Absorption where
  haveError : Bool
  haveUnknown : Bool
  propagate : CelValue

namespace Absorption

/-- One argument. -/
def step (s : Absorption) (cv : CelValue) : Absorption :=
  if cv.errorCode?.isSome && !s.haveError then
    { s with haveError := true, propagate := cv }
  else if cv.isUnknown && !s.haveUnknown && !s.haveError then
    { s with haveUnknown := true, propagate := cv }
  else s

/-- What is written, if anything is. -/
def result (s : Absorption) : Option CelValue :=
  if s.haveError || s.haveUnknown then some s.propagate else none

end Absorption

/-- **`AbsorbUnknownOrErrorArg`**: the value it writes, if the callback must not run. -/
def absorbUnknownOrErrorArg (args : List CelValue) : Option CelValue :=
  (args.foldl Absorption.step ⟨false, false, .null⟩).result

/-- **`HostCallbackTrampoline`**, or the message of its trap. -/
def hostCallbackTrampoline (callback : HostCallback) (args : List UInt32) (run : HostRun) :
    Except String HostRun :=
  match args with
  | [] => .error "host callback needs at least one arg (out_slot)"
  | outSlot :: argSlots =>
    match absorbUnknownOrErrorArg (argSlots.map run.cells) with
    | some propagate => .ok { run with cells := Function.update run.cells outSlot propagate }
    | none =>
      match callback ⟨outSlot, argSlots⟩ run.cells with
      | .ok cells => .ok ⟨cells, run.invoked ++ [⟨outSlot, argSlots⟩]⟩
      | .error message => .error message

/-! ## What is absorbed -/

/-- An ERROR stays. -/
theorem result_foldl_of_haveError (args : List CelValue) {s : Absorption}
    (h : s.haveError = true) : (args.foldl Absorption.step s).result = some s.propagate := by
  induction args generalizing s with
  | nil => rw [List.foldl_nil, Absorption.result, h, Bool.true_or, if_pos rfl]
  | cons v args ih =>
    have hstep : s.step v = s := by
      rw [Absorption.step, h, Bool.not_true, Bool.and_false, Bool.and_false,
        if_neg Bool.false_ne_true, if_neg Bool.false_ne_true]
    rw [List.foldl_cons, hstep, ih h]

/-- **Until there is an ERROR**, the first UNKNOWN is kept, and the first ERROR takes its place. -/
theorem result_foldl (args : List CelValue) {s : Absorption} (h : s.haveError = false) :
    (args.foldl Absorption.step s).result =
      match args.findSome? (·.errorCode?) with
      | some e => some (.error e)
      | none => if s.haveUnknown then some s.propagate else args.find? (·.isUnknown) := by
  induction args generalizing s with
  | nil => rw [List.foldl_nil, Absorption.result, h]; rfl
  | cons v args ih =>
    rw [List.foldl_cons]
    obtain ⟨e, rfl⟩ | ⟨t, rfl⟩ | hv := v.poison_cases
    · have hstep : s.step (.error e) = { s with haveError := true, propagate := CelValue.error e } := by
        rw [Absorption.step, h]
        rfl
      rw [hstep, result_foldl_of_haveError args rfl]
      rfl
    · change _ = match args.findSome? (·.errorCode?) with
        | some e => some (CelValue.error e)
        | none => if s.haveUnknown then some s.propagate else some (CelValue.unknown t)
      cases hu : s.haveUnknown with
      | true =>
        have hstep : s.step (.unknown t) = s := by
          rw [Absorption.step, h, hu]
          rfl
        rw [hstep, ih h, hu]
        rfl
      | false =>
        have hstep : s.step (.unknown t) =
            { s with haveUnknown := true, propagate := .unknown t } := by
          rw [Absorption.step, h, hu]
          rfl
        rw [hstep, ih (s := { s with haveUnknown := true, propagate := .unknown t }) h]
        rfl
    · have hunknown : v.isUnknown = false := by
        cases v with
        | unknown _ => exact nomatch hv
        | _ => rfl
      have hstep : s.step v = s := by
        rw [Absorption.step, v.errorCode?_eq_none hv, hunknown]
        rfl
      rw [hstep, ih h, List.findSome?_cons, v.errorCode?_eq_none hv, List.find?_cons, hunknown]

/-- **What the trampoline absorbs**: the leftmost ERROR, or else the leftmost UNKNOWN. -/
theorem absorbUnknownOrErrorArg_eq (args : List CelValue) :
    absorbUnknownOrErrorArg args =
      match args.findSome? (·.errorCode?) with
      | some e => some (.error e)
      | none => args.find? (·.isUnknown) :=
  result_foldl args rfl

/-- **The first UNKNOWN decides**, unless there is an ERROR: it carries every id. -/
def FirstUnknownDecides (args : List CelValue) : Prop :=
  ∀ s, args.find? (·.isUnknown) = some (.unknown s) → (∀ v ∈ args, v.errorCode? = none) →
    ∀ v ∈ args, v.unknownIds ⊆ s

/-- **What is absorbed is the verdict exactly when** the first UNKNOWN decides. -/
theorem absorbUnknownOrErrorArg_eq_verdict_iff {args : List CelValue}
    (h : ∃ v ∈ args, v.isPoison = true) :
    absorbUnknownOrErrorArg args = some (strictVerdict args) ↔ FirstUnknownDecides args := by
  rw [absorbUnknownOrErrorArg_eq]
  cases herror : args.findSome? (·.errorCode?) with
  | some e =>
    have hverdict : strictVerdict args = .error e := by rw [strictVerdict, herror]
    refine iff_of_true (congrArg some hverdict.symm) fun s _ hnone => ?_
    rw [List.findSome?_eq_none_iff.mpr hnone] at herror
    cases herror
  | none =>
    have hnone := List.findSome?_eq_none_iff.mp herror
    obtain ⟨v, hv, hpoison⟩ := h
    obtain ⟨t, rfl⟩ : ∃ t, v = .unknown t := by
      obtain ⟨e, rfl⟩ | ht := CelValue.isPoison_iff.mp hpoison
      · cases hnone _ hv
      · exact ht
    obtain ⟨w, hw⟩ : ∃ w, args.find? (·.isUnknown) = some w :=
      Option.isSome_iff_exists.mp (List.find?_isSome.mpr ⟨CelValue.unknown t, hv, rfl⟩)
    obtain ⟨s, rfl⟩ : ∃ s, w = .unknown s := by
      have hkind := List.find?_some hw
      cases w with
      | unknown s => exact ⟨s, rfl⟩
      | _ => cases hkind
    simp only [hw, Option.some.injEq]
    rw [eq_comm, strictVerdict_eq_unknown_iff (List.mem_of_find?_eq_some hw)]
    constructor
    · rintro ⟨-, hids⟩ s' hs' -
      rw [hw, Option.some.injEq, CelValue.unknown.injEq] at hs'
      exact hs' ▸ hids
    · exact fun hdecides => ⟨hnone, hdecides s hw hnone⟩

/-! ## Strict calls -/

/-- A call of the embedder's function: where its cells are, and the run so far. -/
structure HostCall where
  callback : HostCallback
  outSlot : UInt32
  argSlots : List UInt32
  before : HostRun

/-- **A call of a strict operation** outside the arithmetic kernels. -/
inductive StrictCall
  | kernel (host : CelHost) (regex : Regex) (call : StringCall)
  | callback (call : HostCall)

namespace StrictCall

/-- The values of the operands. -/
def operands : StrictCall → List CelValue
  | kernel _ _ call => call.operands
  | callback call => call.argSlots.map call.before.cells

/-- **A call follows the strict rule**: its result is the verdict, and no callback has run. -/
def FollowsRule : StrictCall → Prop
  | kernel host regex call => call.run host regex = return strictVerdict call.operands
  | callback call =>
    hostCallbackTrampoline call.callback (call.outSlot :: call.argSlots) call.before =
      .ok ⟨Function.update call.before.cells call.outSlot
        (strictVerdict (call.argSlots.map call.before.cells)), call.before.invoked⟩

/-- **The condition**, on the operands. -/
def Decided : StrictCall → Prop
  | kernel _ _ call => FirstDecides call.operands
  | callback call => FirstUnknownDecides (call.argSlots.map call.before.cells)

end StrictCall

/-- A poisoned argument is absorbed: a poison is written, and the callback has not run. -/
theorem hostCallbackTrampoline_of_poison (call : HostCall)
    (h : ∃ v ∈ call.argSlots.map call.before.cells, v.isPoison = true) :
    ∃ v, absorbUnknownOrErrorArg (call.argSlots.map call.before.cells) = some v ∧
      hostCallbackTrampoline call.callback (call.outSlot :: call.argSlots) call.before =
        .ok ⟨Function.update call.before.cells call.outSlot v, call.before.invoked⟩ := by
  obtain ⟨v, hv⟩ : ∃ v, absorbUnknownOrErrorArg (call.argSlots.map call.before.cells) = some v := by
    rw [absorbUnknownOrErrorArg_eq]
    obtain ⟨v, hmem, hpoison⟩ := h
    cases herror : (call.argSlots.map call.before.cells).findSome? (·.errorCode?) with
    | some e => exact ⟨_, rfl⟩
    | none =>
      refine Option.isSome_iff_exists.mp (List.find?_isSome.mpr ⟨v, hmem, ?_⟩)
      obtain ⟨e, rfl⟩ | ⟨s, rfl⟩ := CelValue.isPoison_iff.mp hpoison
      · exact absurd (List.findSome?_eq_none_iff.mp herror _ hmem) nofun
      · rfl
  refine ⟨v, hv, ?_⟩
  rw [hostCallbackTrampoline, hv]

/-- **A call of a poisoned operand follows the strict rule exactly when** what it meets first decides.
Whether it does or not, the call of an embedder's function does not run the callback. -/
theorem strictCall_followsRule_iff (c : StrictCall) (h : ∃ v ∈ c.operands, v.isPoison = true) :
    (c.FollowsRule ↔ c.Decided) ∧
      ∀ call, c = .callback call → ∃ v, hostCallbackTrampoline call.callback
        (call.outSlot :: call.argSlots) call.before =
          .ok ⟨Function.update call.before.cells call.outSlot v, call.before.invoked⟩ := by
  cases c with
  | kernel host regex call =>
    refine ⟨?_, nofun⟩
    obtain ⟨v, hv⟩ := Option.isSome_iff_exists.mp (List.find?_isSome.mpr h)
    rw [StrictCall.FollowsRule, StringCall.run_of_find hv, StrictCall.Decided]
    refine Iff.trans ?_ (find_isPoison_eq_verdict_iff hv)
    exact ⟨Prog.ret.inj, congrArg Prog.ret⟩
  | callback call =>
    obtain ⟨v, hv, hrun⟩ := hostCallbackTrampoline_of_poison call h
    refine ⟨?_, fun call' hcall => ?_⟩
    · rw [StrictCall.FollowsRule, hrun, StrictCall.Decided]
      refine Iff.trans ?_ (absorbUnknownOrErrorArg_eq_verdict_iff h)
      rw [hv, Option.some.injEq]
      constructor
      · intro heq
        have hcell := congrFun (congrArg HostRun.cells (Except.ok.inj heq)) call.outSlot
        dsimp only at hcell
        rwa [Function.update_self, Function.update_self] at hcell
      · exact fun heq => heq ▸ rfl
    · rw [← StrictCall.callback.inj hcall]
      exact ⟨v, hrun⟩

/-- The ids of one attribute. -/
def oneId : UnknownSet := ⟨[1], List.pairwise_singleton _ _⟩

/-- Two unknown arguments, of which the first carries both ids. -/
def twoUnknowns : HostCall where
  callback _ cells := .ok cells
  outSlot := 64
  argSlots := [0, 32]
  before :=
    { cells := fun slot => if slot = 0 then .unknown oneId else .unknown ∅
      invoked := [] }

theorem strictCall_followsRule_iff_merged : StrictCall.FollowsRule (.callback twoUnknowns) ∧
    ∃ v, hostCallbackTrampoline twoUnknowns.callback [64, 0, 32] twoUnknowns.before =
      .ok ⟨Function.update twoUnknowns.before.cells 64 v, []⟩ :=
  have hiff := strictCall_followsRule_iff (.callback twoUnknowns)
    ⟨.unknown oneId, List.mem_cons_self, rfl⟩
  ⟨hiff.1.mpr (by
    rintro s ⟨⟩ - v hv
    obtain rfl | hv := List.mem_cons.mp hv
    · exact fun _ hx => hx
    · obtain rfl := List.mem_singleton.mp hv
      exact fun x hx => absurd hx (SortedSet.notMem_empty x)),
    hiff.2 twoUnknowns rfl⟩

/-- `s.charAt(i)` of an unknown string at an index that is an ERROR. -/
def charAtUnknown : StrictCall :=
  .kernel .stubs (fun _ => none) (.charAt (.unknown oneId) (.error .divideByZero))

/-- **The ERROR is lost**: the string in front is UNKNOWN, and that is the result. -/
theorem charAtUnknown_not_followsRule :
    ¬∀ c : StrictCall, (∃ v ∈ c.operands, v.isPoison = true) → c.FollowsRule := by
  intro h
  have hrule := h charAtUnknown ⟨.unknown oneId, List.mem_cons_self, rfl⟩
  exact nomatch Prog.ret.inj hrule

end CelWasm
