import CelWasm.Compiler.ContainerOrigins
import CelWasm.Compiler.HostCalls
import CelWasm.Runtime.NumericOrder
import CelWasm.Runtime.SlotAliasing

/-!
# Compiler/OrderingCalls — the kernel an ordering of two numbers is lowered to

A call of `<`, `<=`, `>` or `>=` is lowered to the kernel of the first overload the checker lists, and
that is a kernel for one kind of operand if any such overload takes the operands. Only where both are
annotated with a kind, and not the same, is the kernel for all numbers taken instead:

    static      annotated     kernel                      right if
    int, int    int, int      of ints                     always
    dyn(u), i   uint, int     of numbers                  always
    dyn, int    ?, int        of ints                     the first is an int, too
    dyn, dyn    …, …          of the first overload       both are of its kind
-/

namespace CelWasm

open CellProg

/-! ## Overloads -/

/-- The ordering operators. -/
inductive OrderingOp
  | lt
  | le
  | gt
  | ge
  deriving DecidableEq

namespace OrderingOp

/-- One value for each operator. -/
def pick {β : Type} (lt le gt ge : β) : OrderingOp → β
  | .lt => lt
  | .le => le
  | .gt => gt
  | .ge => ge

/-- The name of the function. -/
def function : OrderingOp → String := pick "_<_" "_<=_" "_>_" "_>=_"

/-- What the ids of the overloads begin with. -/
def stem : OrderingOp → String := pick "less" "less_equals" "greater" "greater_equals"

/-- What the operator makes of a comparison. -/
def verdict : OrderingOp → CmpResult → Bool :=
  pick (· == .less) (fun r => r == .less || r == .equal) (· == .greater)
    (fun r => r == .greater || r == .equal)

end OrderingOp

/-- The kinds that are ordered. -/
inductive OrderedKind
  | int64
  | uint64
  | double
  | bool
  | string
  | bytes
  | duration
  | timestamp
  deriving DecidableEq

namespace OrderedKind

/-- The type of a parameter of the kind. -/
def type : OrderedKind → TypeSpec
  | int64 => .primitive .int64
  | uint64 => .primitive .uint64
  | double => .primitive .double
  | bool => .primitive .bool
  | string => .primitive .string
  | bytes => .primitive .bytes
  | duration => .wellKnown .duration
  | timestamp => .wellKnown .timestamp

/-- The tag of a value of the kind. -/
def tag : OrderedKind → CelKind
  | int64 => .int
  | uint64 => .uint
  | double => .double
  | bool => .bool
  | string => .string
  | bytes => .bytes
  | duration => .duration
  | timestamp => .timestamp

/-- What the ids of the overloads end with. -/
def idPart : OrderedKind → String
  | int64 => "int64"
  | uint64 => "uint64"
  | double => "double"
  | bool => "bool"
  | string => "string"
  | bytes => "bytes"
  | duration => "duration"
  | timestamp => "timestamp"

/-- The kinds of numbers. -/
def numeric : OrderedKind → Bool
  | int64 | uint64 | double => true
  | _ => false

end OrderedKind

/-- The overload for two operands of one kind. -/
def OrderingOp.sameId (op : OrderingOp) (k : OrderedKind) : String := op.stem ++ "_" ++ k.idPart

/-- The checker takes an operand for a parameter. -/
def TypeSpec.Fits (t p : TypeSpec) : Prop := t = .dyn ∨ t = p

/-- **What the checker lists for a call**: some overloads, each of which fits, all of those for one kind
that do, and these in front. -/
structure ListsOrdering (op : OrderingOp) (left right : TypeSpec) (overloads : List String) :
    Prop where
  accepted : overloads ≠ []
  fit : ∀ overload ∈ overloads,
    (∃ k, overload = op.sameId k ∧ left.Fits k.type ∧ right.Fits k.type) ∨
    ∃ k l : OrderedKind, k.numeric = true ∧ l.numeric = true ∧ k ≠ l ∧
      left.Fits k.type ∧ right.Fits l.type ∧
      overload = crossNumericOverloadId op.function (reprOf k.type) (reprOf l.type)
  complete : ∀ k : OrderedKind, left.Fits k.type → right.Fits k.type → op.sameId k ∈ overloads
  sameFirst : overloads.Pairwise fun x y => (∃ k, y = op.sameId k) → ∃ k, x = op.sameId k

/-- An overload for one kind that fits is a reason for one to be in front. -/
theorem ListsOrdering.head_same {op : OrderingOp} {left right : TypeSpec} {overloads : List String}
    (h : ListsOrdering op left right overloads) {k : OrderedKind} (hleft : left.Fits k.type)
    (hright : right.Fits k.type) : ∃ l, overloads.head? = some (op.sameId l) := by
  have hmem := h.complete k hleft hright
  cases overloads with
  | nil => exact nomatch hmem
  | cons first rest =>
    obtain hfirst | hrest := List.mem_cons.mp hmem
    · exact ⟨k, congrArg some hfirst.symm⟩
    · obtain ⟨l, hl⟩ := (List.pairwise_cons.mp h.sameFirst).1 _ hrest ⟨k, rfl⟩
      exact ⟨l, congrArg some hl⟩

/-! ## Kernels -/

/-- The comparisons by the names they are exported under. -/
def comparisonExports : List (String × ComparisonKernel) :=
  [("cel_int_lt_at_vv", .intLt), ("cel_int_le_at_vv", .intLe), ("cel_int_gt_at_vv", .intGt),
   ("cel_int_ge_at_vv", .intGe), ("cel_uint_lt_at_vv", .uintLt), ("cel_uint_le_at_vv", .uintLe),
   ("cel_uint_gt_at_vv", .uintGt), ("cel_uint_ge_at_vv", .uintGe),
   ("cel_double_lt_at_vv", .doubleLt), ("cel_double_le_at_vv", .doubleLe),
   ("cel_double_gt_at_vv", .doubleGt), ("cel_double_ge_at_vv", .doubleGe),
   ("cel_bool_eq_at_vv", .boolEq), ("cel_bool_lt_at_vv", .boolLt), ("cel_bool_le_at_vv", .boolLe),
   ("cel_bool_gt_at_vv", .boolGt), ("cel_bool_ge_at_vv", .boolGe), ("cel_dur_lt_at_vv", .durLt),
   ("cel_dur_le_at_vv", .durLe), ("cel_dur_gt_at_vv", .durGt), ("cel_dur_ge_at_vv", .durGe),
   ("cel_ts_lt_at_vv", .tsLt), ("cel_ts_le_at_vv", .tsLe), ("cel_ts_gt_at_vv", .tsGt),
   ("cel_ts_ge_at_vv", .tsGe), ("cel_string_eq_at_vv", .stringEq),
   ("cel_string_lt_at_vv", .stringLt), ("cel_string_le_at_vv", .stringLe),
   ("cel_string_gt_at_vv", .stringGt), ("cel_string_ge_at_vv", .stringGe),
   ("cel_bytes_eq_at_vv", .bytesEq), ("cel_bytes_lt_at_vv", .bytesLt),
   ("cel_bytes_le_at_vv", .bytesLe), ("cel_bytes_gt_at_vv", .bytesGt),
   ("cel_bytes_ge_at_vv", .bytesGe), ("cel_numeric_eq_at_vv", .numericEq),
   ("cel_numeric_lt_at_vv", .numericLt), ("cel_numeric_le_at_vv", .numericLe),
   ("cel_numeric_gt_at_vv", .numericGt), ("cel_numeric_ge_at_vv", .numericGe),
   ("cel_null_eq_at_vv", .nullEq)]

/-- The kernel for two operands of one kind. -/
def OrderingOp.sameKernel (op : OrderingOp) : OrderedKind → ComparisonKernel
  | .int64 => op.pick .intLt .intLe .intGt .intGe
  | .uint64 => op.pick .uintLt .uintLe .uintGt .uintGe
  | .double => op.pick .doubleLt .doubleLe .doubleGt .doubleGe
  | .bool => op.pick .boolLt .boolLe .boolGt .boolGe
  | .string => op.pick .stringLt .stringLe .stringGt .stringGe
  | .bytes => op.pick .bytesLt .bytesLe .bytesGt .bytesGe
  | .duration => op.pick .durLt .durLe .durGt .durGe
  | .timestamp => op.pick .tsLt .tsLe .tsGt .tsGe

/-- The kernel for all numbers. -/
def OrderingOp.numericKernel : OrderingOp → ComparisonKernel :=
  pick .numericLt .numericLe .numericGt .numericGe

section Kernels

variable {op : OrderingOp} {k : OrderedKind} {x y : CelValue} {a b out : Slot}
  {cells : Slot → CelValue}

/-- **On numbers the kernel for all of them is the comparison.** -/
theorem result_numericKernel (hx : isNumber x = true) (hy : isNumber y = true) (hsx : cells a = x)
    (hsy : cells b = y) : result (op.numericKernel.run · a b) out cells
      = return .bool (op.verdict (numericCompareKernel x y)) := by
  have hrun : op.numericKernel.run = numericKernelAt op.verdict := by cases op <;> rfl
  have htag : ∀ {v : CelValue}, isNumber v = true → isNumericTag v.kind = true := by
    intro v hv
    cases v with
    | int | uint | double => rfl
    | _ => exact nomatch hv
  rw [hrun, (computes_numericKernelAt _ a b).result_eq, hsx, hsy,
    unlessAbsorbed_of_not_poison (not_isPoison_of_isNumber hx).1 (not_isPoison_of_isNumber hy).1,
    htag hx, htag hy]
  rfl

/-- What the kernels for one kind have in common. -/
theorem sameKernel_run (op : OrderingOp) (k : OrderedKind) :
    ∃ (α : Type) (arm : CelValue → Option α) (rel : α → α → Bool),
      (op.sameKernel k).run = strictKernelAt k.tag arm fun x y => .bool (rel x y) := by
  cases op <;> cases k <;> exact ⟨_, _, _, rfl⟩

/-- **A number of another kind is a type mismatch.** -/
theorem result_sameKernel_of_ne (hx : isNumber x = true) (hy : isNumber y = true)
    (hne : x.kind ≠ k.tag ∨ y.kind ≠ k.tag) (hsx : cells a = x) (hsy : cells b = y) :
    result ((op.sameKernel k).run · a b) out cells = return .error .typeMismatch := by
  obtain ⟨α, arm, rel, hrun⟩ := sameKernel_run op k
  rw [hrun, (computes_strictKernelAt _ _ _ a b).result_eq, hsx, hsy, strictKernel,
    unlessAbsorbed_of_not_poison (not_isPoison_of_isNumber hx).1 (not_isPoison_of_isNumber hy).1,
    if_pos hne]

/-- The verdict on two integers. -/
theorem verdict_ofOrdering (op : OrderingOp) (i j : ℤ) : op.verdict (.ofOrdering (cmp i j))
    = op.pick (decide (i < j)) (decide (i ≤ j)) (decide (j < i)) (decide (j ≤ i)) := by
  obtain h | rfl | h := lt_trichotomy i j
  · rw [(cmp_eq_lt_iff i j).mpr h, decide_eq_true h, decide_eq_true h.le, decide_eq_false h.not_gt,
      decide_eq_false h.not_ge]
    cases op <;> rfl
  · rw [cmp_self_eq_eq, decide_eq_false (lt_irrefl i), decide_eq_true le_rfl]
    cases op <;> rfl
  · rw [(cmp_eq_gt_iff i j).mpr h, decide_eq_true h, decide_eq_true h.le, decide_eq_false h.not_gt,
      decide_eq_false h.not_ge]
    cases op <;> rfl

/-- A kernel for one kind, on two numbers of it. -/
theorem result_of_strict {α : Type} {arm : CelValue → Option α} {rel : α → α → Bool} {v w : α}
    {t : CelKind} (hrun : (op.sameKernel k).run = strictKernelAt t arm fun x y => .bool (rel x y))
    (hx : isNumber x = true) (hy : isNumber y = true) (htx : x.kind = t) (hty : y.kind = t)
    (hv : arm x = some v) (hw : arm y = some w) (hsx : cells a = x) (hsy : cells b = y) :
    result ((op.sameKernel k).run · a b) out cells = return .bool (rel v w) := by
  rw [hrun, (computes_strictKernelAt _ _ _ a b).result_eq, hsx, hsy, strictKernel,
    unlessAbsorbed_of_not_poison (not_isPoison_of_isNumber hx).1 (not_isPoison_of_isNumber hy).1,
    if_neg (by simp [htx, hty]), hv, hw]
  rfl

theorem sameKernel_int64_run (op : OrderingOp) : (op.sameKernel .int64).run
    = strictKernelAt .int CelValue.int? fun x y => .bool
        (op.pick (decide (x < y)) (decide (x ≤ y)) (decide (x > y)) (decide (x ≥ y))) := by
  cases op <;> rfl

theorem sameKernel_uint64_run (op : OrderingOp) : (op.sameKernel .uint64).run
    = strictKernelAt .uint CelValue.uint? fun x y => .bool
        (op.pick (decide (x < y)) (decide (x ≤ y)) (decide (x > y)) (decide (x ≥ y))) := by
  cases op <;> rfl

theorem sameKernel_double_run (op : OrderingOp) : (op.sameKernel .double).run
    = strictKernelAt .double CelValue.double? fun x y => .bool
        (op.pick (x.lt y) (x.le y) (y.lt x) (y.le x)) := by
  cases op <;> rfl

/-- **On two numbers of its kind such a kernel is the comparison, too.** -/
theorem result_sameKernel_of_eq (hx : isNumber x = true) (hy : isNumber y = true)
    (hkx : x.kind = k.tag) (hky : y.kind = k.tag) (hsx : cells a = x) (hsy : cells b = y) :
    result ((op.sameKernel k).run · a b) out cells
      = return .bool (op.verdict (numericCompareKernel x y)) := by
  cases k with
  | int64 =>
    obtain ⟨i, rfl⟩ : ∃ i, x = .int i := by cases x <;> first | exact ⟨_, rfl⟩ | cases hkx
    obtain ⟨j, rfl⟩ : ∃ j, y = .int j := by cases y <;> first | exact ⟨_, rfl⟩ | cases hky
    rw [result_of_strict (sameKernel_int64_run op) hx hy rfl rfl rfl rfl hsx hsy,
      numericCompareKernel, cmpI64_eq, verdict_ofOrdering]
    simp only [gt_iff_lt, ge_iff_le, Int64.lt_iff_toInt_lt, Int64.le_iff_toInt_le]
  | uint64 =>
    obtain ⟨i, rfl⟩ : ∃ i, x = .uint i := by cases x <;> first | exact ⟨_, rfl⟩ | cases hkx
    obtain ⟨j, rfl⟩ : ∃ j, y = .uint j := by cases y <;> first | exact ⟨_, rfl⟩ | cases hky
    rw [result_of_strict (sameKernel_uint64_run op) hx hy rfl rfl rfl rfl hsx hsy,
      numericCompareKernel, cmpU64_eq, verdict_ofOrdering]
    simp only [gt_iff_lt, ge_iff_le, UInt64.lt_iff_toNat_lt, UInt64.le_iff_toNat_le, Nat.cast_lt,
      Nat.cast_le]
  | double =>
    obtain ⟨d, rfl⟩ : ∃ d, x = .double d := by
      cases x <;> first | exact ⟨_, rfl⟩ | cases hkx
    obtain ⟨e, rfl⟩ : ∃ e, y = .double e := by
      cases y <;> first | exact ⟨_, rfl⟩ | cases hky
    have hd : d.isNaN = false := Bool.not_eq_true' _ ▸ hx
    have he : e.isNaN = false := Bool.not_eq_true' _ ▸ hy
    rw [result_of_strict (sameKernel_double_run op) hx hy rfl rfl rfl rfl hsx hsy,
      numericCompareKernel, cmpDouble_eq hd he, verdict_ofOrdering]
    simp only [Binary64.lt, Binary64.le, hd, he, Bool.not_false, Bool.true_and]
  | _ =>
    cases x with
    | int | uint | double => cases hkx
    | _ => cases hx

end Kernels

/-! ## Lowering -/

/-- The comparison that a standard overload is lowered to. -/
def seedKernel (overloadId : String) : Option ComparisonKernel := do
  let impl ← seedBuiltins.find? fun impl => impl.overloadId == overloadId
  comparisonExports.lookup impl.wasmImportFunctionName

section Seeds

def OrderingOp.all : List OrderingOp := [.lt, .le, .gt, .ge]

def OrderedKind.all : List OrderedKind :=
  [.int64, .uint64, .double, .bool, .string, .bytes, .duration, .timestamp]

/-- The two kinds of the overloads for two kinds. -/
def crossKinds : List (OrderedKind × OrderedKind) :=
  [(.int64, .uint64), (.uint64, .int64), (.int64, .double), (.double, .int64), (.uint64, .double),
   (.double, .uint64)]

theorem OrderingOp.mem_all (op : OrderingOp) : op ∈ all := by
  cases op <;> simp [all]

theorem OrderedKind.mem_all (k : OrderedKind) : k ∈ all := by
  cases k <;> simp [all]

theorem mem_crossKinds {k l : OrderedKind} (hk : k.numeric = true) (hl : l.numeric = true)
    (hne : k ≠ l) : (k, l) ∈ crossKinds := by
  revert hk hl hne
  cases k <;> cases l <;> decide

theorem seedKernel_sameIds :
    (OrderingOp.all.product OrderedKind.all).map (fun p => seedKernel (p.1.sameId p.2))
      = (OrderingOp.all.product OrderedKind.all).map fun p => some (p.1.sameKernel p.2) := by
  rfl

theorem seedKernel_crossIds :
    (OrderingOp.all.product crossKinds).map (fun p => seedKernel
        (crossNumericOverloadId p.1.function (reprOf p.2.1.type) (reprOf p.2.2.type)))
      = (OrderingOp.all.product crossKinds).map fun p => some p.1.numericKernel := by
  rfl

theorem seedKernel_sameId (op : OrderingOp) (k : OrderedKind) :
    seedKernel (op.sameId k) = some (op.sameKernel k) :=
  List.map_inj_left.mp seedKernel_sameIds (op, k)
    (List.pair_mem_product.mpr ⟨op.mem_all, k.mem_all⟩)

theorem seedKernel_crossId (op : OrderingOp) {k l : OrderedKind} (hk : k.numeric = true)
    (hl : l.numeric = true) (hne : k ≠ l) :
    seedKernel (crossNumericOverloadId op.function (reprOf k.type) (reprOf l.type))
      = some op.numericKernel :=
  List.map_inj_left.mp seedKernel_crossIds (op, k, l)
    (List.pair_mem_product.mpr ⟨op.mem_all, mem_crossKinds hk hl hne⟩)

theorem seedKernel_empty : seedKernel "" = none := by rfl

/-- The ids tell the kinds apart, since their kernels do. -/
theorem sameId_injective (op : OrderingOp) {k l : OrderedKind} (h : op.sameId k = op.sameId l) :
    k = l := by
  have hkernel : op.sameKernel k = op.sameKernel l := by
    have hseed := seedKernel_sameId op k
    rw [h, seedKernel_sameId] at hseed
    exact (Option.some.inj hseed).symm
  cases op <;> cases k <;> cases l <;> first | rfl | exact nomatch hkernel

end Seeds

section Emit

variable {libraries : List FunctionLibrary} {table : OverloadTable} {overloadId : String}
  {kernel : ComparisonKernel} {call : CallSite} {op : OrderingOp}

/-- **A standard overload is found in every table.** -/
theorem resolveCallHelper_of_seedKernel (call : CallSite)
    (hbuild : buildOverloadTable libraries = .ok table) (h : seedKernel overloadId = some kernel) : ∃ name,
      call.resolveCallHelper table overloadId = .ok name ∧
        comparisonExports.lookup name = some kernel := by
  have hne : overloadId ≠ "" := by
    rintro rfl
    rw [seedKernel_empty] at h
    exact nomatch h
  obtain ⟨impl, hfind, hkernel⟩ := Option.bind_eq_some_iff.mp h
  have hlookup : table.lookup overloadId = some impl := by
    rw [OverloadTable.lookup, (buildOverloadTable_eq_ok hbuild).1, List.find?_append, hfind]
    rfl
  exact ⟨_, by rw [CallSite.resolveCallHelper, if_neg hne, hlookup], hkernel⟩

/-- The overload a call is lowered by. -/
def CallSite.chosenId (call : CallSite) : String :=
  if call.maybeRepickCrossNumericOverload ≠ "" then call.maybeRepickCrossNumericOverload
  else call.overloadId

theorem emit_of_seedKernel (hbuild : buildOverloadTable libraries = .ok table)
    (hfunction : call.function = op.function) (h : seedKernel call.chosenId = some kernel) :
    ∃ name, call.emit table = .ok (.helper name) ∧
      comparisonExports.lookup name = some kernel := by
  obtain ⟨name, hname, hkernel⟩ := resolveCallHelper_of_seedKernel call hbuild h
  have hgeneral : call.emitGeneralCall table = .ok name := hname
  have hown : op.function ∉ ["dyn", "_[_]", "_?_:_"] := by cases op <;> decide
  simp only [List.mem_cons, List.not_mem_nil, or_false, not_or] at hown
  refine ⟨name, ?_, hkernel⟩
  rw [CallSite.emit, hfunction, if_neg fun hdyn => hown.1 hdyn.1, if_neg hown.2.1, if_neg hown.2.2,
    hgeneral]
  rfl

/-- A call of an ordering, by what its operands are annotated with. -/
def orderingSite (op : OrderingOp) (id : ℤ) (left right : NodeRepr) (overloads : List String) :
    CallSite where
  exprId := .ofInt id
  function := op.function
  named := by cases op <;> decide
  hasTarget := false
  argReprs := [some left, some right]
  overloads

theorem exists_kind_of_isNumeric {r : NodeRepr} (h : r.isNumeric = true) :
    ∃ k : OrderedKind, k.numeric = true ∧ reprOf k.type = r := by
  cases r with
  | int => exact ⟨.int64, rfl, rfl⟩
  | uint => exact ⟨.uint64, rfl, rfl⟩
  | double => exact ⟨.double, rfl, rfl⟩
  | _ => exact nomatch h

/-- The kinds at the two operands are known, and not the same. -/
def CrossKinds (left right : NodeRepr) : Prop :=
  left.isNumeric = true ∧ right.isNumeric = true ∧ left ≠ right

/-- **Two kinds that are known are lowered to the kernel for all numbers.** -/
theorem seedKernel_of_crossKinds (op : OrderingOp) (id : ℤ) (overloads : List String)
    {left right : NodeRepr} (h : CrossKinds left right) :
    seedKernel (orderingSite op id left right overloads).chosenId = some op.numericKernel := by
  obtain ⟨hleft, hright, hne⟩ := h
  obtain ⟨k, hk, rfl⟩ := exists_kind_of_isNumeric hleft
  obtain ⟨l, hl, rfl⟩ := exists_kind_of_isNumeric hright
  have hseed := seedKernel_crossId op hk hl fun h => hne (congrArg (fun k => reprOf k.type) h)
  have hpick : (orderingSite op id (reprOf k.type) (reprOf l.type)
      overloads).maybeRepickCrossNumericOverload
        = crossNumericOverloadId op.function (reprOf k.type) (reprOf l.type) := rfl
  rw [CallSite.chosenId, hpick, if_pos fun hempty => ?_]
  · exact hseed
  · rw [hempty, seedKernel_empty] at hseed
    exact nomatch hseed

/-- **Any others are lowered to the kernel of the first overload.** -/
theorem chosenId_of_not_crossKinds {id : ℤ} {left right : NodeRepr} {overloads : List String}
    {first : String} (h : ¬CrossKinds left right) (hfirst : overloads.head? = some first) :
    (orderingSite op id left right overloads).chosenId = first := by
  have hempty : crossNumericOverloadId op.function left right = "" := by
    rw [crossNumericOverloadId, if_pos]
    by_contra hcross
    simp only [Bool.or_eq_true, Bool.not_eq_true', beq_iff_eq, not_or, Bool.not_eq_false] at hcross
    exact h ⟨hcross.1.1, hcross.1.2, hcross.2⟩
  have hpick : (orderingSite op id left right overloads).maybeRepickCrossNumericOverload
      = crossNumericOverloadId op.function left right := rfl
  rw [CallSite.chosenId, hpick, hempty, if_neg (by simp), CallSite.overloadId, List.headD_eq_head?_getD]
  exact congrArg (fun o : Option String => o.getD "") hfirst

end Emit

/-! ## Operands -/

section Operands

variable {types : TypeMap} {resolver : ResolverState} {root e a b : Expr ℤ} {x y : CelValue}

/-- **A value that an expression may come to**, as far as its static type says: `dyn` comes to what
its argument comes to. -/
inductive Delivers (types : TypeMap) : Expr ℤ → CelValue → Prop
  | own {e : Expr ℤ} {x : CelValue} (hown : e.dynArg? = none)
    (h : ∀ k : OrderedKind, nodeRepr types e.ann = reprOf k.type → x.kind = k.tag) : Delivers types e x
  | dyn {e arg : Expr ℤ} {x : CelValue} (harg : e.dynArg? = some arg) (h : Delivers types arg x) :
    Delivers types e x

/-- What the nodes are annotated with when calls are lowered. -/
abbrev loweredAnnotations (types : TypeMap) (resolver : ResolverState) (root : Expr ℤ) :
    WasmAnnotations :=
  stampOrigins root (resolvedAnnotations types resolver)

/-- The first two walks leave the representation alone. -/
theorem repr_ownOrigins (ann : NodeAnnotation) (e : Expr ℤ) : (ownOrigins ann e).repr = ann.repr := by
  have hmap (ann : NodeAnnotation) : ann.stampHostIfMapTyped.repr = ann.repr := by
    rw [ NodeAnnotation.stampHostIfMapTyped]
    split_ifs <;> rfl
  have hlist (ann : NodeAnnotation) : ann.stampHostIfListTyped.repr = ann.repr := by
    rw [ NodeAnnotation.stampHostIfListTyped]
    split_ifs <;> rfl
  cases e with
  | ident | select => exact (hlist _).trans (hmap ann)
  | _ => rfl

/-- A node that is no `dyn` call is annotated with its type. -/
theorem repr_lowered_own (hids : (root.postOrder.map Expr.ann).Nodup) (he : e ∈ root.postOrder)
    (hown : e.dynArg? = none) :
    (loweredAnnotations types resolver root e.ann).repr = nodeRepr types e.ann := by
  rw [loweredAnnotations, stampOrigins_own hids he hown, repr_ownOrigins]
  rfl

/-- **An operand of an ordering of numbers**: of the type of a number or of `dyn`, as every `dyn` call
is, and a number when it is run. -/
structure NumberOperand (types : TypeMap) (e : Expr ℤ) (t : TypeSpec) (x : CelValue) : Prop where
  typed : types e.ann = some t
  static : t = .dyn ∨ ∃ k : OrderedKind, k.numeric = true ∧ t = k.type
  dynTyped : e.dynArg?.isSome = true → t = .dyn
  delivers : Delivers types e x
  number : isNumber x = true

variable {ta tb : TypeSpec}

/-- An operand of a type of its own is annotated with it. -/
theorem NumberOperand.repr_eq (h : NumberOperand types e ta x)
    (hids : (root.postOrder.map Expr.ann).Nodup) (he : e ∈ root.postOrder) {k : OrderedKind}
    (hk : ta = k.type) : (loweredAnnotations types resolver root e.ann).repr = reprOf k.type := by
  have hown : e.dynArg? = none := by
    cases hdyn : e.dynArg? with
    | none => rfl
    | some arg =>
      have hty := h.dynTyped (by rw [hdyn]; rfl)
      rw [hk] at hty
      cases k <;> exact nomatch hty
  rw [repr_lowered_own hids he hown, nodeRepr, h.typed, hk]
  rfl

theorem type_injective {k l : OrderedKind} (hk : k.numeric = true) (hl : l.numeric = true)
    (h : reprOf k.type = reprOf l.type) : k = l := by
  revert h hk hl
  cases k <;> cases l <;> decide

/-- **Operands that no overload for one kind fits** are annotated with two kinds. -/
theorem crossKinds_of_not_fits (hids : (root.postOrder.map Expr.ann).Nodup)
    (ha : a ∈ root.postOrder) (hb : b ∈ root.postOrder) (hx : NumberOperand types a ta x)
    (hy : NumberOperand types b tb y)
    (hnone : ∀ k : OrderedKind, ¬(ta.Fits k.type ∧ tb.Fits k.type)) :
    CrossKinds (loweredAnnotations types resolver root a.ann).repr
      (loweredAnnotations types resolver root b.ann).repr := by
  obtain hta | ⟨k, hk, hta⟩ := hx.static
  · obtain htb | ⟨l, -, htb⟩ := hy.static
    · exact absurd ⟨.inl hta, .inl htb⟩ (hnone .int64)
    · exact absurd ⟨.inl hta, .inr htb⟩ (hnone l)
  · obtain htb | ⟨l, hl, htb⟩ := hy.static
    · exact absurd ⟨.inr hta, .inl htb⟩ (hnone k)
    · have hnumeric : ∀ {k : OrderedKind}, k.numeric = true → (reprOf k.type).isNumeric = true := by
        intro k hk
        cases k <;> first | rfl | exact nomatch hk
      rw [CrossKinds, hx.repr_eq hids ha hta, hy.repr_eq hids hb htb]
      refine ⟨hnumeric hk, hnumeric hl, fun hsame => ?_⟩
      obtain rfl := type_injective hk hl hsame
      exact hnone k ⟨.inr hta, .inr htb⟩

/-! ## When the kernel is the right one -/

/-- **The call is lowered to a kernel for its operands.** -/
def RightKernel (op : OrderingOp) (left right : NodeRepr) (overloads : List String)
    (x y : CelValue) : Prop :=
  CrossKinds left right ∨
    ∃ k, overloads.head? = some (op.sameId k) ∧ x.kind = k.tag ∧ y.kind = k.tag

variable {libraries : List FunctionLibrary} {table : OverloadTable} {op : OrderingOp} {id : ℤ}
  {overloads : List String}

/-- **An ordering of two numbers is exact if and only if it is lowered to a kernel for them**, and a type
mismatch otherwise. -/
theorem ordering_exact_iff (hbuild : buildOverloadTable libraries = .ok table)
    (hids : (root.postOrder.map Expr.ann).Nodup)
    (hcall : Expr.call id op.function false [a, b] ∈ root.postOrder)
    (hx : NumberOperand types a ta x) (hy : NumberOperand types b tb y)
    (hlists : ListsOrdering op ta tb overloads) :
    let left := (loweredAnnotations types resolver root a.ann).repr
    let right := (loweredAnnotations types resolver root b.ann).repr
    ∃ name kernel, (orderingSite op id left right overloads).emit table = .ok (.helper name) ∧
      comparisonExports.lookup name = some kernel ∧
      ∀ (cells : Slot → CelValue) (slotA slotB out : Slot), cells slotA = x → cells slotB = y →
        (result (kernel.run · slotA slotB) out cells
            = pure (.bool (op.verdict (numericCompareKernel x y))) ↔
          RightKernel op left right overloads x y) ∧
        (¬RightKernel op left right overloads x y →
          result (kernel.run · slotA slotB) out cells = return .error .typeMismatch) := by
  intro left right
  have ha : a ∈ root.postOrder :=
    mem_postOrder_trans hcall (mem_postOrder_child List.mem_cons_self)
  have hb : b ∈ root.postOrder :=
    mem_postOrder_trans hcall (mem_postOrder_child (List.mem_cons_of_mem _ List.mem_cons_self))
  by_cases hcross : CrossKinds left right
  · obtain ⟨name, hemit, hkernel⟩ :=
      emit_of_seedKernel hbuild rfl (seedKernel_of_crossKinds op id overloads hcross)
    refine ⟨name, _, hemit, hkernel, fun cells slotA slotB out hsa hsb => ⟨?_, ?_⟩⟩
    · exact iff_of_true (result_numericKernel hx.number hy.number hsa hsb) (Or.inl hcross)
    · exact fun hnot => absurd (Or.inl hcross) hnot
  · obtain ⟨k, hfirst⟩ : ∃ k, overloads.head? = some (op.sameId k) := by
      by_contra hnone
      refine hcross (crossKinds_of_not_fits hids ha hb hx hy fun k hfits => hnone ?_)
      exact hlists.head_same hfits.1 hfits.2
    have hseed : seedKernel (orderingSite op id left right overloads).chosenId
        = some (op.sameKernel k) := by
      rw [chosenId_of_not_crossKinds hcross hfirst, seedKernel_sameId]
    obtain ⟨name, hemit, hkernel⟩ := emit_of_seedKernel hbuild rfl hseed
    refine ⟨name, _, hemit, hkernel, fun cells slotA slotB out hsa hsb => ?_⟩
    by_cases hkinds : x.kind = k.tag ∧ y.kind = k.tag
    · have hright : RightKernel op left right overloads x y := .inr ⟨k, hfirst, hkinds⟩
      exact ⟨iff_of_true (result_sameKernel_of_eq hx.number hy.number hkinds.1 hkinds.2 hsa hsb)
        hright, fun hnot => absurd hright hnot⟩
    · have hmismatch : result ((op.sameKernel k).run · slotA slotB) out cells
          = return .error .typeMismatch :=
        result_sameKernel_of_ne hx.number hy.number (not_and_or.mp hkinds) hsa hsb
      have hwrong : ¬RightKernel op left right overloads x y := by
        rintro (hright | ⟨l, hl, hkinds'⟩)
        · exact hcross hright
        · rw [hfirst] at hl
          obtain rfl := sameId_injective op (Option.some.inj hl)
          exact hkinds hkinds'
      refine ⟨iff_of_false ?_ hwrong, fun _ => hmismatch⟩
      rw [hmismatch]
      exact nofun

end Operands

/-! ## Two calls -/

/-- Where one operand is an int, the checker lists the overload for ints. -/
theorem listsOrdering_dyn_int (op : OrderingOp) :
    ListsOrdering op .dyn (.primitive .int64) [op.sameId .int64] where
  accepted := List.cons_ne_nil _ _
  fit := by
    intro overload hmem
    exact .inl ⟨.int64, List.mem_singleton.mp hmem, .inl rfl, .inr rfl⟩
  complete := by
    rintro k - (hdyn | hk)
    · exact nomatch hdyn
    · cases k <;> first | exact List.mem_singleton_self _ | exact nomatch hk
  sameFirst := List.pairwise_singleton _ _

/-- `dyn(1u) < 2`. -/
def dynLessExpr : Expr ℤ :=
  .call 1 "_<_" false [.call 2 "dyn" false [.const 3 (.uint 1)], .const 4 (.int 2)]

def dynLessTypes : TypeMap
  | 1 => some (.primitive .bool)
  | 2 => some .dyn
  | 3 => some (.primitive .uint64)
  | 4 => some (.primitive .int64)
  | _ => none

/-- **A `uint` behind `dyn` is compared with an `int`.** -/
theorem ordering_exact_dynLess : ∃ name kernel,
    (orderingSite .lt 1 .uint .int ["less_int64"]).emit ⟨seedBuiltins⟩ = .ok (.helper name) ∧
      comparisonExports.lookup name = some kernel ∧
      result (kernel.run · 0 1) 2 (fun s => if s = 0 then .uint 1 else .int 2)
        = return .bool true := by
  have hx : NumberOperand dynLessTypes (.call 2 "dyn" false [.const 3 (.uint 1)]) .dyn (.uint 1) := by
    refine ⟨rfl, .inl rfl, fun _ => rfl, .dyn rfl (.own rfl fun k hk => ?_), rfl⟩
    cases k <;> first | rfl | exact nomatch hk
  have hy : NumberOperand dynLessTypes (.const 4 (.int 2)) (.primitive .int64) (.int 2) := by
    refine ⟨rfl, .inr ⟨.int64, rfl, rfl⟩, nofun, .own rfl fun k hk => ?_, rfl⟩
    cases k <;> first | rfl | exact nomatch hk
  have hbuild : buildOverloadTable [] = .ok ⟨seedBuiltins⟩ := rfl
  have hcall : Expr.call 1 OrderingOp.lt.function false
      [.call 2 "dyn" false [.const 3 (.uint 1)], .const 4 (.int 2)] ∈ dynLessExpr.postOrder :=
    mem_postOrder_self dynLessExpr
  obtain ⟨name, kernel, hemit, hkernel, hrun⟩ := @ordering_exact_iff _ .initial _ _ _ _ _ _ _ _ _ _ _ _
    hbuild (by decide) hcall hx hy (listsOrdering_dyn_int .lt)
  refine ⟨name, kernel, hemit, hkernel, ((hrun _ 0 1 2 rfl rfl).1.mpr (.inl ?_)).trans rfl⟩
  exact ⟨rfl, rfl, by decide⟩

/-- `math.greatest(1, 2.0) > 1`, as it is expanded. -/
def greatestExpr : Expr ℤ :=
  .call 1 "_>_" false
    [.call 2 "math.@max" false [.const 3 (.int 1), .const 4 (.double (Binary64.ofInt 2))],
      .const 5 (.int 1)]

def greatestTypes : TypeMap
  | 1 => some (.primitive .bool)
  | 2 => some .dyn
  | 3 | 5 => some (.primitive .int64)
  | 4 => some (.primitive .double)
  | _ => none

/-- **The greatest of an int and a double** is compared as if it were an int. -/
theorem greatest_mismatch :
    checkSubsetNode greatestTypes (fun _ => "") greatestExpr = [] ∧
      (orderingSite .gt 1 (loweredAnnotations greatestTypes .initial greatestExpr 2).repr
          (loweredAnnotations greatestTypes .initial greatestExpr 5).repr
          ["greater_int64"]).emit ⟨seedBuiltins⟩ = .ok (.helper "cel_int_gt_at_vv") ∧
      mathMinmaxReplaces (.int 1) (.double (Binary64.ofInt 2)) true = true ∧
      numericCompareKernel (.double (Binary64.ofInt 2)) (.int 1) = .greater ∧
      result (celIntGtAt · 2 3) 4 (fun s => if s = 2 then .double (Binary64.ofInt 2) else .int 1)
        = pure (.error .typeMismatch) :=
  ⟨by rfl, by rfl, by decide +kernel, by decide +kernel, by rfl⟩

end CelWasm
