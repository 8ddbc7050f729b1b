import CelWasm.Runtime.Arithmetic
import CelWasm.Runtime.SlotKernels

/-!
# Runtime/SlotArithmetic — arithmetic, comparison, time and math on cells

Most of these kernels absorb poison, ask both operands for one kind and then compute on the payloads:
`strictKernelAt`. The others look at an operand again in between — a divisor, the kinds of a pair, the
count of a shift — and each of them can have written an error by then, but only on its way out.
-/

namespace CelWasm

open CellProg

/-! ## One kind for both operands -/

/-- `absorb_3vl_binary`, `require_kinds`, and a result from the payloads. -/
def strictKernelAt {α : Type} (want : CelKind) (arm : CelValue → Option α)
    (compute : α → α → CelValue) (out a b : Slot) : SlotKernel Unit := do
  if ← absorb3vlBinaryAt out a b then return
  if ← requireKindsAt want out a b then return
  store out (compute (← payload arm a) (← payload arm b))

/-- What such a kernel comes to. -/
def strictKernel {α : Type} (want : CelKind) (arm : CelValue → Option α)
    (compute : α → α → CelValue) (a b : CelValue) : Kernel CelValue :=
  unlessAbsorbed a b <|
    if a.kind ≠ want ∨ b.kind ≠ want then return .error .typeMismatch
    else do
      let x ← (arm a).elim (Prog.stop .wildRead) pure
      let y ← (arm b).elim (Prog.stop .wildRead) pure
      return compute x y

section Strict

variable {α : Type} (want : CelKind) (arm : CelValue → Option α) (compute : α → α → CelValue)

/-- **A strict operation of two operands of one kind**: poison, then the kinds, then the operation.
-/
theorem computes_strictKernelAt (a b : Slot) : Computes (strictKernelAt want arm compute · a b)
    fun cells => strictKernel want arm compute (cells a) (cells b) := by
  refine computes_unlessAbsorbed a b <| .congr (.unless (settles_requireKinds2At a b _ _) <|
    .read (reads_payload arm a) fun _ => .read (reads_payload arm b) fun _ => computes_store _)
    fun cells => ?_
  split_ifs <;> rfl

end Strict

section IntArithmetic

/-- `cel_int_add_at_vv`. -/
def celIntAddAt : Slot → Slot → Slot → SlotKernel Unit :=
  strictKernelAt .int CelValue.int? fun x y => orOverflow .int (addInt64 x y)

/-- `cel_int_sub_at_vv`. -/
def celIntSubAt : Slot → Slot → Slot → SlotKernel Unit :=
  strictKernelAt .int CelValue.int? fun x y => orOverflow .int (subInt64 x y)

/-- `cel_int_mul_at_vv`. -/
def celIntMulAt : Slot → Slot → Slot → SlotKernel Unit :=
  strictKernelAt .int CelValue.int? fun x y => orOverflow .int (int64MulOverflows x y)

/-- The common body of `cel_int_div_at_vv` and `cel_int_mod_at_vv`. -/
def intDivisionAt (byZero : CelErr) (op : Int64 → Int64 → Int64) (out a b : Slot) :
    SlotKernel Unit := do
  if ← absorb3vlBinaryAt out a b then return
  if ← requireKindsAt .int out a b then return
  if (← payload CelValue.int? b) = 0 then
    poisonAt out byZero
    return
  if (← payload CelValue.int? a) = Int64.minValue && (← payload CelValue.int? b) = -1 then
    poisonAt out .overflow
    return
  store out (.int (op (← payload CelValue.int? a) (← payload CelValue.int? b)))

/-- `cel_int_div_at_vv`. -/
def celIntDivAt : Slot → Slot → Slot → SlotKernel Unit := intDivisionAt .divideByZero (· / ·)

/-- `cel_int_mod_at_vv`. -/
def celIntModAt : Slot → Slot → Slot → SlotKernel Unit := intDivisionAt .modulusByZero (· % ·)

/-- A division tests the divisor before it writes, -/
theorem writesLast_intDivisionAt (byZero : CelErr) (op : Int64 → Int64 → Int64) (a b : Slot) :
    WritesLast (intDivisionAt byZero op · a b) :=
  ⟨_, .unless (settles_absorb3vlBinaryAt a b) <| .unless (settles_requireKinds2At a b _ _) <|
    .read (reads_payload _ b) fun _ => .ite (computes_store _) <|
      .read (reads_payload _ a) fun _ => .read (reads_payload _ b) fun _ =>
        .ite (computes_store _) <|
          .read (reads_payload _ a) fun _ => .read (reads_payload _ b) fun _ => computes_store _⟩

end IntArithmetic

section UintArithmetic

/-- `cel_uint_add_at_vv`. -/
def celUintAddAt : Slot → Slot → Slot → SlotKernel Unit :=
  strictKernelAt .uint CelValue.uint? fun x y => orOverflow .uint (addUInt64 x y)

/-- `cel_uint_sub_at_vv`. -/
def celUintSubAt : Slot → Slot → Slot → SlotKernel Unit :=
  strictKernelAt .uint CelValue.uint? fun x y => orOverflow .uint (subUInt64 x y)

/-- `cel_uint_mul_at_vv`. -/
def celUintMulAt : Slot → Slot → Slot → SlotKernel Unit :=
  strictKernelAt .uint CelValue.uint? fun x y => orOverflow .uint (uint64MulOverflows x y)

/-- The common body of `cel_uint_div_at_vv` and `cel_uint_mod_at_vv`. -/
def uintDivisionAt (byZero : CelErr) (op : UInt64 → UInt64 → UInt64) (out a b : Slot) :
    SlotKernel Unit := do
  if ← absorb3vlBinaryAt out a b then return
  if ← requireKindsAt .uint out a b then return
  if (← payload CelValue.uint? b) = 0 then
    poisonAt out byZero
    return
  store out (.uint (op (← payload CelValue.uint? a) (← payload CelValue.uint? b)))

/-- `cel_uint_div_at_vv`. -/
def celUintDivAt : Slot → Slot → Slot → SlotKernel Unit := uintDivisionAt .divideByZero (· / ·)

/-- `cel_uint_mod_at_vv`. -/
def celUintModAt : Slot → Slot → Slot → SlotKernel Unit := uintDivisionAt .modulusByZero (· % ·)

/-- …of uints too. -/
theorem writesLast_uintDivisionAt (byZero : CelErr) (op : UInt64 → UInt64 → UInt64) (a b : Slot) :
    WritesLast (uintDivisionAt byZero op · a b) :=
  ⟨_, .unless (settles_absorb3vlBinaryAt a b) <| .unless (settles_requireKinds2At a b _ _) <|
    .read (reads_payload _ b) fun _ => .ite (computes_store _) <|
      .read (reads_payload _ a) fun _ => .read (reads_payload _ b) fun _ => computes_store _⟩

end UintArithmetic

section DoubleArithmetic

/-- `cel_double_add_at_vv`. -/
def celDoubleAddAt : Slot → Slot → Slot → SlotKernel Unit :=
  strictKernelAt .double CelValue.double? fun x y => .double (x.apply (· + ·) y)

/-- `cel_double_sub_at_vv`. -/
def celDoubleSubAt : Slot → Slot → Slot → SlotKernel Unit :=
  strictKernelAt .double CelValue.double? fun x y => .double (x.apply (· - ·) y)

/-- `cel_double_mul_at_vv`. -/
def celDoubleMulAt : Slot → Slot → Slot → SlotKernel Unit :=
  strictKernelAt .double CelValue.double? fun x y => .double (x.apply (· * ·) y)

/-- `cel_double_div_at_vv`. -/
def celDoubleDivAt : Slot → Slot → Slot → SlotKernel Unit :=
  strictKernelAt .double CelValue.double? fun x y => .double (x.apply (· / ·) y)

end DoubleArithmetic

/-! ## Comparison -/

/-- `DEFINE_CMP_VV`. -/
def defineCmpVv {α : Type} (want : CelKind) (arm : CelValue → Option α) (op : α → α → Bool) :
    Slot → Slot → Slot → SlotKernel Unit :=
  strictKernelAt want arm fun x y => .bool (op x y)

/-- `cel_int_lt_at_vv`. -/
def celIntLtAt : Slot → Slot → Slot → SlotKernel Unit :=
  defineCmpVv .int CelValue.int? (· < ·)

/-- `cel_int_le_at_vv`. -/
def celIntLeAt : Slot → Slot → Slot → SlotKernel Unit :=
  defineCmpVv .int CelValue.int? (· ≤ ·)

/-- `cel_int_gt_at_vv`. -/
def celIntGtAt : Slot → Slot → Slot → SlotKernel Unit :=
  defineCmpVv .int CelValue.int? (· > ·)

/-- `cel_int_ge_at_vv`. -/
def celIntGeAt : Slot → Slot → Slot → SlotKernel Unit :=
  defineCmpVv .int CelValue.int? (· ≥ ·)

/-- `cel_uint_lt_at_vv`. -/
def celUintLtAt : Slot → Slot → Slot → SlotKernel Unit :=
  defineCmpVv .uint CelValue.uint? (· < ·)

/-- `cel_uint_le_at_vv`. -/
def celUintLeAt : Slot → Slot → Slot → SlotKernel Unit :=
  defineCmpVv .uint CelValue.uint? (· ≤ ·)

/-- `cel_uint_gt_at_vv`. -/
def celUintGtAt : Slot → Slot → Slot → SlotKernel Unit :=
  defineCmpVv .uint CelValue.uint? (· > ·)

/-- `cel_uint_ge_at_vv`. -/
def celUintGeAt : Slot → Slot → Slot → SlotKernel Unit :=
  defineCmpVv .uint CelValue.uint? (· ≥ ·)

/-- `cel_double_lt_at_vv`. -/
def celDoubleLtAt : Slot → Slot → Slot → SlotKernel Unit :=
  defineCmpVv .double CelValue.double? Binary64.lt

/-- `cel_double_le_at_vv`. -/
def celDoubleLeAt : Slot → Slot → Slot → SlotKernel Unit :=
  defineCmpVv .double CelValue.double? Binary64.le

/-- `cel_double_gt_at_vv`. -/
def celDoubleGtAt : Slot → Slot → Slot → SlotKernel Unit :=
  defineCmpVv .double CelValue.double? (fun x y => y.lt x)

/-- `cel_double_ge_at_vv`. -/
def celDoubleGeAt : Slot → Slot → Slot → SlotKernel Unit :=
  defineCmpVv .double CelValue.double? (fun x y => y.le x)

/-- `cel_bool_eq_at_vv`. -/
def celBoolEqAt : Slot → Slot → Slot → SlotKernel Unit :=
  defineCmpVv .bool CelValue.bool? (· == ·)

/-- `cel_bool_lt_at_vv`. -/
def celBoolLtAt : Slot → Slot → Slot → SlotKernel Unit :=
  defineCmpVv .bool CelValue.bool? (· < ·)

/-- `cel_bool_le_at_vv`. -/
def celBoolLeAt : Slot → Slot → Slot → SlotKernel Unit :=
  defineCmpVv .bool CelValue.bool? (· ≤ ·)

/-- `cel_bool_gt_at_vv`. -/
def celBoolGtAt : Slot → Slot → Slot → SlotKernel Unit :=
  defineCmpVv .bool CelValue.bool? (· > ·)

/-- `cel_bool_ge_at_vv`. -/
def celBoolGeAt : Slot → Slot → Slot → SlotKernel Unit :=
  defineCmpVv .bool CelValue.bool? (· ≥ ·)

/-- `is_numeric_kind`, of a kind. -/
def isNumericTag (k : CelKind) : Bool := k = .int || k = .uint || k = .double

/-- `numeric_prelude`. -/
def numericPreludeAt (out a b : Slot) : SlotKernel Bool := do
  if ← absorb3vlBinaryAt out a b then return true
  if !isNumericTag (← loadKind a) || !isNumericTag (← loadKind b) then
    poisonAt out .typeMismatch
    return true
  return false

/-- The cross-type comparisons: what a verdict makes of `numeric_compare_kernel`. -/
def numericKernelAt (verdict : CmpResult → Bool) (out a b : Slot) : SlotKernel Unit := do
  if ← numericPreludeAt out a b then return
  store out (.bool (verdict (numericCompareKernel (← load a) (← load b))))

/-- `cel_numeric_eq_at_vv`. -/
def celNumericEqAt : Slot → Slot → Slot → SlotKernel Unit := numericKernelAt (· == .equal)

/-- `cel_numeric_lt_at_vv`. -/
def celNumericLtAt : Slot → Slot → Slot → SlotKernel Unit := numericKernelAt (· == .less)

/-- `cel_numeric_le_at_vv`. -/
def celNumericLeAt : Slot → Slot → Slot → SlotKernel Unit :=
  numericKernelAt fun r => r == .less || r == .equal

/-- `cel_numeric_gt_at_vv`. -/
def celNumericGtAt : Slot → Slot → Slot → SlotKernel Unit := numericKernelAt (· == .greater)

/-- `cel_numeric_ge_at_vv`. -/
def celNumericGeAt : Slot → Slot → Slot → SlotKernel Unit :=
  numericKernelAt fun r => r == .greater || r == .equal

/-- **A comparison of numbers of any kinds** computes a bool of the comparison of their values. -/
theorem computes_numericKernelAt (verdict : CmpResult → Bool) (a b : Slot) :
    Computes (numericKernelAt verdict · a b) fun cells => unlessAbsorbed (cells a) (cells b) <|
      if !isNumericTag (cells a).kind || !isNumericTag (cells b).kind then return .error .typeMismatch
      else return .bool (verdict (numericCompareKernel (cells a) (cells b))) := by
  refine .congr (.unless
    (.orElse (settles_absorb3vlBinaryAt a b) <|
      .read (reads_loadKind a) fun _ => .read (reads_loadKind b) fun _ =>
        .ite (.done (computes_store _)) settles_false) <|
    .read (reads_load a) fun _ => .read (reads_load b) fun _ => computes_store _) fun cells => ?_
  rw [bind_assoc, unlessAbsorbed]
  refine bind_congr fun v => ?_
  cases v with
  | some _ => rfl
  | none =>
    simp only [Option.elim, pure_bind]
    split_ifs <;> rfl

theorem writesLast_numericKernelAt (verdict : CmpResult → Bool) (a b : Slot) :
    WritesLast (numericKernelAt verdict · a b) := (computes_numericKernelAt verdict a b).writesLast

/-- `cel_null_eq_at_vv`. -/
def celNullEqAt (out a b : Slot) : SlotKernel Unit := do
  if ← absorb3vlBinaryAt out a b then return
  if ← requireKindsAt .null out a b then return
  store out (.bool true)

/-- Null equals null, and is not compared with anything else. -/
theorem computes_celNullEqAt (a b : Slot) :
    Computes (celNullEqAt · a b) fun cells => unlessAbsorbed (cells a) (cells b) <|
      if (cells a).kind ≠ .null ∨ (cells b).kind ≠ .null then return .error .typeMismatch
      else return .bool true := by
  refine computes_unlessAbsorbed a b <| .congr
    (.unless (settles_requireKinds2At a b _ _) (computes_store _)) fun cells => ?_
  split_ifs <;> rfl

/-! ## Durations and timestamps -/

/-- `CelTzAccessorKind`, which names the accessors with a zone and those without. -/
inductive TzAccessorKind
  | year
  | month
  | dayOfMonth1
  | dayOfMonth
  | dayOfYear
  | dayOfWeek
  | hours
  | minutes
  | seconds
  | milliseconds

/-- `ArithSpec`. -/
structure ArithSpec where
  wantA : CelKind
  wantB : CelKind
  subtract : Bool
  resultKind : CelKind

/-- What `run_arith` makes of two payloads. -/
def ArithSpec.result (spec : ArithSpec) (a b : CelDurTs) : CelValue :=
  match durCombine a b spec.subtract with
  | none => .error .overflow
  | some r =>
    if spec.resultKind = .timestamp && !timestampInRange r then .error .overflow
    else if spec.resultKind = .duration && !arithDurationInRange r then .error .overflow
    else if spec.resultKind = .timestamp then .timestamp r
    else .duration r

/-- `run_arith`. -/
def runArithAt (spec : ArithSpec) (out a b : Slot) : SlotKernel Unit := do
  if ← absorb3vlBinaryAt out a b then return
  if ← requireKinds2At spec.wantA spec.wantB out a b then return
  store out (spec.result (← payload CelValue.durTs? a) (← payload CelValue.durTs? b))

/-- **Arithmetic on times** reads both operands by the spec of the operation before it writes. -/
theorem writesLast_runArithAt (spec : ArithSpec) (a b : Slot) :
    WritesLast (runArithAt spec · a b) :=
  ⟨_, .unless (settles_absorb3vlBinaryAt a b) <| .unless (settles_requireKinds2At a b _ _) <|
    .read (reads_payload _ a) fun _ => .read (reads_payload _ b) fun _ => computes_store _⟩

/-- `cel_dur_add_at_vv`. -/
def celDurAddAt : Slot → Slot → Slot → SlotKernel Unit :=
  runArithAt ⟨.duration, .duration, false, .duration⟩

/-- `cel_dur_sub_at_vv`. -/
def celDurSubAt : Slot → Slot → Slot → SlotKernel Unit :=
  runArithAt ⟨.duration, .duration, true, .duration⟩

/-- `cel_ts_dur_add_at_vv`. -/
def celTsDurAddAt : Slot → Slot → Slot → SlotKernel Unit :=
  runArithAt ⟨.timestamp, .duration, false, .timestamp⟩

/-- `cel_dur_ts_add_at_vv`. -/
def celDurTsAddAt : Slot → Slot → Slot → SlotKernel Unit :=
  runArithAt ⟨.duration, .timestamp, false, .timestamp⟩

/-- `cel_ts_dur_sub_at_vv`. -/
def celTsDurSubAt : Slot → Slot → Slot → SlotKernel Unit :=
  runArithAt ⟨.timestamp, .duration, true, .timestamp⟩

/-- `cel_ts_ts_sub_at_vv`. -/
def celTsTsSubAt : Slot → Slot → Slot → SlotKernel Unit :=
  runArithAt ⟨.timestamp, .timestamp, true, .duration⟩

/-- `run_compare`. -/
def runCompareAt (want : CelKind) (pred : Ordering → Bool) : Slot → Slot → Slot → SlotKernel Unit :=
  strictKernelAt want CelValue.durTs? fun x y => .bool (pred (durCompareLex x y))

/-- `cel_dur_lt_at_vv`. -/
def celDurLtAt : Slot → Slot → Slot → SlotKernel Unit :=
  runCompareAt .duration Ordering.isLT

/-- `cel_dur_le_at_vv`. -/
def celDurLeAt : Slot → Slot → Slot → SlotKernel Unit :=
  runCompareAt .duration Ordering.isLE

/-- `cel_dur_gt_at_vv`. -/
def celDurGtAt : Slot → Slot → Slot → SlotKernel Unit :=
  runCompareAt .duration Ordering.isGT

/-- `cel_dur_ge_at_vv`. -/
def celDurGeAt : Slot → Slot → Slot → SlotKernel Unit :=
  runCompareAt .duration Ordering.isGE

/-- `cel_ts_lt_at_vv`. -/
def celTsLtAt : Slot → Slot → Slot → SlotKernel Unit :=
  runCompareAt .timestamp Ordering.isLT

/-- `cel_ts_le_at_vv`. -/
def celTsLeAt : Slot → Slot → Slot → SlotKernel Unit :=
  runCompareAt .timestamp Ordering.isLE

/-- `cel_ts_gt_at_vv`. -/
def celTsGtAt : Slot → Slot → Slot → SlotKernel Unit :=
  runCompareAt .timestamp Ordering.isGT

/-- `cel_ts_ge_at_vv`. -/
def celTsGeAt : Slot → Slot → Slot → SlotKernel Unit :=
  runCompareAt .timestamp Ordering.isGE

/-! ## Math -/

/-- The bitwise kernels: two ints, or two uints. -/
def bitKernelAt (onInt : Int64 → Int64 → Int64) (onUint : UInt64 → UInt64 → UInt64)
    (out a b : Slot) : SlotKernel Unit := do
  if ← absorb3vlBinaryAt out a b then return
  if (← loadKind a) = .int && (← loadKind b) = .int then
    store out (.int (onInt (← payload CelValue.int? a) (← payload CelValue.int? b)))
  else if (← loadKind a) = .uint && (← loadKind b) = .uint then
    store out (.uint (onUint (← payload CelValue.uint? a) (← payload CelValue.uint? b)))
  else poisonAt out .typeMismatch

/-- `cel_math_bit_and_at_vv`. -/
def celMathBitAndAt : Slot → Slot → Slot → SlotKernel Unit := bitKernelAt (· &&& ·) (· &&& ·)

/-- `cel_math_bit_or_at_vv`. -/
def celMathBitOrAt : Slot → Slot → Slot → SlotKernel Unit := bitKernelAt (· ||| ·) (· ||| ·)

/-- `cel_math_bit_xor_at_vv`. -/
def celMathBitXorAt : Slot → Slot → Slot → SlotKernel Unit := bitKernelAt (· ^^^ ·) (· ^^^ ·)

/-- A bit operation, on ints or on uints. -/
theorem writesLast_bitKernelAt (onInt : Int64 → Int64 → Int64) (onUint : UInt64 → UInt64 → UInt64)
    (a b : Slot) : WritesLast (bitKernelAt onInt onUint · a b) :=
  ⟨_, .unless (settles_absorb3vlBinaryAt a b) <|
    .read (reads_loadKind a) fun _ => .read (reads_loadKind b) fun _ =>
      .ite
        (.read (reads_payload _ a) fun _ => .read (reads_payload _ b) fun _ => computes_store _) <|
        .read (reads_loadKind a) fun _ => .read (reads_loadKind b) fun _ =>
          .ite
            (.read (reads_payload _ a) fun _ => .read (reads_payload _ b) fun _ => computes_store _)
            (computes_store _)⟩

/-- `math_shift_offset`: whether the count has poisoned the result. -/
def mathShiftOffsetAt (out n : Slot) : SlotKernel Bool := do
  if (← loadKind n) ≠ .int then
    poisonAt out .typeMismatch
    return true
  if (← payload CelValue.int? n) < 0 then
    poisonAt out .invalidArgument
    return true
  return false

/-- The shifts, by a count that is looked at before the value is. -/
def shiftKernelAt (shifted : UInt64 → Int64 → UInt64) (out x n : Slot) : SlotKernel Unit := do
  if ← absorb3vlBinaryAt out x n then return
  if ← mathShiftOffsetAt out n then return
  let shift ← payload CelValue.int? n
  if (← loadKind x) = .int then
    store out (.int (shifted (← payload CelValue.int? x).toUInt64 shift).toInt64)
  else if (← loadKind x) = .uint then
    store out (.uint (shifted (← payload CelValue.uint? x) shift))
  else poisonAt out .typeMismatch

/-- `cel_math_bit_shift_left_at_vv`. -/
def celMathBitShiftLeftAt : Slot → Slot → Slot → SlotKernel Unit := shiftKernelAt shiftedLeft

/-- `cel_math_bit_shift_right_at_vv`. -/
def celMathBitShiftRightAt : Slot → Slot → Slot → SlotKernel Unit := shiftKernelAt shiftedRight

theorem writesLast_shiftKernelAt (shifted : UInt64 → Int64 → UInt64) (x n : Slot) :
    WritesLast (shiftKernelAt shifted · x n) :=
  ⟨_, .unless (settles_absorb3vlBinaryAt x n) <|
    .unless
      (.read (reads_loadKind n) fun _ => .ite (.done (computes_store _)) <|
        .read (reads_payload _ n) fun _ => .ite (.done (computes_store _)) settles_false) <|
      .read (reads_payload _ n) fun _ => .read (reads_loadKind x) fun _ =>
        .ite (.read (reads_payload _ x) fun _ => computes_store _) <|
          .read (reads_loadKind x) fun _ =>
            .ite (.read (reads_payload _ x) fun _ => computes_store _) (computes_store _)⟩

/-- `math_minmax_replaces`. -/
def mathMinmaxReplaces (best cand : CelValue) (wantGreater : Bool) : Bool :=
  if wantGreater then numericCompareKernel best cand == .less
  else numericCompareKernel best cand == .greater

/-- `math_minmax_binary`: the winner is copied as it is. -/
def mathMinmaxBinaryAt (wantGreater : Bool) (out a b : Slot) : SlotKernel Unit := do
  if ← absorb3vlBinaryAt out a b then return
  if !isNumericTag (← loadKind a) || !isNumericTag (← loadKind b) then
    poisonAt out .typeMismatch
    return
  if mathMinmaxReplaces (← load a) (← load b) wantGreater then copyAt out b else copyAt out a

/-- `cel_math_min_at_vv`. -/
def celMathMinAt : Slot → Slot → Slot → SlotKernel Unit := mathMinmaxBinaryAt false

/-- `cel_math_max_at_vv`. -/
def celMathMaxAt : Slot → Slot → Slot → SlotKernel Unit := mathMinmaxBinaryAt true

/-- `math.greatest` and `math.least` of two copy one of them whole. -/
theorem writesLast_mathMinmaxBinaryAt (wantGreater : Bool) (a b : Slot) :
    WritesLast (mathMinmaxBinaryAt wantGreater · a b) :=
  ⟨_, .unless (settles_absorb3vlBinaryAt a b) <|
    .read (reads_loadKind a) fun _ => .read (reads_loadKind b) fun _ => .ite (computes_store _) <|
      .read (reads_load a) fun _ => .read (reads_load b) fun _ =>
        .ite (computes_copyAt b) (computes_copyAt a)⟩

/-! ## Network addresses -/

/-- `first_n_bits_match`: the whole bytes, and the high bits of the one behind them. -/
def firstNBitsMatch (a b : Vector UInt8 16) (nbits : UInt32) : Bool :=
  let full := nbits.toNat / 8
  let rem := nbits.toNat % 8
  let mask : UInt8 := 0xff <<< UInt8.ofNat (8 - rem)
  a.toList.take full == b.toList.take full &&
    (rem == 0 || a.toList.getD full 0 &&& mask == b.toList.getD full 0 &&& mask)

section Network

variable (parseAddress : List UInt8 → Option NetIp) (parseCidr : List UInt8 → Option NetCidr)

/-- `resolve_arg_ip`: an address, or a string that is parsed. -/
def resolveArgIp (arg : Slot) : SlotKernel (Option NetIp) := do
  if (← loadKind arg) = .ip then return some (← payload CelValue.ip? arg)
  else return parseAddress (← payload CelValue.string? arg)

/-- `cel_cidr_contains_ip_at_vv`. -/
def celCidrContainsIpAt (out cidr arg : Slot) : SlotKernel Unit := do
  if ← absorb3vlBinaryAt out cidr arg then return
  if (← loadKind cidr) ≠ .cidr || ((← loadKind arg) ≠ .ip && (← loadKind arg) ≠ .string) then
    poisonAt out .typeMismatch
    return
  match ← resolveArgIp parseAddress arg with
  | none => poisonAt out .invalidArgument
  | some ip =>
    let c ← payload CelValue.cidr? cidr
    if c.family ≠ ip.family then store out (.bool false)
    else store out (.bool (firstNBitsMatch c.addr ip.addr c.pfx))

/-- An address that is given as a text is parsed from the cell, which is only read. -/
theorem reads_resolveArgIp (arg : Slot) : ∃ P, Reads (resolveArgIp parseAddress arg) P :=
  ⟨_, .bind (reads_loadKind arg) fun _ =>
    .ite (.bind (reads_payload _ arg) fun _ => reads_pure _)
      (.bind (reads_payload _ arg) fun _ => reads_pure _)⟩

theorem writesLast_celCidrContainsIpAt (cidr arg : Slot) :
    WritesLast (celCidrContainsIpAt parseAddress · cidr arg) := by
  obtain ⟨P, hP⟩ := reads_resolveArgIp parseAddress arg
  refine .unless (settles_absorb3vlBinaryAt cidr arg) <| .read (reads_loadKind cidr) fun _ =>
    .read (reads_loadKind arg) fun _ => .read (reads_loadKind arg) fun _ =>
      .ite (computes_store _).writesLast <| .read hP fun ip => ?_
  cases ip with
  | none => exact (computes_store _).writesLast
  | some _ =>
    exact ⟨_, .read (reads_payload _ cidr) fun _ => .ite (computes_store _) (computes_store _)⟩

/-- `resolve_arg_cidr`: a block, or a string that is parsed. -/
def resolveArgCidr (arg : Slot) : SlotKernel (Option NetCidr) := do
  if (← loadKind arg) = .cidr then return some (← payload CelValue.cidr? arg)
  else return parseCidr (← payload CelValue.string? arg)

/-- `cel_cidr_contains_cidr_at_vv`. -/
def celCidrContainsCidrAt (out cidr arg : Slot) : SlotKernel Unit := do
  if ← absorb3vlBinaryAt out cidr arg then return
  if (← loadKind cidr) ≠ .cidr || ((← loadKind arg) ≠ .cidr && (← loadKind arg) ≠ .string) then
    poisonAt out .typeMismatch
    return
  match ← resolveArgCidr parseCidr arg with
  | none => poisonAt out .invalidArgument
  | some b =>
    let a ← payload CelValue.cidr? cidr
    if a.family ≠ b.family || b.pfx < a.pfx then store out (.bool false)
    else store out (.bool (firstNBitsMatch a.addr b.addr a.pfx))

theorem reads_resolveArgCidr (arg : Slot) : ∃ P, Reads (resolveArgCidr parseCidr arg) P :=
  ⟨_, .bind (reads_loadKind arg) fun _ =>
    .ite (.bind (reads_payload _ arg) fun _ => reads_pure _)
      (.bind (reads_payload _ arg) fun _ => reads_pure _)⟩

theorem writesLast_celCidrContainsCidrAt (cidr arg : Slot) :
    WritesLast (celCidrContainsCidrAt parseCidr · cidr arg) := by
  obtain ⟨P, hP⟩ := reads_resolveArgCidr parseCidr arg
  refine .unless (settles_absorb3vlBinaryAt cidr arg) <| .read (reads_loadKind cidr) fun _ =>
    .read (reads_loadKind arg) fun _ => .read (reads_loadKind arg) fun _ =>
      .ite (computes_store _).writesLast <| .read hP fun block => ?_
  cases block with
  | none => exact (computes_store _).writesLast
  | some _ =>
    exact ⟨_, .read (reads_payload _ cidr) fun _ => .ite (computes_store _) (computes_store _)⟩

end Network

end CelWasm
