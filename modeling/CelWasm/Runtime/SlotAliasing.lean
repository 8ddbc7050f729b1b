import CelWasm.Runtime.SlotContainers

/-!
# Runtime/SlotAliasing — the result may go to the cell of an operand

Codegen frees the cells of a call's operands before it takes one for the result, so that the result
often goes to an operand's own cell. `SlotCall` is the catalogue of the kernels with two operands or
more. Each of them writes last, and so leaves the same value wherever its result goes
(`SlotCall.result_eq_of_any_destination`).
-/

namespace CelWasm

open CellProg

/-! ## The catalogue -/

/-- What the kernels call outside the runtime, or know by its verdict only. -/
structure SlotEnv where
  host : CelHost
  regex : Regex
  formatter : Formatter
  /-- `parse_address`. -/
  parseAddress : List UInt8 → Option NetIp
  /-- `parse_cidr`. -/
  parseCidr : List UInt8 → Option NetCidr
  /-- `cel_host_cel_timestamp_tz_accessor`: timestamp, zone. -/
  timestampTzAccessor : TzAccessorKind → CelValue → CelValue → Kernel CelValue

/-- Arithmetic on numbers, durations and timestamps, and the two-operand `math` functions. -/
inductive ArithmeticKernel
  | intAdd
  | intSub
  | intMul
  | uintAdd
  | uintSub
  | uintMul
  | doubleAdd
  | doubleSub
  | doubleMul
  | doubleDiv
  | intDiv
  | intMod
  | uintDiv
  | uintMod
  | mathBitAnd
  | mathBitOr
  | mathBitXor
  | mathBitShiftLeft
  | mathBitShiftRight
  | mathMin
  | mathMax
  | durAdd
  | durSub
  | tsDurAdd
  | durTsAdd
  | tsDurSub
  | tsTsSub

/-- The comparisons of one kind, and the cross-type numeric ones. -/
inductive ComparisonKernel
  | intLt
  | intLe
  | intGt
  | intGe
  | uintLt
  | uintLe
  | uintGt
  | uintGe
  | doubleLt
  | doubleLe
  | doubleGt
  | doubleGe
  | boolEq
  | boolLt
  | boolLe
  | boolGt
  | boolGe
  | durLt
  | durLe
  | durGt
  | durGe
  | tsLt
  | tsLe
  | tsGt
  | tsGe
  | stringEq
  | stringLt
  | stringLe
  | stringGt
  | stringGe
  | bytesEq
  | bytesLt
  | bytesLe
  | bytesGt
  | bytesGe
  | numericEq
  | numericLt
  | numericLe
  | numericGt
  | numericGe
  | nullEq

/-- Strings and bytes, with two operands. -/
inductive StringKernel
  | stringContains
  | stringStartsWith
  | stringEndsWith
  | stringConcat
  | bytesConcat
  | stringCharAt
  | stringIndexOf
  | stringLastIndexOf
  | stringSubstring
  | stringSplit
  | stringJoinSep
  | regexMatches
  | stringFormat

/-- Lists and maps: the `_arena` kernels, the dispatchers, and the imports codegen calls itself. -/
inductive ContainerKernel
  | listAtArena
  | listInArena
  | listEqArena
  | listConcatArena
  | mapLookupArena
  | mapInArena
  | mapEqArena
  | listAt
  | listIn
  | listEq
  | listConcat
  | mapLookup
  | mapIn
  | mapEq
  | hostListAt
  | hostListIn
  | hostListEq
  | hostListConcat
  | hostMapLookup
  | hostMapIn
  | hostMapEq
  | hostMessageEq

/-- Logic, equality, optionals, addresses, and the accessors with a time zone. -/
inductive GeneralKernel
  | logicAnd
  | logicOr
  | unknownMerge
  | equals
  | notEquals
  | optionalOr
  | optionalOrValue
  | selectOptionalField
  | cidrContainsIp
  | cidrContainsCidr
  | tsWithTz (accessor : TzAccessorKind)

/-- **A call of a kernel**, with the cells of its operands. -/
inductive SlotCall
  | arithmetic (k : ArithmeticKernel) (a b : Slot)
  | comparison (k : ComparisonKernel) (a b : Slot)
  | string (k : StringKernel) (a b : Slot)
  | container (k : ContainerKernel) (a b : Slot)
  | general (k : GeneralKernel) (a b : Slot)
  | stringIndexOfFrom (s sub pos : Slot)
  | stringLastIndexOfTo (s sub pos : Slot)
  | stringSubstringRange (s start stop : Slot)
  | stringReplace (s old new : Slot)
  | stringReplaceN (s old new n : Slot)
  | stringSplitN (s sep n : Slot)

/-- The kernel, result first. -/
def ArithmeticKernel.run : ArithmeticKernel → Slot → Slot → Slot → SlotKernel Unit
  | .intAdd => celIntAddAt
  | .intSub => celIntSubAt
  | .intMul => celIntMulAt
  | .uintAdd => celUintAddAt
  | .uintSub => celUintSubAt
  | .uintMul => celUintMulAt
  | .doubleAdd => celDoubleAddAt
  | .doubleSub => celDoubleSubAt
  | .doubleMul => celDoubleMulAt
  | .doubleDiv => celDoubleDivAt
  | .intDiv => celIntDivAt
  | .intMod => celIntModAt
  | .uintDiv => celUintDivAt
  | .uintMod => celUintModAt
  | .mathBitAnd => celMathBitAndAt
  | .mathBitOr => celMathBitOrAt
  | .mathBitXor => celMathBitXorAt
  | .mathBitShiftLeft => celMathBitShiftLeftAt
  | .mathBitShiftRight => celMathBitShiftRightAt
  | .mathMin => celMathMinAt
  | .mathMax => celMathMaxAt
  | .durAdd => celDurAddAt
  | .durSub => celDurSubAt
  | .tsDurAdd => celTsDurAddAt
  | .durTsAdd => celDurTsAddAt
  | .tsDurSub => celTsDurSubAt
  | .tsTsSub => celTsTsSubAt

/-- The kernel, result first. -/
def ComparisonKernel.run : ComparisonKernel → Slot → Slot → Slot → SlotKernel Unit
  | .intLt => celIntLtAt
  | .intLe => celIntLeAt
  | .intGt => celIntGtAt
  | .intGe => celIntGeAt
  | .uintLt => celUintLtAt
  | .uintLe => celUintLeAt
  | .uintGt => celUintGtAt
  | .uintGe => celUintGeAt
  | .doubleLt => celDoubleLtAt
  | .doubleLe => celDoubleLeAt
  | .doubleGt => celDoubleGtAt
  | .doubleGe => celDoubleGeAt
  | .boolEq => celBoolEqAt
  | .boolLt => celBoolLtAt
  | .boolLe => celBoolLeAt
  | .boolGt => celBoolGtAt
  | .boolGe => celBoolGeAt
  | .durLt => celDurLtAt
  | .durLe => celDurLeAt
  | .durGt => celDurGtAt
  | .durGe => celDurGeAt
  | .tsLt => celTsLtAt
  | .tsLe => celTsLeAt
  | .tsGt => celTsGtAt
  | .tsGe => celTsGeAt
  | .stringEq => celStringEqAt
  | .stringLt => celStringLtAt
  | .stringLe => celStringLeAt
  | .stringGt => celStringGtAt
  | .stringGe => celStringGeAt
  | .bytesEq => celBytesEqAt
  | .bytesLt => celBytesLtAt
  | .bytesLe => celBytesLeAt
  | .bytesGt => celBytesGtAt
  | .bytesGe => celBytesGeAt
  | .numericEq => celNumericEqAt
  | .numericLt => celNumericLtAt
  | .numericLe => celNumericLeAt
  | .numericGt => celNumericGtAt
  | .numericGe => celNumericGeAt
  | .nullEq => celNullEqAt

/-- The kernel, result first. -/
def StringKernel.run (env : SlotEnv) : StringKernel → Slot → Slot → Slot → SlotKernel Unit
  | .stringContains => celStringContainsAt
  | .stringStartsWith => celStringStartsWithAt
  | .stringEndsWith => celStringEndsWithAt
  | .stringConcat => celStringConcatAt
  | .bytesConcat => celBytesConcatAt
  | .stringCharAt => celStringCharAtAt
  | .stringIndexOf => celStringIndexOfAt
  | .stringLastIndexOf => celStringLastIndexOfAt
  | .stringSubstring => celStringSubstringAt
  | .stringSplit => celStringSplitAt
  | .stringJoinSep => celStringJoinSepAt env.host
  | .regexMatches => celMatchesAt env.regex
  | .stringFormat => celStringFormatAt env.host env.formatter

/-- The kernel, result first. -/
def ContainerKernel.run (env : SlotEnv) : ContainerKernel → Slot → Slot → Slot → SlotKernel Unit
  | .listAtArena => celListAtArenaAt
  | .listInArena => celListInArenaAt env.host
  | .listEqArena => celListEqArenaAt env.host
  | .listConcatArena => celListConcatArenaAt
  | .mapLookupArena => celMapLookupArenaAt
  | .mapInArena => celMapInArenaAt
  | .mapEqArena => celMapEqArenaAt env.host
  | .listAt => celListAtAt env.host
  | .listIn => celListInAt env.host
  | .listEq => celListEqAt env.host
  | .listConcat => celListConcatAt env.host
  | .mapLookup => celMapLookupAt env.host
  | .mapIn => celMapInAt env.host
  | .mapEq => celMapEqAt env.host
  | .hostListAt => hostCallAt env.host.listAt
  | .hostListIn => hostCallAt env.host.listIn
  | .hostListEq => hostCallAt env.host.listEq
  | .hostListConcat => hostCallAt env.host.listConcat
  | .hostMapLookup => hostCallAt env.host.mapLookup
  | .hostMapIn => hostCallAt env.host.mapIn
  | .hostMapEq => hostCallAt env.host.mapEq
  | .hostMessageEq => hostCallAt env.host.messageEq

/-- The kernel, result first. -/
def GeneralKernel.run (env : SlotEnv) : GeneralKernel → Slot → Slot → Slot → SlotKernel Unit
  | .logicAnd => celAndAt
  | .logicOr => celOrAt
  | .unknownMerge => celUnknownMergeAt
  | .equals => celEqualsAt env.host
  | .notEquals => celNotEqualsAt env.host
  | .optionalOr => celOptionalOrAt
  | .optionalOrValue => celOptionalOrValueAt
  | .selectOptionalField => celSelectOptionalFieldAt
  | .cidrContainsIp => celCidrContainsIpAt env.parseAddress
  | .cidrContainsCidr => celCidrContainsCidrAt env.parseCidr
  | .tsWithTz accessor => hostCallAt (env.timestampTzAccessor accessor)

namespace SlotCall

/-- The call, with its destination. -/
def run (env : SlotEnv) : SlotCall → Slot → SlotKernel Unit
  | arithmetic k a b => (k.run · a b)
  | comparison k a b => (k.run · a b)
  | string k a b => (k.run env · a b)
  | container k a b => (k.run env · a b)
  | general k a b => (k.run env · a b)
  | stringIndexOfFrom s sub pos => (celStringIndexOfFromAt · s sub pos)
  | stringLastIndexOfTo s sub pos => (celStringLastIndexOfToAt · s sub pos)
  | stringSubstringRange s start stop => (celStringSubstringRangeAt · s start stop)
  | stringReplace s old new => (celStringReplaceAt · s old new)
  | stringReplaceN s old new n => (celStringReplaceNAt · s old new n)
  | stringSplitN s sep n => (celStringSplitNAt · s sep n)

end SlotCall

/-! ## Every kernel writes last -/

theorem ArithmeticKernel.writesLast (k : ArithmeticKernel) (a b : Slot) :
    WritesLast (k.run · a b) := by
  cases k with
  | intAdd | intSub | intMul | uintAdd | uintSub | uintMul | doubleAdd | doubleSub | doubleMul |
    doubleDiv =>
    exact (computes_strictKernelAt _ _ _ a b).writesLast
  | intDiv | intMod => exact writesLast_intDivisionAt _ _ a b
  | uintDiv | uintMod => exact writesLast_uintDivisionAt _ _ a b
  | mathBitAnd | mathBitOr | mathBitXor => exact writesLast_bitKernelAt _ _ a b
  | mathBitShiftLeft | mathBitShiftRight => exact writesLast_shiftKernelAt _ a b
  | mathMin | mathMax => exact writesLast_mathMinmaxBinaryAt _ a b
  | durAdd | durSub | tsDurAdd | durTsAdd | tsDurSub | tsTsSub => exact writesLast_runArithAt _ a b

theorem ComparisonKernel.writesLast (k : ComparisonKernel) (a b : Slot) :
    WritesLast (k.run · a b) := by
  cases k with
  | intLt | intLe | intGt | intGe | uintLt | uintLe | uintGt | uintGe | doubleLt | doubleLe |
    doubleGt | doubleGe | boolEq | boolLt | boolLe | boolGt | boolGe | durLt | durLe | durGt |
    durGe | tsLt | tsLe | tsGt | tsGe | stringEq | stringLt | stringLe | stringGt | stringGe |
    bytesEq | bytesLt | bytesLe | bytesGt | bytesGe =>
    exact (computes_strictKernelAt _ _ _ a b).writesLast
  | numericEq | numericLt | numericLe | numericGt | numericGe =>
    simp only [ComparisonKernel.run]
    exact writesLast_numericKernelAt _ a b
  | nullEq => exact (computes_celNullEqAt a b).writesLast

theorem StringKernel.writesLast (env : SlotEnv) (k : StringKernel) (a b : Slot) :
    WritesLast (k.run env · a b) := by
  cases k with
  | stringContains | stringStartsWith | stringEndsWith =>
    exact (computes_strictKernelAt _ _ _ a b).writesLast
  | stringConcat | bytesConcat => exact writesLast_concatAt _ _ _ a b
  | stringCharAt => exact (computes_celStringCharAtAt a b).writesLast
  | stringIndexOf => exact (computes_celStringIndexOfAt a b).writesLast
  | stringLastIndexOf => exact (computes_celStringLastIndexOfAt a b).writesLast
  | stringSubstring => exact (computes_celStringSubstringAt a b).writesLast
  | stringSplit => exact (computes_celStringSplitAt a b).writesLast
  | stringJoinSep => exact (computes_celStringJoinSepAt env.host a b).writesLast
  | regexMatches => exact (computes_celMatchesAt env.regex a b).writesLast
  | stringFormat => exact writesLast_celStringFormatAt _ _ a b

theorem ContainerKernel.writesLast (env : SlotEnv) (k : ContainerKernel) (a b : Slot) :
    WritesLast (k.run env · a b) := by
  cases k with
  | listAtArena => exact (computes_celListAtArenaAt a b).writesLast
  | listInArena => exact (computes_celListInArenaAt env.host a b).writesLast
  | listEqArena => exact (computes_celListEqArenaAt env.host a b).writesLast
  | listConcatArena => exact (computes_celListConcatArenaAt a b).writesLast
  | mapLookupArena => exact (computes_celMapLookupArenaAt a b).writesLast
  | mapInArena => exact (computes_celMapInArenaAt a b).writesLast
  | mapEqArena => exact (computes_celMapEqArenaAt env.host a b).writesLast
  | listAt => exact (computes_celListAtAt env.host a b).writesLast
  | listIn => exact (computes_celListInAt env.host a b).writesLast
  | listEq => exact (computes_celListEqAt env.host a b).writesLast
  | listConcat => exact (computes_celListConcatAt env.host a b).writesLast
  | mapLookup => exact (computes_celMapLookupAt env.host a b).writesLast
  | mapIn => exact (computes_celMapInAt env.host a b).writesLast
  | mapEq => exact (computes_celMapEqAt env.host a b).writesLast
  | hostListAt | hostListIn | hostListEq | hostListConcat | hostMapLookup | hostMapIn |
    hostMapEq | hostMessageEq =>
    exact (computes_hostCallAt _ a b).writesLast

theorem GeneralKernel.writesLast (env : SlotEnv) (k : GeneralKernel) (a b : Slot) :
    WritesLast (k.run env · a b) := by
  cases k with
  | logicAnd | logicOr => exact (computes_logicKernelAt a b _).writesLast
  | unknownMerge => exact (computes_celUnknownMergeAt a b).writesLast
  | equals => exact (computes_equalityKernelAt env.host a b).writesLast
  | notEquals => exact (computes_celNotEqualsAt env.host a b).writesLast
  | optionalOr => exact writesLast_celOptionalOrAt a b
  | optionalOrValue => exact writesLast_celOptionalOrValueAt a b
  | selectOptionalField => exact writesLast_celSelectOptionalFieldAt a b
  | cidrContainsIp => exact writesLast_celCidrContainsIpAt _ a b
  | cidrContainsCidr => exact writesLast_celCidrContainsCidrAt _ a b
  | tsWithTz => exact (computes_hostCallAt _ a b).writesLast

theorem SlotCall.writesLast (env : SlotEnv) (call : SlotCall) : WritesLast (call.run env) := by
  cases call with
  | arithmetic k a b => exact k.writesLast a b
  | comparison k a b => exact k.writesLast a b
  | string k a b => exact k.writesLast env a b
  | container k a b => exact k.writesLast env a b
  | general k a b => exact k.writesLast env a b
  | stringIndexOfFrom s sub pos => exact (computes_celStringIndexOfFromAt s sub pos).writesLast
  | stringLastIndexOfTo s sub pos => exact (computes_celStringLastIndexOfToAt s sub pos).writesLast
  | stringSubstringRange s start stop =>
    exact (computes_celStringSubstringRangeAt s start stop).writesLast
  | stringReplace s old new => exact (computes_celStringReplaceAt s old new).writesLast
  | stringReplaceN s old new n => exact (computes_celStringReplaceNAt s old new n).writesLast
  | stringSplitN s sep n => exact (computes_celStringSplitNAt s sep n).writesLast

/-- **The destination may be the cell of an operand**, or any other: a call of a kernel comes to the
same value, whatever the cells hold, and to the same stop if it comes to none. -/
theorem SlotCall.result_eq_of_any_destination (env : SlotEnv) (call : SlotCall) (out out' : Slot)
    (cells : Slot → CelValue) :
    result (call.run env) out cells = result (call.run env) out' cells :=
  (call.writesLast env).result_eq out out' cells

end CelWasm
