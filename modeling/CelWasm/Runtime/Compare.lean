import CelWasm.Runtime.ThreeValued

/-!
# Runtime/Compare — numeric comparison and the two equalities

`==` puts int, uint and double on one line and rounds an integer to compare it with a double. Map
keys compare by `celMapKeyEq`, which converts a double only when the conversion is exact. Both fall
back to `celValueEq` outside the numbers.
-/

namespace CelWasm

/-! ## The numeric ladder -/

/-- `CmpResult`. -/
inductive CmpResult
  | less
  | equal
  | greater
  | nanInequal
  deriving DecidableEq, Repr

/-- `INT64_MAX`. -/
def int64Max : ℤ := 2 ^ 63 - 1

/-- `INT64_MIN`. -/
def int64Min : ℤ := -2 ^ 63

/-- `UINT64_MAX`. -/
def uint64Max : ℤ := 2 ^ 64 - 1

/-- `cmp_i64`. -/
def cmpI64 (a b : Int64) : CmpResult := if a < b then .less else if b < a then .greater else .equal

/-- `cmp_u64`. -/
def cmpU64 (a b : UInt64) : CmpResult := if a < b then .less else if b < a then .greater else .equal

/-- `cmp_double`. -/
def cmpDouble (a b : Binary64) : CmpResult :=
  if a.isNaN || b.isNaN then .nanInequal
  else if a.lt b then .less
  else if b.lt a then .greater
  else .equal

/-- `cmp_int_vs_uint`. -/
def cmpIntVsUint (a : Int64) (b : UInt64) : CmpResult :=
  if a < 0 then .less else cmpU64 a.toUInt64 b

/-- `cmp_int_vs_double`. -/
def cmpIntVsDouble (a : Int64) (b : Binary64) : CmpResult :=
  if b.isNaN then .nanInequal
  else if (Binary64.ofInt int64Max).lt b then .less
  else if b.lt (Binary64.ofInt int64Min) then .greater
  else cmpDouble (Binary64.ofInt a.toInt) b

/-- `cmp_uint_vs_double`. -/
def cmpUintVsDouble (a : UInt64) (b : Binary64) : CmpResult :=
  if b.isNaN then .nanInequal
  else if (Binary64.ofInt uint64Max).lt b then .less
  else if b.lt (Binary64.ofInt 0) then .greater
  else cmpDouble (Binary64.ofInt a.toNat) b

/-- `cmp_flip`. -/
def cmpFlip : CmpResult → CmpResult
  | .less => .greater
  | .greater => .less
  | r => r

/-- `numeric_compare_kernel`. -/
def numericCompareKernel : CelValue → CelValue → CmpResult
  | .int a, .int b => cmpI64 a b
  | .uint a, .uint b => cmpU64 a b
  | .double a, .double b => cmpDouble a b
  | .int a, .uint b => cmpIntVsUint a b
  | .uint a, .int b => cmpFlip (cmpIntVsUint b a)
  | .int a, .double b => cmpIntVsDouble a b
  | .double a, .int b => cmpFlip (cmpIntVsDouble b a)
  | .uint a, .double b => cmpUintVsDouble a b
  | .double a, .uint b => cmpFlip (cmpUintVsDouble b a)
  | _, _ => .nanInequal

/-- `is_numeric_kind`. -/
def isNumericKind : CelValue → Bool
  | .int _ | .uint _ | .double _ => true
  | _ => false

/-! ## The equality of values -/

/-- `cel_value_eq`: the single-layer scalar matcher behind `==`; false on every other pair. -/
def celValueEq (a b : CelValue) : Bool :=
  if isNumericKind a && isNumericKind b then numericCompareKernel a b == .equal
  else
    match a, b with
    | .string s, .string t => s == t
    | .bool x, .bool y => x == y
    | .bytes s, .bytes t => s == t
    | .null, .null => true
    | .duration d, .duration e => d == e
    | .timestamp t, .timestamp u => t == u
    | .ip x, .ip y => x == y
    | .cidr x, .cidr y => x == y
    | _, _ => false

/-! ## The equality of map keys -/

/-- `kDoubleToIntMin`. -/
def kDoubleToIntMin : Binary64 := .ofInt int64Min

/-- `kMaxDoubleAsInt`. -/
def kMaxDoubleAsInt : Binary64 := .ofInt (int64Max - 512)

/-- `kMaxDoubleAsUint`. -/
def kMaxDoubleAsUint : Binary64 := .ofInt (uint64Max - 1024)

/-- `double_as_int`: the int64 a double is exactly. -/
def doubleAsInt (d : Binary64) : Option Int64 :=
  if !kDoubleToIntMin.le d || !d.le kMaxDoubleAsInt then none
  else if !(Binary64.ofInt d.truncate).eq d then none
  else some (Int64.ofInt d.truncate)

/-- `double_as_uint`: the uint64 a double is exactly. -/
def doubleAsUint (d : Binary64) : Option UInt64 :=
  if !(Binary64.ofInt 0).le d || !d.le kMaxDoubleAsUint then none
  else if !(Binary64.ofInt d.truncate).eq d then none
  else some (UInt64.ofNat d.truncate.toNat)

/-- `double_matches_integer`. -/
def doubleMatchesInteger (d : Binary64) : CelValue → Bool
  | .int i => doubleAsInt d == some i
  | .uint u => doubleAsUint d == some u
  | _ => false

/-- `cel_numeric_key_eq`. -/
def celNumericKeyEq (a b : CelValue) : Bool :=
  if !isNumericKind a || !isNumericKind b then false
  else
    match a, b with
    | .double x, .double y => x.eq y
    | .double x, _ => doubleMatchesInteger x b
    | _, .double y => doubleMatchesInteger y a
    | _, _ => numericCompareKernel a b == .equal

/-- **`cel_map_key_eq`**, the equality every keyed map operation uses. -/
def celMapKeyEq (a b : CelValue) : Bool :=
  if isNumericKind a && isNumericKind b then celNumericKeyEq a b else celValueEq a b

/-- `is_valid_map_key_kind`. -/
def isValidMapKeyKind : CelValue → Bool
  | .bool _ | .int _ | .uint _ | .string _ => true
  | _ => false

end CelWasm
