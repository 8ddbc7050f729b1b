import CelWasm.Eval.ProtoField

/-!
# Eval/ProtoRead — what a scalar field reads as

CEL has one int, one uint and one double. A field of 32 bits is widened when it is read, and so is a
float; an enum reads as its number.
-/

namespace CelWasm

/-- The double a float is, from its bits; a signalling NaN comes out quiet. -/
def Binary64.widen (float : UInt32) : Binary64 :=
  let sign := float.toNat / 2 ^ 31 * 2 ^ 63
  let exponent := float.toNat / 2 ^ 23 % 2 ^ 8
  let fraction := float.toNat % 2 ^ 23
  let bits :=
    if exponent = 255 then
      2047 * 2 ^ 52 + (if fraction = 0 then 0 else 2 ^ 51 + fraction % 2 ^ 22 * 2 ^ 29)
    else if exponent = 0 then
      if fraction = 0 then 0
      else (fraction.log2 + 874) * 2 ^ 52 + (fraction * 2 ^ (52 - fraction.log2) - 2 ^ 52)
    else (exponent + 896) * 2 ^ 52 + fraction * 2 ^ 29
  ⟨UInt64.ofNat (sign + bits)⟩

/-- **`ReadScalarField`** of a field that is no message: `ReadNumericField`, and the strings. -/
def readScalarField : ProtoScalar → HostValue
  | .bool b => .bool b
  | .int32 i => .int i.toInt64
  | .int64 i => .int i
  | .uint32 u => .uint u.toUInt64
  | .uint64 u => .uint u
  | .float bits => .double (.widen bits)
  | .double d => .double d
  | .string s => .string s
  | .bytes s => .bytes s
  | .enum i => .int i.toInt64

/-- `UnpackWrapperValueField`. -/
def unpackWrapperValueField := readScalarField

end CelWasm
