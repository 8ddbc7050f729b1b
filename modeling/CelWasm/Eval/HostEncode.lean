import CelWasm.Runtime.Host

/-!
# Eval/HostEncode — host values on the wire

A value a backing returns crosses into linear memory as a cell. Scalars are written inline, strings
and bytes into the arena, containers and messages as handles on the backing. Durations and times are
split into seconds and nanoseconds, both rounded toward zero.
-/

namespace CelWasm

/-- **`DecomposeAbslDuration`**. -/
def decomposeAbslDuration (d : AbslDuration) : CelDurTs :=
  let (seconds, rest) := d.iDivDuration 4000000000
  { seconds := Int64.ofInt seconds, nanos := Int32.ofInt rest.toInt64Nanoseconds }

/-- `EncodeSpan`: out of memory is a failing status, unless there is nothing to write. -/
def encodeSpan (bytes : List UInt8) (cell : CelValue) : Kernel CelValue := do
  let granted ← Prog.alloc bytes.length
  if !granted && !bytes.isEmpty then Prog.stop .hostFailure else return cell

/-- **`EncodeFieldResult`** and `EncodeBackingElement`: containers and messages are interned, the rest
is `EncodeValue`, which aborts on what no backing returns. -/
def encodeValue : HostValue → Kernel CelValue
  | .null => return .null
  | .bool b => return .bool b
  | .int i => return .int i
  | .uint u => return .uint u
  | .double d => return .double d
  | .string s => encodeSpan s (.string s)
  | .bytes s => encodeSpan s (.bytes s)
  | .list elements => return .listHost elements
  | .map entries => return .mapHost entries
  | .message slot => return .message slot
  | .duration d => return .duration (decomposeAbslDuration d)
  | .timestamp t => return .timestamp (decomposeAbslDuration (t.sub (.ofSeconds 0)))
  | .error code => return .error code
  | .unknown _ | .type _ => Prog.stop .abort

/-- The cell a value is written as; none where the encoder aborts. -/
def HostValue.encoded : HostValue → Option CelValue
  | .null => some .null
  | .bool b => some (.bool b)
  | .int i => some (.int i)
  | .uint u => some (.uint u)
  | .double d => some (.double d)
  | .string s => some (.string s)
  | .bytes s => some (.bytes s)
  | .list elements => some (.listHost elements)
  | .map entries => some (.mapHost entries)
  | .message slot => some (.message slot)
  | .duration d => some (.duration (decomposeAbslDuration d))
  | .timestamp t => some (.timestamp (decomposeAbslDuration t))
  | .error code => some (.error code)
  | .unknown _ | .type _ => none

/-- A time is the duration since the epoch. -/
@[simp] theorem AbslDuration.sub_ofSeconds_zero (t : AbslTime) : t.sub (.ofSeconds 0) = t := by
  cases t with
  | infinite negative => rfl
  | finite hi lo =>
    have hdiff : ticks hi lo - ticks 0 0 = ticks hi lo := by simp [ticks]
    rw [ofSeconds, sub, hdiff, ofTicks_ticks]

/-- With memory to spare a value is written as its cell. -/
theorem granted_encodeValue (v : HostValue) : (encodeValue v).granted
    = match v.encoded with | some cell => .ok cell | none => .error .abort := by
  cases v with
  | timestamp t => rw [encodeValue, AbslDuration.sub_ofSeconds_zero]; rfl
  | _ => rfl

theorem granted_encodeValue_of_encoded {v : HostValue} {cell : CelValue} (h : v.encoded = some cell) :
    (encodeValue v).granted = .ok cell := by rw [granted_encodeValue, h]

/-! ## Times on the wire -/

section Times

variable {hi : Int64} {lo : Fin 4000000000}

/-- From the epoch on, and at a whole second, the wire has the second a time is in and the
nanoseconds past it. -/
theorem decomposeAbslDuration_of_whole (h : 0 ≤ hi.toInt ∨ lo = 0) :
    decomposeAbslDuration (.finite hi lo)
      = { seconds := hi, nanos := Int32.ofInt (lo.val / 4 : ℕ) } := by
  rw [decomposeAbslDuration, AbslDuration.iDivDuration_second_of_whole h]
  simp only [Int64.ofInt_toInt, AbslDuration.toInt64Nanoseconds_lo]

/-- Before the epoch, within a second, the wire has the next second and nanoseconds back from it. -/
theorem decomposeAbslDuration_of_fraction (h : hi.toInt < 0) (hfraction : lo ≠ 0) :
    decomposeAbslDuration (.finite hi lo)
      = { seconds := hi + 1, nanos := Int32.ofInt (-((4000000000 - lo.val) / 4 : ℕ)) } := by
  rw [decomposeAbslDuration, AbslDuration.iDivDuration_second_of_fraction h hfraction]
  simp only [Int64.ofInt_add, Int64.ofInt_toInt, AbslDuration.toInt64Nanoseconds_neg]
  rfl

theorem decomposeAbslDuration_infinite (negative : Bool) :
    decomposeAbslDuration (.infinite negative)
      = if negative then { seconds := Int64.minValue, nanos := 0 }
        else { seconds := Int64.maxValue, nanos := -1 } := by
  cases negative <;> decide

end Times

end CelWasm
