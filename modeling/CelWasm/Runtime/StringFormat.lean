import CelWasm.Library.DecimalDigits
import CelWasm.Library.Utf8
import CelWasm.Runtime.Maps
import CelWasm.Runtime.StringKernels

/-!
# Runtime/StringFormat — `string.format`

A format is parsed into runs of its own bytes and clauses, and the clauses take the arguments from the
left, each by the kind of what it takes. `%s` renders a value of nearly any kind, a container by its
elements: a list of the host is copied for it and a map walked, and each may ask for memory. What the
formatting library of the host language makes of a double or a time is a parameter.
-/

namespace CelWasm

open Utf8

/-- The bytes of a text. -/
def verbatim (text : String) : List UInt8 := encode text.toList

/-! ## Parsing -/

/-- `DirectiveKind`. -/
inductive DirectiveKind
  | kLiteral
  | kSubstring
  | kDecimal
  | kFixed
  | kScientific
  | kBinary
  | kOctal
  | kHexLower
  | kHexUpper
  deriving DecidableEq, Repr

/-- `DirectiveOp`: a run of the format, or a clause and the run it was read from. A precision that is
not there is `kPrecisionDefault`. -/
structure DirectiveOp where
  kind : DirectiveKind
  byteOff : ℕ
  len : ℕ
  precision : Option ℕ
  deriving DecidableEq, Repr

/-- `kMaxPrecision`. -/
def kMaxPrecision : ℕ := 1000

/-- `AppendLiteralByte`, with the latest first. -/
def appendLiteralByte (ops : List DirectiveOp) (byteOff : ℕ) : List DirectiveOp :=
  match ops with
  | [] => [⟨.kLiteral, byteOff, 1, none⟩]
  | last :: rest =>
    if last.kind = .kLiteral ∧ last.byteOff + last.len = byteOff then
      { last with len := last.len + 1 } :: rest
    else ⟨.kLiteral, byteOff, 1, none⟩ :: last :: rest

section Parse

variable (fmt : List UInt8)

/-- `ParsePrecision`: where the precision ends, and what it is. -/
def parsePrecision (i : ℕ) : Except (List UInt8) (ℕ × Option ℕ) :=
  if fmt.length ≤ i then .error (verbatim "unexpected end of format string")
  else if fmt.getD i 0 ≠ 0x2E then .ok (i, none)
  else
    let digits := (fmt.drop (i + 1)).takeWhile (IsDigit ·)
    let j := i + 1 + digits.length
    if digits = [] ∨ j = fmt.length then
      .error (verbatim "unable to find end of precision specifier")
    else if 2 ^ 31 ≤ denoted digits then
      .error (verbatim "unable to convert precision specifier to integer")
    else if kMaxPrecision < denoted digits then
      .error (verbatim "precision specifier exceeds maximum of " ++ numeral kMaxPrecision)
    else .ok (j, some (denoted digits))

/-- `ClassifyType`. -/
def classifyType (c : UInt8) : DirectiveKind :=
  if c = 0x73 then .kSubstring
  else if c = 0x64 then .kDecimal
  else if c = 0x66 then .kFixed
  else if c = 0x65 then .kScientific
  else if c = 0x62 then .kBinary
  else if c = 0x6F then .kOctal
  else if c = 0x78 then .kHexLower
  else if c = 0x58 then .kHexUpper
  else .kLiteral

/-- `ParseDirective`, behind the percent sign: where the clause ends, and what it is. -/
def parseDirective (start : ℕ) : Except (List UInt8) (ℕ × DirectiveOp) := do
  let (typeIdx, precision) ← parsePrecision fmt start
  let typeByte := fmt.getD typeIdx 0
  let kind := classifyType typeByte
  if kind = .kLiteral then
    .error (verbatim "unrecognized formatting clause \"" ++ [typeByte] ++ verbatim "\"")
  else
    return (typeIdx + 1,
      { kind
        byteOff := start - 1
        len := typeIdx + 1 - (start - 1)
        precision := if kind = .kFixed ∨ kind = .kScientific then precision else none })

/-- The loop of `ParseFormat`, from a place on. -/
def parseFormatFrom : ℕ → ℕ → List DirectiveOp → Except (List UInt8) (List DirectiveOp)
  | 0, _, ops => .ok ops.reverse
  | fuel + 1, i, ops =>
    if fmt.length ≤ i then .ok ops.reverse
    else if fmt.getD i 0 ≠ 0x25 then parseFormatFrom fuel (i + 1) (appendLiteralByte ops i)
    else if fmt.length ≤ i + 1 then .error (verbatim "unexpected end of format string")
    else if fmt.getD (i + 1) 0 = 0x25 then
      parseFormatFrom fuel (i + 2) (appendLiteralByte ops (i + 1))
    else
      match parseDirective fmt (i + 1) with
      | .error e => .error e
      | .ok (next, op) => parseFormatFrom fuel next (op :: ops)

/-- **`ParseFormat`**. -/
def parseFormat : Except (List UInt8) (List DirectiveOp) := parseFormatFrom fmt (fmt.length + 1) 0 []

variable {fmt}

/-- A precision is a run of ASCII, and something is behind it. -/
theorem parsePrecision_ok {i j : ℕ} {precision : Option ℕ}
    (h : parsePrecision fmt i = .ok (j, precision)) :
    ∃ run, fmt.drop i = run ++ fmt.drop j ∧ i + run.length = j ∧ j < fmt.length ∧
      ∀ b ∈ run, b.toNat < 128 := by
  rw [parsePrecision] at h
  split_ifs at h with hend hdot
  · obtain ⟨rfl, -⟩ := Prod.mk.inj (Except.ok.inj h)
    exact ⟨[], rfl, rfl, not_le.mp hend, nofun⟩
  · generalize hdigits : (fmt.drop (i + 1)).takeWhile (fun b => decide (IsDigit b)) = digits at h
    have hsplit : fmt.drop (i + 1) = digits ++ fmt.drop (i + 1 + digits.length) := by
      have hprefix : digits <+: fmt.drop (i + 1) := hdigits ▸ List.takeWhile_prefix _
      rw [← @List.drop_drop _ digits.length (i + 1)]
      exact (List.prefix_iff_eq_append.mp hprefix).symm
    dsimp only at h
    split_ifs at h with hnone hbig hmax
    obtain ⟨rfl, -⟩ := Prod.mk.inj (Except.ok.inj h)
    rw [not_or] at hnone
    have hlen := congrArg List.length hsplit
    rw [List.length_append, List.length_drop, List.length_drop] at hlen
    refine ⟨fmt.getD i 0 :: digits, ?_, ?_, by omega, ?_⟩
    · rw [List.drop_eq_getElem_cons (not_le.mp hend), hsplit, List.cons_append,
        List.getD_eq_getElem?_getD, List.getElem?_eq_getElem (not_le.mp hend)]
      rfl
    · rw [List.length_cons]
      omega
    · rw [not_not.mp hdot]
      refine List.forall_mem_cons.mpr ⟨by decide, fun b hb => ?_⟩
      have hdigit := List.all_eq_true.mp List.all_takeWhile b (hdigits ▸ hb)
      have hbound := isDigit_iff.mp (of_decide_eq_true hdigit)
      omega

theorem classifyType_ascii {c : UInt8} (h : classifyType c ≠ .kLiteral) : c.toNat < 128 := by
  by_contra hc
  refine h ?_
  rw [classifyType]
  have hne : ∀ b : UInt8, b.toNat < 128 → c ≠ b := fun b hb heq => hc (heq ▸ hb)
  rw [if_neg (hne _ (by decide)), if_neg (hne _ (by decide)), if_neg (hne _ (by decide)),
    if_neg (hne _ (by decide)), if_neg (hne _ (by decide)), if_neg (hne _ (by decide)),
    if_neg (hne _ (by decide)), if_neg (hne _ (by decide))]

/-- **A clause is a run of ASCII** behind its percent sign. -/
theorem parseDirective_ok {start next : ℕ} {op : DirectiveOp}
    (h : parseDirective fmt start = .ok (next, op)) : op.kind ≠ .kLiteral ∧
      ∃ run, fmt.drop start = run ++ fmt.drop next ∧ start + run.length = next ∧ run ≠ [] ∧
        ∀ b ∈ run, b.toNat < 128 := by
  rw [parseDirective] at h
  cases hprecision : parsePrecision fmt start with
  | error e =>
    rw [hprecision] at h
    exact nomatch h
  | ok found =>
    obtain ⟨typeIdx, precision⟩ := found
    rw [hprecision] at h
    change (if classifyType (fmt.getD typeIdx 0) = .kLiteral then _ else _) = _ at h
    have hkind : classifyType (fmt.getD typeIdx 0) ≠ .kLiteral := fun hkind => by
      rw [if_pos hkind] at h
      exact nomatch h
    rw [if_neg hkind] at h
    obtain ⟨rfl, rfl⟩ := Prod.mk.inj (Except.ok.inj h)
    obtain ⟨run, hrun, hlen, hlt, hascii⟩ := parsePrecision_ok hprecision
    refine ⟨hkind, run ++ [fmt.getD typeIdx 0], ?_, ?_, by simp, ?_⟩
    · rw [hrun, List.append_assoc, List.drop_eq_getElem_cons hlt, List.getD_eq_getElem?_getD,
        List.getElem?_eq_getElem hlt]
      rfl
    · rw [List.length_append, List.length_singleton, ← Nat.add_assoc, hlen]
    · intro b hb
      obtain hb | hb := List.mem_append.mp hb
      · exact hascii b hb
      · exact List.mem_singleton.mp hb ▸ classifyType_ascii hkind

end Parse

/-! ## Numbers -/

/-- `absl::StrAppend` of an integer. -/
def strCatInt (v : ℤ) : List UInt8 :=
  if v < 0 then 0x2D :: numeral v.natAbs else numeral v.natAbs

/-- An integer as `%0*d` prints it. -/
def zeroPadded (width : ℕ) (v : ℤ) : List UInt8 :=
  let sign := if v < 0 then [0x2D] else []
  let digits := numeral v.natAbs
  sign ++ List.replicate (width - sign.length - digits.length) 0x30 ++ digits

/-- A digit of a base up to sixteen. -/
def radixDigit (upper : Bool) (d : ℕ) : UInt8 :=
  if d < 10 then UInt8.ofNat (0x30 + d)
  else if upper then UInt8.ofNat (0x41 + (d - 10))
  else UInt8.ofNat (0x61 + (d - 10))

/-- A number in a base. -/
def radixNumeral (base : ℕ) (upper : Bool) (v : ℕ) : List UInt8 :=
  if v = 0 then [0x30] else ((Nat.digits base v).map (radixDigit upper)).reverse

/-- `SignedAbsAsUint`. -/
def signedAbsAsUint (v : Int64) : UInt64 :=
  if 0 ≤ v then v.toUInt64 else (-(v + 1)).toUInt64 + 1

/-- A signed number in a base, with its sign in front. -/
def signedRadix (base : ℕ) (upper : Bool) (v : Int64) : List UInt8 :=
  (if v < 0 then [0x2D] else []) ++ radixNumeral base upper (signedAbsAsUint v).toNat

/-- **What the formatting library makes of doubles and times.** -/
structure AbslFormat where
  /-- `absl::StrAppend` of a double. -/
  strCatDouble : Binary64 → List UInt8
  /-- `absl::StrFormat` with `%.*f`. -/
  fixed : ℕ → Binary64 → List UInt8
  /-- `absl::StrFormat` with `%.*e`. -/
  scientific : ℕ → Binary64 → List UInt8
  /-- `absl::FormatTime` with `RFC3339_full`, in UTC. -/
  rfc3339Full : AbslTime → List UInt8

/-- **It prints ASCII**: digits, signs, points, letters. -/
structure AbslFormat.PrintsAscii (absl : AbslFormat) : Prop where
  strCatDouble : ∀ d, ∀ b ∈ absl.strCatDouble d, b.toNat < 128
  fixed : ∀ p d, ∀ b ∈ absl.fixed p d, b.toNat < 128
  scientific : ∀ p d, ∀ b ∈ absl.scientific p d, b.toNat < 128
  rfc3339Full : ∀ t, ∀ b ∈ absl.rfc3339Full t, b.toNat < 128

/-! ## Rendering -/

/-- A double that has a token of its own, or as it is printed. -/
def appendDoubleToken (d : Binary64) (finite : List UInt8) : List UInt8 :=
  if d.isNaN then verbatim "NaN"
  else if d.isInf then verbatim (if d.negative then "-Infinity" else "Infinity")
  else finite

/-- `AppendDurationCanonical`. -/
def appendDurationCanonical (d : CelDurTs) : List UInt8 :=
  if d.seconds = 0 ∧ d.nanos = 0 then verbatim "0s"
  else
    let secs := if d.seconds < 0 then -d.seconds else d.seconds
    let nanos := if d.nanos < 0 then -d.nanos else d.nanos
    let sign := if d.seconds < 0 ∨ d.nanos < 0 then [0x2D] else []
    let fraction :=
      if nanos = 0 then []
      else if nanos % 1000000 = 0 then 0x2E :: zeroPadded 3 (nanos / 1000000).toInt
      else if nanos % 1000 = 0 then 0x2E :: zeroPadded 6 (nanos / 1000).toInt
      else 0x2E :: zeroPadded 9 nanos.toInt
    sign ++ strCatInt secs.toInt ++ fraction ++ [0x73]

/-- The offset of UTC as a time is printed with it. -/
def kUtcOffset : List UInt8 := verbatim "+00:00"

section Render

variable (absl : AbslFormat)

/-- `AppendTimestampCanonical`: the offset of UTC is written `Z`. -/
def appendTimestampCanonical (t : CelDurTs) : List UInt8 :=
  let s := absl.rfc3339Full (.ofSecondsNanos t.seconds t.nanos)
  if kUtcOffset.length < s.length && kUtcOffset.isSuffixOf s then
    s.take (s.length - kUtcOffset.length) ++ [0x5A]
  else s

/-- `ToDouble`. -/
def toDouble : CelValue → Option Binary64
  | .double d => some d
  | .int i => some (.ofInt i.toInt)
  | .uint u => some (.ofInt u.toNat)
  | _ => none

/-- `RenderFixed`. -/
def renderFixed (v : CelValue) (precision : Option ℕ) : Option (List UInt8) :=
  (toDouble v).map fun d => appendDoubleToken d (absl.fixed (precision.getD 6) d)

/-- `RenderScientific`. -/
def renderScientific (v : CelValue) (precision : Option ℕ) : Option (List UInt8) :=
  (toDouble v).map fun d => appendDoubleToken d (absl.scientific (precision.getD 6) d)

/-- `RenderDecimal`. -/
def renderDecimal : CelValue → Option (List UInt8)
  | .int i => some (strCatInt i.toInt)
  | .uint u => some (strCatInt u.toNat)
  | .double d => renderFixed absl (.double d) none
  | _ => none

/-- `RenderBinary`. -/
def renderBinary : CelValue → Option (List UInt8)
  | .int i => some (signedRadix 2 false i)
  | .uint u => some (radixNumeral 2 false u.toNat)
  | .bool b => some [if b then 0x31 else 0x30]
  | _ => none

/-- `RenderOctal`. -/
def renderOctal : CelValue → Option (List UInt8)
  | .int i => some (signedRadix 8 false i)
  | .uint u => some (radixNumeral 8 false u.toNat)
  | _ => none

/-- `AppendBytesAsHex`: two digits for every byte. -/
def bytesAsHex (upper : Bool) (bytes : List UInt8) : List UInt8 :=
  bytes.flatMap fun b => [radixDigit upper (b.toNat / 16), radixDigit upper (b.toNat % 16)]

/-- `RenderHex`. -/
def renderHex (upper : Bool) : CelValue → Option (List UInt8)
  | .int i => some (signedRadix 16 upper i)
  | .uint u => some (radixNumeral 16 upper u.toNat)
  | .string s => some (bytesAsHex upper s)
  | .bytes s => some (bytesAsHex upper s)
  | _ => none

/-! ## Containers -/

/-- `IsFormattableMapKey`. -/
def isFormattableMapKey : CelValue → Bool
  | .string _ | .bool _ | .int _ | .uint _ => true
  | _ => false

/-- `std::map::emplace`: in the order of the keys, where there is none yet. -/
def emplace (key value : List UInt8) : List (List UInt8 × List UInt8) →
    List (List UInt8 × List UInt8)
  | [] => [(key, value)]
  | e :: rest =>
    if key < e.1 then (key, value) :: e :: rest
    else if key = e.1 then e :: rest
    else e :: emplace key value rest

variable (render : CelValue → Kernel (Option (List UInt8)))

/-- The texts of the elements of a list; none is one that cannot be rendered. -/
def renderElements : List CelValue → Kernel (Option (List (List UInt8)))
  | [] => return some []
  | v :: rest => do
    match ← render v with
    | none => return none
    | some text => return (← renderElements rest).map (text :: ·)

/-- The texts of the entries of a map, by those of the keys. -/
def renderEntries : List (CelValue × CelValue) → List (List UInt8 × List UInt8) →
    Kernel (Option (List (List UInt8 × List UInt8)))
  | [], sorted => return some sorted
  | (key, value) :: rest, sorted => do
    if !isFormattableMapKey key then return none
    else
      match ← render key with
      | none => return none
      | some keyStr =>
        match ← render value with
        | none => return none
        | some valStr => renderEntries rest (emplace keyStr valStr sorted)

variable (host : CelHost)

/-- `AppendListCanonical`. -/
def appendListCanonical (list : CelValue) : Kernel (Option (List UInt8)) := do
  let elements ← celListArenaView host list
  return (← renderElements render elements).map fun texts =>
    0x5B :: (verbatim ", ").intercalate texts ++ [0x5D]

/-- `AppendMapCanonical`: the walk needs two scratch cells. -/
def appendMapCanonical (m : CelValue) : Kernel (Option (List UInt8)) := do
  if ← Prog.alloc 48 then
    let entries ← celMapIterInit host m
    return (← renderEntries render entries []).map fun sorted =>
      0x7B :: (verbatim ", ").intercalate (sorted.map fun e => e.1 ++ verbatim ": " ++ e.2)
        ++ [0x7D]
  else return none

end Render

section Format

variable (host : CelHost) (absl : AbslFormat)

/-- **`RenderString`**, as deep as the stack has frames. -/
def renderString : ℕ → CelValue → Kernel (Option (List UInt8))
  | 0, _ => Prog.stop .stackExhausted
  | stack + 1, v =>
    match v with
    | .null => return some (verbatim "null")
    | .bool b => return some (verbatim (if b then "true" else "false"))
    | .int i => return some (strCatInt i.toInt)
    | .uint u => return some (strCatInt u.toNat)
    | .double d => return some (appendDoubleToken d (absl.strCatDouble d))
    | .string s => return some s
    -- `%s` copies bytes out verbatim
    | .bytes s => return some s
    | .type name => return some name
    | .timestamp t => return some (appendTimestampCanonical absl t)
    | .duration d => return some (appendDurationCanonical d)
    | .listArena .. | .listHost _ => appendListCanonical (renderString stack) host v
    | .mapArena .. | .mapHost _ => appendMapCanonical (renderString stack) host v
    | _ => return none

/-! ## The kernel -/

variable (stack : ℕ)

/-- `DispatchDirective`. -/
def dispatchDirective (op : DirectiveOp) (arg : CelValue) : Kernel (Option (List UInt8)) :=
  match op.kind with
  | .kSubstring => renderString host absl stack arg
  | .kDecimal => return renderDecimal absl arg
  | .kFixed => return renderFixed absl arg op.precision
  | .kScientific => return renderScientific absl arg op.precision
  | .kBinary => return renderBinary arg
  | .kOctal => return renderOctal arg
  | .kHexLower => return renderHex false arg
  | .kHexUpper => return renderHex true arg
  | .kLiteral => Prog.stop .abort

/-- `EmitLiteral`. -/
def emitLiteral (fmt : List UInt8) (op : DirectiveOp) : List UInt8 :=
  (fmt.drop op.byteOff).take op.len

/-- **`RunFormat`**: arguments that no clause takes are left. -/
def runFormat (fmt : List UInt8) : List DirectiveOp → List CelValue → Kernel (Option (List UInt8))
  | [], _ => return some []
  | op :: ops, args => do
    if op.kind = .kLiteral then
      return (← runFormat fmt ops args).map (emitLiteral fmt op ++ ·)
    else
      match args with
      | [] => return none
      | arg :: rest =>
        match ← dispatchDirective host absl stack op arg with
        | none => return none
        | some text => return (← runFormat fmt ops rest).map (text ++ ·)

/-- What `cel_string_format_at_vv` does behind its checks: the arguments are lifted before the format
is looked at, and poison among them is handed on. -/
def formatArgs (fmt : List UInt8) (args : CelValue) : Kernel CelValue := do
  let elements ← celListArenaView host args
  match parseFormat fmt with
  | .error _ => return .error .invalidArgument
  | .ok ops =>
    match elements.find? CelValue.isPoison with
    | some absorbed => return absorbed
    | none =>
      match ← runFormat host absl stack fmt ops elements with
      | none => return .error .invalidArgument
      | some text => writeStringFromBytes text

/-- **`cel_string_format_at_vv`**. -/
def celStringFormat (s args : CelValue) : Kernel CelValue :=
  unlessAbsorbedUnary s <| unlessAbsorbedUnary args <|
    match s, args with
    | .string fmt, .listArena .. | .string fmt, .listHost _ => formatArgs host absl stack fmt args
    | _, _ => return .error .typeMismatch

end Format

end CelWasm
