import CelWasm.Runtime.CodePoints
import CelWasm.Runtime.SlotStrings

/-!
# Runtime/TextKernels — the kernels that write another string

Concatenation, the ASCII cases, `trim`, `reverse` and `quote`. The walks go from code point to code
point as those of the searches do; `reverse` goes from the back, and takes a byte and what it
continues.
-/

namespace CelWasm

open CellProg Utf8

/-! ## Concatenation -/

/-- `concat_into_out`. -/
def concatIntoOut (tag : List UInt8 → CelValue) (a b : List UInt8) : Kernel CelValue := do
  if 2 ^ 32 - 1 - a.length < b.length then return .error .overflow
  else if 0 < a.length + b.length then
    if ← Prog.alloc (a.length + b.length) then return tag (a ++ b) else return .error .overflow
  else return tag []

/-- `cel_string_concat_at_vv`. -/
def celStringConcat (a b : CelValue) : Kernel CelValue :=
  unlessAbsorbed a b <|
    match a, b with
    | .string s, .string t => concatIntoOut .string s t
    | _, _ => return .error .typeMismatch

/-! ## Code points -/

/-- `Utf8DecodeMulti`: the code point. Where the bytes are no sequence it is the first of them. -/
def utf8CodePointMulti (expected : ℕ) (leadMask b : UInt8) (bs : List UInt8) : UInt32 :=
  if utf8DecodeMulti expected (b :: bs) = 1 then b.toUInt32
  else
    (bs.take (expected - 1)).foldl (fun acc c => acc <<< 6 ||| (c &&& 0x3F).toUInt32)
      (b &&& leadMask).toUInt32

/-- `Utf8Decode`: the code point in front. -/
def utf8CodePoint (b : UInt8) (bs : List UInt8) : UInt32 :=
  if b < 0x80 then b.toUInt32
  else if b &&& 0xE0 == 0xC0 then utf8CodePointMulti 2 0x1F b bs
  else if b &&& 0xF0 == 0xE0 then utf8CodePointMulti 3 0x0F b bs
  else if b &&& 0xF8 == 0xF0 then utf8CodePointMulti 4 0x07 b bs
  else b.toUInt32

/-! ## ASCII cases -/

/-- `absl::ascii_isupper`. -/
def asciiIsUpper (c : UInt8) : Bool := 0x41 ≤ c && c ≤ 0x5A

/-- `absl::ascii_islower`. -/
def asciiIsLower (c : UInt8) : Bool := 0x61 ≤ c && c ≤ 0x7A

/-- `absl::ascii_tolower`. -/
def asciiToLower (c : UInt8) : UInt8 := if asciiIsUpper c then c + 0x20 else c

/-- `absl::ascii_toupper`. -/
def asciiToUpper (c : UInt8) : UInt8 := if asciiIsLower c then c - 0x20 else c

/-- `AsciiFoldInto`: what does not change is not copied. -/
def asciiFoldInto (needsFold : UInt8 → Bool) (fold : UInt8 → UInt8) (text : List UInt8) :
    Kernel CelValue := do
  if !text.any needsFold then return .string text
  else if ← Prog.alloc text.length then
    return .string (text.map fun c => if needsFold c then fold c else c)
  else return .error .overflow

/-- `cel_string_lower_ascii_at_v`. -/
def celStringLowerAscii (s : CelValue) : Kernel CelValue :=
  unlessAbsorbedUnary s <|
    match s with
    | .string text => asciiFoldInto asciiIsUpper asciiToLower text
    | _ => return .error .typeMismatch

/-- `cel_string_upper_ascii_at_v`. -/
def celStringUpperAscii (s : CelValue) : Kernel CelValue :=
  unlessAbsorbedUnary s <|
    match s with
    | .string text => asciiFoldInto asciiIsLower asciiToUpper text
    | _ => return .error .typeMismatch

/-! ## Trimming -/

/-- `IsUnicodeWhitespace`. -/
def isUnicodeWhitespace (c : UInt32) : Bool :=
  if c ≤ 0x0020 then c == 0x0020 || (0x0009 ≤ c && c ≤ 0x000D)
  else if 0x3000 < c then false
  else if c == 0x0085 || c == 0x00a0 || c == 0x1680 then true
  else if 0x2000 ≤ c && c ≤ 0x200a then true
  else c == 0x2028 || c == 0x2029 || c == 0x202f || c == 0x205f || c == 0x3000

/-- The left trim. -/
def trimLeft : ℕ → List UInt8 → List UInt8
  | _, [] => []
  | 0, rest => rest
  | fuel + 1, b :: bs =>
    if isUnicodeWhitespace (utf8CodePoint b bs) then
      trimLeft fuel ((b :: bs).drop (utf8Decode (b :: bs)))
    else b :: bs

/-- The right trim: the end of the last code point that is no whitespace. -/
def lastNonWsEnd : ℕ → List UInt8 → ℕ → ℕ → ℕ
  | _, [], _, last => last
  | 0, _, _, last => last
  | fuel + 1, b :: bs, p, last =>
    let next := p + utf8Decode (b :: bs)
    lastNonWsEnd fuel ((b :: bs).drop (utf8Decode (b :: bs))) next
      (if isUnicodeWhitespace (utf8CodePoint b bs) then last else next)

/-- The span that `trim` writes. -/
def trimmed (text : List UInt8) : List UInt8 :=
  let rest := trimLeft text.length text
  if rest = [] then [] else rest.take (lastNonWsEnd rest.length rest 0 0)

/-- `cel_string_trim_at_v`. -/
def celStringTrim (s : CelValue) : Kernel CelValue :=
  unlessAbsorbedUnary s <|
    match s with
    | .string text => return .string (trimmed text)
    | _ => return .error .typeMismatch

/-! ## Reversing -/

/-- The loop of `PrevCodepoint`. -/
def prevCodepointFrom (text : List UInt8) : ℕ → ℕ
  | 0 => 0
  | p + 1 => if text.getD (p + 1) 0 &&& 0xC0 == 0x80 then prevCodepointFrom text p else p + 1

/-- **`PrevCodepoint`**: where the code point in front of a place starts. -/
def prevCodepoint (text : List UInt8) (stop : ℕ) : ℕ := prevCodepointFrom text (stop - 1)

/-- The loop of `reverse`. -/
def reverseFrom (text : List UInt8) : ℕ → ℕ → List UInt8
  | 0, _ => []
  | _ + 1, 0 => []
  | fuel + 1, stop + 1 =>
    let start := prevCodepoint text (stop + 1)
    (text.drop start).take (stop + 1 - start) ++ reverseFrom text fuel start

/-- `cel_string_reverse_at_v`. -/
def celStringReverse (s : CelValue) : Kernel CelValue :=
  unlessAbsorbedUnary s <|
    match s with
    | .string [] => return .string []
    | .string text => do
      if ← Prog.alloc text.length then return .string (reverseFrom text text.length text.length)
      else return .error .overflow
    | _ => return .error .typeMismatch

/-! ## Quoting -/

/-- `AppendQuoteCodepoint`: nine code points are escaped. -/
def appendQuoteCodepoint (cp : UInt32) (src : List UInt8) : List UInt8 :=
  if cp = 0x07 then [0x5C, 0x61]
  else if cp = 0x08 then [0x5C, 0x62]
  else if cp = 0x0C then [0x5C, 0x66]
  else if cp = 0x0A then [0x5C, 0x6E]
  else if cp = 0x0D then [0x5C, 0x72]
  else if cp = 0x09 then [0x5C, 0x74]
  else if cp = 0x0B then [0x5C, 0x76]
  else if cp = 0x5C then [0x5C, 0x5C]
  else if cp = 0x22 then [0x5C, 0x22]
  else src

/-- The loop of `quote`. -/
def quoteFrom : ℕ → List UInt8 → List UInt8
  | _, [] => []
  | 0, _ => []
  | fuel + 1, b :: bs =>
    let units := utf8Decode (b :: bs)
    appendQuoteCodepoint (utf8CodePoint b bs) ((b :: bs).take units) ++
      quoteFrom fuel ((b :: bs).drop units)

/-- `cel_string_quote_at_v`. -/
def celStringQuote (s : CelValue) : Kernel CelValue :=
  unlessAbsorbedUnary s <|
    match s with
    | .string text => writeStringFromBytes (0x22 :: quoteFrom text.length text ++ [0x22])
    | _ => return .error .typeMismatch

end CelWasm
