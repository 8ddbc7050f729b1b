import Mathlib.Algebra.Order.Ring.Int
import Mathlib.Data.List.Basic

/-!
# Runtime/StringSearch — the walks of the string extension

A position is a place in the bytes, an index a number of code points, and every walk here steps from
one code point to the next with `Utf8Decode`. Strings are not validated on the way: where the bytes
are no code point, the step is one byte. A walk is given as many steps as there are bytes, since none
is shorter than one.
-/

namespace CelWasm

/-! ## Code points -/

/-- `Utf8DecodeMulti`: the bytes it consumes. -/
def utf8DecodeMulti (expected : ℕ) (bytes : List UInt8) : ℕ :=
  if bytes.length < expected then 1
  else if ((bytes.take expected).drop 1).all fun b => b &&& 0xC0 == 0x80 then expected else 1

/-- **`Utf8Decode`**: the bytes the code point in front takes. -/
def utf8Decode (bytes : List UInt8) : ℕ :=
  match bytes with
  | [] => 1
  | b :: _ =>
    if b < 0x80 then 1
    else if b &&& 0xE0 == 0xC0 then utf8DecodeMulti 2 bytes
    else if b &&& 0xF0 == 0xE0 then utf8DecodeMulti 3 bytes
    else if b &&& 0xF8 == 0xF0 then utf8DecodeMulti 4 bytes
    else 1

/-- The walk of `charAt`: the bytes of the code point at an index, none of them at the end of the
string, and no answer past it. -/
def charAtWalk : ℕ → List UInt8 → ℕ → Option (List UInt8)
  | _, [], remaining => if remaining = 0 then some [] else none
  | 0, _, _ => none
  | _ + 1, b :: bs, 0 => some ((b :: bs).take (utf8Decode (b :: bs)))
  | fuel + 1, b :: bs, remaining + 1 =>
    charAtWalk fuel ((b :: bs).drop (utf8Decode (b :: bs))) remaining

/-- The loop of `CodepointToByteOffset`. -/
def byteOffsetWalk : ℕ → List UInt8 → ℕ → ℕ → Option ℕ
  | _, _, 0, offset => some offset
  | _, [], _ + 1, _ => none
  | 0, _, _ + 1, _ => none
  | fuel + 1, b :: bs, n + 1, offset =>
    let units := utf8Decode (b :: bs)
    byteOffsetWalk fuel ((b :: bs).drop units) n (offset + units)

/-- **`CodepointToByteOffset`**, or none past the last code point. -/
def codepointToByteOffset (s : List UInt8) (n : Int64) : Option ℕ :=
  if n < 0 then none else byteOffsetWalk s.length s n.toInt.toNat 0

/-- `ValidatePos`: whether the position is refused. -/
def validatePos (pos : Int64) (haystack : List UInt8) : Bool :=
  pos < 0 || (codepointToByteOffset haystack pos).isNone

/-! ## Searching -/

/-- `AdvanceToBoundary`: step until the target is no longer ahead. It comes with whether the walk
landed on the target, what is left of the bytes and the code points passed; a block of sixteen
ASCII bytes that is stepped over at once is sixteen steps. -/
def advanceToBoundary : ℕ → List UInt8 → ℕ → ℤ → Bool × List UInt8 × ℤ
  | _, rest, 0, codePoints => (true, rest, codePoints)
  | 0, rest, _ + 1, codePoints => (false, rest, codePoints)
  | fuel + 1, rest, ahead + 1, codePoints =>
    let units := utf8Decode rest
    if ahead + 1 < units then (false, rest.drop units, codePoints + 1)
    else advanceToBoundary fuel (rest.drop units) (ahead + 1 - units) (codePoints + 1)

/-- `cel_anchor_memchr_`: the first place of a byte in a window. -/
def anchorMemchr (rest : List UInt8) (anchor : UInt8) (window : ℕ) : Option ℕ :=
  (rest.take window).findIdx? (· == anchor)

/-- `IndexOfImpl` of an empty needle. -/
def indexOfEmpty (pos : ℤ) : ℕ → List UInt8 → ℤ → ℤ
  | 0, _, _ => -1
  | fuel + 1, rest, codePoints =>
    if pos ≤ codePoints then codePoints
    else if rest = [] then -1
    else indexOfEmpty pos fuel (rest.drop (utf8Decode rest)) (codePoints + 1)

/-- `IndexOfImpl` of a needle with a first byte. -/
def indexOfAnchored (needle : List UInt8) (anchor : UInt8) (pos : ℤ) : ℕ → List UInt8 → ℤ → ℤ
  | 0, _, _ => -1
  | fuel + 1, rest, codePoints =>
    if rest.length < needle.length then -1
    else
      match anchorMemchr rest anchor (rest.length - needle.length + 1) with
      | none => -1
      | some hit =>
        match advanceToBoundary hit rest hit codePoints with
        | (false, rest, codePoints) => indexOfAnchored needle anchor pos fuel rest codePoints
        | (true, rest, codePoints) =>
          if pos ≤ codePoints ∧ rest.take needle.length = needle then codePoints
          else if rest.length = needle.length then -1
          else
            indexOfAnchored needle anchor pos fuel (rest.drop (utf8Decode rest)) (codePoints + 1)

/-- **`IndexOfImpl`**. -/
def indexOfImpl (haystack needle : List UInt8) (pos : Int64) : ℤ :=
  let pos := max pos.toInt 0
  match needle with
  | [] => indexOfEmpty pos (haystack.length + 1) haystack 0
  | anchor :: _ => indexOfAnchored needle anchor pos (haystack.length + 1) haystack 0

/-- `LastIndexOfImpl` of an empty needle. -/
def lastIndexOfEmpty (pos : Option ℤ) : ℕ → List UInt8 → ℤ → ℤ
  | 0, _, codePoints => codePoints
  | fuel + 1, rest, codePoints =>
    if pos.any (· ≤ codePoints) ∨ rest = [] then codePoints
    else lastIndexOfEmpty pos fuel (rest.drop (utf8Decode rest)) (codePoints + 1)

/-- `LastIndexOfImpl` of a needle with a first byte. -/
def lastIndexOfAnchored (needle : List UInt8) (anchor : UInt8) (pos : Option ℤ) :
    ℕ → List UInt8 → ℤ → ℤ → ℤ
  | 0, _, _, lastIndex => lastIndex
  | fuel + 1, rest, codePoints, lastIndex =>
    if rest.length < needle.length then lastIndex
    else
      match anchorMemchr rest anchor (rest.length - needle.length + 1) with
      | none => lastIndex
      | some hit =>
        match advanceToBoundary hit rest hit codePoints with
        | (false, rest, codePoints) =>
          lastIndexOfAnchored needle anchor pos fuel rest codePoints lastIndex
        | (true, rest, codePoints) =>
          if pos.any (· < codePoints) then lastIndex
          else
            let lastIndex := if rest.take needle.length = needle then codePoints else lastIndex
            if pos.any (· ≤ codePoints) ∨ rest.length = needle.length then lastIndex
            else
              lastIndexOfAnchored needle anchor pos fuel (rest.drop (utf8Decode rest))
                (codePoints + 1) lastIndex

/-- **`LastIndexOfImpl`**; without a position it looks to the end. -/
def lastIndexOfImpl (haystack needle : List UInt8) (pos : Option Int64) : ℤ :=
  let pos := pos.map Int64.toInt
  match needle with
  | [] => lastIndexOfEmpty pos (haystack.length + 1) haystack 0
  | anchor :: _ => lastIndexOfAnchored needle anchor pos (haystack.length + 1) haystack 0 (-1)

/-! ## Cutting and replacing -/

/-- `string_view::find` from the front. -/
def findBytes (needle haystack : List UInt8) : Option ℕ :=
  haystack.tails.findIdx? needle.isPrefixOf

/-- `limit` as `replace` and `split` read it: a negative one is none. -/
def normalizedLimit (limit : Int64) : ℕ := if limit < 0 then 2 ^ 63 - 1 else limit.toInt.toNat

/-- `BuildReplaced` of an empty needle: the replacement before every code point, and behind the last
one while there is limit left. -/
def replaceBetween (replacement : List UInt8) : ℕ → List UInt8 → List UInt8
  | 0, rest => rest
  | _ + 1, [] => replacement
  | limit + 1, b :: bs =>
    let units := utf8Decode (b :: bs)
    replacement ++ (b :: bs).take units ++
      replaceBetween replacement limit ((b :: bs).drop units)

/-- `BuildReplaced` of a needle. -/
def replaceFound (needle replacement : List UInt8) : ℕ → List UInt8 → List UInt8
  | 0, rest => rest
  | limit + 1, rest =>
    match findBytes needle rest with
    | none => rest
    | some found =>
      rest.take found ++ replacement ++
        replaceFound needle replacement limit (rest.drop (found + needle.length))

/-- **`BuildReplaced`**. -/
def buildReplaced (haystack needle replacement : List UInt8) (limit : ℕ) : List UInt8 :=
  if needle = [] then replaceBetween replacement limit haystack
  else replaceFound needle replacement limit haystack

/-- The cuts of `ComputeSplitRanges` between code points, and what is left. -/
def splitCodePoints : ℕ → List UInt8 → List (List UInt8) × List UInt8
  | limit + 2, b :: bs =>
    let units := utf8Decode (b :: bs)
    let cut := splitCodePoints (limit + 1) ((b :: bs).drop units)
    ((b :: bs).take units :: cut.1, cut.2)
  | _, rest => ([], rest)

/-- The cuts of `ComputeSplitRanges` at a separator, and what is left. -/
def splitFound (sep : List UInt8) : ℕ → List UInt8 → List (List UInt8) × List UInt8
  | limit + 2, rest =>
    match findBytes sep rest with
    | none => ([], rest)
    | some next =>
      let cut := splitFound sep (limit + 1) (rest.drop (next + sep.length))
      (rest.take next :: cut.1, cut.2)
  | _, rest => ([], rest)

/-- **`ComputeSplitRanges`**, as the pieces. What is left is a piece as well, unless nothing is left
of a string cut between its code points. -/
def computeSplitRanges (haystack sep : List UInt8) (limit : ℕ) : List (List UInt8) :=
  if sep = [] then
    let cut := splitCodePoints limit haystack
    if cut.1 = [] ∨ cut.2 ≠ [] then cut.1 ++ [cut.2] else cut.1
  else
    let cut := splitFound sep limit haystack
    cut.1 ++ [cut.2]

end CelWasm
