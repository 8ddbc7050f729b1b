import CelWasm.Runtime.Maps

/-!
# Runtime/Equality — deep equality, and membership by it

`equalityKernel` is the `==` of two values: it absorbs poison, compares scalars by kind, and sends
lists and maps to the aggregate walks, which compare their elements with it again. The recursion is on
the first operand. A walk keeps the verdicts on its elements in one scratch cell, asked for when the
first pair that is not scalar turns up.
-/

namespace CelWasm

/-- `is_scalar_eq_kind`. -/
def isScalarEqKind : CelValue → Bool
  | .null | .bool _ | .int _ | .uint _ | .double _ | .string _ | .bytes _ | .duration _
  | .timestamp _ | .ip _ | .cidr _ => true
  | _ => false

/-- `is_list`-shaped: one arm of `both_lists`. -/
def isListShaped : CelValue → Bool
  | .listArena _ _ | .listHost _ => true
  | _ => false

/-- One arm of `both_maps`. -/
def isMapShaped : CelValue → Bool
  | .mapArena _ _ _ | .mapHost _ => true
  | _ => false

/-- `equal_same_kind` and `type_eq_at_vv`, past the optionals: the verdict on two values of one
scalar kind. -/
def equalSameKind : CelValue → CelValue → Option Bool
  | .null, .null => some true
  | .bool x, .bool y => some (x == y)
  | .string s, .string t => some (s == t)
  | .bytes s, .bytes t => some (s == t)
  | .type s, .type t => some (s == t)
  | .duration d, .duration e => some (d == e)
  | .timestamp t, .timestamp u => some (t == u)
  | .ip x, .ip y => some (x == y)
  | .cidr x, .cidr y => some (x == y)
  | _, _ => none

/-- The scratch cell of a walk, asked for once. -/
def scratchCell (scratch : Bool) : Kernel Bool := if scratch then return true else Prog.alloc 24

/-- `deep_values_equal`: whether the scratch cell is there now, and the verdict, unless it could not
be allocated. `kernel` is the equality kernel on the two values. -/
def deepValuesEqual (scratch : Bool) (a b : CelValue) (kernel : Kernel CelValue) :
    Kernel (Bool × Option Bool) := do
  if isScalarEqKind a && isScalarEqKind b then return (scratch, some (celValueEq a b))
  else if ← scratchCell scratch then
    return (true, some ((← kernel).isBool true))
  else return (false, none)

/-- Where `arena_map_entry_matches` finds an entry's key in the other map. Its scan, unlike a
lookup's, puts the query first. -/
def matchingEntry (key : CelValue) (entries : List (CelValue × CelValue))
    (index : Option MapIndex) : Kernel (Option CelValue) :=
  match index with
  | some _ => do
    match ← arenaMapFind entries index key with
    | some j => some <$> arenaMapEntryVal entries j
    | none => return none
  | none => return (entries.find? fun e => celMapKeyEq key e.1).map Prod.snd

/-- The verdict of a walk, as the aggregate kernels write it. -/
def walkVerdict : Option Bool → CelValue
  | some verdict => .bool verdict
  | none => .error .overflow

mutual

/-- **`equality_kernel`**. Two lists or two maps go through `cel_list_eq` and `cel_map_eq`, whose
poison arms are dead here. -/
def equalityKernel (host : CelHost) (a b : CelValue) : Kernel CelValue :=
  unlessAbsorbed a b <|
    if isNumericKind a && isNumericKind b then return .bool (numericCompareKernel a b == .equal)
    else
      match equalSameKind a b with
      | some verdict => return .bool verdict
      | none =>
        match a, b with
        | .optional x, .optional y => optionalEq host x y
        | .listArena _ xs, .listArena _ ys =>
          if xs.length ≠ ys.length then return .bool false
          else walkVerdict <$> elementsEqual host false xs ys
        | .mapArena _ xs _, .mapArena _ ys index =>
          if xs.length ≠ ys.length then return .bool false
          else walkVerdict <$> entriesEqual host ys index false xs
        | .message m, .message n => host.messageEq (.message m) (.message n)
        | a, b =>
          if isListShaped a && isListShaped b then host.listEq a b
          else if isMapShaped a && isMapShaped b then host.mapEq a b
          else return .bool false
termination_by structural a

/-- `optional_eq_at_vv`. -/
def optionalEq (host : CelHost) : Option CelValue → Option CelValue → Kernel CelValue
  | none, none => return .bool true
  | some x, some y => equalityKernel host x y
  | _, _ => return .bool false
termination_by structural x => x

/-- The element loop of `cel_list_eq_arena`. -/
def elementsEqual (host : CelHost) (scratch : Bool) :
    List CelValue → List CelValue → Kernel (Option Bool)
  | x :: xs, y :: ys => do
    match ← deepValuesEqual scratch x y (equalityKernel host x y) with
    | (scratch, some true) => elementsEqual host scratch xs ys
    | (_, verdict) => return verdict
  | _, _ => return some true
termination_by structural xs => xs

/-- The entry loop of `cel_map_eq_arena`. -/
def entriesEqual (host : CelHost) (other : List (CelValue × CelValue)) (index : Option MapIndex)
    (scratch : Bool) : List (CelValue × CelValue) → Kernel (Option Bool)
  | [] => return some true
  | e :: rest => do
    match ← arenaMapEntryMatches host other index scratch e with
    | (scratch, some true) => entriesEqual host other index scratch rest
    | (_, verdict) => return verdict
termination_by structural entries => entries

/-- `arena_map_entry_matches`. -/
def arenaMapEntryMatches (host : CelHost) (other : List (CelValue × CelValue))
    (index : Option MapIndex) (scratch : Bool) : CelValue × CelValue → Kernel (Bool × Option Bool)
  | (key, val) => do
    match ← matchingEntry key other index with
    | some val' => deepValuesEqual scratch val val' (equalityKernel host val val')
    | none => return (scratch, some false)
termination_by structural e => e

end

/-- `cel_equals_at_vv`. -/
def celEquals (host : CelHost) (a b : CelValue) : Kernel CelValue := equalityKernel host a b

/-- `cel_not_equals_at_vv`: poison is left as it is, a bool is flipped. -/
def celNotEquals (host : CelHost) (a b : CelValue) : Kernel CelValue := do
  match ← equalityKernel host a b with
  | .bool verdict => return .bool (!verdict)
  | out => return out

/-! ## The aggregate kernels -/

/-- `cel_list_eq_arena`. -/
def celListEqArena (host : CelHost) (a b : CelValue) : Kernel CelValue :=
  unlessAbsorbed a b <|
    match a, b with
    | .listArena _ xs, .listArena _ ys =>
      if xs.length ≠ ys.length then return .bool false
      else walkVerdict <$> elementsEqual host false xs ys
    | _, _ => return .error .typeMismatch

/-- `cel_map_eq_arena`. -/
def celMapEqArena (host : CelHost) (a b : CelValue) : Kernel CelValue :=
  unlessAbsorbed a b <|
    match a, b with
    | .mapArena _ xs _, .mapArena _ ys index =>
      if xs.length ≠ ys.length then return .bool false
      else walkVerdict <$> entriesEqual host ys index false xs
    | _, _ => return .error .typeMismatch

/-- The element test of `arena_list_scan_numeric`. -/
def scanNumeric (needle e : CelValue) : Bool :=
  match e, needle with
  | .int x, .int y => x == y
  | .uint x, .uint y => x == y
  | .double x, .double y => x.eq y
  | e, needle => isNumericKind e && numericCompareKernel e needle == .equal

/-- The element test of `arena_list_scan_string`. -/
def scanString (needle : List UInt8) : CelValue → Bool
  | .string s => s == needle
  | _ => false

/-- The element test of `arena_list_scan_bool`. -/
def scanBool (needle : Bool) : CelValue → Bool
  | .bool b => b == needle
  | _ => false

/-- `arena_list_scan_generic`. -/
def arenaListScanGeneric (host : CelHost) (value : CelValue) (scratch : Bool) :
    List CelValue → Kernel (Option Bool)
  | [] => return some false
  | e :: rest => do
    match ← deepValuesEqual scratch e value (equalityKernel host e value) with
    | (scratch, some false) => arenaListScanGeneric host value scratch rest
    | (_, verdict) => return verdict

/-- `cel_list_in_arena`: the scan is picked by the kind of the value looked for. -/
def celListInArena (host : CelHost) (value list : CelValue) : Kernel CelValue :=
  unlessAbsorbed value list <|
    match list with
    | .listArena _ elements =>
      if isNumericKind value then return .bool (elements.any (scanNumeric value))
      else
        match value with
        | .string s => return .bool (elements.any (scanString s))
        | .bool b => return .bool (elements.any (scanBool b))
        | value => walkVerdict <$> arenaListScanGeneric host value false elements
    | _ => return .error .typeMismatch

end CelWasm
