import CelWasm.Runtime.Lists
import CelWasm.Runtime.LogicTree
import CelWasm.Runtime.StringSearch

/-!
# Runtime/StringKernels — the string extension, and what it does with poison

Every kernel looks at its operands' poison first, from the left, and hands on what it finds first: an
UNKNOWN in front hides an ERROR behind it, and two UNKNOWNs are not merged. The arithmetic kernels go
by another rule, `strictVerdict`, of which `absorb_3vl_binary` is the case of two operands. The two
rules agree on a list of operands exactly when what comes first already decides.
-/

namespace CelWasm

/-! ## Poison from the left -/

/-- `if (Absorb3vlUnary(out, a)) return;`, and then `body`. -/
def unlessAbsorbedUnary (a : CelValue) (body : Kernel CelValue) : Kernel CelValue :=
  match absorb3vlUnary a with
  | some poison => return poison
  | none => body

/-- `if (Absorb3vlBinary(out, a, b)) return;` as the string extension has it, and then `body`. -/
def unlessEither (a b : CelValue) (body : Kernel CelValue) : Kernel CelValue :=
  unlessAbsorbedUnary a (unlessAbsorbedUnary b body)

/-! ## Results -/

/-- `WriteStringFromBytes`. -/
def writeStringFromBytes (bytes : List UInt8) : Kernel CelValue := do
  if bytes = [] then return .string []
  else if ← Prog.alloc bytes.length then return .string bytes
  else return .error .overflow

/-- `AllocList`: a header and a run, whose size is a product in 32 bits. -/
def allocList (capacity : ℕ) : Kernel Bool := do
  if !(← Prog.alloc 16) then return false
  else if capacity = 0 then return true
  else Prog.alloc (kCelListEntryStride * capacity % 2 ^ 32)

/-- `WriteInt`. -/
def writeInt (v : ℤ) : CelValue := .int (Int64.ofInt v)

/-! ## Kernels -/

/-- `cel_string_char_at_at_vv`. -/
def celStringCharAt (s i : CelValue) : Kernel CelValue :=
  unlessAbsorbedUnary s <| unlessAbsorbedUnary i <|
    match s, i with
    | .string text, .int pos =>
      if pos < 0 then return .error .invalidArgument
      else
        match charAtWalk text.length text pos.toInt.toNat with
        | some bytes => writeStringFromBytes bytes
        | none => return .error .invalidArgument
    | _, _ => return .error .typeMismatch

/-- `cel_string_index_of_at_vv`. -/
def celStringIndexOf (s sub : CelValue) : Kernel CelValue :=
  unlessEither s sub <|
    match s, sub with
    | .string haystack, .string needle => return writeInt (indexOfImpl haystack needle 0)
    | _, _ => return .error .typeMismatch

/-- `cel_string_index_of_at_vvv`. -/
def celStringIndexOfFrom (s sub pos : CelValue) : Kernel CelValue :=
  unlessEither s sub <| unlessAbsorbedUnary pos <|
    match s, sub, pos with
    | .string haystack, .string needle, .int pos =>
      if validatePos pos haystack then return .error .invalidArgument
      else return writeInt (indexOfImpl haystack needle pos)
    | _, _, _ => return .error .typeMismatch

/-- `cel_string_last_index_of_at_vv`. -/
def celStringLastIndexOf (s sub : CelValue) : Kernel CelValue :=
  unlessEither s sub <|
    match s, sub with
    | .string haystack, .string needle => return writeInt (lastIndexOfImpl haystack needle none)
    | _, _ => return .error .typeMismatch

/-- `cel_string_last_index_of_at_vvv`. -/
def celStringLastIndexOfTo (s sub pos : CelValue) : Kernel CelValue :=
  unlessEither s sub <| unlessAbsorbedUnary pos <|
    match s, sub, pos with
    | .string haystack, .string needle, .int pos =>
      if validatePos pos haystack then return .error .invalidArgument
      else return writeInt (lastIndexOfImpl haystack needle (some pos))
    | _, _, _ => return .error .typeMismatch

/-- `cel_string_substring_at_vv`. -/
def celStringSubstring (s start : CelValue) : Kernel CelValue :=
  unlessEither s start <|
    match s, start with
    | .string text, .int start =>
      if validatePos start text then return .error .invalidArgument
      else
        match codepointToByteOffset text start with
        | none => return .error .invalidArgument
        | some offset => return .string (text.drop offset)
    | _, _ => return .error .typeMismatch

/-- `cel_string_substring_range_at_vvv`: the bounds are compared with the length in bytes before they
are walked to. -/
def celStringSubstringRange (s start stop : CelValue) : Kernel CelValue :=
  unlessEither s start <| unlessAbsorbedUnary stop <|
    match s, start, stop with
    | .string text, .int start, .int stop =>
      if start < 0 || stop < start then return .error .invalidArgument
      else if text.length < start.toInt.toNat || text.length < stop.toInt.toNat then
        return .error .invalidArgument
      else
        match codepointToByteOffset text start, codepointToByteOffset text stop with
        | some startByte, some stopByte =>
          return .string ((text.drop startByte).take (stopByte - startByte))
        | _, _ => return .error .invalidArgument
    | _, _, _ => return .error .typeMismatch

/-- `DoReplace`. -/
def doReplace (haystack needle replacement : List UInt8) (limit : Int64) : Kernel CelValue :=
  if limit = 0 then return .string haystack
  else writeStringFromBytes (buildReplaced haystack needle replacement (normalizedLimit limit))

/-- `cel_string_replace_at_vvv`. -/
def celStringReplace (s old new : CelValue) : Kernel CelValue :=
  unlessEither s old <| unlessAbsorbedUnary new <|
    match s, old, new with
    | .string haystack, .string needle, .string replacement =>
      doReplace haystack needle replacement (-1)
    | _, _, _ => return .error .typeMismatch

/-- `cel_string_replace_n_at_vvvv`. -/
def celStringReplaceN (s old new n : CelValue) : Kernel CelValue :=
  unlessEither s old <| unlessEither new n <|
    match s, old, new, n with
    | .string haystack, .string needle, .string replacement, .int n =>
      doReplace haystack needle replacement n
    | _, _, _, _ => return .error .typeMismatch

/-- `DoSplit`. -/
def doSplit (haystack sep : List UInt8) (limit : Int64) : Kernel CelValue := do
  let pieces := if limit = 0 then [] else computeSplitRanges haystack sep (normalizedLimit limit)
  if ← allocList pieces.length then return .listArena pieces.length (pieces.map .string)
  else return .error .overflow

/-- `cel_string_split_at_vv`. -/
def celStringSplit (s sep : CelValue) : Kernel CelValue :=
  unlessEither s sep <|
    match s, sep with
    | .string haystack, .string sep => doSplit haystack sep (-1)
    | _, _ => return .error .typeMismatch

/-- `cel_string_split_n_at_vvv`. -/
def celStringSplitN (s sep n : CelValue) : Kernel CelValue :=
  unlessEither s sep <| unlessAbsorbedUnary n <|
    match s, sep, n with
    | .string haystack, .string sep, .int n => doSplit haystack sep n
    | _, _, _ => return .error .typeMismatch

/-- The first pass of `BuildJoin`: the strings of a list, or what the first element that is none
makes of the result. -/
def joinedStrings : List CelValue → Except CelValue (List (List UInt8))
  | [] => .ok []
  | .string s :: rest => (s :: ·) <$> joinedStrings rest
  | v :: _ => .error (if v.isPoison then v else .error .typeMismatch)

/-- `BuildJoin`. -/
def buildJoin (elements : List CelValue) (sep : List UInt8) : Kernel CelValue :=
  match joinedStrings elements with
  | .error v => return v
  | .ok strings => writeStringFromBytes (sep.intercalate strings)

/-- `ArenaListViewSlot`, and then `BuildJoin`. -/
def joinView (host : CelHost) (list : CelValue) (sep : List UInt8) : Kernel CelValue := do
  match list with
  | .listArena .. | .listHost _ => buildJoin (← celListArenaView host list) sep
  | _ => return .error .typeMismatch

/-- `cel_string_join_at_v`. -/
def celStringJoin (host : CelHost) (list : CelValue) : Kernel CelValue :=
  unlessAbsorbedUnary list (joinView host list [])

/-- `cel_string_join_sep_at_vv`. -/
def celStringJoinSep (host : CelHost) (list sep : CelValue) : Kernel CelValue :=
  unlessEither list sep <|
    match sep with
    | .string sep => joinView host list sep
    | _ => return .error .typeMismatch

/-- A regular expression library: what a pattern compiles to, if it does, and which texts that
matches. -/
abbrev Regex := List UInt8 → Option (List UInt8 → Bool)

/-- `cel_matches_at_vv`; the pattern compiled last is kept, and compiles to the same again. -/
def celMatches (regex : Regex) (text pattern : CelValue) : Kernel CelValue :=
  unlessAbsorbedUnary text <| unlessAbsorbedUnary pattern <|
    match text, pattern with
    | .string t, .string p =>
      match regex p with
      | none => return .error .invalidArgument
      | some re => return .bool (re t)
    | _, _ => return .error .invalidArgument

/-! ## Calls -/

/-- A call of a kernel of the string extension, with the values of its operands. -/
inductive StringCall
  | charAt (s i : CelValue)
  | indexOf (s sub : CelValue)
  | indexOfFrom (s sub pos : CelValue)
  | lastIndexOf (s sub : CelValue)
  | lastIndexOfTo (s sub pos : CelValue)
  | substring (s start : CelValue)
  | substringRange (s start stop : CelValue)
  | replace (s old new : CelValue)
  | replaceN (s old new n : CelValue)
  | split (s sep : CelValue)
  | splitN (s sep n : CelValue)
  | join (list : CelValue)
  | joinSep (list sep : CelValue)
  | matches (text pattern : CelValue)

namespace StringCall

/-- The operands, from the left. -/
def operands : StringCall → List CelValue
  | charAt s i => [s, i]
  | indexOf s sub => [s, sub]
  | indexOfFrom s sub pos => [s, sub, pos]
  | lastIndexOf s sub => [s, sub]
  | lastIndexOfTo s sub pos => [s, sub, pos]
  | substring s start => [s, start]
  | substringRange s start stop => [s, start, stop]
  | replace s old new => [s, old, new]
  | replaceN s old new n => [s, old, new, n]
  | split s sep => [s, sep]
  | splitN s sep n => [s, sep, n]
  | join list => [list]
  | joinSep list sep => [list, sep]
  | .matches text pattern => [text, pattern]

/-- The kernel of a call, on its operands. -/
def run (host : CelHost) (regex : Regex) : StringCall → Kernel CelValue
  | charAt s i => celStringCharAt s i
  | indexOf s sub => celStringIndexOf s sub
  | indexOfFrom s sub pos => celStringIndexOfFrom s sub pos
  | lastIndexOf s sub => celStringLastIndexOf s sub
  | lastIndexOfTo s sub pos => celStringLastIndexOfTo s sub pos
  | substring s start => celStringSubstring s start
  | substringRange s start stop => celStringSubstringRange s start stop
  | replace s old new => celStringReplace s old new
  | replaceN s old new n => celStringReplaceN s old new n
  | split s sep => celStringSplit s sep
  | splitN s sep n => celStringSplitN s sep n
  | join list => celStringJoin host list
  | joinSep list sep => celStringJoinSep host list sep
  | .matches text pattern => celMatches regex text pattern

end StringCall

/-! ## The first poison -/

/-- The checks of a list of operands, one after the other. -/
def unlessAny (operands : List CelValue) (body : Kernel CelValue) : Kernel CelValue :=
  operands.foldr unlessAbsorbedUnary body

/-- **Every kernel is its checks, from the left, and then a body.** -/
theorem StringCall.run_eq (host : CelHost) (regex : Regex) (call : StringCall) :
    ∃ body, call.run host regex = unlessAny call.operands body := by
  cases call <;> exact ⟨_, rfl⟩

/-- **The first poison is the result** of the checks. -/
theorem unlessAny_of_find {operands : List CelValue} {v : CelValue}
    (h : operands.find? (·.isPoison) = some v) (body : Kernel CelValue) :
    unlessAny operands body = return v := by
  induction operands with
  | nil => exact nomatch h
  | cons a rest ih =>
    change unlessAbsorbedUnary a (unlessAny rest body) = return v
    rw [unlessAbsorbedUnary, absorb3vlUnary]
    by_cases ha : a.isPoison = true
    · rw [List.find?_cons_of_pos ha, Option.some.injEq] at h
      rw [if_pos ha, h]
    · rw [List.find?_cons_of_neg ha] at h
      rw [if_neg ha]
      exact ih h

/-- **A call hands on its first poison**, whatever its kernel does. -/
theorem StringCall.run_of_find {host : CelHost} {regex : Regex} {call : StringCall} {v : CelValue}
    (h : call.operands.find? (·.isPoison) = some v) : call.run host regex = return v := by
  obtain ⟨body, hbody⟩ := call.run_eq host regex
  rw [hbody, unlessAny_of_find h]

/-! ## The strict rule -/

/-- **The strict rule** for any number of operands: the leftmost ERROR, else UNKNOWN with every id. -/
def strictVerdict (operands : List CelValue) : CelValue :=
  match operands.findSome? (·.errorCode?) with
  | some e => .error e
  | none => .unknown (unionIds operands)

/-- An ERROR in front is the verdict. -/
@[simp] theorem strictVerdict_error (e : CelErr) (rest : List CelValue) :
    strictVerdict (.error e :: rest) = .error e := rfl

/-- A value that is no poison carries no ids… -/
theorem CelValue.unknownIds_eq_empty {v : CelValue} (h : v.isPoison = false) :
    v.unknownIds = ∅ := by
  cases v with
  | unknown _ => exact nomatch h
  | _ => rfl

/-- …and no code. -/
theorem CelValue.errorCode?_eq_none {v : CelValue} (h : v.isPoison = false) :
    v.errorCode? = none := by
  cases v with
  | error _ => exact nomatch h
  | _ => rfl

/-- A value that is no poison does not count. -/
theorem strictVerdict_cons {v : CelValue} (h : v.isPoison = false) (rest : List CelValue) :
    strictVerdict (v :: rest) = strictVerdict rest := by
  rw [strictVerdict, strictVerdict, unionIds_cons, v.unknownIds_eq_empty h, SortedSet.empty_union,
    List.findSome?_cons, v.errorCode?_eq_none h]

/-- The ids of a list are within a set exactly when those of its values are. -/
theorem unionIds_subset_iff {operands : List CelValue} {s : UnknownSet} :
    unionIds operands ⊆ s ↔ ∀ w ∈ operands, w.unknownIds ⊆ s := by
  induction operands with
  | nil => exact iff_of_true (fun x hx => absurd hx (SortedSet.notMem_empty x)) nofun
  | cons v rest ih =>
    rw [unionIds_cons, List.forall_mem_cons, ← ih]
    simp only [SortedSet.subset_def, SortedSet.mem_union, or_imp, forall_and]

/-- A value's ids are among those of the list. -/
theorem subset_unionIds {operands : List CelValue} {v : CelValue} (h : v ∈ operands) :
    v.unknownIds ⊆ unionIds operands := unionIds_subset_iff.mp (fun _ hx => hx) v h

/-- **Of an UNKNOWN the verdict is** itself exactly when nothing is an ERROR and it carries every id. -/
theorem strictVerdict_eq_unknown_iff {operands : List CelValue} {s : UnknownSet}
    (h : .unknown s ∈ operands) :
    strictVerdict operands = .unknown s ↔
      (∀ w ∈ operands, w.errorCode? = none) ∧ ∀ w ∈ operands, w.unknownIds ⊆ s := by
  rw [strictVerdict, ← List.findSome?_eq_none_iff, ← unionIds_subset_iff]
  cases operands.findSome? (·.errorCode?) with
  | some e => exact iff_of_false nofun fun h => nomatch h.1
  | none =>
    rw [CelValue.unknown.injEq]
    have hs : s ⊆ unionIds operands := subset_unionIds h
    refine ⟨fun h => ⟨rfl, fun x hx => h ▸ hx⟩, fun ⟨_, hsub⟩ => SortedSet.ext fun x => ?_⟩
    exact ⟨hsub x, hs x⟩

/-- Behind values that are no poison, an ERROR is the verdict. -/
theorem strictVerdict_of_find {operands : List CelValue} {e : CelErr}
    (h : operands.find? (·.isPoison) = some (.error e)) : strictVerdict operands = .error e := by
  induction operands with
  | nil => exact nomatch h
  | cons v rest ih =>
    by_cases hv : v.isPoison = true
    · rw [List.find?_cons_of_pos hv, Option.some.injEq] at h
      rw [h, strictVerdict_error]
    · rw [List.find?_cons_of_neg hv] at h
      rw [strictVerdict_cons (Bool.eq_false_iff.mpr hv), ih h]

/-- **The first poison decides**: it is an ERROR, or there is none and it carries every id. -/
def FirstDecides (operands : List CelValue) : Prop :=
  ∀ s, operands.find? (·.isPoison) = some (.unknown s) →
    (∀ w ∈ operands, w.errorCode? = none) ∧ ∀ w ∈ operands, w.unknownIds ⊆ s

/-- **The first poison is the verdict exactly when it decides.** -/
theorem find_isPoison_eq_verdict_iff {operands : List CelValue} {v : CelValue}
    (h : operands.find? (·.isPoison) = some v) :
    v = strictVerdict operands ↔ FirstDecides operands := by
  obtain ⟨e, rfl⟩ | ⟨s, rfl⟩ := CelValue.isPoison_iff.mp (List.find?_some h)
  · refine iff_of_true (strictVerdict_of_find h).symm fun s hs => ?_
    rw [h] at hs
    exact nomatch hs
  · rw [eq_comm, strictVerdict_eq_unknown_iff (List.mem_of_find?_eq_some h)]
    constructor
    · intro hall t ht
      rw [h, Option.some.injEq, CelValue.unknown.injEq] at ht
      exact ht ▸ hall
    · exact fun hdecides => hdecides s h

end CelWasm
