import CelWasm.Runtime.SlotArithmetic
import CelWasm.Runtime.StringKernels

/-!
# Runtime/SlotStrings — strings and bytes on cells

The operators of `cel_string_ops.c`, the string extension, `matches` and `format`. A kernel of the
extension computes what it is said to on the values of its operands (`computes_celStringSplitAt` and
the like): `split` writes the handle of its result before it has stamped the pieces, and has taken the
source by then.
-/

namespace CelWasm

open CellProg

/-! ## Spans -/

/-- `span_lt`. -/
def spanLt : List UInt8 → List UInt8 → Bool
  | x :: xs, y :: ys => if x ≠ y then x < y else spanLt xs ys
  | [], _ :: _ => true
  | _, [] => false

/-- `span_match_at`. -/
def spanMatchAt (hay : List UInt8) (offset : ℕ) (sub : List UInt8) : Bool :=
  (hay.drop offset).take sub.length == sub

/-- The loop of `span_contains`, from one place of the anchor to the next. -/
def spanContainsFrom (sub : List UInt8) (anchor : UInt8) : ℕ → List UInt8 → Bool
  | 0, _ => false
  | fuel + 1, rest =>
    match anchorMemchr rest anchor (rest.length - sub.length + 1) with
    | none => false
    | some hit =>
      if spanMatchAt rest hit sub then true
      else if rest.length - sub.length ≤ hit then false
      else spanContainsFrom sub anchor fuel (rest.drop (hit + 1))

/-- `span_contains`. -/
def spanContains (hay : List UInt8) : List UInt8 → Bool
  | [] => true
  | anchor :: sub =>
    if hay.length < sub.length + 1 then false
    else spanContainsFrom (anchor :: sub) anchor (hay.length + 1) hay

/-- `concat_into_out`: the operands are read again once the bytes are there. -/
def concatAt (want : CelKind) (arm : CelValue → Option (List UInt8))
    (tag : List UInt8 → CelValue) (out a b : Slot) : SlotKernel Unit := do
  if ← absorb3vlBinaryAt out a b then return
  if ← requireKindsAt want out a b then return
  let lenA := (← payload arm a).length
  let lenB := (← payload arm b).length
  if 2 ^ 32 - 1 - lenA < lenB then
    poisonAt out .overflow
    return
  if 0 < lenA + lenB then
    if ← arenaAllocAt (lenA + lenB) then
      store out (tag ((← payload arm a) ++ (← payload arm b)))
    else poisonAt out .overflow
  else store out (tag [])

/-- A concatenation has both texts copied before the result is stamped, so that `s + s` into `s` is
right. -/
theorem writesLast_concatAt (want : CelKind) (arm : CelValue → Option (List UInt8))
    (tag : List UInt8 → CelValue) (a b : Slot) : WritesLast (concatAt want arm tag · a b) :=
  ⟨_, .unless (settles_absorb3vlBinaryAt a b) <| .unless (settles_requireKinds2At a b _ _) <|
    .read (reads_payload arm a) fun _ => .read (reads_payload arm b) fun _ =>
      .ite (computes_store _) <|
        .ite
          (.read (reads_lift _) fun _ =>
            .ite
              (.read (reads_payload arm a) fun _ => .read (reads_payload arm b) fun _ =>
                computes_store _)
              (computes_store _))
          (computes_store _)⟩

/-- `cel_string_concat_at_vv`. -/
def celStringConcatAt : Slot → Slot → Slot → SlotKernel Unit :=
  concatAt .string CelValue.string? .string

/-- `cel_bytes_concat_at_vv`. -/
def celBytesConcatAt : Slot → Slot → Slot → SlotKernel Unit :=
  concatAt .bytes CelValue.bytes? .bytes

/-- A question about two spans, as `span_op_prelude` lets it through. -/
def spanOpAt (want : CelKind) (arm : CelValue → Option (List UInt8))
    (op : List UInt8 → List UInt8 → Bool) : Slot → Slot → Slot → SlotKernel Unit :=
  strictKernelAt want arm fun x y => .bool (op x y)

/-- `cel_string_eq_at_vv`. -/
def celStringEqAt : Slot → Slot → Slot → SlotKernel Unit :=
  spanOpAt .string CelValue.string? (· == ·)

/-- `cel_string_lt_at_vv`. -/
def celStringLtAt : Slot → Slot → Slot → SlotKernel Unit := spanOpAt .string CelValue.string? spanLt

/-- `cel_string_le_at_vv`. -/
def celStringLeAt : Slot → Slot → Slot → SlotKernel Unit :=
  spanOpAt .string CelValue.string? fun x y => !spanLt y x

/-- `cel_string_gt_at_vv`. -/
def celStringGtAt : Slot → Slot → Slot → SlotKernel Unit :=
  spanOpAt .string CelValue.string? fun x y => spanLt y x

/-- `cel_string_ge_at_vv`. -/
def celStringGeAt : Slot → Slot → Slot → SlotKernel Unit :=
  spanOpAt .string CelValue.string? fun x y => !spanLt x y

/-- `cel_bytes_eq_at_vv`. -/
def celBytesEqAt : Slot → Slot → Slot → SlotKernel Unit := spanOpAt .bytes CelValue.bytes? (· == ·)

/-- `cel_bytes_lt_at_vv`. -/
def celBytesLtAt : Slot → Slot → Slot → SlotKernel Unit := spanOpAt .bytes CelValue.bytes? spanLt

/-- `cel_bytes_le_at_vv`. -/
def celBytesLeAt : Slot → Slot → Slot → SlotKernel Unit :=
  spanOpAt .bytes CelValue.bytes? fun x y => !spanLt y x

/-- `cel_bytes_gt_at_vv`. -/
def celBytesGtAt : Slot → Slot → Slot → SlotKernel Unit :=
  spanOpAt .bytes CelValue.bytes? fun x y => spanLt y x

/-- `cel_bytes_ge_at_vv`. -/
def celBytesGeAt : Slot → Slot → Slot → SlotKernel Unit :=
  spanOpAt .bytes CelValue.bytes? fun x y => !spanLt x y

/-- `cel_string_contains_at_vv`. -/
def celStringContainsAt : Slot → Slot → Slot → SlotKernel Unit :=
  spanOpAt .string CelValue.string? spanContains

/-- `cel_string_starts_with_at_vv`. -/
def celStringStartsWithAt : Slot → Slot → Slot → SlotKernel Unit :=
  spanOpAt .string CelValue.string? fun s pfx =>
    if s.length < pfx.length then false else spanMatchAt s 0 pfx

/-- `cel_string_ends_with_at_vv`. -/
def celStringEndsWithAt : Slot → Slot → Slot → SlotKernel Unit :=
  spanOpAt .string CelValue.string? fun s sfx =>
    if s.length < sfx.length then false else spanMatchAt s (s.length - sfx.length) sfx

/-! ## Poison from the left -/

section Absorbing

variable {k : Slot → SlotKernel Unit} {K : (Slot → CelValue) → Kernel CelValue}

/-- **A guard for one operand**: its poison is the result. -/
theorem computes_unlessAbsorbedUnary (a : Slot) (hk : Computes k K) :
    Computes (fun out => absorb3vlUnaryAt out a >>= fun done => if done then pure () else k out)
      fun cells => unlessAbsorbedUnary (cells a) (K cells) :=
  .congr (.unless (settles_absorb3vlUnaryAt a) hk) fun cells => by
    rw [unlessAbsorbedUnary]
    cases absorb3vlUnary (cells a) <;> rfl

/-- **A guard for two operands** that does not merge: the poison of the first, else that of the
second. -/
theorem computes_unlessEither (a b : Slot) (hk : Computes k K) :
    Computes (fun out => absorb3vlEitherAt out a b >>= fun done => if done then pure () else k out)
      fun cells => unlessEither (cells a) (cells b) (K cells) :=
  .congr (.unless (settles_absorb3vlEitherAt a b) hk) fun cells => by
    rw [unlessEither, unlessAbsorbedUnary, unlessAbsorbedUnary]
    cases absorb3vlUnary (cells a) <;> cases absorb3vlUnary (cells b) <;> rfl

end Absorbing

/-! ## The extension -/

/-- `WriteStringFromBytes`. -/
def writeStringFromBytesAt (out : Slot) (bytes : List UInt8) : SlotKernel Unit := do
  if bytes = [] then store out (.string [])
  else if ← arenaAllocAt bytes.length then store out (.string bytes)
  else poisonAt out .overflow

/-- A text of bytes that are at hand, in a block of the arena. -/
theorem computes_writeStringFromBytesAt (bytes : List UInt8) :
    Computes (writeStringFromBytesAt · bytes) fun _ => writeStringFromBytes bytes :=
  .ite (computes_store _) <| .read (reads_lift _) fun _ => .ite (computes_store _) (computes_store _)

/-- `cel_string_char_at_at_vv`. -/
def celStringCharAtAt (out s i : Slot) : SlotKernel Unit := do
  if ← absorb3vlUnaryAt out s then return
  if ← absorb3vlUnaryAt out i then return
  if (← loadKind s) ≠ .string || (← loadKind i) ≠ .int then
    poisonAt out .typeMismatch
    return
  let pos ← payload CelValue.int? i
  if pos < 0 then
    poisonAt out .invalidArgument
    return
  let text ← payload CelValue.string? s
  let bytes := charAtWalk text.length text pos.toInt.toNat
  if bytes.isSome then writeStringFromBytesAt out (bytes.getD [])
  else poisonAt out .invalidArgument

/-- **`charAt`** reads the index again for its range, before the character is written. -/
theorem computes_celStringCharAtAt (s i : Slot) :
    Computes (celStringCharAtAt · s i) fun cells => celStringCharAt (cells s) (cells i) := by
  refine computes_unlessAbsorbedUnary s <| computes_unlessAbsorbedUnary i <| .congr
    (.read (reads_loadKind s) fun _ => .read (reads_loadKind i) fun _ => .ite (computes_store _) <|
      .read (reads_payload _ i) fun _ => .ite (computes_store _) <|
        .read (reads_payload _ s) fun _ =>
          .ite (computes_writeStringFromBytesAt _) (computes_store _)) fun cells => ?_
  cases cells s with
  | string text =>
    cases cells i with
    | int pos =>
      change (if pos < 0 then _ else _) = if pos < 0 then _ else _
      refine ite_congr rfl (fun _ => rfl) fun _ => ?_
      simp only [CelValue.string?, Option.elim, pure_bind]
      cases charAtWalk text.length text pos.toInt.toNat <;> rfl
    | _ => rfl
  | _ => rfl

/-- The common body of `cel_string_index_of_at_vv` and `cel_string_last_index_of_at_vv`. -/
def indexKernelAt (indexOf : List UInt8 → List UInt8 → ℤ) (out s sub : Slot) : SlotKernel Unit := do
  if ← absorb3vlEitherAt out s sub then return
  if (← loadKind s) ≠ .string || (← loadKind sub) ≠ .string then
    poisonAt out .typeMismatch
    return
  store out (writeInt (indexOf (← payload CelValue.string? s) (← payload CelValue.string? sub)))

/-- `cel_string_index_of_at_vv`. -/
def celStringIndexOfAt : Slot → Slot → Slot → SlotKernel Unit :=
  indexKernelAt fun haystack needle => indexOfImpl haystack needle 0

/-- `cel_string_last_index_of_at_vv`. -/
def celStringLastIndexOfAt : Slot → Slot → Slot → SlotKernel Unit :=
  indexKernelAt fun haystack needle => lastIndexOfImpl haystack needle none

/-- **A search for a text** in another, from either end. -/
theorem computes_indexKernelAt (indexOf : List UInt8 → List UInt8 → ℤ) (s sub : Slot) :
    Computes (indexKernelAt indexOf · s sub) fun cells => unlessEither (cells s) (cells sub) <|
      match cells s, cells sub with
      | .string haystack, .string needle => return writeInt (indexOf haystack needle)
      | _, _ => return .error .typeMismatch := by
  refine computes_unlessEither s sub <| .congr
    (.read (reads_loadKind s) fun _ => .read (reads_loadKind sub) fun _ => .ite (computes_store _) <|
      .read (reads_payload _ s) fun _ => .read (reads_payload _ sub) fun _ => computes_store _)
    fun cells => ?_
  cases cells s with
  | string _ => cases cells sub <;> rfl
  | _ => rfl

/-- The first occurrence, -/
theorem computes_celStringIndexOfAt (s sub : Slot) :
    Computes (celStringIndexOfAt · s sub) fun cells => celStringIndexOf (cells s) (cells sub) :=
  computes_indexKernelAt _ s sub

/-- …and the last. -/
theorem computes_celStringLastIndexOfAt (s sub : Slot) : Computes (celStringLastIndexOfAt · s sub)
    fun cells => celStringLastIndexOf (cells s) (cells sub) :=
  computes_indexKernelAt _ s sub

/-- The common body of `cel_string_index_of_at_vvv` and `cel_string_last_index_of_at_vvv`. -/
def indexFromKernelAt (indexOf : List UInt8 → List UInt8 → Int64 → ℤ) (out s sub pos : Slot) :
    SlotKernel Unit := do
  if ← absorb3vlEitherAt out s sub then return
  if ← absorb3vlUnaryAt out pos then return
  if (← loadKind s) ≠ .string || (← loadKind sub) ≠ .string || (← loadKind pos) ≠ .int then
    poisonAt out .typeMismatch
    return
  if validatePos (← payload CelValue.int? pos) (← payload CelValue.string? s) then
    poisonAt out .invalidArgument
    return
  store out (writeInt (indexOf (← payload CelValue.string? s) (← payload CelValue.string? sub)
    (← payload CelValue.int? pos)))

/-- `cel_string_index_of_at_vvv`. -/
def celStringIndexOfFromAt : Slot → Slot → Slot → Slot → SlotKernel Unit :=
  indexFromKernelAt indexOfImpl

/-- `cel_string_last_index_of_at_vvv`. -/
def celStringLastIndexOfToAt : Slot → Slot → Slot → Slot → SlotKernel Unit :=
  indexFromKernelAt fun haystack needle pos => lastIndexOfImpl haystack needle (some pos)

/-- **A search with a position**, which is a third operand that may be poison. -/
theorem computes_indexFromKernelAt (indexOf : List UInt8 → List UInt8 → Int64 → ℤ)
    (s sub pos : Slot) : Computes (indexFromKernelAt indexOf · s sub pos) fun cells =>
      unlessEither (cells s) (cells sub) <| unlessAbsorbedUnary (cells pos) <|
        match cells s, cells sub, cells pos with
        | .string haystack, .string needle, .int pos =>
          if validatePos pos haystack then return .error .invalidArgument
          else return writeInt (indexOf haystack needle pos)
        | _, _, _ => return .error .typeMismatch := by
  refine computes_unlessEither s sub <| computes_unlessAbsorbedUnary pos <| .congr
    (.read (reads_loadKind s) fun _ => .read (reads_loadKind sub) fun _ =>
      .read (reads_loadKind pos) fun _ => .ite (computes_store _) <|
        .read (reads_payload _ pos) fun _ => .read (reads_payload _ s) fun _ =>
          .ite (computes_store _) <|
            .read (reads_payload _ s) fun _ => .read (reads_payload _ sub) fun _ =>
              .read (reads_payload _ pos) fun _ => computes_store _) fun cells => ?_
  cases cells s with
  | string _ =>
    cases cells sub with
    | string _ => cases cells pos <;> rfl
    | _ => rfl
  | _ => rfl

theorem computes_celStringIndexOfFromAt (s sub pos : Slot) :
    Computes (celStringIndexOfFromAt · s sub pos) fun cells =>
      celStringIndexOfFrom (cells s) (cells sub) (cells pos) :=
  computes_indexFromKernelAt _ s sub pos

theorem computes_celStringLastIndexOfToAt (s sub pos : Slot) :
    Computes (celStringLastIndexOfToAt · s sub pos) fun cells =>
      celStringLastIndexOfTo (cells s) (cells sub) (cells pos) :=
  computes_indexFromKernelAt _ s sub pos

/-- `cel_string_substring_at_vv`. -/
def celStringSubstringAt (out s start : Slot) : SlotKernel Unit := do
  if ← absorb3vlEitherAt out s start then return
  if (← loadKind s) ≠ .string || (← loadKind start) ≠ .int then
    poisonAt out .typeMismatch
    return
  if validatePos (← payload CelValue.int? start) (← payload CelValue.string? s) then
    poisonAt out .invalidArgument
    return
  let text ← payload CelValue.string? s
  let offset := codepointToByteOffset text (← payload CelValue.int? start)
  if offset.isNone then
    poisonAt out .invalidArgument
    return
  store out (.string ((← payload CelValue.string? s).drop (offset.getD 0)))

/-- **`substring`** borrows the bytes of the string, so that nothing is asked of the arena. -/
theorem computes_celStringSubstringAt (s start : Slot) : Computes (celStringSubstringAt · s start)
    fun cells => celStringSubstring (cells s) (cells start) := by
  refine computes_unlessEither s start <| .congr
    (.read (reads_loadKind s) fun _ => .read (reads_loadKind start) fun _ =>
      .ite (computes_store _) <|
        .read (reads_payload _ start) fun _ => .read (reads_payload _ s) fun _ =>
          .ite (computes_store _) <|
            .read (reads_payload _ s) fun _ => .read (reads_payload _ start) fun _ =>
              .ite (computes_store _) <| .read (reads_payload _ s) fun _ => computes_store _)
    fun cells => ?_
  cases cells s with
  | string text =>
    cases cells start with
    | int start =>
      change (if validatePos start text = true then _ else _)
        = if validatePos start text = true then _ else _
      refine ite_congr rfl (fun _ => rfl) fun _ => ?_
      simp only [CelValue.string?, CelValue.int?, Option.elim, pure_bind]
      cases codepointToByteOffset text start <;> rfl
    | _ => rfl
  | _ => rfl

/-- `cel_string_substring_range_at_vvv`. -/
def celStringSubstringRangeAt (out s start stop : Slot) : SlotKernel Unit := do
  if ← absorb3vlEitherAt out s start then return
  if ← absorb3vlUnaryAt out stop then return
  if (← loadKind s) ≠ .string || (← loadKind start) ≠ .int || (← loadKind stop) ≠ .int then
    poisonAt out .typeMismatch
    return
  if (← payload CelValue.int? start) < 0
      || (← payload CelValue.int? stop) < (← payload CelValue.int? start) then
    poisonAt out .invalidArgument
    return
  if (← payload CelValue.string? s).length < (← payload CelValue.int? start).toInt.toNat
      || (← payload CelValue.string? s).length < (← payload CelValue.int? stop).toInt.toNat then
    poisonAt out .invalidArgument
    return
  let text ← payload CelValue.string? s
  let startByte := codepointToByteOffset text (← payload CelValue.int? start)
  let stopByte := codepointToByteOffset text (← payload CelValue.int? stop)
  if startByte.isNone || stopByte.isNone then
    poisonAt out .invalidArgument
    return
  store out (.string (((← payload CelValue.string? s).drop (startByte.getD 0)).take
    (stopByte.getD 0 - startByte.getD 0)))

theorem computes_celStringSubstringRangeAt (s start stop : Slot) :
    Computes (celStringSubstringRangeAt · s start stop) fun cells =>
      celStringSubstringRange (cells s) (cells start) (cells stop) := by
  refine computes_unlessEither s start <| computes_unlessAbsorbedUnary stop <| .congr
    (.read (reads_loadKind s) fun _ => .read (reads_loadKind start) fun _ =>
      .read (reads_loadKind stop) fun _ => .ite (computes_store _) <|
        .read (reads_payload _ start) fun _ => .read (reads_payload _ stop) fun _ =>
          .read (reads_payload _ start) fun _ => .ite (computes_store _) <|
            .read (reads_payload _ s) fun _ => .read (reads_payload _ start) fun _ =>
              .read (reads_payload _ s) fun _ => .read (reads_payload _ stop) fun _ =>
                .ite (computes_store _) <|
                  .read (reads_payload _ s) fun _ => .read (reads_payload _ start) fun _ =>
                    .read (reads_payload _ stop) fun _ => .ite (computes_store _) <|
                      .read (reads_payload _ s) fun _ => computes_store _) fun cells => ?_
  cases cells s with
  | string text =>
    cases cells start with
    | int start =>
      cases cells stop with
      | int stop =>
        simp only [CelValue.kind, CelValue.string?, CelValue.int?, Option.elim, pure_bind,
          ne_eq, not_true_eq_false, decide_false, Bool.or_self, Bool.false_eq_true, if_false]
        refine ite_congr (by simp) (fun _ => rfl) fun _ => ite_congr (by simp) (fun _ => rfl)
          fun _ => ?_
        cases codepointToByteOffset text start <;> cases codepointToByteOffset text stop <;> rfl
      | _ => rfl
    | _ => rfl
  | _ => rfl

/-- `DoReplace`. -/
def doReplaceAt (out s old new : Slot) (limit : Int64) : SlotKernel Unit := do
  if limit = 0 then copyAt out s
  else
    let haystack ← payload CelValue.string? s
    let needle ← payload CelValue.string? old
    let replacement ← payload CelValue.string? new
    writeStringFromBytesAt out (buildReplaced haystack needle replacement (normalizedLimit limit))

/-- **A replacement** reads all three texts; a limit of zero gives the string as it is. -/
theorem computes_doReplaceAt (s old new : Slot) (limit : Int64) :
    Computes (doReplaceAt · s old new limit) fun cells =>
      if limit = 0 then pure (cells s)
      else (do
        let haystack ← (cells s).string?.elim (Prog.stop .wildRead) pure
        let needle ← (cells old).string?.elim (Prog.stop .wildRead) pure
        let replacement ← (cells new).string?.elim (Prog.stop .wildRead) pure
        writeStringFromBytes (buildReplaced haystack needle replacement (normalizedLimit limit))) :=
  .ite (computes_copyAt s) <| .read (reads_payload _ s) fun _ => .read (reads_payload _ old) fun _ =>
    .read (reads_payload _ new) fun _ => computes_writeStringFromBytesAt _

/-- `cel_string_replace_at_vvv`. -/
def celStringReplaceAt (out s old new : Slot) : SlotKernel Unit := do
  if ← absorb3vlEitherAt out s old then return
  if ← absorb3vlUnaryAt out new then return
  if (← loadKind s) ≠ .string || (← loadKind old) ≠ .string || (← loadKind new) ≠ .string then
    poisonAt out .typeMismatch
    return
  doReplaceAt out s old new (-1)

/-- `replace` without a limit, -/
theorem computes_celStringReplaceAt (s old new : Slot) :
    Computes (celStringReplaceAt · s old new) fun cells =>
      celStringReplace (cells s) (cells old) (cells new) := by
  refine computes_unlessEither s old <| computes_unlessAbsorbedUnary new <| .congr
    (.read (reads_loadKind s) fun _ => .read (reads_loadKind old) fun _ =>
      .read (reads_loadKind new) fun _ => .ite (computes_store _) (computes_doReplaceAt s old new _))
    fun cells => ?_
  cases cells s with
  | string _ =>
    cases cells old with
    | string _ => cases cells new <;> rfl
    | _ => rfl
  | _ => rfl

/-- `cel_string_replace_n_at_vvvv`. -/
def celStringReplaceNAt (out s old new n : Slot) : SlotKernel Unit := do
  if ← absorb3vlEitherAt out s old then return
  if ← absorb3vlEitherAt out new n then return
  if (← loadKind s) ≠ .string || (← loadKind old) ≠ .string || (← loadKind new) ≠ .string
      || (← loadKind n) ≠ .int then
    poisonAt out .typeMismatch
    return
  doReplaceAt out s old new (← payload CelValue.int? n)

/-- …and with one, which is a fourth operand. -/
theorem computes_celStringReplaceNAt (s old new n : Slot) :
    Computes (celStringReplaceNAt · s old new n) fun cells =>
      celStringReplaceN (cells s) (cells old) (cells new) (cells n) := by
  refine computes_unlessEither s old <| computes_unlessEither new n <| .congr
    (.read (reads_loadKind s) fun _ => .read (reads_loadKind old) fun _ =>
      .read (reads_loadKind new) fun _ => .read (reads_loadKind n) fun _ => .ite (computes_store _) <|
        .read (reads_payload _ n) fun limit => computes_doReplaceAt s old new limit) fun cells => ?_
  cases cells s with
  | string _ =>
    cases cells old with
    | string _ =>
      cases cells new with
      | string _ => cases cells n <;> rfl
      | _ => rfl
    | _ => rfl
  | _ => rfl

/-! ### Lists of strings -/

/-- `AllocList`: the handle of a list with room for its elements, or an error. -/
def allocListAt (out : Slot) (capacity : ℕ) : SlotKernel Unit := do
  if ← liftM (allocList capacity : Kernel Bool) then
    store out (.listArena capacity (List.replicate capacity .null))
  else poisonAt out .overflow

/-- The stamping loop of `DoSplit`. `AllocList` hands out no header when it has poisoned the cell. -/
def stampSubstringsAt (out : Slot) (pieces : List (List UInt8)) : SlotKernel Unit := do
  match ← load out with
  | .listArena capacity _ => store out (.listArena capacity (pieces.map .string))
  | _ => return

/-- `DoSplit`: the source is taken before the result is stamped over its cell. -/
def doSplitAt (out s sep : Slot) (limit : Int64) : SlotKernel Unit := do
  if limit = 0 then allocListAt out 0
  else
    let haystack ← payload CelValue.string? s
    let sepView ← payload CelValue.string? sep
    let pieces := computeSplitRanges haystack sepView (normalizedLimit limit)
    allocListAt out pieces.length
    stampSubstringsAt out pieces

/-- A new list, of as many nulls as there will be pieces. -/
theorem computes_allocListAt (capacity : ℕ) : Computes (allocListAt · capacity) fun _ => do
    if ← allocList capacity then return .listArena capacity (List.replicate capacity .null)
    else return .error .overflow :=
  .read (reads_lift _) fun _ => .ite (computes_store _) (computes_store _)

/-- **The pieces are stamped** into the list that the result is by then. -/
theorem revises_stampSubstringsAt (pieces : List (List UInt8)) :
    Revises (stampSubstringsAt · pieces) fun
      | .listArena capacity _ => pure (.listArena capacity (pieces.map .string))
      | v => pure v := by
  intro out cells
  beta_reduce
  rw [stampSubstringsAt, StateT.run_bind, reads_load out cells]
  simp only [pure_bind]
  cases h : cells out with
  | listArena => rfl
  | _ =>
    simp only [pure_bind, ← h, Function.update_eq_self]
    rfl

/-- **The handle, and then the pieces**: the pieces are of the source as it was. -/
theorem computes_doSplitAt (s sep : Slot) (limit : Int64) :
    Computes (doSplitAt · s sep limit) fun cells =>
      if limit = 0 then doSplit [] [] 0
      else (do
        let haystack ← (cells s).string?.elim (Prog.stop .wildRead) pure
        let sepView ← (cells sep).string?.elim (Prog.stop .wildRead) pure
        doSplit haystack sepView limit) := by
  refine .congr (.ite (computes_allocListAt 0) <| .read (reads_payload _ s) fun _ =>
    .read (reads_payload _ sep) fun _ =>
      .revise (computes_allocListAt _) (revises_stampSubstringsAt _)) fun cells => ?_
  refine ite_congr rfl (fun _ => rfl) fun hlimit => ?_
  refine bind_congr fun haystack => bind_congr fun sepView => ?_
  rw [doSplit, if_neg hlimit, bind_assoc]
  exact bind_congr fun there => by cases there <;> rfl

/-- `cel_string_split_at_vv`. -/
def celStringSplitAt (out s sep : Slot) : SlotKernel Unit := do
  if ← absorb3vlEitherAt out s sep then return
  if (← loadKind s) ≠ .string || (← loadKind sep) ≠ .string then
    poisonAt out .typeMismatch
    return
  doSplitAt out s sep (-1)

/-- **`split`** cuts the text before it has a list for the pieces, as the result may be where the
text was. -/
theorem computes_celStringSplitAt (s sep : Slot) :
    Computes (celStringSplitAt · s sep) fun cells => celStringSplit (cells s) (cells sep) := by
  refine computes_unlessEither s sep <| .congr
    (.read (reads_loadKind s) fun _ => .read (reads_loadKind sep) fun _ =>
      .ite (computes_store _) (computes_doSplitAt s sep _)) fun cells => ?_
  cases cells s with
  | string _ => cases cells sep <;> rfl
  | _ => rfl

/-- `cel_string_split_n_at_vvv`. -/
def celStringSplitNAt (out s sep n : Slot) : SlotKernel Unit := do
  if ← absorb3vlEitherAt out s sep then return
  if ← absorb3vlUnaryAt out n then return
  if (← loadKind s) ≠ .string || (← loadKind sep) ≠ .string || (← loadKind n) ≠ .int then
    poisonAt out .typeMismatch
    return
  doSplitAt out s sep (← payload CelValue.int? n)

theorem computes_celStringSplitNAt (s sep n : Slot) :
    Computes (celStringSplitNAt · s sep n) fun cells =>
      celStringSplitN (cells s) (cells sep) (cells n) := by
  refine computes_unlessEither s sep <| computes_unlessAbsorbedUnary n <| .congr
    (.read (reads_loadKind s) fun _ => .read (reads_loadKind sep) fun _ =>
      .read (reads_loadKind n) fun _ => .ite (computes_store _) <|
        .read (reads_payload _ n) fun limit => computes_doSplitAt s sep limit) fun cells => ?_
  cases cells s with
  | string haystack =>
    cases cells sep with
    | string sepView =>
      cases cells n with
      | int limit =>
        change (if limit = 0 then _ else _) = doSplit haystack sepView limit
        split_ifs with hlimit
        · rw [hlimit]; rfl
        · rfl
      | _ => rfl
    | _ => rfl
  | _ => rfl

/-- `ArenaListViewSlot`, and then `BuildJoin`. -/
def joinViewAt (host : CelHost) (out list : Slot) (sep : List UInt8) : SlotKernel Unit := do
  if (← loadKind list) ≠ .listArena && (← loadKind list) ≠ .listHost then
    poisonAt out .typeMismatch
    return
  let elements ← liftM (celListArenaView host (← load list))
  store out (← liftM (buildJoin elements sep))

/-- `cel_string_join_sep_at_vv`. -/
def celStringJoinSepAt (host : CelHost) (out list sep : Slot) : SlotKernel Unit := do
  if ← absorb3vlEitherAt out list sep then return
  if (← loadKind sep) ≠ .string then
    poisonAt out .typeMismatch
    return
  joinViewAt host out list (← payload CelValue.string? sep)

/-- A join of the elements that a list is viewed as. -/
theorem computes_joinViewAt (host : CelHost) (list : Slot) (sep : List UInt8) :
    Computes (joinViewAt host · list sep) fun cells => joinView host (cells list) sep := by
  refine .congr (.read (reads_loadKind list) fun _ => .read (reads_loadKind list) fun _ =>
    .ite (computes_store _) <| .read (reads_load list) fun _ => .read (reads_lift _) fun _ =>
      .read (reads_lift _) fun _ => computes_store _) fun cells => ?_
  simp only [bind_pure]
  cases cells list <;> rfl

theorem computes_celStringJoinSepAt (host : CelHost) (list sep : Slot) :
    Computes (celStringJoinSepAt host · list sep) fun cells =>
      celStringJoinSep host (cells list) (cells sep) := by
  refine computes_unlessEither list sep <| .congr
    (.read (reads_loadKind sep) fun _ => .ite (computes_store _) <|
      .read (reads_payload _ sep) fun sepView => computes_joinViewAt host list sepView) fun cells => ?_
  cases cells sep <;> rfl

/-! ### Patterns and formats -/

/-- `cel_matches_at_vv`. -/
def celMatchesAt (regex : Regex) (out text pattern : Slot) : SlotKernel Unit := do
  if ← absorb3vlUnaryAt out text then return
  if ← absorb3vlUnaryAt out pattern then return
  if (← loadKind text) ≠ .string || (← loadKind pattern) ≠ .string then
    poisonAt out .invalidArgument
    return
  let t ← payload CelValue.string? text
  let p ← payload CelValue.string? pattern
  if (regex p).isNone then
    poisonAt out .invalidArgument
    return
  store out (.bool ((regex p).any (· t)))

theorem celMatches_string (regex : Regex) (t p : List UInt8) :
    celMatches regex (.string t) (.string p)
      = match regex p with
        | none => return .error .invalidArgument
        | some re => return .bool (re t) :=
  rfl

/-- **`matches`** writes once the pattern is compiled and the text is searched. -/
theorem computes_celMatchesAt (regex : Regex) (text pattern : Slot) :
    Computes (celMatchesAt regex · text pattern) fun cells =>
      celMatches regex (cells text) (cells pattern) := by
  refine computes_unlessAbsorbedUnary text <| computes_unlessAbsorbedUnary pattern <| .congr
    (.read (reads_loadKind text) fun _ => .read (reads_loadKind pattern) fun _ =>
      .ite (computes_store _) <| .read (reads_payload _ text) fun _ =>
        .read (reads_payload _ pattern) fun _ => .ite (computes_store _) (computes_store _))
    fun cells => ?_
  cases cells text with
  | string t =>
    cases cells pattern with
    | string p =>
      change (if (regex p).isNone = true then _ else _) = celMatches regex (.string t) (.string p)
      rw [celMatches_string]
      cases regex p <;> rfl
    | _ => rfl
  | _ => rfl

/-- A format library: what a format parses to, if it does, and what that makes of the arguments. -/
abbrev Formatter := List UInt8 → Option (List CelValue → Except CelErr (List UInt8))

/-- The end of `cel_string_format_at_vv`: the cached parse, the arguments' poison, and the text. -/
def formatted (formatter : Formatter) (fmt : List UInt8) (args : List CelValue) : Kernel CelValue :=
  match formatter fmt with
  | none => return .error .invalidArgument
  | some run =>
    match args.find? CelValue.isPoison with
    | some absorbed => return absorbed
    | none =>
      match run args with
      | .error e => return .error e
      | .ok text => writeStringFromBytes text

/-- `cel_string_format_at_vv`: the arguments are lifted before the format is looked at. -/
def celStringFormatAt (host : CelHost) (formatter : Formatter) (out s args : Slot) :
    SlotKernel Unit := do
  if ← absorb3vlUnaryAt out s then return
  if ← absorb3vlUnaryAt out args then return
  if (← loadKind s) ≠ .string then
    poisonAt out .typeMismatch
    return
  if (← loadKind args) ≠ .listArena && (← loadKind args) ≠ .listHost then
    poisonAt out .typeMismatch
    return
  let elements ← liftM (celListArenaView host (← load args))
  let fmt ← payload CelValue.string? s
  store out (← liftM (formatted formatter fmt elements))

/-- `format` reads the format and the arguments, and writes last. -/
theorem writesLast_celStringFormatAt (host : CelHost) (formatter : Formatter) (s args : Slot) :
    WritesLast (celStringFormatAt host formatter · s args) :=
  ⟨_, .unless (settles_absorb3vlUnaryAt s) <| .unless (settles_absorb3vlUnaryAt args) <|
    .read (reads_loadKind s) fun _ => .ite (computes_store _) <|
      .read (reads_loadKind args) fun _ => .read (reads_loadKind args) fun _ =>
        .ite (computes_store _) <| .read (reads_load args) fun _ => .read (reads_lift _) fun _ =>
          .read (reads_payload _ s) fun _ => .read (reads_lift _) fun _ => computes_store _⟩

end CelWasm
