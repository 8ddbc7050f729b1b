import CelWasm.Runtime.Compare
import CelWasm.Runtime.Host

/-!
# Runtime/Lists — arena lists

One constructor, `celListCreate`, and one writer, `celListAppendAt`, serve list literals and
comprehension accumulators alike. The writer strictly propagates poison and traps past the capacity
the list was created with. An `_arena` kernel reads its list operand as a header without looking at
the kind, so any other kind is a wild read.
-/

namespace CelWasm

/-- `kCelListEntryStride`. -/
def kCelListEntryStride : ℕ := 24

/-- `kCelMapEntryStride`. -/
def kCelMapEntryStride : ℕ := 48

/-- `entries_bytes_checked`: the size of a run, or 0 when it does not fit a 32-bit offset. -/
def entriesBytesChecked (stride n : ℕ) : ℕ :=
  if 2 ^ 32 - 1 - 7 < n * stride then 0 else n * stride

/-- Ask for a header and, unless it is empty, for the run of entries behind it. -/
def allocRun (headerBytes stride n : ℕ) : Kernel Bool := do
  if !(← Prog.alloc headerBytes) then return false
  else if n = 0 then return true
  else
    let bytes := entriesBytesChecked stride n
    if bytes = 0 then return false else Prog.alloc bytes

@[simp] theorem granted_allocRun {headerBytes stride n : ℕ} (hstride : 0 < stride) :
    (allocRun headerBytes stride n).granted = .ok (decide (n * stride ≤ 2 ^ 32 - 8)) := by
  rcases Nat.eq_zero_or_pos n with rfl | hn
  · simp [allocRun]
    rfl
  · have hbytes : 0 < n * stride := Nat.mul_pos hn hstride
    by_cases hfit : n * stride ≤ 2 ^ 32 - 8
    · have hchecked : entriesBytesChecked stride n = n * stride := if_neg (by omega)
      simp only [allocRun, hchecked, if_neg hn.ne', if_neg hbytes.ne']
      rw [decide_eq_true hfit]
      rfl
    · have hchecked : entriesBytesChecked stride n = 0 := if_pos (by omega)
      simp only [allocRun, hchecked, if_neg hn.ne', if_true]
      rw [decide_eq_false hfit]
      rfl

/-! ## Building -/

/-- `cel_list_create`. -/
def celListCreate (capacity : ℕ) : Kernel CelValue := do
  if ← allocRun 16 kCelListEntryStride capacity then return .listArena capacity []
  else return .error .overflow

theorem granted_celListCreate (capacity : ℕ) : (celListCreate capacity).granted
    = .ok (if capacity * kCelListEntryStride ≤ 2 ^ 32 - 8 then .listArena capacity []
      else .error .overflow) := by
  rw [celListCreate, Prog.granted_bind, granted_allocRun (by decide)]
  by_cases hfit : capacity * kCelListEntryStride ≤ 2 ^ 32 - 8
  · rw [decide_eq_true hfit, if_pos hfit]
    rfl
  · rw [decide_eq_false hfit, if_neg hfit]
    rfl

/-- **`cel_list_append_at`**: what the list cell holds afterwards. A cell that is no arena list is
left alone. -/
def celListAppendAt (list value : CelValue) : Kernel CelValue :=
  match list with
  | .listArena capacity elements =>
    if value.isPoison then return value
    else if capacity ≤ elements.length then Prog.stop .trap
    else return .listArena capacity (elements ++ [value])
  | l => return l

/-- The gate of the `_if_bool` writers: poison and kind errors of the predicate go to the
accumulator, false leaves it alone. -/
def ifBool (accu pred : CelValue) (write : Kernel CelValue) : Kernel CelValue :=
  match pred with
  | .error e => return .error e
  | .unknown s => return .unknown s
  | .bool true => write
  | .bool false => return accu
  | _ => return .error .typeMismatch

/-- `cel_list_append_at_if_bool`. -/
def celListAppendAtIfBool (list pred value : CelValue) : Kernel CelValue :=
  match list with
  | .listArena capacity elements =>
    ifBool (.listArena capacity elements) pred (celListAppendAt (.listArena capacity elements) value)
  | l => return l

/-- The gate of the `_if_present` writers, `absorb_optional_predicate`: None leaves the target alone,
and anything but an optional goes to it as an error. -/
def ifPresent (target opt : CelValue) (write : CelValue → Kernel CelValue) : Kernel CelValue :=
  match opt with
  | .error e => return .error e
  | .unknown s => return .unknown s
  | .optional (some v) => write v
  | .optional none => return target
  | _ => return .error .typeMismatch

/-- `cel_list_append_at_if_present`. -/
def celListAppendAtIfPresent (list opt : CelValue) : Kernel CelValue :=
  match list with
  | .listArena capacity elements =>
    ifPresent (.listArena capacity elements) opt (celListAppendAt (.listArena capacity elements))
  | l => return l

/-! ## Reading -/

/-- `decode_list_index`: the int64 an index value stands for, or the error it poisons the result
with. The cast of `2⁶³` itself, which passes the range test, wraps. -/
def decodeListIndex : CelValue → Except CelErr Int64
  | .int i => .ok i
  | .uint u => if int64Max < u.toNat then .error .indexOutOfBounds else .ok u.toInt64
  | .double d =>
    if d.isNaN || (Binary64.ofInt (2 ^ 63)).lt d || d.lt (Binary64.ofInt (-2 ^ 63)) then
      .error .invalidArgument
    else if !(Binary64.ofInt (Int64.ofInt d.truncate).toInt).eq d then .error .invalidArgument
    else .ok (Int64.ofInt d.truncate)
  | _ => .error .typeMismatch

/-- `cel_list_at_arena`. -/
def celListAtArena (list index : CelValue) : Kernel CelValue :=
  if index.isPoison then return index
  else if list.isPoison then return list
  else
    match decodeListIndex index with
    | .error e => return .error e
    | .ok i =>
      match list with
      | .listArena _ elements =>
        if i < 0 then return .error .indexOutOfBounds
        else
          match elements[i.toInt.toNat]? with
          | some v => return v
          | none => return .error .indexOutOfBounds
      | _ => Prog.stop .wildRead

/-- `cel_list_concat_arena`. -/
def celListConcatArena (a b : CelValue) : Kernel CelValue :=
  unlessAbsorbed a b <|
    match a, b with
    | .listArena _ xs, .listArena _ ys => do
      if 2 ^ 32 - 1 - xs.length < ys.length then return .error .overflow
      else if ← allocRun 16 kCelListEntryStride (xs.length + ys.length) then
        return .listArena (xs.length + ys.length) (xs ++ ys)
      else return .error .overflow
    | _, _ => return .error .typeMismatch

/-! ## Walking -/

/-- `cel_list_arena_view`: the elements a comprehension walks. A host list is snapshotted; poison and
a value that is no list are walked as one poisoned element, in a block of its own or in the one kept
for emergencies. -/
def celListArenaView (host : CelHost) (list : CelValue) : Kernel (List CelValue) := do
  match list with
  | .listArena _ elements => return elements
  | .listHost elements =>
    if ← Prog.alloc 24 then
      match ← host.listIterOpen (.listHost elements) with
      | .listArena _ snapshot => return snapshot
      | _ => Prog.stop .wildRead
    else
      let _ ← Prog.alloc 64
      return [.error .overflow]
  | l =>
    let _ ← Prog.alloc 64
    return [if l.isPoison then l else .error .typeMismatch]

end CelWasm
