import CelWasm.Eval.HostMap

/-!
# Eval/HostEquality — equality on the host's side

A comparison that meets a host container is made by the host. Both operands are read through one
accessor, the elements and entries of a backing as the cells they would be written as, and compared
to any depth; the recursion is on the first operand. Membership in a host list compares the backing's
own values with the query instead, and only containers and messages are written first.
-/

namespace CelWasm

/-! ## Scalars -/

/-- `HostScalarSameKindEq`: the verdict on two values of one scalar kind. -/
def hostScalarSameKindEq : CelValue → CelValue → Option Bool
  | .null, .null => some true
  | .bool a, .bool b => some (a == b)
  | .int a, .int b => some (a == b)
  | .uint a, .uint b => some (a == b)
  | .double a, .double b => some (a.eq b)
  | .string a, .string b => some (a == b)
  | .bytes a, .bytes b => some (a == b)
  | .duration a, .duration b => some (a == b)
  | .timestamp a, .timestamp b => some (a == b)
  | _, _ => none

/-- `HostNumericCrossEq`. -/
def hostNumericCrossEq (a b : CelValue) : Bool := numericCompareKernel a b == .equal

/-- `HostScalarValueEq`. Kinds without a scalar identity are left to the ladder, which calls them
unequal. -/
def hostScalarValueEq (a b : CelValue) : Bool :=
  (hostScalarSameKindEq a b).getD (hostNumericCrossEq a b)

/-- `HostMapKeyEq`. -/
def hostMapKeyEq (a b : CelValue) : Bool :=
  if isNumericKind a && isNumericKind b then celNumericKeyEq a b else hostScalarValueEq a b

/-! ## Reading an operand -/

/-- An element of a list operand: a cell of the arena, or a value of the backing. -/
inductive Element
  | cell (v : CelValue)
  | backing (v : HostValue)

/-- `ReadListEqElementAt`. -/
def Element.read : Element → Kernel CelValue
  | cell v => return v
  | backing v => encodeValue v

/-- The elements of a list operand. -/
def listElements : CelValue → List Element
  | .listArena _ elements => elements.map .cell
  | .listHost elements => elements.map .backing
  | _ => []

/-- `MapEntryCount`. -/
def mapEntryCount : CelValue → ℕ
  | .mapArena _ entries _ => entries.length
  | .mapHost entries => entries.length
  | _ => 0

/-- One entry of a snapshot. -/
def encodeEntry (e : HostValue × HostValue) : Kernel (CelValue × CelValue) := do
  let key ← encodeValue e.1
  let value ← encodeValue e.2
  return (key, value)

/-- `SnapshotMapEntries`. -/
def snapshotMapEntries : CelValue → Kernel (List (CelValue × CelValue))
  | .mapArena _ entries _ => return entries
  | .mapHost entries => entries.mapM encodeEntry
  | _ => return []

/-- **A backing whose entries can be written is snapshot entry by entry.** -/
theorem granted_snapshot_mapHost : ∀ {entries : List (HostValue × HostValue)},
    (∀ e ∈ entries, (∃ k, e.1.encoded = some k) ∧ ∃ v, e.2.encoded = some v) → ∃ cells,
      (snapshotMapEntries (.mapHost entries)).granted = .ok cells ∧ EncodedEntries entries cells
  | [], _ => ⟨[], rfl, .nil⟩
  | (key, value) :: entries, h => by
    rw [List.forall_mem_cons] at h
    obtain ⟨⟨k, hk⟩, v, hv⟩ := h.1
    obtain ⟨cells, hcells, hencoded⟩ := granted_snapshot_mapHost h.2
    rw [snapshotMapEntries] at hcells
    refine ⟨(k, v) :: cells, ?_, .cons ⟨hk, hv⟩ hencoded⟩
    rw [snapshotMapEntries, List.mapM_cons, encodeEntry]
    simp only [Prog.granted_bind, granted_encodeValue_of_encoded hk,
      granted_encodeValue_of_encoded hv, hcells]
    rfl

/-- What holds of everything an entry is written as holds of the cells. -/
theorem EncodedEntries.forall_mem {entries : List (HostValue × HostValue)}
    {cells : List (CelValue × CelValue)} {P : CelValue × CelValue → Prop}
    (h : EncodedEntries entries cells)
    (hP : ∀ e ∈ entries, ∀ c, e.1.encoded = some c.1 → e.2.encoded = some c.2 → P c) :
    ∀ c ∈ cells, P c := by
  induction h with
  | nil => exact nofun
  | @cons e c entries cells hec _ ih =>
    rw [List.forall_mem_cons] at hP ⊢
    exact ⟨hP.1 c hec.1 hec.2, ih hP.2⟩

/-- Containers and messages, which no scalar is equal to. -/
def isAggregate : CelValue → Bool
  | .message _ => true
  | v => isListShaped v || isMapShaped v

/-! ## Deep equality -/

section Equality

-- `CompareProtoMessages` on two interned messages, `kEqual` or not.
variable (messagesEqual : ℕ → ℕ → Bool)

mutual

/-- `WireValueEq` of the cell a backing's value is written as. -/
def backingValueEq (v : HostValue) (b : CelValue) : Kernel Bool :=
  match v with
  | .list elements =>
    if !isListShaped b then return false
    else if elements.length ≠ (listElements b).length then return false
    else backingListEq elements (listElements b)
  | .map entries => do
    if !isMapShaped b then return false
    else if entries.length ≠ mapEntryCount b then return false
    else
      let cells ← snapshotMapEntries (.mapHost entries)
      let others ← snapshotMapEntries b
      backingMapEq others (cells.map Prod.fst) entries
  | .message m =>
    match b with
    | .message n => return messagesEqual m n
    | _ => return false
  | v => return !isAggregate b && (v.encoded.map fun a => hostScalarValueEq a b).getD false
termination_by structural v

/-- `WalkListEq` over a backing. -/
def backingListEq : List HostValue → List Element → Kernel Bool
  | v :: vs, y :: ys => do
    let _ ← encodeValue v
    let b ← y.read
    if ← backingValueEq v b then backingListEq vs ys else return false
  | _, _ => return true
termination_by structural vs => vs

/-- The entry walk of `NormalizedMapEq` over a backing, whose keys have been written. -/
def backingMapEq (others : List (CelValue × CelValue)) :
    List CelValue → List (HostValue × HostValue) → Kernel Bool
  | key :: keys, e :: entries => do
    if ← backingEntryMatches others key e then backingMapEq others keys entries else return false
  | _, _ => return true
termination_by structural _ entries => entries

/-- `NormalizedMapEntryMatches` on an entry of a backing. -/
def backingEntryMatches (others : List (CelValue × CelValue)) (key : CelValue) :
    HostValue × HostValue → Kernel Bool
  | (_, value) =>
    match others.find? fun e => hostMapKeyEq key e.1 with
    | some e => backingValueEq value e.2
    | none => return false
termination_by structural e => e

end

mutual

/-- **`WireValueEq`**. -/
def wireValueEq (a b : CelValue) : Kernel Bool :=
  match a with
  | .listArena _ elements =>
    if !isListShaped b then return false
    else if elements.length ≠ (listElements b).length then return false
    else wireListEq elements (listElements b)
  | .listHost elements => backingValueEq messagesEqual (.list elements) b
  | .mapArena _ entries _ => do
    if !isMapShaped b then return false
    else if entries.length ≠ mapEntryCount b then return false
    else wireMapEq (← snapshotMapEntries b) entries
  | .mapHost entries => backingValueEq messagesEqual (.map entries) b
  | .message m =>
    match b with
    | .message n => return messagesEqual m n
    | _ => return false
  | a => return !isAggregate b && hostScalarValueEq a b
termination_by structural a

/-- `WalkListEq` over an arena list. -/
def wireListEq : List CelValue → List Element → Kernel Bool
  | x :: xs, y :: ys => do
    let b ← y.read
    if ← wireValueEq x b then wireListEq xs ys else return false
  | _, _ => return true
termination_by structural xs => xs

/-- The entry walk of `NormalizedMapEq` over an arena map. -/
def wireMapEq (others : List (CelValue × CelValue)) : List (CelValue × CelValue) → Kernel Bool
  | [] => return true
  | e :: entries => do
    if ← wireEntryMatches others e then wireMapEq others entries else return false
termination_by structural entries => entries

/-- `NormalizedMapEntryMatches` on an entry of an arena map. -/
def wireEntryMatches (others : List (CelValue × CelValue)) : CelValue × CelValue → Kernel Bool
  | (key, value) =>
    match others.find? fun e => hostMapKeyEq key e.1 with
    | some e => wireValueEq value e.2
    | none => return false
termination_by structural e => e

end

/-! ## The trampolines -/

/-- **`CelListEqImpl`**. -/
def celListEqImpl (a b : CelValue) : Kernel CelValue :=
  absorbBinary a b <|
    if !isListShaped a || !isListShaped b then return .error .typeMismatch
    else CelValue.bool <$> wireValueEq messagesEqual a b

/-- **`CelMapEqImpl`**. -/
def celMapEqImpl (a b : CelValue) : Kernel CelValue :=
  absorbBinary a b <|
    if !isMapShaped a || !isMapShaped b then return .error .typeMismatch
    else CelValue.bool <$> wireValueEq messagesEqual a b

/-- The imports with the host's equality. -/
def CelHost.withHostEquality (host : CelHost) : CelHost :=
  { host with listEq := celListEqImpl messagesEqual, mapEq := celMapEqImpl messagesEqual }

/-- `NumericBackingEqualsQuery`. -/
def numericBackingEqualsQuery (proto query : CelValue) : Bool :=
  match proto, query with
  | .int a, .int b => a == b
  | .uint a, .uint b => a == b
  | .double a, .double b => a.eq b
  | proto, query => hostNumericCrossEq proto query

/-- **`TemporalBackingEqualsQuery`**: a duration in whole seconds rounded toward zero, a time in whole
seconds rounded down, and the nanoseconds past them. -/
def temporalBackingEqualsQuery (v : HostValue) (query : CelValue) : Bool :=
  match v, query with
  | .duration d, .duration q =>
    d.toInt64Seconds == q.seconds &&
      (d.sub (.ofSeconds d.toInt64Seconds)).toInt64Nanoseconds == q.nanos.toInt
  | .timestamp t, .timestamp q =>
    t.toUnixSeconds == q.seconds &&
      (t.sub (.ofSeconds t.toUnixSeconds)).toInt64Nanoseconds == q.nanos.toInt
  | _, _ => false

/-- **`BackingValueEqualsQuery`**. -/
def backingValueEqualsQuery (v : HostValue) (query : CelValue) : Kernel Bool :=
  match v with
  | .bool a => return query.isBool a
  | .int a => return numericBackingEqualsQuery (.int a) query
  | .uint a => return numericBackingEqualsQuery (.uint a) query
  | .double a => return numericBackingEqualsQuery (.double a) query
  | .string s =>
    match query with
    | .string t => return t == s
    | _ => return false
  | .bytes s =>
    match query with
    | .bytes t => return t == s
    | _ => return false
  | .null =>
    match query with
    | .null => return true
    | _ => return false
  | .duration _ | .timestamp _ => return temporalBackingEqualsQuery v query
  | .message _ | .list _ | .map _ => do
    let cell ← encodeValue v
    wireValueEq messagesEqual cell query
  | .error _ | .unknown _ | .type _ => return false

/-- The visit of one element by `CelListInImpl`. -/
def visitElement (query : CelValue) (found : Bool) (v : HostValue) : Kernel Bool :=
  if found then return true else backingValueEqualsQuery messagesEqual v query

/-- **`CelListInImpl`**. -/
def celListInImpl (query list : CelValue) : Kernel CelValue :=
  absorbBinary query list <|
    match list with
    | .listHost elements =>
      CelValue.bool <$> elements.foldlM (visitElement messagesEqual query) false
    | _ => return .error .typeMismatch

end Equality

end CelWasm
