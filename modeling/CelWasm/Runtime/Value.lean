import CelWasm.Library.AbslTime
import CelWasm.Library.Binary64
import CelWasm.Library.SortedSet
import CelWasm.Library.Program

/-!
# Runtime/Value — the CelValue cell and what it points at

A `CelValue` is a kind tag and a payload; the payload of a container, an optional or an unknown set
is an offset into linear memory. Here a cell is the tree it denotes: an arena container carries its
header's capacity and live entries (a map also its hash index), a host container the contents of the
host-table entry it refers to. Strings and bytes are their bytes.
-/

namespace CelWasm

/-- The `CEL_ERR_*` codes. -/
inductive CelErr
  | overflow
  | divideByZero
  | modulusByZero
  | typeMismatch
  | typeUnsupported
  | noSuchKey
  | duplicateKey
  | indexOutOfBounds
  | invalidArgument
  | fieldNotFound
  | unknownType
  | customFnFailed
  | hostAdapterError
  | timeout
  deriving DecidableEq, Repr

/-- The attribute ids an UNKNOWN carries. A null descriptor (`payload.unk == 0`) is the empty set;
every descriptor lists its ids in strictly increasing order. Ids are only ever compared. -/
abbrev UnknownSet := SortedSet ℕ

/-- `CelDurTs`: whole seconds and the nanoseconds past them. -/
structure CelDurTs where
  seconds : Int64
  nanos : Int32
  deriving DecidableEq, Repr

/-- `NetIp`: the family (4 or 6) and sixteen address bytes. -/
structure NetIp where
  family : UInt32
  addr : Vector UInt8 16
  deriving DecidableEq, Repr

/-- `NetCidr`: an address as parsed, and its prefix length. -/
structure NetCidr where
  family : UInt32
  pfx : UInt32
  addr : Vector UInt8 16
  deriving DecidableEq, Repr

/-- The hash-index block of an arena map: `num_slots + 7` control bytes — the last seven repeat the
first seven — and the entry index each slot holds. -/
structure MapIndex where
  ctrl : List UInt8
  slots : List ℕ
  deriving DecidableEq, Repr

/-- `Value`: a value on the host's side of the boundary, an activation binding or what a message
holds. -/
inductive HostValue
  | null
  | bool (b : Bool)
  | int (i : Int64)
  | uint (u : UInt64)
  | double (d : Binary64)
  | string (s : List UInt8)
  | bytes (s : List UInt8)
  | list (elements : List HostValue)
  | map (entries : List (HostValue × HostValue))
  | message (slot : ℕ)
  | type (name : List UInt8)
  | duration (d : AbslDuration)
  | timestamp (t : AbslTime)
  | unknown (ids : UnknownSet)
  | error (code : CelErr)

/-- **A CelValue cell**, one constructor for each `CEL_*` kind. -/
inductive CelValue
  | null
  | bool (b : Bool)
  | int (i : Int64)
  | uint (u : UInt64)
  | double (d : Binary64)
  | string (s : List UInt8)
  | bytes (s : List UInt8)
  | listArena (capacity : ℕ) (elements : List CelValue)
  | mapArena (capacity : ℕ) (entries : List (CelValue × CelValue)) (index : Option MapIndex)
  | mapHost (entries : List (HostValue × HostValue))
  | message (slot : ℕ)
  | type (name : List UInt8)
  | duration (d : CelDurTs)
  | timestamp (t : CelDurTs)
  | optional (held : Option CelValue)
  | unknown (ids : UnknownSet)
  | error (code : CelErr)
  | listHost (elements : List HostValue)
  | ip (address : NetIp)
  | cidr (block : NetCidr)

/-! ## What is inside is smaller -/

/-- What is in a value of the host is smaller: an element, -/
theorem HostValue.sizeOf_element {v : HostValue} {elements : List HostValue} (h : v ∈ elements) :
    sizeOf v < sizeOf (list elements) := by
  have := List.sizeOf_lt_of_mem h
  simp
  omega

/-- …and the value of an entry. -/
theorem HostValue.sizeOf_value {e : HostValue × HostValue} {entries : List (HostValue × HostValue)}
    (h : e ∈ entries) : sizeOf e.2 < sizeOf (map entries) := by
  have := List.sizeOf_lt_of_mem h
  obtain ⟨key, value⟩ := e
  simp at *
  omega

/-- What is in a container of the arena is smaller, too. -/
theorem CelValue.sizeOf_element {v : CelValue} {capacity : ℕ} {elements : List CelValue}
    (h : v ∈ elements) : sizeOf v < sizeOf (listArena capacity elements) := by
  have := List.sizeOf_lt_of_mem h
  simp
  omega

theorem CelValue.sizeOf_value {e : CelValue × CelValue} {capacity : ℕ}
    {entries : List (CelValue × CelValue)} {index : Option MapIndex} (h : e ∈ entries) :
    sizeOf e.2 < sizeOf (mapArena capacity entries index) := by
  have := List.sizeOf_lt_of_mem h
  obtain ⟨key, value⟩ := e
  simp at *
  omega

namespace CelValue

/-- ERROR or UNKNOWN — what a strict operation hands on instead of computing. -/
def isPoison : CelValue → Bool
  | error _ | unknown _ => true
  | _ => false

/-- The ids a value carries; none unless it is UNKNOWN. -/
def unknownIds : CelValue → UnknownSet
  | unknown ids => ids
  | _ => ∅

/-- Whether a value is the bool `want`. -/
def isBool (want : Bool) : CelValue → Bool
  | bool b => b == want
  | _ => false

@[simp] theorem isBool_bool (want b : Bool) : (bool b).isBool want = (b == want) := rfl

/-- A cell is the bool asked for if it is that bool, and no other kind of cell is. -/
theorem isBool_iff {want : Bool} {v : CelValue} : v.isBool want = true ↔ v = bool want := by
  cases v <;> simp [isBool]

@[simp] theorem isPoison_error (e : CelErr) : (error e).isPoison = true := rfl

@[simp] theorem isPoison_unknown (s : UnknownSet) : (unknown s).isPoison = true := rfl

@[simp] theorem isPoison_bool (b : Bool) : (bool b).isPoison = false := rfl

/-- **Poison is an error or an unknown.** -/
theorem isPoison_iff {v : CelValue} :
    v.isPoison = true ↔ (∃ e, v = error e) ∨ ∃ s, v = unknown s := by
  cases v <;> simp [isPoison]

/-- A value is an ERROR, an UNKNOWN, or no poison. -/
theorem poison_cases (v : CelValue) :
    (∃ e, v = error e) ∨ (∃ s, v = unknown s) ∨ v.isPoison = false := by
  cases v <;> simp [isPoison]

end CelValue

/-- What ends a kernel without a result: a trap of its own, a trampoline's failing status, a failed
check, a read through the payload of a kind the kernel does not test for, a loop that never leaves, or
a call with no frame left on the stack. A failing status, which `StatusToTrap` makes one of, a failed
check of the runtime, which aborts, and a stack with no frame left are wasm traps to the embedder too;
a failed check of the host aborts the process. -/
inductive Stop
  | trap
  | hostFailure
  | abort
  | wildRead
  | diverges
  | stackExhausted
  deriving DecidableEq, Repr

/-- A runtime kernel: it asks the bump arena for blocks, and may stop. -/
abbrev Kernel := Prog Stop

/-- What a kernel call comes to. -/
abbrev Outcome (α : Type) := Except Stop α

end CelWasm
