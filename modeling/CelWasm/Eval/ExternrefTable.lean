import CelWasm.Runtime.Value

/-!
# Eval/ExternrefTable — the host's table of what the guest refers to

The guest holds messages, maps and lists of the host by slot. A slot is issued when the backing is
interned, and lasts until the table is reset; a message, and a field of a message, that was interned
before gets the slot it had. The reset skips a table that issued nothing, which is right only because
nothing is indexed that was not issued.
-/

namespace CelWasm

/-- **`HostExternrefTable`** — the backings in the order of their slots, from slot 1 on, and the slots
that messages and fields of messages were given. -/
structure HostExternrefTable where
  backings : List ℕ
  mapBackings : List (List (HostValue × HostValue))
  listBackings : List (List HostValue)
  msgSlots : List (ℕ × ℕ)
  mapFieldSlots : List ((ℕ × String) × ℕ)
  listFieldSlots : List ((ℕ × String) × ℕ)
  indexed : (backings = [] → msgSlots = []) ∧ (mapBackings = [] → mapFieldSlots = []) ∧
    (listBackings = [] → listFieldSlots = [])

namespace HostExternrefTable

/-- The table as constructed. -/
def empty : HostExternrefTable where
  backings := []
  mapBackings := []
  listBackings := []
  msgSlots := []
  mapFieldSlots := []
  listFieldSlots := []
  indexed := ⟨fun _ => rfl, fun _ => rfl, fun _ => rfl⟩

variable (t : HostExternrefTable)

/-- `Lookup`. -/
def lookup (slot : ℕ) : Option ℕ := if slot = 0 then none else t.backings[slot - 1]?

/-- `LookupMap`. -/
def lookupMap (slot : ℕ) : Option (List (HostValue × HostValue)) :=
  if slot = 0 then none else t.mapBackings[slot - 1]?

/-- `LookupList`. -/
def lookupList (slot : ℕ) : Option (List HostValue) :=
  if slot = 0 then none else t.listBackings[slot - 1]?

/-- `Intern`; a message of protobuf gets the slot it had. -/
def intern (message : ℕ) (isProto : Bool) : ℕ × HostExternrefTable :=
  if isProto then
    match t.msgSlots.lookup message with
    | some slot => (slot, t)
    | none =>
      let slot := t.backings.length + 1
      (slot, { t with
        backings := t.backings ++ [message]
        msgSlots := (message, slot) :: t.msgSlots
        indexed := ⟨fun h => absurd h (by simp), t.indexed.2⟩ })
  else
    (t.backings.length + 1, { t with
      backings := t.backings ++ [message]
      indexed := ⟨fun h => absurd h (by simp), t.indexed.2⟩ })

/-- `InternMap`. -/
def internMap (entries : List (HostValue × HostValue)) : ℕ × HostExternrefTable :=
  (t.mapBackings.length + 1, { t with
    mapBackings := t.mapBackings ++ [entries]
    indexed := ⟨t.indexed.1, fun h => absurd h (by simp), t.indexed.2.2⟩ })

/-- `InternList`. -/
def internList (elements : List HostValue) : ℕ × HostExternrefTable :=
  (t.listBackings.length + 1, { t with
    listBackings := t.listBackings ++ [elements]
    indexed := ⟨t.indexed.1, t.indexed.2.1, fun h => absurd h (by simp)⟩ })

/-- `InternProtoMapField`. -/
def internProtoMapField (owner : ℕ) (field : String) (entries : List (HostValue × HostValue)) :
    ℕ × HostExternrefTable :=
  match t.mapFieldSlots.lookup (owner, field) with
  | some slot => (slot, t)
  | none =>
    let slot := t.mapBackings.length + 1
    (slot, { t with
      mapBackings := t.mapBackings ++ [entries]
      mapFieldSlots := ((owner, field), slot) :: t.mapFieldSlots
      indexed := ⟨t.indexed.1, fun h => absurd h (by simp), t.indexed.2.2⟩ })

/-- `InternProtoListField`. -/
def internProtoListField (owner : ℕ) (field : String) (elements : List HostValue) :
    ℕ × HostExternrefTable :=
  match t.listFieldSlots.lookup (owner, field) with
  | some slot => (slot, t)
  | none =>
    let slot := t.listBackings.length + 1
    (slot, { t with
      listBackings := t.listBackings ++ [elements]
      listFieldSlots := ((owner, field), slot) :: t.listFieldSlots
      indexed := ⟨t.indexed.1, t.indexed.2.1, fun h => absurd h (by simp)⟩ })

/-- `Reset`: a table that issued no slot is left as it is. -/
def reset : HostExternrefTable :=
  if t.backings.isEmpty && t.mapBackings.isEmpty && t.listBackings.isEmpty then t else empty

/-- **A reset leaves nothing behind**, also where it does nothing. -/
@[simp] theorem reset_eq_empty : t.reset = empty := by
  obtain ⟨backings, mapBackings, listBackings, msgSlots, mapFieldSlots, listFieldSlots, hindexed⟩ := t
  rw [reset]
  split
  case isTrue hissued =>
    simp only [Bool.and_eq_true, List.isEmpty_iff] at hissued
    obtain ⟨⟨rfl, rfl⟩, rfl⟩ := hissued
    obtain ⟨hmsg, hmap, hlist⟩ := hindexed
    obtain rfl := hmsg rfl
    obtain rfl := hmap rfl
    obtain rfl := hlist rfl
    rfl
  case isFalse => rfl

end HostExternrefTable

end CelWasm
