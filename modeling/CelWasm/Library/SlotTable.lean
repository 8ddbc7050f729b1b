import Mathlib.Data.List.Forall2
import Mathlib.Data.Nat.Notation

/-!
# Library/SlotTable — slots issued to rows, and to keys once

A row that is pushed gets the next slot. A key that is interned gets the slot it had, and if it had
none, the next one, for the row it stands for. A table that dedups by key holds what a table that
only pushes holds, at other slots: the renaming is the list of the slots by which it leads to the
rows of the other, and grows as the other does.
-/

namespace CelWasm

variable {κ ρ : Type*}

/-! ## Rows by slot -/

/-- The row at a slot; the first slot is 1. -/
def slotRow (rows : List ρ) : ℕ → Option ρ
  | 0 => none
  | slot + 1 => rows[slot]?

variable {rows rows' : List ρ} {row : ρ} {slot : ℕ}

@[simp] theorem slotRow_nil : slotRow ([] : List ρ) slot = none := by cases slot <;> rfl

@[simp] theorem slotRow_concat : slotRow (rows ++ [row]) (rows.length + 1) = some row :=
  List.getElem?_concat_length

/-- What a slot leads to, it leads to in a longer table. -/
theorem slotRow_mono (hgrows : rows <+: rows') (h : slotRow rows slot = some row) :
    slotRow rows' slot = some row := by
  obtain _ | slot := slot
  · exact nomatch h
  · obtain ⟨more, rfl⟩ := hgrows
    obtain ⟨hlt, -⟩ := List.getElem?_eq_some_iff.mp h
    exact (List.getElem?_append_left hlt).trans h

/-! ## The table -/

/-- **A table**: its rows, and the slots that were issued to keys. -/
structure SlotTable [DecidableEq κ] (rowOf : κ → ρ) where
  rows : List ρ
  slots : List (κ × ℕ)
  right : ∀ key slot, slots.lookup key = some slot → slotRow rows slot = some (rowOf key)

namespace SlotTable

variable [DecidableEq κ] {rowOf : κ → ρ}

/-- Nothing is issued. -/
def empty : SlotTable rowOf where
  rows := []
  slots := []
  right := nofun

variable (t : SlotTable rowOf)

/-- A row is issued a slot. -/
def push (row : ρ) : ℕ × SlotTable rowOf :=
  (t.rows.length + 1,
    { rows := t.rows ++ [row]
      slots := t.slots
      right := fun key slot h => slotRow_mono (List.prefix_append _ _) (t.right key slot h) })

/-- A key is issued a slot, for its row. -/
def record (key : κ) : ℕ × SlotTable rowOf :=
  (t.rows.length + 1,
    { rows := t.rows ++ [rowOf key]
      slots := (key, t.rows.length + 1) :: t.slots
      right := by
        intro key' slot h
        rw [List.lookup_cons] at h
        split at h
        case h_1 heq =>
          obtain rfl := Option.some.inj h
          rw [beq_iff_eq.mp heq]
          exact slotRow_concat
        case h_2 => exact slotRow_mono (List.prefix_append _ _) (t.right key' slot h) })

/-- **A key is interned**: it keeps the slot it was issued. -/
def intern (key : κ) : ℕ × SlotTable rowOf :=
  match t.slots.lookup key with
  | some slot => (slot, t)
  | none => t.record key

variable {t} {key : κ}

theorem slotRow_push : slotRow (t.push row).2.rows (t.push row).1 = some row := slotRow_concat

theorem prefix_push : t.rows <+: (t.push row).2.rows := List.prefix_append _ _

/-- **An interned key leads to its row.** -/
theorem slotRow_intern : slotRow (t.intern key).2.rows (t.intern key).1 = some (rowOf key) := by
  rw [intern]
  split
  case h_1 slot h => exact t.right key slot h
  case h_2 => exact slotRow_concat

theorem prefix_intern : t.rows <+: (t.intern key).2.rows := by
  rw [intern]
  split
  case h_1 => exact List.prefix_rfl
  case h_2 => exact List.prefix_append _ _

/-- A table without rows has issued no slot. -/
theorem eq_empty_of_rows (h : t.rows = []) : t = empty := by
  obtain ⟨rows, slots, hright⟩ := t
  obtain rfl : rows = [] := h
  obtain rfl : slots = [] := by
    obtain _ | ⟨⟨key, slot⟩, rest⟩ := slots
    · rfl
    · have hfirst := hright key slot (by rw [List.lookup_cons, beq_self_eq_true])
      exact absurd hfirst (by simp)
  rfl

end SlotTable

/-! ## The same rows at other slots -/

/-- **The rows of a table are those of another**, each at the slot that is listed for it. -/
def LeadsTo (moved : List ℕ) (rows rows' : List ρ) : Prop :=
  List.Forall₂ (fun row slot => slotRow rows' slot = some row) rows moved

/-- The slot a slot is renamed to. -/
def renameSlot (moved : List ℕ) (slot : ℕ) : ℕ := (slotRow moved slot).getD 0

variable {moved : List ℕ}

theorem renameSlot_eq {slot' : ℕ} (h : slotRow moved slot = some slot') :
    renameSlot moved slot = slot' := by rw [renameSlot, h, Option.getD_some]

/-- The other table may grow. -/
theorem LeadsTo.mono {rows'' : List ρ} (h : LeadsTo moved rows rows') (hgrows : rows' <+: rows'') :
    LeadsTo moved rows rows'' :=
  List.Forall₂.imp (fun _ _ hrow => slotRow_mono hgrows hrow) h

/-- **Both tables grow by a row**, which in the other may have been there. -/
theorem LeadsTo.concat {rows'' : List ρ} (h : LeadsTo moved rows rows') (hgrows : rows' <+: rows'')
    (hrow : slotRow rows'' slot = some row) :
    LeadsTo (moved ++ [slot]) (rows ++ [row]) rows'' :=
  List.rel_append (h.mono hgrows) (.cons hrow .nil)

/-- The slot of the new row. -/
theorem LeadsTo.slotRow_concat (h : LeadsTo moved rows rows') :
    slotRow (moved ++ [slot]) (rows.length + 1) = some slot := by
  rw [List.Forall₂.length_eq h]
  exact CelWasm.slotRow_concat

/-- **A renamed slot leads where the slot led.** -/
theorem LeadsTo.slotRow_renameSlot (h : LeadsTo moved rows rows') (hrow : slotRow rows slot = some row) :
    slotRow rows' (renameSlot moved slot) = some row := by
  obtain _ | n := slot
  · exact nomatch hrow
  · obtain ⟨hlt, hget⟩ := List.getElem?_eq_some_iff.mp hrow
    have hlt' : n < moved.length := List.Forall₂.length_eq h ▸ hlt
    have hslot : slotRow moved (n + 1) = some moved[n] := List.getElem?_eq_getElem hlt'
    rw [renameSlot_eq hslot, ← hget]
    exact List.Forall₂.get h hlt hlt'

end CelWasm
