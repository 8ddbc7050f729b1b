import Mathlib.Data.List.Basic
import Mathlib.Order.MinMax

/-!
# Library/Cursor — stepping through a list

A cursor counts the items it has passed and never goes back. Each step but the last uncovers the next
item; from then on every step says that there is none, and changes nothing.

    passed:    0        1        2            n        n   …
             start ──▸ x₁ ──▸   x₂ ──▸ … ──▸  xₙ ──▸ false ──▸ …
-/

namespace CelWasm

variable {α : Type}

/-- A list, and how many of its items have been passed. -/
structure Cursor (α : Type) where
  items : List α
  passed : ℕ

namespace Cursor

/-- Before the first item. -/
def start (items : List α) : Cursor α := { items, passed := 0 }

/-- On to the next item, if there is one. -/
def next (c : Cursor α) : Bool × Cursor α :=
  if c.items.length ≤ c.passed then (false, c) else (true, { c with passed := c.passed + 1 })

/-- The item passed last. -/
def current (c : Cursor α) : Option α := if c.passed = 0 then none else c.items[c.passed - 1]?

/-- The items ahead. -/
def remaining (c : Cursor α) : List α := c.items.drop c.passed

/-- The cursor after so many steps. -/
def after (c : Cursor α) : ℕ → Cursor α
  | 0 => c
  | n + 1 => (c.after n).next.2

variable {c : Cursor α} {x : α} {xs : List α}

@[simp] theorem remaining_start (items : List α) : (start items).remaining = items := rfl

/-- With nothing ahead a step says so and changes nothing. -/
theorem next_of_nil (h : c.remaining = []) : c.next = (false, c) := by
  rw [next, if_pos (List.drop_eq_nil_iff.mp h)]

/-- **A step uncovers the item ahead.** -/
theorem next_of_cons (h : c.remaining = x :: xs) :
    c.next.1 = true ∧ c.next.2.current = some x ∧ c.next.2.remaining = xs := by
  have hlt : c.passed < c.items.length := by
    by_contra hle
    rw [remaining, List.drop_eq_nil_iff.mpr (not_lt.mp hle)] at h
    exact nomatch h
  rw [remaining, List.drop_eq_getElem_cons hlt] at h
  obtain ⟨hx, hxs⟩ := List.cons.inj h
  rw [next, if_neg (not_le.mpr hlt)]
  refine ⟨rfl, ?_, hxs⟩
  rw [current, if_neg (Nat.succ_ne_zero _), Nat.add_sub_cancel, List.getElem?_eq_getElem hlt, hx]

/-! ## Runs -/

theorem passed_after (items : List α) (n : ℕ) :
    (start items).after n = { items, passed := min n items.length } := by
  induction n with
  | zero => simp [after, start]
  | succ n ih =>
    rw [after, ih, next]
    by_cases hle : items.length ≤ n
    · rw [if_pos (by simp [hle]), Nat.min_eq_right hle, Nat.min_eq_right (Nat.le_succ_of_le hle)]
    · have hlt := not_le.mp hle
      rw [if_neg (by simp; omega), Nat.min_eq_left hlt.le, Nat.min_eq_left hlt]

/-- **Step `n` uncovers item `n`**, counted from zero. -/
theorem step_of_lt {items : List α} {n : ℕ} (h : n < items.length) :
    ((start items).after n).next.1 = true ∧
      ((start items).after (n + 1)).current = some items[n] := by
  have hremaining : ((start items).after n).remaining = items[n] :: items.drop (n + 1) := by
    rw [passed_after, Nat.min_eq_left h.le]
    exact List.drop_eq_getElem_cons h
  exact ⟨(next_of_cons hremaining).1, (next_of_cons hremaining).2.1⟩

/-- **Every further step finds nothing.** -/
theorem step_of_le {items : List α} {n : ℕ} (h : items.length ≤ n) :
    ((start items).after n).next.1 = false := by
  have hremaining : ((start items).after n).remaining = [] := by
    rw [passed_after, Nat.min_eq_right h]
    exact List.drop_length
  rw [next_of_nil hremaining]

end Cursor

end CelWasm
