import Mathlib.Data.List.Basic
import Mathlib.Order.Nat

/-!
# Library/Interning — rows of a table, found by a key

A row that is interned is looked up by its key, and appended if there is none of the key. Row 0
stands for no row and is found by no key. The id of a key never changes, and two rows of a table with
one key are the same row.
-/

namespace CelWasm

/-- **A table**: its rows, and the ids of the keys that have been interned. -/
structure InternTable (ρ κ : Type*) where
  rows : List ρ
  ids : List (κ × ℕ)

namespace InternTable

variable {ρ κ : Type*} [BEq κ]

/-- **A row is interned** under a key. -/
def intern (key : κ) (row : ρ) (t : InternTable ρ κ) : ℕ × InternTable ρ κ :=
  match t.ids.lookup key with
  | some id => (id, t)
  | none => (t.rows.length, ⟨t.rows ++ [row], t.ids ++ [(key, t.rows.length)]⟩)

/-- **A sound table**: the id of a key is that of the row of the key. -/
structure Sound (keyOf : ρ → κ) (t : InternTable ρ κ) : Prop where
  sentinel : 0 < t.rows.length
  lookup_iff : ∀ key id, t.ids.lookup key = some id ↔
    0 < id ∧ ∃ row, t.rows[id]? = some row ∧ keyOf row = key

variable {keyOf : ρ → κ} {t : InternTable ρ κ}

/-- Rows of one key are the same. -/
theorem Sound.id_unique (h : t.Sound keyOf) {id id' : ℕ} {row row' : ρ} (hid : 0 < id)
    (hid' : 0 < id') (hrow : t.rows[id]? = some row) (hrow' : t.rows[id']? = some row')
    (hkey : keyOf row = keyOf row') : id = id' := by
  have hlookup := (h.lookup_iff _ _).mpr ⟨hid, row, hrow, rfl⟩
  rw [hkey, (h.lookup_iff _ _).mpr ⟨hid', row', hrow', rfl⟩] at hlookup
  exact (Option.some.inj hlookup).symm

/-- A table with the sentinel alone. -/
theorem sound_singleton (row : ρ) : (⟨[row], []⟩ : InternTable ρ κ).Sound keyOf := by
  refine ⟨Nat.one_pos, fun key id => iff_of_false (fun h => nomatch h) ?_⟩
  rintro ⟨hid, r, hr, -⟩
  rw [List.getElem?_eq_none (by simpa using Nat.succ_le_of_lt hid)] at hr
  exact nomatch hr

/-- The rows of a table with one row more. -/
theorem getElem?_concat_iff {rows : List ρ} {row r : ρ} {id : ℕ} :
    (rows ++ [row])[id]? = some r ↔ rows[id]? = some r ∨ id = rows.length ∧ r = row := by
  obtain hlt | rfl | hlt := Nat.lt_trichotomy id rows.length
  · rw [List.getElem?_append_left hlt]
    simp [hlt.ne]
  · simp [eq_comm]
  · rw [List.getElem?_eq_none (by simpa using Nat.succ_le_of_lt hlt),
      List.getElem?_eq_none hlt.le]
    simp [hlt.ne']

variable [LawfulBEq κ]

/-- **What interning does**: the table stays sound, its rows stay where they are, and the id is that
of a row of the key — the one interned, if there was none before. -/
theorem Sound.intern (h : t.Sound keyOf) (row : ρ) :
    (t.intern (keyOf row) row).2.Sound keyOf ∧ t.rows <+: (t.intern (keyOf row) row).2.rows ∧
      0 < (t.intern (keyOf row) row).1 ∧
      ∃ found, (t.intern (keyOf row) row).2.rows[(t.intern (keyOf row) row).1]? = some found ∧
        keyOf found = keyOf row ∧ (found = row ∨ found ∈ t.rows.tail) ∧
        ∀ r ∈ (t.intern (keyOf row) row).2.rows.tail, r ∈ t.rows.tail ∨ r = found := by
  unfold InternTable.intern
  cases hlookup : t.ids.lookup (keyOf row) with
  | some id =>
    obtain ⟨hid, found, hfound, hkey⟩ := (h.lookup_iff _ _).mp hlookup
    refine ⟨h, List.prefix_rfl, hid, found, hfound, hkey, .inr ?_, fun r hr => .inl hr⟩
    obtain ⟨n, rfl⟩ := Nat.exists_eq_succ_of_ne_zero (Nat.ne_of_gt hid)
    exact List.mem_of_getElem? (by rwa [List.getElem?_tail] : t.rows.tail[n]? = some found)
  | none =>
    refine ⟨⟨by simp, fun key id => ?_⟩, List.prefix_append _ _, h.sentinel, row,
      List.getElem?_concat_length, rfl, .inl rfl, fun r hr => ?_⟩
    · dsimp only
      rw [List.lookup_append, Option.or_eq_some_iff, h.lookup_iff]
      simp only [getElem?_concat_iff, List.lookup_cons]
      by_cases hkey : key = keyOf row
      · subst hkey
        simp only [hlookup, beq_self_eq_true, true_and, Option.some.injEq]
        constructor
        · rintro (⟨hid, r, hr, hrow⟩ | rfl)
          · exact ⟨hid, r, .inl hr, hrow⟩
          · exact ⟨h.sentinel, row, .inr ⟨rfl, rfl⟩, rfl⟩
        · rintro ⟨hid, r, hr | ⟨rfl, -⟩, hrow⟩
          · exact .inl ⟨hid, r, hr, hrow⟩
          · exact .inr rfl
      · have hnone : (key == keyOf row) = false := beq_false_of_ne hkey
        simp only [hnone, List.lookup_nil, reduceCtorEq, and_false, or_false]
        refine and_congr_right fun _ => exists_congr fun r => ?_
        refine ⟨fun hr => ⟨.inl hr.1, hr.2⟩, ?_⟩
        rintro ⟨hr | ⟨-, rfl⟩, hrow⟩
        · exact ⟨hr, hrow⟩
        · exact absurd hrow.symm hkey
    · rw [List.tail_append_of_ne_nil (List.ne_nil_of_length_pos h.sentinel)] at hr
      exact (List.mem_append.mp hr).imp_right List.mem_singleton.mp

end InternTable

end CelWasm
