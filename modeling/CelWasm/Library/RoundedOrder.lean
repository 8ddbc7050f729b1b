import Mathlib.Order.Compare
import Mathlib.Order.Lattice
import Mathlib.Data.Option.Basic

/-!
# Library/RoundedOrder — an order that is exact where it can be

Some values are known exactly, and all of them rounded. Two that are known exactly are compared so, and
any others by their roundings. A rounding that keeps the order makes of this a comparison that goes
both ways and a strict order; what it calls equal is no equivalence:

    a ~ b, for they round alike,   b ~ c, for they round alike,   a < c, for both are exact

A strict order is all that finding a least value in one pass takes.
-/

namespace CelWasm

/-- **An order of exact and rounded values.** -/
structure RoundedOrder (α β γ : Type) [LinearOrder β] [LinearOrder γ] where
  /-- The value, where it is known exactly. -/
  value? : α → Option β
  /-- The value, rounded. -/
  rounded : α → γ
  /-- Rounding keeps the order. -/
  rounded_le : ∀ {x y a b}, value? x = some a → value? y = some b → a ≤ b → rounded x ≤ rounded y

namespace RoundedOrder

variable {α β γ : Type} [LinearOrder β] [LinearOrder γ] (r : RoundedOrder α β γ) {x y z : α}

/-- The comparison. -/
def compare (x y : α) : Ordering :=
  match r.value? x, r.value? y with
  | some a, some b => cmp a b
  | _, _ => cmp (r.rounded x) (r.rounded y)

variable {r}

theorem compare_exact {a b : β} (hx : r.value? x = some a) (hy : r.value? y = some b) :
    r.compare x y = cmp a b := by
  rw [compare, hx, hy]

theorem compare_rounded (h : r.value? x = none ∨ r.value? y = none) :
    r.compare x y = cmp (r.rounded x) (r.rounded y) := by
  rw [compare]
  obtain h | h := h
  · rw [h]
  · rw [h]
    cases r.value? x <;> rfl

/-- Exactly or rounded, one of the two. -/
theorem compare_cases (x y : α) :
    (∃ a b, r.value? x = some a ∧ r.value? y = some b) ∨ (r.value? x = none ∨ r.value? y = none) := by
  cases hx : r.value? x with
  | none => exact .inr (.inl rfl)
  | some a =>
    cases hy : r.value? y with
    | none => exact .inr (.inr rfl)
    | some b => exact .inl ⟨a, b, rfl, rfl⟩

/-- **The comparison goes both ways.** -/
theorem compare_swap (x y : α) : (r.compare x y).swap = r.compare y x := by
  obtain ⟨a, b, hx, hy⟩ | h := r.compare_cases x y
  · rw [compare_exact hx hy, compare_exact hy hx, cmp_swap]
  · rw [compare_rounded h, compare_rounded h.symm, cmp_swap]

/-- What is not greater is not rounded to more. -/
theorem rounded_le_of_compare (h : r.compare x y ≠ .gt) : r.rounded x ≤ r.rounded y := by
  obtain ⟨a, b, hx, hy⟩ | hnone := r.compare_cases x y
  · rw [compare_exact hx hy, Ne, cmp_eq_gt_iff, not_lt] at h
    exact r.rounded_le hx hy h
  · rw [compare_rounded hnone, Ne, cmp_eq_gt_iff, not_lt] at h
    exact h

/-- What is rounded to less is less. -/
theorem compare_eq_lt_of_rounded (h : r.rounded x < r.rounded y) : r.compare x y = .lt := by
  obtain ⟨a, b, hx, hy⟩ | hnone := r.compare_cases x y
  · rw [compare_exact hx hy, cmp_eq_lt_iff]
    by_contra hle
    exact absurd (r.rounded_le hy hx (not_lt.mp hle)) (not_le.mpr h)
  · rw [compare_rounded hnone, cmp_eq_lt_iff]
    exact h

/-- **Strictly less is transitive.** -/
theorem compare_trans (hxy : r.compare x y = .lt) (hyz : r.compare y z = .lt) :
    r.compare x z = .lt := by
  have hle : r.rounded x ≤ r.rounded y := rounded_le_of_compare (by rw [hxy]; exact nofun)
  have hle' : r.rounded y ≤ r.rounded z := rounded_le_of_compare (by rw [hyz]; exact nofun)
  obtain ⟨a, b, hx, hy⟩ | hnone := r.compare_cases x y
  · obtain ⟨b', c, hy', hz⟩ | hnone' := r.compare_cases y z
    · obtain rfl : b = b' := Option.some.inj (hy.symm.trans hy')
      rw [compare_exact hx hy, cmp_eq_lt_iff] at hxy
      rw [compare_exact hy hz, cmp_eq_lt_iff] at hyz
      rw [compare_exact hx hz, cmp_eq_lt_iff]
      exact hxy.trans hyz
    · rw [compare_rounded hnone', cmp_eq_lt_iff] at hyz
      exact compare_eq_lt_of_rounded (hle.trans_lt hyz)
  · rw [compare_rounded hnone, cmp_eq_lt_iff] at hxy
    exact compare_eq_lt_of_rounded (hxy.trans_le hle')

end RoundedOrder

/-! ## The least value, in one pass -/

section OnePass

variable {α : Type} {replaces : α → α → Bool}

/-- The best of a list, kept until another replaces it. -/
def onePass (replaces : α → α → Bool) : α → List α → α
  | best, [] => best
  | best, x :: rest => onePass replaces (if replaces best x then x else best) rest

theorem onePass_cons (best x : α) (rest : List α) : onePass replaces best (x :: rest)
    = onePass replaces (if replaces best x then x else best) rest := rfl

theorem onePass_mem (best : α) (xs : List α) : onePass replaces best xs ∈ best :: xs := by
  induction xs generalizing best with
  | nil => exact List.mem_cons_self
  | cons x rest ih =>
    rw [onePass_cons]
    have hmem := ih (if replaces best x then x else best)
    split_ifs at hmem ⊢
    · exact List.mem_cons_of_mem best hmem
    · obtain h | h := List.mem_cons.mp hmem
      · rw [h]
        exact List.mem_cons_self
      · exact List.mem_cons_of_mem best (List.mem_cons_of_mem x h)

/-- What one pass comes to is what it began with, or replaces it. -/
theorem onePass_eq_or_replaces
    (htrans : ∀ x y z, replaces x y = true → replaces y z = true → replaces x z = true)
    (best : α) (xs : List α) :
    onePass replaces best xs = best ∨ replaces best (onePass replaces best xs) = true := by
  induction xs generalizing best with
  | nil => exact .inl rfl
  | cons x rest ih =>
    rw [onePass_cons]
    split_ifs with hx
    · obtain h | h := ih x
      · exact .inr (by rw [h]; exact hx)
      · exact .inr (htrans best x _ hx h)
    · exact ih best

/-- **Nothing replaces what one pass comes to**, if nothing replaces itself. -/
theorem onePass_best
    (htrans : ∀ x y z, replaces x y = true → replaces y z = true → replaces x z = true)
    (hself : ∀ x, replaces x x = false) (best : α) (xs : List α) :
    ∀ x ∈ best :: xs, replaces (onePass replaces best xs) x = false := by
  induction xs generalizing best with
  | nil => exact fun x hx => by rw [List.mem_singleton.mp hx]; exact hself best
  | cons y rest ih =>
    have hlater : ∀ kept x, x ∈ rest → replaces (onePass replaces kept rest) x = false :=
      fun kept x hx => ih kept x (List.mem_cons_of_mem kept hx)
    have hkept : ∀ kept, replaces (onePass replaces kept rest) kept = false :=
      fun kept => ih kept kept List.mem_cons_self
    rw [onePass_cons]
    split_ifs with hy
    · -- what was dropped for `y` does not come back
      have hdropped : replaces (onePass replaces y rest) best = false :=
        Bool.eq_false_iff.mpr fun h => absurd (htrans _ best y h hy) (by rw [hkept y]; nofun)
      exact List.forall_mem_cons.mpr ⟨hdropped, List.forall_mem_cons.mpr ⟨hkept y, hlater y⟩⟩
    · -- what replaces the best of all does not let `y` replace it
      have hpassed : replaces (onePass replaces best rest) y = false := by
        refine Bool.eq_false_iff.mpr fun h => hy ?_
        obtain heq | hreplaces := onePass_eq_or_replaces htrans best rest
        · rwa [heq] at h
        · exact htrans best _ y hreplaces h
      exact List.forall_mem_cons.mpr ⟨hkept best, List.forall_mem_cons.mpr ⟨hpassed, hlater best⟩⟩

end OnePass

end CelWasm
