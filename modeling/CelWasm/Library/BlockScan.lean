import Mathlib.Data.List.Basic
import Mathlib.Data.Nat.Notation
import Mathlib.Tactic.SplitIfs

/-!
# Library/BlockScan — a search by blocks

A search looks at whole blocks while there are any and at the rest one element at a time. If it finds
in a block the first of it, it finds the first of all.

The elements of a block may be compared at once, each with a flag of a word to say so. The lowest flag
is the first element found.
-/

namespace CelWasm

section BlockScan

variable {α : Type}

/-- **A search by blocks** of a size, so many of them, and then of what is left. -/
def blockScan (size : ℕ) (block rest : List α → Option ℕ) : ℕ → List α → Option ℕ
  | 0, xs => rest xs
  | blocks + 1, xs =>
    match block (xs.take size) with
    | some i => some i
    | none => (blockScan size block rest blocks (xs.drop size)).map (· + size)

/-- **It finds the first of all.** -/
theorem blockScan_eq {size : ℕ} {block rest : List α → Option ℕ} {p : α → Bool}
    (hblock : ∀ xs, xs.length = size → block xs = xs.findIdx? p)
    (hrest : ∀ xs, rest xs = xs.findIdx? p) :
    ∀ (blocks : ℕ) (xs : List α), blocks * size ≤ xs.length →
      blockScan size block rest blocks xs = xs.findIdx? p
  | 0, xs, _ => hrest xs
  | blocks + 1, xs, h => by
    rw [Nat.succ_mul] at h
    have hlen : (xs.take size).length = size := List.length_take_of_le (by omega)
    have hdrop : blocks * size ≤ (xs.drop size).length := by
      rw [List.length_drop]
      omega
    have hsplit : xs.findIdx? p
        = ((xs.take size).findIdx? p).or (((xs.drop size).findIdx? p).map (· + size)) := by
      conv_lhs => rw [← List.take_append_drop size xs]
      rw [List.findIdx?_append, hlen]
    rw [blockScan, hblock _ hlen, blockScan_eq hblock hrest blocks _ hdrop, hsplit]
    cases (xs.take size).findIdx? p <;> rfl

/-- The blocks in front that pass, in elements. -/
def blockPrefix (size : ℕ) (passes : List α → Bool) : ℕ → List α → ℕ
  | 0, _ => 0
  | blocks + 1, xs =>
    if passes (xs.take size) then size + blockPrefix size passes blocks (xs.drop size) else 0

/-- **In front are only elements that pass**, and no more than there are. -/
theorem blockPrefix_spec {size : ℕ} {passes : List α → Bool} {p : α → Bool}
    (hpasses : ∀ xs, xs.length = size → passes xs = true → ∀ x ∈ xs, p x = true) :
    ∀ (blocks : ℕ) (xs : List α), blocks * size ≤ xs.length →
      blockPrefix size passes blocks xs ≤ xs.length ∧
        ∀ x ∈ xs.take (blockPrefix size passes blocks xs), p x = true
  | 0, xs, _ => ⟨Nat.zero_le _, by rw [blockPrefix, List.take_zero]; exact nofun⟩
  | blocks + 1, xs, h => by
    rw [Nat.succ_mul] at h
    rw [blockPrefix]
    split_ifs with hpass
    · have hlen : (xs.take size).length = size := List.length_take_of_le (by omega)
      have hdrop : blocks * size ≤ (xs.drop size).length := by
        rw [List.length_drop]
        omega
      obtain ⟨hle, hall⟩ := blockPrefix_spec hpasses blocks (xs.drop size) hdrop
      rw [List.length_drop] at hle
      refine ⟨by omega, fun x hx => ?_⟩
      rw [List.take_add, List.mem_append] at hx
      exact hx.elim (hpasses _ hlen hpass x) (hall x)
    · exact ⟨Nat.zero_le _, by rw [List.take_zero]; exact nofun⟩

/-! ## A flag for each element -/

/-- **The lowest flag is the first element found**, if what is found is flagged and the lowest flag is
no mistake. Flag `j` is the bit `stride * j + place`. -/
theorem findIdx?_of_flags {w stride place : ℕ} (hplace : place < stride) {mask : BitVec w}
    {p : α → Bool} {xs : List α}
    (hflag : ∀ i, mask.getLsbD i = true → ∃ j < xs.length, i = stride * j + place)
    (hfound : ∀ j, (h : j < xs.length) → p xs[j] = true →
      mask.getLsbD (stride * j + place) = true)
    (hlowest : ∀ j, (h : j < xs.length) → mask.getLsbD (stride * j + place) = true →
      (∀ k, (hk : k < j) → ¬ p xs[k] = true) → p xs[j] = true) :
    (if mask ≠ 0#w then some (mask.ctz.toNat / stride) else none) = xs.findIdx? p := by
  split_ifs with hmask
  · have hset : mask.getLsbD mask.ctz.toNat = true := BitVec.getLsbD_true_ctz_of_ne_zero hmask
    obtain ⟨j, hj, hctz⟩ := hflag _ hset
    have hdiv : mask.ctz.toNat / stride = j := by
      rw [hctz, Nat.mul_add_div (by omega), Nat.div_eq_of_lt hplace, Nat.add_zero]
    have hnone : ∀ k, (hk : k < j) → ¬ p xs[k] = true := fun k hk hp => by
      have hbit := hfound k (by omega) hp
      have hlt : stride * k + place < mask.ctz.toNat := by
        rw [hctz]
        exact Nat.add_lt_add_right (Nat.mul_lt_mul_of_pos_left hk (by omega)) place
      rw [BitVec.getLsbD_false_of_lt_ctz hlt] at hbit
      exact Bool.false_ne_true hbit
    rw [hctz] at hset
    rw [hdiv, eq_comm, List.findIdx?_eq_some_iff_getElem]
    exact ⟨hj, hlowest j hj hset hnone, hnone⟩
  · rw [not_not] at hmask
    rw [eq_comm, List.findIdx?_eq_none_iff]
    intro x hx
    refine Bool.eq_false_iff.mpr fun hp => ?_
    obtain ⟨j, hj, rfl⟩ := List.getElem_of_mem hx
    have hbit := hfound j hj hp
    rw [hmask, BitVec.getLsbD_zero] at hbit
    exact Bool.false_ne_true hbit

end BlockScan

end CelWasm
