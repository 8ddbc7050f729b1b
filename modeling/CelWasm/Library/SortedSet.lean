import Mathlib.Order.Defs.LinearOrder
import Mathlib.Data.List.Sort
import Mathlib.Order.Lattice

/-!
# Library/SortedSet — finite sets kept as strictly increasing lists

`SortedSet α` is a strictly increasing list with its proof. `merge` is the two-cursor walk over two
such lists, keeping one copy of what both hold; it computes the union, so `∪` inherits every law of
union by comparing members.
-/

namespace CelWasm

variable {α : Type*} [LinearOrder α]

/-! ## The merge walk -/

/-- Merge `a :: as` into a list, where `rest` merges `as` — the walk's inner loop, run while the
left cursor stays on `a`. -/
def mergeHead (a : α) (as : List α) (rest : List α → List α) : List α → List α
  | [] => a :: as
  | b :: bs =>
    if a < b then a :: rest (b :: bs)
    else if b < a then b :: mergeHead a as rest bs
    else a :: rest bs

/-- **The two-cursor merge** of two sorted lists, without repeats. -/
def merge : List α → List α → List α
  | [] => id
  | a :: as => mergeHead a as (merge as)

@[simp] theorem merge_nil_left (bs : List α) : merge [] bs = bs := rfl

@[simp] theorem merge_nil_right (as : List α) : merge as [] = as := by
  cases as <;> rfl

/-- The walk, one comparison at a time. -/
theorem merge_cons_cons (a : α) (as : List α) (b : α) (bs : List α) :
    merge (a :: as) (b :: bs) =
      if a < b then a :: merge as (b :: bs)
      else if b < a then b :: merge (a :: as) bs
      else a :: merge as bs := rfl

theorem mem_merge_iff (x : α) : ∀ as bs : List α, x ∈ merge as bs ↔ x ∈ as ∨ x ∈ bs
  | [], bs => by simp
  | a :: as, [] => by simp
  | a :: as, b :: bs => by
    rw [merge_cons_cons]
    split_ifs with hab hba
    · rw [List.mem_cons, mem_merge_iff x as (b :: bs), List.mem_cons, List.mem_cons]
      tauto
    · rw [List.mem_cons, mem_merge_iff x (a :: as) bs, List.mem_cons, List.mem_cons]
      tauto
    · obtain rfl : a = b := le_antisymm (not_lt.mp hba) (not_lt.mp hab)
      rw [List.mem_cons, mem_merge_iff x as bs, List.mem_cons, List.mem_cons]
      tauto

/-- **The walk loses nothing and adds nothing.** -/
@[simp] theorem mem_merge {x : α} {as bs : List α} : x ∈ merge as bs ↔ x ∈ as ∨ x ∈ bs :=
  mem_merge_iff x as bs

theorem length_merge_le : ∀ as bs : List α, (merge as bs).length ≤ as.length + bs.length
  | [], bs => by simp
  | a :: as, [] => by simp
  | a :: as, b :: bs => by
    rw [merge_cons_cons, List.length_cons, List.length_cons]
    have hleft := length_merge_le as (b :: bs)
    have hright := length_merge_le (a :: as) bs
    have hboth := length_merge_le as bs
    rw [List.length_cons] at hleft hright
    split_ifs <;> rw [List.length_cons] <;> omega

/-- **The walk keeps the order strict.** -/
theorem pairwise_merge : ∀ {as bs : List α}, as.Pairwise (· < ·) → bs.Pairwise (· < ·) →
    (merge as bs).Pairwise (· < ·)
  | [], _, _, hb => hb
  | a :: as, [], ha, _ => ha
  | a :: as, b :: bs, ha, hb => by
    rw [List.pairwise_cons] at ha hb
    rw [merge_cons_cons]
    split_ifs with hab hba
    · refine List.pairwise_cons.mpr ⟨fun x hx => ?_,
        pairwise_merge ha.2 (List.pairwise_cons.mpr hb)⟩
      rcases mem_merge.mp hx with hx | hx
      · exact ha.1 x hx
      · rcases List.mem_cons.mp hx with rfl | hx
        · exact hab
        · exact hab.trans (hb.1 x hx)
    · refine List.pairwise_cons.mpr ⟨fun x hx => ?_,
        pairwise_merge (List.pairwise_cons.mpr ha) hb.2⟩
      rcases mem_merge.mp hx with hx | hx
      · rcases List.mem_cons.mp hx with rfl | hx
        · exact hba
        · exact hba.trans (ha.1 x hx)
      · exact hb.1 x hx
    · obtain rfl : a = b := le_antisymm (not_lt.mp hba) (not_lt.mp hab)
      refine List.pairwise_cons.mpr ⟨fun x hx => ?_, pairwise_merge ha.2 hb.2⟩
      exact (mem_merge.mp hx).elim (ha.1 x) (hb.1 x)

/-! ## Sorting into a set -/

/-- `std::unique`: of equal neighbours one is kept. -/
def unique : List α → List α
  | [] => []
  | [a] => [a]
  | a :: b :: rest => if a = b then unique (b :: rest) else a :: unique (b :: rest)

@[simp] theorem mem_unique {x : α} : ∀ {l : List α}, x ∈ unique l ↔ x ∈ l
  | [] => Iff.rfl
  | [_] => Iff.rfl
  | a :: b :: rest => by
    rw [unique]
    split_ifs with hab
    · rw [mem_unique, hab]
      simp
    · rw [List.mem_cons, mem_unique]
      exact List.mem_cons.symm

theorem length_unique_le : ∀ l : List α, (unique l).length ≤ l.length
  | [] => le_rfl
  | [_] => le_rfl
  | a :: b :: rest => by
    have hrest := length_unique_le (b :: rest)
    rw [unique, List.length_cons]
    split_ifs
    · exact hrest.trans (Nat.le_succ _)
    · exact Nat.succ_le_succ hrest

/-- **What is left of a sorted list is strictly increasing.** -/
theorem pairwise_unique : ∀ {l : List α}, l.Pairwise (· ≤ ·) → (unique l).Pairwise (· < ·)
  | [], _ => .nil
  | [_], _ => List.pairwise_singleton _ _
  | a :: b :: rest, h => by
    rw [List.pairwise_cons] at h
    rw [unique]
    split_ifs with hab
    · exact pairwise_unique h.2
    · refine List.pairwise_cons.mpr ⟨fun x hx => ?_, pairwise_unique h.2⟩
      have hlt : a < b := lt_of_le_of_ne (h.1 b List.mem_cons_self) hab
      obtain rfl | hx := List.mem_cons.mp (mem_unique.mp hx)
      · exact hlt
      · exact hlt.trans_le ((List.pairwise_cons.mp h.2).1 x hx)

/-! ## Sorted sets -/

/-- A finite set, kept as the strictly increasing list of its members. -/
structure SortedSet (α : Type*) [LinearOrder α] where
  toList : List α
  sorted : toList.Pairwise (· < ·)
  deriving DecidableEq

namespace SortedSet

variable {s t u : SortedSet α}

instance : Membership α (SortedSet α) := ⟨fun s x => x ∈ s.toList⟩

instance (x : α) (s : SortedSet α) : Decidable (x ∈ s) := inferInstanceAs (Decidable (x ∈ s.toList))

/-- **A sorted set is its members** — the list is determined by what it holds. -/
@[ext] theorem ext (h : ∀ x, x ∈ s ↔ x ∈ t) : s = t := by
  obtain ⟨l, hl⟩ := s
  obtain ⟨m, hm⟩ := t
  obtain rfl : l = m := by
    have hnl : l.Nodup := hl.imp ne_of_lt
    have hnm : m.Nodup := hm.imp ne_of_lt
    refine ((List.perm_ext_iff_of_nodup hnl hnm).mpr h).eq_of_pairwise ?_ hl hm
    exact fun a b _ _ hab hba => absurd hba hab.asymm
  rfl

instance : EmptyCollection (SortedSet α) := ⟨⟨[], .nil⟩⟩

instance : Union (SortedSet α) := ⟨fun s t => ⟨merge s.toList t.toList, pairwise_merge s.2 t.2⟩⟩

@[simp] theorem toList_union : (s ∪ t).toList = merge s.toList t.toList := rfl

@[simp] theorem mem_union {x : α} : x ∈ s ∪ t ↔ x ∈ s ∨ x ∈ t := mem_merge

@[simp] theorem notMem_empty (x : α) : x ∉ (∅ : SortedSet α) := List.not_mem_nil

theorem union_assoc (s t u : SortedSet α) : s ∪ t ∪ u = s ∪ (t ∪ u) := by
  ext x; simp [or_assoc]

@[simp] theorem union_self (s : SortedSet α) : s ∪ s = s := by
  ext x; simp

@[simp] theorem empty_union (s : SortedSet α) : ∅ ∪ s = s := by
  ext x; simp

@[simp] theorem union_empty (s : SortedSet α) : s ∪ ∅ = s := by
  ext x; simp

instance : HasSubset (SortedSet α) := ⟨fun s t => ∀ x ∈ s, x ∈ t⟩

theorem subset_def : s ⊆ t ↔ ∀ x ∈ s, x ∈ t := Iff.rfl

@[simp] theorem subset_empty_iff : s ⊆ ∅ ↔ s = ∅ := by
  refine ⟨fun h => ext fun x => ?_, fun h => h ▸ fun _ hx => hx⟩
  exact ⟨h x, fun hx => absurd hx (notMem_empty x)⟩

/-- Absorbing a set that adds no member is the only way a union is left unchanged. -/
theorem union_eq_left_iff : s ∪ t = s ↔ t ⊆ s := by
  refine ⟨fun h x hx => ?_, fun h => ?_⟩
  · rw [← h]
    exact mem_union.mpr (.inr hx)
  · ext x
    simp only [mem_union, or_iff_left_iff_imp]
    exact h x

end SortedSet

end CelWasm
