import Mathlib.Algebra.BigOperators.Group.List.Basic
import Mathlib.Algebra.Order.BigOperators.Group.List
import Mathlib.Data.List.Sort
import Mathlib.Algebra.Order.Ring.Nat

/-!
# Library/SortedTable — tables in the order of their keys, where the first entry of a key stays

`emplace` puts an entry where its key is in order, unless the key is there. A table filled so holds
every entry once exactly if no two have the same key (`perm_ofEntries`, `nodup_of_sum_ofEntries`), and
then it does not depend on the order they came in.
-/

namespace CelWasm

namespace SortedTable

variable {K V : Type} [LinearOrder K] {e : K × V} {t entries entries' : List (K × V)}

/-- The keys are in order, each once. -/
abbrev Sorted (t : List (K × V)) : Prop := t.Pairwise (·.1 < ·.1)

/-- An entry put where its key is in order, unless the key is there. -/
def emplace (e : K × V) : List (K × V) → List (K × V)
  | [] => [e]
  | f :: rest => if e.1 < f.1 then e :: f :: rest else if e.1 = f.1 then f :: rest else f :: emplace e rest

/-- Entries put into a table one by one. -/
def emplaceAll (t entries : List (K × V)) : List (K × V) := entries.foldl (fun t e => emplace e t) t

/-- The table of entries. -/
def ofEntries (entries : List (K × V)) : List (K × V) := emplaceAll [] entries

/-! ## One entry -/

theorem emplace_cons (e f : K × V) (rest : List (K × V)) : emplace e (f :: rest) =
    if e.1 < f.1 then e :: f :: rest else if e.1 = f.1 then f :: rest else f :: emplace e rest := rfl

theorem mem_emplace {f : K × V} (h : f ∈ emplace e t) : f = e ∨ f ∈ t := by
  induction t with
  | nil => exact .inl (List.mem_singleton.mp h)
  | cons g rest ih =>
    rw [emplace_cons] at h
    split_ifs at h
    · exact List.mem_cons.mp h
    · exact .inr h
    · obtain rfl | h := List.mem_cons.mp h
      · exact .inr List.mem_cons_self
      · exact (ih h).imp_right (List.mem_cons_of_mem _)

/-- **The table stays in order.** -/
theorem Sorted.emplace (h : Sorted t) : Sorted (emplace e t) := by
  induction t with
  | nil => exact List.pairwise_singleton _ _
  | cons f rest ih =>
    obtain ⟨hf, hrest⟩ := List.pairwise_cons.mp h
    rw [emplace_cons]
    split_ifs with hlt heq
    · refine List.pairwise_cons.mpr ⟨List.forall_mem_cons.mpr ⟨hlt, fun g hg => ?_⟩, h⟩
      exact hlt.trans (hf g hg)
    · exact h
    · refine List.pairwise_cons.mpr ⟨fun g hg => ?_, ih hrest⟩
      obtain rfl | hg := mem_emplace hg
      · exact lt_of_le_of_ne (not_lt.mp hlt) (Ne.symm heq)
      · exact hf g hg

/-- **An entry of a new key is put in**. -/
theorem emplace_perm (h : e.1 ∉ t.map Prod.fst) : (emplace e t).Perm (e :: t) := by
  induction t with
  | nil => exact .refl _
  | cons f rest ih =>
    rw [List.map_cons, List.mem_cons, not_or] at h
    rw [emplace_cons, if_neg h.1]
    split_ifs
    · exact .refl _
    · exact ((ih h.2).cons f).trans (.swap e f rest)

/-- …and one of a key that is there is not. -/
theorem Sorted.emplace_eq_self (hsorted : Sorted t) (h : e.1 ∈ t.map Prod.fst) :
    SortedTable.emplace e t = t := by
  induction t with
  | nil => exact absurd h List.not_mem_nil
  | cons f rest ih =>
    obtain ⟨hf, hrest⟩ := List.pairwise_cons.mp hsorted
    rw [emplace_cons]
    obtain heq | hkey := List.mem_cons.mp h
    · rw [if_neg (by rw [heq]; exact lt_irrefl _), if_pos heq]
    · obtain ⟨g, hg, hge⟩ := List.mem_map.mp hkey
      have hlt : f.1 < e.1 := hge ▸ hf g hg
      rw [if_neg hlt.not_gt, if_neg hlt.ne', ih hrest hkey]

/-! ## All of them -/

theorem Sorted.emplaceAll (h : Sorted t) : Sorted (emplaceAll t entries) := by
  induction entries generalizing t with
  | nil => exact h
  | cons e entries ih => exact ih h.emplace

theorem perm_emplaceAll (h : ((entries ++ t).map Prod.fst).Nodup) :
    (emplaceAll t entries).Perm (entries ++ t) := by
  induction entries generalizing t with
  | nil => exact .refl _
  | cons e entries ih =>
    rw [List.cons_append, List.map_cons, List.nodup_cons, List.map_append, List.mem_append,
      not_or] at h
    have hone := emplace_perm h.1.2
    have hkeys : ((entries ++ emplace e t).map Prod.fst).Nodup := by
      refine ((hone.append_left entries).map Prod.fst).nodup_iff.mpr ?_
      rw [List.map_append, List.map_cons, List.nodup_middle, List.nodup_cons, List.mem_append, not_or]
      exact h
    exact ((ih hkeys).trans (hone.append_left entries)).trans List.perm_middle

/-- **A table of entries with distinct keys holds every entry once.** -/
theorem perm_ofEntries (h : (entries.map Prod.fst).Nodup) : (ofEntries entries).Perm entries := by
  have hperm := @perm_emplaceAll K V _ [] entries (by rwa [List.append_nil])
  rwa [List.append_nil] at hperm

/-- **…and does not depend on their order.** -/
theorem ofEntries_eq_of_perm (h : (entries.map Prod.fst).Nodup) (hperm : entries.Perm entries') :
    ofEntries entries = ofEntries entries' := by
  have hkeys : (entries'.map Prod.fst).Nodup := (hperm.map Prod.fst).nodup_iff.mp h
  have hsame := ((perm_ofEntries h).trans hperm).trans (perm_ofEntries hkeys).symm
  exact @List.Perm.eq_of_pairwise _ (fun a b : K × V => a.1 < b.1) _ _
    (fun a b _ _ hab hba => absurd hba hab.asymm) (Sorted.emplaceAll .nil) (Sorted.emplaceAll .nil)
    hsame

/-! ## What a table weighs -/

section Weight

variable (weight : K × V → ℕ)

/-- What entries weigh. -/
def weightOf (entries : List (K × V)) : ℕ := (entries.map weight).sum

theorem weightOf_emplace_le (hsorted : Sorted t) :
    weightOf weight (emplace e t) ≤ weight e + weightOf weight t := by
  by_cases h : e.1 ∈ t.map Prod.fst
  · rw [hsorted.emplace_eq_self h]
    exact Nat.le_add_left _ _
  · exact (((emplace_perm h).map weight).sum_eq).le

theorem weightOf_emplaceAll_le (hsorted : Sorted t) :
    weightOf weight (emplaceAll t entries) ≤ weightOf weight entries + weightOf weight t := by
  induction entries generalizing t with
  | nil => exact Nat.le_add_left _ _
  | cons e entries ih =>
    have hrest := ih (hsorted.emplace : Sorted (emplace e t))
    have hone := @weightOf_emplace_le K V _ e t weight hsorted
    have hcons : weightOf weight (e :: entries) = weight e + weightOf weight entries := List.sum_cons
    have hfold : emplaceAll t (e :: entries) = emplaceAll (emplace e t) entries := rfl
    rw [hfold, hcons]
    omega

/-- A table weighs no more than the entries. -/
theorem weightOf_ofEntries_le : weightOf weight (ofEntries entries) ≤ weightOf weight entries :=
  weightOf_emplaceAll_le weight .nil

variable {weight}

theorem nodup_of_weightOf_emplaceAll (hpos : ∀ e, 0 < weight e) (hsorted : Sorted t)
    (h : weightOf weight (emplaceAll t entries) = weightOf weight entries + weightOf weight t) :
    ((entries ++ t).map Prod.fst).Nodup := by
  induction entries generalizing t with
  | nil => exact List.Pairwise.map _ (fun _ _ => ne_of_lt) hsorted
  | cons e entries ih =>
    have hrest := @weightOf_emplaceAll_le K V _ _ entries weight (hsorted.emplace : Sorted (emplace e t))
    have hone := @weightOf_emplace_le K V _ e t weight hsorted
    have hcons : weightOf weight (e :: entries) = weight e + weightOf weight entries := List.sum_cons
    have hfold : emplaceAll t (e :: entries) = emplaceAll (emplace e t) entries := rfl
    rw [hfold, hcons] at h
    have hnew : e.1 ∉ t.map Prod.fst := fun hold => by
      rw [hsorted.emplace_eq_self hold] at h hrest
      have := hpos e
      omega
    have hkeys := @ih (emplace e t) hsorted.emplace (by omega)
    rw [(((emplace_perm hnew).append_left entries).map Prod.fst).nodup_iff] at hkeys
    exact ((List.perm_middle.map Prod.fst).nodup_iff).mp hkeys

/-- **A table that weighs as much as the entries has lost none.** -/
theorem nodup_of_weightOf_ofEntries (hpos : ∀ e, 0 < weight e)
    (h : weightOf weight (ofEntries entries) = weightOf weight entries) :
    (entries.map Prod.fst).Nodup := by
  have hkeys := @nodup_of_weightOf_emplaceAll K V _ [] entries weight hpos .nil h
  rwa [List.append_nil] at hkeys

end Weight

end SortedTable

end CelWasm
