import Mathlib.Data.List.Basic
import Mathlib.Data.List.Infix

/-!
# Library/LastWrite — entries in the order of their first write

Keyed entries in a list, under a test for keys that are the same. A write to a key that is there
overwrites its value where it stands; any other write appends. The keys of a list that is written to
keep their places, and no two of them ever are the same.
-/

namespace LastWrite

variable {κ ν : Type} (same : κ → κ → Bool)

/-- **A write**: the value of a key that is there is overwritten, another key goes to the end. -/
def write (entries : List (κ × ν)) (pair : κ × ν) : List (κ × ν) :=
  if entries.any fun e => same e.1 pair.1 then
    entries.map fun e => if same e.1 pair.1 then (e.1, pair.2) else e
  else entries ++ [pair]

/-- No two keys are the same. -/
def Distinct (entries : List (κ × ν)) : Prop :=
  entries.Pairwise fun a b => same a.1 b.1 = false

variable {same} {entries : List (κ × ν)} {pair : κ × ν}

/-- A write to a key that is not there. -/
theorem write_of_fresh (h : ∀ e ∈ entries, same e.1 pair.1 = false) :
    write same entries pair = entries ++ [pair] := by
  refine if_neg fun hany => ?_
  obtain ⟨e, he, hsame⟩ := List.any_eq_true.mp hany
  exact absurd hsame (ne_true_of_eq_false (h e he))

/-- A write to the key at `i`, the only one that is the same. -/
theorem write_of_taken {i : ℕ} (hi : i < entries.length)
    (hsame : ∀ j (hj : j < entries.length), same entries[j].1 pair.1 = true ↔ j = i) :
    write same entries pair = entries.modify i fun e => (e.1, pair.2) := by
  have hany : (entries.any fun e => same e.1 pair.1) = true :=
    List.any_eq_true.mpr ⟨entries[i], List.getElem_mem hi, (hsame i hi).mpr rfl⟩
  rw [write, if_pos hany]
  refine List.ext_getElem (by simp) fun j hj hj' => ?_
  rw [List.length_map] at hj
  rw [List.getElem_map, List.getElem_modify]
  by_cases hji : i = j
  · rw [if_pos ((hsame j hj).mpr hji.symm), if_pos hji]
  · rw [if_neg fun h => hji ((hsame j hj).mp h).symm, if_neg hji]

/-- **Keys keep their places**: a write takes none away. -/
theorem keys_prefix_write (entries : List (κ × ν)) (pair : κ × ν) :
    entries.map Prod.fst <+: (write same entries pair).map Prod.fst := by
  rw [write]
  split
  · have hkeys : (entries.map fun e => if same e.1 pair.1 then (e.1, pair.2) else e).map Prod.fst
        = entries.map Prod.fst := by
      rw [List.map_map]
      refine List.map_congr_left fun e _ => ?_
      rw [Function.comp_apply]
      split <;> rfl
    rw [hkeys]
  · rw [List.map_append]
    exact List.prefix_append _ _

/-- **A write leaves the keys distinct.** -/
theorem Distinct.write (h : Distinct same entries) : Distinct same (write same entries pair) := by
  rw [LastWrite.write]
  split
  · refine List.pairwise_map.mpr (h.imp fun {a b} hab => ?_)
    split <;> split <;> exact hab
  · next hany =>
    refine List.pairwise_append.mpr ⟨h, List.pairwise_singleton _ _, fun a ha b hb => ?_⟩
    obtain rfl := List.mem_singleton.mp hb
    exact eq_false_of_ne_true fun hsame => hany (List.any_eq_true.mpr ⟨a, ha, hsame⟩)

end LastWrite
