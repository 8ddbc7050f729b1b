import Mathlib.Data.Nat.Notation

/-!
# Library/OneEntryCache — a cache that keeps one answer

The cache remembers the last key it was asked for and what that key came to. It is sound for a
relation between keys and answers when the entry it keeps is related. A refill that stores the answer
before the key and is cut short in between leaves the new answer with the old key.
-/

namespace CelWasm

/-- The key last asked for and its answer, if there is one. -/
abbrev OneEntryCache (κ ν : Type) := Option (κ × ν)

namespace OneEntryCache

variable {κ ν : Type} {R : κ → ν → Prop} {c : OneEntryCache κ ν} {k : κ} {v w : ν}

/-- The entry kept is a right one. -/
def Sound (R : κ → ν → Prop) (c : OneEntryCache κ ν) : Prop := ∀ k v, c = some (k, v) → R k v

/-- The answer kept, if it is for this key. -/
def hit [DecidableEq κ] (c : OneEntryCache κ ν) (k : κ) : Option ν :=
  match c with
  | some (k', v) => if k' = k then some v else none
  | none => none

/-- A refill cut short after the answer was stored. -/
def torn (c : OneEntryCache κ ν) (v : ν) : OneEntryCache κ ν := c.map fun (k, _) => (k, v)

theorem sound_none : Sound R (none : OneEntryCache κ ν) := nofun

theorem sound_some (h : R k v) : Sound R (some (k, v) : OneEntryCache κ ν) := by
  rintro _ _ ⟨⟩
  exact h

/-- **A hit of a sound cache is a right answer.** -/
theorem Sound.of_hit [DecidableEq κ] (h : Sound R c) (hhit : c.hit k = some v) : R k v := by
  rcases c with _ | ⟨k', w⟩
  · exact nomatch hhit
  · by_cases hk : k' = k
    · rw [hit, if_pos hk, Option.some.injEq] at hhit
      exact hk ▸ hhit ▸ h k' w rfl
    · rw [hit, if_neg hk] at hhit
      exact nomatch hhit

end OneEntryCache

end CelWasm
