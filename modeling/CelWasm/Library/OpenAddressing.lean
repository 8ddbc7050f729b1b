import Mathlib.Data.Nat.Notation
import Mathlib.Data.Finset.Card
import Mathlib.Tactic.Tauto

/-!
# Library/OpenAddressing — searching a table group by group

A table holds an entry or nothing in each slot. A search walks a sequence of groups of slots: it
stops at a group that holds an entry it is looking for, or else at the first group with an empty
slot. `Placed` is the invariant that makes stopping at an empty slot honest — each entry sits in a
group of its own walk, and no earlier group of that walk has room — and filling the slot a failed
search stops at preserves it.
-/

namespace CelWasm

namespace OpenAddressing

/-- How a search ends: at an entry, or at a slot with nothing in it. -/
inductive Probe (ε : Type)
  | hit (entry : ε)
  | vacant (slot : ℕ)
  deriving DecidableEq, Repr

variable {ε : Type} {table : ℕ → Option ε} {same : ε → Prop}

/-- What one look at a group of slots may answer. -/
def Answers (table : ℕ → Option ε) (same : ε → Prop) (group : Set ℕ) : Option (Probe ε) → Prop
  | some (.hit e) => same e ∧ ∃ s ∈ group, table s = some e
  | some (.vacant s) => s ∈ group ∧ table s = none ∧ ∀ s ∈ group, ∀ e, table s = some e → ¬ same e
  | none => ∀ s ∈ group, ∃ e, table s = some e ∧ ¬ same e

/-- Look at group after group until one answers. -/
def walk (look : ℕ → Option (Probe ε)) : ℕ → ℕ → Option (Probe ε)
  | 0, _ => none
  | fuel + 1, t =>
    match look t with
    | some r => some r
    | none => walk look fuel (t + 1)

section Walk

variable {group : ℕ → Set ℕ} {look : ℕ → Option (Probe ε)}

/-- A walk that stops does so at the first group that answers. -/
theorem walk_eq_some {r : Probe ε} : ∀ {fuel t : ℕ}, walk look fuel t = some r →
    ∃ u, t ≤ u ∧ look u = some r ∧ ∀ v, t ≤ v → v < u → look v = none
  | 0, _, h => by simp [walk] at h
  | fuel + 1, t, h => by
    rw [walk] at h
    split at h
    · next r' hr =>
      obtain rfl : r' = r := Option.some.inj h
      exact ⟨t, le_rfl, hr, fun v hv hvt => absurd hvt (not_lt.mpr hv)⟩
    · next hr =>
      obtain ⟨u, hu, hlook, hbefore⟩ := walk_eq_some h
      refine ⟨u, by omega, hlook, fun v hv hvu => ?_⟩
      rcases Nat.eq_or_lt_of_le hv with rfl | hlt
      · exact hr
      · exact hbefore v hlt hvu

/-- **A walk with fuel for a group that answers stops.** -/
theorem walk_ne_none {u : ℕ} (hu : look u ≠ none) : ∀ {fuel t : ℕ}, t ≤ u → u < t + fuel →
    walk look fuel t ≠ none
  | 0, _, _, _ => by omega
  | fuel + 1, t, htu, hut => by
    rw [walk]
    split
    · exact Option.some_ne_none _
    · next hr =>
      have hne : t ≠ u := fun h => hu (h ▸ hr)
      exact walk_ne_none hu (by omega) (by omega)

/-- Whatever a walk of honest looks finds, it is an entry of the table that was looked for. -/
theorem walk_hit (hlook : ∀ t, Answers table same (group t) (look t)) {fuel t : ℕ} {e : ε}
    (h : walk look fuel t = some (.hit e)) : same e ∧ ∃ s, table s = some e := by
  obtain ⟨u, -, hu, -⟩ := walk_eq_some h
  have := hlook u
  rw [hu] at this
  exact ⟨this.1, this.2.imp fun s hs => hs.2⟩

/-- Where a walk of honest looks finds room, no group up to there holds what it looks for, and only
the last has room. -/
theorem walk_vacant (hlook : ∀ t, Answers table same (group t) (look t)) {fuel : ℕ} {s : ℕ}
    (h : walk look fuel 0 = some (.vacant s)) :
    table s = none ∧ ∃ t, s ∈ group t ∧ (∀ u < t, ∀ s' ∈ group u, table s' ≠ none) ∧
      ∀ u ≤ t, ∀ s' ∈ group u, ∀ e, table s' = some e → ¬ same e := by
  obtain ⟨t, -, ht, hbefore⟩ := walk_eq_some h
  have hlast := hlook t
  rw [ht] at hlast
  refine ⟨hlast.2.1, t, hlast.1, fun u hu s' hs' => ?_, fun u hu s' hs' e he => ?_⟩
  · have := hlook u
    rw [hbefore u (Nat.zero_le u) hu] at this
    obtain ⟨e, he, -⟩ := this s' hs'
    exact he ▸ Option.some_ne_none e
  · rcases Nat.eq_or_lt_of_le hu with rfl | hlt
    · exact hlast.2.2 s' hs' e he
    · have := hlook u
      rw [hbefore u (Nat.zero_le u) hlt] at this
      obtain ⟨e', he', hne⟩ := this s' hs'
      obtain rfl : e' = e := Option.some.inj (he'.symm.trans he)
      exact hne

end Walk

/-! ## The table invariant -/

/-- **The placement invariant**: entry `e` sits in a group of its own walk, and no earlier group of
that walk has room. -/
def Placed (table : ℕ → Option ε) (group : ε → ℕ → Set ℕ) (e : ε) : Prop :=
  ∃ t, (∃ s ∈ group e t, table s = some e) ∧ ∀ u < t, ∀ s ∈ group e u, table s ≠ none

/-- A search along the walk of a placed entry cannot find room without meeting the entry. -/
theorem not_vacant_of_placed {group : ε → ℕ → Set ℕ} {look : ℕ → Option (Probe ε)} {e : ε}
    (hlook : ∀ t, Answers table same (group e t) (look t)) (he : Placed table group e)
    (hsame : same e) {fuel s : ℕ} : walk look fuel 0 ≠ some (.vacant s) := by
  intro h
  obtain ⟨hs, t, hst, hfull, hno⟩ := walk_vacant hlook h
  obtain ⟨t', ⟨s', hs', hes'⟩, hfull'⟩ := he
  rcases Nat.lt_or_ge t t' with hlt | hge
  · exact hfull' t hlt s hst hs
  · exact hno t' hge s' hs' e hes' hsame

/-- Filling an empty slot keeps every placed entry placed. -/
theorem Placed.update {group : ε → ℕ → Set ℕ} {e f : ε} {s : ℕ} (h : Placed table group e)
    (hs : table s = none) : Placed (Function.update table s (some f)) group e := by
  obtain ⟨t, ⟨s', hs', hes'⟩, hfull⟩ := h
  have hne : s' ≠ s := fun heq => Option.some_ne_none e (hes'.symm.trans (heq ▸ hs))
  refine ⟨t, ⟨s', hs', by rw [Function.update_of_ne hne, hes']⟩, fun u hu s'' hs'' => ?_⟩
  by_cases heq : s'' = s
  · rw [heq, Function.update_self]
    exact Option.some_ne_none f
  · rw [Function.update_of_ne heq]
    exact hfull u hu s'' hs''

/-- **The entry a failed search makes room for is placed.** -/
theorem placed_update_self {group : ε → ℕ → Set ℕ} {look : ℕ → Option (Probe ε)} {e : ε}
    (hlook : ∀ t, Answers table same (group e t) (look t)) {fuel s : ℕ}
    (h : walk look fuel 0 = some (.vacant s)) :
    Placed (Function.update table s (some e)) group e := by
  obtain ⟨hs, t, hst, hfull, -⟩ := walk_vacant hlook h
  refine ⟨t, ⟨s, hst, Function.update_self ..⟩, fun u hu s' hs' => ?_⟩
  have hne : s' ≠ s := fun heq => hfull u hu s' hs' (heq ▸ hs)
  rw [Function.update_of_ne hne]
  exact hfull u hu s' hs'

end OpenAddressing

end CelWasm
