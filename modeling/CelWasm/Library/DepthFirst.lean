import Mathlib.Algebra.BigOperators.Group.List.Basic
import Mathlib.Algebra.Order.Ring.Nat

/-!
# Library/DepthFirst — how deep a tree is, by a list of work

A tree is given by the children of its nodes. Its depth is measured without recursion: a list of work
holds nodes with the levels they stand on, a round takes the first and puts its children in front.

    (n, d) :: work   ──▸   … (c₂, d+1) :: (c₁, d+1) :: work,   deepest max d

The measure ends after one round for each node, and what it gives is the least bound on the depth of
the trees (`measureFrom_eq`).
-/

namespace CelWasm

variable {N : Type} {children : N → List N}

/-- **A tree of at most so many levels.** -/
inductive WithinDepth (children : N → List N) : ℕ → N → Prop
  | node {k : ℕ} {n : N} (h : ∀ c ∈ children n, WithinDepth children k c) :
      WithinDepth children (k + 1) n

theorem not_withinDepth_zero (n : N) : ¬ WithinDepth children 0 n := by
  rintro ⟨⟩

theorem withinDepth_succ_iff {k : ℕ} {n : N} :
    WithinDepth children (k + 1) n ↔ ∀ c ∈ children n, WithinDepth children k c :=
  ⟨fun h => by cases h with | node h => exact h, .node⟩

/-- A node on the level `d`, under a bound on the levels. -/
theorem withinDepth_sub_iff {b d : ℕ} {n : N} :
    WithinDepth children (b + 1 - d) n ↔
      d ≤ b ∧ ∀ c ∈ children n, WithinDepth children (b + 1 - (d + 1)) c := by
  obtain h | h := Nat.lt_or_ge b d
  · rw [Nat.sub_eq_zero_of_le h]
    exact iff_of_false (not_withinDepth_zero n) fun hle => absurd hle.1 (Nat.not_le_of_lt h)
  · have hsub : b + 1 - d = b + 1 - (d + 1) + 1 := by omega
    rw [hsub, withinDepth_succ_iff]
    exact (and_iff_right h).symm

/-- The children of a node on top of the work, the last one first. -/
def pushChildren (children : N → List N) (n : N) (depth : ℕ) (work : List (N × ℕ)) :
    List (N × ℕ) :=
  ((children n).map fun c => (c, depth)).reverse ++ work

/-- **The loop**: the deepest level of the nodes taken so far, while there is work. -/
def measureFrom (children : N → List N) : ℕ → List (N × ℕ) → ℕ → Option ℕ
  | _, [], deepest => some deepest
  | 0, _ :: _, _ => none
  | rounds + 1, (n, depth) :: work, deepest =>
    measureFrom children rounds (pushChildren children n (depth + 1) work) (max deepest depth)

section

variable {size : N → ℕ} {rounds deepest depth b : ℕ} {n : N} {work : List (N × ℕ)}

/-- The nodes there are in the work. -/
def workSize (size : N → ℕ) (work : List (N × ℕ)) : ℕ := (work.map fun f => size f.1).sum

theorem workSize_cons : workSize size ((n, depth) :: work) = size n + workSize size work := rfl

theorem workSize_pushChildren :
    workSize size (pushChildren children n depth work)
      = ((children n).map size).sum + workSize size work := by
  rw [workSize, pushChildren, List.map_append, List.sum_append, List.map_reverse, List.sum_reverse,
    List.map_map]
  rfl

/-- All of the work within a bound on the levels. -/
def WorkWithin (children : N → List N) (b : ℕ) (work : List (N × ℕ)) : Prop :=
  ∀ f ∈ work, WithinDepth children (b + 1 - f.2) f.1

/-- **A round does not change which bounds hold.** -/
theorem workWithin_cons_iff :
    WorkWithin children b ((n, depth) :: work) ↔
      depth ≤ b ∧ WorkWithin children b (pushChildren children n (depth + 1) work) := by
  rw [WorkWithin, List.forall_mem_cons, withinDepth_sub_iff, and_assoc]
  refine and_congr_right fun _ => ?_
  simp only [WorkWithin, pushChildren, List.mem_append, List.mem_reverse, List.mem_map, or_imp,
    forall_and, forall_exists_index, and_imp]
  refine and_congr_left fun _ => ⟨?_, fun h c hc => h _ c hc rfl⟩
  rintro h _ c hc rfl
  exact h c hc

/-- **The measure ends**, and gives the least bound on the levels. -/
theorem measureFrom_eq (hsize : ∀ n, size n = ((children n).map size).sum + 1)
    (hrounds : workSize size work ≤ rounds) :
    ∃ d, measureFrom children rounds work deepest = some d ∧
      ∀ b, d ≤ b ↔ deepest ≤ b ∧ WorkWithin children b work := by
  induction rounds generalizing work deepest with
  | zero =>
    cases work with
    | nil =>
      exact ⟨deepest, rfl, fun b => (and_iff_left fun _ h => absurd h List.not_mem_nil).symm⟩
    | cons f work =>
      obtain ⟨n, depth⟩ := f
      rw [workSize_cons, hsize] at hrounds
      omega
  | succ rounds ih =>
    cases work with
    | nil =>
      exact ⟨deepest, rfl, fun b => (and_iff_left fun _ h => absurd h List.not_mem_nil).symm⟩
    | cons f work =>
      obtain ⟨n, depth⟩ := f
      have hless : workSize size (pushChildren children n (depth + 1) work) ≤ rounds := by
        rw [workSize_cons, hsize] at hrounds
        rw [workSize_pushChildren]
        omega
      obtain ⟨d, hd, hbounds⟩ := @ih (max deepest depth) _ hless
      refine ⟨d, hd, fun b => ?_⟩
      rw [hbounds, workWithin_cons_iff, max_le_iff, and_assoc]

/-- **The depth of one tree.** -/
theorem measureFrom_singleton (hsize : ∀ n, size n = ((children n).map size).sum + 1) (n : N) :
    ∃ d, measureFrom children (size n) [(n, 1)] 1 = some d ∧
      ∀ b, d ≤ b ↔ WithinDepth children b n := by
  obtain ⟨d, hd, hbounds⟩ := @measureFrom_eq N children size (size n) 1 [(n, 1)] hsize le_rfl
  refine ⟨d, hd, fun b => (hbounds b).trans ?_⟩
  rw [WorkWithin, List.forall_mem_singleton]
  refine ⟨fun h => h.2, fun h => ⟨?_, h⟩⟩
  exact (withinDepth_sub_iff.mp h).1

end

end CelWasm
