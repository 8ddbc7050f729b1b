import Mathlib.Data.List.TakeWhile
import Mathlib.Data.Nat.Notation

/-!
# Library/BoundedScan — scanners over a buffer

A scanner reads a buffer by positions, one byte at a time, and moves its position on. A read past the
end is a fault, and so is a loop that does not end; neither is an answer. `Leaves` ties a position to
what is left of the text from it on, so that a scan is described as what it takes off a text.
-/

namespace CelWasm

/-- What goes wrong in a scan. -/
inductive ScanFault
  | outOfBounds
  | endless

/-- A scan of a buffer. -/
abbrev Scan := Except ScanFault

/-- `p[i]`. -/
def readAt (p : List UInt8) (i : ℕ) : Scan UInt8 :=
  match p[i]? with
  | some b => .ok b
  | none => .error .outOfBounds

/-- **A loop over the bytes of a class**, for `left` times around at most: what is made of them,
whether there was one, and where they end. -/
def scanWhile {σ : Type} (p : List UInt8) (keep : UInt8 → Bool) (step : σ → UInt8 → σ) :
    ℕ → ℕ → σ → Bool → Scan (σ × Bool × ℕ)
  | 0, _, _, _ => .error .endless
  | left + 1, i, acc, saw =>
    if i < p.length then do
      let b ← readAt p i
      if keep b then scanWhile p keep step left (i + 1) (step acc b) true
      else return (acc, saw, i)
    else return (acc, saw, i)

/-- A position leaves a text. -/
structure Leaves (p : List UInt8) (i : ℕ) (text : List UInt8) : Prop where
  le : i ≤ p.length
  drop : p.drop i = text

section Leaves

variable {p text : List UInt8} {i : ℕ} {b : UInt8}

theorem leaves_zero (p : List UInt8) : Leaves p 0 p := ⟨Nat.zero_le _, rfl⟩

theorem Leaves.length (h : Leaves p i text) : p.length = i + text.length := by
  have hle := h.le
  rw [← h.drop, List.length_drop]
  omega

theorem Leaves.eq_length_iff (h : Leaves p i text) : i = p.length ↔ text = [] := by
  rw [h.length, ← List.length_eq_zero_iff]
  omega

theorem Leaves.lt (h : Leaves p i (b :: text)) : i < p.length := by
  rw [h.length, List.length_cons]
  omega

theorem Leaves.readAt (h : Leaves p i (b :: text)) : readAt p i = .ok b := by
  have hget : p[i]? = some b := by rw [← List.head?_drop, h.drop, List.head?_cons]
  rw [CelWasm.readAt, hget]

theorem Leaves.tail (h : Leaves p i (b :: text)) : Leaves p (i + 1) text := by
  refine ⟨h.lt, ?_⟩
  rw [← List.drop_drop, h.drop, List.drop_one, List.tail_cons]

/-- **A loop takes the bytes of its class off the text**, and ends. -/
theorem Leaves.scanWhile {σ : Type} {keep : UInt8 → Bool} {step : σ → UInt8 → σ} {left : ℕ}
    (h : Leaves p i text) (hleft : text.length < left) (acc : σ) (saw : Bool) :
    ∃ j, scanWhile p keep step left i acc saw
        = .ok ((text.takeWhile keep).foldl step acc, saw || !(text.takeWhile keep).isEmpty, j) ∧
      Leaves p j (text.dropWhile keep) := by
  induction left generalizing i text acc saw with
  | zero => exact absurd hleft (Nat.not_lt_zero _)
  | succ left ih =>
    rw [CelWasm.scanWhile]
    rcases text with _ | ⟨b, text⟩
    · rw [if_neg (not_lt.mpr (h.eq_length_iff.mpr rfl).ge)]
      exact ⟨i, by simp [pure, Except.pure], h⟩
    · rw [if_pos h.lt, h.readAt]
      simp only [bind, Except.bind]
      by_cases hkeep : keep b = true
      · obtain ⟨j, hrun, hrest⟩ :=
          ih h.tail (Nat.lt_of_succ_lt_succ hleft) (step acc b) true
        refine ⟨j, ?_, ?_⟩
        · rw [if_pos hkeep, hrun, List.takeWhile_cons_of_pos hkeep]
          simp
        · rwa [List.dropWhile_cons_of_pos hkeep]
      · refine ⟨i, ?_, ?_⟩
        · rw [if_neg hkeep, List.takeWhile_cons_of_neg hkeep]
          simp [pure, Except.pure]
        · rwa [List.dropWhile_cons_of_neg hkeep]

end Leaves

/-- **A run that stops where its class does** is the whole run. -/
theorem run_append {α : Type} {keep : α → Bool} {run rest : List α} (hrun : ∀ b ∈ run, keep b = true)
    (hrest : ∀ b ∈ rest.head?, ¬ keep b = true) :
    (run ++ rest).takeWhile keep = run ∧ (run ++ rest).dropWhile keep = rest := by
  rw [List.takeWhile_append_of_pos hrun, List.dropWhile_append_of_pos hrun]
  rcases rest with _ | ⟨b, rest⟩
  · exact ⟨List.append_nil run, rfl⟩
  · have hb := hrest b rfl
    rw [List.takeWhile_cons_of_neg hb, List.dropWhile_cons_of_neg hb]
    exact ⟨List.append_nil run, rfl⟩

end CelWasm
