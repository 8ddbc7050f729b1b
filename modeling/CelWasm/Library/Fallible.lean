import Mathlib.Data.List.Forall2
import Mathlib.Tactic.TypeStar

/-!
# Library/Fallible — computations that give a result or an error

When a sequence of computations succeeds: each of them does, and what it gives is what the next one
is asked with. Over a list, a check succeeds exactly when it does on every element, and a run of steps
keeps what each step keeps.
-/

namespace CelWasm

universe u

variable {ε : Type*}

/-- **The rule of a sequence.** -/
theorem bind_eq_ok_iff {α β : Type u} {x : Except ε α} {f : α → Except ε β} {b : β} :
    x >>= f = .ok b ↔ ∃ a, x = .ok a ∧ f a = .ok b := by
  cases x with
  | error e => exact iff_of_false (fun h => nomatch h) fun ⟨_, h, _⟩ => nomatch h
  | ok a => exact ⟨fun h => ⟨a, rfl, h⟩, fun ⟨_, ha, hb⟩ => Except.ok.inj ha ▸ hb⟩

/-- A sequence fails where one of its parts does. -/
theorem bind_eq_error_iff {α β : Type u} {x : Except ε α} {f : α → Except ε β} {e : ε} :
    x >>= f = .error e ↔ x = .error e ∨ ∃ a, x = .ok a ∧ f a = .error e := by
  cases x with
  | error e' =>
    refine ⟨fun h => .inl ?_, ?_⟩
    · exact congrArg _ (Except.error.inj h)
    · rintro (h | ⟨_, h, _⟩)
      · exact congrArg _ (Except.error.inj h)
      · exact nomatch h
  | ok a =>
    refine ⟨fun h => .inr ⟨a, rfl, h⟩, ?_⟩
    rintro (h | ⟨_, ha, h⟩)
    · exact nomatch h
    · exact Except.ok.inj ha ▸ h

/-- **A check of a list** is the check of its elements. -/
theorem forM_eq_ok_iff {α : Type*} {check : α → Except ε Unit} {xs : List α} :
    xs.forM check = .ok () ↔ ∀ x ∈ xs, check x = .ok () := by
  induction xs with
  | nil => exact iff_of_true rfl fun _ h => absurd h List.not_mem_nil
  | cons x xs ih =>
    change (check x >>= fun _ => xs.forM check) = _ ↔ _
    rw [bind_eq_ok_iff, List.forall_mem_cons, ← ih]
    exact ⟨fun ⟨_, hx, hxs⟩ => ⟨hx, hxs⟩, fun ⟨hx, hxs⟩ => ⟨_, hx, hxs⟩⟩

/-- **What a list is turned into**, element by element. -/
theorem mapM_eq_ok_iff {α : Type*} {β : Type u} {f : α → Except ε β} {xs : List α} {ys : List β} :
    xs.mapM f = .ok ys ↔ List.Forall₂ (fun x y => f x = .ok y) xs ys := by
  induction xs generalizing ys with
  | nil =>
    rw [List.mapM_nil, List.forall₂_nil_left_iff]
    exact ⟨fun h => (Except.ok.inj h).symm, fun h => h ▸ rfl⟩
  | cons x xs ih =>
    simp only [List.mapM_cons, bind_eq_ok_iff, ih]
    constructor
    · rintro ⟨y, hy, rest, hrest, h⟩
      exact Except.ok.inj h ▸ .cons hy hrest
    · rintro (_ | ⟨hy, hrest⟩)
      exact ⟨_, hy, _, hrest, rfl⟩

/-! ## Runs of steps that can fail -/

section Runs

variable {σ α : Type*} {f : σ → α → Option σ} {Inv : List α → σ → Prop} {xs : List α} {s s' : σ}

/-- **The invariant rule of a run**: what holds of the steps taken and the state holds at the end, if
each step on the way keeps it. -/
theorem foldlM_invariant
    (hstep : ∀ seen x rest t t', xs = seen ++ x :: rest → Inv seen t → f t x = some t' →
      Inv (seen ++ [x]) t') (hinit : Inv [] s) (hrun : xs.foldlM f s = some s') : Inv xs s' := by
  have hrest : ∀ (rest seen : List α) (t : σ), xs = seen ++ rest → Inv seen t →
      rest.foldlM f t = some s' → Inv xs s' := by
    intro rest
    induction rest with
    | nil =>
      intro seen t hxs ht hrun
      obtain rfl := Option.some.inj hrun
      rwa [hxs, List.append_nil]
    | cons x rest ih =>
      intro seen t hxs ht hrun
      rw [List.foldlM_cons] at hrun
      obtain ⟨t', hx, hrun⟩ := Option.bind_eq_some_iff.mp hrun
      exact ih (seen ++ [x]) t' (by rw [hxs, List.append_assoc]; rfl) (hstep seen x rest t t' hxs ht hx)
        hrun
  exact hrest xs [] s rfl hinit hrun

/-- **A run succeeds** if each step on the way does. -/
theorem foldlM_total
    (hstep : ∀ seen x rest t, xs = seen ++ x :: rest → Inv seen t →
      ∃ t', f t x = some t' ∧ Inv (seen ++ [x]) t') (hinit : Inv [] s) :
    ∃ s', xs.foldlM f s = some s' ∧ Inv xs s' := by
  have hrest : ∀ (rest seen : List α) (t : σ), xs = seen ++ rest → Inv seen t →
      ∃ s', rest.foldlM f t = some s' ∧ Inv xs s' := by
    intro rest
    induction rest with
    | nil => exact fun seen t hxs ht => ⟨t, rfl, by rwa [hxs, List.append_nil]⟩
    | cons x rest ih =>
      intro seen t hxs ht
      obtain ⟨t', hx, ht'⟩ := hstep seen x rest t hxs ht
      obtain ⟨s', hrun, hs'⟩ := ih (seen ++ [x]) t' (by rw [hxs, List.append_assoc]; rfl) ht'
      exact ⟨s', by rw [List.foldlM_cons, hx]; exact hrun, hs'⟩
  exact hrest xs [] s rfl hinit

end Runs

end CelWasm
