import CelWasm.Library.ProgramLogic

/-!
# Library/CarriedState — programs that leave a state however they end

A program may carry a state to its end, be it a return or a stop, so that what comes after a stop finds
the state the program left. Forgetting the state gives the program back; a run is split into what the
program came to and what it left.
-/

namespace CelWasm

/-- What a run came to, and the state it left. -/
def splitState {ε α σ : Type} : Except (ε × σ) (α × σ) → Except ε α × σ
  | .ok (a, s) => (.ok a, s)
  | .error (e, s) => (.error e, s)

namespace Prog

variable {ε α β σ : Type}

/-- The program, with a state at every end. -/
def carrying (s : σ) : Prog ε α → Prog (ε × σ) (α × σ)
  | ret a => ret (a, s)
  | stop e => stop (e, s)
  | ask n next => ask n fun b => (next b).carrying s

/-- The program without the state. -/
def forget : Prog (ε × σ) (α × σ) → Prog ε α
  | ret r => ret r.1
  | stop e => stop e.1
  | ask n next => ask n fun b => (next b).forget

@[simp] theorem forget_pure (a : α) (s : σ) : (pure (a, s) : Prog (ε × σ) (α × σ)).forget = pure a := rfl

@[simp] theorem forget_carrying (s : σ) (p : Prog ε α) : (p.carrying s).forget = p := by
  induction p with
  | ret a => rfl
  | stop e => rfl
  | ask n next ih => exact congrArg (ask n) (funext ih)

/-- **What follows a program that carries a state finds it.** -/
theorem forget_carrying_bind (s : σ) (p : Prog ε α) (f : α × σ → Prog (ε × σ) (β × σ)) :
    (p.carrying s >>= f).forget = p >>= fun a => (f (a, s)).forget := by
  induction p with
  | ret a => rfl
  | stop e => rfl
  | ask n next ih => exact congrArg (ask n) (funext ih)

/-- Every end carries the state. -/
theorem meets_carrying {P : σ → Prop} {s : σ} (h : P s) (p : Prog ε α) :
    (p.carrying s).Meets (P ·.2) (P ·.2) := by
  induction p with
  | ret a => exact h
  | stop e => exact h
  | ask n next ih => exact ih

section Run

variable {answer : List ℕ → Bool} {past : List ℕ} {p : Prog (ε × σ) (α × σ)}

/-- **A run comes to what the program without the state comes to.** -/
theorem splitState_run_fst : (splitState (p.run answer past)).1 = p.forget.run answer past := by
  induction p generalizing past with
  | ret r => rfl
  | stop e => rfl
  | ask n next ih => exact ih _

/-- **What holds of the state at every end** holds of the state that a run leaves. -/
theorem Meets.splitState_run {P : σ → Prop} (h : p.Meets (P ·.2) (P ·.2)) :
    P (splitState (p.run answer past)).2 := by
  induction p generalizing past with
  | ret r => exact h
  | stop e => exact h
  | ask n next ih => exact ih _ (h _)

end Run

end Prog

end CelWasm
