import Mathlib.Logic.Function.Basic
import Mathlib.Tactic.Choose

/-!
# Library/CellProgram — programs over cells, and what they may do to the cell of their result

A program over cells loads and stores, and between that does what the monad underneath does. An
operation with a destination is a family of programs, one for each cell its result may go to. It
*computes* a function of the cells as they were before the call: it comes to that value, and then
stores it. Which cell the destination is, an operand or one of its own, makes no difference to the
value (`WritesLast.result_eq`).

    loads … loads ── the value ──▸ store       (`Computes`)
    loads ── perhaps a value ──▸ store, done   (`Settles`, the guard of what follows)
-/

namespace CelWasm

/-- A program over the cells `κ`, holding values of `ν`, on top of `m`. -/
abbrev CellProg (κ ν : Type) (m : Type → Type) := StateT (κ → ν) m

namespace CellProg

variable {κ ν α β : Type} {m : Type → Type} [Monad m]

/-- The value of a cell. -/
def load (s : κ) : CellProg κ ν m ν := fun cells => pure (cells s, cells)

/-! ## Reading -/

/-- **A program only reads**: it leaves the cells alone, and comes to what `P` makes of them. -/
def Reads (p : CellProg κ ν m α) (P : (κ → ν) → m α) : Prop :=
  ∀ cells, p.run cells = P cells >>= fun a => pure (a, cells)

theorem Reads.congr {p : CellProg κ ν m α} {P Q : (κ → ν) → m α} (hp : Reads p P)
    (h : ∀ cells, P cells = Q cells) : Reads p Q :=
  fun cells => h cells ▸ hp cells

theorem Reads.ite {c : Prop} [Decidable c] {p q : CellProg κ ν m α} {P Q : (κ → ν) → m α}
    (hp : Reads p P) (hq : Reads q Q) :
    Reads (if c then p else q) fun cells => if c then P cells else Q cells := by
  intro cells
  split
  · exact hp cells
  · exact hq cells

theorem reads_lift (x : m α) : Reads (liftM x : CellProg κ ν m α) fun _ => x :=
  fun _ => rfl

section Lawful

variable [LawfulMonad m]

theorem reads_load (s : κ) : Reads (load s : CellProg κ ν m ν) fun cells => pure (cells s) :=
  fun cells => (pure_bind (cells s) fun v => pure (v, cells)).symm

theorem reads_pure (a : α) : Reads (pure a : CellProg κ ν m α) fun _ => pure a :=
  fun cells => (pure_bind a fun a => pure (a, cells)).symm

theorem Reads.bind {p : CellProg κ ν m α} {q : α → CellProg κ ν m β} {P : (κ → ν) → m α}
    {Q : α → (κ → ν) → m β} (hp : Reads p P) (hq : ∀ a, Reads (q a) (Q a)) :
    Reads (p >>= q) fun cells => P cells >>= fun a => Q a cells := by
  intro cells
  rw [StateT.run_bind, hp cells, bind_assoc, bind_assoc]
  exact bind_congr fun a => (pure_bind _ _).trans (hq a cells)

end Lawful

/-! ## Writing -/

section Writing

variable [DecidableEq κ]

/-- A value goes to a cell. -/
def store (s : κ) (v : ν) : CellProg κ ν m Unit :=
  fun cells => pure ((), Function.update cells s v)

/-- **An operation computes `K`**: of the cells before the call, into its destination and no other
cell. -/
def Computes (k : κ → CellProg κ ν m Unit) (K : (κ → ν) → m ν) : Prop :=
  ∀ out cells, (k out).run cells = K cells >>= fun v => pure ((), Function.update cells out v)

/-- An operation that computes something **writes last**. -/
def WritesLast (k : κ → CellProg κ ν m Unit) : Prop := ∃ K, Computes k K

theorem Computes.writesLast {k : κ → CellProg κ ν m Unit} {K : (κ → ν) → m ν}
    (hk : Computes k K) : WritesLast k := ⟨K, hk⟩

/-- **An operation revises its destination**: it reads no other cell. -/
def Revises (k : κ → CellProg κ ν m Unit) (K : ν → m ν) : Prop :=
  ∀ out cells, (k out).run cells
    = K (cells out) >>= fun v => pure ((), Function.update cells out v)

/-- The cells after a guard, and whether it has settled the result. -/
def settled (out : κ) (cells : κ → ν) : Option ν → Bool × (κ → ν)
  | some v => (true, Function.update cells out v)
  | none => (false, cells)

/-- **A guard settles with `G`**: it writes the result and says so, or does nothing. -/
def Settles (g : κ → CellProg κ ν m Bool) (G : (κ → ν) → m (Option ν)) : Prop :=
  ∀ out cells, (g out).run cells = G cells >>= fun v => pure (settled out cells v)

theorem Computes.congr {k : κ → CellProg κ ν m Unit} {K L : (κ → ν) → m ν} (hk : Computes k K)
    (h : ∀ cells, K cells = L cells) : Computes k L :=
  fun out cells => h cells ▸ hk out cells

theorem Settles.congr {g : κ → CellProg κ ν m Bool} {G H : (κ → ν) → m (Option ν)}
    (hg : Settles g G) (h : ∀ cells, G cells = H cells) : Settles g H :=
  fun out cells => h cells ▸ hg out cells

theorem Computes.ite {c : Prop} [Decidable c] {k l : κ → CellProg κ ν m Unit}
    {K L : (κ → ν) → m ν} (hk : Computes k K) (hl : Computes l L) :
    Computes (fun out => if c then k out else l out)
      fun cells => if c then K cells else L cells := by
  intro out cells
  split
  · exact hk out cells
  · exact hl out cells

theorem WritesLast.ite {c : Prop} [Decidable c] {k l : κ → CellProg κ ν m Unit}
    (hk : WritesLast k) (hl : WritesLast l) :
    WritesLast fun out => if c then k out else l out := by
  obtain ⟨K, hK⟩ := hk
  obtain ⟨L, hL⟩ := hl
  exact (Computes.ite hK hL).writesLast

theorem Settles.ite {c : Prop} [Decidable c] {g h : κ → CellProg κ ν m Bool}
    {G H : (κ → ν) → m (Option ν)} (hg : Settles g G) (hh : Settles h H) :
    Settles (fun out => if c then g out else h out)
      fun cells => if c then G cells else H cells := by
  intro out cells
  split
  · exact hg out cells
  · exact hh out cells

variable [LawfulMonad m]

/-! ### Operations -/

theorem computes_store (v : ν) :
    Computes (fun out => (store out v : CellProg κ ν m Unit)) fun _ => pure v :=
  fun out cells => (pure_bind v fun v => pure ((), Function.update cells out v)).symm

/-- What is read first is read of the cells before the call. -/
theorem Computes.read {p : CellProg κ ν m α} {k : α → κ → CellProg κ ν m Unit}
    {P : (κ → ν) → m α} {K : α → (κ → ν) → m ν} (hp : Reads p P) (hk : ∀ a, Computes (k a) (K a)) :
    Computes (fun out => p >>= fun a => k a out) fun cells => P cells >>= fun a => K a cells := by
  intro out cells
  rw [StateT.run_bind, hp cells, bind_assoc, bind_assoc]
  exact bind_congr fun a => (pure_bind _ _).trans (hk a out cells)

theorem WritesLast.read {p : CellProg κ ν m α} {k : α → κ → CellProg κ ν m Unit}
    {P : (κ → ν) → m α} (hp : Reads p P) (hk : ∀ a, WritesLast (k a)) :
    WritesLast fun out => p >>= fun a => k a out := by
  choose K hK using hk
  exact (Computes.read hp hK).writesLast

/-- **After a guard**: if it has not settled the result, it has not written it either. -/
theorem Computes.unless {g : κ → CellProg κ ν m Bool} {k : κ → CellProg κ ν m Unit}
    {G : (κ → ν) → m (Option ν)} {K : (κ → ν) → m ν} (hg : Settles g G) (hk : Computes k K) :
    Computes (fun out => g out >>= fun done => if done then pure () else k out)
      fun cells => G cells >>= fun v => v.elim (K cells) pure := by
  intro out cells
  rw [StateT.run_bind, hg out cells, bind_assoc, bind_assoc]
  refine bind_congr fun w => ?_
  rw [pure_bind]
  cases w with
  | none => exact hk out cells
  | some v => exact (pure_bind v fun v => pure ((), Function.update cells out v)).symm

theorem WritesLast.unless {g : κ → CellProg κ ν m Bool} {k : κ → CellProg κ ν m Unit}
    {G : (κ → ν) → m (Option ν)} (hg : Settles g G) (hk : WritesLast k) :
    WritesLast fun out => g out >>= fun done => if done then pure () else k out := by
  obtain ⟨K, hK⟩ := hk
  exact (Computes.unless hg hK).writesLast

/-- An operation may look at its own result and write again. -/
theorem Computes.revise {k l : κ → CellProg κ ν m Unit} {K : (κ → ν) → m ν} {L : ν → m ν}
    (hk : Computes k K) (hl : Revises l L) :
    Computes (fun out => k out >>= fun _ => l out) fun cells => K cells >>= L := by
  intro out cells
  rw [StateT.run_bind, hk out cells, bind_assoc, bind_assoc]
  refine bind_congr fun v => ?_
  rw [pure_bind, hl]
  simp only [Function.update_self, Function.update_idem]

/-! ### Guards -/

theorem settles_false :
    Settles (fun _ : κ => (pure false : CellProg κ ν m Bool)) fun _ => pure none :=
  fun out cells => (pure_bind none fun v => pure (settled out cells v)).symm

/-- An operation, and `return true`. -/
theorem Settles.done {k : κ → CellProg κ ν m Unit} {K : (κ → ν) → m ν} (hk : Computes k K) :
    Settles (fun out => k out >>= fun _ => pure true)
      fun cells => K cells >>= fun v => pure (some v) := by
  intro out cells
  rw [StateT.run_bind, hk out cells, bind_assoc, bind_assoc]
  refine bind_congr fun v => ?_
  rw [pure_bind, pure_bind]
  rfl

theorem Settles.read {p : CellProg κ ν m α} {g : α → κ → CellProg κ ν m Bool}
    {P : (κ → ν) → m α} {G : α → (κ → ν) → m (Option ν)} (hp : Reads p P)
    (hg : ∀ a, Settles (g a) (G a)) :
    Settles (fun out => p >>= fun a => g a out) fun cells => P cells >>= fun a => G a cells := by
  intro out cells
  rw [StateT.run_bind, hp cells, bind_assoc, bind_assoc]
  exact bind_congr fun a => (pure_bind _ _).trans (hg a out cells)

/-- **Two guards in a row.** -/
theorem Settles.orElse {g h : κ → CellProg κ ν m Bool} {G H : (κ → ν) → m (Option ν)}
    (hg : Settles g G) (hh : Settles h H) :
    Settles (fun out => g out >>= fun done => if done then pure true else h out)
      fun cells => G cells >>= fun v => v.elim (H cells) fun v => pure (some v) := by
  intro out cells
  rw [StateT.run_bind, hg out cells, bind_assoc, bind_assoc]
  refine bind_congr fun w => ?_
  rw [pure_bind]
  cases w with
  | none => exact hh out cells
  | some v => exact (pure_bind (some v) fun v => pure (settled out cells v)).symm

/-! ### The destination -/

/-- What a call leaves in its destination. -/
def result (k : κ → CellProg κ ν m Unit) (out : κ) (cells : κ → ν) : m ν :=
  (fun r => r.2 out) <$> (k out).run cells

theorem Computes.result_eq {k : κ → CellProg κ ν m Unit} {K : (κ → ν) → m ν} (hk : Computes k K)
    (out : κ) (cells : κ → ν) : result k out cells = K cells := by
  rw [result, hk out cells, map_bind]
  simp only [map_pure, Function.update_self, bind_pure]

/-- **The destination may be any cell.** -/
theorem WritesLast.result_eq {k : κ → CellProg κ ν m Unit} (hk : WritesLast k) (out out' : κ)
    (cells : κ → ν) : result k out cells = result k out' cells := by
  obtain ⟨K, hK⟩ := hk
  rw [hK.result_eq, hK.result_eq]

end Writing

end CellProg

end CelWasm
