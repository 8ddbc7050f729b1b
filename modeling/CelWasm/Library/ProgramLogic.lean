import CelWasm.Library.Program
import Mathlib.Data.List.Forall2

/-!
# Library/ProgramLogic — what holds at the end of every run

Two judgements on a program over an allocator. `Meets` says how every run ends, whatever is granted;
`AfterRefusal` says it of the runs in which some request was refused. The rules follow the program: a
return, a stop, a request, and a sequence, where the second program is met in every value the first
may leave. A program may also stop in one way on every refusal and on no other account: a sequence of
such programs is one again.
-/

namespace CelWasm

namespace Prog

variable {ε α β : Type} {good good' : α → Prop} {stops stops' : ε → Prop}

/-- **Every run ends well**: it returns a `good` value, or stops in one of the ways allowed. -/
def Meets (good : α → Prop) (stops : ε → Prop) : Prog ε α → Prop
  | ret a => good a
  | stop e => stops e
  | ask _ next => ∀ answer, (next answer).Meets good stops

/-- **Every run with a refusal ends well**, where what is refused first is more than nothing. -/
def AfterRefusal (good : α → Prop) (stops : ε → Prop) : Prog ε α → Prop
  | ret _ | stop _ => True
  | ask n next =>
    (n ≠ 0 → (next false).Meets good stops) ∧ (next true).AfterRefusal good stops

/-! ## Every run -/

@[simp] theorem meets_pure {a : α} : (pure a : Prog ε α).Meets good stops ↔ good a := Iff.rfl

@[simp] theorem meets_stop {e : ε} : (stop e : Prog ε α).Meets good stops ↔ stops e := Iff.rfl

theorem meets_alloc_bind {n : ℕ} {f : Bool → Prog ε α} :
    (alloc n >>= f).Meets good stops ↔ (f false).Meets good stops ∧ (f true).Meets good stops :=
  Bool.forall_bool

/-- A choice. -/
theorem meets_ite {c : Prop} [Decidable c] {x y : Prog ε α} (hx : c → x.Meets good stops)
    (hy : ¬c → y.Meets good stops) : (if c then x else y).Meets good stops := by
  split
  · exact hx ‹_›
  · exact hy ‹_›

/-- **Sequence**: the second program is met in every value the first may leave. -/
theorem meets_bind {x : Prog ε α} {f : α → Prog ε β} {good : β → Prop} :
    (x >>= f).Meets good stops ↔ x.Meets (fun a => (f a).Meets good stops) stops := by
  induction x with
  | ret a => exact Iff.rfl
  | stop e => exact Iff.rfl
  | ask n next ih => exact forall_congr' ih

/-- Consequence. -/
theorem Meets.mono {p : Prog ε α} (h : p.Meets good stops) (hgood : ∀ a, good a → good' a)
    (hstops : ∀ e, stops e → stops' e) : p.Meets good' stops' := by
  induction p with
  | ret a => exact hgood a h
  | stop e => exact hstops e h
  | ask n next ih => exact fun answer => ih answer (h answer)

/-- The second program, in what is known of the first's values. -/
theorem Meets.bind {x : Prog ε α} {f : α → Prog ε β} {good' : β → Prop} (h : x.Meets good stops)
    (hf : ∀ a, good a → (f a).Meets good' stops) : (x >>= f).Meets good' stops :=
  meets_bind.mpr (h.mono hf fun _ => id)

/-- A left fold keeps what each of its steps keeps. -/
theorem meets_foldlM {I : List α → β → Prop} {f : β → α → Prog ε β}
    (hstep : ∀ a as b, I (a :: as) b → (f b a).Meets (I as) stops) :
    ∀ (as : List α) (b : β), I as b → (as.foldlM f b).Meets (I []) stops
  | [], _, h => h
  | a :: as, b, h => by
    rw [List.foldlM_cons]
    exact (hstep a as b h).bind fun b' => meets_foldlM hstep as b'

/-- A list of programs leaves a list of values. -/
theorem meets_mapM {R : α → β → Prop} {f : α → Prog ε β} (h : ∀ a, (f a).Meets (R a) stops) :
    ∀ as : List α, (as.mapM f).Meets (List.Forall₂ R as) stops
  | [] => .nil
  | a :: as => by
    rw [List.mapM_cons]
    exact (h a).bind fun b hb => (meets_mapM h as).bind fun bs hbs => .cons hb hbs

/-- …the values that each of them leaves. -/
theorem meets_mapM_eq {f : α → Prog ε β} {g : α → β} (h : ∀ a, (f a).Meets (g a = ·) stops)
    (as : List α) : (as.mapM f).Meets (as.map g = ·) stops := by
  refine (meets_mapM h as).mono (fun bs hbs => ?_) fun _ => id
  have hmap := List.forall₂_map_left_iff.mpr hbs
  rwa [List.forall₂_eq_eq_eq] at hmap

/-- A list of programs, with memory to spare. -/
theorem granted_mapM_map {f : α → Prog ε β} {g : α → β} :
    ∀ {as : List α}, (∀ a ∈ as, (f a).granted = .ok (g a)) → (as.mapM f).granted = .ok (as.map g)
  | [], _ => rfl
  | a :: as, h => by
    rw [List.forall_mem_cons] at h
    rw [List.mapM_cons, granted_bind, h.1]
    change ((as.mapM f) >>= fun bs => pure (g a :: bs)).granted = _
    rw [granted_bind, granted_mapM_map h.2]
    rfl

/-! ## One run -/

section Run

variable {answer : List ℕ → Bool} {past : List ℕ} {p : Prog ε α}

/-- What the run under an allocator returns. -/
theorem Meets.good_of_run (h : p.Meets good stops) {a : α} (hrun : p.run answer past = .ok a) :
    good a := by
  induction p generalizing past with
  | ret b => exact Except.ok.inj hrun ▸ h
  | stop e => exact nomatch hrun
  | ask n next ih => exact ih _ (h _) hrun

/-- What a run returns. -/
theorem Meets.good_of_reaches (h : p.Meets good stops) {a : α} (hreach : p.Reaches (.ok a)) :
    good a := by
  induction p with
  | ret b =>
    cases hreach
    exact h
  | stop e => exact nomatch hreach
  | ask n next ih =>
    cases hreach with
    | ask _ _ answer hreach => exact ih answer (h answer) hreach

/-- What the run under an allocator stops with. -/
theorem Meets.stops_of_run (h : p.Meets good stops) {e : ε} (hrun : p.run answer past = .error e) :
    stops e := by
  induction p generalizing past with
  | ret b => exact nomatch hrun
  | stop e' => exact Except.error.inj hrun ▸ h
  | ask n next ih => exact ih _ (h _) hrun

/-- **Sequence in one run**: the second program need only be met in the value that the first leaves in
this run. -/
theorem stops_of_run_bind {f : α → Prog ε β} {good : β → Prop}
    (hok : ∀ a, p.run answer past = .ok a → (f a).Meets good stops)
    (hstop : ∀ e, p.run answer past = .error e → stops e) {e : ε}
    (hrun : (p >>= f).run answer past = .error e) : stops e := by
  induction p generalizing past with
  | ret a => exact (hok a rfl).stops_of_run hrun
  | stop e' => exact Except.error.inj hrun ▸ hstop e' rfl
  | ask n next ih => exact ih _ hok hstop hrun

end Run

/-! ## Runs with a refusal -/

/-- `p.Runs refused r` — a run of `p` that ends in `r` and in which blocks of these sizes were
refused. -/
inductive Runs : Prog ε α → List ℕ → Except ε α → Prop
  | ret (a : α) : Runs (ret a) [] (.ok a)
  | stop (e : ε) : Runs (stop e) [] (.error e)
  | granted (n : ℕ) (next : Bool → Prog ε α) {refused : List ℕ} {r : Except ε α}
      (h : Runs (next true) refused r) : Runs (ask n next) refused r
  | refused (n : ℕ) (next : Bool → Prog ε α) {refused : List ℕ} {r : Except ε α}
      (h : Runs (next false) refused r) : Runs (ask n next) (n :: refused) r

/-- A run ends well. -/
def EndsWell (good : α → Prop) (stops : ε → Prop) : Except ε α → Prop
  | .ok a => good a
  | .error e => stops e

theorem meets_iff {p : Prog ε α} :
    p.Meets good stops ↔ ∀ refused r, p.Runs refused r → EndsWell good stops r := by
  induction p with
  | ret a => exact ⟨fun h _ _ hrun => by cases hrun; exact h, fun h => h _ _ (.ret a)⟩
  | stop e => exact ⟨fun h _ _ hrun => by cases hrun; exact h, fun h => h _ _ (.stop e)⟩
  | ask n next ih =>
    constructor
    · intro h refused r hrun
      cases hrun with
      | granted _ _ hrun => exact (ih true).mp (h true) _ _ hrun
      | refused _ _ hrun => exact (ih false).mp (h false) _ _ hrun
    · intro h answer
      cases answer with
      | true => exact (ih true).mpr fun _ _ hrun => h _ _ (.granted n next hrun)
      | false => exact (ih false).mpr fun _ _ hrun => h _ _ (.refused n next hrun)

/-- **`AfterRefusal` is about the runs** whose first refusal is of a block. -/
theorem afterRefusal_iff {p : Prog ε α} : p.AfterRefusal good stops ↔
    ∀ n refused r, n ≠ 0 → p.Runs (n :: refused) r → EndsWell good stops r := by
  induction p with
  | ret a => exact iff_of_true trivial fun _ _ _ _ hrun => nomatch hrun
  | stop e => exact iff_of_true trivial fun _ _ _ _ hrun => nomatch hrun
  | ask n next ih =>
    constructor
    · rintro ⟨hfalse, htrue⟩ m refused r hm hrun
      cases hrun with
      | granted _ _ hrun => exact (ih true).mp htrue _ _ _ hm hrun
      | refused _ _ hrun => exact meets_iff.mp (hfalse hm) _ _ hrun
    · intro h
      exact ⟨fun hn => meets_iff.mpr fun _ _ hrun => h n _ _ hn (.refused n next hrun),
        (ih true).mpr fun m _ _ hm hrun => h m _ _ hm (.granted n next hrun)⟩

/-- The run with memory to spare is one of them. -/
theorem Meets.granted {p : Prog ε α} (h : p.Meets good stops) : EndsWell good stops p.granted := by
  induction p with
  | ret a => exact h
  | stop e => exact h
  | ask n next ih => exact ih true (h true)

theorem Meets.afterRefusal {p : Prog ε α} (h : p.Meets good stops) :
    p.AfterRefusal good stops :=
  afterRefusal_iff.mpr fun _ _ _ _ hrun => meets_iff.mp h _ _ hrun

/-- Consequence. -/
theorem AfterRefusal.mono {p : Prog ε α} (h : p.AfterRefusal good stops)
    (hgood : ∀ a, good a → good' a) : p.AfterRefusal good' stops := by
  induction p with
  | ret a => trivial
  | stop e => trivial
  | ask n next ih => exact ⟨fun hn => (h.1 hn).mono hgood fun _ => id, ih true h.2⟩

theorem afterRefusal_alloc_bind {n : ℕ} {f : Bool → Prog ε α} :
    (alloc n >>= f).AfterRefusal good stops ↔
      (n ≠ 0 → (f false).Meets good stops) ∧ (f true).AfterRefusal good stops := Iff.rfl

/-- **Sequence**: a refusal to the first program leads on into every run of the second; without one, it
is a refusal to the second. -/
theorem afterRefusal_bind {x : Prog ε α} {f : α → Prog ε β} {good : β → Prop} :
    (x >>= f).AfterRefusal good stops ↔
      x.AfterRefusal (fun a => (f a).Meets good stops) stops ∧
        ∀ a, x.granted = .ok a → (f a).AfterRefusal good stops := by
  induction x with
  | ret a => exact ⟨fun h => ⟨trivial, fun b hb => Except.ok.inj hb ▸ h⟩, fun h => h.2 a rfl⟩
  | stop e => exact iff_of_true trivial ⟨trivial, nofun⟩
  | ask n next ih =>
    change (n ≠ 0 → (next false >>= f).Meets good stops) ∧ (next true >>= f).AfterRefusal good stops ↔
      (_ ∧ _) ∧ _
    rw [ih true, meets_bind, and_assoc]
    rfl

theorem afterRefusal_map {p : Prog ε α} {f : α → β} {good : β → Prop} :
    (f <$> p).AfterRefusal good stops ↔ p.AfterRefusal (fun a => good (f a)) stops := by
  rw [map_eq_pure_bind, afterRefusal_bind]
  exact and_iff_left fun _ _ => trivial

/-! ## Stopping on refusal -/

/-- **A program stops with `e` on refusal**, and never otherwise. -/
def StopsOnRefusal (e : ε) (p : Prog ε α) : Prop :=
  p.AfterRefusal (fun _ => False) (· = e) ∧ p.granted ≠ .error e

section StopsOnRefusal

variable {e : ε} {p : Prog ε α}

theorem stopsOnRefusal_pure (e : ε) (a : α) : StopsOnRefusal e (pure a : Prog ε α) :=
  ⟨trivial, nofun⟩

theorem stopsOnRefusal_stop {e' : ε} (h : e' ≠ e) : StopsOnRefusal e (stop e' : Prog ε α) :=
  ⟨trivial, fun heq => h (Except.error.inj heq)⟩

theorem stopsOnRefusal_ite {c : Prop} [Decidable c] {q : Prog ε α} (hp : c → StopsOnRefusal e p)
    (hq : ¬c → StopsOnRefusal e q) : StopsOnRefusal e (if c then p else q) := by
  split
  · exact hp ‹_›
  · exact hq ‹_›

/-- A sequence of such programs is one. -/
theorem StopsOnRefusal.bind {f : α → Prog ε β} (hp : StopsOnRefusal e p)
    (hf : ∀ a, p.granted = .ok a → StopsOnRefusal e (f a)) : StopsOnRefusal e (p >>= f) := by
  refine ⟨afterRefusal_bind.mpr ⟨hp.1.mono fun _ => False.elim, fun a ha => (hf a ha).1⟩, ?_⟩
  rw [granted_bind]
  cases hgranted : p.granted with
  | ok a => exact (hf a hgranted).2
  | error e' =>
    exact fun heq => hp.2 (hgranted.trans (congrArg Except.error (Except.error.inj heq)))

theorem StopsOnRefusal.map {f : α → β} (hp : StopsOnRefusal e p) : StopsOnRefusal e (f <$> p) := by
  rw [map_eq_pure_bind]
  exact hp.bind fun a _ => stopsOnRefusal_pure e (f a)

theorem stopsOnRefusal_mapM {f : α → Prog ε β} (h : ∀ a, StopsOnRefusal e (f a)) :
    ∀ as : List α, StopsOnRefusal e (as.mapM f)
  | [] => stopsOnRefusal_pure e []
  | a :: as => by
    rw [List.mapM_cons]
    exact (h a).bind fun b _ => (stopsOnRefusal_mapM h as).bind fun bs _ =>
      stopsOnRefusal_pure e (b :: bs)

theorem stopsOnRefusal_foldlM {f : β → α → Prog ε β} (h : ∀ b a, StopsOnRefusal e (f b a)) :
    ∀ (as : List α) (b : β), StopsOnRefusal e (as.foldlM f b)
  | [], b => stopsOnRefusal_pure e b
  | a :: as, b => by
    rw [List.foldlM_cons]
    exact (h b a).bind fun b' _ => stopsOnRefusal_foldlM h as b'

/-- It ends well after a refusal, whatever is asked of a value. -/
theorem StopsOnRefusal.afterRefusal (hp : StopsOnRefusal e p) (hstops : stops e) :
    p.AfterRefusal good stops :=
  afterRefusal_iff.mpr fun n refused r hn hrun => by
    have hends := afterRefusal_iff.mp hp.1 n refused r hn hrun
    cases r with
    | ok a => exact hends.elim
    | error e' => exact hends ▸ hstops

/-- What follows a program that stops on refusal meets only its own refusals. -/
theorem StopsOnRefusal.afterRefusal_bind_iff {f : α → Prog ε β} {good : β → Prop}
    (hp : StopsOnRefusal e p) (hstops : stops e) : (p >>= f).AfterRefusal good stops ↔
      ∀ a, p.granted = .ok a → (f a).AfterRefusal good stops := by
  rw [afterRefusal_bind, and_iff_right (hp.afterRefusal hstops)]

end StopsOnRefusal

end Prog

end CelWasm
