import Mathlib.Data.Nat.Notation

/-!
# Library/Program — programs that ask an allocator

`Prog ε α` is the free monad of one effect: a program asks for a block of so many bytes, is told
whether it was granted, and goes on either way. It may also stop for good with an `ε` — a trap, a
failing status. Three readings are kept: `granted`, the single run in which every request succeeds,
`run`, the run under a given allocator, and `Reaches`, every run an allocator could force.
-/

namespace CelWasm

/-- A program over an allocator: it returns, stops, or asks for `bytes` and goes on with the
answer. -/
inductive Prog (ε : Type) (α : Type) : Type
  | ret (a : α)
  | stop (e : ε)
  | ask (bytes : ℕ) (next : Bool → Prog ε α)

namespace Prog

variable {ε α β γ : Type}

/-- Sequencing grafts the second program at every return of the first. -/
protected def bind : Prog ε α → (α → Prog ε β) → Prog ε β
  | ret a, f => f a
  | stop e, _ => stop e
  | ask n next, f => ask n fun b => (next b).bind f

instance : Monad (Prog ε) where
  pure := ret
  bind := Prog.bind

/-- Ask for a block; `false` is the out-of-memory answer. -/
def alloc (bytes : ℕ) : Prog ε Bool := ask bytes ret

@[simp] theorem ret_bind (a : α) (f : α → Prog ε β) : (ret a >>= f) = f a := rfl

@[simp] theorem stop_bind (e : ε) (f : α → Prog ε β) : (stop e >>= f) = stop e := rfl

@[simp] theorem ask_bind (n : ℕ) (next : Bool → Prog ε α) (f : α → Prog ε β) :
    (ask n next >>= f) = ask n fun b => next b >>= f := rfl

theorem pure_eq_ret (a : α) : (pure a : Prog ε α) = ret a := rfl

instance : LawfulMonad (Prog ε) := LawfulMonad.mk' (Prog ε)
  (fun x => by
    change x.bind (fun a => ret a) = x
    induction x with
    | ret a => rfl
    | stop e => rfl
    | ask n next ih => exact congrArg (ask n) (funext fun b => ih b))
  (fun _ _ => rfl)
  (fun x f g => by
    change (x.bind f).bind g = x.bind fun a => (f a).bind g
    induction x with
    | ret a => rfl
    | stop e => rfl
    | ask n next ih => exact congrArg (ask n) (funext fun b => ih b))

/-! ## The run in which every request is granted -/

/-- **The run with memory to spare** — every request is answered `true`. -/
def granted : Prog ε α → Except ε α
  | ret a => .ok a
  | stop e => .error e
  | ask _ next => (next true).granted

@[simp] theorem granted_ret (a : α) : (ret a : Prog ε α).granted = .ok a := rfl

@[simp] theorem granted_pure (a : α) : (pure a : Prog ε α).granted = .ok a := rfl

@[simp] theorem granted_stop (e : ε) : (stop e : Prog ε α).granted = .error e := rfl

@[simp] theorem granted_alloc (n : ℕ) : (alloc n : Prog ε Bool).granted = .ok true := rfl

/-- Running in sequence is sequencing the runs. -/
@[simp] theorem granted_bind (x : Prog ε α) (f : α → Prog ε β) :
    (x >>= f).granted = x.granted >>= fun a => (f a).granted := by
  induction x with
  | ret a => rfl
  | stop e => rfl
  | ask n next ih => exact ih true

@[simp] theorem granted_ite (c : Prop) [Decidable c] (x y : Prog ε α) :
    (if c then x else y).granted = if c then x.granted else y.granted := by
  split <;> rfl

/-- **Simulation of folds** — related states that step to related states, for what is left of the
list, end related. -/
theorem granted_foldlM_simulation {R : List α → β → γ → Prop} {f : β → α → Prog ε β}
    {g : γ → α → Prog ε γ}
    (hstep : ∀ a as b c, R (a :: as) b c →
      ∃ b' c', (f b a).granted = .ok b' ∧ (g c a).granted = .ok c' ∧ R as b' c') :
    ∀ (as : List α) (b : β) (c : γ), R as b c →
      ∃ b' c', (as.foldlM f b).granted = .ok b' ∧ (as.foldlM g c).granted = .ok c' ∧ R [] b' c'
  | [], b, c, h => ⟨b, c, rfl, rfl, h⟩
  | a :: as, b, c, h => by
    obtain ⟨b', c', hb, hc, h'⟩ := hstep a as b c h
    obtain ⟨b'', c'', hb', hc', h''⟩ := granted_foldlM_simulation hstep as b' c' h'
    refine ⟨b'', c'', ?_, ?_, h''⟩
    · rw [List.foldlM_cons, granted_bind, hb]
      exact hb'
    · rw [List.foldlM_cons, granted_bind, hc]
      exact hc'

/-- **A condition along a fold** — it holds of every element and the state that element meets. -/
def Along (C : α → β → Prop) (f : β → α → Prog ε β) : List α → β → Prop
  | [], _ => True
  | a :: as, b => C a b ∧ ∀ b', (f b a).granted = .ok b' → Along C f as b'

theorem along_of_forall {C : α → β → Prop} {f : β → α → Prog ε β} (h : ∀ a b, C a b) :
    ∀ (as : List α) (b : β), Along C f as b
  | [], _ => trivial
  | a :: as, b => ⟨h a b, fun b' _ => along_of_forall h as b'⟩

/-- **Congruence of folds** — under an invariant that the steps keep, a condition along the fold that
makes two steps come to the same makes the folds come to the same. -/
theorem granted_foldlM_congr_of_along {C : α → β → Prop} {P : List α → β → Prop}
    {f g : β → α → Prog ε β}
    (hkeep : ∀ a as b b', P (a :: as) b → (f b a).granted = .ok b' → P as b')
    (hstep : ∀ a as b, P (a :: as) b → C a b → (f b a).granted = (g b a).granted) :
    ∀ (as : List α) (b : β), P as b → Along C f as b →
      (as.foldlM f b).granted = (as.foldlM g b).granted
  | [], _, _, _ => rfl
  | a :: as, b, hP, hC => by
    rw [List.foldlM_cons, List.foldlM_cons, granted_bind, granted_bind, ← hstep a as b hP hC.1]
    cases hb : (f b a).granted with
    | error e => rfl
    | ok b' => exact granted_foldlM_congr_of_along hkeep hstep as b' (hkeep a as b b' hP hb) (hC.2 b' hb)

/-- The condition holds along every shorter fold. -/
theorem Along.take {C : α → β → Prop} {f : β → α → Prog ε β} :
    ∀ {as : List α} {b : β} (n : ℕ), Along C f as b → Along C f (as.take n) b
  | [], _, _, _ => by rw [List.take_nil]; trivial
  | _ :: _, _, 0, _ => trivial
  | _ :: _, _, n + 1, h => ⟨h.1, fun b' hb => (h.2 b' hb).take n⟩

/-- **The converse** — folds that come to the same after every element meet, element by element, any
condition that two steps of the same outcome imply. -/
theorem along_of_granted_foldlM_take {C : α → β → Prop} {P : List α → β → Prop}
    {f g : β → α → Prog ε β}
    (hkeep : ∀ a as b b', P (a :: as) b → (f b a).granted = .ok b' → P as b')
    (hstep : ∀ a as b, P (a :: as) b → (f b a).granted = (g b a).granted → C a b) :
    ∀ (as : List α) (b : β), P as b →
      (∀ n, ((as.take n).foldlM f b).granted = ((as.take n).foldlM g b).granted) → Along C f as b
  | [], _, _, _ => trivial
  | a :: as, b, hP, h => by
    have hone : (f b a).granted = (g b a).granted := by
      simpa only [List.take_succ_cons, List.take_zero, List.foldlM_cons, List.foldlM_nil,
        bind_pure] using h 1
    refine ⟨hstep a as b hP hone, fun b' hb => ?_⟩
    refine along_of_granted_foldlM_take hkeep hstep as b' (hkeep a as b b' hP hb) fun n => ?_
    have hnext := h (n + 1)
    rw [List.take_succ_cons, List.foldlM_cons, List.foldlM_cons, granted_bind, granted_bind, ← hone,
      hb] at hnext
    exact hnext

/-! ## Questions with a yes or a no -/

/-- **A program decides a proposition** — with memory to spare it returns what `out` makes of yes when
the proposition holds, and of no when it does not. -/
def Decides (out : Bool → α) (p : Prog ε α) (P : Prop) : Prop :=
  ∃ r, p.granted = .ok (out r) ∧ (r = true ↔ P)

section Decides

variable {out : Bool → α} {p : Prog ε α} {P Q : Prop}

theorem decides_pure (out : Bool → α) (r : Bool) :
    Decides out (pure (out r) : Prog ε α) (r = true) := ⟨r, rfl, Iff.rfl⟩

theorem decides_false (out : Bool → α) (h : ¬P) : Decides out (pure (out false) : Prog ε α) P :=
  ⟨false, rfl, iff_of_false Bool.false_ne_true h⟩

theorem Decides.congr (h : Decides out p P) (hPQ : P ↔ Q) : Decides out p Q := by
  obtain ⟨r, hr, hiff⟩ := h
  exact ⟨r, hr, hiff.trans hPQ⟩

theorem Decides.map (h : Decides out p P) (f : α → β) :
    Decides (fun r => f (out r)) (f <$> p) P := by
  obtain ⟨r, hr, hiff⟩ := h
  refine ⟨r, ?_, hiff⟩
  rw [map_eq_pure_bind, granted_bind, hr]
  rfl

/-- A step whose outcome is known is taken. -/
theorem Decides.of_granted {first : Prog ε β} {b : β} {rest : β → Prog ε α}
    (hfirst : first.granted = .ok b) (h : Decides out (rest b) P) :
    Decides out (first >>= rest) P := by
  obtain ⟨r, hr, hiff⟩ := h
  refine ⟨r, ?_, hiff⟩
  rw [granted_bind, hfirst]
  exact hr

/-- **One question after another**, the second asked only when the first is answered yes. -/
theorem Decides.and {first : Prog ε Bool} (hfirst : Decides id first P) (h : Decides out p Q) :
    Decides out (first >>= fun r => if r then p else pure (out false)) (P ∧ Q) := by
  obtain ⟨r, hr, hiff⟩ := hfirst
  refine .of_granted hr ?_
  cases r with
  | true => exact h.congr (by simpa using fun _ => hiff.mp rfl)
  | false => exact decides_false out fun hPQ => absurd (hiff.mpr hPQ.1) (by simp)

/-- **A question about the one element that passes a test**, answered no when there is none. -/
theorem decides_find? {as : List β} {test : β → Bool} {holds : β → Prop}
    (hunique : ∀ a ∈ as, ∀ b ∈ as, test a = true → test b = true → a = b)
    (hnone : as.find? test = none → p.granted = .ok (out false))
    (hsome : ∀ a ∈ as, as.find? test = some a → Decides out p (holds a)) :
    Decides out p (∃ a ∈ as, test a = true ∧ holds a) := by
  cases hfind : as.find? test with
  | none =>
    refine ⟨false, hnone hfind, iff_of_false Bool.false_ne_true fun ⟨a, ha, htest, _⟩ => ?_⟩
    exact absurd htest (List.find?_eq_none.mp hfind a ha)
  | some a =>
    have ha := List.mem_of_find?_eq_some hfind
    have htest := List.find?_some hfind
    refine (hsome a ha hfind).congr ⟨fun h => ⟨a, ha, htest, h⟩, fun ⟨b, hb, htest', h⟩ => ?_⟩
    exact hunique b hb a ha htest' htest ▸ h

end Decides

/-! ## The run of one allocator -/

/-- **The run under an allocator** that answers a request from the requests so far, the latest
first. -/
def run (answer : List ℕ → Bool) (past : List ℕ) : Prog ε α → Except ε α
  | ret a => .ok a
  | stop e => .error e
  | ask n next => (next (answer (n :: past))).run answer (n :: past)

@[simp] theorem run_pure (answer : List ℕ → Bool) (past : List ℕ) (a : α) :
    (pure a : Prog ε α).run answer past = .ok a := rfl

/-! ## Every run -/

/-- `p.Reaches r` — some sequence of answers from the allocator ends `p` in `r`. -/
inductive Reaches : Prog ε α → Except ε α → Prop
  | ret (a : α) : Reaches (ret a) (.ok a)
  | stop (e : ε) : Reaches (stop e) (.error e)
  | ask (n : ℕ) (next : Bool → Prog ε α) (b : Bool) {r : Except ε α} (h : Reaches (next b) r) :
      Reaches (ask n next) r

/-- The run with memory to spare is one of the runs. -/
theorem reaches_granted (p : Prog ε α) : p.Reaches p.granted := by
  induction p with
  | ret a => exact .ret a
  | stop e => exact .stop e
  | ask n next ih => exact .ask n next true (ih true)

theorem reaches_pure {a : α} {r : Except ε α} : (pure a : Prog ε α).Reaches r ↔ r = .ok a :=
  ⟨fun h => by cases h; rfl, fun h => h ▸ .ret a⟩

/-- **A run of two programs in sequence** that returns is a run of each. -/
theorem Reaches.of_bind {x : Prog ε α} {f : α → Prog ε β} {b : β}
    (h : (x >>= f).Reaches (.ok b)) : ∃ a, x.Reaches (.ok a) ∧ (f a).Reaches (.ok b) := by
  induction x with
  | ret a => exact ⟨a, .ret a, h⟩
  | stop e => exact nomatch h
  | ask n next ih =>
    cases h with
    | ask _ _ answer h =>
      obtain ⟨a, hx, hf⟩ := ih answer h
      exact ⟨a, .ask n next answer hx, hf⟩

end Prog

end CelWasm
