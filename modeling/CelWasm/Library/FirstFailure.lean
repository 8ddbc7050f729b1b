import Mathlib.Data.List.Forall2

/-!
# Library/FirstFailure — a loop that ends at the first failure

A loop writes what each element gives, or nothing, and ends at the first element that fails. Two such
loops over lists that correspond are compared element by element: they come to the same unless an
element ahead of every failure parts them, and then only a later failure can hide it.
-/

namespace CelWasm

variable {α β γ ε : Type}

/-- **What the elements give, in order, up to the first failure.** -/
def collect (f : α → Except ε (Option γ)) : List α → Except ε (List γ)
  | [] => .ok []
  | x :: rest => do
    let y ← f x
    let ys ← collect f rest
    return y.toList ++ ys

section Steps

variable {f : α → Except ε (Option γ)} {x : α} {rest : List α}

theorem collect_cons (f : α → Except ε (Option γ)) (x : α) (rest : List α) : collect f (x :: rest)
    = f x >>= fun y => collect f rest >>= fun ys => pure (y.toList ++ ys) := rfl

theorem collect_cons_error {e : ε} (h : f x = .error e) : collect f (x :: rest) = .error e := by
  rw [collect_cons, h]
  rfl

theorem collect_cons_ok {y : Option γ} (h : f x = .ok y) :
    collect f (x :: rest) = (collect f rest).map (y.toList ++ ·) := by
  rw [collect_cons, h]
  cases collect f rest <;> rfl

/-- After an element that succeeds, a failure is a failure of the rest. -/
theorem collect_cons_ok_eq_error {y : Option γ} (h : f x = .ok y) {e : ε} :
    collect f (x :: rest) = .error e ↔ collect f rest = .error e := by
  rw [collect_cons_ok h]
  cases collect f rest <;> simp [Except.map]

end Steps

theorem Except.map_append_inj {front : List γ} {r s : Except ε (List γ)} :
    r.map (front ++ ·) = s.map (front ++ ·) ↔ r = s := by
  cases r <;> cases s <;> simp [Except.map]

/-! ## Two loops -/

/-- Elements that give the same come to the same. -/
theorem collect_congr {f : α → Except ε (Option γ)} {g : β → Except ε (Option γ)} {xs : List α}
    {ys : List β} (h : List.Forall₂ (fun x y => f x = g y) xs ys) : collect f xs = collect g ys := by
  induction h with
  | nil => rfl
  | cons hxy _ ih => rw [collect_cons, collect_cons, hxy, ih]

variable {f : α → Except ε (Option γ)} {g : β → Except ε (Option γ)} {misfit : β → Option ε}
  {parts : α → β → Prop} {xs : List α} {ys : List β}

/-- **Two elements correspond**: where the second does not fit both loops fail alike, and where it fits
both give the same, unless the two part. -/
structure Corresponds (f : α → Except ε (Option γ)) (g : β → Except ε (Option γ))
    (misfit : β → Option ε) (parts : α → β → Prop) (x : α) (y : β) : Prop where
  fails : ∀ e, misfit y = some e → f x = .error e ∧ g y = .error e
  gives : misfit y = none → ∃ b, g y = .ok b ∧ (¬parts x y → f x = .ok b)

/-- The pairs ahead of the first that does not fit. -/
def fitting (misfit : β → Option ε) (xs : List α) (ys : List β) : List (α × β) :=
  (xs.zip ys).takeWhile fun p => (misfit p.2).isNone

theorem fitting_cons_of_misfit {x : α} {y : β} {e : ε} (h : misfit y = some e) :
    fitting misfit (x :: xs) (y :: ys) = [] := by simp [fitting, h]

theorem fitting_cons {x : α} {y : β} (h : misfit y = none) :
    fitting misfit (x :: xs) (y :: ys) = (x, y) :: fitting misfit xs ys := by simp [fitting, h]

/-- The loop fails as its first misfit does. -/
theorem collect_eq_error_iff (h : List.Forall₂ (Corresponds f g misfit parts) xs ys) {e : ε} :
    collect g ys = .error e ↔ ys.findSome? misfit = some e := by
  induction h with
  | nil => exact iff_of_false nofun nofun
  | @cons x y xs ys hxy _ ih =>
    cases hfit : misfit y with
    | some e' =>
      rw [collect_cons_error (hxy.fails e' hfit).2, List.findSome?_cons_of_isSome (by simp [hfit]), hfit]
      simp
    | none =>
      obtain ⟨b, hb, -⟩ := hxy.gives hfit
      rw [collect_cons_ok_eq_error hb, ih, List.findSome?_cons_of_isNone (by simp [hfit])]

/-- **Where parting is a refusal**, the two loops come to the same if and only if no pair parts ahead
of the first misfit, or that misfit is the same refusal. -/
theorem collect_eq_iff_of_refused {refusal : ε}
    (h : List.Forall₂ (Corresponds f g misfit parts) xs ys)
    (hparts : List.Forall₂ (fun x y => misfit y = none → parts x y → f x = .error refusal) xs ys) :
    collect f xs = collect g ys ↔
      (∀ p ∈ fitting misfit xs ys, ¬parts p.1 p.2) ∨ ys.findSome? misfit = some refusal := by
  induction h with
  | nil => exact iff_of_true rfl (.inl nofun)
  | @cons x y xs ys hxy hrest ih =>
    obtain ⟨hpair, hparts⟩ := List.forall₂_cons.mp hparts
    cases hfit : misfit y with
    | some e =>
      obtain ⟨hf, hg⟩ := hxy.fails e hfit
      rw [collect_cons_error hf, collect_cons_error hg, fitting_cons_of_misfit hfit]
      simp
    | none =>
      obtain ⟨b, hg, hsame⟩ := hxy.gives hfit
      rw [fitting_cons hfit, List.findSome?_cons_of_isNone (by simp [hfit]), List.forall_mem_cons]
      by_cases hpart : parts x y
      · rw [collect_cons_error (hpair hfit hpart), @eq_comm (Except ε (List γ)),
          collect_cons_ok_eq_error hg, collect_eq_error_iff hrest]
        exact (or_iff_right fun h => h.1 hpart).symm
      · rw [collect_cons_ok (hsame hpart), collect_cons_ok hg]
        rw [Except.map_append_inj, ih hparts, and_iff_right hpart]

/-- Where parting alters what is given, the first loop fails as the first misfit does, too. -/
theorem collect_eq_error_of_altered {e : ε}
    (h : List.Forall₂ (Corresponds f g misfit parts) xs ys)
    (hparts : List.Forall₂ (fun x y => misfit y = none → parts x y → ∃ a, f x = .ok a) xs ys)
    (hmisfit : ys.findSome? misfit = some e) : collect f xs = .error e := by
  induction h with
  | nil => exact nomatch hmisfit
  | @cons x y xs ys hxy _ ih =>
    obtain ⟨hpair, hparts⟩ := List.forall₂_cons.mp hparts
    cases hfit : misfit y with
    | some e' =>
      rw [List.findSome?_cons_of_isSome (by simp [hfit]), hfit] at hmisfit
      obtain rfl := Option.some.inj hmisfit
      exact collect_cons_error (hxy.fails e' hfit).1
    | none =>
      rw [List.findSome?_cons_of_isNone (by simp [hfit])] at hmisfit
      obtain ⟨b, -, hsame⟩ := hxy.gives hfit
      have hok : ∃ a, f x = .ok a := by
        by_cases hpart : parts x y
        · exact hpair hfit hpart
        · exact ⟨b, hsame hpart⟩
      obtain ⟨a, ha⟩ := hok
      exact (collect_cons_ok_eq_error ha).mpr (ih hparts hmisfit)

/-- **Where parting alters what is given**, the two loops come to the same if and only if no pair parts
ahead of the first misfit, or there is a misfit. -/
theorem collect_eq_iff_of_altered (h : List.Forall₂ (Corresponds f g misfit parts) xs ys)
    (hparts : List.Forall₂ (fun x y => misfit y = none → parts x y →
      ∃ a b, a ≠ b ∧ f x = .ok (some a) ∧ g y = .ok (some b)) xs ys) :
    collect f xs = collect g ys ↔
      (∀ p ∈ fitting misfit xs ys, ¬parts p.1 p.2) ∨ (ys.findSome? misfit).isSome = true := by
  induction h with
  | nil => exact iff_of_true rfl (.inl nofun)
  | @cons x y xs ys hxy hrest ih =>
    obtain ⟨hpair, hparts⟩ := List.forall₂_cons.mp hparts
    cases hfit : misfit y with
    | some e =>
      obtain ⟨hf, hg⟩ := hxy.fails e hfit
      rw [collect_cons_error hf, collect_cons_error hg, fitting_cons_of_misfit hfit]
      simp
    | none =>
      obtain ⟨b, hg, hsame⟩ := hxy.gives hfit
      rw [fitting_cons hfit, List.findSome?_cons_of_isNone (by simp [hfit]), List.forall_mem_cons]
      by_cases hpart : parts x y
      · obtain ⟨a, b', hne, hf, hg'⟩ := hpair hfit hpart
        have hsome : collect f (x :: xs) = collect g (y :: ys) ↔
            (ys.findSome? misfit).isSome = true := by
          rw [collect_cons_ok hf, collect_cons_ok hg']
          cases hmisfit : ys.findSome? misfit with
          | some e =>
            have hok : List.Forall₂ (fun x y => misfit y = none → parts x y → ∃ a, f x = .ok a)
                xs ys := by
              refine hparts.imp fun x y hpair hfit hpart => ?_
              obtain ⟨a, -, -, ha, -⟩ := hpair hfit hpart
              exact ⟨some a, ha⟩
            rw [collect_eq_error_of_altered hrest hok hmisfit,
              (collect_eq_error_iff hrest).mpr hmisfit]
            exact iff_of_true rfl rfl
          | none =>
            have hnone : ∀ e, collect g ys ≠ .error e := by
              intro e he
              rw [(collect_eq_error_iff hrest).mp he] at hmisfit
              exact nomatch hmisfit
            refine iff_of_false (fun heq => ?_) nofun
            cases hgys : collect g ys with
            | error e => exact hnone e hgys
            | ok bs =>
              rw [hgys] at heq
              cases hfxs : collect f xs with
              | error e => simp [hfxs, Except.map] at heq
              | ok as => simp [hfxs, Except.map, hne] at heq
        rw [hsome]
        exact (or_iff_right fun h => h.1 hpart).symm
      · rw [collect_cons_ok (hsame hpart), collect_cons_ok hg, Except.map_append_inj, ih hparts,
          and_iff_right hpart]

/-! ## Checked writes -/

/-- **A write is checked**: where its input fits it gives what reads back right, and where the input
does not fit it ends in the one failure. -/
structure Checked (failure : ε) (fits : Prop) (reads : γ → Prop) (r : Except ε γ) : Prop where
  gives : fits → ∃ y, r = .ok y ∧ reads y
  fails : ¬fits → r = .error failure

section Checked

variable {δ : Type} {failure : ε} {fits fits' : Prop} {reads : γ → Prop} {reads' : δ → Prop}
  {r : Except ε γ} {s : Except ε δ}

theorem Checked.of_ok {y : γ} (hr : r = .ok y) (hfits : fits) (hreads : reads y) :
    Checked failure fits reads r where
  gives _ := ⟨y, hr, hreads⟩
  fails h := absurd hfits h

theorem Checked.congr (h : Checked failure fits reads r) (hfits : fits ↔ fits') :
    Checked failure fits' reads r where
  gives hfits' := h.gives (hfits.mpr hfits')
  fails hfits' := h.fails (mt hfits.mp hfits')

theorem Checked.imp {reads' : γ → Prop} (h : Checked failure fits reads r)
    (hreads : ∀ y, reads y → reads' y) : Checked failure fits reads' r where
  gives hfits := by
    obtain ⟨y, hy, hready⟩ := h.gives hfits
    exact ⟨y, hy, hreads y hready⟩
  fails := h.fails

theorem Checked.map (h : Checked failure fits reads r) {g : γ → δ}
    (hreads : ∀ y, reads y → reads' (g y)) : Checked failure fits reads' (r.map g) where
  gives hfits := by
    obtain ⟨y, hy, hready⟩ := h.gives hfits
    exact ⟨g y, by rw [hy]; rfl, hreads y hready⟩
  fails hfits := by
    rw [h.fails hfits]
    rfl

/-- Two writes in turn are checked, and so is what is made of both. -/
theorem Checked.both (h : Checked failure fits reads r) (h' : Checked failure fits' reads' s)
    {α : Type} {g : γ → δ → α} {reads'' : α → Prop}
    (hreads : ∀ y z, reads y → reads' z → reads'' (g y z)) :
    Checked failure (fits ∧ fits') reads'' (r.bind fun y => s.map (g y)) where
  gives hfits := by
    obtain ⟨y, hy, hready⟩ := h.gives hfits.1
    obtain ⟨z, hz, hreadz⟩ := h'.gives hfits.2
    exact ⟨g y z, by rw [hy, hz]; rfl, hreads y z hready hreadz⟩
  fails hfits := by
    by_cases hfirst : fits
    · obtain ⟨y, hy, -⟩ := h.gives hfirst
      rw [hy, h'.fails fun hsecond => hfits ⟨hfirst, hsecond⟩]
      rfl
    · rw [h.fails hfirst]
      rfl

/-- **A loop of checked writes is checked**, and what it gives reads as its elements in order. -/
theorem Checked.collect {ν : Type} {f : α → Except ε (Option γ)} {fits : α → Prop}
    {written : α → List ν} {read : γ → List ν} {xs : List α}
    (h : ∀ x ∈ xs, Checked failure (fits x) (fun y => y.toList.flatMap read = written x) (f x)) :
    Checked failure (∀ x ∈ xs, fits x) (fun ys => ys.flatMap read = xs.flatMap written)
      (collect f xs) := by
  induction xs with
  | nil => exact .of_ok rfl (fun x hx => nomatch hx) rfl
  | cons x xs ih =>
    obtain ⟨hx, hxs⟩ := List.forall_mem_cons.mp h
    have hcollect : CelWasm.collect f (x :: xs)
        = (f x).bind fun y => (CelWasm.collect f xs).map fun ys => y.toList ++ ys := by
      rw [collect_cons]
      cases f x with
      | error e => rfl
      | ok y => cases CelWasm.collect f xs <;> rfl
    rw [hcollect]
    refine (Checked.both hx (ih hxs) fun y ys hy hys => ?_).congr List.forall_mem_cons.symm
    rw [List.flatMap_append, hy, hys, List.flatMap_cons]

end Checked

end CelWasm
