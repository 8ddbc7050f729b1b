import Mathlib.Data.List.Nodup
import Mathlib.Data.List.Perm.Subperm
import Mathlib.Data.Nat.Notation

/-!
# Library/KeyedTree — trees of lists and keyed maps, compared to any depth

A tree's leaves are scalars, its nodes lists and maps. Two trees match under a relation on the
scalars when they have one shape: lists pairwise, maps key by key. The test on maps looks one way
only, from each entry of the first to an entry of the second, and the counts are compared; where keys
are distinct that is enough for it to hold the other way (`Matches.swap`), whatever the order of
either side's entries.
-/

namespace CelWasm

/-- A tree of lists and keyed maps over scalars. -/
inductive KeyedTree (σ κ : Type)
  | scalar (s : σ)
  | list (children : List (KeyedTree σ κ))
  | map (entries : List (κ × KeyedTree σ κ))

namespace KeyedTree

variable {σ κ : Type}

mutual

/-- **Two trees match** under a relation on scalars. -/
def Matches (r : σ → σ → Prop) : KeyedTree σ κ → KeyedTree σ κ → Prop
  | scalar s, scalar t => r s t
  | list xs, list ys => xs.length = ys.length ∧ ElementsMatch r xs ys
  | map xs, map ys => xs.length = ys.length ∧ EntriesMatch r ys xs
  | _, _ => False
termination_by structural a => a

/-- The elements match in order. -/
def ElementsMatch (r : σ → σ → Prop) : List (KeyedTree σ κ) → List (KeyedTree σ κ) → Prop
  | x :: xs, y :: ys => x.Matches r y ∧ ElementsMatch r xs ys
  | _, _ => True
termination_by structural xs => xs

/-- Every entry has a partner in the other map. -/
def EntriesMatch (r : σ → σ → Prop) (other : List (κ × KeyedTree σ κ)) :
    List (κ × KeyedTree σ κ) → Prop
  | [] => True
  | e :: rest => HasPartner r other e ∧ EntriesMatch r other rest
termination_by structural entries => entries

/-- An entry of the other map has the key, and a value that matches. -/
def HasPartner (r : σ → σ → Prop) (other : List (κ × KeyedTree σ κ)) : κ × KeyedTree σ κ → Prop
  | (key, value) => ∃ f ∈ other, f.1 = key ∧ value.Matches r f.2
termination_by structural e => e

end

/-- The keys of every map are distinct, to any depth. -/
def Distinct : KeyedTree σ κ → Prop
  | scalar _ => True
  | list children => ∀ x ∈ children, x.Distinct
  | map entries => (entries.map Prod.fst).Nodup ∧ ∀ e ∈ entries, e.2.Distinct
termination_by t => sizeOf t
decreasing_by
  all_goals
    rename_i h
    have := List.sizeOf_lt_of_mem h
    first | (obtain ⟨key, value⟩ := e; simp at *; omega) | (simp; omega)

/-! ## Maps in two directions -/

/-- **Pigeonhole on keys** — when both maps have distinct keys and there are as many entries, an
entry for each key of the first is an entry for each key of the second. -/
theorem partner_swap {α β : Type} {R : α → β → Prop} {xs : List (κ × α)} {ys : List (κ × β)}
    (hlength : xs.length = ys.length) (hxs : (xs.map Prod.fst).Nodup)
    (hys : (ys.map Prod.fst).Nodup) (h : ∀ e ∈ xs, ∃ f ∈ ys, f.1 = e.1 ∧ R e.2 f.2) :
    ∀ f ∈ ys, ∃ e ∈ xs, e.1 = f.1 ∧ R e.2 f.2 := by
  have hsub : xs.map Prod.fst ⊆ ys.map Prod.fst := by
    intro key hkey
    obtain ⟨e, he, rfl⟩ := List.mem_map.mp hkey
    obtain ⟨f, hf, hfe, -⟩ := h e he
    exact List.mem_map.mpr ⟨f, hf, hfe⟩
  have hperm : (xs.map Prod.fst).Perm (ys.map Prod.fst) :=
    (hxs.subperm hsub).perm_of_length_le (by simp [hlength])
  intro f hf
  obtain ⟨e, he, hef⟩ := List.mem_map.mp (hperm.mem_iff.mpr (List.mem_map_of_mem hf))
  obtain ⟨f', hf', hf'e, hR⟩ := h e he
  obtain rfl : f' = f := List.inj_on_of_nodup_map hys hf' hf (hf'e.trans hef)
  exact ⟨e, he, hef, hR⟩

/-! ## Matching, clause by clause -/

section Clauses

variable {r : σ → σ → Prop}

@[simp] theorem scalar_matches_scalar {s t : σ} :
    (scalar s : KeyedTree σ κ).Matches r (scalar t) ↔ r s t := Iff.rfl

theorem elementsMatch_iff : ∀ {xs ys : List (KeyedTree σ κ)}, xs.length = ys.length →
    (ElementsMatch r xs ys ↔ List.Forall₂ (Matches r) xs ys)
  | [], [], _ => iff_of_true trivial .nil
  | x :: xs, y :: ys, h => by
    rw [List.forall₂_cons, ElementsMatch, elementsMatch_iff (Nat.succ.inj h)]

theorem list_matches_list {xs ys : List (KeyedTree σ κ)} :
    (list xs).Matches r (list ys) ↔ List.Forall₂ (Matches r) xs ys := by
  rw [Matches]
  exact ⟨fun h => (elementsMatch_iff h.1).mp h.2,
    fun h => ⟨h.length_eq, (elementsMatch_iff h.length_eq).mpr h⟩⟩

theorem entriesMatch_iff {other entries : List (κ × KeyedTree σ κ)} :
    EntriesMatch r other entries ↔
      ∀ e ∈ entries, ∃ f ∈ other, f.1 = e.1 ∧ e.2.Matches r f.2 := by
  induction entries with
  | nil => exact iff_of_true trivial nofun
  | cons e rest ih => rw [EntriesMatch, List.forall_mem_cons, ih, HasPartner]

theorem map_matches_map {xs ys : List (κ × KeyedTree σ κ)} :
    (map xs).Matches r (map ys) ↔ xs.length = ys.length ∧
      ∀ e ∈ xs, ∃ f ∈ ys, f.1 = e.1 ∧ e.2.Matches r f.2 := by
  rw [Matches, entriesMatch_iff]

end Clauses

/-! ## The other way, and through a third -/

theorem sizeOf_lt_of_mem_entries {e : κ × KeyedTree σ κ} {entries : List (κ × KeyedTree σ κ)}
    (h : e ∈ entries) : sizeOf e.2 < sizeOf (map entries) := by
  have := List.sizeOf_lt_of_mem h
  obtain ⟨key, value⟩ := e
  simp at *
  omega

theorem sizeOf_lt_of_mem_children {x : KeyedTree σ κ} {children : List (KeyedTree σ κ)}
    (h : x ∈ children) : sizeOf x < sizeOf (list children) := by
  have := List.sizeOf_lt_of_mem h
  simp
  omega

theorem forall₂_swap {α β : Type} {R : α → β → Prop} {S : β → α → Prop} {xs : List α} {ys : List β}
    (h : List.Forall₂ R xs ys) (hswap : ∀ x ∈ xs, ∀ y ∈ ys, R x y → S y x) :
    List.Forall₂ S ys xs := by
  induction h with
  | nil => exact .nil
  | @cons x y xs ys hxy _ ih =>
    refine .cons (hswap x List.mem_cons_self y List.mem_cons_self hxy) (ih fun x hx y hy => ?_)
    exact hswap x (List.mem_cons_of_mem _ hx) y (List.mem_cons_of_mem _ hy)

theorem forall₂_comp {α β γ : Type} {R : α → β → Prop} {S : β → γ → Prop} {T : α → γ → Prop}
    {xs : List α} {ys : List β} {zs : List γ} (h : List.Forall₂ R xs ys)
    (h' : List.Forall₂ S ys zs) (hcomp : ∀ x ∈ xs, ∀ y z, R x y → S y z → T x z) :
    List.Forall₂ T xs zs := by
  induction h generalizing zs with
  | nil =>
    cases h'
    exact .nil
  | @cons x y xs ys hxy _ ih =>
    cases h' with
    | cons hyz hrest =>
      exact .cons (hcomp x List.mem_cons_self y _ hxy hyz)
        (ih hrest fun x hx => hcomp x (List.mem_cons_of_mem _ hx))

/-- **Matching holds the other way**, where keys are distinct. -/
theorem Matches.swap {r r' : σ → σ → Prop} (hr : ∀ s t, r s t → r' t s) :
    ∀ {a b : KeyedTree σ κ}, a.Distinct → b.Distinct → a.Matches r b → b.Matches r' a
  | scalar s, scalar t, _, _, h => hr s t h
  | list xs, list ys, ha, hb, h => by
    rw [Distinct] at ha hb
    rw [list_matches_list] at h ⊢
    exact forall₂_swap h fun x hx y hy hxy => hxy.swap hr (ha x hx) (hb y hy)
  | map xs, map ys, ha, hb, h => by
    rw [Distinct] at ha hb
    rw [map_matches_map] at h ⊢
    refine ⟨h.1.symm, fun f hf => ?_⟩
    obtain ⟨e, he, hef, hmatch⟩ := partner_swap h.1 ha.1 hb.1 h.2 f hf
    exact ⟨e, he, hef, hmatch.swap hr (ha.2 e he) (hb.2 f hf)⟩
  | scalar _, list _, _, _, h | scalar _, map _, _, _, h | list _, scalar _, _, _, h
  | list _, map _, _, _, h | map _, scalar _, _, _, h | map _, list _, _, _, h => h.elim
termination_by a => sizeOf a
decreasing_by
  · exact sizeOf_lt_of_mem_children hx
  · exact sizeOf_lt_of_mem_entries he

/-- **Matching goes through a third tree**, as the relations on scalars do. -/
theorem Matches.comp {r s t : σ → σ → Prop} (hrs : ∀ x y z, r x y → s y z → t x z) :
    ∀ {a b c : KeyedTree σ κ}, a.Matches r b → b.Matches s c → a.Matches t c
  | scalar x, scalar y, scalar z, h, h' => hrs x y z h h'
  | list xs, list ys, list zs, h, h' => by
    rw [list_matches_list] at h h' ⊢
    exact forall₂_comp h h' fun x hx y z hxy hyz => hxy.comp hrs hyz
  | map xs, map ys, map zs, h, h' => by
    rw [map_matches_map] at h h' ⊢
    refine ⟨h.1.trans h'.1, fun e he => ?_⟩
    obtain ⟨f, hf, hfe, hmatch⟩ := h.2 e he
    obtain ⟨g, hg, hgf, hmatch'⟩ := h'.2 f hf
    exact ⟨g, hg, hgf.trans hfe, hmatch.comp hrs hmatch'⟩
  | scalar _, list _, _, h, _ | scalar _, map _, _, h, _ | list _, scalar _, _, h, _
  | list _, map _, _, h, _ | map _, scalar _, _, h, _ | map _, list _, _, h, _ => h.elim
  | _, scalar _, list _, _, h | _, scalar _, map _, _, h | _, list _, scalar _, _, h
  | _, list _, map _, _, h | _, map _, scalar _, _, h | _, map _, list _, _, h => h.elim
termination_by a => sizeOf a
decreasing_by
  · exact sizeOf_lt_of_mem_children hx
  · exact sizeOf_lt_of_mem_entries he

/-- A tree matches itself, scalars that do so given. -/
theorem Matches.refl {r : σ → σ → Prop} (hr : ∀ s, r s s) : ∀ a : KeyedTree σ κ, a.Matches r a
  | scalar s => hr s
  | list xs => by
    rw [list_matches_list, List.forall₂_same]
    exact fun x hx => Matches.refl hr x
  | map xs => by
    rw [map_matches_map]
    exact ⟨rfl, fun e he => ⟨e, he, rfl, Matches.refl hr e.2⟩⟩
termination_by a => sizeOf a
decreasing_by
  · exact sizeOf_lt_of_mem_children hx
  · exact sizeOf_lt_of_mem_entries he

/-- Reordering a map's entries keeps what it is. -/
theorem matches_of_perm {r : σ → σ → Prop} (hr : ∀ s, r s s) {xs ys : List (κ × KeyedTree σ κ)}
    (h : xs.Perm ys) : (map xs).Matches r (map ys) := by
  rw [map_matches_map]
  exact ⟨h.length_eq, fun e he => ⟨e, h.mem_iff.mp he, rfl, Matches.refl hr e.2⟩⟩

end KeyedTree

end CelWasm
