import Mathlib.Data.List.Infix
import Mathlib.Data.Nat.Notation

/-!
# Library/Pieces — where a list occurs in another, and lists put together from pieces

A list occurs in another at a place if it is in front of what is left there. Pieces that are put
together with a separator are each followed by it, but for the last, and what a list is cut at is in
none of its pieces.
-/

namespace CelWasm

variable {α : Type}

/-! ## Occurrences -/

/-- What is in front of what is left begins there, and fits. -/
theorem getElem?_of_prefix_drop {x : α} {xs l : List α} {i : ℕ} (h : x :: xs <+: l.drop i) :
    l[i]? = some x ∧ i + (x :: xs).length ≤ l.length := by
  obtain ⟨rest, hrest⟩ := h
  have hlen := congrArg List.length hrest
  rw [List.length_append, List.length_drop, List.length_cons] at hlen
  refine ⟨?_, by rw [List.length_cons]; omega⟩
  have hhead : (l.drop i)[0]? = some x := by
    rw [← hrest]
    rfl
  rwa [List.getElem?_drop, Nat.add_zero] at hhead

/-- A list is within another if it occurs at a place. -/
theorem isInfix_iff_prefix_drop {sub l : List α} : sub <:+: l ↔ ∃ i, sub <+: l.drop i := by
  constructor
  · rintro ⟨before, after, rfl⟩
    exact ⟨before.length, after, by rw [List.append_assoc, List.drop_left]⟩
  · rintro ⟨i, after, h⟩
    exact ⟨l.take i, after, by rw [List.append_assoc, h, List.take_append_drop]⟩

/-- **In front of the first occurrence there is none.** -/
theorem not_isInfix_take {sub l : List α} {i : ℕ} (hsub : sub ≠ [])
    (h : ∀ j < i, ¬ sub <+: l.drop j) : ¬ sub <:+: l.take i := fun hin => by
  obtain ⟨j, hj⟩ := isInfix_iff_prefix_drop.mp hin
  obtain ⟨x, xs, rfl⟩ := List.exists_cons_of_ne_nil hsub
  have hle := (getElem?_of_prefix_drop hj).2
  rw [List.length_take, List.length_cons] at hle
  refine h j (by omega) (hj.trans ?_)
  rw [List.drop_take]
  exact List.take_prefix _ _

/-- What is in front of two lists ends in the first, or in the second. -/
theorem prefix_append_cases {front l₁ l₂ : List α} (h : front <+: l₁ ++ l₂) :
    front <+: l₁ ∨ ∃ front', front = l₁ ++ front' ∧ front' <+: l₂ := by
  obtain hfirst | ⟨front', rfl⟩ := List.prefix_or_prefix_of_prefix h (List.prefix_append l₁ l₂)
  · exact .inl hfirst
  · exact .inr ⟨front', rfl, (List.prefix_append_right_inj l₁).mp h⟩

/-! ## Putting together -/

/-- **Every piece is followed by the separator**, but for the last. -/
theorem intercalate_append_singleton (sep : List α) (last : List α) (pieces : List (List α)) :
    sep.intercalate (pieces ++ [last]) = (pieces.map (· ++ sep)).flatten ++ last := by
  induction pieces with
  | nil => simp [List.intercalate]
  | cons p rest ih =>
    have hne : rest ++ [last] ≠ [] := List.append_ne_nil_of_right_ne_nil rest (List.cons_ne_nil _ _)
    obtain ⟨q, more, heq⟩ := List.exists_cons_of_ne_nil hne
    rw [heq] at ih
    rw [List.cons_append, heq, List.map_cons, List.flatten_cons, List.append_assoc (p ++ sep), ← ih]
    simp [List.intercalate]

/-- What is in pieces put together is in one of them, or in the separator. -/
theorem mem_intercalate {b : α} {sep : List α} {pieces : List (List α)}
    (h : b ∈ sep.intercalate pieces) : b ∈ sep ∨ ∃ p ∈ pieces, b ∈ p := by
  obtain rfl | ⟨front, last, rfl⟩ := pieces.eq_nil_or_concat
  · exact absurd h List.not_mem_nil
  rw [List.concat_eq_append, intercalate_append_singleton, List.mem_append, List.mem_flatten] at h
  obtain ⟨_, hmem, hb⟩ | hb := h
  · obtain ⟨p, hp, rfl⟩ := List.mem_map.mp hmem
    obtain hb | hb := List.mem_append.mp hb
    · exact .inr ⟨p, by simp [hp], hb⟩
    · exact .inl hb
  · exact .inr ⟨last, by simp, hb⟩

/-- What a list is cut at is in no piece of it. -/
theorem not_cut_of_mem_splitOnP {cut : α → Bool} {l piece : List α} (hpiece : piece ∈ l.splitOnP cut) :
    ∀ a ∈ piece, cut a = false := by
  induction l generalizing piece with
  | nil =>
    rw [List.splitOnP_nil, List.mem_singleton] at hpiece
    rw [hpiece]
    exact nofun
  | cons x xs ih =>
    rw [List.splitOnP_cons_eq_if_modifyHead] at hpiece
    split_ifs at hpiece with hcut
    · obtain rfl | hpiece := List.mem_cons.mp hpiece
      · exact nofun
      · exact ih hpiece
    · obtain ⟨first, more, hsplit⟩ := List.exists_cons_of_ne_nil (List.splitOnP_ne_nil cut xs)
      rw [hsplit] at hpiece ih
      obtain rfl | hpiece := List.mem_cons.mp hpiece
      · exact List.forall_mem_cons.mpr ⟨(Bool.not_eq_true _).mp hcut, ih List.mem_cons_self⟩
      · exact ih (List.mem_cons_of_mem _ hpiece)

/-- Without a separator they follow one another. -/
theorem intercalate_nil_left (pieces : List (List α)) :
    ([] : List α).intercalate pieces = pieces.flatten := by
  obtain rfl | ⟨front, last, rfl⟩ := pieces.eq_nil_or_concat
  · rfl
  · rw [List.concat_eq_append, intercalate_append_singleton, List.flatten_append,
      List.flatten_singleton]
    simp

end CelWasm
