import Mathlib.Algebra.Ring.Parity
import Mathlib.Data.List.DropRight
import Mathlib.Data.List.Induction

/-!
# Library/Escaping — texts between delimiters

A text is put between two delimiters with an escape in front of what must not stand there bare. What
is escaped, the delimiter and the escape among it, is written as the escape and a letter; the letters
are told apart. A symbol of the result is escaped when the escapes directly in front of it are odd in
number, so that of the delimiters the first and the last are the bare ones, and to read the text back
is to go on until the bare one.

    a  ↦  a            esc  ↦  esc l            delim … delim
-/

namespace CelWasm

variable {α : Type}

/-- **A way of escaping**: the letters of what is escaped, and what a letter stands for. -/
structure Escaping (α : Type) where
  esc : α
  delim : α
  letter : α → Option α
  unletter : α → Option α
  esc_ne_delim : esc ≠ delim
  isSome_letter_esc : (letter esc).isSome = true
  isSome_letter_delim : (letter delim).isSome = true
  unletter_letter : ∀ a l, letter a = some l → unletter l = some a

namespace Escaping

variable (E : Escaping α)

/-- One symbol. -/
def escape (a : α) : List α :=
  match E.letter a with
  | some l => [E.esc, l]
  | none => [a]

/-- A text, between delimiters. -/
def quoted (s : List α) : List α := E.delim :: s.flatMap E.escape ++ [E.delim]

theorem letter_eq_none {a : α} (h : E.letter a = none) : a ≠ E.delim ∧ a ≠ E.esc := by
  refine ⟨fun heq => ?_, fun heq => ?_⟩
  · have hsome := E.isSome_letter_delim
    rw [← heq, h] at hsome
    exact Bool.false_ne_true hsome
  · have hsome := E.isSome_letter_esc
    rw [← heq, h] at hsome
    exact Bool.false_ne_true hsome

variable [DecidableEq α]

/-- Read to the bare delimiter: the text, and what is left behind it. -/
def readBody : List α → Option (List α × List α)
  | [] => none
  | [c] => if c = E.delim then some ([], []) else none
  | c :: l :: rest =>
    if c = E.delim then some ([], l :: rest)
    else if c = E.esc then
      match E.unletter l with
      | some a => (readBody rest).map fun (text, left) => (a :: text, left)
      | none => none
    else (readBody (l :: rest)).map fun (text, left) => (c :: text, left)

/-- Read a text between delimiters. -/
def unquote : List α → Option (List α × List α)
  | [] => none
  | c :: rest => if c = E.delim then E.readBody rest else none

/-- A symbol behind these is escaped. -/
def Escaped (front : List α) : Prop := Odd (front.rtakeWhile (· = E.esc)).length

variable {E}

theorem readBody_delim (rest : List α) : E.readBody (E.delim :: rest) = some ([], rest) := by
  cases rest <;> exact if_pos rfl

/-- Before more, what is not escaped stands for itself. -/
theorem readBody_bare {a : α} {rest : List α} (ha : E.letter a = none) (hrest : rest ≠ []) :
    E.readBody (a :: rest) = (E.readBody rest).map fun (text, left) => (a :: text, left) := by
  obtain ⟨hdelim, hesc⟩ := E.letter_eq_none ha
  obtain ⟨l, rest, rfl⟩ := List.exists_cons_of_ne_nil hrest
  exact (if_neg hdelim).trans (if_neg hesc)

theorem readBody_escaped {a l : α} {rest : List α} (ha : E.letter a = some l) :
    E.readBody (E.esc :: l :: rest)
      = (E.readBody rest).map fun (text, left) => (a :: text, left) := by
  refine (if_neg E.esc_ne_delim).trans ((if_pos rfl).trans ?_)
  rw [E.unletter_letter a l ha]

/-- **What is escaped is read back**, whatever stands behind it. -/
theorem readBody_escape (s rest : List α) :
    E.readBody (s.flatMap E.escape ++ E.delim :: rest) = some (s, rest) := by
  induction s with
  | nil => exact readBody_delim rest
  | cons a s ih =>
    rw [List.flatMap_cons, List.append_assoc, escape]
    cases h : E.letter a with
    | some l =>
      change E.readBody (E.esc :: l :: (s.flatMap E.escape ++ E.delim :: rest)) = _
      rw [readBody_escaped h, ih]
      rfl
    | none =>
      have hmore : s.flatMap E.escape ++ E.delim :: rest ≠ [] :=
        List.append_ne_nil_of_right_ne_nil _ (List.cons_ne_nil _ _)
      rw [List.singleton_append, readBody_bare h hmore, ih]
      rfl

theorem unquote_quoted (s rest : List α) : E.unquote (E.quoted s ++ rest) = some (s, rest) := by
  rw [quoted, List.cons_append, List.cons_append, unquote, if_pos rfl, List.append_assoc]
  exact readBody_escape s rest

/-- **Texts are told apart by their quoted forms.** -/
theorem quoted_injective : Function.Injective E.quoted := by
  intro s t h
  have hs := @unquote_quoted α E _ s []
  rw [h, unquote_quoted] at hs
  exact (Prod.mk.inj (Option.some.inj hs)).1.symm

/-! ## What is bare -/

theorem not_escaped_nil : ¬ E.Escaped [] := Nat.not_odd_zero

/-- Whether the next symbol is escaped, after one more. -/
theorem escaped_concat {front : List α} {c : α} :
    E.Escaped (front ++ [c]) ↔ c = E.esc ∧ ¬ E.Escaped front := by
  rw [Escaped, Escaped, List.rtakeWhile_concat]
  by_cases h : c = E.esc
  · simp [h, Nat.odd_add_one]
  · simp [h]

/-- Behind a text whose next symbol is bare, it counts from there. -/
theorem escaped_append {front back : List α} (h : ¬ E.Escaped front) :
    E.Escaped (front ++ back) ↔ E.Escaped back := by
  induction back using List.reverseRecOn with
  | nil => rw [List.append_nil, iff_false_intro h, iff_false_intro not_escaped_nil]
  | append_singleton init c ih => rw [← List.append_assoc, escaped_concat, escaped_concat, ih]

theorem not_escaped_escape (a : α) : ¬ E.Escaped (E.escape a) := by
  rw [escape]
  cases h : E.letter a with
  | some l =>
    rintro hodd
    obtain ⟨-, hone⟩ := escaped_concat.mp (show E.Escaped ([E.esc] ++ [l]) from hodd)
    exact hone (escaped_concat.mpr ⟨rfl, not_escaped_nil⟩)
  | none => exact fun hodd => (E.letter_eq_none h).2 (@escaped_concat α E _ [] a |>.mp hodd).1

theorem not_escaped_flatMap (s : List α) : ¬ E.Escaped (s.flatMap E.escape) := by
  induction s with
  | nil => exact not_escaped_nil
  | cons a s ih => rwa [List.flatMap_cons, escaped_append (not_escaped_escape a)]

/-- A delimiter that one symbol writes is escaped. -/
theorem escaped_of_escape {a : α} {front back : List α} (h : E.escape a = front ++ E.delim :: back) :
    E.Escaped front := by
  rw [escape] at h
  cases ha : E.letter a with
  | some l =>
    rw [ha] at h
    match front, h with
    | [], h => exact absurd (List.cons.inj h).1 E.esc_ne_delim
    | [c], h =>
      rw [← (List.cons.inj h).1]
      exact escaped_concat.mpr ⟨rfl, not_escaped_nil⟩
    | _ :: _ :: _, h => exact absurd (congrArg List.length h) (by simp)
  | none =>
    rw [ha] at h
    match front, h with
    | [], h => exact absurd (List.cons.inj h).1 (E.letter_eq_none ha).1
    | _ :: _, h => exact absurd (congrArg List.length h) (by simp)

/-- **Every delimiter of an escaped text is escaped.** -/
theorem escaped_of_flatMap {s front back : List α}
    (h : s.flatMap E.escape = front ++ E.delim :: back) : E.Escaped front := by
  induction s generalizing front with
  | nil => exact absurd h.symm (List.append_ne_nil_of_right_ne_nil _ (List.cons_ne_nil _ _))
  | cons a s ih =>
    rw [List.flatMap_cons] at h
    obtain ⟨front', rfl, hrest⟩ | ⟨mid, ha, hrest⟩ := List.append_eq_append_iff.mp h
    · exact (escaped_append (not_escaped_escape a)).mpr (ih hrest)
    · cases mid with
      | nil => exact absurd (@ih [] hrest.symm) not_escaped_nil
      | cons c mid =>
        rw [← (List.cons.inj hrest).1] at ha
        exact escaped_of_escape ha

/-- **Of the delimiters of a quoted text** the first and the last are the bare ones. -/
theorem quoted_bare {s front back : List α} (h : E.quoted s = front ++ E.delim :: back) :
    ¬ E.Escaped front ↔ front = [] ∨ back = [] := by
  have hdelim : ¬ E.Escaped [E.delim] := fun hodd =>
    E.esc_ne_delim (@escaped_concat α E _ [] E.delim |>.mp hodd).1.symm
  cases front with
  | nil => exact iff_of_true not_escaped_nil (.inl rfl)
  | cons c front =>
    obtain ⟨rfl, hbody⟩ := List.cons.inj h
    have hfront : E.Escaped (E.delim :: front) ↔ E.Escaped front := escaped_append hdelim
    rw [hfront]
    obtain rfl | ⟨init, last, rfl⟩ := List.eq_nil_or_concat' back
    · obtain rfl := (List.append_inj' hbody rfl).1
      exact iff_of_true (not_escaped_flatMap s) (.inr rfl)
    · have hinner : s.flatMap E.escape ++ [E.delim] = (front ++ E.delim :: init) ++ [last] := by
        rw [List.append_assoc, List.cons_append]
        exact hbody
      refine iff_of_false (fun hbare => hbare ?_) (by simp)
      exact escaped_of_flatMap (List.append_inj' hinner rfl).1

end Escaping

end CelWasm
