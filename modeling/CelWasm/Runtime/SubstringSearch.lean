import CelWasm.Library.Pieces
import CelWasm.Runtime.AnchorScan
import CelWasm.Runtime.CodePoints
import CelWasm.Runtime.KeyCells
import CelWasm.Runtime.SlotStrings

/-!
# Runtime/SubstringSearch — the fast search against the naive one

The naive search tries a text at one code point after another. The fast one goes from one place of the
needle's first byte to the next and counts code points on the way, so it has to pass over no
occurrence:

    ── boundaries whose byte is another ──▸ anchor ── tried ──▸ …

An occurrence begins at a boundary with the anchor, within the window; so none is before the first
anchor, and none is anywhere if the window has no anchor.
-/

namespace CelWasm

open Utf8

/-! ## The naive search -/

/-- A text occurs in another, at an index. -/
def OccursAt (text sub : List Char) (i : ℕ) : Prop := sub <+: text.drop i

instance (text sub : List Char) : DecidablePred (OccursAt text sub) := fun i =>
  inferInstanceAs (Decidable (sub <+: text.drop i))

/-- An index, or -1. -/
def indexOrNone : Option ℕ → ℤ
  | some i => i
  | none => -1

/-- **The naive search**: the first index from a position on, one tried after another. -/
def naiveIndexOf (text sub : List Char) (pos : ℤ) : ℤ :=
  indexOrNone <| (List.range (text.length + 1)).find? fun i : ℕ => pos ≤ i ∧ OccursAt text sub i

/-- The last index below a bound that satisfies a condition, one tried after another. -/
def lastBelow (P : ℕ → Prop) [DecidablePred P] (n : ℕ) : Option ℕ :=
  (List.range n).reverse.find? fun i => P i

/-- An occurrence no later than a position, if there is one. -/
def OccursUpTo (text sub : List Char) (pos : Option ℤ) (i : ℕ) : Prop :=
  (∀ p ∈ pos, (i : ℤ) ≤ p) ∧ OccursAt text sub i

instance (text sub : List Char) (pos : Option ℤ) : DecidablePred (OccursUpTo text sub pos) := fun i =>
  inferInstanceAs (Decidable ((∀ p ∈ pos, (i : ℤ) ≤ p) ∧ OccursAt text sub i))

/-- **The naive search from behind.** -/
def naiveLastIndexOf (text sub : List Char) (pos : Option ℤ) : ℤ :=
  indexOrNone (lastBelow (OccursUpTo text sub pos) (text.length + 1))

section Naive

variable {text sub : List Char} {pos : ℤ}

theorem naiveIndexOf_eq_neg_one
    (h : ∀ i ≤ text.length, pos ≤ i → ¬ OccursAt text sub i) : naiveIndexOf text sub pos = -1 := by
  have hnone : ((List.range (text.length + 1)).find? fun i : ℕ => pos ≤ i ∧ OccursAt text sub i)
      = none := by
    rw [List.find?_eq_none]
    intro i hi
    rw [decide_eq_true_iff, not_and]
    exact h i (Nat.le_of_lt_succ (List.mem_range.mp hi))
  rw [naiveIndexOf, hnone, indexOrNone]

theorem naiveIndexOf_eq_of_first {i : ℕ} (hi : i ≤ text.length) (hpos : pos ≤ i)
    (hoccurs : OccursAt text sub i) (h : ∀ j < i, pos ≤ j → ¬ OccursAt text sub j) :
    naiveIndexOf text sub pos = i := by
  have hsome : ((List.range (text.length + 1)).find? fun i : ℕ => pos ≤ i ∧ OccursAt text sub i)
      = some i := by
    rw [List.find?_range_eq_some]
    refine ⟨decide_eq_true ⟨hpos, hoccurs⟩, List.mem_range.mpr (Nat.lt_succ_of_le hi), ?_⟩
    intro j hj
    rw [Bool.not_eq_true', decide_eq_false_iff_not, not_and]
    exact h j hj
  rw [naiveIndexOf, hsome, indexOrNone]

variable {P : ℕ → Prop} [DecidablePred P]

theorem lastBelow_succ (n : ℕ) : lastBelow P (n + 1) = if P n then some n else lastBelow P n := by
  rw [lastBelow, List.range_succ, List.reverse_append, List.reverse_singleton, List.singleton_append,
    List.find?_cons]
  by_cases h : P n
  · rw [if_pos h, decide_eq_true h]
  · rw [if_neg h, decide_eq_false h]
    rfl

/-- Where nothing satisfies the condition, the last index stays. -/
theorem lastBelow_eq_of_none {i n : ℕ} (hle : i ≤ n) (h : ∀ j, i ≤ j → j < n → ¬ P j) :
    lastBelow P n = lastBelow P i := by
  induction n, hle using Nat.le_induction with
  | base => rfl
  | succ n hle ih =>
    rw [lastBelow_succ, if_neg (h n hle (Nat.lt_succ_self n))]
    exact ih fun j hj hlt => h j hj (Nat.lt_succ_of_lt hlt)

end Naive

/-! ## Positions -/

section Positions

variable {text sub : List Char}

/-- The position of an index. -/
def position (text : List Char) (i : ℕ) : ℕ := (encode (text.take i)).length

theorem position_cons (c : Char) (text : List Char) (i : ℕ) :
    position (c :: text) (i + 1) = (encode [c]).length + position text i := by
  rw [position, List.take_succ_cons, ← List.singleton_append, encode_append, List.length_append,
    position]

theorem encode_singleton_pos (c : Char) : 0 < (encode [c]).length := by
  rw [encode_cons, encode_nil, List.append_nil]
  exact List.length_pos_of_ne_nil (sequence_utf8EncodeChar c).ne_nil

theorem drop_position (text : List Char) (i : ℕ) :
    (encode text).drop (position text i) = encode (text.drop i) := by
  conv_lhs => rw [← List.take_append_drop i text, encode_append]
  rw [position, List.drop_left' (by rw [List.take_append_drop])]

theorem position_add_length (text : List Char) (i : ℕ) :
    position text i + (encode (text.drop i)).length = (encode text).length := by
  rw [position, ← List.length_append, ← encode_append, List.take_append_drop]

/-- **A step after another reaches the boundary** at or past a target: none before it is. -/
theorem advanceToBoundary_encode : ∀ {text : List Char} {fuel ahead : ℕ} (codePoints : ℤ),
    ahead ≤ fuel → ahead ≤ (encode text).length → ∃ k ≤ text.length,
      advanceToBoundary fuel (encode text) ahead codePoints
        = (decide (position text k = ahead), encode (text.drop k), codePoints + k) ∧
      ahead ≤ position text k ∧ ∀ j < k, position text j < ahead
  | text, fuel, 0, codePoints, _, _ => by
    refine ⟨0, Nat.zero_le _, ?_, Nat.zero_le _, nofun⟩
    cases fuel <;> simp [advanceToBoundary, position]
  | [], _, ahead + 1, _, _, hlen => absurd hlen (Nat.not_succ_le_zero ahead)
  | c :: text, fuel + 1, ahead + 1, codePoints, hfuel, hlen => by
    have hpos := encode_singleton_pos c
    rw [← List.singleton_append, encode_append, List.length_append] at hlen
    rw [advanceToBoundary, drop_utf8Decode_encode_cons, utf8Decode_encode_cons]
    by_cases hover : ahead + 1 < (encode [c]).length
    · have hone : position (c :: text) 1 = (encode [c]).length := position_cons c text 0
      refine ⟨1, by simp, ?_, by omega, fun j hj => ?_⟩
      · rw [if_pos hover, decide_eq_false (by omega), Nat.cast_one]
        rfl
      · obtain rfl : j = 0 := by omega
        exact Nat.succ_pos ahead
    · obtain ⟨k, hk, heq, hle, hbelow⟩ := @advanceToBoundary_encode text fuel
        (ahead + 1 - (encode [c]).length) (codePoints + 1) (by omega) (by omega)
      have hposition := position_cons c text k
      refine ⟨k + 1, Nat.succ_le_succ hk, ?_, by omega, fun j hj => ?_⟩
      · rw [if_neg hover, heq, List.drop_succ_cons, Nat.cast_succ, add_assoc, add_comm (k : ℤ)]
        have hiff : position text k = ahead + 1 - (encode [c]).length
            ↔ position (c :: text) (k + 1) = ahead + 1 := by omega
        rw [decide_eq_decide.mpr hiff]
      · cases j with
        | zero => exact Nat.succ_pos ahead
        | succ j =>
          have hj' := hbelow j (by omega)
          rw [position_cons]
          omega

/-- An occurrence begins with the first byte. -/
theorem OccursAt.anchor {i : ℕ} {anchor : UInt8} {tail : List UInt8}
    (h : OccursAt text sub i) (hneedle : encode sub = anchor :: tail) :
    (encode text)[position text i]? = some anchor ∧
      position text i + (encode sub).length ≤ (encode text).length := by
  have hprefix := encode_isPrefix_iff.mpr h
  rw [← drop_position, hneedle] at hprefix
  rw [hneedle]
  exact getElem?_of_prefix_drop hprefix

end Positions

/-! ## A turn -/

section Turn

variable {text sub : List Char} {anchor : UInt8} {tail : List UInt8}

theorem occursAt_drop {i j : ℕ} : OccursAt (text.drop i) sub j ↔ OccursAt text sub (i + j) := by
  rw [OccursAt, OccursAt, List.drop_drop]

/-- What is left from an index on has the occurrences that are not before it. -/
theorem OccursAt.of_le {i j : ℕ} (h : OccursAt text sub j) (hij : i ≤ j) :
    OccursAt (text.drop i) sub (j - i) := by
  rwa [occursAt_drop, Nat.add_sub_cancel' hij]

/-- Behind a code point less is left. -/
theorem length_encode_drop_lt {i j : ℕ} (h : i < j) (hj : j ≤ text.length) :
    (encode (text.drop j)).length < (encode (text.drop i)).length := by
  have hi : i < text.length := by omega
  have hsplit : text.drop j = (text.drop (i + 1)).drop (j - (i + 1)) := by
    rw [List.drop_drop, Nat.add_sub_cancel' h]
  have hlen := position_add_length (text.drop (i + 1)) (j - (i + 1))
  have hpos := encode_singleton_pos text[i]
  rw [List.drop_eq_getElem_cons hi, ← List.singleton_append, encode_append, List.length_append, hsplit]
  omega

theorem length_encode_drop_le {i j : ℕ} (h : i ≤ j) (hj : j ≤ text.length) :
    (encode (text.drop j)).length ≤ (encode (text.drop i)).length := by
  obtain rfl | hlt := h.eq_or_lt
  · exact le_rfl
  · exact (length_encode_drop_lt hlt hj).le

/-- What is shorter than the needle has no occurrence. -/
theorem not_occursAt_of_short (hneedle : encode sub = anchor :: tail) {i : ℕ}
    (h : (encode (text.drop i)).length < (encode sub).length) {j : ℕ} (hij : i ≤ j) :
    ¬ OccursAt text sub j := fun hj => by
  have := ((hj.of_le hij).anchor hneedle).2
  omega

/-- What is no longer has none but in front. -/
theorem not_occursAt_of_length_eq (hneedle : encode sub = anchor :: tail) {i : ℕ}
    (h : (encode (text.drop i)).length = (encode sub).length) {j : ℕ} (hij : i < j)
    (hj : j ≤ text.length) : ¬ OccursAt text sub j :=
  not_occursAt_of_short hneedle (h ▸ length_encode_drop_lt hij hj) le_rfl

/-- **An occurrence is an anchor of the window.** -/
theorem OccursAt.mem_window (hneedle : encode sub = anchor :: tail) {i : ℕ}
    (h : OccursAt text sub i) :
    ((encode text).take ((encode text).length - (encode sub).length + 1))[position text i]?
      = some anchor := by
  obtain ⟨hget, hle⟩ := h.anchor hneedle
  rw [List.getElem?_take, if_pos (by omega), hget]

/-- **Without an anchor there is no occurrence.** -/
theorem not_occursAt_of_anchorMemchr (hneedle : encode sub = anchor :: tail) {i : ℕ}
    (h : anchorMemchr (encode (text.drop i)) anchor
      ((encode (text.drop i)).length - (encode sub).length + 1) = none) {j : ℕ} (hij : i ≤ j) :
    ¬ OccursAt text sub j := fun hj => by
  have hmem := List.mem_of_getElem? ((hj.of_le hij).mem_window hneedle)
  have hne := List.findIdx?_eq_none_iff.mp h anchor hmem
  rw [beq_self_eq_true] at hne
  exact nomatch hne

/-- **The walk to the first anchor passes over no occurrence.** -/
theorem advanceToBoundary_turn (hneedle : encode sub = anchor :: tail) {i hit : ℕ}
    (hi : i ≤ text.length) (hlong : ¬ (encode (text.drop i)).length < (encode sub).length)
    (h : anchorMemchr (encode (text.drop i)) anchor
      ((encode (text.drop i)).length - (encode sub).length + 1) = some hit) :
    ∃ k, i ≤ k ∧ k ≤ text.length ∧ (∀ j, i ≤ j → j < k → ¬ OccursAt text sub j) ∧
      ((encode sub).length ≤ (encode (text.drop k)).length ∧
          advanceToBoundary hit (encode (text.drop i)) hit i = (true, encode (text.drop k), (k : ℤ)) ∨
        i < k ∧
          advanceToBoundary hit (encode (text.drop i)) hit i
            = (false, encode (text.drop k), (k : ℤ))) := by
  obtain ⟨hlt, -, hfirst⟩ := List.findIdx?_eq_some_iff_getElem.mp h
  rw [List.length_take] at hlt
  obtain ⟨k, hk, heq, hle, hbelow⟩ := @advanceToBoundary_encode (text.drop i) hit hit i
    (le_refl hit) (by omega)
  rw [List.length_drop] at hk
  rw [List.drop_drop, ← Nat.cast_add] at heq
  refine ⟨i + k, Nat.le_add_right i k, by omega, fun j hij hj hoccurs => ?_, ?_⟩
  · obtain ⟨hpos, hget⟩ := List.getElem?_eq_some_iff.mp ((hoccurs.of_le hij).mem_window hneedle)
    exact hfirst _ (hbelow (j - i) (by omega)) (by rw [hget, beq_self_eq_true])
  · have hlen := position_add_length (text.drop i) k
    rw [List.drop_drop] at hlen
    by_cases hland : position (text.drop i) k = hit
    · rw [decide_eq_true hland] at heq
      exact .inl ⟨by omega, heq⟩
    · rw [decide_eq_false hland] at heq
      refine .inr ⟨Nat.lt_add_of_pos_right (Nat.pos_of_ne_zero fun h0 => hland ?_), heq⟩
      rw [h0] at hle ⊢
      exact (Nat.le_zero.mp hle).symm

/-- **The comparison of bytes is one of texts.** -/
theorem take_eq_needle_iff {i : ℕ} :
    (encode (text.drop i)).take (encode sub).length = encode sub ↔ OccursAt text sub i := by
  rw [OccursAt, ← encode_isPrefix_iff, List.prefix_iff_eq_take, eq_comm]

/-- A step from an index is a step to the next. -/
theorem drop_utf8Decode_encode_drop {i : ℕ} (h : i < text.length) :
    (encode (text.drop i)).drop (utf8Decode (encode (text.drop i)))
      = encode (text.drop (i + 1)) := by
  rw [List.drop_eq_getElem_cons h, drop_utf8Decode_encode_cons]

/-- Where the needle's length is left, a code point is. -/
theorem lt_length_of_needle (hneedle : encode sub = anchor :: tail) {i : ℕ}
    (h : (encode sub).length ≤ (encode (text.drop i)).length) : i < text.length := by
  by_contra hge
  rw [List.drop_eq_nil_of_le (by omega), hneedle] at h
  exact absurd h (by simp)

end Turn

/-! ## The loops -/

section Loops

variable {text sub : List Char} {anchor : UInt8} {tail : List UInt8}

/-- **The loop of `IndexOfImpl` is the naive search**, if it has passed over no occurrence so far. -/
theorem indexOfAnchored_eq (hneedle : encode sub = anchor :: tail) {pos : ℤ} :
    ∀ (fuel i : ℕ), i ≤ text.length → (encode (text.drop i)).length < fuel →
      (∀ j < i, pos ≤ j → ¬ OccursAt text sub j) →
      indexOfAnchored (encode sub) anchor pos fuel (encode (text.drop i)) i
        = naiveIndexOf text sub pos
  | 0, _, _, hfuel, _ => absurd hfuel (Nat.not_lt_zero _)
  | fuel + 1, i, hi, hfuel, hpassed => by
    have hnone : (∀ j, i ≤ j → ¬ OccursAt text sub j) → naiveIndexOf text sub pos = -1 := fun h =>
      naiveIndexOf_eq_neg_one fun j _ hpos =>
        (Nat.lt_or_ge j i).elim (fun hlt => hpassed j hlt hpos) (h j)
    rw [indexOfAnchored]
    split_ifs with hshort
    · exact (hnone fun j => not_occursAt_of_short hneedle hshort).symm
    cases hmemchr : anchorMemchr (encode (text.drop i)) anchor
        ((encode (text.drop i)).length - (encode sub).length + 1) with
    | none => exact (hnone fun j => not_occursAt_of_anchorMemchr hneedle hmemchr).symm
    | some hit =>
      obtain ⟨k, hik, hk, hbetween, ⟨hlong, hland⟩ | ⟨hlt, hpast⟩⟩ :=
        advanceToBoundary_turn hneedle hi hshort hmemchr
      all_goals
        have hpassed' : ∀ j < k, pos ≤ j → ¬ OccursAt text sub j := fun j hj hpos =>
          (Nat.lt_or_ge j i).elim (fun hlt => hpassed j hlt hpos) fun hge => hbetween j hge hj
      · have hlast := lt_length_of_needle hneedle hlong
        simp only [hland, take_eq_needle_iff, drop_utf8Decode_encode_drop hlast]
        by_cases hfound : pos ≤ k ∧ OccursAt text sub k
        · rw [if_pos hfound, naiveIndexOf_eq_of_first hk hfound.1 hfound.2 hpassed']
        have htried : ∀ j < k + 1, pos ≤ j → ¬ OccursAt text sub j := fun j hj hpos hoccurs => by
          obtain hjk | rfl := Nat.lt_succ_iff_lt_or_eq.mp hj
          · exact hpassed' j hjk hpos hoccurs
          · exact hfound ⟨hpos, hoccurs⟩
        rw [if_neg hfound]
        split_ifs with hend
        · refine (naiveIndexOf_eq_neg_one fun j hj hpos => ?_).symm
          obtain hle | hlt := Nat.lt_or_ge j (k + 1)
          · exact htried j hle hpos
          · exact not_occursAt_of_length_eq hneedle hend hlt hj
        · have hless := length_encode_drop_lt (Nat.lt_add_one k) hlast
          have hstep := length_encode_drop_le hik hk
          exact indexOfAnchored_eq hneedle fuel (k + 1) hlast (by omega) htried
      · simp only [hpast]
        have hless := length_encode_drop_lt hlt hk
        exact indexOfAnchored_eq hneedle fuel k hk (by omega) hpassed'

/-- The last occurrence there is, once nothing more can come. -/
theorem indexOrNone_lastBelow {P : ℕ → Prop} [DecidablePred P] {n i : ℕ} {last : ℤ} (hi : i ≤ n)
    (hlast : last = indexOrNone (lastBelow P i)) (h : ∀ j, i ≤ j → j < n → ¬ P j) :
    last = indexOrNone (lastBelow P n) := by
  rw [hlast, lastBelow_eq_of_none hi h]

/-- **The loop of `LastIndexOfImpl` is the naive search from behind**, if it has the last occurrence so
far. -/
theorem lastIndexOfAnchored_eq (hneedle : encode sub = anchor :: tail) {pos : Option ℤ} :
    ∀ (fuel i : ℕ) (last : ℤ), i ≤ text.length → (encode (text.drop i)).length < fuel →
      last = indexOrNone (lastBelow (OccursUpTo text sub pos) i) →
      lastIndexOfAnchored (encode sub) anchor pos fuel (encode (text.drop i)) i last
        = naiveLastIndexOf text sub pos
  | 0, _, _, _, hfuel, _ => absurd hfuel (Nat.not_lt_zero _)
  | fuel + 1, i, last, hi, hfuel, hlast => by
    rw [lastIndexOfAnchored]
    split_ifs with hshort
    · exact indexOrNone_lastBelow (by omega) hlast fun j hij _ h =>
        not_occursAt_of_short hneedle hshort hij h.2
    cases hmemchr : anchorMemchr (encode (text.drop i)) anchor
        ((encode (text.drop i)).length - (encode sub).length + 1) with
    | none =>
      exact indexOrNone_lastBelow (by omega) hlast fun j hij _ h =>
        not_occursAt_of_anchorMemchr hneedle hmemchr hij h.2
    | some hit =>
      obtain ⟨k, hik, hk, hbetween, ⟨hlong, hland⟩ | ⟨hlt, hpast⟩⟩ :=
        advanceToBoundary_turn hneedle hi hshort hmemchr
      all_goals
        have hlast' : last = indexOrNone (lastBelow (OccursUpTo text sub pos) k) :=
          indexOrNone_lastBelow hik hlast fun j hij hj h => hbetween j hij hj h.2
      · have hless := lt_length_of_needle hneedle hlong
        simp only [hland, take_eq_needle_iff, drop_utf8Decode_encode_drop hless, Option.any_eq_true,
          decide_eq_true_iff]
        by_cases hbeyond : ∃ p, pos = some p ∧ p < (k : ℤ)
        · obtain ⟨p, hp, hlt⟩ := hbeyond
          rw [if_pos ⟨p, hp, hlt⟩]
          exact indexOrNone_lastBelow (by omega) hlast' fun j hkj _ h =>
            absurd (h.1 p hp) (by omega)
        rw [if_neg hbeyond]
        push Not at hbeyond
        have hnow : (if OccursAt text sub k then (k : ℤ) else last)
            = indexOrNone (lastBelow (OccursUpTo text sub pos) (k + 1)) := by
          have hiff : OccursUpTo text sub pos k ↔ OccursAt text sub k := and_iff_right hbeyond
          rw [lastBelow_succ, if_congr hiff rfl rfl, hlast']
          split_ifs <;> rfl
        rw [hnow]
        split_ifs with hend
        · refine indexOrNone_lastBelow (by omega) rfl fun j hkj hj h => ?_
          obtain ⟨p, hp, hle⟩ | hlen := hend
          · exact absurd (h.1 p hp) (by omega)
          · exact not_occursAt_of_length_eq hneedle hlen hkj (Nat.le_of_lt_succ hj) h.2
        · have hshorter := length_encode_drop_lt (Nat.lt_add_one k) hless
          have hstep := length_encode_drop_le hik hk
          exact lastIndexOfAnchored_eq hneedle fuel (k + 1) _ hless (by omega) rfl
      · simp only [hpast]
        have hless := length_encode_drop_lt hlt hk
        exact lastIndexOfAnchored_eq hneedle fuel k last hk (by omega) hlast'

end Loops

/-! ## The empty needle -/

section Empty

variable {text : List Char}

theorem encode_drop_eq_nil {i : ℕ} (h : encode (text.drop i) = []) (hi : i ≤ text.length) :
    i = text.length := by
  by_contra hne
  have := length_encode_drop_lt (lt_of_le_of_ne hi hne) le_rfl
  rw [h] at this
  exact Nat.not_lt_zero _ this

theorem lt_length_of_encode_drop {i : ℕ} (h : encode (text.drop i) ≠ []) : i < text.length := by
  by_contra hge
  rw [List.drop_eq_nil_of_le (Nat.le_of_not_lt hge)] at h
  exact h rfl

theorem occursAt_nil (i : ℕ) : OccursAt text [] i := List.nil_prefix

theorem indexOfEmpty_eq {pos : ℤ} : ∀ (fuel i : ℕ), i ≤ text.length →
    (encode (text.drop i)).length < fuel → (∀ j < i, ¬ pos ≤ j) →
      indexOfEmpty pos fuel (encode (text.drop i)) i = naiveIndexOf text [] pos
  | 0, _, _, hfuel, _ => absurd hfuel (Nat.not_lt_zero _)
  | fuel + 1, i, hi, hfuel, hpassed => by
    rw [indexOfEmpty]
    split_ifs with hpos hend
    · exact (naiveIndexOf_eq_of_first hi hpos (occursAt_nil i)
        fun j hj hle => absurd hle (hpassed j hj)).symm
    · have hlen := encode_drop_eq_nil hend hi
      refine (naiveIndexOf_eq_neg_one fun j hj hle => absurd hle ?_).symm
      obtain hlt | heq := hj.lt_or_eq
      · exact hpassed j (hlen ▸ hlt)
      · rwa [heq, ← hlen]
    · have hlt := lt_length_of_encode_drop hend
      have hless := length_encode_drop_lt (Nat.lt_add_one i) hlt
      rw [drop_utf8Decode_encode_drop hlt]
      refine indexOfEmpty_eq fuel (i + 1) hlt (by omega) fun j hj => ?_
      obtain hji | rfl := Nat.lt_succ_iff_lt_or_eq.mp hj
      · exact hpassed j hji
      · exact hpos

theorem lastIndexOfEmpty_eq {pos : Option ℤ} : ∀ (fuel i : ℕ), i ≤ text.length →
    (encode (text.drop i)).length < fuel → (∀ p ∈ pos, (i : ℤ) ≤ p) →
      lastIndexOfEmpty pos fuel (encode (text.drop i)) i = naiveLastIndexOf text [] pos
  | 0, _, _, hfuel, _ => absurd hfuel (Nat.not_lt_zero _)
  | fuel + 1, i, hi, hfuel, hupto => by
    have hlast : (i : ℤ) = indexOrNone (lastBelow (OccursUpTo text [] pos) (i + 1)) := by
      rw [lastBelow_succ, if_pos ⟨hupto, occursAt_nil i⟩, indexOrNone]
    rw [lastIndexOfEmpty]
    split_ifs with hstop
    · refine indexOrNone_lastBelow (by omega) hlast fun j hij hj h => ?_
      obtain hpast | hend := hstop
      · obtain ⟨p, hp, hle⟩ := (Option.any_eq_true _ _).mp hpast
        have := h.1 p hp
        have := of_decide_eq_true hle
        omega
      · have := encode_drop_eq_nil hend hi
        omega
    · rw [not_or] at hstop
      have hlt := lt_length_of_encode_drop hstop.2
      have hless := length_encode_drop_lt (Nat.lt_add_one i) hlt
      rw [drop_utf8Decode_encode_drop hlt]
      refine lastIndexOfEmpty_eq fuel (i + 1) hlt (by omega) fun p hp => ?_
      by_contra hge
      exact hstop.1 ((Option.any_eq_true _ _).mpr ⟨p, hp, decide_eq_true (by omega)⟩)

end Empty

/-! ## Bytes in bytes -/

section Bytes

variable {sub : List UInt8}

theorem spanMatchAt_iff {hay : List UInt8} {i : ℕ} :
    spanMatchAt hay i sub = true ↔ sub <+: hay.drop i := by
  rw [spanMatchAt, beq_iff_eq, List.prefix_iff_eq_take, eq_comm]

/-- **The loop of `span_contains` finds what is there.** -/
theorem spanContainsFrom_iff {anchor : UInt8} {tail : List UInt8} (hsub : sub = anchor :: tail) :
    ∀ (fuel : ℕ) (rest : List UInt8), sub.length ≤ rest.length → rest.length < fuel →
      (spanContainsFrom sub anchor fuel rest = true ↔ sub <:+: rest)
  | 0, _, _, hfuel => absurd hfuel (Nat.not_lt_zero _)
  | fuel + 1, rest, hlong, hfuel => by
    have hwindow : ∀ i, sub <+: rest.drop i →
        (rest.take (rest.length - sub.length + 1))[i]? = some anchor := by
      intro i hi
      rw [hsub] at hi
      obtain ⟨hget, hle⟩ := getElem?_of_prefix_drop hi
      rw [← hsub] at hle
      rw [List.getElem?_take, if_pos (by omega), hget]
    rw [spanContainsFrom]
    cases hmemchr : anchorMemchr rest anchor (rest.length - sub.length + 1) with
    | none =>
      refine iff_of_false Bool.false_ne_true fun hin => ?_
      obtain ⟨i, hi⟩ := isInfix_iff_prefix_drop.mp hin
      have hne := List.findIdx?_eq_none_iff.mp hmemchr anchor (List.mem_of_getElem? (hwindow i hi))
      rw [beq_self_eq_true] at hne
      exact nomatch hne
    | some hit =>
      obtain ⟨hlt, -, hfirst⟩ := List.findIdx?_eq_some_iff_getElem.mp hmemchr
      rw [List.length_take] at hlt
      have hbefore : ∀ i < hit, ¬ sub <+: rest.drop i := fun i hi hprefix => by
        obtain ⟨hpos, hget⟩ := List.getElem?_eq_some_iff.mp (hwindow i hprefix)
        exact hfirst i hi (by rw [hget, beq_self_eq_true])
      dsimp only
      by_cases hmatch : spanMatchAt rest hit sub = true
      · rw [if_pos hmatch]
        exact iff_of_true rfl (isInfix_iff_prefix_drop.mpr ⟨hit, spanMatchAt_iff.mp hmatch⟩)
      rw [if_neg hmatch]
      -- what is not before the hit and not there is behind it
      have hbehind : ∀ i, sub <+: rest.drop i → hit < i := fun i hi => by
        by_contra hle
        obtain hlt | rfl := (Nat.le_of_not_lt hle).lt_or_eq
        · exact hbefore i hlt hi
        · exact hmatch (spanMatchAt_iff.mpr hi)
      split_ifs with hend
      · refine iff_of_false nofun fun hin => ?_
        obtain ⟨i, hi⟩ := isInfix_iff_prefix_drop.mp hin
        have hlt := hbehind i hi
        have hpos := (List.getElem?_eq_some_iff.mp (hwindow i hi)).1
        rw [List.length_take] at hpos
        omega
      · have hlen : (rest.drop (hit + 1)).length = rest.length - (hit + 1) := List.length_drop
        rw [spanContainsFrom_iff hsub fuel _ (by omega) (by omega)]
        refine ⟨fun h => h.trans (List.drop_suffix _ rest).isInfix, fun hin => ?_⟩
        obtain ⟨i, hi⟩ := isInfix_iff_prefix_drop.mp hin
        refine isInfix_iff_prefix_drop.mpr ⟨i - (hit + 1), ?_⟩
        rw [List.drop_drop, Nat.add_sub_cancel' (hbehind i hi)]
        exact hi

theorem spanContains_iff {hay sub : List UInt8} : spanContains hay sub = true ↔ sub <:+: hay := by
  cases sub with
  | nil => exact iff_of_true rfl List.nil_infix
  | cons anchor tail =>
    rw [spanContains]
    split_ifs with hshort
    · refine iff_of_false nofun fun h => ?_
      have := h.length_le
      rw [List.length_cons] at this
      omega
    · exact spanContainsFrom_iff rfl _ hay (Nat.le_of_not_lt hshort) (Nat.lt_succ_self _)

end Bytes

/-! ## The search -/

section Search

variable {text sub : List Char}

theorem encode_cons_ne_nil (c : Char) (text : List Char) : encode (c :: text) ≠ [] := by
  rw [encode_cons]
  exact fun h => (sequence_utf8EncodeChar c).ne_nil (List.append_eq_nil_iff.mp h).1

/-- A position before the first index is no other than the first. -/
theorem naiveIndexOf_max (pos : ℤ) : naiveIndexOf text sub (max pos 0) = naiveIndexOf text sub pos := by
  have hiff : ∀ i : ℕ, max pos 0 ≤ i ↔ pos ≤ i := by omega
  rw [naiveIndexOf, naiveIndexOf]
  simp only [hiff]

/-- **`IndexOfImpl` is the naive search.** -/
theorem indexOfImpl_eq (pos : Int64) :
    indexOfImpl (encode text) (encode sub) pos = naiveIndexOf text sub pos.toInt := by
  rw [← naiveIndexOf_max]
  cases sub with
  | nil => exact indexOfEmpty_eq _ 0 (Nat.zero_le _) (Nat.lt_succ_self _) nofun
  | cons c sub =>
    obtain ⟨anchor, tail, hneedle⟩ := List.exists_cons_of_ne_nil (encode_cons_ne_nil c sub)
    have hloop : ∀ haystack needle, needle = anchor :: tail → indexOfImpl haystack needle pos
        = indexOfAnchored needle anchor (max pos.toInt 0) (haystack.length + 1) haystack 0 := by
      rintro haystack needle rfl
      rfl
    rw [hloop _ _ hneedle]
    exact indexOfAnchored_eq hneedle _ 0 (Nat.zero_le _) (Nat.lt_succ_self _) nofun

/-- **`LastIndexOfImpl` is the naive search from behind.** -/
theorem lastIndexOfImpl_eq {pos : Option Int64} (hpos : ∀ p ∈ pos, 0 ≤ p) :
    lastIndexOfImpl (encode text) (encode sub) pos
      = naiveLastIndexOf text sub (pos.map Int64.toInt) := by
  cases sub with
  | nil =>
    refine lastIndexOfEmpty_eq _ 0 (Nat.zero_le _) (Nat.lt_succ_self _) fun p hp => ?_
    obtain ⟨q, hq, rfl⟩ := Option.map_eq_some_iff.mp hp
    exact Int64.le_iff_toInt_le.mp (hpos q hq)
  | cons c sub =>
    obtain ⟨anchor, tail, hneedle⟩ := List.exists_cons_of_ne_nil (encode_cons_ne_nil c sub)
    have hloop : ∀ haystack needle, needle = anchor :: tail → lastIndexOfImpl haystack needle pos
        = lastIndexOfAnchored needle anchor (pos.map Int64.toInt) (haystack.length + 1) haystack 0
            (-1) := by
      rintro haystack needle rfl
      rfl
    rw [hloop _ _ hneedle]
    exact lastIndexOfAnchored_eq hneedle _ 0 (-1) (Nat.zero_le _) (Nat.lt_succ_self _) rfl

/-- **The fast search is the naive one**, in either build: bytes are found and compared and ASCII is
skipped as it is one byte at a time, an index is that of the first occurrence from a position on, or
of the last up to one, and a span contains another exactly when it is there. -/
theorem fastSearch_eq_naive (build : ScanBuild) :
    (∀ rest anchor window,
      celAnchorMemchr build anchor (rest.take window) = anchorMemchr rest anchor window) ∧
    (∀ rest ahead codePoints, advanceToBoundaryIn build ahead rest ahead codePoints
      = advanceToBoundary ahead rest ahead codePoints) ∧
    (∀ m pa pb n, celByteptrEqual m pa pb n = true ↔ m.read pa n = m.read pb n) ∧
    (∀ text sub (pos : Int64),
      indexOfImpl (encode text) (encode sub) pos = naiveIndexOf text sub pos.toInt) ∧
    (∀ text sub, lastIndexOfImpl (encode text) (encode sub) none = naiveLastIndexOf text sub none) ∧
    (∀ text sub (pos : Int64), 0 ≤ pos → lastIndexOfImpl (encode text) (encode sub) (some pos)
      = naiveLastIndexOf text sub (some pos.toInt)) ∧
    ∀ hay sub, spanContains hay sub = true ↔ sub <:+: hay :=
  ⟨fun rest anchor window => celAnchorMemchr_eq build anchor (rest.take window),
    fun _ _ _ => advanceToBoundaryIn_eq build le_rfl, fun _ _ _ _ => celByteptrEqual_iff,
    fun _ _ => indexOfImpl_eq, fun _ _ => lastIndexOfImpl_eq nofun,
    fun _ _ pos h => lastIndexOfImpl_eq fun p hp => by rwa [← Option.some.inj hp],
    fun _ _ => spanContains_iff⟩

/-- The last `"é"` of `"éaé"` up to index 1. -/
theorem fastSearch_eq_naive_last :
    lastIndexOfImpl (encode ['é', 'a', 'é']) (encode ['é']) (some 1)
      = naiveLastIndexOf ['é', 'a', 'é'] ['é'] (some 1) :=
  (fastSearch_eq_naive .simd128).2.2.2.2.2.1 _ _ 1 (by decide)

end Search

end CelWasm
