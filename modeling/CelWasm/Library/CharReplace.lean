import Mathlib.Init
import Mathlib.Order.Defs.Unbundled

/-!
# Library/CharReplace — one character for another

To replace a text of one character by a text of one character is to map the characters: the searcher
cuts a string into matches, each of them the character, and stretches without it.
-/

namespace CelWasm

open String.Slice.Pattern String.Slice.Pattern.Model

/-- One character for another. -/
def swapChar (c d : Char) (x : Char) : Char := if x = c then d else x

section

variable {c d : Char} {pat rep : String} {s : String.Slice}

/-- What a step of the searcher adds to the text. -/
def replaceStep (rep : String) (sofar : String) : SearchStep s → String
  | .matched _ _ => sofar ++ rep.toSlice
  | .rejected start stop => sofar ++ s.slice! start stop

/-- A stretch in which the pattern is nowhere does not have its character. -/
theorem not_mem_of_forall_not_matchesAt (hpat : pat.toList = [c]) {p q : s.Pos} {before mid after : String}
    (hp : p.Splits before (mid ++ after)) (hq : q.Splits (before ++ mid) after)
    (h : ∀ pos, p ≤ pos → pos < q → ¬MatchesAt pat pos) : c ∉ mid.toList := by
  intro hc
  obtain ⟨u, v, huv⟩ := List.append_of_mem hc
  obtain rfl : mid = String.ofList u ++ (pat ++ String.ofList v) :=
    String.toList_inj.mp (by simp [huv, hpat])
  have hcopy : s.copy = before ++ String.ofList u ++ (pat ++ (String.ofList v ++ after)) := by
    rw [hp.eq_append]
    simp only [String.append_assoc]
  have hr := String.Slice.Pos.splits_ofEqAppend hcopy
  refine h _ ?_ ?_ (ForwardStringSearcher.matchesAt_iff_splits.mpr ⟨_, _, hr⟩)
  · exact (String.Slice.Pos.Splits.le_iff_exists_eq_append hp hr).mpr
      ⟨String.ofList u, rfl, by simp only [String.append_assoc]⟩
  · refine (String.Slice.Pos.Splits.lt_iff_exists_eq_append hr hq).mpr
      ⟨pat ++ String.ofList v, ?_, by simp only [String.append_assoc], by simp only [String.append_assoc]⟩
    intro hnil
    have := congrArg String.toList hnil
    simp [hpat] at this

/-- **The steps of a search** add what is left of the text, character by character. -/
theorem foldl_replaceStep (hpat : pat.toList = [c]) (hrep : rep.toList = [d]) {p : s.Pos}
    {steps : List (SearchStep s)} (h : IsValidSearchFrom pat p steps) {before after : String}
    (hp : p.Splits before after) (sofar : String) :
    (steps.foldl (replaceStep rep) sofar).toList
      = sofar.toList ++ after.toList.map (swapChar c d) := by
  induction h generalizing before after sofar with
  | endPos =>
    obtain rfl : after = "" := hp.eq_endPos_iff.mp rfl
    simp
  | @matched _ start stop hmatch _ ih =>
    obtain ⟨u, v, hstart, hstop⟩ := ForwardStringSearcher.isLongestMatchAt_iff_splits.mp hmatch
    obtain rfl : after = pat ++ v := hp.eq_right hstart
    rw [List.foldl_cons, ih hstop]
    simp [replaceStep, hpat, hrep, swapChar]
  | @mismatched _ start stop hlt hnone _ ih =>
    obtain ⟨t, -, hbefore, rfl⟩ :=
      (String.Slice.Pos.Splits.lt_iff_exists_eq_append hp stop.splits).mp hlt
    have hstop := stop.splits
    rw [hbefore] at hstop
    obtain ⟨hle, hslice⟩ := String.Slice.copy_slice_eq_iff_splits.mpr ⟨before, _, hp, hstop⟩
    have habsent := not_mem_of_forall_not_matchesAt hpat hp hstop hnone
    have hkept : t.toList.map (swapChar c d) = t.toList :=
      (List.map_congr_left fun x hx => if_neg (ne_of_mem_of_not_mem hx habsent)).trans
        (List.map_id' _)
    rw [List.foldl_cons, ih hstop]
    simp [replaceStep, hkept, String.Slice.slice!, hle, hslice]

end

/-- **Replacing a character.** -/
theorem toList_replace {c d : Char} {pat rep : String} (hpat : pat.toList = [c])
    (hrep : rep.toList = [d]) (text : String) :
    (text.replace pat rep).toList = text.toList.map (swapChar c d) := by
  have hne : pat ≠ "" := fun h => by rw [h] at hpat; exact nomatch hpat
  have hsearch := (ForwardStringSearcher.lawfulToForwardSearcherModel hne).isValidSearchFrom_toList
    text.toSlice
  have hsteps := foldl_replaceStep hpat hrep hsearch (String.Slice.splits_startPos _) ""
  have hreplace : text.replace pat rep = (ToForwardSearcher.toSearcher pat text.toSlice).toList.foldl
      (replaceStep rep) "" := by
    rw [Std.Iter.foldl_toList]
    change String.Slice.replace _ _ _ = _
    rw [String.Slice.replace]
    congr 1
    funext sofar step
    cases step <;> rfl
  rw [hreplace, hsteps]
  simp

end CelWasm
