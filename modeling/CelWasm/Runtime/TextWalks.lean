import CelWasm.Library.Pieces
import CelWasm.Runtime.SplitJoin
import CelWasm.Runtime.TextKernels

/-!
# Runtime/TextWalks — what the walks cut off a well-formed string

Every walk stops between two sequences: it gets there step by step, or at an occurrence of a
well-formed string, whose first byte continues nothing. What is cut there, and what is put together
from such pieces, is well-formed.
-/

namespace CelWasm

open Utf8

/-! ## Steps -/

section Steps

variable {b : UInt8} {bs s t : List UInt8}

/-- **A step over a well-formed string** is over its first sequence. -/
theorem sequence_take_utf8Decode (h : WellFormed (b :: bs)) :
    Sequence ((b :: bs).take (utf8Decode (b :: bs))) ∧
      WellFormed ((b :: bs).drop (utf8Decode (b :: bs))) := by
  obtain hnil | ⟨q, rest, hq, hrest, heq⟩ := wellFormed_iff.mp h
  · exact absurd hnil (List.cons_ne_nil b bs)
  · rw [heq, utf8Decode_sequence hq, List.take_left, List.drop_left]
    exact ⟨hq, hrest⟩

/-- …and ends at a cut. -/
theorem isCut_utf8Decode (h : WellFormed (b :: bs)) : IsCut (b :: bs) (utf8Decode (b :: bs)) := by
  obtain ⟨hq, hrest⟩ := sequence_take_utf8Decode h
  refine ⟨?_, hrest⟩
  rw [← List.append_nil (List.take _ _), wellFormed_sequence_append hq]
  exact wellFormed_nil

theorem wellFormed_charAtWalk {fuel n : ℕ} (hs : WellFormed s)
    (h : charAtWalk fuel s n = some t) : WellFormed t := by
  fun_induction charAtWalk fuel s n with
  | case1 =>
    obtain rfl := Option.some.inj h
    exact wellFormed_nil
  | case2 => exact nomatch h
  | case3 => exact nomatch h
  | case4 fuel b bs =>
    obtain rfl := Option.some.inj h
    exact (isCut_utf8Decode hs).take
  | case5 fuel b bs n ih => exact ih (isCut_utf8Decode hs).drop h

theorem isCut_byteOffsetWalk {fuel n offset k : ℕ} (hs : WellFormed s)
    (h : byteOffsetWalk fuel s n offset = some k) : ∃ d, k = offset + d ∧ IsCut s d := by
  fun_induction byteOffsetWalk fuel s n offset with
  | case1 => exact ⟨0, (Option.some.inj h).symm, hs.isCut_zero⟩
  | case2 => cases h
  | case3 => cases h
  | case4 fuel b bs n offset units ih =>
    have hstep := isCut_utf8Decode hs
    obtain ⟨d, rfl, hd⟩ := ih hstep.drop h
    exact ⟨units + d, Nat.add_assoc offset units d, hstep.add hd⟩

/-- **A code point index is a cut.** -/
theorem isCut_codepointToByteOffset {n : Int64} {k : ℕ} (hs : WellFormed s)
    (h : codepointToByteOffset s n = some k) : IsCut s k := by
  rw [codepointToByteOffset] at h
  split_ifs at h
  obtain ⟨d, rfl, hd⟩ := isCut_byteOffsetWalk hs h
  rwa [Nat.zero_add]

theorem wellFormed_trimLeft {fuel : ℕ} (hs : WellFormed s) : WellFormed (trimLeft fuel s) := by
  fun_induction trimLeft fuel s with
  | case1 => exact wellFormed_nil
  | case2 => exact hs
  | case3 fuel b bs hspace ih => exact ih (isCut_utf8Decode hs).drop
  | case4 => exact hs

/-- The end of the last code point is a cut of the text that the walk is in. -/
theorem isCut_lastNonWsEnd {fuel p last : ℕ} (hp : IsCut t p) (hlast : IsCut t last)
    (hs : t.drop p = s) : IsCut t (lastNonWsEnd fuel s p last) := by
  fun_induction lastNonWsEnd fuel s p last with
  | case1 => exact hlast
  | case2 => exact hlast
  | case3 fuel b bs p last next ih =>
    have hnext : IsCut t next := hp.add (hs ▸ isCut_utf8Decode (hs ▸ hp.drop))
    refine ih hnext ?_ (by rw [← List.drop_drop, hs])
    split_ifs
    · exact hlast
    · exact hnext

theorem wellFormed_trimmed (hs : WellFormed s) : WellFormed (trimmed s) := by
  have hrest : WellFormed (trimLeft s.length s) := wellFormed_trimLeft hs
  rw [trimmed]
  split_ifs
  · exact wellFormed_nil
  · exact (isCut_lastNonWsEnd hrest.isCut_zero hrest.isCut_zero (List.drop_zero)).take

theorem wellFormed_appendQuoteCodepoint {cp : UInt32} (hs : WellFormed s) :
    WellFormed (appendQuoteCodepoint cp s) := by
  rw [appendQuoteCodepoint]
  split_ifs
  all_goals first | exact hs | exact .of_all_ascii rfl

theorem wellFormed_quoteFrom {fuel : ℕ} (hs : WellFormed s) : WellFormed (quoteFrom fuel s) := by
  fun_induction quoteFrom fuel s with
  | case1 => exact wellFormed_nil
  | case2 => exact wellFormed_nil
  | case3 fuel b bs units ih =>
    have hstep := isCut_utf8Decode hs
    exact (wellFormed_appendQuoteCodepoint hstep.take).append (ih hstep.drop)

/-- **The ASCII cases** change ASCII only, into ASCII. -/
theorem wellFormed_fold {needsFold : UInt8 → Bool} {fold : UInt8 → UInt8} (hs : WellFormed s)
    (h : ∀ b, needsFold b = true → b.toNat < 128 ∧ (fold b).toNat < 128) :
    WellFormed (s.map fun c => if needsFold c then fold c else c) := by
  refine hs.map (fun b hb => ?_) fun b hb => ?_
  · split_ifs with hfold
    · exact (h b hfold).2
    · exact hb
  · refine if_neg fun hfold => ?_
    exact absurd (h b hfold).1 (by omega)

end Steps

/-! ## Backwards -/

section Backwards

variable {front q rest : List UInt8}

/-- **In front of a place behind a sequence** is where the sequence starts. -/
theorem prevCodepoint_sequence (hq : Sequence q) :
    prevCodepoint (front ++ q ++ rest) (front ++ q).length = front.length := by
  obtain ⟨a, tail, rfl, -, ha, htail⟩ := hq.cases
  have hbyte : ∀ k, (front ++ a :: tail ++ rest)[front.length + k]? = (a :: tail ++ rest)[k]? := by
    intro k
    rw [List.append_assoc, List.getElem?_append_right (Nat.le_add_right _ k), Nat.add_sub_cancel_left]
  have hback : ∀ k ≤ tail.length,
      prevCodepointFrom (front ++ a :: tail ++ rest) (front.length + k) = front.length := by
    intro k hk
    induction k with
    | zero =>
      cases hlen : front.length with
      | zero => rfl
      | succ n =>
        have hfirst : (front ++ a :: tail ++ rest).getD (n + 1) 0 = a := by
          rw [List.getD_eq_getElem?_getD, ← hlen, ← Nat.add_zero front.length, hbyte]
          rfl
        rw [Nat.add_zero, prevCodepointFrom, hfirst, if_neg]
        exact fun h => ha (and_eq_continuation_iff.mp (beq_iff_eq.mp h))
    | succ k ih =>
      have hmore : (front ++ a :: tail ++ rest).getD (front.length + k + 1) 0 = tail[k] := by
        rw [List.getD_eq_getElem?_getD, Nat.add_assoc, hbyte, List.cons_append,
          List.getElem?_cons_succ, List.getElem?_append_left hk, List.getElem?_eq_getElem hk]
        rfl
      rw [← Nat.add_assoc, prevCodepointFrom, hmore, if_pos]
      · exact ih (Nat.le_of_succ_le hk)
      · exact beq_iff_eq.mpr (and_eq_continuation_iff.mpr (htail _ (List.getElem_mem hk)))
  rw [prevCodepoint, List.length_append, List.length_cons, ← Nat.add_assoc, Nat.add_sub_cancel]
  exact hback _ le_rfl

/-- **`reverse` writes the code points from the back.** -/
theorem reverseFrom_encode {text behind : List Char} {fuel : ℕ}
    (hfuel : (encode text).length ≤ fuel) :
    reverseFrom (encode (text ++ behind)) fuel (encode text).length = encode text.reverse := by
  induction text using List.reverseRecOn generalizing behind fuel with
  | nil => cases fuel <;> rfl
  | append_singleton init c ih =>
    have hsequence : Sequence (encode [c]) := by
      rw [encode_cons, encode_nil, List.append_nil]
      exact sequence_utf8EncodeChar c
    have hpos : 0 < (encode [c]).length := List.length_pos_of_ne_nil hsequence.ne_nil
    have hsplit : encode (init ++ [c] ++ behind) = encode init ++ encode [c] ++ encode behind := by
      rw [encode_append, encode_append]
    have hprev : prevCodepoint (encode (init ++ [c] ++ behind)) (encode (init ++ [c])).length
        = (encode init).length := by
      rw [hsplit, encode_append]
      exact prevCodepoint_sequence hsequence
    have hlen : (encode (init ++ [c])).length = (encode init).length + (encode [c]).length := by
      rw [encode_append, List.length_append]
    obtain ⟨stop, hstop⟩ : ∃ stop, (encode (init ++ [c])).length = stop + 1 :=
      ⟨(encode (init ++ [c])).length - 1, by omega⟩
    obtain ⟨fuel, rfl⟩ : ∃ f, fuel = f + 1 := ⟨fuel - 1, by omega⟩
    have hpiece : ((encode (init ++ [c] ++ behind)).drop (encode init).length).take
        (stop + 1 - (encode init).length) = encode [c] := by
      rw [hsplit, List.append_assoc, List.drop_left, ← hstop, hlen, Nat.add_sub_cancel_left,
        List.take_left]
    rw [hstop] at hprev ⊢
    rw [reverseFrom, hprev, hpiece, List.append_assoc init, ih (by omega), List.reverse_append,
      List.reverse_singleton, encode_append]

theorem wellFormed_reverse {s : List UInt8} (hs : WellFormed s) :
    WellFormed (reverseFrom s s.length s.length) := by
  obtain ⟨text, rfl⟩ := hs
  have hreverse := @reverseFrom_encode text [] _ le_rfl
  rw [List.append_nil] at hreverse
  exact hreverse ▸ wellFormed_encode text.reverse

end Backwards

/-! ## Occurrences -/

section Occurrences

variable {needle s new : List UInt8} {i limit : ℕ}

/-- **Where a well-formed string is found**, it is cut out between well-formed strings. -/
theorem isCut_findBytes (hs : WellFormed s) (hneedle : WellFormed needle) (hne : needle ≠ [])
    (h : findBytes needle s = some i) : IsCut s i ∧ WellFormed (s.drop (i + needle.length)) := by
  obtain ⟨⟨rest, hrest⟩, -⟩ := findBytes_eq_some h
  have hbegins : BeginsSequence (s.drop i) := by
    obtain ⟨a, tail, rfl⟩ := List.exists_cons_of_ne_nil hne
    intro b hb
    rw [← hrest] at hb
    exact hneedle.beginsSequence b hb
  obtain ⟨htake, hdrop⟩ := hs.cut (List.take_append_drop i s).symm hbegins
  refine ⟨⟨htake, hdrop⟩, ?_⟩
  rw [← hrest, wellFormed_append_iff hneedle] at hdrop
  rwa [← List.drop_drop, ← hrest, List.drop_left]

theorem wellFormed_replaceBetween (hs : WellFormed s) (hnew : WellFormed new) :
    WellFormed (replaceBetween new limit s) := by
  fun_induction replaceBetween new limit s with
  | case1 => exact hs
  | case2 => exact hnew
  | case3 limit b bs units ih =>
    have hstep := isCut_utf8Decode hs
    exact (hnew.append hstep.take).append (ih hstep.drop)

theorem wellFormed_replaceFound (hs : WellFormed s) (hneedle : WellFormed needle)
    (hne : needle ≠ []) (hnew : WellFormed new) : WellFormed (replaceFound needle new limit s) := by
  fun_induction replaceFound needle new limit s with
  | case1 => exact hs
  | case2 => exact hs
  | case3 limit rest found hfind ih =>
    obtain ⟨hcut, hrest⟩ := isCut_findBytes hs hneedle hne hfind
    exact (hcut.take.append hnew).append (ih hrest)

theorem wellFormed_buildReplaced (hs : WellFormed s) (hneedle : WellFormed needle)
    (hnew : WellFormed new) : WellFormed (buildReplaced s needle new limit) := by
  rw [buildReplaced]
  split_ifs with hne
  · exact wellFormed_replaceBetween hs hnew
  · exact wellFormed_replaceFound hs hneedle hne hnew

theorem wellFormed_splitCodePoints (hs : WellFormed s) :
    (∀ p ∈ (splitCodePoints limit s).1, WellFormed p) ∧ WellFormed (splitCodePoints limit s).2 := by
  fun_induction splitCodePoints limit s with
  | case1 limit b bs units cut ih =>
    have hstep := isCut_utf8Decode hs
    obtain ⟨hpieces, hrest⟩ := ih hstep.drop
    exact ⟨List.forall_mem_cons.mpr ⟨hstep.take, hpieces⟩, hrest⟩
  | case2 => exact ⟨nofun, hs⟩

theorem wellFormed_splitFound (hs : WellFormed s) (hneedle : WellFormed needle)
    (hne : needle ≠ []) : (∀ p ∈ (splitFound needle limit s).1, WellFormed p) ∧
      WellFormed (splitFound needle limit s).2 := by
  fun_induction splitFound needle limit s with
  | case1 => exact ⟨nofun, hs⟩
  | case2 limit rest next hfind cut ih =>
    obtain ⟨hcut, hdrop⟩ := isCut_findBytes hs hneedle hne hfind
    obtain ⟨hpieces, hrest⟩ := ih hdrop
    exact ⟨List.forall_mem_cons.mpr ⟨hcut.take, hpieces⟩, hrest⟩
  | case3 => exact ⟨nofun, hs⟩

/-- **The pieces of a well-formed string.** -/
theorem wellFormed_computeSplitRanges (hs : WellFormed s) (hneedle : WellFormed needle) :
    ∀ p ∈ computeSplitRanges s needle limit, WellFormed p := by
  have hall : ∀ cut : List (List UInt8) × List UInt8, (∀ p ∈ cut.1, WellFormed p) →
      WellFormed cut.2 → ∀ p ∈ cut.1 ++ [cut.2], WellFormed p := by
    intro cut hpieces hrest p hp
    obtain hp | hp := List.mem_append.mp hp
    · exact hpieces p hp
    · exact List.mem_singleton.mp hp ▸ hrest
  rw [computeSplitRanges]
  split_ifs with hne
  · obtain ⟨hpieces, hrest⟩ := @wellFormed_splitCodePoints s limit hs
    dsimp only
    split_ifs
    · exact hall _ hpieces hrest
    · exact hpieces
  · obtain ⟨hpieces, hrest⟩ := @wellFormed_splitFound needle s limit hs hneedle hne
    exact hall _ hpieces hrest

end Occurrences

end CelWasm
