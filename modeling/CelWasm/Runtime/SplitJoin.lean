import CelWasm.Library.Pieces
import CelWasm.Runtime.AnchorScan
import CelWasm.Runtime.StringKernels

/-!
# Runtime/SplitJoin — split, join and replace

`split` and `replace` find the same occurrences, one behind another, and each stops at a limit of its
own: a split into `n` pieces cuts at `n - 1` of them. What is cut away is what `join` puts back, and
what `replace` puts in its place:

    s = p₀ ++ sep ++ p₁ ++ sep ++ … ++ pₖ          replaced: p₀ ++ new ++ p₁ ++ new ++ … ++ pₖ
-/

namespace CelWasm

/-! ## Finding -/

section Find

variable {needle s : List UInt8}

/-- **What is found is the first occurrence.** -/
theorem findBytes_eq_some {i : ℕ} (h : findBytes needle s = some i) :
    needle <+: s.drop i ∧ ∀ j < i, ¬ needle <+: s.drop j := by
  obtain ⟨hi, hfound, hfirst⟩ := List.findIdx?_eq_some_iff_getElem.mp h
  rw [List.getElem_tails, List.isPrefixOf_iff_prefix] at hfound
  refine ⟨hfound, fun j hj hprefix => hfirst j hj ?_⟩
  rw [List.getElem_tails, List.isPrefixOf_iff_prefix]
  exact hprefix

theorem findBytes_eq_none (h : findBytes needle s = none) : ¬ needle <:+: s := fun hin => by
  obtain ⟨i, hi⟩ := isInfix_iff_prefix_drop.mp hin
  have hmem : s.drop i ∈ s.tails := (List.mem_tails _ _).mpr (List.drop_suffix i s)
  have hnot := List.findIdx?_eq_none_iff.mp h _ hmem
  rw [Bool.eq_false_iff, Ne, List.isPrefixOf_iff_prefix] at hnot
  exact hnot hi

/-- The needle is cut out of what it is found in. -/
theorem eq_take_append_of_findBytes {i : ℕ} (h : findBytes needle s = some i) :
    s = s.take i ++ needle ++ s.drop (i + needle.length) := by
  obtain ⟨rest, hrest⟩ := (findBytes_eq_some h).1
  conv_lhs => rw [← List.take_append_drop i s, ← hrest]
  rw [← List.drop_drop, ← hrest, List.drop_left, List.append_assoc]

end Find

/-! ## Cutting -/

section Cut

variable {sep : List UInt8}

/-- What is put together again with a separator. -/
def rejoin (sep : List UInt8) (cut : List (List UInt8) × List UInt8) : List UInt8 :=
  (cut.1.map (· ++ sep)).flatten ++ cut.2

theorem rejoin_cons (p : List UInt8) (cut : List (List UInt8) × List UInt8) :
    rejoin sep (p :: cut.1, cut.2) = p ++ sep ++ rejoin sep cut := by
  rw [rejoin, rejoin, List.map_cons, List.flatten_cons, List.append_assoc]

theorem intercalate_eq_rejoin (cut : List (List UInt8) × List UInt8) :
    sep.intercalate (cut.1 ++ [cut.2]) = rejoin sep cut :=
  intercalate_append_singleton sep cut.2 cut.1

theorem splitFound_add_two (limit : ℕ) (s : List UInt8) : splitFound sep (limit + 2) s
    = match findBytes sep s with
      | none => ([], s)
      | some next =>
        (s.take next :: (splitFound sep (limit + 1) (s.drop (next + sep.length))).1,
          (splitFound sep (limit + 1) (s.drop (next + sep.length))).2) := rfl

theorem splitFound_of_none {s : List UInt8} (h : findBytes sep s = none) :
    ∀ limit, splitFound sep limit s = ([], s)
  | 0 => rfl
  | 1 => rfl
  | limit + 2 => by rw [splitFound_add_two, h]

theorem splitFound_of_some {limit next : ℕ} {s : List UInt8} (h : findBytes sep s = some next) :
    splitFound sep (limit + 2) s
      = (s.take next :: (splitFound sep (limit + 1) (s.drop (next + sep.length))).1,
        (splitFound sep (limit + 1) (s.drop (next + sep.length))).2) := by
  rw [splitFound_add_two, h]

/-- **What is cut is put together again.** -/
theorem rejoin_splitFound : ∀ (limit : ℕ) (s : List UInt8), rejoin sep (splitFound sep limit s) = s
  | 0, _ => rfl
  | 1, _ => rfl
  | limit + 2, s => by
    rw [splitFound_add_two]
    cases hfind : findBytes sep s with
    | none => rfl
    | some next =>
      rw [rejoin_cons, rejoin_splitFound (limit + 1)]
      exact (eq_take_append_of_findBytes hfind).symm

/-- No more is cut than the limit has it. -/
theorem length_splitFound_le : ∀ (limit : ℕ) (s : List UInt8),
    (splitFound sep limit s).1.length ≤ limit - 1
  | 0, _ => le_rfl
  | 1, _ => le_rfl
  | limit + 2, s => by
    rw [splitFound_add_two]
    cases findBytes sep s with
    | none => exact Nat.zero_le _
    | some next =>
      exact Nat.succ_le_succ (length_splitFound_le (limit + 1) (s.drop (next + sep.length)))

/-- **What is cut off has no separator.** -/
theorem not_isInfix_of_mem_splitFound (hsep : sep ≠ []) : ∀ (limit : ℕ) (s : List UInt8),
    ∀ p ∈ (splitFound sep limit s).1, ¬ sep <:+: p
  | 0, _ => nofun
  | 1, _ => nofun
  | limit + 2, s => by
    rw [splitFound_add_two]
    cases hfind : findBytes sep s with
    | none => exact nofun
    | some next =>
      exact List.forall_mem_cons.mpr ⟨not_isInfix_take hsep (findBytes_eq_some hfind).2,
        not_isInfix_of_mem_splitFound hsep (limit + 1) _⟩

/-- Behind a cut less is left. -/
theorem length_drop_lt_of_findBytes (hsep : sep ≠ []) {s : List UInt8} {next : ℕ}
    (h : findBytes sep s = some next) : (s.drop (next + sep.length)).length < s.length := by
  have hlen := congrArg List.length (eq_take_append_of_findBytes h)
  have hpos := List.length_pos_of_ne_nil hsep
  rw [List.length_append, List.length_append] at hlen
  omega

/-- **A limit no string reaches makes no difference.** -/
theorem splitFound_limit (hsep : sep ≠ []) {limit limit' : ℕ} {s : List UInt8}
    (h : s.length < limit) (h' : s.length < limit') :
    splitFound sep limit s = splitFound sep limit' s := by
  induction limit generalizing limit' s with
  | zero => exact absurd h (Nat.not_lt_zero _)
  | succ limit ih =>
    cases hfind : findBytes sep s with
    | none => rw [splitFound_of_none hfind, splitFound_of_none hfind]
    | some next =>
      have hless := length_drop_lt_of_findBytes hsep hfind
      obtain ⟨m, rfl⟩ : ∃ m, limit = m + 1 := ⟨limit - 1, by omega⟩
      obtain ⟨m', rfl⟩ : ∃ m', limit' = m' + 2 := ⟨limit' - 2, by omega⟩
      rw [splitFound_of_some hfind, splitFound_of_some hfind,
        @ih (m' + 1) _ (by omega) (by omega)]

/-- **A smaller limit cuts the first of them**, and leaves the others together. -/
theorem splitFound_take {n limit : ℕ} {s : List UInt8} (h : n < limit) : splitFound sep (n + 1) s
    = ((splitFound sep limit s).1.take n,
      rejoin sep ((splitFound sep limit s).1.drop n, (splitFound sep limit s).2)) := by
  induction n generalizing limit s with
  | zero =>
    rw [List.take_zero, List.drop_zero]
    exact congrArg _ (rejoin_splitFound limit s).symm
  | succ n ih =>
    cases hfind : findBytes sep s with
    | none =>
      rw [splitFound_of_none hfind, splitFound_of_none hfind]
      rfl
    | some next =>
      obtain ⟨m, rfl⟩ : ∃ m, limit = m + 2 := ⟨limit - 2, by omega⟩
      rw [splitFound_of_some hfind, splitFound_of_some hfind, @ih (m + 1) _ (by omega)]
      rfl

/-- **What is replaced is what would be cut.** -/
theorem replaceFound_eq (new : List UInt8) : ∀ (limit : ℕ) (s : List UInt8),
    replaceFound sep new limit s = rejoin new (splitFound sep (limit + 1) s)
  | 0, _ => rfl
  | limit + 1, s => by
    rw [replaceFound, splitFound_add_two]
    cases findBytes sep s with
    | none => rfl
    | some next =>
      rw [rejoin_cons]
      exact congrArg _ (replaceFound_eq new limit _)

/-- With no limit in the way, what is left has none either. -/
theorem not_isInfix_splitFound (hsep : sep ≠ []) {limit : ℕ} {s : List UInt8} (h : s.length < limit) :
    ¬ sep <:+: (splitFound sep limit s).2 := by
  induction limit generalizing s with
  | zero => exact absurd h (Nat.not_lt_zero _)
  | succ limit ih =>
    cases hfind : findBytes sep s with
    | none =>
      rw [splitFound_of_none hfind]
      exact findBytes_eq_none hfind
    | some next =>
      have hless := length_drop_lt_of_findBytes hsep hfind
      obtain ⟨m, rfl⟩ : ∃ m, limit = m + 1 := ⟨limit - 1, by omega⟩
      rw [splitFound_of_some hfind]
      exact ih (by omega)

end Cut

/-! ## The pieces -/

section Pieces

variable {s sep : List UInt8}

/-- The cuts between code points. -/
theorem splitCodePoints_spec : ∀ (limit : ℕ) (s : List UInt8),
    (splitCodePoints limit s).1.flatten ++ (splitCodePoints limit s).2 = s ∧
      (splitCodePoints limit s).1.length ≤ limit - 1
  | 0, _ => ⟨rfl, le_rfl⟩
  | 1, _ => ⟨rfl, le_rfl⟩
  | _ + 2, [] => ⟨rfl, Nat.zero_le _⟩
  | limit + 2, b :: bs => by
    obtain ⟨hjoin, hlen⟩ :=
      splitCodePoints_spec (limit + 1) ((b :: bs).drop (utf8Decode (b :: bs)))
    rw [splitCodePoints]
    refine ⟨?_, Nat.succ_le_succ hlen⟩
    rw [List.flatten_cons, List.append_assoc, hjoin, List.take_append_drop]

theorem computeSplitRanges_of_ne (hsep : sep ≠ []) (limit : ℕ) : computeSplitRanges s sep limit
    = (splitFound sep limit s).1 ++ [(splitFound sep limit s).2] := if_neg hsep

/-- **The pieces are the string**, put together. -/
theorem intercalate_computeSplitRanges (s sep : List UInt8) (limit : ℕ) :
    sep.intercalate (computeSplitRanges s sep limit) = s := by
  by_cases hsep : sep = []
  · rw [computeSplitRanges, if_pos hsep, hsep, intercalate_nil_left]
    obtain ⟨hjoin, -⟩ := splitCodePoints_spec limit s
    dsimp only
    split_ifs with hlast
    · rw [List.flatten_append, List.flatten_singleton, hjoin]
    · rw [not_or, not_not] at hlast
      rw [hlast.2, List.append_nil] at hjoin
      exact hjoin
  · rw [computeSplitRanges_of_ne hsep, intercalate_eq_rejoin, rejoin_splitFound]

/-- **There are no more than the limit.** -/
theorem length_computeSplitRanges_le {limit : ℕ} (h : 0 < limit) :
    (computeSplitRanges s sep limit).length ≤ limit := by
  rw [computeSplitRanges]
  split_ifs with hsep
  · obtain ⟨-, hlen⟩ := splitCodePoints_spec limit s
    dsimp only
    split_ifs
    · rw [List.length_append, List.length_singleton]
      omega
    · omega
  · have hlen := @length_splitFound_le sep limit s
    dsimp only
    rw [List.length_append, List.length_singleton]
    omega

/-- **No piece but the last has the separator.** -/
theorem not_isInfix_of_mem_dropLast (hsep : sep ≠ []) (limit : ℕ) :
    ∀ p ∈ (computeSplitRanges s sep limit).dropLast, ¬ sep <:+: p := by
  rw [computeSplitRanges_of_ne hsep, List.dropLast_concat]
  exact not_isInfix_of_mem_splitFound hsep limit s

/-- With no limit in the way, none has. -/
theorem not_isInfix_of_mem (hsep : sep ≠ []) {limit : ℕ} (h : s.length < limit) :
    ∀ p ∈ computeSplitRanges s sep limit, ¬ sep <:+: p := by
  rw [computeSplitRanges_of_ne hsep, List.forall_mem_append, List.forall_mem_singleton]
  exact ⟨not_isInfix_of_mem_splitFound hsep limit s, not_isInfix_splitFound hsep h⟩

/-- What a limited replacement makes of the pieces: the first so many are put together with the new
text, and what is behind them as it was. -/
def replacedPieces (old new : List UInt8) (pieces : List (List UInt8)) (k : ℕ) : List UInt8 :=
  new.intercalate (pieces.take k ++ [old.intercalate (pieces.drop k)])

/-- **A replacement is of the first occurrences**, as many as there are and the limit has it. -/
theorem buildReplaced_eq {old : List UInt8} (new : List UInt8) {n limit : ℕ} (hold : old ≠ [])
    (h : n < limit) : buildReplaced s old new n
      = replacedPieces old new (computeSplitRanges s old limit)
        (min n ((computeSplitRanges s old limit).length - 1)) := by
  rw [buildReplaced, if_neg hold, replaceFound_eq, splitFound_take h, replacedPieces,
    computeSplitRanges_of_ne hold, List.length_append, List.length_singleton, Nat.add_sub_cancel]
  generalize splitFound old limit s = cut
  have htake : (cut.1 ++ [cut.2]).take (min n cut.1.length) = cut.1.take n := by
    rw [List.take_append_of_le_length (Nat.min_le_right _ _), ← List.take_eq_take_min]
  have hdrop : (cut.1 ++ [cut.2]).drop (min n cut.1.length) = cut.1.drop n ++ [cut.2] := by
    rw [List.drop_append_of_le_length (Nat.min_le_right _ _)]
    obtain hle | hge := Nat.le_total n cut.1.length
    · rw [Nat.min_eq_left hle]
    · rw [Nat.min_eq_right hge, List.drop_length, List.drop_eq_nil_of_le hge]
  rw [htake, hdrop, intercalate_eq_rejoin (cut.1.drop n, cut.2),
    intercalate_eq_rejoin (cut.1.take n, rejoin old (cut.1.drop n, cut.2))]

end Pieces

/-! ## The kernels -/

section Kernels

variable {s sep : List UInt8}

/-- A kernel comes to a string, or there is no room for it. -/
def YieldsString (k : Kernel CelValue) (s : List UInt8) : Prop :=
  k.granted = .ok (.string s) ∧
    ∀ r, k.Reaches r → r = .ok (.string s) ∨ r = .ok (.error .overflow)

theorem yieldsString_pure (s : List UInt8) : YieldsString (pure (.string s)) s :=
  ⟨rfl, fun _ h => .inl (Prog.reaches_pure.mp h)⟩

/-- A string that takes a block. -/
theorem yieldsString_alloc {s t : List UInt8} {n : ℕ} (h : s = t) :
    YieldsString (do if ← Prog.alloc n then return .string s else return .error .overflow) t := by
  subst h
  refine ⟨rfl, fun r hr => ?_⟩
  cases hr with
  | ask _ _ granted hr =>
    cases granted with
    | true => exact .inl (Prog.reaches_pure.mp hr)
    | false => exact .inr (Prog.reaches_pure.mp hr)

/-- A kernel of a string, where the error is handed on. -/
theorem YieldsString.bind {k : Kernel CelValue} {f : CelValue → Kernel CelValue} {s t : List UInt8}
    (hk : YieldsString k s) (hf : YieldsString (f (.string s)) t)
    (herror : f (.error .overflow) = return .error .overflow) : YieldsString (k >>= f) t := by
  refine ⟨by rw [Prog.granted_bind, hk.1]; exact hf.1, ?_⟩
  obtain ⟨-, hruns⟩ := hk
  induction k with
  | ret a =>
    obtain h | h := hruns _ (.ret a)
    · obtain rfl := Except.ok.inj h
      exact hf.2
    · obtain rfl := Except.ok.inj h
      intro r hr
      rw [Prog.ret_bind, herror] at hr
      exact .inr (Prog.reaches_pure.mp hr)
  | stop e =>
    obtain h | h := hruns _ (.stop e)
    · exact nomatch h
    · exact nomatch h
  | ask n next ih =>
    intro r hr
    cases hr with
    | ask _ _ answer hr =>
      exact ih answer (fun r' hr' => hruns r' (.ask n next answer hr')) r hr

theorem yieldsString_writeStringFromBytes (s : List UInt8) :
    YieldsString (writeStringFromBytes s) s := by
  rw [writeStringFromBytes]
  split_ifs with hs
  · rw [hs]
    exact yieldsString_pure []
  · exact yieldsString_alloc rfl

/-- A list of pieces, as a value. -/
def pieceList (pieces : List (List UInt8)) : CelValue :=
  .listArena pieces.length (pieces.map .string)

/-- Room for a list is granted or not. -/
theorem reaches_allocList_bind {f : Bool → Kernel CelValue} {n : ℕ} {r : Except Stop CelValue}
    (h : (allocList n >>= f).Reaches r) : ∃ granted, (f granted).Reaches r := by
  cases h with
  | ask _ _ header h =>
    cases header with
    | false => exact ⟨false, h⟩
    | true =>
      change ((if n = 0 then pure true else Prog.alloc (kCelListEntryStride * n % 2 ^ 32))
        >>= f).Reaches r at h
      split_ifs at h
      · exact ⟨true, h⟩
      · cases h with
        | ask _ _ granted h => exact ⟨granted, h⟩

theorem granted_allocList (n : ℕ) : (allocList n).granted = .ok true := by
  change (if n = 0 then pure true else
    Prog.alloc (kCelListEntryStride * n % 2 ^ 32) : Kernel Bool).granted = .ok true
  split_ifs <;> rfl

/-- **A split is the pieces, or there is no room for the list.** -/
theorem doSplit_spec {n : Int64} (hn : n ≠ 0) :
    (doSplit s sep n).granted = .ok (pieceList (computeSplitRanges s sep (normalizedLimit n))) ∧
      ∀ r, (doSplit s sep n).Reaches r →
        r = .ok (pieceList (computeSplitRanges s sep (normalizedLimit n)))
          ∨ r = .ok (.error .overflow) := by
  rw [doSplit]
  simp only [if_neg hn]
  refine ⟨?_, fun r h => ?_⟩
  · rw [Prog.granted_bind, granted_allocList]
    rfl
  · obtain ⟨granted, h⟩ := reaches_allocList_bind h
    cases granted with
    | true => exact .inl (Prog.reaches_pure.mp h)
    | false => exact .inr (Prog.reaches_pure.mp h)

theorem joinedStrings_map (pieces : List (List UInt8)) :
    joinedStrings (pieces.map .string) = .ok pieces := by
  induction pieces with
  | nil => rfl
  | cons p rest ih =>
    rw [List.map_cons, joinedStrings, ih]
    rfl

/-- **Pieces are joined.** -/
theorem celStringJoinSep_pieceList (host : CelHost) (pieces : List (List UInt8)) :
    celStringJoinSep host (pieceList pieces) (.string sep)
      = writeStringFromBytes (sep.intercalate pieces) := by
  change buildJoin (pieces.map .string) sep = _
  rw [buildJoin, joinedStrings_map]

/-- A split that is joined is what the pieces are, joined. -/
theorem yieldsString_doSplit_join (host : CelHost) {n : Int64} (hn : n ≠ 0) (new : List UInt8) :
    YieldsString (doSplit s sep n >>= fun pieces => celStringJoinSep host pieces (.string new))
      (new.intercalate (computeSplitRanges s sep (normalizedLimit n))) := by
  have hjoin := @celStringJoinSep_pieceList new host
    (computeSplitRanges s sep (normalizedLimit n))
  obtain ⟨hyields, hruns⟩ :=
    yieldsString_writeStringFromBytes (new.intercalate (computeSplitRanges s sep (normalizedLimit n)))
  refine ⟨?_, fun r h => ?_⟩
  · rw [Prog.granted_bind, (doSplit_spec hn).1]
    change (celStringJoinSep host _ _).granted = _
    rw [hjoin, hyields]
  · rw [doSplit, bind_assoc] at h
    simp only [if_neg hn] at h
    obtain ⟨granted, h⟩ := reaches_allocList_bind h
    cases granted with
    | true =>
      change (celStringJoinSep host
        (pieceList (computeSplitRanges s sep (normalizedLimit n))) (.string new)).Reaches r at h
      rw [hjoin] at h
      exact hruns r h
    | false => exact .inr (Prog.reaches_pure.mp h)

/-- A limit that is negative is none, which no string reaches. -/
theorem lt_normalizedLimit {n : Int64} (hn : n < 0) (hs : s.length < 2 ^ 32) :
    s.length < normalizedLimit n := by
  rw [normalizedLimit, if_pos hn]
  omega

/-- **Replacing everywhere** is joining what is split everywhere. -/
theorem buildReplaced_all {old : List UInt8} (new : List UInt8) (hold : old ≠ [])
    (hs : s.length < 2 ^ 32) {n : Int64} (hn : n < 0) :
    buildReplaced s old new (normalizedLimit n)
      = new.intercalate (computeSplitRanges s old (normalizedLimit n)) := by
  have hlt := lt_normalizedLimit hn hs
  rw [buildReplaced, if_neg hold, replaceFound_eq,
    splitFound_limit hold (Nat.lt_succ_of_lt hlt) hlt, computeSplitRanges_of_ne hold,
    intercalate_eq_rejoin]

/-- **Replacing up to a limit**, by the pieces. -/
theorem yieldsString_doReplace {old : List UInt8} (new : List UInt8) (hold : old ≠ []) {limit : ℕ}
    (hs : s.length < limit) {n : Int64} (hn : 0 ≤ n) : YieldsString (doReplace s old new n)
      (replacedPieces old new (computeSplitRanges s old limit)
        (min n.toInt.toNat ((computeSplitRanges s old limit).length - 1))) := by
  rw [doReplace]
  split_ifs with h0
  · rw [h0]
    change YieldsString _ (replacedPieces old new _ (min 0 _))
    rw [Nat.zero_min, replacedPieces, List.take_zero, List.drop_zero, intercalate_computeSplitRanges,
      List.nil_append]
    have hone : new.intercalate [s] = s := by simp [List.intercalate]
    rw [hone]
    exact yieldsString_pure s
  · have hlimit : normalizedLimit n = n.toInt.toNat := if_neg (Int64.not_lt.mpr hn)
    -- a limit above both finds the same pieces
    have hpieces : computeSplitRanges s old limit
        = computeSplitRanges s old (limit + n.toInt.toNat + 1) := by
      rw [computeSplitRanges_of_ne hold, computeSplitRanges_of_ne hold,
        @splitFound_limit _ hold _ (limit + n.toInt.toNat + 1) _ hs (by omega)]
    rw [hlimit, hpieces, ← buildReplaced_eq new hold (by omega)]
    exact yieldsString_writeStringFromBytes _

end Kernels

/-- **Split, join and replace cohere**: pieces joined with their separator are the string, at most
as many as the limit and none but the last with the separator in it; to replace is to join with
another text, and with a limit it is the first pieces that are joined so. The length of a span is
of 32 bits. -/
theorem splitJoinReplace_cohere (host : CelHost) :
    (∀ (s sep : List UInt8) (n : Int64), n ≠ 0 →
      YieldsString (celStringSplitN (.string s) (.string sep) (.int n) >>= fun pieces =>
        celStringJoinSep host pieces (.string sep)) s) ∧
    (∀ (s sep : List UInt8) (n : Int64) (v : CelValue), n ≠ 0 →
      (celStringSplitN (.string s) (.string sep) (.int n)).Reaches (.ok v) →
      v = .error .overflow ∨ ∃ pieces, v = pieceList pieces ∧
        (0 < n → (pieces.length : ℤ) ≤ n.toInt) ∧
        (sep ≠ [] → ∀ p ∈ pieces.dropLast, ¬ sep <:+: p)) ∧
    (∀ s old new : List UInt8, s.length < 2 ^ 32 → old ≠ [] → ∃ result,
      YieldsString (celStringReplace (.string s) (.string old) (.string new)) result ∧
        YieldsString (celStringSplit (.string s) (.string old) >>= fun pieces =>
          celStringJoinSep host pieces (.string new)) result) ∧
    ∀ s old new : List UInt8, s.length < 2 ^ 32 → old ≠ [] → ∃ pieces,
      (celStringSplit (.string s) (.string old)).granted = .ok (pieceList pieces) ∧
        (∀ p ∈ pieces, ¬ old <:+: p) ∧
        ∀ n : Int64, 0 ≤ n →
          YieldsString (celStringReplaceN (.string s) (.string old) (.string new) (.int n))
            (replacedPieces old new pieces (min n.toInt.toNat (pieces.length - 1))) := by
  refine ⟨fun s sep n hn => ?_, fun s sep n v hn h => ?_, fun s old new hs hold => ?_,
    fun s old new hs hold => ?_⟩
  · have hyields := @yieldsString_doSplit_join s sep host _ hn sep
    rwa [intercalate_computeSplitRanges] at hyields
  · obtain heq | heq := (doSplit_spec hn).2 _ h
    · refine .inr ⟨_, Except.ok.inj heq, fun hpos => ?_,
        fun hsep => not_isInfix_of_mem_dropLast hsep _⟩
      have hn0 : 0 < n.toInt := Int64.lt_iff_toInt_lt.mp hpos
      have hlimit : normalizedLimit n = n.toInt.toNat :=
        if_neg (Int64.not_lt.mpr (Int64.le_of_lt hpos))
      have hle := @length_computeSplitRanges_le s sep n.toInt.toNat (by omega)
      rw [hlimit]
      omega
    · exact .inl (Except.ok.inj heq)
  · refine ⟨_, yieldsString_writeStringFromBytes _, ?_⟩
    rw [buildReplaced_all new hold hs (by decide)]
    exact yieldsString_doSplit_join host (by decide) new
  · have hlt := lt_normalizedLimit (n := -1) (by decide) hs
    refine ⟨_, (doSplit_spec (by decide)).1, not_isInfix_of_mem hold hlt, fun n hn => ?_⟩
    exact yieldsString_doReplace new hold hlt hn

/-- Of `"a,b"` at its comma. -/
theorem splitJoinReplace_cohere_comma : YieldsString
    (celStringSplitN (.string [0x61, 0x2C, 0x62]) (.string [0x2C]) (.int 2) >>= fun pieces =>
      celStringJoinSep .stubs pieces (.string [0x2C])) [0x61, 0x2C, 0x62] :=
  (splitJoinReplace_cohere .stubs).1 _ _ 2 (by decide)

end CelWasm
