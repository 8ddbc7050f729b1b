import CelWasm.Runtime.FormatTexts

/-!
# Runtime/FormatCover — a format is the parts it is parsed into

A run of the format is spelled with every percent sign twice, a clause as it stands. What the loop of
`ParseFormat` has parsed spells what it has read, so that the parts of a whole format spell the format.
The clause that is the `k`-th takes the `k`-th argument.
-/

namespace CelWasm

/-! ## What a part is spelled with -/

/-- **The text of a clause**: a percent sign and a letter, and a precision between them, which only
`%f` and `%e` make use of. -/
inductive ClauseText : List UInt8 → DirectiveKind → Option ℕ → Prop
  | bare {letter : UInt8} (hletter : classifyType letter ≠ .kLiteral) :
    ClauseText [0x25, letter] (classifyType letter) none
  | precise {digits : List UInt8} {letter : UInt8} (hdigits : IsNumeral digits)
    (hmax : denoted digits ≤ kMaxPrecision) (hletter : classifyType letter ≠ .kLiteral) :
    ClauseText (0x25 :: 0x2E :: digits ++ [letter]) (classifyType letter)
      (if classifyType letter = .kFixed ∨ classifyType letter = .kScientific
        then some (denoted digits) else none)

section Cover

variable (fmt : List UInt8)

/-- A byte of a run, in a format. -/
def doubled (b : UInt8) : List UInt8 := if b = 0x25 then [0x25, 0x25] else [b]

/-- **What a part is spelled with**, in the format it was read from. -/
def spelled (op : DirectiveOp) : List UInt8 :=
  if op.kind = .kLiteral then (emitLiteral fmt op).flatMap doubled else emitLiteral fmt op

/-- A part lies in the format, and a clause has the text of one. -/
structure PartOf (op : DirectiveOp) : Prop where
  pos : 0 < op.len
  le : op.byteOff + op.len ≤ fmt.length
  clause : op.kind ≠ .kLiteral → ClauseText (emitLiteral fmt op) op.kind op.precision

/-- **What the loop has parsed**, the latest first, spells what it has read. -/
structure SpelledTo (i : ℕ) (ops : List DirectiveOp) : Prop where
  le : i ≤ fmt.length
  spells : ops.reverse.flatMap (spelled fmt) = fmt.take i
  parts : ∀ op ∈ ops, PartOf fmt op

variable {fmt} {i next : ℕ} {ops : List DirectiveOp} {op : DirectiveOp}

/-- One more byte of what was read. -/
theorem take_succ_getD (hi : i < fmt.length) : fmt.take (i + 1) = fmt.take i ++ [fmt.getD i 0] := by
  rw [List.take_succ_eq_append_getElem hi, List.getD_eq_getElem?_getD, List.getElem?_eq_getElem hi]
  rfl

/-- A run goes on by the byte behind it. -/
theorem emitLiteral_longer (hi : op.byteOff + op.len < fmt.length) :
    emitLiteral fmt { op with len := op.len + 1 }
      = emitLiteral fmt op ++ [fmt.getD (op.byteOff + op.len) 0] := by
  have hlen : op.len < (fmt.drop op.byteOff).length := by
    rw [List.length_drop]
    omega
  rw [emitLiteral, emitLiteral, take_succ_getD hlen, List.getD_eq_getElem?_getD,
    List.getElem?_drop, List.getD_eq_getElem?_getD]

/-- A run of one byte. -/
theorem spelled_singleton (hi : i < fmt.length) :
    spelled fmt ⟨.kLiteral, i, 1, none⟩ = doubled (fmt.getD i 0) := by
  have h := @emitLiteral_longer fmt ⟨.kLiteral, i, 0, none⟩ hi
  rw [spelled, if_pos rfl, h, List.flatMap_append, List.flatMap_singleton, emitLiteral,
    List.take_zero]
  rfl

/-- **`AppendLiteralByte` spells one more byte.** -/
theorem spelled_appendLiteralByte (hi : i < fmt.length) :
    (appendLiteralByte ops i).reverse.flatMap (spelled fmt)
      = ops.reverse.flatMap (spelled fmt) ++ doubled (fmt.getD i 0) := by
  cases ops with
  | nil =>
    rw [appendLiteralByte, List.reverse_singleton, List.flatMap_singleton, spelled_singleton hi]
    rfl
  | cons last rest =>
    rw [appendLiteralByte]
    split_ifs with hrun
    · obtain ⟨hkind, rfl⟩ := hrun
      rw [List.reverse_cons, List.reverse_cons, List.flatMap_append, List.flatMap_append,
        List.flatMap_singleton, List.flatMap_singleton, List.append_assoc, spelled, if_pos hkind,
        emitLiteral_longer hi, List.flatMap_append, List.flatMap_singleton, spelled, if_pos hkind]
    · rw [List.reverse_cons, List.flatMap_append, List.flatMap_singleton, spelled_singleton hi]

/-- The parts it makes lie in the format. -/
theorem partOf_appendLiteralByte (hi : i < fmt.length) (h : ∀ op ∈ ops, PartOf fmt op) :
    ∀ op ∈ appendLiteralByte ops i, PartOf fmt op := by
  have hone : PartOf fmt ⟨.kLiteral, i, 1, none⟩ := ⟨Nat.one_pos, hi, fun h => absurd rfl h⟩
  cases ops with
  | nil => exact List.forall_mem_singleton.mpr hone
  | cons last rest =>
    rw [appendLiteralByte]
    split_ifs with hrun
    · obtain ⟨hkind, rfl⟩ := hrun
      rw [List.forall_mem_cons] at h
      exact List.forall_mem_cons.mpr ⟨⟨Nat.succ_pos _, hi, fun h => absurd hkind h⟩, h.2⟩
    · exact List.forall_mem_cons.mpr ⟨hone, h⟩

/-- A byte that is no percent sign stands for itself. -/
theorem SpelledTo.literal (h : SpelledTo fmt i ops) (hi : i < fmt.length)
    (hplain : fmt.getD i 0 ≠ 0x25) : SpelledTo fmt (i + 1) (appendLiteralByte ops i) where
  le := hi
  spells := by
    rw [spelled_appendLiteralByte hi, h.spells, doubled, if_neg hplain, take_succ_getD hi]
  parts := partOf_appendLiteralByte hi h.parts

/-- **Two percent signs stand for one.** -/
theorem SpelledTo.escaped (h : SpelledTo fmt i ops) (hi : i + 1 < fmt.length)
    (hfirst : fmt.getD i 0 = 0x25) (hsecond : fmt.getD (i + 1) 0 = 0x25) :
    SpelledTo fmt (i + 2) (appendLiteralByte ops (i + 1)) where
  le := hi
  spells := by
    rw [spelled_appendLiteralByte hi, h.spells, hsecond, take_succ_getD hi,
      take_succ_getD (Nat.lt_of_succ_lt hi), hfirst, hsecond, List.append_assoc]
    rfl
  parts := partOf_appendLiteralByte hi h.parts

/-! ## Clauses -/

/-- A precision is a point and a numeral up to the bound, or not there. -/
theorem parsePrecision_text {j : ℕ} {precision : Option ℕ}
    (h : parsePrecision fmt i = .ok (j, precision)) :
    (j = i ∧ precision = none) ∨ ∃ digits, fmt.drop i = 0x2E :: digits ++ fmt.drop j ∧
      IsNumeral digits ∧ denoted digits ≤ kMaxPrecision ∧ precision = some (denoted digits) := by
  rw [parsePrecision] at h
  split_ifs at h with hend hdot
  · obtain ⟨rfl, rfl⟩ := Prod.mk.inj (Except.ok.inj h)
    exact .inl ⟨rfl, rfl⟩
  · generalize hdigits : (fmt.drop (i + 1)).takeWhile (fun b => decide (IsDigit b)) = digits at h
    dsimp only at h
    split_ifs at h with hnone hbig hmax
    obtain ⟨rfl, rfl⟩ := Prod.mk.inj (Except.ok.inj h)
    rw [not_or] at hnone
    have hprefix : digits <+: fmt.drop (i + 1) := hdigits ▸ List.takeWhile_prefix _
    have hsplit : fmt.drop (i + 1) = digits ++ fmt.drop (i + 1 + digits.length) := by
      rw [← @List.drop_drop _ digits.length (i + 1)]
      exact (List.prefix_iff_eq_append.mp hprefix).symm
    refine .inr ⟨digits, ?_, ⟨hnone.1, fun b hb => ?_⟩, not_lt.mp hmax, rfl⟩
    · rw [drop_eq_getD_cons (not_le.mp hend), not_not.mp hdot, List.cons_append, ← hsplit]
    · exact of_decide_eq_true (List.all_eq_true.mp List.all_takeWhile b (hdigits ▸ hb))

/-- **`ParseDirective` reads the text of a clause**, from its percent sign to its letter. -/
theorem parseDirective_text (hi : i < fmt.length) (hpercent : fmt.getD i 0 = 0x25)
    (h : parseDirective fmt (i + 1) = .ok (next, op)) :
    op.byteOff = i ∧ i + op.len = next ∧ next ≤ fmt.length ∧
      ClauseText (emitLiteral fmt op) op.kind op.precision := by
  rw [parseDirective] at h
  cases hprecision : parsePrecision fmt (i + 1) with
  | error e =>
    rw [hprecision] at h
    cases h
  | ok found =>
    obtain ⟨typeIdx, precision⟩ := found
    rw [hprecision] at h
    change (if classifyType (fmt.getD typeIdx 0) = .kLiteral then _ else _) = _ at h
    have hkind : classifyType (fmt.getD typeIdx 0) ≠ .kLiteral := fun hkind => by
      rw [if_pos hkind] at h
      cases h
    rw [if_neg hkind] at h
    obtain ⟨rfl, rfl⟩ := Prod.mk.inj (Except.ok.inj h)
    obtain ⟨run, hrun, hlen, hlt, -⟩ := parsePrecision_ok hprecision
    refine ⟨rfl, by dsimp only; omega, hlt, ?_⟩
    have hemit : ∀ text : List UInt8, fmt.drop (i + 1) = text ++ fmt.drop typeIdx →
        (fmt.drop i).take (typeIdx + 1 - (i + 1 - 1)) = 0x25 :: text ++ [fmt.getD typeIdx 0] := by
      intro text htext
      have hlength := congrArg List.length htext
      rw [List.length_append, List.length_drop, List.length_drop] at hlength
      rw [drop_eq_getD_cons hi, hpercent, htext, drop_eq_getD_cons hlt,
        List.append_cons text, ← List.cons_append]
      exact List.take_left' (by simp only [List.length_cons, List.length_append, List.length_nil]; omega)
    obtain ⟨rfl, rfl⟩ | ⟨digits, htext, hdigits, hmax, rfl⟩ := parsePrecision_text hprecision
    · change ClauseText ((fmt.drop i).take _) _ _
      rw [hemit [] rfl, ite_self]
      exact .bare hkind
    · change ClauseText ((fmt.drop i).take _) _ _
      rw [hemit _ htext]
      exact .precise hdigits hmax hkind

/-- A clause spells its text. -/
theorem SpelledTo.clause (h : SpelledTo fmt i ops) (hi : i < fmt.length)
    (hpercent : fmt.getD i 0 = 0x25) (hparse : parseDirective fmt (i + 1) = .ok (next, op)) :
    SpelledTo fmt next (op :: ops) := by
  obtain ⟨hoff, hlen, hle, htext⟩ := parseDirective_text hi hpercent hparse
  obtain ⟨hkind, run, -, hrun, -⟩ := parseDirective_ok hparse
  refine ⟨hle, ?_, List.forall_mem_cons.mpr ⟨⟨by omega, by omega, fun _ => htext⟩, h.parts⟩⟩
  rw [List.reverse_cons, List.flatMap_append, List.flatMap_singleton, h.spells, spelled,
    if_neg hkind, emitLiteral, hoff, ← hlen, List.take_add]

/-! ## The whole format -/

/-- **The loop spells what it reads.** -/
theorem spelledTo_parseFormatFrom {fuel : ℕ} {parsed : List DirectiveOp} (h : SpelledTo fmt i ops)
    (hfuel : fmt.length < fuel + i) (hparse : parseFormatFrom fmt fuel i ops = .ok parsed) :
    parsed.flatMap (spelled fmt) = fmt ∧ ∀ op ∈ parsed, PartOf fmt op := by
  induction fuel generalizing i ops with
  | zero => exact absurd h.le (by omega)
  | succ fuel ih =>
    rw [parseFormatFrom] at hparse
    split_ifs at hparse with hi hplain hone htwo
    · obtain rfl := Except.ok.inj hparse
      refine ⟨?_, fun op hop => h.parts op (List.mem_reverse.mp hop)⟩
      rw [h.spells, List.take_of_length_le hi]
    · exact ih (h.literal (not_le.mp hi) hplain) (by omega) hparse
    · exact ih (h.escaped (not_le.mp hone) (not_not.mp hplain) htwo) (by omega) hparse
    · cases hdirective : parseDirective fmt (i + 1) with
      | error e =>
        rw [hdirective] at hparse
        cases hparse
      | ok found =>
        obtain ⟨next, op⟩ := found
        rw [hdirective] at hparse
        obtain ⟨-, run, -, hrun, -⟩ := parseDirective_ok hdirective
        exact ih (h.clause (not_le.mp hi) (not_not.mp hplain) hdirective) (by omega) hparse

/-- **The parts of a format spell the format.** -/
theorem spelled_parseFormat (h : parseFormat fmt = .ok ops) :
    ops.flatMap (spelled fmt) = fmt ∧ ∀ op ∈ ops, PartOf fmt op :=
  spelledTo_parseFormatFrom ⟨Nat.zero_le _, rfl, fun _ hop => absurd hop List.not_mem_nil⟩
    (Nat.lt_succ_self _) h

end Cover

/-! ## The arguments -/

section Arguments

variable (host : CelHost) (absl : AbslFormat) (stack : ℕ) (fmt : List UInt8)

/-- How many of the parts are clauses. -/
def clauseCount (ops : List DirectiveOp) : ℕ := ops.countP (·.kind ≠ .kLiteral)

/-- What a part comes to, behind so many clauses. -/
def partText (args : List CelValue) (taken : ℕ) (op : DirectiveOp) : Kernel (Option (List UInt8)) :=
  if op.kind = .kLiteral then return some (emitLiteral fmt op)
  else
    match args[taken]? with
    | none => return none
    | some arg => dispatchDirective host absl stack op arg

/-- The texts of parts one behind the other, up to one that has none. -/
def joinParts : List (Kernel (Option (List UInt8))) → Kernel (Option (List UInt8))
  | [] => return some []
  | part :: rest => do
    match ← part with
    | none => return none
    | some text => return (← joinParts rest).map (text ++ ·)

variable {host absl stack fmt}

theorem runFormat_of_literal {op : DirectiveOp} (hkind : op.kind = .kLiteral)
    (ops : List DirectiveOp) (args : List CelValue) : runFormat host absl stack fmt (op :: ops) args
      = runFormat host absl stack fmt ops args >>= fun r => return r.map (emitLiteral fmt op ++ ·) :=
  if_pos hkind

theorem runFormat_of_clause {op : DirectiveOp} (hkind : op.kind ≠ .kLiteral)
    (ops : List DirectiveOp) (args : List CelValue) : runFormat host absl stack fmt (op :: ops) args
      = match args with
        | [] => return none
        | arg :: rest => do
          match ← dispatchDirective host absl stack op arg with
          | none => return none
          | some text => return (← runFormat host absl stack fmt ops rest).map (text ++ ·) :=
  if_neg hkind

/-- **The clauses take the arguments from the left**, each the next one. -/
theorem runFormat_eq_joinParts (ops : List DirectiveOp) (args : List CelValue) (taken : ℕ) :
    runFormat host absl stack fmt ops (args.drop taken)
      = joinParts (ops.mapIdx fun j op =>
          partText host absl stack fmt args (taken + clauseCount (ops.take j)) op) := by
  induction ops generalizing taken with
  | nil => rfl
  | cons op ops ih =>
    rw [List.mapIdx_cons, joinParts, List.take_zero, partText]
    by_cases hkind : op.kind = .kLiteral
    · have hcount : ∀ j, clauseCount ((op :: ops).take (j + 1)) = clauseCount (ops.take j) := by
        intro j
        rw [clauseCount, List.take_succ_cons, List.countP_cons_of_neg (by simpa using hkind)]
        rfl
      rw [runFormat_of_literal hkind, if_pos hkind, ih taken]
      simp only [hcount]
      rfl
    · have hcount : ∀ j, taken + clauseCount ((op :: ops).take (j + 1))
          = taken + 1 + clauseCount (ops.take j) := by
        intro j
        rw [clauseCount, List.take_succ_cons, List.countP_cons_of_pos (by simpa using hkind),
          clauseCount]
        omega
      rw [runFormat_of_clause hkind, if_neg hkind]
      simp only [hcount]
      change _ = (match args[taken]? with
        | none => return none
        | some arg => dispatchDirective host absl stack op arg) >>= _
      rcases lt_or_ge taken args.length with hlt | hge
      · rw [List.drop_eq_getElem_cons hlt, List.getElem?_eq_getElem hlt, ← ih (taken + 1)]
      · rw [List.drop_eq_nil_of_le hge, List.getElem?_eq_none hge]
        rfl

end Arguments

end CelWasm
