import CelWasm.Eval.Attribute
import Mathlib.Computability.Language

/-!
# Eval/PatternParser — the text of a pattern

A pattern is written as a variable and the qualifiers below it, with dots between them; a qualifier is
an identifier, or a star for any. The parser is a machine of three states over the characters, and
cuts the segments out of the text by their positions (`AttributePattern.parse`). It takes what the
grammar has, and gives the pattern that is written (`AttributePattern.parse_eq_ok_iff`).

    kSegStart  --ident-->  kInIdent  --.-->  kSegStart
    kSegStart  --*-->  kAfterStar  --.-->  kSegStart
-/

namespace CelWasm

/-! ## The machine -/

/-- `absl::ascii_isspace`. -/
def asciiIsspace (c : Char) : Bool := c == ' ' || (0x09 ≤ c.toNat && c.toNat ≤ 0x0d)

/-- `IsIdentStart`. -/
def isIdentStart (c : Char) : Bool := c.isAlpha || c == '_'

/-- `IsIdentCont`. -/
def isIdentCont (c : Char) : Bool := c.isAlphanum || c == '_'

/-- Letters, digits and the underscore. -/
theorem toNat_of_isIdentCont {c : Char} (h : isIdentCont c = true) :
    (((65 ≤ c.toNat ∧ c.toNat ≤ 90) ∨ (97 ≤ c.toNat ∧ c.toNat ≤ 122)) ∨
      (48 ≤ c.toNat ∧ c.toNat ≤ 57)) ∨ c = '_' := by
  change ((decide (65 ≤ c.val ∧ c.val ≤ 90) || decide (97 ≤ c.val) && decide (c.val ≤ 122)) ||
    decide (48 ≤ c.val) && decide (c.val ≤ 57) || c == '_') = true at h
  simp only [Bool.or_eq_true, Bool.and_eq_true, decide_eq_true_eq, beq_iff_eq,
    UInt32.le_iff_toNat_le] at h
  exact h

/-- `BadCharReason`; a character past ASCII stands for its first byte. -/
def badCharReason (c : Char) : String :=
  if c = '[' ∨ c = ']' then
    "has a bracket / index / key qualifier (not supported — the resolver never interns index/key " ++
      "access)"
  else if asciiIsspace c then "has whitespace in a segment"
  else "has an unexpected character `" ++ String.ofList [c] ++ "` in a segment"

/-- `PatternParser::State`. -/
inductive PatternState
  | kSegStart
  | kInIdent
  | kAfterStar
  deriving DecidableEq

/-- `PatternParser`; `pattern` is what has been committed. -/
structure PatternParser where
  dotted : List Char
  pattern : AttributePattern
  haveRoot : Bool
  segBegin : ℕ
  state : PatternState

namespace PatternParser

/-- The machine before the first character. -/
def start (dotted : List Char) : PatternParser where
  dotted
  pattern := ⟨"", []⟩
  haveRoot := false
  segBegin := 0
  state := .kSegStart

variable (p : PatternParser)

/-- `Err`. -/
def err {α : Type} (why : String) : Except String α :=
  .error ("AttributePattern::Parse: pattern `" ++ String.ofList p.dotted ++ "` " ++ why)

/-- **`Commit`**: the segment that ends before `stop`, the root first. -/
def commit (stop : ℕ) (isStar : Bool) : PatternParser :=
  let seg := String.ofList ((p.dotted.drop p.segBegin).take (stop - p.segBegin))
  if !p.haveRoot then
    { p with pattern := { p.pattern with variableName := seg }, haveRoot := true }
  else
    let qualifier := if isStar then .wildcard else .ofString seg
    { p with
      pattern := { p.pattern with qualifierPath := p.pattern.qualifierPath ++ [qualifier] } }

/-- `StepSegStart`. -/
def stepSegStart (i : ℕ) (c : Char) : Except String PatternParser :=
  if isIdentStart c then .ok { p with segBegin := i, state := .kInIdent }
  else if c = '*' ∧ p.haveRoot = true then .ok { p with segBegin := i, state := .kAfterStar }
  else if c = '*' then p.err "uses `*` as the root (the root must be a variable name)"
  else if c = '.' then p.err "has an empty segment (leading or consecutive dot)"
  else p.err (badCharReason c)

/-- `StepInIdent`. -/
def stepInIdent (i : ℕ) (c : Char) : Except String PatternParser :=
  if isIdentCont c then .ok p
  else if c = '.' then .ok { p.commit i false with state := .kSegStart }
  else p.err (badCharReason c)

/-- `StepAfterStar`. -/
def stepAfterStar (c : Char) : Except String PatternParser :=
  if c ≠ '.' then
    p.err "has `*` adjacent to other characters (the wildcard is a whole segment)"
  else .ok { p.commit (p.segBegin + 1) true with state := .kSegStart }

/-- `Step`. -/
def step (i : ℕ) (c : Char) : Except String PatternParser :=
  match p.state with
  | .kSegStart => p.stepSegStart i c
  | .kInIdent => p.stepInIdent i c
  | .kAfterStar => p.stepAfterStar c

/-- The loop of `Run`, from position `i` on. -/
def run : ℕ → List Char → PatternParser → Except String PatternParser
  | _, [], p => .ok p
  | i, c :: rest, p => do run (i + 1) rest (← p.step i c)

/-- The end of `Run`. -/
def finish : Except String AttributePattern :=
  if p.state = .kSegStart then
    if p.dotted = [] then p.err "is empty" else p.err "has a trailing dot"
  else .ok (p.commit p.dotted.length (p.state == .kAfterStar)).pattern

end PatternParser

/-- **`AttributePattern::Parse`**. -/
def AttributePattern.parse (dotted : String) : Except String AttributePattern := do
  (← PatternParser.run 0 dotted.toList (.start dotted.toList)).finish

/-! ## The grammar -/

/-- The identifiers. -/
def identifiers : Language Char :=
  {s | ∃ c rest, s = c :: rest ∧ isIdentStart c = true ∧ ∀ d ∈ rest, isIdentCont d = true}

/-- **The texts of patterns**: a root, and any number of qualifiers. -/
def patternTexts : Language Char := identifiers * KStar.kstar ({['.']} * ({['*']} + identifiers))

/-- A qualifier as it is written. -/
def AttributeQualifierPattern.chars : AttributeQualifierPattern → List Char
  | wildcard => ['*']
  | ofString value => value.toList

/-- The qualifiers of a pattern as they are written. -/
def qualifierChars (path : List AttributeQualifierPattern) : List Char :=
  path.flatMap fun q => '.' :: q.chars

/-- A pattern as it is written. -/
def AttributePattern.chars (pattern : AttributePattern) : List Char :=
  pattern.variableName.toList ++ qualifierChars pattern.qualifierPath

/-- A qualifier that can be written: a wildcard or an identifier. -/
def AttributeQualifierPattern.Named : AttributeQualifierPattern → Prop
  | wildcard => True
  | ofString value => value.toList ∈ identifiers

/-- **A pattern that can be written.** -/
def AttributePattern.Named (pattern : AttributePattern) : Prop :=
  pattern.variableName.toList ∈ identifiers ∧ ∀ q ∈ pattern.qualifierPath, q.Named

/-- The texts are what can be written. -/
theorem mem_patternTexts_iff {s : List Char} :
    s ∈ patternTexts ↔ ∃ pattern : AttributePattern, pattern.Named ∧ pattern.chars = s := by
  rw [patternTexts, Language.mem_mul]
  constructor
  · rintro ⟨root, hroot, rest, hrest, rfl⟩
    obtain ⟨blocks, rfl, hblocks⟩ := Language.mem_kstar.mp hrest
    suffices h : ∃ path : List AttributeQualifierPattern, (∀ q ∈ path, q.Named) ∧
        qualifierChars path = blocks.flatten by
      obtain ⟨path, hnamed, hchars⟩ := h
      exact ⟨⟨String.ofList root, path⟩, ⟨by simpa using hroot, hnamed⟩,
        by simp [AttributePattern.chars, hchars]⟩
    clear hrest
    induction blocks with
    | nil => exact ⟨[], fun _ h => absurd h List.not_mem_nil, rfl⟩
    | cons block blocks ih =>
      obtain ⟨path, hnamed, hchars⟩ := ih fun b hb => hblocks b (List.mem_cons_of_mem _ hb)
      obtain ⟨dot, hdot, text, htext, rfl⟩ := Language.mem_mul.mp (hblocks block List.mem_cons_self)
      obtain rfl : dot = ['.'] := hdot
      obtain htext | htext := (Language.mem_add _ _ _).mp htext
      · obtain rfl : text = ['*'] := htext
        exact ⟨.wildcard :: path, by simpa [AttributeQualifierPattern.Named] using hnamed,
          by simp [qualifierChars, AttributeQualifierPattern.chars, ← hchars]⟩
      · refine ⟨.ofString (String.ofList text) :: path, ?_, ?_⟩
        · simpa [AttributeQualifierPattern.Named] using And.intro htext hnamed
        · simp [qualifierChars, AttributeQualifierPattern.chars, ← hchars]
  · rintro ⟨pattern, ⟨hroot, hnamed⟩, rfl⟩
    refine ⟨_, hroot, _, Language.mem_kstar.mpr ⟨pattern.qualifierPath.map fun q => '.' :: q.chars,
      List.flatMap_def .., fun block hblock => ?_⟩, rfl⟩
    obtain ⟨q, hq, rfl⟩ := List.mem_map.mp hblock
    refine Language.mem_mul.mpr ⟨['.'], rfl, q.chars, (Language.mem_add _ _ _).mpr ?_, rfl⟩
    cases q with
    | wildcard => exact .inl rfl
    | ofString value => exact .inr (hnamed _ hq)

/-! ## What the machine has read -/

namespace PatternParser

/-- The text of what has been committed, and of the dot behind it. -/
def passed (p : PatternParser) : List Char :=
  if p.haveRoot = true then p.pattern.chars ++ ['.'] else []

/-- **The machine has read a text**: what is committed, and a part of the next segment. -/
structure Reads (p : PatternParser) (done : List Char) : Prop where
  rootless : p.haveRoot = false → p.pattern.qualifierPath = []
  named : p.haveRoot = true → p.pattern.Named
  segment : match p.state with
    | .kSegStart => done = p.passed
    | .kInIdent => ∃ seg ∈ identifiers, done = p.passed ++ seg ∧ p.segBegin = p.passed.length
    | .kAfterStar => p.haveRoot = true ∧ done = p.passed ++ ['*'] ∧ p.segBegin = p.passed.length

section Reading

variable {p p' : PatternParser} {done rest : List Char}

/-- The segment between two positions. -/
theorem seg_eq {before seg : List Char} (h : p.dotted = before ++ seg ++ rest)
    (hbegin : p.segBegin = before.length) :
    (p.dotted.drop p.segBegin).take ((before ++ seg).length - p.segBegin) = seg := by
  rw [h, hbegin, List.append_assoc, List.drop_left, List.length_append, Nat.add_sub_cancel_left,
    List.take_left]

/-- A segment that ends is committed. -/
theorem Reads.commit (h : p.Reads done) (hdotted : p.dotted = done ++ rest)
    (hstate : p.state ≠ .kSegStart) :
    (p.commit done.length (p.state == .kAfterStar)).haveRoot = true ∧
      (p.commit done.length (p.state == .kAfterStar)).pattern.Named ∧
      (p.commit done.length (p.state == .kAfterStar)).pattern.chars = done := by
  have hsegment := h.segment
  cases hs : p.state with
  | kSegStart => exact absurd hs hstate
  | kInIdent =>
    rw [hs] at hsegment
    obtain ⟨seg, hseg, rfl, hbegin⟩ := hsegment
    have hcut := seg_eq hdotted hbegin
    cases hroot : p.haveRoot with
    | false =>
      have hpassed : p.passed = [] := by rw [passed, hroot, if_neg Bool.false_ne_true]
      simp only [PatternParser.commit, hroot, hcut, Bool.not_false, if_true]
      refine ⟨trivial, ⟨by simpa using hseg, ?_⟩, ?_⟩
      · simp [h.rootless hroot]
      · simp [AttributePattern.chars, h.rootless hroot, qualifierChars, hpassed]
    | true =>
      have hpassed : p.passed = p.pattern.chars ++ ['.'] := if_pos hroot
      obtain ⟨hvariable, hpath⟩ := h.named hroot
      simp only [PatternParser.commit, hroot, hcut, Bool.not_true, Bool.false_eq_true, if_false,
        beq_iff_eq, reduceCtorEq]
      refine ⟨trivial, ⟨hvariable, fun q hq => ?_⟩, ?_⟩
      · obtain hq | hq := List.mem_append.mp hq
        · exact hpath q hq
        · obtain rfl := List.mem_singleton.mp hq
          simpa [AttributeQualifierPattern.Named] using hseg
      · simp [hpassed, AttributePattern.chars, qualifierChars, AttributeQualifierPattern.chars]
  | kAfterStar =>
    rw [hs] at hsegment
    obtain ⟨hroot, rfl, -⟩ := hsegment
    have hpassed : p.passed = p.pattern.chars ++ ['.'] := if_pos hroot
    obtain ⟨hvariable, hpath⟩ := h.named hroot
    simp only [PatternParser.commit, hroot, Bool.not_true, Bool.false_eq_true, if_false, beq_self_eq_true,
      if_true]
    refine ⟨trivial, ⟨hvariable, fun q hq => ?_⟩, ?_⟩
    · obtain hq | hq := List.mem_append.mp hq
      · exact hpath q hq
      · obtain rfl := List.mem_singleton.mp hq
        trivial
    · simp [hpassed, AttributePattern.chars, qualifierChars, AttributeQualifierPattern.chars]

/-- Past a dot, the machine has read all that is committed and the dot. -/
theorem reads_segStart {stop : ℕ} {isStar : Bool} (hroot : (p.commit stop isStar).haveRoot = true)
    (hnamed : (p.commit stop isStar).pattern.Named)
    (hchars : (p.commit stop isStar).pattern.chars = done) :
    Reads { p.commit stop isStar with state := .kSegStart } (done ++ ['.']) where
  rootless h := absurd (hroot.symm.trans h) Bool.noConfusion
  named _ := hnamed
  segment := by
    rw [← hchars]
    exact (if_pos hroot).symm

/-- **One step reads one character.** -/
theorem Reads.step (h : p.Reads done) {c : Char} (hdotted : p.dotted = done ++ c :: rest)
    (hstep : p.step done.length c = .ok p') : p'.Reads (done ++ [c]) ∧ p'.dotted = p.dotted := by
  have hsegment := h.segment
  unfold PatternParser.step at hstep
  cases hs : p.state with
  | kSegStart =>
    rw [hs] at hsegment hstep
    simp only [stepSegStart, err] at hsegment hstep
    split_ifs at hstep with hident hstar
    · obtain rfl := Except.ok.inj hstep
      exact ⟨⟨h.rootless, h.named, [c], ⟨c, [], rfl, hident, fun _ h => absurd h List.not_mem_nil⟩,
        congrArg (· ++ [c]) hsegment, congrArg List.length hsegment⟩, rfl⟩
    · obtain ⟨rfl, hroot⟩ := hstar
      obtain rfl := Except.ok.inj hstep
      exact ⟨⟨h.rootless, h.named, hroot, congrArg (· ++ ['*']) hsegment,
        congrArg List.length hsegment⟩, rfl⟩
  | kInIdent =>
    have hcommit := h.commit hdotted (by rw [hs]; exact PatternState.noConfusion)
    rw [hs] at hsegment hstep hcommit
    simp only [stepInIdent, err] at hstep
    split_ifs at hstep with hcont hdot
    · obtain rfl := Except.ok.inj hstep
      obtain ⟨seg, ⟨d, tail, rfl, hstart, htail⟩, hdone, hbegin⟩ := hsegment
      refine ⟨⟨h.rootless, h.named, ?_⟩, rfl⟩
      rw [hs]
      refine ⟨d :: tail ++ [c], ⟨d, tail ++ [c], rfl, hstart, fun e he => ?_⟩, ?_, hbegin⟩
      · obtain he | he := List.mem_append.mp he
        · exact htail e he
        · exact List.mem_singleton.mp he ▸ hcont
      · rw [hdone, List.append_assoc]
    · subst hdot
      obtain rfl := Except.ok.inj hstep
      refine ⟨reads_segStart hcommit.1 hcommit.2.1 hcommit.2.2, ?_⟩
      rw [PatternParser.commit]
      dsimp only
      split_ifs <;> rfl
  | kAfterStar =>
    have hcommit := h.commit hdotted (by rw [hs]; exact PatternState.noConfusion)
    rw [hs] at hsegment hstep hcommit
    simp only [stepAfterStar, err] at hstep
    split_ifs at hstep with hdot
    obtain rfl := not_not.mp hdot
    obtain rfl := Except.ok.inj hstep
    have hstop : p.segBegin + 1 = done.length := by
      rw [hsegment.2.2, hsegment.2.1, List.length_append, List.length_singleton]
    rw [hstop]
    refine ⟨reads_segStart hcommit.1 hcommit.2.1 hcommit.2.2, ?_⟩
    rw [PatternParser.commit]
    dsimp only
    split_ifs <;> rfl

/-- **A run reads the whole text.** -/
theorem Reads.run : ∀ {rest done : List Char} {p p' : PatternParser}, p.Reads done →
    p.dotted = done ++ rest → PatternParser.run done.length rest p = .ok p' →
    p'.Reads (done ++ rest) ∧ p'.dotted = done ++ rest
  | [], done, p, p', h, hdotted, hrun => by
    obtain rfl := Except.ok.inj hrun
    rw [List.append_nil] at hdotted ⊢
    exact ⟨h, hdotted⟩
  | c :: rest, done, p, p', h, hdotted, hrun => by
    rw [PatternParser.run] at hrun
    cases hstep : p.step done.length c with
    | error e =>
      rw [hstep] at hrun
      exact nomatch hrun
    | ok q =>
      rw [hstep] at hrun
      obtain ⟨hq, hsame⟩ := h.step hdotted hstep
      have hsplit : done ++ c :: rest = done ++ [c] ++ rest := by simp
      have hlength : done.length + 1 = (done ++ [c]).length := by simp
      rw [hsplit] at hdotted ⊢
      exact hq.run (hsame.trans hdotted) (hlength ▸ hrun)

end Reading

end PatternParser

/-- **What is parsed is what is written**, and can be. -/
theorem AttributePattern.parse_sound {dotted : String} {pattern : AttributePattern}
    (h : AttributePattern.parse dotted = .ok pattern) :
    pattern.Named ∧ pattern.chars = dotted.toList := by
  have hstart : (PatternParser.start dotted.toList).Reads [] :=
    ⟨fun _ => rfl, fun h => (nomatch h), rfl⟩
  rw [AttributePattern.parse] at h
  cases hrun : PatternParser.run 0 dotted.toList (.start dotted.toList) with
  | error e =>
    rw [hrun] at h
    exact nomatch h
  | ok p =>
    rw [hrun] at h
    obtain ⟨hreads, hdotted⟩ := hstart.run (List.nil_append _).symm hrun
    rw [List.nil_append] at hreads hdotted
    change p.finish = .ok pattern at h
    rw [PatternParser.finish, hdotted] at h
    simp only [PatternParser.err] at h
    split_ifs at h with hstate
    obtain rfl := Except.ok.inj h
    exact (hreads.commit (by rw [hdotted, List.append_nil]) hstate).2

/-! ## What is written is parsed -/

namespace PatternParser

section Writing

variable {p : PatternParser} {i : ℕ} {rest : List Char}

/-- The characters of an identifier past its first. -/
theorem run_identCont {seg : List Char} (hseg : ∀ c ∈ seg, isIdentCont c = true)
    (hstate : p.state = .kInIdent) :
    run i (seg ++ rest) p = run (i + seg.length) rest p := by
  induction seg generalizing i with
  | nil => rfl
  | cons c seg ih =>
    have hstep : p.step i c = .ok p := by
      rw [step, hstate]
      exact if_pos (hseg c List.mem_cons_self)
    rw [List.cons_append, run, hstep]
    change run (i + 1) (seg ++ rest) p = _
    rw [ih fun d hd => hseg d (List.mem_cons_of_mem _ hd), List.length_cons, Nat.add_assoc,
      Nat.add_comm 1]

/-- An identifier, from its start. -/
theorem run_identifier {seg : List Char} (hseg : seg ∈ identifiers)
    (hstate : p.state = .kSegStart) :
    run i (seg ++ rest) p
      = run (i + seg.length) rest { p with segBegin := i, state := .kInIdent } := by
  obtain ⟨c, tail, rfl, hstart, htail⟩ := hseg
  have hstep : p.step i c = .ok { p with segBegin := i, state := .kInIdent } := by
    rw [step, hstate]
    exact if_pos hstart
  rw [List.cons_append, run, hstep]
  change run (i + 1) (tail ++ rest) _ = _
  rw [run_identCont htail rfl, List.length_cons, Nat.add_assoc, Nat.add_comm 1]

/-- The state past a qualifier. -/
def stateBehind : AttributeQualifierPattern → PatternState
  | .wildcard => .kAfterStar
  | .ofString _ => .kInIdent

/-- A qualifier, from its start. -/
theorem run_qualifier {q : AttributeQualifierPattern} (hq : q.Named)
    (hstate : p.state = .kSegStart) (hroot : p.haveRoot = true) :
    run i (q.chars ++ rest) p
      = run (i + q.chars.length) rest { p with segBegin := i, state := stateBehind q } := by
  cases q with
  | wildcard =>
    have hstep : p.step i '*' = .ok { p with segBegin := i, state := .kAfterStar } := by
      rw [step, hstate, stepSegStart]
      simp [show isIdentStart '*' = false from rfl, hroot]
    change run i ('*' :: rest) p = _
    rw [run, hstep]
    rfl
  | ofString value => exact run_identifier hq hstate

/-- A dot behind a segment. -/
theorem run_dot (hstate : p.state ≠ .kSegStart)
    (hstar : p.state = .kAfterStar → i = p.segBegin + 1) :
    run i ('.' :: rest) p
      = run (i + 1) rest { p.commit i (p.state == .kAfterStar) with state := .kSegStart } := by
  have hstep : p.step i '.'
      = .ok { p.commit i (p.state == .kAfterStar) with state := .kSegStart } := by
    rw [step]
    cases hs : p.state with
    | kSegStart => exact absurd hs hstate
    | kInIdent =>
      change p.stepInIdent i '.' = _
      rw [stepInIdent, if_neg (by decide), if_pos rfl]
      rfl
    | kAfterStar =>
      rw [hstar hs]
      exact if_neg (not_not_intro rfl)
  rw [run, hstep]
  rfl

/-- A commit makes a root of the first segment and a qualifier of every other. -/
theorem commit_of_haveRoot {stop : ℕ} {isStar : Bool} {seg : List Char} (hroot : p.haveRoot = true)
    (hseg : (p.dotted.drop p.segBegin).take (stop - p.segBegin) = seg) :
    p.commit stop isStar = { p with pattern := { p.pattern with qualifierPath :=
      p.pattern.qualifierPath ++ [if isStar then .wildcard else .ofString (String.ofList seg)] } } := by
  rw [commit, hroot, hseg]
  rfl

theorem haveRoot_commit {stop : ℕ} {isStar : Bool} : (p.commit stop isStar).haveRoot = true := by
  rw [commit]
  cases p.haveRoot <;> rfl

theorem dotted_commit {stop : ℕ} {isStar : Bool} : (p.commit stop isStar).dotted = p.dotted := by
  rw [commit]
  cases p.haveRoot <;> rfl

/-- **The qualifiers that are still to be read** are added to what the machine has. -/
theorem run_qualifiers {path : List AttributeQualifierPattern} (hpath : ∀ q ∈ path, q.Named)
    {done : List Char} (hdotted : p.dotted = done ++ qualifierChars path)
    (hstate : p.state ≠ .kSegStart) (hstar : p.state = .kAfterStar → done.length = p.segBegin + 1) :
    (run done.length (qualifierChars path) p >>= finish) =
      .ok { (p.commit done.length (p.state == .kAfterStar)).pattern with
        qualifierPath :=
          (p.commit done.length (p.state == .kAfterStar)).pattern.qualifierPath ++ path } := by
  induction path generalizing p done with
  | nil =>
    change p.finish = _
    rw [finish, if_neg hstate, hdotted, qualifierChars, List.flatMap_nil, List.append_nil,
      List.append_nil]
  | cons q path ih =>
    have hsplit : qualifierChars (q :: path) = '.' :: (q.chars ++ qualifierChars path) := rfl
    rw [hsplit] at hdotted ⊢
    have hpattern : ∀ committed : PatternParser,
        ({ committed with state := .kSegStart } : PatternParser).pattern = committed.pattern :=
      fun _ => rfl
    rw [run_dot hstate hstar, ← hpattern (p.commit done.length (p.state == .kAfterStar))]
    generalize hnext :
      ({ p.commit done.length (p.state == .kAfterStar) with state := .kSegStart } : PatternParser)
        = next
    have hroot : next.haveRoot = true := hnext ▸ haveRoot_commit
    have hsame : next.dotted = done ++ ['.'] ++ q.chars ++ qualifierChars path := by
      rw [← hnext]
      simp [dotted_commit, hdotted]
    have hlength : done.length + 1 + q.chars.length = (done ++ ['.'] ++ q.chars).length := by
      simp only [List.length_append, List.length_singleton]
    have hqualifier :=
      @run_qualifier next (done.length + 1) (qualifierChars path) q (hpath q List.mem_cons_self)
        (hnext ▸ rfl) hroot
    generalize hbehind :
      ({ next with segBegin := done.length + 1, state := stateBehind q } : PatternParser) = behind
      at hqualifier
    have hstate' : behind.state = stateBehind q := hbehind ▸ rfl
    have hroot' : behind.haveRoot = true := hbehind ▸ hroot
    have hsame' : behind.dotted = done ++ ['.'] ++ q.chars ++ qualifierChars path := hbehind ▸ hsame
    have hbegin' : behind.segBegin = (done ++ ['.']).length := by simp [← hbehind]
    have hne : behind.state ≠ .kSegStart := by
      rw [hstate']
      cases q <;> exact PatternState.noConfusion
    have hstar' : behind.state = .kAfterStar →
        (done ++ ['.'] ++ q.chars).length = behind.segBegin + 1 := fun h => by
      rw [hstate'] at h
      cases q with
      | wildcard => simp [hbegin', AttributeQualifierPattern.chars]
      | ofString value => exact PatternState.noConfusion h
    rw [hqualifier, hlength, ih (fun q' hq' => hpath q' (List.mem_cons_of_mem _ hq')) hsame' hne
      hstar', commit_of_haveRoot hroot' (seg_eq hsame' hbegin'), hstate', ← hbehind]
    cases q with
    | wildcard => simp [stateBehind]
    | ofString value => simp [stateBehind, AttributeQualifierPattern.chars]

end Writing

end PatternParser

/-- **A pattern that can be written is parsed** from what is written. -/
theorem AttributePattern.parse_complete {dotted : String} {pattern : AttributePattern}
    (hnamed : pattern.Named) (hchars : pattern.chars = dotted.toList) :
    AttributePattern.parse dotted = .ok pattern := by
  obtain ⟨hroot, hpath⟩ := hnamed
  have hrun := @PatternParser.run_identifier (.start dotted.toList) 0
    (qualifierChars pattern.qualifierPath) pattern.variableName.toList hroot rfl
  have hrest := @PatternParser.run_qualifiers
    { PatternParser.start dotted.toList with segBegin := 0, state := .kInIdent }
    pattern.qualifierPath hpath pattern.variableName.toList hchars.symm PatternState.noConfusion
    fun h => PatternState.noConfusion h
  rw [Nat.zero_add] at hrun
  have hvariable : (dotted.toList.drop 0).take (pattern.variableName.toList.length - 0)
      = pattern.variableName.toList := by
    rw [← hchars, AttributePattern.chars, List.drop_zero, Nat.sub_zero, List.take_left]
  have hwhole : PatternParser.run 0 dotted.toList (.start dotted.toList) = _ :=
    (congrArg (PatternParser.run 0 · (.start dotted.toList)) hchars.symm).trans hrun
  rw [AttributePattern.parse, hwhole]
  refine hrest.trans ?_
  simp only [PatternParser.commit, PatternParser.start, Bool.not_false, if_true]
  rw [hvariable, String.ofList_toList, List.nil_append]

/-- **The parser is the grammar's.** -/
theorem AttributePattern.parse_eq_ok_iff {dotted : String} {pattern : AttributePattern} :
    AttributePattern.parse dotted = .ok pattern
      ↔ pattern.Named ∧ pattern.chars = dotted.toList :=
  ⟨AttributePattern.parse_sound, fun h => AttributePattern.parse_complete h.1 h.2⟩

end CelWasm
