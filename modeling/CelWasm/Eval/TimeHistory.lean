import CelWasm.Eval.DurationTexts
import CelWasm.Runtime.WellFormedTexts
import Mathlib.Logic.Relation

/-!
# Eval/TimeHistory — the durations and timestamps that an evaluation can come to

Durations and timestamps come of texts, of integers, and of one another. Each producer has a check of
its own range: `payload_in_range` and the checks of timestamps look at the nanoseconds at the ends of
the range, `cel_duration_parse_at_v` looks at the seconds and at nothing else.

    duration(text) ──┐
    duration(int)  ──┼──▸ cells ──▸ sums and differences ──▸ cells
    timestamp(…)   ──┘
-/

namespace CelWasm

open CellProg

/-! ## Texts of timestamps -/

/-- `RejectsAsTimestampPerCEL`. -/
def rejectsAsTimestampPerCEL (input : List UInt8) : Bool :=
  if input.getLast? = some 0x7A then true
  else if verbatim ":60" <:+: input then true
  else
    match input.findIdx? (· == 0x2D) with
    | none => true
    | some dash => dash < 4

/-- `kTimestampMinSeconds`. -/
def kTimestampMinSeconds : Int64 := -62135596800

/-- `kTimestampMaxSeconds`. -/
def kTimestampMaxSeconds : Int64 := 253402300799

/-- **What Abseil makes of texts**: `absl::ParseDuration`, and `absl::ParseTime` with
`RFC3339_full`. -/
structure AbslParsers where
  parseDuration : List UInt8 → Option AbslDuration
  parseTime : List UInt8 → Option AbslTime

/-- What `cel_timestamp_parse_at_v` makes of a text. -/
def parsedTimestamp (parseTime : List UInt8 → Option AbslTime) (s : List UInt8) : CelValue :=
  match parseTime s with
  | none => .error .invalidArgument
  | some t =>
    if rejectsAsTimestampPerCEL s then .error .invalidArgument
    else
      let payload := decomposeAbslDuration (t.sub (.ofSeconds 0))
      if payload.seconds < kTimestampMinSeconds ∨ kTimestampMaxSeconds < payload.seconds ∨
          payload.seconds = kTimestampMinSeconds ∧ payload.nanos < 0 then .error .overflow
      else .timestamp payload

/-- `cel_timestamp_parse_at_v`. -/
def celTimestampParseAt (parseTime : List UInt8 → Option AbslTime) : Slot → Slot → SlotKernel Unit :=
  unaryKernelAt .string .invalidArgument CelValue.string? (parsedTimestamp parseTime)

/-! ## Histories -/

/-- **The producers of durations and timestamps.** There is no negation among them. -/
inductive TimeCall
  | durationOf (text : Slot)
  | timestampOf (text : Slot)
  | intToDur (int : Slot)
  | intToTs (int : Slot)
  | arith (op : TimeOp) (a b : Slot)

/-- Its kernel. -/
def TimeCall.run (absl : AbslParsers) : TimeCall → Slot → SlotKernel Unit
  | durationOf text, out => celDurationParseAt absl.parseDuration out text
  | timestampOf text, out => celTimestampParseAt absl.parseTime out text
  | intToDur int, out => celIntToDurAt out int
  | intToTs int, out => celIntToTsAt out int
  | arith op a b, out => op.kernelAt out a b

/-- **A step of an evaluation**: a producer, or an instruction that writes some value that is no time,
or one that is there already. -/
inductive TimeStep (absl : AbslParsers) : (Slot → CelValue) → Option TimeCall → (Slot → CelValue) → Prop
  | call {cells cells' : Slot → CelValue} (c : TimeCall) (out : Slot)
      (h : ((c.run absl out).run cells).Reaches (.ok ((), cells'))) : TimeStep absl cells (some c) cells'
  | other {cells : Slot → CelValue} (out : Slot) (v : CelValue)
      (h : v.kind ≠ .duration ∧ v.kind ≠ .timestamp) :
      TimeStep absl cells none (Function.update cells out v)
  | copy {cells : Slot → CelValue} (out s : Slot) :
      TimeStep absl cells none (Function.update cells out (cells s))

/-- **A duration or a timestamp is as documented**: canonical, and within the range of its kind to the
nanosecond. -/
def IsDocumentedTime : CelValue → Prop
  | .duration d => d.Canonical ∧ -(315576000000 * 10 ^ 9) ≤ d.totalNanos ∧
      d.totalNanos ≤ 315576000000 * 10 ^ 9
  | .timestamp t => t.Canonical ∧ InTimeRange .timestamp t.totalNanos
  | _ => True

/-- **A text past the limit by part of a second**: the filter lets it through, and what it denotes is a
nanosecond or more beyond the longest duration, and less than a second. -/
def PastLimit (parseDuration : List UInt8 → Option AbslDuration) (s : List UInt8) : Prop :=
  rejectsAsDurationPerCEL s = false ∧ ∃ hi lo, parseDuration s = some (.finite hi lo) ∧
    315576000000 * 4000000000 + 4 ≤ |AbslDuration.ticks hi lo| ∧
    |AbslDuration.ticks hi lo| < 315576000001 * 4000000000

/-- The texts that a step gives to `duration` are not past the limit. -/
def WithinLimit (absl : AbslParsers) (cells : Slot → CelValue) : Option TimeCall → Prop
  | some (.durationOf text) => ∀ s, cells text = .string s → ¬ PastLimit absl.parseDuration s
  | _ => True

/-- A step within the limit. -/
def StepsWithin (absl : AbslParsers) (cells cells' : Slot → CelValue) : Prop :=
  ∃ c, WithinLimit absl cells c ∧ TimeStep absl cells c cells'

/-! ## Pairs -/

/-- **The pair of a finite duration** is canonical, and its nanoseconds are the ticks rounded toward
zero. -/
theorem decomposeAbslDuration_finite (hi : Int64) (lo : Fin 4000000000) :
    (decomposeAbslDuration (.finite hi lo)).Canonical ∧
      (decomposeAbslDuration (.finite hi lo)).totalNanos
        = if 0 ≤ AbslDuration.ticks hi lo then AbslDuration.ticks hi lo / 4
          else -(-AbslDuration.ticks hi lo / 4) := by
  have hlow := hi.le_toInt
  have hhigh := hi.toInt_lt
  have hlt := lo.isLt
  have hticks : AbslDuration.ticks hi lo = hi.toInt * 4000000000 + lo.val := rfl
  rw [CelDurTs.totalNanos, units, hticks]
  by_cases hfraction : hi.toInt < 0 ∧ lo ≠ 0
  · obtain ⟨hneg, hlo⟩ := hfraction
    have hpos : 0 < lo.val := Fin.pos_iff_ne_zero.mpr hlo
    have hsucc : (hi + 1).toInt = hi.toInt + 1 := toInt_add64 (by
      change _ ≤ hi.toInt + 1
      omega) (by
      change hi.toInt + 1 < _
      omega)
    have hnanos : (Int32.ofInt (-((4000000000 - lo.val) / 4 : ℕ))).toInt
        = -((4000000000 - lo.val) / 4 : ℕ) := Int32.toInt_ofInt_of_le (by omega) (by omega)
    rw [decomposeAbslDuration_of_fraction hneg hlo]
    refine ⟨⟨?_, ?_, ?_, ?_⟩, ?_⟩
    all_goals simp only [hsucc, hnanos]
    · omega
    · omega
    · omega
    · omega
    · rw [if_neg (by omega)]
      omega
  · have hwhole : 0 ≤ hi.toInt ∨ lo = 0 := by
      by_cases hzero : lo = 0
      · exact .inr hzero
      · exact .inl (not_lt.mp fun hneg => hfraction ⟨hneg, hzero⟩)
    have hzero : lo = 0 → lo.val = 0 := fun h => h ▸ rfl
    have hnanos : (Int32.ofInt (lo.val / 4 : ℕ)).toInt = (lo.val / 4 : ℕ) :=
      Int32.toInt_ofInt_of_le (by omega) (by omega)
    rw [decomposeAbslDuration_of_whole hwhole]
    refine ⟨⟨?_, ?_, ?_, ?_⟩, ?_⟩
    all_goals simp only [hnanos]
    · omega
    · omega
    · omega
    · omega
    · split_ifs <;> omega

/-! ## Each producer -/

section Producers

variable {absl : AbslParsers}

/-- **A text comes to a duration as documented** unless it is past the limit. -/
theorem isDocumentedTime_parsedDuration_iff {parseDuration : List UInt8 → Option AbslDuration}
    {s : List UInt8} :
    IsDocumentedTime (parsedDuration parseDuration s) ↔ ¬ PastLimit parseDuration s := by
  rw [parsedDuration]
  cases hparse : parseDuration s with
  | none =>
    refine iff_of_true trivial ?_
    rintro ⟨-, hi, lo, h, -⟩
    cases hparse.symm.trans h
  | some d =>
    cases hfilter : rejectsAsDurationPerCEL s with
    | true =>
      refine iff_of_true trivial fun h => ?_
      cases hfilter.symm.trans h.1
    | false =>
      have hmin : (-kDurationMaxSeconds).toInt = -315576000000 := rfl
      have hmax : kDurationMaxSeconds.toInt = 315576000000 := rfl
      simp only [Bool.false_eq_true, if_false, Int64.lt_iff_toInt_lt, hmin, hmax]
      cases d with
      | infinite negative =>
        have hout : (decomposeAbslDuration (.infinite negative)).seconds.toInt < -315576000000 ∨
            315576000000 < (decomposeAbslDuration (.infinite negative)).seconds.toInt := by
          cases negative <;> decide
        rw [if_pos hout]
        refine iff_of_true trivial ?_
        rintro ⟨-, hi, lo, h, -⟩
        cases hparse.symm.trans h
      | finite hi lo =>
        have hpast : PastLimit parseDuration s ↔
            315576000000 * 4000000000 + 4 ≤ |AbslDuration.ticks hi lo| ∧
              |AbslDuration.ticks hi lo| < 315576000001 * 4000000000 := by
          refine ⟨?_, fun hticks => ⟨hfilter, hi, lo, hparse, hticks⟩⟩
          rintro ⟨-, hi', lo', h, hticks⟩
          obtain ⟨rfl, rfl⟩ := AbslDuration.finite.inj (Option.some.inj (hparse.symm.trans h))
          exact hticks
        obtain ⟨hcanonical, htotal⟩ := decomposeAbslDuration_finite hi lo
        rw [hpast]
        generalize AbslDuration.ticks hi lo = t at htotal
        generalize decomposeAbslDuration (.finite hi lo) = d at hcanonical htotal
        have hunits : d.totalNanos = d.seconds.toInt * 10 ^ 9 + d.nanos.toInt := rfl
        obtain ⟨hhi, hlo, hpos, hneg⟩ := id hcanonical
        rw [abs_eq_max_neg]
        split_ifs with hout
        · refine iff_of_true trivial ?_
          split_ifs at htotal <;> omega
        · rw [IsDocumentedTime, and_iff_right hcanonical]
          split_ifs at htotal <;> omega

/-- **Every text comes to a timestamp as documented**, or to an error. -/
theorem isDocumentedTime_parsedTimestamp (parseTime : List UInt8 → Option AbslTime) (s : List UInt8) :
    IsDocumentedTime (parsedTimestamp parseTime s) := by
  rw [parsedTimestamp]
  cases parseTime s with
  | none => exact trivial
  | some t =>
    have hmin : kTimestampMinSeconds.toInt = -62135596800 := rfl
    have hmax : kTimestampMaxSeconds.toInt = 253402300799 := rfl
    have hzero : (0 : Int32).toInt = 0 := rfl
    simp only [AbslDuration.sub_ofSeconds_zero, Int64.lt_iff_toInt_lt, Int32.lt_iff_toInt_lt,
      ← Int64.toInt_inj, hmin, hmax, hzero]
    split_ifs with hfilter hout
    · exact trivial
    · exact trivial
    · cases t with
      | infinite negative => exact absurd (by cases negative <;> decide) hout
      | finite hi lo =>
        obtain ⟨hcanonical, -⟩ := decomposeAbslDuration_finite hi lo
        generalize decomposeAbslDuration (.finite hi lo) = d at hcanonical hout
        have hunits : d.totalNanos = d.seconds.toInt * 10 ^ 9 + d.nanos.toInt := rfl
        obtain ⟨hhi, hlo, hpos, hneg⟩ := id hcanonical
        refine ⟨hcanonical, ?_⟩
        rw [InTimeRange, if_pos rfl]
        omega

/-- A whole second is canonical. -/
theorem canonical_second (s : Int64) : CelDurTs.Canonical ⟨s, 0⟩ :=
  ⟨show (0 : ℤ) < 10 ^ 9 by decide, show (-10 ^ 9 : ℤ) < 0 by decide, fun _ => le_rfl, fun _ => le_rfl⟩

/-- **Every integer comes to a duration as documented**, or to an error… -/
theorem isDocumentedTime_intToDur (s : Int64) :
    IsDocumentedTime (if durationInRange ⟨s, 0⟩ then .duration ⟨s, 0⟩ else .error .overflow) := by
  have hmax : 315576000000 < s ↔ 315576000000 < s.toInt := Int64.lt_iff_toInt_lt
  have hmin : s < -315576000000 ↔ s.toInt < -315576000000 := Int64.lt_iff_toInt_lt
  have hunits : CelDurTs.totalNanos ⟨s, 0⟩ = s.toInt * 10 ^ 9 + 0 := rfl
  split_ifs with hrange
  · refine ⟨canonical_second s, ?_⟩
    rw [durationInRange, payloadInRange] at hrange
    split_ifs at hrange with hout
    rw [Bool.or_eq_true, decide_eq_true_eq, decide_eq_true_eq, hmax, hmin] at hout
    rw [hunits]
    omega
  · exact trivial

/-- …and so does a timestamp. -/
theorem isDocumentedTime_intToTs (s : Int64) :
    IsDocumentedTime (if timestampInRange ⟨s, 0⟩ then .timestamp ⟨s, 0⟩ else .error .overflow) := by
  split_ifs with hrange
  · exact ⟨canonical_second s, (timestampInRange_iff (canonical_second s)).mp hrange⟩
  · exact trivial

/-- **Sums and differences are as documented**, or the overflow error. -/
theorem isDocumentedTime_result (op : TimeOp) {a b : CelDurTs} (ha : a.Canonical) (hb : b.Canonical) :
    IsDocumentedTime (op.spec.result a b) := by
  obtain ⟨hin, hout⟩ := isTime_result op ha hb
  by_cases hv : InTimeRange op.spec.resultKind (exactly op.spec.subtract a.totalNanos b.totalNanos)
  · obtain ⟨d, hd, htotal, heq⟩ := hin hv
    rw [heq, timeValue]
    rw [← htotal] at hv
    split_ifs with hkind
    · rw [hkind] at hv
      exact ⟨hd, hv⟩
    · rw [InTimeRange, if_neg hkind] at hv
      exact ⟨hd, by omega, by omega⟩
  · rw [hout hv]
    exact trivial

/-! ## Kernels -/

theorem isDocumentedTime_of_isPoison {v : CelValue} (h : v.isPoison = true) : IsDocumentedTime v := by
  cases v with
  | error _ | unknown _ => exact trivial
  | _ => exact nomatch h

theorem isDocumentedTime_of_kind {v : CelValue} (h : v.kind ≠ .duration ∧ v.kind ≠ .timestamp) :
    IsDocumentedTime v := by
  cases v with
  | duration _ => exact absurd rfl h.1
  | timestamp _ => exact absurd rfl h.2
  | _ => exact trivial

/-- A kernel of one operand is as documented if what it computes is. -/
theorem meets_unaryKernel {α : Type} {want : CelKind} {mismatch : CelErr} {arm : CelValue → Option α}
    {compute : α → CelValue} {a : CelValue} (h : ∀ x, arm a = some x → IsDocumentedTime (compute x)) :
    (unaryKernel want mismatch arm compute a).Meets IsDocumentedTime fun _ => True := by
  rw [unaryKernel, unlessAbsorbedUnary, absorb3vlUnary]
  by_cases hpoison : a.isPoison = true
  · rw [if_pos hpoison]
    exact isDocumentedTime_of_isPoison hpoison
  · rw [if_neg hpoison]
    refine Prog.meets_ite (fun _ => trivial) fun _ => ?_
    cases harm : arm a with
    | none => exact trivial
    | some x => exact h x harm

/-- The operands of arithmetic are canonical. -/
theorem canonical_of_durTs {v : CelValue} {d : CelDurTs} (hv : IsDocumentedTime v)
    (h : v.durTs? = some d) : d.Canonical := by
  cases v with
  | duration _ | timestamp _ =>
    obtain rfl := Option.some.inj h
    exact hv.1
  | _ => exact nomatch h

/-- What a producer computes of documented cells. -/
theorem meets_run (c : TimeCall) (out : Slot) {cells : Slot → CelValue}
    (hcells : ∀ s, IsDocumentedTime (cells s)) (hwithin : WithinLimit absl cells (some c)) :
    ((c.run absl out).run cells).Meets (fun r => ∀ s, IsDocumentedTime (r.2 s)) fun _ => True := by
  have hstore : ∀ v : CelValue, IsDocumentedTime v →
      ∀ s, IsDocumentedTime (Function.update cells out v s) := by
    intro v hv s
    rw [Function.update_apply]
    split_ifs
    · exact hv
    · exact hcells s
  have hunary : ∀ {α : Type} {want : CelKind} {mismatch : CelErr} {arm : CelValue → Option α}
      {compute : α → CelValue} {a : Slot},
      (∀ x, arm (cells a) = some x → IsDocumentedTime (compute x)) →
      ((unaryKernelAt want mismatch arm compute out a).run cells).Meets
        (fun r => ∀ s, IsDocumentedTime (r.2 s)) fun _ => True := by
    intro α want mismatch arm compute a h
    rw [computes_unaryKernelAt want mismatch arm compute a out cells]
    exact (meets_unaryKernel h).bind hstore
  cases c with
  | durationOf text =>
    refine hunary fun s hs => isDocumentedTime_parsedDuration_iff.mpr (hwithin s ?_)
    cases h : cells text with
    | string t =>
      rw [h] at hs
      rw [Option.some.inj hs]
    | _ =>
      rw [h] at hs
      exact nomatch hs
  | timestampOf text => exact hunary fun s _ => isDocumentedTime_parsedTimestamp absl.parseTime s
  | intToDur int => exact hunary fun s _ => isDocumentedTime_intToDur s
  | intToTs int => exact hunary fun s _ => isDocumentedTime_intToTs s
  | arith op a b =>
    change ((op.kernelAt out a b).run cells).Meets _ _
    rw [op.kernelAt_eq, computes_runArithAt op.spec a b out cells]
    refine Prog.Meets.bind ?_ hstore
    refine meets_absorb3vlBinary.bind fun o ho => ?_
    cases o with
    | some v => exact isDocumentedTime_of_isPoison (ho v rfl)
    | none =>
      refine Prog.meets_ite (fun _ => trivial) fun _ => ?_
      cases hx : (cells a).durTs? with
      | none => exact trivial
      | some x =>
        cases hy : (cells b).durTs? with
        | none => exact trivial
        | some y =>
          exact isDocumentedTime_result op (canonical_of_durTs (hcells a) hx)
            (canonical_of_durTs (hcells b) hy)

end Producers

/-! ## Runs -/

section Runs

variable {absl : AbslParsers} {cells cells' : Slot → CelValue}

/-- **A step within the limit** keeps every cell as documented. -/
theorem StepsWithin.documented (h : StepsWithin absl cells cells')
    (hcells : ∀ s, IsDocumentedTime (cells s)) (s : Slot) : IsDocumentedTime (cells' s) := by
  obtain ⟨c, hwithin, hstep⟩ := h
  cases hstep with
  | call c out hreach => exact (meets_run c out hcells hwithin).good_of_reaches hreach s
  | other out v hv =>
    rw [Function.update_apply]
    split_ifs
    · exact isDocumentedTime_of_kind hv
    · exact hcells s
  | copy out t =>
    rw [Function.update_apply]
    split_ifs
    · exact hcells t
    · exact hcells s

/-- …and so does a run of them. -/
theorem documented_of_run (h : Relation.ReflTransGen (StepsWithin absl) cells cells')
    (hcells : ∀ s, IsDocumentedTime (cells s)) : ∀ s, IsDocumentedTime (cells' s) := by
  induction h with
  | refl => exact hcells
  | tail _ hstep ih => exact hstep.documented ih

/-- Arithmetic is a step within the limit. -/
theorem stepsWithin_arith (op : TimeOp) {a b : Slot} {x y : CelDurTs}
    (ha : cells a = timeValue op.spec.wantA x) (hb : cells b = timeValue op.spec.wantB y) (out : Slot) :
    StepsWithin absl cells (Function.update cells out (op.spec.result x y)) := by
  refine ⟨some (.arith op a b), trivial, .call _ out ?_⟩
  change ((op.kernelAt out a b).run cells).Reaches _
  rw [run_kernelAt op ha hb]
  exact .ret _

/-- …and so is reading a text that is. -/
theorem stepsWithin_durationOf {a : Slot} {s : List UInt8} (ha : cells a = .string s)
    (hs : ¬ PastLimit absl.parseDuration s) (out : Slot) :
    StepsWithin absl cells (Function.update cells out (parsedDuration absl.parseDuration s)) := by
  refine ⟨some (.durationOf a), fun t ht => ?_, .call _ out ?_⟩
  · obtain rfl := CelValue.string.inj (ha.symm.trans ht)
    exact hs
  · change ((celDurationParseAt absl.parseDuration out a).run cells).Reaches _
    rw [run_celDurationParseAt absl.parseDuration ha]
    exact .ret _

end Runs

/-- **Durations and timestamps are as documented, but for the texts past the limit.** In every run that
gives `duration` no text which is past the longest duration by part of a second, every cell stays
canonical and in range to the nanosecond; and a text comes to a duration that is not as documented
exactly when it is past the limit. -/
theorem documentedTimes_iff (absl : AbslParsers) :
    (∀ start cells : Slot → CelValue, (∀ s, IsDocumentedTime (start s)) →
      Relation.ReflTransGen (StepsWithin absl) start cells → ∀ s, IsDocumentedTime (cells s)) ∧
    (∀ s, IsDocumentedTime (parsedDuration absl.parseDuration s) ↔ ¬ PastLimit absl.parseDuration s) :=
  ⟨fun _ _ hstart hrun => documented_of_run hrun hstart, fun _ => isDocumentedTime_parsedDuration_iff⟩

/-- A second and a half, read and doubled. -/
theorem documentedTimes_iff_doubled : ∃ cells : Slot → CelValue,
    Relation.ReflTransGen (StepsWithin ⟨readDuration, fun _ => none⟩)
      (fun s => if s = 0 then .string (durationText ⟨1, 500000000⟩) else .null) cells ∧
    cells 2 = .duration ⟨3, 0⟩ ∧ ∀ s, IsDocumentedTime (cells s) := by
  have hvalid : ValidDuration 1 500000000 :=
    ⟨by decide, by decide, by decide, by decide, by decide, by decide⟩
  have hparsed := parsedDuration_durationText (d := ⟨1, 500000000⟩) hvalid followsGrammar_readDuration
  have hwithin : ¬ PastLimit readDuration (durationText ⟨1, 500000000⟩) := by
    rw [← isDocumentedTime_parsedDuration_iff, hparsed]
    exact ⟨⟨by decide, by decide, by decide, by decide⟩, by decide, by decide⟩
  have hread := @stepsWithin_durationOf ⟨readDuration, fun _ => none⟩
    (fun s => if s = 0 then .string (durationText ⟨1, 500000000⟩) else .null) 0 _ rfl hwithin 1
  rw [hparsed] at hread
  have hrun := (Relation.ReflTransGen.single hread).tail
    (stepsWithin_arith .durAdd (a := 1) (b := 1) (x := ⟨1, 500000000⟩) (y := ⟨1, 500000000⟩) rfl rfl 2)
  refine ⟨_, hrun, rfl, (documentedTimes_iff ⟨readDuration, fun _ => none⟩).1 _ _ (fun s => ?_) hrun⟩
  split_ifs <;> exact trivial

/-- **Half a second past the longest duration is taken.** -/
theorem not_documentedTimes_half : FollowsGrammar readDuration ∧
    (celDurationParseAt readDuration 1 0).run (fun _ => .string (verbatim "315576000000.5s"))
      = pure ((), Function.update (fun _ => .string (verbatim "315576000000.5s")) 1
        (.duration ⟨315576000000, 500000000⟩)) ∧
    ¬ IsDocumentedTime (.duration ⟨315576000000, 500000000⟩) := by
  have hread : readDuration (verbatim "315576000000.5s") = some (.finite 315576000000 2000000000) := by
    decide
  have hfilter : rejectsAsDurationPerCEL (verbatim "315576000000.5s") = false := by decide +kernel
  have hpair : decomposeAbslDuration (.finite 315576000000 2000000000) = ⟨315576000000, 500000000⟩ := by
    rfl
  have hrange : ¬ ((315576000000 : Int64) < -kDurationMaxSeconds ∨ kDurationMaxSeconds < 315576000000) := by
    decide
  refine ⟨followsGrammar_readDuration, ?_, fun h => ?_⟩
  · rw [run_celDurationParseAt readDuration rfl, parsedDuration, hread]
    simp only [hfilter, hpair, if_neg hrange, Bool.false_eq_true, if_false]
  · have hunits : CelDurTs.totalNanos ⟨315576000000, 500000000⟩ = 315576000000500000000 := rfl
    have hmax := h.2.2
    rw [hunits] at hmax
    omega

end CelWasm
