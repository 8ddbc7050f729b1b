import CelWasm.Library.SignedC
import CelWasm.Library.SignedPair
import CelWasm.Runtime.SlotArithmetic

/-!
# Runtime/TimeArithmetic — durations and timestamps to the nanosecond

`dur_combine` adds or subtracts seconds and nanoseconds apart, carries, and brings the signs together.
On canonical operands no step of it leaves its type but the two it checks, so that what it comes to is
the canonical pair of the exact result; what it refuses is in no range that a kernel allows.

    (s, n) ± (s', n') ── checked ──▸ (s ± s', n ± n') ── checked ──▸ carried ──▸ aligned ──▸ the range
-/

namespace CelWasm

open CellProg

/-! ## Canonical pairs -/

namespace CelDurTs

/-- The nanoseconds of it. -/
def totalNanos (d : CelDurTs) : ℤ := units (10 ^ 9) d.seconds.toInt d.nanos.toInt

/-- **A canonical pair**: less than a second of nanoseconds, on the side of zero of the seconds. -/
structure Canonical (d : CelDurTs) : Prop where
  nanos_lt : d.nanos.toInt < 10 ^ 9
  neg_lt_nanos : -10 ^ 9 < d.nanos.toInt
  nanos_nonneg : 0 < d.seconds.toInt → 0 ≤ d.nanos.toInt
  nanos_nonpos : d.seconds.toInt < 0 → d.nanos.toInt ≤ 0

/-- Such a pair as one of numbers. -/
def Canonical.pair {d : CelDurTs} (h : d.Canonical) : SignedPair (10 ^ 9) :=
  ⟨d.seconds.toInt, d.nanos.toInt, h.nanos_lt, h.neg_lt_nanos, h.nanos_nonneg, h.nanos_nonpos⟩

/-- **There is one canonical pair for a number of nanoseconds.** -/
theorem Canonical.eq_of_totalNanos {d e : CelDurTs} (hd : d.Canonical) (he : e.Canonical)
    (h : d.totalNanos = e.totalNanos) : d = e := by
  have hpairs := @SignedPair.value_injective _ hd.pair he.pair h
  have hseconds : d.seconds = e.seconds := Int64.toInt_inj.mp (congrArg SignedPair.whole hpairs)
  have hnanos : d.nanos = e.nanos := Int32.toInt_inj.mp (congrArg SignedPair.part hpairs)
  cases d
  cases e
  obtain rfl := hseconds
  obtain rfl := hnanos
  rfl

/-- What the signs of have been brought together. -/
theorem canonical_of_aligned {d : CelDurTs} {whole part : ℤ} (hpart : -10 ^ 9 < part ∧ part < 10 ^ 9)
    (h : (d.seconds.toInt, d.nanos.toInt) = aligned (10 ^ 9) whole part) : d.Canonical := by
  have hpair : d.seconds.toInt = (SignedPair.align whole part hpart.1 hpart.2).whole ∧
      d.nanos.toInt = (SignedPair.align whole part hpart.1 hpart.2).part := Prod.mk.inj h
  obtain ⟨hseconds, hnanos⟩ := hpair
  generalize SignedPair.align whole part hpart.1 hpart.2 = p at hseconds hnanos
  constructor
  · rw [hnanos]
    exact p.part_lt
  · rw [hnanos]
    exact p.neg_lt_part
  · rw [hseconds, hnanos]
    exact p.part_nonneg
  · rw [hseconds, hnanos]
    exact p.part_nonpos

end CelDurTs

/-! ## The checks of seconds -/

/-- The exact result. -/
def exactly (subtract : Bool) (x y : ℤ) : ℤ := if subtract then x - y else x + y

/-- Wholes and parts apart are units together. -/
theorem units_exactly (subtract : Bool) (base s s' n n' : ℤ) :
    units base (exactly subtract s s') (exactly subtract n n')
      = exactly subtract (units base s n) (units base s' n') := by
  cases subtract <;> simp only [exactly, units, if_true, Bool.false_eq_true, if_false] <;> ring

/-- The checked result on seconds. -/
def combineSeconds (subtract : Bool) (x y : Int64) : Option Int64 :=
  if subtract then subInt64 x y else addInt64 x y

theorem addInt64_spec (x y : Int64) : match addInt64 x y with
    | some z => z.toInt = x.toInt + y.toInt
    | none => ¬ (-2 ^ 63 ≤ x.toInt + y.toInt ∧ x.toInt + y.toInt < 2 ^ 63) := by
  rw [addInt64]
  split_ifs with h
  · exact CEval.toInt_of_signed (CEval.add_eq h.1 (by have := h.2; rw [int64Max] at this; omega))
  · rw [int64Min, int64Max] at h
    omega

theorem subInt64_spec (x y : Int64) : match subInt64 x y with
    | some z => z.toInt = x.toInt - y.toInt
    | none => ¬ (-2 ^ 63 ≤ x.toInt - y.toInt ∧ x.toInt - y.toInt < 2 ^ 63) := by
  rw [subInt64]
  split_ifs with h
  · exact CEval.toInt_of_signed (CEval.sub_eq h.1 (by have := h.2; rw [int64Max] at this; omega))
  · rw [int64Min, int64Max] at h
    omega

theorem combineSeconds_spec (subtract : Bool) (x y : Int64) : match combineSeconds subtract x y with
    | some z => z.toInt = exactly subtract x.toInt y.toInt
    | none => ¬ (-2 ^ 63 ≤ exactly subtract x.toInt y.toInt ∧
        exactly subtract x.toInt y.toInt < 2 ^ 63) := by
  cases subtract
  · exact addInt64_spec x y
  · exact subInt64_spec x y

/-- The carry on seconds. -/
def carrySeconds (rawS carry : Int64) : Option Int64 :=
  if carry ≠ 0 then addInt64 rawS carry else some rawS

theorem carrySeconds_spec (rawS carry : Int64) : match carrySeconds rawS carry with
    | some z => z.toInt = rawS.toInt + carry.toInt
    | none => ¬ (-2 ^ 63 ≤ rawS.toInt + carry.toInt ∧ rawS.toInt + carry.toInt < 2 ^ 63) := by
  rw [carrySeconds]
  split_ifs with h
  · exact addInt64_spec rawS carry
  · obtain rfl := not_not.mp h
    exact (add_zero _).symm

/-! ## The steps -/

/-- The raw nanoseconds. -/
def rawNanos (subtract : Bool) (x y : Int32) : Int32 := if subtract then x - y else x + y

/-- …and what is carried out of them. -/
def carryNanos (rawN : Int32) : Int32 × Int64 :=
  if nanosPerSec ≤ rawN then (rawN - nanosPerSec, 1)
  else if rawN ≤ -nanosPerSec then (rawN + nanosPerSec, -1)
  else (rawN, 0)

/-- The signs brought together. -/
def correlated (rawS : Int64) (rawN : Int32) : CelDurTs :=
  if 0 < rawS && rawN < 0 then ⟨rawS - 1, rawN + nanosPerSec⟩
  else if rawS < 0 && 0 < rawN then ⟨rawS + 1, rawN - nanosPerSec⟩
  else ⟨rawS, rawN⟩

/-- The end of `dur_combine`. -/
theorem some_correlated (rawS : Int64) (rawN : Int32) :
    (if 0 < rawS && rawN < 0 then some ⟨rawS - 1, rawN + nanosPerSec⟩
      else if rawS < 0 && 0 < rawN then some ⟨rawS + 1, rawN - nanosPerSec⟩
      else some ⟨rawS, rawN⟩) = some (correlated rawS rawN) := by
  rw [correlated]
  split_ifs <;> rfl

theorem durCombine_eq (a b : CelDurTs) (subtract : Bool) : durCombine a b subtract =
    (combineSeconds subtract a.seconds b.seconds).bind fun rawS =>
      (carrySeconds rawS (carryNanos (rawNanos subtract a.nanos b.nanos)).2).bind fun rawS =>
        some (correlated rawS (carryNanos (rawNanos subtract a.nanos b.nanos)).1) := by
  have htail : ∀ (rawS : Int64) (carried : Int32 × Int64),
      (if carried.2 ≠ 0 then (addInt64 rawS carried.2).bind fun rawS => some (correlated rawS carried.1)
        else (some rawS).bind fun rawS => some (correlated rawS carried.1))
        = (carrySeconds rawS carried.2).bind fun rawS => some (correlated rawS carried.1) := by
    intro rawS carried
    rw [carrySeconds]
    split_ifs <;> rfl
  cases subtract <;>
    (refine Option.bind_congr fun rawS _ => ?_
     rw [← htail]
     simp only [← some_correlated]
     rfl)

/-! ## No step overflows

The same steps with the arithmetic of C, where what is not representable is undefined. The seconds are
checked by the builtins, the nanoseconds by nothing. -/

/-- The raw nanoseconds, in C. -/
def rawNanosC (subtract : Bool) (x y : Int32) : CEval Int32 :=
  if subtract then CEval.sub32 x y else CEval.add32 x y

/-- The carry, in C. -/
def carryNanosC (rawN : Int32) : CEval (Int32 × Int64) :=
  if nanosPerSec ≤ rawN then (CEval.sub32 rawN nanosPerSec).map fun n => (n, 1)
  else if rawN ≤ -nanosPerSec then (CEval.add32 rawN nanosPerSec).map fun n => (n, -1)
  else .ok (rawN, 0)

/-- The signs, in C. -/
def correlatedC (rawS : Int64) (rawN : Int32) : CEval CelDurTs :=
  if 0 < rawS && rawN < 0 then do
    let s ← CEval.sub rawS 1
    let n ← CEval.add32 rawN nanosPerSec
    return ⟨s, n⟩
  else if rawS < 0 && 0 < rawN then do
    let s ← CEval.add rawS 1
    let n ← CEval.sub32 rawN nanosPerSec
    return ⟨s, n⟩
  else return ⟨rawS, rawN⟩

/-- `dur_combine`, in C. -/
def durCombineC (a b : CelDurTs) (subtract : Bool) : CEval (Option CelDurTs) :=
  match combineSeconds subtract a.seconds b.seconds with
  | none => return none
  | some rawS => do
    let rawN ← rawNanosC subtract a.nanos b.nanos
    let (rawN, carry) ← carryNanosC rawN
    match carrySeconds rawS carry with
    | none => return none
    | some rawS => return some (← correlatedC rawS rawN)

theorem toInt_nanosPerSec : nanosPerSec.toInt = 10 ^ 9 := rfl

theorem toInt_neg_nanosPerSec : (-nanosPerSec).toInt = -10 ^ 9 := rfl

/-- A difference and a sum that fit. -/
theorem toInt_sub32 {a b : Int32} (hl : -2 ^ 31 ≤ a.toInt - b.toInt) (hg : a.toInt - b.toInt < 2 ^ 31) :
    (a - b).toInt = a.toInt - b.toInt := CEval.toInt_of_signed32 (CEval.sub32_eq hl hg)

theorem toInt_add32 {a b : Int32} (hl : -2 ^ 31 ≤ a.toInt + b.toInt) (hg : a.toInt + b.toInt < 2 ^ 31) :
    (a + b).toInt = a.toInt + b.toInt := CEval.toInt_of_signed32 (CEval.add32_eq hl hg)

theorem toInt_sub64 {a b : Int64} (hl : -2 ^ 63 ≤ a.toInt - b.toInt) (hg : a.toInt - b.toInt < 2 ^ 63) :
    (a - b).toInt = a.toInt - b.toInt := CEval.toInt_of_signed (CEval.sub_eq hl hg)

theorem toInt_add64 {a b : Int64} (hl : -2 ^ 63 ≤ a.toInt + b.toInt) (hg : a.toInt + b.toInt < 2 ^ 63) :
    (a + b).toInt = a.toInt + b.toInt := CEval.toInt_of_signed (CEval.add_eq hl hg)

/-- Of nanoseconds of less than a second. -/
theorem rawNanosC_eq (subtract : Bool) {x y : Int32} (hx : -10 ^ 9 < x.toInt ∧ x.toInt < 10 ^ 9)
    (hy : -10 ^ 9 < y.toInt ∧ y.toInt < 10 ^ 9) :
    rawNanosC subtract x y = .ok (rawNanos subtract x y) ∧
      (rawNanos subtract x y).toInt = exactly subtract x.toInt y.toInt := by
  cases subtract
  · exact ⟨CEval.add32_eq (by omega) (by omega), toInt_add32 (by omega) (by omega)⟩
  · exact ⟨CEval.sub32_eq (by omega) (by omega), toInt_sub32 (by omega) (by omega)⟩

/-- **The machine carries.** -/
theorem carryNanosC_eq {n : Int32} (h : -(2 * 10 ^ 9) < n.toInt ∧ n.toInt < 2 * 10 ^ 9) :
    carryNanosC n = .ok (carryNanos n) ∧
      ∀ s : ℤ, (s + (carryNanos n).2.toInt, (carryNanos n).1.toInt) = carried (10 ^ 9) s n.toInt := by
  have hge : nanosPerSec ≤ n ↔ 10 ^ 9 ≤ n.toInt := by
    rw [Int32.le_iff_toInt_le, toInt_nanosPerSec]
  have hle : n ≤ -nanosPerSec ↔ n.toInt ≤ -10 ^ 9 := by
    rw [Int32.le_iff_toInt_le, toInt_neg_nanosPerSec]
  have hunit := toInt_nanosPerSec
  simp only [carryNanosC, carryNanos, carried, hge, hle]
  split_ifs with hpos hneg
  · rw [CEval.sub32_eq (by omega) (by omega)]
    refine ⟨rfl, fun s => Prod.ext rfl ?_⟩
    rw [toInt_sub32 (by omega) (by omega), hunit]
  · rw [CEval.add32_eq (by omega) (by omega)]
    refine ⟨rfl, fun s => Prod.ext rfl ?_⟩
    rw [toInt_add32 (by omega) (by omega), hunit]
  · exact ⟨rfl, fun s => Prod.ext (add_zero s) rfl⟩

/-- **The machine brings the signs together**, and the seconds only toward zero. -/
theorem correlatedC_eq {s : Int64} {n : Int32} (h : -10 ^ 9 < n.toInt ∧ n.toInt < 10 ^ 9) :
    correlatedC s n = .ok (correlated s n) ∧
      ((correlated s n).seconds.toInt, (correlated s n).nanos.toInt)
        = aligned (10 ^ 9) s.toInt n.toInt := by
  have hpos : 0 < s ↔ 0 < s.toInt := Int64.lt_iff_toInt_lt
  have hneg : s < 0 ↔ s.toInt < 0 := Int64.lt_iff_toInt_lt
  have hpos' : 0 < n ↔ 0 < n.toInt := Int32.lt_iff_toInt_lt
  have hneg' : n < 0 ↔ n.toInt < 0 := Int32.lt_iff_toInt_lt
  have hlow := s.le_toInt
  have hhigh := s.toInt_lt
  have hunit := toInt_nanosPerSec
  have hone : (1 : Int64).toInt = 1 := rfl
  simp only [correlatedC, correlated, aligned, Bool.and_eq_true, decide_eq_true_eq, hpos, hneg, hpos',
    hneg']
  split_ifs
  · rw [CEval.sub_eq (by omega) (by omega), CEval.add32_eq (by omega) (by omega)]
    refine ⟨rfl, Prod.ext (toInt_sub64 (by omega) (by omega)) ?_⟩
    rw [toInt_add32 (by omega) (by omega), hunit]
  · rw [CEval.add_eq (by omega) (by omega), CEval.sub32_eq (by omega) (by omega)]
    refine ⟨rfl, Prod.ext (toInt_add64 (by omega) (by omega)) ?_⟩
    rw [toInt_sub32 (by omega) (by omega), hunit]
  · exact ⟨rfl, rfl⟩

/-! ## Exact results -/

section Combine

variable {a b : CelDurTs} (subtract : Bool) (ha : a.Canonical) (hb : b.Canonical)

include ha hb

/-- The nanoseconds of two canonical pairs, together. -/
theorem rawNanos_bounds : -(2 * 10 ^ 9) < (rawNanos subtract a.nanos b.nanos).toInt ∧
    (rawNanos subtract a.nanos b.nanos).toInt < 2 * 10 ^ 9 := by
  obtain ⟨hahi, halo, -, -⟩ := ha
  obtain ⟨hbhi, hblo, -, -⟩ := hb
  rw [(rawNanosC_eq subtract ⟨halo, hahi⟩ ⟨hblo, hbhi⟩).2]
  cases subtract
  · change _ < a.nanos.toInt + b.nanos.toInt ∧ a.nanos.toInt + b.nanos.toInt < _
    omega
  · change _ < a.nanos.toInt - b.nanos.toInt ∧ a.nanos.toInt - b.nanos.toInt < _
    omega

/-- …and after the carry. -/
theorem carryNanos_bounds :
    -10 ^ 9 < (carryNanos (rawNanos subtract a.nanos b.nanos)).1.toInt ∧
      (carryNanos (rawNanos subtract a.nanos b.nanos)).1.toInt < 10 ^ 9 := by
  have hraw := rawNanos_bounds subtract ha hb
  have hcarried := congrArg Prod.snd ((carryNanosC_eq hraw).2 0)
  dsimp only at hcarried
  rw [hcarried]
  exact carried_snd_lt hraw.1 hraw.2

/-- **No step of `dur_combine` overflows.** -/
theorem durCombineC_eq : durCombineC a b subtract = .ok (durCombine a b subtract) := by
  have hraw := (rawNanosC_eq subtract ⟨ha.neg_lt_nanos, ha.nanos_lt⟩ ⟨hb.neg_lt_nanos, hb.nanos_lt⟩).1
  have hcarry := (carryNanosC_eq (rawNanos_bounds subtract ha hb)).1
  rw [durCombineC, durCombine_eq]
  cases combineSeconds subtract a.seconds b.seconds with
  | none => rfl
  | some rawS =>
    simp only [hraw, hcarry, bind, Except.bind, Option.bind_some]
    cases carrySeconds rawS (carryNanos (rawNanos subtract a.nanos b.nanos)).2 with
    | none => rfl
    | some rawS =>
      have halign := (correlatedC_eq (s := rawS) (carryNanos_bounds subtract ha hb)).1
      simp only [halign]
      rfl

/-- **`dur_combine` is exact**: it comes to the canonical pair of the exact result, and what it refuses
is beyond every second of an int64. -/
theorem durCombine_spec : match durCombine a b subtract with
    | some r => r.Canonical ∧ r.totalNanos = exactly subtract a.totalNanos b.totalNanos
    | none => exactly subtract a.totalNanos b.totalNanos < -((2 ^ 63 - 1) * 10 ^ 9) ∨
        (2 ^ 63 - 1) * 10 ^ 9 < exactly subtract a.totalNanos b.totalNanos := by
  have hraw := (rawNanosC_eq subtract ⟨ha.neg_lt_nanos, ha.nanos_lt⟩ ⟨hb.neg_lt_nanos, hb.nanos_lt⟩).2
  have hcarry := (carryNanosC_eq (rawNanos_bounds subtract ha hb)).2
  have hbounds := carryNanos_bounds subtract ha hb
  have hseconds := combineSeconds_spec subtract a.seconds b.seconds
  have hexact : exactly subtract a.totalNanos b.totalNanos = units (10 ^ 9)
      (exactly subtract a.seconds.toInt b.seconds.toInt) (exactly subtract a.nanos.toInt b.nanos.toInt) :=
    (units_exactly _ _ _ _ _ _).symm
  rw [hexact, durCombine_eq]
  generalize combineSeconds subtract a.seconds b.seconds = checked at hseconds
  generalize rawNanos subtract a.nanos b.nanos = n at hraw hcarry hbounds
  obtain ⟨hahi, halo, hapos, haneg⟩ := ha
  obtain ⟨hbhi, hblo, hbpos, hbneg⟩ := hb
  cases checked with
  | none =>
    change ¬ _ at hseconds
    change _ ∨ _
    rw [units]
    cases subtract <;> simp only [exactly, if_true, Bool.false_eq_true, if_false] at hseconds ⊢ <;> omega
  | some rawS =>
    change rawS.toInt = _ at hseconds
    rw [← hseconds, ← hraw]
    have hchecked := carrySeconds_spec rawS (carryNanos n).2
    rw [Option.bind_some]
    generalize carrySeconds rawS (carryNanos n).2 = checked at hchecked
    have hcarried := hcarry rawS.toInt
    cases checked with
    | none =>
      change ¬ _ at hchecked
      change _ ∨ _
      rw [units]
      have hlow := rawS.le_toInt
      have hhigh := rawS.toInt_lt
      have hwhole := congrArg Prod.fst hcarried
      rw [carried] at hwhole
      split_ifs at hwhole <;> dsimp only at hwhole <;> omega
    | some s =>
      change s.toInt = _ at hchecked
      have haligned := (correlatedC_eq (s := s) hbounds).2
      rw [hchecked] at haligned
      change (correlated s (carryNanos n).1).Canonical ∧ (correlated s (carryNanos n).1).totalNanos = _
      refine ⟨CelDurTs.canonical_of_aligned hbounds haligned, ?_⟩
      have htotal := units_aligned (10 ^ 9) (rawS.toInt + (carryNanos n).2.toInt)
        (carryNanos n).1.toInt
      rw [← haligned] at htotal
      rw [← units_carried, ← hcarried]
      exact htotal

end Combine

/-! ## The order -/

/-- **The order of canonical pairs**, the seconds first, is the order of the nanoseconds. -/
theorem durCompareLex_eq {a b : CelDurTs} (ha : a.Canonical) (hb : b.Canonical) :
    durCompareLex a b = compare a.totalNanos b.totalNanos := by
  have hlt := SignedPair.value_lt_iff (p := ha.pair) (q := hb.pair)
  have hgt := SignedPair.value_lt_iff (p := hb.pair) (q := ha.pair)
  change a.totalNanos < b.totalNanos ↔ a.seconds.toInt < b.seconds.toInt ∨
    a.seconds.toInt = b.seconds.toInt ∧ a.nanos.toInt < b.nanos.toInt at hlt
  change b.totalNanos < a.totalNanos ↔ b.seconds.toInt < a.seconds.toInt ∨
    b.seconds.toInt = a.seconds.toInt ∧ b.nanos.toInt < a.nanos.toInt at hgt
  simp only [durCompareLex, ne_eq, ← Int64.toInt_inj, ← Int32.toInt_inj, Int64.lt_iff_toInt_lt,
    Int32.lt_iff_toInt_lt]
  split_ifs
  all_goals
    first
      | exact (Int.compare_eq_lt.mpr (by omega)).symm
      | exact (Int.compare_eq_gt.mpr (by omega)).symm
      | exact (Int.compare_eq_eq.mpr (by omega)).symm

/-! ## The kernels -/

/-- The kernels that add and subtract. -/
inductive TimeOp
  | durAdd
  | durSub
  | tsDurAdd
  | durTsAdd
  | tsDurSub
  | tsTsSub

namespace TimeOp

/-- Its kernel. -/
def kernelAt : TimeOp → Slot → Slot → Slot → SlotKernel Unit
  | durAdd => celDurAddAt
  | durSub => celDurSubAt
  | tsDurAdd => celTsDurAddAt
  | durTsAdd => celDurTsAddAt
  | tsDurSub => celTsDurSubAt
  | tsTsSub => celTsTsSubAt

/-- What the kernel hands to `run_arith`. -/
def spec : TimeOp → ArithSpec
  | durAdd => ⟨.duration, .duration, false, .duration⟩
  | durSub => ⟨.duration, .duration, true, .duration⟩
  | tsDurAdd => ⟨.timestamp, .duration, false, .timestamp⟩
  | durTsAdd => ⟨.duration, .timestamp, false, .timestamp⟩
  | tsDurSub => ⟨.timestamp, .duration, true, .timestamp⟩
  | tsTsSub => ⟨.timestamp, .timestamp, true, .duration⟩

theorem kernelAt_eq (op : TimeOp) : op.kernelAt = runArithAt op.spec := by
  cases op <;> rfl

end TimeOp

/-- A time of a kind. -/
def timeValue (kind : CelKind) (d : CelDurTs) : CelValue :=
  if kind = .timestamp then .timestamp d else .duration d

/-- **The range of a kind**, in nanoseconds: of timestamps the years 1 to 9999, of the durations that
arithmetic comes to what an int64 holds. -/
def InTimeRange (kind : CelKind) (v : ℤ) : Prop :=
  if kind = .timestamp then -62135596800 * 10 ^ 9 ≤ v ∧ v < 253402300800 * 10 ^ 9
  else -(2 ^ 63 - 1) ≤ v ∧ v ≤ 2 ^ 63 - 1

/-- **A value is the exact time, or the overflow error.** -/
def IsTime (kind : CelKind) (v : ℤ) (r : CelValue) : Prop :=
  (InTimeRange kind v → ∃ d : CelDurTs, d.Canonical ∧ d.totalNanos = v ∧ r = timeValue kind d) ∧
    (¬ InTimeRange kind v → r = .error .overflow)

/-- The check of timestamps is on the nanoseconds. -/
theorem timestampInRange_iff {d : CelDurTs} (hd : d.Canonical) :
    timestampInRange d = true ↔ InTimeRange .timestamp d.totalNanos := by
  obtain ⟨hhi, hlo, hpos, hneg⟩ := hd
  have hmax : 253402300799 < d.seconds ↔ 253402300799 < d.seconds.toInt := Int64.lt_iff_toInt_lt
  have hmin : d.seconds < -62135596800 ↔ d.seconds.toInt < -62135596800 := Int64.lt_iff_toInt_lt
  have hmin' : d.seconds = -62135596800 ↔ d.seconds.toInt = -62135596800 := Int64.toInt_inj.symm
  have hnanos : d.nanos < 0 ↔ d.nanos.toInt < 0 := Int32.lt_iff_toInt_lt
  rw [InTimeRange, if_pos rfl, CelDurTs.totalNanos, units]
  simp only [timestampInRange, Bool.or_eq_true, decide_eq_true_eq, hmax, hmin, hnanos,
    Bool.ite_eq_true_distrib, Bool.not_eq_true', Bool.and_eq_false_iff, beq_eq_false_iff_ne, ne_eq,
    hmin', decide_eq_false_iff_not, Bool.false_eq_true]
  split_ifs
  · exact iff_of_false id (by omega)
  · omega

/-- …and so is that of durations. -/
theorem arithDurationInRange_iff {d : CelDurTs} (hd : d.Canonical) :
    arithDurationInRange d = true ↔ InTimeRange .duration d.totalNanos := by
  obtain ⟨hhi, hlo, hpos, hneg⟩ := hd
  have hmax : 9223372036 < d.seconds ↔ 9223372036 < d.seconds.toInt := Int64.lt_iff_toInt_lt
  have hmax' : d.seconds = 9223372036 ↔ d.seconds.toInt = 9223372036 := Int64.toInt_inj.symm
  have hmin : d.seconds < -9223372036 ↔ d.seconds.toInt < -9223372036 := Int64.lt_iff_toInt_lt
  have hmin' : d.seconds = -9223372036 ↔ d.seconds.toInt = -9223372036 := Int64.toInt_inj.symm
  have hnanos : 854775807 < d.nanos ↔ 854775807 < d.nanos.toInt := Int32.lt_iff_toInt_lt
  have hnanos' : d.nanos < -854775807 ↔ d.nanos.toInt < -854775807 := Int32.lt_iff_toInt_lt
  rw [InTimeRange, if_neg (by decide), CelDurTs.totalNanos, units]
  simp only [arithDurationInRange, Bool.or_eq_true, decide_eq_true_eq, hmax, hmin, hnanos, hnanos',
    Bool.and_eq_true, Bool.ite_eq_true_distrib, Bool.not_eq_true', Bool.and_eq_false_iff, beq_iff_eq,
    beq_eq_false_iff_ne, ne_eq, hmax', hmin', decide_eq_false_iff_not, Bool.false_eq_true]
  split_ifs
  · exact iff_of_false id (by omega)
  · exact iff_of_false id (by omega)
  · omega

/-- **A kernel is exact on canonical payloads.** -/
theorem isTime_result (op : TimeOp) {a b : CelDurTs} (ha : a.Canonical) (hb : b.Canonical) :
    IsTime op.spec.resultKind (exactly op.spec.subtract a.totalNanos b.totalNanos)
      (op.spec.result a b) := by
  have hspec := durCombine_spec op.spec.subtract ha hb
  have hkind : op.spec.resultKind = .timestamp ∨ op.spec.resultKind = .duration := by
    cases op <;> simp [TimeOp.spec]
  rw [ArithSpec.result]
  generalize exactly op.spec.subtract a.totalNanos b.totalNanos = v at hspec ⊢
  cases h : durCombine a b op.spec.subtract with
  | none =>
    rw [h] at hspec
    change _ ∨ _ at hspec
    refine ⟨fun hv => absurd hv ?_, fun _ => rfl⟩
    rw [InTimeRange]
    split_ifs <;> omega
  | some d =>
    rw [h] at hspec
    obtain ⟨hd, rfl⟩ : d.Canonical ∧ d.totalNanos = v := hspec
    have htimestamp := timestampInRange_iff hd
    have hduration := arithDurationInRange_iff hd
    obtain hkind | hkind := hkind
    · simp only [hkind, IsTime, ← htimestamp]
      cases timestampInRange d with
      | true => exact ⟨fun _ => ⟨d, hd, rfl, rfl⟩, fun h => absurd rfl h⟩
      | false => exact ⟨nofun, fun _ => rfl⟩
    · simp only [hkind, IsTime, ← hduration]
      cases arithDurationInRange d with
      | true => exact ⟨fun _ => ⟨d, hd, rfl, rfl⟩, fun h => absurd rfl h⟩
      | false => exact ⟨nofun, fun _ => rfl⟩

/-- A timestamp that a kernel comes to. -/
theorem timestamp_of_result (op : TimeOp) {a b t : CelDurTs} (ha : a.Canonical) (hb : b.Canonical)
    (h : op.spec.result a b = .timestamp t) :
    t.Canonical ∧ t.totalNanos = exactly op.spec.subtract a.totalNanos b.totalNanos := by
  obtain ⟨hin, hout⟩ := isTime_result op ha hb
  rw [h] at hin hout
  by_cases hv : InTimeRange op.spec.resultKind (exactly op.spec.subtract a.totalNanos b.totalNanos)
  · obtain ⟨d, hd, htotal, heq⟩ := hin hv
    rw [timeValue] at heq
    split_ifs at heq
    obtain rfl := CelValue.timestamp.inj heq
    exact ⟨hd, htotal⟩
  · exact nomatch hout hv

/-- `run_arith` as a function of the cells. -/
theorem computes_runArithAt (spec : ArithSpec) (a b : Slot) :
    Computes (runArithAt spec · a b) fun cells => unlessAbsorbed (cells a) (cells b) <|
      if (cells a).kind ≠ spec.wantA ∨ (cells b).kind ≠ spec.wantB then return .error .typeMismatch
      else do
        let x ← ((cells a).durTs?).elim (Prog.stop .wildRead) pure
        let y ← ((cells b).durTs?).elim (Prog.stop .wildRead) pure
        return spec.result x y := by
  refine computes_unlessAbsorbed a b <| .congr (.unless (settles_requireKinds2At a b _ _) <|
    .read (reads_payload _ a) fun _ => .read (reads_payload _ b) fun _ => computes_store _)
    fun cells => ?_
  split_ifs <;> rfl

/-- What a kernel leaves in its destination. -/
theorem run_kernelAt (op : TimeOp) {a b : Slot} {cells : Slot → CelValue} {x y : CelDurTs}
    (ha : cells a = timeValue op.spec.wantA x) (hb : cells b = timeValue op.spec.wantB y) (out : Slot) :
    (op.kernelAt out a b).run cells = pure ((), Function.update cells out (op.spec.result x y)) := by
  rw [op.kernelAt_eq, computes_runArithAt op.spec a b out cells]
  simp only [ha, hb]
  cases op <;> rfl

/-- **Duration and timestamp arithmetic is exact.** On canonical operands every kernel leaves the
canonical pair of the exact sum or difference when that is in the range of its result, and the overflow
error when it is not; `dur_combine` runs without an overflow of C to the exact pair, or refuses what is
beyond every range; what is added and taken away again leaves the first operand; and the seconds-first
comparison is that of the nanoseconds. -/
theorem timeArithmetic_exact {x y : CelDurTs} (hx : x.Canonical) (hy : y.Canonical) :
    (∀ (op : TimeOp) (out a b : Slot) (cells : Slot → CelValue),
      cells a = timeValue op.spec.wantA x → cells b = timeValue op.spec.wantB y →
      ∃ r, (op.kernelAt out a b).run cells = pure ((), Function.update cells out r) ∧
        IsTime op.spec.resultKind (exactly op.spec.subtract x.totalNanos y.totalNanos) r) ∧
    (∀ subtract, durCombineC x y subtract = .ok (durCombine x y subtract) ∧
      (∀ r, durCombine x y subtract = some r →
        r.Canonical ∧ r.totalNanos = exactly subtract x.totalNanos y.totalNanos) ∧
      (durCombine x y subtract = none →
        ¬ InTimeRange .timestamp (exactly subtract x.totalNanos y.totalNanos) ∧
          ¬ InTimeRange .duration (exactly subtract x.totalNanos y.totalNanos))) ∧
    (∀ t t' : CelDurTs, TimeOp.tsDurAdd.spec.result x y = .timestamp t →
      TimeOp.tsDurSub.spec.result t y = .timestamp t' → t' = x) ∧
    durCompareLex x y = compare x.totalNanos y.totalNanos := by
  refine ⟨fun op out a b cells ha hb => ⟨_, run_kernelAt op ha hb out, isTime_result op hx hy⟩,
    fun subtract => ⟨durCombineC_eq subtract hx hy, fun r h => ?_, fun h => ?_⟩,
    fun t t' ht ht' => ?_, durCompareLex_eq hx hy⟩
  · have hspec := durCombine_spec subtract hx hy
    rwa [h] at hspec
  · have hspec := durCombine_spec subtract hx hy
    rw [h] at hspec
    change _ ∨ _ at hspec
    rw [InTimeRange, InTimeRange, if_pos rfl, if_neg (by decide)]
    omega
  · obtain ⟨hcan, htotal⟩ := timestamp_of_result .tsDurAdd hx hy ht
    obtain ⟨hcan', htotal'⟩ := timestamp_of_result .tsDurSub hcan hy ht'
    refine hcan'.eq_of_totalNanos hx ?_
    rw [htotal', htotal]
    change x.totalNanos + y.totalNanos - y.totalNanos = x.totalNanos
    omega

/-- A second and a half before, and seven tenths after a second: a borrow. -/
theorem timeArithmetic_exact_borrow :
    ∃ r, (celDurAddAt 2 0 1).run (fun s =>
        .duration (if s = 0 then ⟨-1, -500000000⟩ else ⟨1, 700000000⟩))
        = pure ((), Function.update (fun s =>
          CelValue.duration (if s = 0 then ⟨-1, -500000000⟩ else ⟨1, 700000000⟩)) 2 r) ∧
      IsTime .duration (exactly false (CelDurTs.totalNanos ⟨-1, -500000000⟩)
        (CelDurTs.totalNanos ⟨1, 700000000⟩)) r :=
  (timeArithmetic_exact (x := ⟨-1, -500000000⟩) (y := ⟨1, 700000000⟩)
    ⟨by decide, by decide, by decide, by decide⟩ ⟨by decide, by decide, by decide, by decide⟩).1
    .durAdd 2 0 1 _ rfl rfl

end CelWasm
