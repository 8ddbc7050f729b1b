import CelWasm.Library.Binary64Rounding
import CelWasm.Library.RoundedOrder
import CelWasm.Runtime.SlotArithmetic
import CelWasm.Runtime.StringKernels

/-!
# Runtime/NumericOrder — int, uint and double on one line

Two integers are compared as they are, and where there is a double, an integer is rounded to one. The
ranges that are looked at first only spare the rounding: an integer is rounded to nothing past the
double of the greatest integer.

`math.@min` and `math.@max` keep the first element that none after it beats.
-/

namespace CelWasm

open Binary64

/-! ## The minimum of a list -/

/-- The loop of `math_minmax_list`, with the best so far. -/
def mathMinmaxFrom (wantGreater : Bool) : CelValue → List CelValue → CelValue
  | best, [] => best
  | best, e :: rest =>
    if e.isPoison then e
    else if !isNumericKind e then .error .typeMismatch
    else mathMinmaxFrom wantGreater (if mathMinmaxReplaces best e wantGreater then e else best) rest

/-- `math_minmax_list` on the elements: the first is looked at as the others are, and replaces
nothing. -/
def mathMinmaxElements (wantGreater : Bool) : List CelValue → CelValue
  | [] => .error .invalidArgument
  | best :: rest =>
    if best.isPoison then best
    else if !isNumericKind best then .error .typeMismatch
    else mathMinmaxFrom wantGreater best rest

/-- `math_minmax_list`. -/
def mathMinmaxList (wantGreater : Bool) (host : CelHost) (list : CelValue) : Kernel CelValue :=
  unlessAbsorbedUnary list <|
    match list with
    | .listArena .. | .listHost _ => mathMinmaxElements wantGreater <$> celListArenaView host list
    | _ => return .error .typeMismatch

/-- `cel_math_min_list_at_v`. -/
def celMathMinList : CelHost → CelValue → Kernel CelValue := mathMinmaxList false

/-- `cel_math_max_list_at_v`. -/
def celMathMaxList : CelHost → CelValue → Kernel CelValue := mathMinmaxList true

/-! ## Numbers -/

/-- A number: a value of a numeric kind, and no NaN. -/
def isNumber : CelValue → Bool
  | .int _ | .uint _ => true
  | .double d => !d.isNaN
  | _ => false

/-- The integer a value is. -/
def integer? : CelValue → Option ℤ
  | .int a => some a.toInt
  | .uint a => some a.toNat
  | _ => none

/-- **The exact value**, in units. -/
def exactValue : CelValue → ℤ
  | .int a => a.toInt * unit
  | .uint a => a.toNat * unit
  | .double d => d.scaled
  | _ => 0

/-- **The rounded value**, in units: of an integer, that of its double. -/
def roundedValue : CelValue → ℤ
  | .int a => (ofInt a.toInt).scaled
  | .uint a => (ofInt a.toNat).scaled
  | .double d => d.scaled
  | _ => 0

/-- What an integer is: of 64 bits, and its two values. -/
theorem values_of_integer {v : CelValue} {i : ℤ} (h : integer? v = some i) : i.natAbs < 2 ^ 64 ∧
    isNumber v = true ∧ exactValue v = i * unit ∧ roundedValue v = (ofInt i).scaled := by
  cases v with
  | int a =>
    obtain rfl : a.toInt = i := Option.some.inj h
    have hlt := a.toInt_lt
    have hge := a.le_toInt
    exact ⟨by omega, rfl, rfl, rfl⟩
  | uint a =>
    obtain rfl : (a.toNat : ℤ) = i := Option.some.inj h
    have hlt := a.toNat_lt
    exact ⟨by omega, rfl, rfl, rfl⟩
  | _ => exact nomatch h

theorem scaled_ofInt_mono {i j : ℤ} (hi : i.natAbs < 2 ^ 64) (hj : j.natAbs < 2 ^ 64) (h : i ≤ j) :
    (ofInt i).scaled ≤ (ofInt j).scaled := by
  rw [scaled_ofInt hi, scaled_ofInt hj]
  exact Int.mul_le_mul_of_nonneg_right (roundInt_mono h) unit_pos.le

/-- **The order of numbers**: integers are exact, and everything rounds. -/
def numericOrder : RoundedOrder CelValue ℤ ℤ where
  value? := integer?
  rounded := roundedValue
  rounded_le {x y a b} hx hy h := by
    obtain ⟨ha, -, -, hroundx⟩ := values_of_integer hx
    obtain ⟨hb, -, -, hroundy⟩ := values_of_integer hy
    rw [hroundx, hroundy]
    exact scaled_ofInt_mono ha hb h

/-! ## The kernel is the order -/

/-- The verdict of an ordering. -/
def CmpResult.ofOrdering : Ordering → CmpResult
  | .lt => .less
  | .eq => .equal
  | .gt => .greater

@[simp] theorem cmpFlip_ofOrdering (o : Ordering) :
    cmpFlip (.ofOrdering o) = .ofOrdering o.swap := by
  cases o <;> rfl

/-- The two questions of a C comparison. -/
theorem ofOrdering_cmp {p q : Prop} [Decidable p] [Decidable q] {a b : ℤ} (hp : p ↔ a < b)
    (hq : q ↔ b < a) :
    (if p then CmpResult.less else if q then .greater else .equal) = .ofOrdering (cmp a b) := by
  rw [cmp, cmpUsing, if_congr hp rfl (if_congr hq rfl rfl)]
  split_ifs <;> rfl

theorem ofOrdering_cmp_eq_equal_iff {a b : ℤ} :
    CmpResult.ofOrdering (cmp a b) = .equal ↔ a = b := by
  rw [← cmp_eq_eq_iff a b]
  cases cmp a b <;> simp [CmpResult.ofOrdering]

theorem cmpI64_eq (a b : Int64) : cmpI64 a b = .ofOrdering (cmp a.toInt b.toInt) :=
  ofOrdering_cmp Int64.lt_iff_toInt_lt Int64.lt_iff_toInt_lt

theorem cmpU64_eq (a b : UInt64) : cmpU64 a b = .ofOrdering (cmp (a.toNat : ℤ) b.toNat) :=
  ofOrdering_cmp (UInt64.lt_iff_toNat_lt.trans Nat.cast_lt.symm)
    (UInt64.lt_iff_toNat_lt.trans Nat.cast_lt.symm)

theorem cmpDouble_eq {a b : Binary64} (ha : a.isNaN = false) (hb : b.isNaN = false) :
    cmpDouble a b = .ofOrdering (cmp a.scaled b.scaled) := by
  rw [cmpDouble, ha, hb, Bool.or_self, if_neg Bool.false_ne_true]
  exact ofOrdering_cmp (by rw [lt_iff]; simp [ha, hb]) (by rw [lt_iff]; simp [ha, hb])

/-- A negative int is below every uint. -/
theorem cmpIntVsUint_eq (a : Int64) (b : UInt64) :
    cmpIntVsUint a b = .ofOrdering (cmp a.toInt b.toNat) := by
  rw [cmpIntVsUint]
  by_cases hneg : a < 0
  · rw [if_pos hneg]
    have hlt : a.toInt < 0 := Int64.lt_iff_toInt_lt.mp hneg
    have hcmp : cmp a.toInt b.toNat = .lt := (cmp_eq_lt_iff _ _).mpr (by omega)
    rw [hcmp]
    rfl
  · rw [if_neg hneg]
    have hnonneg : 0 ≤ a := Int64.not_lt.mp hneg
    have hvalue : (a.toUInt64.toNat : ℤ) = a.toInt := by
      rw [Int64.toNat_toUInt64_of_le hnonneg]
      exact Int.toNat_of_nonneg (Int64.le_iff_toInt_le.mp hnonneg)
    rw [cmpU64_eq, hvalue]

/-- **Past the doubles of the least and the greatest integer** nothing else can come of rounding. -/
theorem cmpVsDouble_eq {lo hi i : ℤ} {d : Binary64} (hlo : lo.natAbs < 2 ^ 64)
    (hhi : hi.natAbs < 2 ^ 64) (hi' : i.natAbs < 2 ^ 64) (hle : lo ≤ i) (hge : i ≤ hi)
    (hd : d.isNaN = false) :
    (if d.isNaN then CmpResult.nanInequal
      else if (ofInt hi).lt d then .less
      else if d.lt (ofInt lo) then .greater
      else cmpDouble (ofInt i) d) = .ofOrdering (cmp (ofInt i).scaled d.scaled) := by
  have habove := scaled_ofInt_mono hi' hhi hge
  have hbelow := scaled_ofInt_mono hlo hi' hle
  rw [hd, if_neg Bool.false_ne_true]
  by_cases hgreat : (ofInt hi).lt d = true
  · obtain ⟨-, -, hlt⟩ := lt_iff.mp hgreat
    rw [if_pos hgreat, (cmp_eq_lt_iff _ _).mpr (habove.trans_lt hlt)]
    rfl
  rw [if_neg hgreat]
  by_cases hleast : d.lt (ofInt lo) = true
  · obtain ⟨-, -, hlt⟩ := lt_iff.mp hleast
    rw [if_pos hleast, (cmp_eq_gt_iff _ _).mpr (hlt.trans_le hbelow)]
    rfl
  rw [if_neg hleast]
  exact cmpDouble_eq (isNaN_ofInt hi') hd

/-- A comparison of integers is exact. -/
theorem compare_of_integers {x y : CelValue} {a b : ℤ} (hx : integer? x = some a)
    (hy : integer? y = some b) : numericOrder.compare x y = cmp a b :=
  RoundedOrder.compare_exact hx hy

/-- A comparison of an int with a double, of a uint, and of two doubles, on rounded values. -/
theorem compare_double {x : CelValue} (d : Binary64) :
    numericOrder.compare x (.double d) = cmp (roundedValue x) d.scaled :=
  RoundedOrder.compare_rounded (.inr rfl)

/-- **On numbers the kernel is the order.** -/
theorem numericCompareKernel_eq {x y : CelValue} (hx : isNumber x = true) (hy : isNumber y = true) :
    numericCompareKernel x y = .ofOrdering (numericOrder.compare x y) := by
  have hint : ∀ (a : Int64) (d : Binary64), isNumber (.double d) = true →
      cmpIntVsDouble a d = .ofOrdering (numericOrder.compare (.int a) (.double d)) := by
    intro a d hd
    have hle := a.le_toInt
    have hlt := a.toInt_lt
    rw [compare_double]
    exact @cmpVsDouble_eq int64Min int64Max _ _ (by decide) (by decide) (by omega)
      (by rw [int64Min]; omega) (by rw [int64Max]; omega) (by simpa [isNumber] using hd)
  have huint : ∀ (a : UInt64) (d : Binary64), isNumber (.double d) = true →
      cmpUintVsDouble a d = .ofOrdering (numericOrder.compare (.uint a) (.double d)) := by
    intro a d hd
    have hlt := a.toNat_lt
    rw [compare_double]
    exact @cmpVsDouble_eq 0 uint64Max _ _ (by decide) (by decide) (by omega)
      (by omega) (by rw [uint64Max]; omega) (by simpa [isNumber] using hd)
  have hflip : ∀ {v w}, numericCompareKernel v w = .ofOrdering (numericOrder.compare v w) →
      cmpFlip (numericCompareKernel v w) = .ofOrdering (numericOrder.compare w v) := by
    intro v w h
    rw [h, cmpFlip_ofOrdering, RoundedOrder.compare_swap]
  cases x with
  | int a =>
    cases y with
    | int b => exact cmpI64_eq a b
    | uint b => exact cmpIntVsUint_eq a b
    | double d => exact hint a d hy
    | _ => cases hy
  | uint a =>
    cases y with
    | int b => exact hflip (v := .int b) (w := .uint a) (cmpIntVsUint_eq b a)
    | uint b => exact cmpU64_eq a b
    | double d => exact huint a d hy
    | _ => cases hy
  | double d =>
    cases y with
    | int b => exact hflip (v := .int b) (w := .double d) (hint b d hx)
    | uint b => exact hflip (v := .uint b) (w := .double d) (huint b d hx)
    | double e =>
      rw [compare_double]
      exact cmpDouble_eq (by simpa [isNumber] using hx) (by simpa [isNumber] using hy)
    | _ => cases hy
  | _ => cases hx

/-- Off the numbers there is no comparison. -/
theorem numericCompareKernel_of_not_isNumber {x y : CelValue}
    (h : isNumber x = false ∨ isNumber y = false) : numericCompareKernel x y = .nanInequal := by
  have hint : ∀ (a : Int64) (d : Binary64), d.isNaN = true → cmpIntVsDouble a d = .nanInequal :=
    fun a d hd => if_pos hd
  have huint : ∀ (a : UInt64) (d : Binary64), d.isNaN = true → cmpUintVsDouble a d = .nanInequal :=
    fun a d hd => if_pos hd
  cases x with
  | int a =>
    cases y with
    | int _ | uint _ => simp [isNumber] at h
    | double d => exact hint a d (by simpa [isNumber] using h)
    | _ => rfl
  | uint a =>
    cases y with
    | int _ | uint _ => simp [isNumber] at h
    | double d => exact huint a d (by simpa [isNumber] using h)
    | _ => rfl
  | double d =>
    cases y with
    | int b =>
      rw [numericCompareKernel, hint b d (by simpa [isNumber] using h)]
      rfl
    | uint b =>
      rw [numericCompareKernel, huint b d (by simpa [isNumber] using h)]
      rfl
    | double e =>
      have hnan : (d.isNaN || e.isNaN) = true := by simpa [isNumber] using h
      exact if_pos hnan
    | _ => rfl
  | _ => rfl

/-! ## The order laws -/

section Laws

variable {x y z : CelValue}

theorem numericCompareKernel_ne_nanInequal (hx : isNumber x = true) (hy : isNumber y = true) :
    numericCompareKernel x y ≠ .nanInequal := by
  rw [numericCompareKernel_eq hx hy]
  cases numericOrder.compare x y <;> exact nofun

/-- What compares is a number. -/
theorem isNumber_of_compare (h : numericCompareKernel x y ≠ .nanInequal) :
    isNumber x = true ∧ isNumber y = true := by
  by_contra hnot
  refine h (numericCompareKernel_of_not_isNumber ?_)
  rwa [not_and_or, Bool.not_eq_true, Bool.not_eq_true] at hnot

/-- **Swapping the operands flips the verdict.** -/
theorem numericCompareKernel_swap (x y : CelValue) :
    numericCompareKernel y x = cmpFlip (numericCompareKernel x y) := by
  by_cases h : isNumber x = true ∧ isNumber y = true
  · rw [numericCompareKernel_eq h.1 h.2, numericCompareKernel_eq h.2 h.1, cmpFlip_ofOrdering,
      RoundedOrder.compare_swap]
  · rw [not_and_or, Bool.not_eq_true, Bool.not_eq_true] at h
    rw [numericCompareKernel_of_not_isNumber h, numericCompareKernel_of_not_isNumber h.symm]
    rfl

theorem numericCompareKernel_eq_less_iff (hx : isNumber x = true) (hy : isNumber y = true) :
    numericCompareKernel x y = .less ↔ numericOrder.compare x y = .lt := by
  rw [numericCompareKernel_eq hx hy]
  cases numericOrder.compare x y <;> simp [CmpResult.ofOrdering]

/-- **Strictly less is transitive.** -/
theorem numericCompareKernel_trans (hxy : numericCompareKernel x y = .less)
    (hyz : numericCompareKernel y z = .less) : numericCompareKernel x z = .less := by
  obtain ⟨hx, hy⟩ := isNumber_of_compare (x := x) (y := y) (by rw [hxy]; exact nofun)
  obtain ⟨-, hz⟩ := isNumber_of_compare (x := y) (y := z) (by rw [hyz]; exact nofun)
  rw [numericCompareKernel_eq_less_iff hx hy] at hxy
  rw [numericCompareKernel_eq_less_iff hy hz] at hyz
  exact (numericCompareKernel_eq_less_iff hx hz).mpr (RoundedOrder.compare_trans hxy hyz)

/-- What is a number and no integer is a double. -/
theorem exists_double {v : CelValue} (h : isNumber v = true) (hnone : integer? v = none) :
    ∃ d, v = .double d := by
  cases v with
  | double d => exact ⟨d, rfl⟩
  | int _ | uint _ => exact nomatch hnone
  | _ => exact nomatch h

/-- **What is exactly less or equal is not rounded to more.** -/
theorem roundedValue_le (hx : isNumber x = true) (hy : isNumber y = true)
    (h : exactValue x ≤ exactValue y) : roundedValue x ≤ roundedValue y := by
  cases ha : integer? x with
  | none =>
    obtain ⟨d, rfl⟩ := exists_double hx ha
    cases hb : integer? y with
    | none =>
      obtain ⟨e, rfl⟩ := exists_double hy hb
      exact h
    | some b =>
      obtain ⟨hlt, -, hexact, hround⟩ := values_of_integer hb
      rw [hexact] at h
      rw [hround, scaled_ofInt hlt]
      exact le_roundInt_mul_unit h
  | some a =>
    obtain ⟨hlt, -, hexact, hround⟩ := values_of_integer ha
    rw [hexact] at h
    rw [hround, scaled_ofInt hlt]
    cases hb : integer? y with
    | none =>
      obtain ⟨e, rfl⟩ := exists_double hy hb
      exact roundInt_mul_unit_le h
    | some b =>
      obtain ⟨hlt', -, hexact', hround'⟩ := values_of_integer hb
      rw [hexact'] at h
      rw [hround', ← scaled_ofInt hlt]
      exact scaled_ofInt_mono hlt hlt' (le_of_mul_le_mul_right h unit_pos)

/-- **The exact order is never reversed.** -/
theorem compare_ne_gt (hx : isNumber x = true) (hy : isNumber y = true)
    (h : exactValue x ≤ exactValue y) : numericOrder.compare x y ≠ .gt := by
  obtain ⟨a, b, ha, hb⟩ | hnone := numericOrder.compare_cases x y
  · obtain ⟨-, -, hexact, -⟩ := values_of_integer ha
    obtain ⟨-, -, hexact', -⟩ := values_of_integer hb
    rw [hexact, hexact'] at h
    rw [RoundedOrder.compare_exact ha hb, Ne, cmp_eq_gt_iff, not_lt]
    exact le_of_mul_le_mul_right h unit_pos
  · rw [RoundedOrder.compare_rounded hnone, Ne, cmp_eq_gt_iff, not_lt]
    exact roundedValue_le hx hy h

theorem compare_eq_of_exactValue (hx : isNumber x = true) (hy : isNumber y = true)
    (h : exactValue x = exactValue y) : numericOrder.compare x y = .eq := by
  have hle := compare_ne_gt hx hy h.le
  have hge := compare_ne_gt hy hx h.ge
  rw [← RoundedOrder.compare_swap] at hge
  cases hcompare : numericOrder.compare x y with
  | lt => exact absurd (by rw [hcompare]; rfl) hge
  | eq => rfl
  | gt => exact absurd hcompare hle

end Laws

/-! ## One pass -/

section OnePass

variable {wantGreater : Bool}

/-- What replaces the best is beyond it. -/
theorem mathMinmaxReplaces_iff {best cand : CelValue} :
    mathMinmaxReplaces best cand wantGreater = true ↔
      if wantGreater then numericCompareKernel best cand = .less
      else numericCompareKernel cand best = .less := by
  rw [mathMinmaxReplaces]
  split_ifs
  · exact beq_iff_eq
  · rw [beq_iff_eq, numericCompareKernel_swap cand best]
    cases numericCompareKernel cand best <;> simp [cmpFlip]

theorem mathMinmaxReplaces_trans (x y z : CelValue) (hxy : mathMinmaxReplaces x y wantGreater = true)
    (hyz : mathMinmaxReplaces y z wantGreater = true) :
    mathMinmaxReplaces x z wantGreater = true := by
  rw [mathMinmaxReplaces_iff] at hxy hyz ⊢
  split_ifs at hxy hyz ⊢
  · exact numericCompareKernel_trans hxy hyz
  · exact numericCompareKernel_trans hyz hxy

theorem mathMinmaxReplaces_self (x : CelValue) : mathMinmaxReplaces x x wantGreater = false := by
  have hself : numericCompareKernel x x ≠ .less := fun h => by
    have hswap := numericCompareKernel_swap x x
    rw [h] at hswap
    exact nomatch hswap
  rw [Bool.eq_false_iff, Ne, mathMinmaxReplaces_iff]
  split_ifs <;> exact hself

theorem not_isPoison_of_isNumber {v : CelValue} (h : isNumber v = true) :
    v.isPoison = false ∧ isNumericKind v = true := by
  cases v with
  | int _ | uint _ | double _ => exact ⟨rfl, rfl⟩
  | _ => exact nomatch h

/-- On numbers the loop is one pass. -/
theorem mathMinmaxFrom_eq {elements : List CelValue} (h : ∀ e ∈ elements, isNumber e = true)
    (best : CelValue) : mathMinmaxFrom wantGreater best elements
      = onePass (mathMinmaxReplaces · · wantGreater) best elements := by
  induction elements generalizing best with
  | nil => rfl
  | cons e rest ih =>
    obtain ⟨hpoison, hkind⟩ := not_isPoison_of_isNumber (h e List.mem_cons_self)
    rw [mathMinmaxFrom, hpoison, hkind, onePass, if_neg Bool.false_ne_true,
      if_neg (by rw [Bool.not_true]; exact Bool.false_ne_true)]
    exact ih (fun x hx => h x (List.mem_cons_of_mem e hx)) _

/-- **Of a list of numbers, what comes out is one of them that none replaces.** -/
theorem mathMinmaxElements_best {elements : List CelValue} (hne : elements ≠ [])
    (h : ∀ e ∈ elements, isNumber e = true) : mathMinmaxElements wantGreater elements ∈ elements ∧
      ∀ e ∈ elements, mathMinmaxReplaces (mathMinmaxElements wantGreater elements) e wantGreater
        = false := by
  cases elements with
  | nil => exact absurd rfl hne
  | cons best rest =>
    obtain ⟨hpoison, hkind⟩ := not_isPoison_of_isNumber (h best List.mem_cons_self)
    rw [mathMinmaxElements, hpoison, hkind, if_neg Bool.false_ne_true,
      if_neg (by rw [Bool.not_true]; exact Bool.false_ne_true),
      mathMinmaxFrom_eq fun e he => h e (List.mem_cons_of_mem best he)]
    exact ⟨onePass_mem best rest,
      onePass_best mathMinmaxReplaces_trans mathMinmaxReplaces_self best rest⟩

/-- A run on any list is a run of its view, and then the pass. -/
theorem reaches_mathMinmaxList {host : CelHost} {list v : CelValue}
    (h : (mathMinmaxList wantGreater host list).Reaches (.ok v)) :
    ∃ elements, (celListArenaView host list).Reaches (.ok elements) ∧
      v = mathMinmaxElements wantGreater elements := by
  cases list with
  | listArena _ _ | listHost _ =>
    change (mathMinmaxElements wantGreater <$> celListArenaView host _).Reaches (.ok v) at h
    rw [map_eq_pure_bind] at h
    obtain ⟨elements, hview, hv⟩ := h.of_bind
    exact ⟨elements, hview, Except.ok.inj (Prog.reaches_pure.mp hv)⟩
  | _ => exact ⟨_, .ask 64 _ true (.ret _), Except.ok.inj (Prog.reaches_pure.mp h)⟩

end OnePass

/-- The least of a list of numbers: none of them is less. -/
def LeastOf (elements : List CelValue) (v : CelValue) : Prop :=
  v ∈ elements ∧ ∀ e ∈ elements, numericCompareKernel e v ≠ .less

/-- The greatest: none of them is greater. -/
def GreatestOf (elements : List CelValue) (v : CelValue) : Prop :=
  v ∈ elements ∧ ∀ e ∈ elements, numericCompareKernel e v ≠ .greater

section Elements

variable {elements : List CelValue}

theorem leastOf_mathMinmaxElements (hne : elements ≠ []) (h : ∀ e ∈ elements, isNumber e = true) :
    LeastOf elements (mathMinmaxElements false elements) := by
  obtain ⟨hmem, hbest⟩ := @mathMinmaxElements_best false _ hne h
  refine ⟨hmem, fun e he hless => ?_⟩
  have hreplaces := (@mathMinmaxReplaces_iff false _ _).mpr hless
  rw [hbest e he] at hreplaces
  exact nomatch hreplaces

theorem greatestOf_mathMinmaxElements (hne : elements ≠ [])
    (h : ∀ e ∈ elements, isNumber e = true) :
    GreatestOf elements (mathMinmaxElements true elements) := by
  obtain ⟨hmem, hbest⟩ := @mathMinmaxElements_best true _ hne h
  refine ⟨hmem, fun e he hgreater => ?_⟩
  have hless : numericCompareKernel (mathMinmaxElements true elements) e = .less := by
    rw [numericCompareKernel_swap e, hgreater]
    rfl
  have hreplaces := (@mathMinmaxReplaces_iff true _ _).mpr hless
  rw [hbest e he] at hreplaces
  exact nomatch hreplaces

end Elements

/-- **Comparison of numbers is a consistent rounded order.** The verdict is one of three, turns around
with the operands, is exact on integers and never against the exact order; an integer is equal to the
double it is rounded to and no other; strictly less is transitive, though equal is not. So one pass
over a list of numbers finds its least and its greatest. -/
theorem numericCompareKernel_lawful :
    (∀ x y, isNumber x = true → isNumber y = true →
      numericCompareKernel x y = .less ∨ numericCompareKernel x y = .equal
        ∨ numericCompareKernel x y = .greater) ∧
    (∀ x y, numericCompareKernel y x = cmpFlip (numericCompareKernel x y)) ∧
    (∀ x y a b, integer? x = some a → integer? y = some b →
      numericCompareKernel x y = .ofOrdering (cmp a b)) ∧
    (∀ x y, isNumber x = true → isNumber y = true →
      (exactValue x < exactValue y →
        numericCompareKernel x y = .less ∨ numericCompareKernel x y = .equal) ∧
      (exactValue x = exactValue y → numericCompareKernel x y = .equal)) ∧
    (∀ x i d, integer? x = some i → isNumber (.double d) = true →
      (numericCompareKernel x (.double d) = .equal ↔ d.scaled = (ofInt i).scaled)) ∧
    (∀ x y z, numericCompareKernel x y = .less → numericCompareKernel y z = .less →
      numericCompareKernel x z = .less) ∧
    (∃ x y z, numericCompareKernel x y = .equal ∧ numericCompareKernel y z = .equal ∧
      numericCompareKernel x z = .less) ∧
    (∀ host capacity elements, elements ≠ [] → (∀ e ∈ elements, isNumber e = true) →
      (∃ v, celMathMinList host (.listArena capacity elements) = pure v ∧ LeastOf elements v) ∧
      ∃ v, celMathMaxList host (.listArena capacity elements) = pure v ∧ GreatestOf elements v) ∧
    ∀ host list v,
      ((celMathMinList host list).Reaches (.ok v) →
        ∃ elements, (celListArenaView host list).Reaches (.ok elements) ∧
          (elements ≠ [] → (∀ e ∈ elements, isNumber e = true) → LeastOf elements v)) ∧
      ((celMathMaxList host list).Reaches (.ok v) →
        ∃ elements, (celListArenaView host list).Reaches (.ok elements) ∧
          (elements ≠ [] → (∀ e ∈ elements, isNumber e = true) → GreatestOf elements v)) := by
  refine ⟨fun x y hx hy => ?_, numericCompareKernel_swap, fun x y a b hx hy => ?_,
    fun x y hx hy => ⟨fun h => ?_, fun h => ?_⟩, fun x i d hx hd => ?_,
    fun x y z => numericCompareKernel_trans, ?_, fun host capacity elements hne h => ⟨?_, ?_⟩,
    fun host list v => ⟨fun h => ?_, fun h => ?_⟩⟩
  · have h := numericCompareKernel_ne_nanInequal hx hy
    cases hresult : numericCompareKernel x y <;> simp_all
  · obtain ⟨-, hnumx, -⟩ := values_of_integer hx
    obtain ⟨-, hnumy, -⟩ := values_of_integer hy
    rw [numericCompareKernel_eq hnumx hnumy, compare_of_integers hx hy]
  · have hle := compare_ne_gt hx hy h.le
    rw [numericCompareKernel_eq hx hy]
    cases hresult : numericOrder.compare x y with
    | lt => exact .inl rfl
    | eq => exact .inr rfl
    | gt => exact absurd hresult hle
  · rw [numericCompareKernel_eq hx hy, compare_eq_of_exactValue hx hy h]
    rfl
  · obtain ⟨-, hnum, -, hround⟩ := values_of_integer hx
    rw [numericCompareKernel_eq hnum hd, compare_double, hround, ofOrdering_cmp_eq_equal_iff]
    exact eq_comm
  · exact ⟨.int 9007199254740992, .double (ofInt 9007199254740992), .int 9007199254740993,
      by decide +kernel, by decide +kernel, by rfl⟩
  · exact ⟨_, rfl, leastOf_mathMinmaxElements hne h⟩
  · exact ⟨_, rfl, greatestOf_mathMinmaxElements hne h⟩
  · obtain ⟨elements, hview, rfl⟩ := reaches_mathMinmaxList h
    exact ⟨elements, hview, leastOf_mathMinmaxElements⟩
  · obtain ⟨elements, hview, rfl⟩ := reaches_mathMinmaxList h
    exact ⟨elements, hview, greatestOf_mathMinmaxElements⟩

/-- The double of `2⁵³` between the ints it is the rounded image of. -/
theorem numericCompareKernel_lawful_double :
    numericCompareKernel (.int 9007199254740993) (.double (ofInt 9007199254740992)) = .equal :=
  (numericCompareKernel_lawful.2.2.2.2.1 (.int 9007199254740993) 9007199254740993
    (ofInt 9007199254740992) (by decide) (by decide)).mpr (by rfl)

end CelWasm
