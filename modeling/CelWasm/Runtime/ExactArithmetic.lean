import CelWasm.Runtime.SlotArithmetic

/-!
# Runtime/ExactArithmetic — integers come out exact, or as an error

Int and uint each have five checked operations on two operands, and int has a sign to change as well.
What is wanted of all of them is said once, on the integers, with the range of a kind as a parameter.

    operands ── the check ──▸ the wrapped result, which is the exact one
                    ╰───────▸ overflow, or a divisor of zero
-/

namespace CelWasm

open CellProg

/-! ## What is wanted -/

/-- A checked operation on two operands. -/
inductive CheckedOp
  | add
  | sub
  | mul
  | div
  | mod

/-- An exact result, if `bounded` is representable. -/
def ranged (least greatest bounded exact : ℤ) : Except CelErr ℤ :=
  if least ≤ bounded ∧ bounded ≤ greatest then .ok exact else .error .overflow

/-- **The exact result of an operation, or its error.** Division truncates, a remainder has the sign of
the dividend, and it is the quotient that has to be representable for either. -/
def CheckedOp.wanted (least greatest : ℤ) (op : CheckedOp) (x y : ℤ) : Except CelErr ℤ :=
  match op with
  | add => ranged least greatest (x + y) (x + y)
  | sub => ranged least greatest (x - y) (x - y)
  | mul => ranged least greatest (x * y) (x * y)
  | div => if y = 0 then .error .divideByZero else ranged least greatest (x.tdiv y) (x.tdiv y)
  | mod => if y = 0 then .error .modulusByZero else ranged least greatest (x.tdiv y) (x.tmod y)

/-- **A value is what was wanted**: that integer, in the kind, or that error. -/
def IsWanted {ι : Type} (tag : ι → CelValue) (toInt : ι → ℤ) : Except CelErr ℤ → CelValue → Prop
  | .ok v, r => ∃ i, toInt i = v ∧ r = tag i
  | .error e, r => r = .error e

section Wanted

variable {ι : Type} {tag : ι → CelValue} {toInt : ι → ℤ} {least greatest bounded exact : ℤ}

/-- A check that is the range check. -/
theorem isWanted_ranged {r : CelValue} {i : ι}
    (hexact : least ≤ bounded → bounded ≤ greatest → toInt i = exact)
    (hr : r = if least ≤ bounded ∧ bounded ≤ greatest then tag i else .error .overflow) :
    IsWanted tag toInt (ranged least greatest bounded exact) r := by
  rw [ranged, hr]
  split_ifs with h
  · exact ⟨i, hexact h.1 h.2, rfl⟩
  · rfl

/-- …as one of the kernels with a result that may be missing has it. -/
theorem isWanted_orOverflow {r : Option ι} {i : ι}
    (hexact : least ≤ bounded → bounded ≤ greatest → toInt i = exact)
    (hr : r = if least ≤ bounded ∧ bounded ≤ greatest then some i else none) :
    IsWanted tag toInt (ranged least greatest bounded exact) (orOverflow tag r) := by
  refine isWanted_ranged hexact ?_
  rw [hr]
  split_ifs <;> rfl

end Wanted

/-! ## The kernels on their payloads -/

/-- What `cel_int_div_at_vv` and `cel_int_mod_at_vv` make of two ints. -/
def intDivision (byZero : CelErr) (op : Int64 → Int64 → Int64) (x y : Int64) : CelValue :=
  if y = 0 then .error byZero
  else if x = Int64.minValue ∧ y = -1 then .error .overflow
  else .int (op x y)

/-- What `cel_uint_div_at_vv` and `cel_uint_mod_at_vv` make of two uints. -/
def uintDivision (byZero : CelErr) (op : UInt64 → UInt64 → UInt64) (x y : UInt64) : CelValue :=
  if y = 0 then .error byZero else .uint (op x y)

theorem CelValue.eq_int_of_kind {v : CelValue} (h : v.kind = .int) : ∃ i, v = .int i := by
  cases v with
  | int i => exact ⟨i, rfl⟩
  | _ => exact nomatch h

theorem CelValue.eq_uint_of_kind {v : CelValue} (h : v.kind = .uint) : ∃ u, v = .uint u := by
  cases v with
  | uint u => exact ⟨u, rfl⟩
  | _ => exact nomatch h

section Division

variable (a b : Slot)

/-- **Division of ints is a kernel on payloads**, though it looks at them in between. -/
theorem computes_intDivisionAt (byZero : CelErr) (op : Int64 → Int64 → Int64) :
    Computes (intDivisionAt byZero op · a b) fun cells =>
      strictKernel .int CelValue.int? (intDivision byZero op) (cells a) (cells b) := by
  refine computes_unlessAbsorbed a b <| .congr (.unless (settles_requireKinds2At a b _ _) <|
    .read (reads_payload _ b) fun _ => .ite (computes_store _) <|
      .read (reads_payload _ a) fun _ => .read (reads_payload _ b) fun _ =>
        .ite (computes_store _) <|
          .read (reads_payload _ a) fun _ => .read (reads_payload _ b) fun _ => computes_store _)
    fun cells => ?_
  rw [pure_bind]
  split_ifs with hkinds
  · rfl
  · rw [not_or, not_ne_iff, not_ne_iff] at hkinds
    obtain ⟨x, hx⟩ := CelValue.eq_int_of_kind hkinds.1
    obtain ⟨y, hy⟩ := CelValue.eq_int_of_kind hkinds.2
    simp only [hx, hy, CelValue.int?, Option.elim, pure_bind, intDivision, Bool.and_eq_true,
      decide_eq_true_eq]
    split_ifs <;> rfl

/-- …and so is division of uints. -/
theorem computes_uintDivisionAt (byZero : CelErr) (op : UInt64 → UInt64 → UInt64) :
    Computes (uintDivisionAt byZero op · a b) fun cells =>
      strictKernel .uint CelValue.uint? (uintDivision byZero op) (cells a) (cells b) := by
  refine computes_unlessAbsorbed a b <| .congr (.unless (settles_requireKinds2At a b _ _) <|
    .read (reads_payload _ b) fun _ => .ite (computes_store _) <|
      .read (reads_payload _ a) fun _ => .read (reads_payload _ b) fun _ => computes_store _)
    fun cells => ?_
  rw [pure_bind]
  split_ifs with hkinds
  · rfl
  · rw [not_or, not_ne_iff, not_ne_iff] at hkinds
    obtain ⟨x, hx⟩ := CelValue.eq_uint_of_kind hkinds.1
    obtain ⟨y, hy⟩ := CelValue.eq_uint_of_kind hkinds.2
    simp only [hx, hy, CelValue.uint?, Option.elim, pure_bind, uintDivision]
    split_ifs <;> rfl

end Division

/-- `cel_int_neg_at_v`. -/
def celIntNegAt (out v : Slot) : SlotKernel Unit := do
  if ← absorb3vlUnaryAt out v then return
  if (← loadKind v) ≠ .int then
    poisonAt out .typeMismatch
    return
  if (← payload CelValue.int? v) = Int64.minValue then
    poisonAt out .overflow
    return
  store out (.int (-(← payload CelValue.int? v)))

/-- What it makes of an int. -/
def intNegation (x : Int64) : CelValue :=
  if x = Int64.minValue then .error .overflow else .int (-x)

theorem run_celIntNegAt {v : Slot} {cells : Slot → CelValue} {x : Int64} (h : cells v = .int x)
    (out : Slot) :
    (celIntNegAt out v).run cells = pure ((), Function.update cells out (intNegation x)) := by
  have hcomputes : Computes (celIntNegAt · v) _ := .unless (settles_absorb3vlUnaryAt v) <|
    .read (reads_loadKind v) fun _ => .ite (computes_store _) <|
      .read (reads_payload _ v) fun _ => .ite (computes_store _) <|
        .read (reads_payload _ v) fun _ => computes_store _
  rw [hcomputes out cells, h]
  simp only [absorb3vlUnary, CelValue.isPoison, Bool.false_eq_true, if_false, pure_bind, Option.elim,
    CelValue.kind, ne_eq, not_true_eq_false, CelValue.int?, intNegation]
  split_ifs <;> rfl

namespace CheckedOp

/-- The kernel of an operation on ints. -/
def onInt : CheckedOp → Slot → Slot → Slot → SlotKernel Unit
  | add => celIntAddAt
  | sub => celIntSubAt
  | mul => celIntMulAt
  | div => celIntDivAt
  | mod => celIntModAt

/-- The kernel of an operation on uints. -/
def onUint : CheckedOp → Slot → Slot → Slot → SlotKernel Unit
  | add => celUintAddAt
  | sub => celUintSubAt
  | mul => celUintMulAt
  | div => celUintDivAt
  | mod => celUintModAt

/-- What the kernel on ints makes of its payloads. -/
def ofInts : CheckedOp → Int64 → Int64 → CelValue
  | add => fun x y => orOverflow .int (addInt64 x y)
  | sub => fun x y => orOverflow .int (subInt64 x y)
  | mul => fun x y => orOverflow .int (int64MulOverflows x y)
  | div => intDivision .divideByZero (· / ·)
  | mod => intDivision .modulusByZero (· % ·)

/-- What the kernel on uints makes of its payloads. -/
def ofUints : CheckedOp → UInt64 → UInt64 → CelValue
  | add => fun x y => orOverflow .uint (addUInt64 x y)
  | sub => fun x y => orOverflow .uint (subUInt64 x y)
  | mul => fun x y => orOverflow .uint (uint64MulOverflows x y)
  | div => uintDivision .divideByZero (· / ·)
  | mod => uintDivision .modulusByZero (· % ·)

section Run

variable (op : CheckedOp) {a b : Slot}

theorem computes_onInt (a b : Slot) : Computes (op.onInt · a b) fun cells =>
    strictKernel .int CelValue.int? op.ofInts (cells a) (cells b) := by
  cases op with
  | div | mod => exact computes_intDivisionAt a b _ _
  | add | sub | mul => exact computes_strictKernelAt _ _ _ a b

theorem computes_onUint (a b : Slot) : Computes (op.onUint · a b) fun cells =>
    strictKernel .uint CelValue.uint? op.ofUints (cells a) (cells b) := by
  cases op with
  | div | mod => exact computes_uintDivisionAt a b _ _
  | add | sub | mul => exact computes_strictKernelAt _ _ _ a b

variable {cells : Slot → CelValue}

theorem run_onInt {x y : Int64} (ha : cells a = .int x) (hb : cells b = .int y) (out : Slot) :
    (op.onInt out a b).run cells = pure ((), Function.update cells out (op.ofInts x y)) := by
  rw [op.computes_onInt a b out cells]
  simp only [ha, hb]
  rfl

theorem run_onUint {x y : UInt64} (ha : cells a = .uint x) (hb : cells b = .uint y) (out : Slot) :
    (op.onUint out a b).run cells = pure ((), Function.update cells out (op.ofUints x y)) := by
  rw [op.computes_onUint a b out cells]
  simp only [ha, hb]
  rfl

end Run

end CheckedOp

/-! ## The kernels are exact -/

/-- An int64 in range is not wrapped. -/
theorem bmod_of_int64 {v : ℤ} (hl : int64Min ≤ v) (hg : v ≤ int64Max) : v.bmod (2 ^ 64) = v := by
  rw [int64Min] at hl
  rw [int64Max] at hg
  exact Int.bmod_eq_of_le (by omega) (by omega)

/-- **A quotient of ints is representable**, but for one pair. -/
theorem tdiv_inRange_iff (x : Int64) {y : Int64} (hy : y ≠ 0) :
    (int64Min ≤ x.toInt.tdiv y.toInt ∧ x.toInt.tdiv y.toInt ≤ int64Max)
      ↔ ¬ (x = Int64.minValue ∧ y = -1) := by
  have hle := x.le_toInt
  have hlt := x.toInt_lt
  have hmin : x = Int64.minValue ↔ x.toInt = -2 ^ 63 := toInt_eq_min_iff
  have hone : y = -1 ↔ y.toInt = -1 := Int64.toInt_inj.symm
  have hzero : y.toInt ≠ 0 := fun h => hy (Int64.toInt_inj.mp h)
  rw [hmin, hone, int64Min, int64Max]
  generalize x.toInt = p at hle hlt ⊢
  generalize y.toInt = q at hzero ⊢
  have hbound := Int.natAbs_tdiv_le_natAbs p q
  by_cases hminus : q = -1
  · rw [hminus, Int.tdiv_neg, Int.tdiv_one]
    omega
  · refine iff_of_true ?_ (fun h => hminus h.2)
    by_cases hone : q = 1
    · rw [hone, Int.tdiv_one]
      omega
    · -- the divisor is two at least, which halves the dividend
      have hhalf : (p.tdiv q).natAbs ≤ p.natAbs / 2 := by
        rw [Int.natAbs_tdiv]
        exact Nat.div_le_div_left (by omega) (by norm_num)
      omega

namespace CheckedOp

variable (op : CheckedOp)

/-- **On ints.** -/
theorem isWanted_ofInts (x y : Int64) : IsWanted .int Int64.toInt
    (op.wanted int64Min int64Max x.toInt y.toInt) (op.ofInts x y) := by
  have hzero : y.toInt = 0 ↔ y = 0 := Int64.toInt_inj (y := 0)
  cases op with
  | add => exact isWanted_orOverflow (fun hl hg => (x.toInt_add y).trans (bmod_of_int64 hl hg)) rfl
  | sub => exact isWanted_orOverflow (fun hl hg => (x.toInt_sub y).trans (bmod_of_int64 hl hg)) rfl
  | mul =>
    exact isWanted_orOverflow (fun hl hg => (x.toInt_mul y).trans (bmod_of_int64 hl hg))
      (int64MulOverflows_eq x y)
  | div =>
    simp only [wanted, ofInts, intDivision, hzero]
    split_ifs with hy hover
    · rfl
    · exact isWanted_ranged (i := x / y) (fun hl hg => (x.toInt_div y).trans (bmod_of_int64 hl hg))
        (if_neg fun h => (tdiv_inRange_iff x hy).mp h hover).symm
    · exact isWanted_ranged (fun hl hg => (x.toInt_div y).trans (bmod_of_int64 hl hg))
        (if_pos ((tdiv_inRange_iff x hy).mpr hover)).symm
  | mod =>
    simp only [wanted, ofInts, intDivision, hzero]
    split_ifs with hy hover
    · rfl
    · exact isWanted_ranged (i := x % y) (fun _ _ => x.toInt_mod y)
        (if_neg fun h => (tdiv_inRange_iff x hy).mp h hover).symm
    · exact isWanted_ranged (fun _ _ => x.toInt_mod y)
        (if_pos ((tdiv_inRange_iff x hy).mpr hover)).symm

/-- **On uints.** -/
theorem isWanted_ofUints (x y : UInt64) : IsWanted .uint (fun u => (u.toNat : ℤ))
    (op.wanted 0 (2 ^ 64 - 1) x.toNat y.toNat) (op.ofUints x y) := by
  have hx := x.toNat_lt
  have hzero : (y.toNat : ℤ) = 0 ↔ y = 0 := by
    rw [Nat.cast_eq_zero]
    exact UInt64.toNat_inj (b := 0)
  have hfits : 0 ≤ (x.toNat : ℤ).tdiv y.toNat ∧ (x.toNat : ℤ).tdiv y.toNat ≤ 2 ^ 64 - 1 := by
    have hquotient : (x.toNat : ℤ).tdiv y.toNat = (x.toNat / y.toNat : ℕ) := rfl
    have hle := Nat.div_le_self x.toNat y.toNat
    rw [hquotient]
    generalize x.toNat / y.toNat = q at hle ⊢
    omega
  cases op with
  | add =>
    refine isWanted_orOverflow (i := x + y) (fun _ hg => ?_) (if_congr ?_ rfl rfl)
    · rw [UInt64.toNat_add, Nat.mod_eq_of_lt (by omega), Nat.cast_add]
    · omega
  | sub =>
    have hle : y ≤ x ↔ y.toNat ≤ x.toNat := UInt64.le_iff_toNat_le
    refine isWanted_orOverflow (i := x - y) (fun hl _ => ?_) (if_congr ?_ rfl rfl)
    · rw [UInt64.toNat_sub_of_le _ _ (hle.mpr (by omega)), Nat.cast_sub (by omega)]
    · rw [hle]
      omega
  | mul =>
    have hcast : (x.toNat : ℤ) * y.toNat = (x.toNat * y.toNat : ℕ) := (Nat.cast_mul _ _).symm
    refine isWanted_orOverflow (i := x * y) (fun _ hg => ?_)
      ((uint64MulOverflows_eq x y).trans (if_congr ?_ rfl rfl))
    · rw [hcast] at hg ⊢
      rw [UInt64.toNat_mul, Nat.mod_eq_of_lt (by omega)]
    · rw [hcast]
      omega
  | div =>
    simp only [wanted, ofUints, uintDivision, hzero]
    split_ifs with hy
    · rfl
    · exact isWanted_ranged (fun _ _ => congrArg Nat.cast (x.toNat_div y))
        (if_pos hfits).symm
  | mod =>
    simp only [wanted, ofUints, uintDivision, hzero]
    split_ifs with hy
    · rfl
    · exact isWanted_ranged (fun _ _ => congrArg Nat.cast (x.toNat_mod y))
        (if_pos hfits).symm

end CheckedOp

theorem isWanted_intNegation (x : Int64) : IsWanted .int Int64.toInt
    (ranged int64Min int64Max (-x.toInt) (-x.toInt)) (intNegation x) := by
  have hle := x.le_toInt
  have hlt := x.toInt_lt
  refine isWanted_ranged (i := -x) (fun hl hg => x.toInt_neg.trans (bmod_of_int64 hl hg)) ?_
  rw [intNegation, ← ite_not]
  refine if_congr ?_ rfl rfl
  rw [toInt_eq_min_iff, int64Min, int64Max]
  omega

/-- **Checked integer arithmetic is exact.** Whatever the cells, an operation on two ints or two uints,
and the negation of an int, leaves the exact result in its destination or the error that is due. -/
theorem checkedArithmetic_exact (out a b : Slot) (cells : Slot → CelValue) :
    (∀ (op : CheckedOp) (x y : Int64), cells a = .int x → cells b = .int y →
      ∃ r, (op.onInt out a b).run cells = pure ((), Function.update cells out r) ∧
        IsWanted .int Int64.toInt (op.wanted int64Min int64Max x.toInt y.toInt) r) ∧
    (∀ (op : CheckedOp) (x y : UInt64), cells a = .uint x → cells b = .uint y →
      ∃ r, (op.onUint out a b).run cells = pure ((), Function.update cells out r) ∧
        IsWanted .uint (fun u => (u.toNat : ℤ)) (op.wanted 0 (2 ^ 64 - 1) x.toNat y.toNat) r) ∧
    (∀ x : Int64, cells a = .int x →
      ∃ r, (celIntNegAt out a).run cells = pure ((), Function.update cells out r) ∧
        IsWanted .int Int64.toInt (ranged int64Min int64Max (-x.toInt) (-x.toInt)) r) := by
  refine ⟨fun op x y ha hb => ?_, fun op x y ha hb => ?_, fun x ha => ?_⟩
  · exact ⟨_, op.run_onInt ha hb out, op.isWanted_ofInts x y⟩
  · exact ⟨_, op.run_onUint ha hb out, op.isWanted_ofUints x y⟩
  · exact ⟨_, run_celIntNegAt ha out, isWanted_intNegation x⟩

/-- The one quotient of ints that is not representable, with the divisor of the result's cell. -/
theorem checkedArithmetic_exact_leastByMinusOne :
    ∃ r, (CheckedOp.mod.onInt 1 0 1).run (fun s => .int (if s = 0 then Int64.minValue else -1))
        = pure ((), Function.update
            (fun s => CelValue.int (if s = 0 then Int64.minValue else -1)) 1 r) ∧
      IsWanted .int Int64.toInt
        (CheckedOp.mod.wanted int64Min int64Max Int64.minValue.toInt (-1 : Int64).toInt) r :=
  (checkedArithmetic_exact 1 0 1 _).1 .mod Int64.minValue (-1) rfl rfl

end CelWasm
