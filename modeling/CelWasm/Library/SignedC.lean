import CelWasm.Library.Binary64

/-!
# Library/SignedC — signed arithmetic as C has it

A signed operation of C has the exact result, or none: where the result is not representable the
behaviour of the program is undefined from there on; and so it is where a double is converted that is
no int64 without its fraction. Unsigned arithmetic wraps, and so do the conversions to it and back.
-/

namespace CelWasm

/-- What makes the behaviour of a program undefined. -/
inductive Undefined
  | signedOverflow
  | conversion

/-- An evaluation in C. -/
abbrev CEval := Except Undefined

namespace CEval

variable {α β : Type}

/-- Its behaviour is defined. -/
def IsDefined (x : CEval α) : Prop := ∃ a, x = .ok a

theorem isDefined_ok (a : α) : IsDefined (.ok a : CEval α) := ⟨a, rfl⟩

theorem not_isDefined_error (e : Undefined) : ¬ IsDefined (.error e : CEval α) := nofun

/-- The int64 of an exact result. -/
def signed (exact : ℤ) : CEval Int64 :=
  if -2 ^ 63 ≤ exact ∧ exact < 2 ^ 63 then .ok (Int64.ofInt exact) else .error .signedOverflow

/-- `-a`. -/
def neg (a : Int64) : CEval Int64 := signed (-a.toInt)

/-- `a + b`. -/
def add (a b : Int64) : CEval Int64 := signed (a.toInt + b.toInt)

/-- `a - b`. -/
def sub (a b : Int64) : CEval Int64 := signed (a.toInt - b.toInt)

/-- The int32 of an exact result. -/
def signed32 (exact : ℤ) : CEval Int32 :=
  if -2 ^ 31 ≤ exact ∧ exact < 2 ^ 31 then .ok (Int32.ofInt exact) else .error .signedOverflow

/-- `a + b` of int32. -/
def add32 (a b : Int32) : CEval Int32 := signed32 (a.toInt + b.toInt)

/-- `a - b` of int32. -/
def sub32 (a b : Int32) : CEval Int32 := signed32 (a.toInt - b.toInt)

/-- `(int64_t)d`. -/
def ofDouble (d : Binary64) : CEval Int64 :=
  if !d.isNaN && -2 ^ 63 ≤ d.truncate && d.truncate < 2 ^ 63 then .ok (Int64.ofInt d.truncate)
  else .error .conversion

theorem neg_eq {a : Int64} (h : a.toInt ≠ -2 ^ 63) : neg a = .ok (-a) := by
  have hlt := a.toInt_lt
  have hle := a.le_toInt
  have hexact : Int64.ofInt (-a.toInt) = -a := by
    rw [Int64.ofInt_neg, Int64.ofInt_toInt]
  rw [neg, signed, if_pos (by omega), hexact]

theorem neg_least {a : Int64} (h : a.toInt = -2 ^ 63) : neg a = .error .signedOverflow := by
  rw [neg, signed, if_neg (by omega)]

theorem add_eq {a b : Int64} (hl : -2 ^ 63 ≤ a.toInt + b.toInt) (hg : a.toInt + b.toInt < 2 ^ 63) :
    add a b = .ok (a + b) := by
  have hexact : Int64.ofInt (a.toInt + b.toInt) = a + b := by
    rw [Int64.ofInt_add, Int64.ofInt_toInt, Int64.ofInt_toInt]
  rw [add, signed, if_pos ⟨hl, hg⟩, hexact]

theorem sub_eq {a b : Int64} (hl : -2 ^ 63 ≤ a.toInt - b.toInt) (hg : a.toInt - b.toInt < 2 ^ 63) :
    sub a b = .ok (a - b) := by
  have hexact : Int64.ofInt (a.toInt - b.toInt) = a - b := by
    rw [Int64.ofInt_sub, Int64.ofInt_toInt, Int64.ofInt_toInt]
  rw [sub, signed, if_pos ⟨hl, hg⟩, hexact]

theorem add32_eq {a b : Int32} (hl : -2 ^ 31 ≤ a.toInt + b.toInt) (hg : a.toInt + b.toInt < 2 ^ 31) :
    add32 a b = .ok (a + b) := by
  have hexact : Int32.ofInt (a.toInt + b.toInt) = a + b := by
    rw [Int32.ofInt_add, Int32.ofInt_toInt, Int32.ofInt_toInt]
  rw [add32, signed32, if_pos ⟨hl, hg⟩, hexact]

theorem sub32_eq {a b : Int32} (hl : -2 ^ 31 ≤ a.toInt - b.toInt) (hg : a.toInt - b.toInt < 2 ^ 31) :
    sub32 a b = .ok (a - b) := by
  have hexact : Int32.ofInt (a.toInt - b.toInt) = a - b := by
    rw [Int32.ofInt_sub, Int32.ofInt_toInt, Int32.ofInt_toInt]
  rw [sub32, signed32, if_pos ⟨hl, hg⟩, hexact]

/-- What is defined is exact. -/
theorem toInt_of_signed {exact : ℤ} {a : Int64} (h : signed exact = .ok a) : a.toInt = exact := by
  rw [signed] at h
  split_ifs at h with hrange
  obtain rfl := Except.ok.inj h
  exact Int64.toInt_ofInt_of_le (by omega) (by omega)

theorem toInt_of_signed32 {exact : ℤ} {a : Int32} (h : signed32 exact = .ok a) : a.toInt = exact := by
  rw [signed32] at h
  split_ifs at h with hrange
  obtain rfl := Except.ok.inj h
  exact Int32.toInt_ofInt_of_le (by omega) (by omega)

end CEval

end CelWasm
