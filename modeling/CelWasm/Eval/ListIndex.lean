import CelWasm.Library.Binary64Rounding
import CelWasm.Library.SignedC
import CelWasm.Eval.HostEncode
import CelWasm.Runtime.Lists

/-!
# Eval/ListIndex — the index of a list, in the arena and on the host

An index is an int, a uint, or a double that is an integer. Both copies of the decoder look whether a
double is within the range of int64 before they convert it. The bound they compare it with is a double
itself, `2⁶³`, and lets `2⁶³` through.

    int ────────────────────────▸ the index
    uint ── to INT64_MAX ───────▸ the index
    double ── to the bound ── converted ── the same again ──▸ the index
-/

namespace CelWasm

open CEval

/-! ## Decoding -/

/-- `9.2233720368547758e18`. -/
def listIndexBound : Binary64 := .ofInt 9223372036854775800

/-- `-9.2233720368547758e18`. -/
def listIndexLeast : Binary64 := .ofInt (-9223372036854775800)

/-- The doubles `decode_list_index` refuses before it converts. -/
def arenaRefuses (d : Binary64) : Bool := d.isNaN || listIndexBound.lt d || d.lt listIndexLeast

/-- The doubles `DecodeListIndex` refuses. -/
def hostRefuses (d : Binary64) : Bool :=
  d.isNaN || d.isInf || listIndexBound.lt d || d.lt listIndexLeast

/-- The common body of the two. -/
def decodeIndexC (refuses : Binary64 → Bool) : CelValue → CEval (Except CelErr Int64)
  | .int i => return .ok i
  | .uint u => return if int64Max < u.toNat then .error .indexOutOfBounds else .ok u.toInt64
  | .double d =>
    if refuses d then return .error .invalidArgument
    else do
      let trunc ← ofDouble d
      return if !(Binary64.ofInt trunc.toInt).eq d then .error .invalidArgument else .ok trunc
  | _ => return .error .typeMismatch

/-- `decode_list_index`. -/
def decodeListIndexC : CelValue → CEval (Except CelErr Int64) := decodeIndexC arenaRefuses

/-- `DecodeListIndex`. -/
def hostDecodeListIndexC : CelValue → CEval (Except CelErr Int64) := decodeIndexC hostRefuses

/-! ## Indexing -/

/-- `cel_list_at_arena`. -/
def celListAtArenaC (list index : CelValue) : CEval (Kernel CelValue) :=
  if index.isPoison then return return index
  else if list.isPoison then return return list
  else do
    match ← decodeListIndexC index with
    | .error e => return return .error e
    | .ok i =>
      match list with
      | .listArena _ elements =>
        if i < 0 then return return .error .indexOutOfBounds
        else
          match elements[i.toInt.toNat]? with
          | some v => return return v
          | none => return return .error .indexOutOfBounds
      | _ => return Prog.stop .wildRead

/-- `CelListAtImpl`; past the end it is the backing that returns the error. -/
def celListAtImplC (list index : CelValue) : CEval (Kernel CelValue) :=
  if index.isPoison then return return index
  else if list.isPoison then return return list
  else
    match list with
    | .listHost elements => do
      match ← hostDecodeListIndexC index with
      | .error e => return return .error e
      | .ok i =>
        if i < 0 then return return .error .indexOutOfBounds
        else
          match elements[i.toInt.toNat]? with
          | some v => return encodeValue v
          | none => return encodeValue (.error .indexOutOfBounds)
    | _ => return return .error .typeMismatch

/-! ## What is wanted -/

/-- **A value is an integer.** -/
def CelValue.IsInteger : CelValue → ℤ → Prop
  | .int i, n => i.toInt = n
  | .uint u, n => u.toNat = n
  | .double d, n => d.isNaN = false ∧ d.isInf = false ∧ d.scaled = n * Binary64.unit
  | _, _ => False

/-- The error of an index that is not in the list: for a double that is no int64 it is another one. -/
def listIndexError : CelValue → CelErr
  | .double d =>
    if d.isNaN = false ∧ Binary64.unit ∣ d.scaled ∧ -2 ^ 63 * Binary64.unit ≤ d.scaled ∧
        d.scaled < 2 ^ 63 * Binary64.unit then .indexOutOfBounds
    else .invalidArgument
  | _ => .indexOutOfBounds

/-- **Indexing is exact**: its behaviour is defined, an index in the list selects its element, and any
other value is an error. -/
def IndexesExactly {α : Type} (call : CEval (Kernel CelValue)) (elements : List α)
    (deliver : α → Kernel CelValue) (index : CelValue) : Prop :=
  ∃ k, call = .ok k ∧
    (∀ (n : ℕ) (x : α), index.IsInteger n → elements[n]? = some x → k = deliver x) ∧
    ((∀ n : ℕ, index.IsInteger n → elements.length ≤ n) → k = return .error (listIndexError index))

/-- The index that is let through. -/
def CelValue.isTwoPow63 : CelValue → Bool
  | .double d => d.eq (.ofInt (2 ^ 63))
  | _ => false

/-! ## The doubles that are decoded -/

section Doubles

open Binary64

variable {d : Binary64}

/-- The bounds are whole powers of two, and no NaN. -/
theorem listIndexBounds_scaled : listIndexBound.scaled = 2 ^ 63 * unit ∧
    listIndexLeast.scaled = -2 ^ 63 * unit ∧ (ofInt (2 ^ 63)).scaled = 2 ^ 63 * unit := by
  have hround : roundInt 9223372036854775800 = 2 ^ 63 ∧ roundInt (-9223372036854775800) = -2 ^ 63 ∧
    roundInt (2 ^ 63) = 2 ^ 63 := by decide
  refine ⟨?_, ?_, ?_⟩
  · rw [listIndexBound, scaled_ofInt (by decide), hround.1]
  · rw [listIndexLeast, scaled_ofInt (by decide), hround.2.1]
  · rw [scaled_ofInt (by decide), hround.2.2]

theorem arenaRefuses_eq_false_iff : arenaRefuses d = false ↔
    d.isNaN = false ∧ d.scaled ≤ 2 ^ 63 * unit ∧ -2 ^ 63 * unit ≤ d.scaled := by
  have hbound : listIndexBound.isNaN = false := isNaN_ofInt (by decide)
  have hleast : listIndexLeast.isNaN = false := isNaN_ofInt (by decide)
  rw [arenaRefuses, Bool.or_eq_false_iff, Bool.or_eq_false_iff, Binary64.lt, Binary64.lt, hbound,
    hleast, listIndexBounds_scaled.1, listIndexBounds_scaled.2.1, and_assoc]
  refine and_congr_right fun hnan => ?_
  rw [hnan]
  simp only [Bool.not_false, Bool.true_and, decide_eq_false_iff_not, not_lt]

/-- An infinity is out of bounds. -/
theorem not_isInf_of_le (hle : d.scaled ≤ 2 ^ 63 * unit) (hge : -2 ^ 63 * unit ≤ d.scaled) :
    d.isInf = false := by
  rw [Bool.eq_false_iff]
  intro hinf
  rw [isInf, Bool.and_eq_true, beq_iff_eq, beq_iff_eq] at hinf
  have hpow : ∀ {a b c e : ℕ}, a + b = c + e → 2 ^ a * 2 ^ b = 2 ^ c * 2 ^ e := fun h => by
    rw [← Nat.pow_add, ← Nat.pow_add, h]
  have hmag : d.magnitude = 2 ^ 1024 * 2 ^ 1074 := by
    rw [magnitude, hinf.1, if_neg (by decide), hinf.2, Nat.add_zero]
    exact @hpow 52 (2047 - 1) 1024 1074 rfl
  have hbeyond : ∀ {k : ℕ}, 63 < k → (2 ^ 63 : ℤ) * unit < (2 ^ k : ℕ) * unit := fun hk =>
    Int.mul_lt_mul_of_pos_right (mod_cast Nat.pow_lt_pow_right Nat.one_lt_two hk) unit_pos
  have hfar : (2 ^ 63 : ℤ) * unit < (2 ^ 1024 : ℕ) * unit := @hbeyond 1024 (by decide)
  have hunit : ((2 ^ 1024 * 2 ^ 1074 : ℕ) : ℤ) = (2 ^ 1024 : ℕ) * unit := by
    rw [unit_eq, Nat.cast_mul]
  rw [scaled, hmag, hunit] at hle hge
  split_ifs at hle hge
  · rw [Int.neg_mul] at hge
    exact absurd (Int.le_of_neg_le_neg hge) (not_le.mpr hfar)
  · exact absurd hle (not_le.mpr hfar)

/-- **The two decoders refuse the same doubles.** -/
theorem hostRefuses_eq (d : Binary64) : hostRefuses d = arenaRefuses d := by
  cases harena : arenaRefuses d with
  | true =>
    rw [arenaRefuses, Bool.or_eq_true, Bool.or_eq_true] at harena
    rw [hostRefuses]
    obtain (h | h) | h := harena <;> simp [h]
  | false =>
    obtain ⟨-, hle, hge⟩ := arenaRefuses_eq_false_iff.mp harena
    rw [arenaRefuses, Bool.or_eq_false_iff, Bool.or_eq_false_iff] at harena
    rw [hostRefuses, harena.1.1, not_isInf_of_le hle hge, harena.1.2, harena.2]
    rfl

/-- A double that is an integer is the double of it, which it truncates to. -/
theorem truncate_of_integer {n : ℤ} (h : d.scaled = n * unit) :
    d.truncate = n ∧ (n.natAbs < 2 ^ 64 → d.isNaN = false → (ofInt n).eq d = true) := by
  refine ⟨?_, fun hn hnan => eq_iff.mpr ⟨isNaN_ofInt hn, hnan, ?_⟩⟩
  · rw [truncate, h, Int.mul_tdiv_cancel _ unit_pos.ne']
  · rw [scaled_ofInt hn, roundInt_mul_unit_of_eq h]

/-- **What a double is decoded to**, if it is within bounds and not `2⁶³`. -/
theorem decode_double (hnan : d.isNaN = false) (hlt : d.scaled < 2 ^ 63 * unit)
    (hge : -2 ^ 63 * unit ≤ d.scaled) :
    ofDouble d = .ok (Int64.ofInt d.truncate) ∧ (Int64.ofInt d.truncate).toInt = d.truncate ∧
      ((ofInt d.truncate).eq d = true ↔ d.scaled = d.truncate * unit) := by
  have htlt : d.truncate < 2 ^ 63 := truncate_lt (by norm_num) hlt
  have htge : -2 ^ 63 ≤ d.truncate := le_truncate_of_nonpos (by norm_num) hge
  have hsmall : d.truncate.natAbs < 2 ^ 64 := by omega
  refine ⟨?_, Int64.toInt_ofInt_of_le htge htlt, fun heq => ?_, fun h => ?_⟩
  · rw [ofDouble, hnan, decide_eq_true htge, decide_eq_true htlt]
    rfl
  · obtain ⟨-, -, hscaled⟩ := eq_iff.mp heq
    rw [scaled_ofInt hsmall] at hscaled
    rw [(truncate_of_integer hscaled.symm).1, hscaled]
  · exact (truncate_of_integer h).2 hsmall hnan

end Doubles

/-! ## Decoding is exact -/

/-- **What a decoded index has to be**: the integer the value is, if an int64 is, or the error. -/
def DecodesTo (index : CelValue) : Except CelErr Int64 → Prop
  | .ok i => index.IsInteger i.toInt
  | .error e => e = listIndexError index ∧ ∀ n : ℤ, index.IsInteger n → n < -2 ^ 63 ∨ 2 ^ 63 ≤ n

section Decoding

open Binary64

variable {refuses : Binary64 → Bool} {d : Binary64}

/-- A double is one integer at most. -/
theorem CelValue.IsInteger.unique {index : CelValue} {m n : ℤ} (hm : index.IsInteger m)
    (hn : index.IsInteger n) : m = n := by
  cases index with
  | int i => exact hm.symm.trans hn
  | uint u => exact hm.symm.trans hn
  | double d => exact Int.eq_of_mul_eq_mul_right unit_pos.ne' (hm.2.2.symm.trans hn.2.2)
  | _ => exact hm.elim

/-- An int64 out of the list is out of bounds, whatever its kind. -/
theorem listIndexError_of_integer {index : CelValue} {i : Int64} (h : index.IsInteger i.toInt) :
    listIndexError index = .indexOutOfBounds := by
  cases index with
  | double d =>
    obtain ⟨hnan, -, hscaled⟩ := h
    have hunit := unit_pos
    have hle := Int.mul_le_mul_of_nonneg_right i.le_toInt hunit.le
    have hlt := Int.mul_lt_mul_of_pos_right i.toInt_lt hunit
    rw [← hscaled] at hle hlt
    exact if_pos ⟨hnan, Dvd.intro_left _ hscaled.symm, hle, hlt⟩
  | int _ | uint _ => rfl
  | _ => exact h.elim

/-- **A double that is refused** is no int64. -/
theorem decodesTo_of_refused (h : arenaRefuses d = true) :
    DecodesTo (.double d) (.error .invalidArgument) := by
  have hout : d.isNaN = false → ¬ (d.scaled ≤ 2 ^ 63 * unit ∧ -2 ^ 63 * unit ≤ d.scaled) :=
    fun hnan hrange => by
      rw [arenaRefuses_eq_false_iff.mpr ⟨hnan, hrange⟩] at h
      exact nomatch h
  refine ⟨?_, fun n ⟨hnan, _, hscaled⟩ => ?_⟩
  · rw [listIndexError, if_neg]
    exact fun ⟨hnan, _, hge, hlt⟩ => hout hnan ⟨hlt.le, hge⟩
  · by_contra hrange
    rw [not_or, not_lt, not_le] at hrange
    refine hout hnan ⟨?_, ?_⟩ <;> rw [hscaled]
    · exact Int.mul_le_mul_of_nonneg_right hrange.2.le unit_pos.le
    · exact Int.mul_le_mul_of_nonneg_right hrange.1 unit_pos.le

/-- **A double within bounds** is converted and compared. -/
theorem decodesTo_of_converted (hnan : d.isNaN = false) (hlt : d.scaled < 2 ^ 63 * unit)
    (hge : -2 ^ 63 * unit ≤ d.scaled) :
    DecodesTo (.double d) (if !(ofInt (Int64.ofInt d.truncate).toInt).eq d then
      .error .invalidArgument else .ok (Int64.ofInt d.truncate)) := by
  obtain ⟨-, hcast, hsame⟩ := decode_double hnan hlt hge
  rw [hcast]
  cases hint : (ofInt d.truncate).eq d with
  | true =>
    rw [Bool.not_true, if_neg Bool.false_ne_true, DecodesTo, hcast]
    exact ⟨hnan, not_isInf_of_le hlt.le hge, hsame.mp hint⟩
  | false =>
    have hnone : ∀ n : ℤ, d.scaled ≠ n * unit := fun n hn => by
      have htrunc := (truncate_of_integer hn).1
      rw [hsame.mpr (htrunc.symm ▸ hn)] at hint
      exact nomatch hint
    rw [Bool.not_false, if_pos rfl]
    refine ⟨?_, fun n hn => absurd hn.2.2 (hnone n)⟩
    rw [listIndexError, if_neg]
    rintro ⟨-, ⟨n, hn⟩, -⟩
    exact hnone n (hn.trans (Int.mul_comm _ _))

/-- **Decoding is exact** of everything but `2⁶³`. -/
theorem decodeIndexC_of_not_twoPow63 {index : CelValue} (hrefuses : ∀ d, refuses d = arenaRefuses d)
    (hkind : isNumericKind index = true) (h : index.isTwoPow63 = false) :
    ∃ r, decodeIndexC refuses index = .ok r ∧ DecodesTo index r := by
  cases index with
  | int i => exact ⟨_, rfl, rfl⟩
  | uint u =>
    refine ⟨_, rfl, ?_⟩
    split_ifs with hbig
    · refine ⟨rfl, fun n hn => .inr ?_⟩
      rw [← show (u.toNat : ℤ) = n from hn]
      rw [int64Max] at hbig
      omega
    · rw [int64Max] at hbig
      exact (BitVec.toInt_eq_toNat_of_lt (x := u.toBitVec)
        (by change 2 * u.toNat < 2 ^ 64; omega)).symm
  | double d =>
    rw [decodeIndexC, hrefuses]
    cases hr : arenaRefuses d with
    | true => exact ⟨_, rfl, decodesTo_of_refused hr⟩
    | false =>
      obtain ⟨hnan, hle, hge⟩ := arenaRefuses_eq_false_iff.mp hr
      have hlt : d.scaled < 2 ^ 63 * unit := lt_of_le_of_ne hle fun heq => by
        have : d.eq (ofInt (2 ^ 63)) = true :=
          eq_iff.mpr ⟨hnan, isNaN_ofInt (by decide), heq.trans listIndexBounds_scaled.2.2.symm⟩
        rw [CelValue.isTwoPow63, this] at h
        exact nomatch h
      refine ⟨_, ?_, decodesTo_of_converted hnan hlt hge⟩
      rw [if_neg Bool.false_ne_true, (decode_double hnan hlt hge).1]
      rfl
  | _ => exact nomatch hkind

/-- **`2⁶³` is converted**, and its conversion is not defined. -/
theorem decodeIndexC_of_twoPow63 {index : CelValue} (hrefuses : ∀ d, refuses d = arenaRefuses d)
    (h : index.isTwoPow63 = true) : decodeIndexC refuses index = .error .conversion := by
  cases index with
  | double d =>
    obtain ⟨hnan, -, hscaled⟩ := eq_iff.mp h
    rw [listIndexBounds_scaled.2.2] at hscaled
    have hpass : arenaRefuses d = false := arenaRefuses_eq_false_iff.mpr
      ⟨hnan, hscaled.le, hscaled ▸ Int.mul_le_mul_of_nonneg_right (by norm_num) unit_pos.le⟩
    have hcast : ofDouble d = .error .conversion := by
      rw [ofDouble, (truncate_of_integer hscaled).1, hnan]
      rfl
    rw [decodeIndexC, hrefuses, hpass, if_neg Bool.false_ne_true, hcast]
    rfl
  | _ => exact nomatch h

end Decoding

/-! ## Indexing is exact -/

/-- What both kernels do with a decoded index. -/
def selectElement {α : Type} (elements : List α) (deliver : α → Kernel CelValue) :
    Except CelErr Int64 → Kernel CelValue
  | .error e => return .error e
  | .ok i =>
    if i < 0 then return .error .indexOutOfBounds
    else
      match elements[i.toInt.toNat]? with
      | some v => deliver v
      | none => return .error .indexOutOfBounds

section Select

variable {α : Type} {elements : List α} {deliver : α → Kernel CelValue} {index : CelValue}

theorem not_isPoison_of_isNumericKind (hkind : isNumericKind index = true) :
    index.isPoison = false := by
  cases index with
  | error _ | unknown _ => exact nomatch hkind
  | _ => rfl

theorem celListAtArenaC_eq (capacity : ℕ) (elements : List CelValue)
    (hkind : isNumericKind index = true) :
    celListAtArenaC (.listArena capacity elements) index
      = selectElement elements (fun v => return v) <$> decodeListIndexC index := by
  rw [celListAtArenaC, not_isPoison_of_isNumericKind hkind, map_eq_pure_bind]
  refine bind_congr fun r => ?_
  cases r with
  | error e => rfl
  | ok i =>
    simp only [selectElement]
    split_ifs
    · rfl
    · cases elements[i.toInt.toNat]? <;> rfl

theorem celListAtImplC_eq (elements : List HostValue) (hkind : isNumericKind index = true) :
    celListAtImplC (.listHost elements) index
      = selectElement elements encodeValue <$> hostDecodeListIndexC index := by
  rw [celListAtImplC, not_isPoison_of_isNumericKind hkind, map_eq_pure_bind]
  refine bind_congr fun r => ?_
  cases r with
  | error e => rfl
  | ok i =>
    simp only [selectElement]
    split_ifs
    · rfl
    · cases elements[i.toInt.toNat]? <;> rfl

/-- **From a decoded index to the element.** -/
theorem indexesExactly_of_decodesTo {r : Except CelErr Int64} (h : DecodesTo index r)
    (hlen : elements.length < 2 ^ 63) :
    IndexesExactly (.ok (selectElement elements deliver r)) elements deliver index := by
  refine ⟨_, rfl, fun n x hn hx => ?_, fun hout => ?_⟩
  · have hlt : n < elements.length := (List.getElem?_eq_some_iff.mp hx).1
    cases r with
    | error e => obtain hlow | hhigh := h.2 n hn <;> omega
    | ok i =>
      have hi : i.toInt = n := CelValue.IsInteger.unique h hn
      have hsign : ¬ i < 0 := by
        rw [Int64.lt_iff_toInt_lt, hi, Int64.toInt_zero]
        omega
      rw [selectElement, if_neg hsign, hi, Int.toNat_natCast, hx]
  · cases r with
    | error e => rw [selectElement, h.1]
    | ok i =>
      rw [selectElement, listIndexError_of_integer h]
      split_ifs with hneg
      · rfl
      · have hnonneg : (0 : ℤ) ≤ i.toInt := by
          rw [Int64.lt_iff_toInt_lt, Int64.toInt_zero] at hneg
          omega
        have hpast := hout i.toInt.toNat (by rwa [Int.toNat_of_nonneg hnonneg])
        rw [List.getElem?_eq_none hpast]

end Select

/-- **List indexing is exact on either side, except for `2⁶³`**, which both decoders convert. (A list in
the arena has its count in 32 bits, and a backing holds less than `2⁶³` elements.) -/
theorem listIndex_exact_iff (index : CelValue) (hkind : isNumericKind index = true) :
    (∀ (capacity : ℕ) (elements : List CelValue), elements.length < 2 ^ 63 →
      (IndexesExactly (celListAtArenaC (.listArena capacity elements) index) elements
        (fun v => return v) index ↔ index.isTwoPow63 = false)) ∧
    ∀ elements : List HostValue, elements.length < 2 ^ 63 →
      (IndexesExactly (celListAtImplC (.listHost elements) index) elements encodeValue index ↔
        index.isTwoPow63 = false) := by
  have hiff : ∀ {α : Type} (refuses : Binary64 → Bool) (elements : List α)
      (deliver : α → Kernel CelValue), (∀ d, refuses d = arenaRefuses d) →
      elements.length < 2 ^ 63 →
      (IndexesExactly (selectElement elements deliver <$> decodeIndexC refuses index) elements
        deliver index ↔ index.isTwoPow63 = false) := by
    intro α refuses elements deliver hrefuses hlen
    cases htwo : index.isTwoPow63 with
    | true =>
      rw [decodeIndexC_of_twoPow63 hrefuses htwo]
      exact iff_of_false (fun ⟨_, hk, _⟩ => nomatch hk) nofun
    | false =>
      obtain ⟨r, hr, hdecodes⟩ := decodeIndexC_of_not_twoPow63 hrefuses hkind htwo
      rw [hr]
      exact iff_of_true (indexesExactly_of_decodesTo hdecodes hlen) rfl
  refine ⟨fun capacity elements hlen => ?_, fun elements hlen => ?_⟩
  · rw [celListAtArenaC_eq capacity elements hkind]
    exact hiff arenaRefuses elements _ (fun _ => rfl) hlen
  · rw [celListAtImplC_eq elements hkind]
    exact hiff hostRefuses elements _ hostRefuses_eq hlen

/-- The second element by a double, in the arena. -/
theorem listIndex_exact_iff_double :
    IndexesExactly
      (celListAtArenaC (.listArena 2 [.int 5, .int 7]) (.double (Binary64.ofInt 1)))
      [.int 5, .int 7] (fun v => return v) (.double (Binary64.ofInt 1)) ↔
      (CelValue.double (Binary64.ofInt 1)).isTwoPow63 = false :=
  (listIndex_exact_iff (.double (Binary64.ofInt 1)) rfl).1 2 [.int 5, .int 7] (by decide)

/-- `[][dyn(9223372036854775808.0)]`: the conversion is not defined. -/
theorem not_indexesExactly_twoPow63 :
    ¬ IndexesExactly (celListAtArenaC (.listArena 0 []) (.double (Binary64.ofInt (2 ^ 63)))) []
      (fun v => return v) (.double (Binary64.ofInt (2 ^ 63))) := by
  rintro ⟨k, hk, -⟩
  have htwo : (CelValue.double (Binary64.ofInt (2 ^ 63))).isTwoPow63 = true :=
    Binary64.eq_iff.mpr ⟨rfl, rfl, rfl⟩
  rw [celListAtArenaC_eq 0 [] rfl, decodeListIndexC,
    decodeIndexC_of_twoPow63 (fun _ => rfl) htwo] at hk
  exact nomatch hk

end CelWasm
