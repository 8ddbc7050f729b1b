import Mathlib.Data.List.Forall2
import Mathlib.Algebra.Group.Nat.Defs

/-!
# Eval/Attribute — attribute paths, and the patterns that hide them

A partial evaluation is given patterns: a variable and a path of keys and wildcards below it. A
pattern hides an attribute when it is the beginning of the attribute's path. The host asks in two
places — for a variable as a whole before the evaluation, and for a field at the moment it is read.
-/

namespace CelWasm

/-- `Attribute` — a variable and the keys selected from it; a row of `CelHostBindings::attributes`
holds the same. -/
structure Attribute where
  variableName : String
  qualifierPath : List String
  deriving DecidableEq, Repr

/-- `AttributeQualifierPattern` — one key, or any. -/
inductive AttributeQualifierPattern
  | wildcard
  | ofString (value : String)
  deriving DecidableEq, Repr

/-- `AttributePattern`. -/
structure AttributePattern where
  variableName : String
  qualifierPath : List AttributeQualifierPattern
  deriving DecidableEq, Repr

/-- `AttributePattern::MatchType`. -/
inductive MatchType
  | kNone
  | kPartial
  | kFull
  deriving DecidableEq, Repr

/-- `AttributeQualifierPattern::IsMatch`. -/
def AttributeQualifierPattern.isMatch : AttributeQualifierPattern → String → Bool
  | wildcard, _ => true
  | ofString value, key => value == key

/-- **`AttributePattern::IsMatch`** — position by position, as far as the shorter path goes. -/
def AttributePattern.isMatch (pattern : AttributePattern) (attr : Attribute) : MatchType :=
  if attr.variableName ≠ pattern.variableName then .kNone
  else if !(pattern.qualifierPath.zip attr.qualifierPath).all fun (q, key) => q.isMatch key then
    .kNone
  else if pattern.qualifierPath.length > attr.qualifierPath.length then .kPartial
  else .kFull

/-! ## What a pattern hides -/

/-- **A pattern hides an attribute** — its path is the beginning of the attribute's. -/
def AttributePattern.Hides (pattern : AttributePattern) (attr : Attribute) : Prop :=
  attr.variableName = pattern.variableName ∧
    ∃ above below, attr.qualifierPath = above ++ below ∧
      List.Forall₂ (fun q key => q.isMatch key = true) pattern.qualifierPath above

/-- A path is the beginning of another exactly when it is no longer and agrees position by
position. -/
theorem exists_forall₂_append_iff {α β : Type} {R : α → β → Bool} :
    ∀ {as : List α} {bs : List β},
      (∃ above below, bs = above ++ below ∧ List.Forall₂ (fun a b => R a b = true) as above) ↔
        (as.zip bs).all (fun (a, b) => R a b) = true ∧ as.length ≤ bs.length
  | [], bs => by simp
  | a :: as, [] => by
    refine iff_of_false ?_ (by simp)
    rintro ⟨above, below, happend, hall⟩
    obtain ⟨rfl, -⟩ := List.append_eq_nil_iff.mp happend.symm
    exact nomatch hall
  | a :: as, b :: bs => by
    have ih := @exists_forall₂_append_iff α β R as bs
    constructor
    · rintro ⟨above, below, happend, hall⟩
      obtain _ | ⟨hab, hrest⟩ := hall
      obtain ⟨rfl, rfl⟩ := List.cons.inj happend
      obtain ⟨hzip, hle⟩ := ih.mp ⟨_, below, rfl, hrest⟩
      exact ⟨by simpa [hab] using hzip, by simpa using hle⟩
    · rintro ⟨hzip, hle⟩
      simp only [List.zip_cons_cons, List.all_cons, Bool.and_eq_true] at hzip
      obtain ⟨above, below, rfl, hrest⟩ := ih.mpr ⟨hzip.2, by simpa using hle⟩
      exact ⟨b :: above, below, rfl, .cons hzip.1 hrest⟩

/-- **A full match is a pattern that hides the attribute.** -/
theorem AttributePattern.isMatch_eq_kFull_iff {pattern : AttributePattern} {attr : Attribute} :
    pattern.isMatch attr = .kFull ↔ pattern.Hides attr := by
  rw [Hides, exists_forall₂_append_iff, isMatch]
  by_cases hname : attr.variableName = pattern.variableName
  · cases hall : (pattern.qualifierPath.zip attr.qualifierPath).all fun (q, key) =>
      q.isMatch key <;> simp [hname]
  · simp [hname]

/-- What hides an attribute hides what is below it. -/
theorem AttributePattern.Hides.below {pattern : AttributePattern} {attr : Attribute}
    (h : pattern.Hides attr) (path : List String) :
    pattern.Hides { attr with qualifierPath := attr.qualifierPath ++ path } := by
  obtain ⟨hname, above, below, happend, hall⟩ := h
  exact ⟨hname, above, below ++ path, by rw [happend, List.append_assoc], hall⟩

/-! ## Where the host asks -/

section Queries

variable (attributes : List Attribute) (unknownPatterns : List AttributePattern)

/-- `ResolveAttribute`; row 0 stands for no attribute. -/
def resolveAttribute (attributeId : ℕ) : Option Attribute :=
  if attributeId = 0 then none else attributes[attributeId]?

/-- `EffectiveSelectAttribute`. -/
def effectiveSelectAttribute (operand : Attribute) (fieldName : String) : Attribute :=
  { operand with qualifierPath := operand.qualifierPath ++ [fieldName] }

/-- **`MatchesAnyUnknownPattern`** — a field is about to be read. -/
def matchesAnyUnknownPattern (attributeId : ℕ) (fieldName : String) : Bool :=
  match resolveAttribute attributes attributeId with
  | none => false
  | some attr =>
    unknownPatterns.any fun pattern =>
      pattern.isMatch (effectiveSelectAttribute attr fieldName) == .kFull

/-- **`BareVariableUnknownId`** — a variable is about to be bound; the id is that of its row, or 0. -/
def bareVariableUnknownId (name : String) : Option ℕ :=
  if unknownPatterns.any fun pattern => pattern.isMatch ⟨name, []⟩ == .kFull then
    let row := attributes.findIdx? fun a => a.qualifierPath.isEmpty && a.variableName == name
    some (row.getD 0 % 2 ^ 32)
  else none

variable {attributes unknownPatterns}

theorem bareVariableUnknownId_lt {name : String} {id : ℕ}
    (h : bareVariableUnknownId attributes unknownPatterns name = some id) : id < 2 ^ 32 := by
  unfold bareVariableUnknownId at h
  split at h
  · obtain rfl := Option.some.inj h
    exact Nat.mod_lt _ (by decide)
  · exact nomatch h

end Queries

end CelWasm
