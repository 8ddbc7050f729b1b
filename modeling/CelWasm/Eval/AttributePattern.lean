import CelWasm.Eval.PatternParser

/-!
# Eval/AttributePattern — what a pattern that is read from a text matches

A match has three outcomes, by which of the two paths is the beginning of the other. The text of an
attribute is its variable and its keys with dots between them, and as a pattern it is read back as
what hides the attribute and all below it — if the variable is an identifier, as its keys are.
-/

namespace CelWasm

/-! ## The text of an attribute -/

/-- A byte that `AsCanonicalString` refuses. `char` is signed, so that bytes past ASCII are below the
space too. -/
def unrenderable (c : Char) : Bool := c.toNat < 0x20 || 0x80 ≤ c.toNat || c == '"'

/-- `AttributeQualifier::AsCanonicalString`. -/
def asCanonicalString (value : String) : Except String String :=
  if value.toList.any unrenderable then
    .error ("AttributeQualifier::AsCanonicalString: string contains unprintable or quote " ++
      "characters")
  else .ok ("[\"" ++ value ++ "\"]")

/-- **`Attribute::AsString`**. -/
def Attribute.asString (attr : Attribute) : Except String String := do
  let pieces ← attr.qualifierPath.mapM fun value => do
    let _ ← asCanonicalString value
    return "." ++ value
  return String.join (attr.variableName :: pieces)

theorem isIdentCont_of_isIdentStart {c : Char} (h : isIdentStart c = true) : isIdentCont c = true := by
  simp only [isIdentStart, isIdentCont, Char.isAlphanum, Bool.or_eq_true] at h ⊢
  exact h.imp .inl id

/-- Identifiers can be rendered. -/
theorem unrenderable_of_isIdentCont {c : Char} (h : isIdentCont c = true) :
    unrenderable c = false := by
  have hrange : 0x20 ≤ c.toNat ∧ c.toNat < 0x80 ∧ c ≠ '"' := by
    rcases toNat_of_isIdentCont h with h | rfl
    · exact ⟨by omega, by omega, by rintro rfl; revert h; decide⟩
    · decide
  simp only [unrenderable, Bool.or_eq_false_iff, decide_eq_false_iff_not, beq_eq_false_iff_ne]
  exact ⟨⟨not_lt.mpr hrange.1, not_le.mpr hrange.2.1⟩, hrange.2.2⟩

/-- Identifiers are rendered as they are. -/
theorem asCanonicalString_of_identifiers {value : String} (h : value.toList ∈ identifiers) :
    asCanonicalString value = .ok ("[\"" ++ value ++ "\"]") := by
  obtain ⟨c, rest, hvalue, hstart, hrest⟩ := h
  refine if_neg fun hany => ?_
  obtain ⟨d, hd, hbad⟩ := List.any_eq_true.mp hany
  rw [hvalue] at hd
  have hcont : isIdentCont d = true := by
    obtain rfl | hd := List.mem_cons.mp hd
    · exact isIdentCont_of_isIdentStart hstart
    · exact hrest d hd
  exact Bool.noConfusion ((unrenderable_of_isIdentCont hcont).symm.trans hbad)

/-- **The text of an attribute whose keys are identifiers**: its variable, and its keys behind
dots. -/
theorem Attribute.asString_of_identifiers {attr : Attribute}
    (h : ∀ value ∈ attr.qualifierPath, value.toList ∈ identifiers) :
    ∃ text, attr.asString = .ok text ∧
      text.toList = attr.variableName.toList
        ++ qualifierChars (attr.qualifierPath.map .ofString) := by
  have hpieces : ∀ path : List String, (∀ value ∈ path, value.toList ∈ identifiers) →
      path.mapM (fun value => do
        let _ ← asCanonicalString value
        return "." ++ value) = Except.ok (path.map ("." ++ ·)) := by
    intro path hpath
    induction path with
    | nil => rfl
    | cons value path ih =>
      rw [List.mapM_cons, ih fun v hv => hpath v (List.mem_cons_of_mem _ hv),
        asCanonicalString_of_identifiers (hpath value List.mem_cons_self)]
      rfl
  refine ⟨_, by rw [asString, hpieces _ h]; rfl, ?_⟩
  rw [String.toList_join, List.flatMap_cons, qualifierChars, List.flatMap_map, List.flatMap_map]
  simp [AttributeQualifierPattern.chars]

/-! ## What a pattern says of an attribute -/

/-- **A pattern goes below an attribute**: the attribute's path is a proper beginning of the
pattern's. -/
def AttributePattern.Below (pattern : AttributePattern) (attr : Attribute) : Prop :=
  attr.variableName = pattern.variableName ∧
    ∃ above below, pattern.qualifierPath = above ++ below ∧ below ≠ [] ∧
      List.Forall₂ (fun q key => q.isMatch key = true) above attr.qualifierPath

/-- A path is a proper beginning of another exactly when it is shorter and agrees position by
position. -/
theorem exists_forall₂_append_ne_nil_iff {α β : Type} {R : α → β → Bool} {as : List α}
    {bs : List β} :
    (∃ above below, as = above ++ below ∧ below ≠ [] ∧
        List.Forall₂ (fun a b => R a b = true) above bs) ↔
      (as.zip bs).all (fun (a, b) => R a b) = true ∧ bs.length < as.length := by
  induction bs generalizing as with
  | nil =>
    constructor
    · rintro ⟨above, below, rfl, hbelow, hall⟩
      obtain rfl := List.forall₂_nil_right_iff.mp hall
      simpa using List.length_pos_iff.mpr hbelow
    · rintro ⟨-, hlt⟩
      exact ⟨[], as, rfl, List.length_pos_iff.mp hlt, .nil⟩
  | cons b bs ih =>
    cases as with
    | nil =>
      refine iff_of_false ?_ (by simp)
      rintro ⟨above, below, happend, hbelow, -⟩
      exact hbelow (List.append_eq_nil_iff.mp happend.symm).2
    | cons a as =>
      constructor
      · rintro ⟨above, below, happend, hbelow, hall⟩
        obtain _ | ⟨hab, hrest⟩ := hall
        obtain ⟨rfl, rfl⟩ := List.cons.inj happend
        obtain ⟨hzip, hlt⟩ := ih.mp ⟨_, below, rfl, hbelow, hrest⟩
        exact ⟨by simpa [hab] using hzip, by simpa using hlt⟩
      · rintro ⟨hzip, hlt⟩
        simp only [List.zip_cons_cons, List.all_cons, Bool.and_eq_true] at hzip
        obtain ⟨above, below, rfl, hbelow, hrest⟩ := ih.mpr ⟨hzip.2, by simpa using hlt⟩
        exact ⟨a :: above, below, rfl, hbelow, .cons hzip.1 hrest⟩

/-- **A partial match is a pattern that goes below the attribute.** -/
theorem AttributePattern.isMatch_eq_kPartial_iff {pattern : AttributePattern} {attr : Attribute} :
    pattern.isMatch attr = .kPartial ↔ pattern.Below attr := by
  rw [Below, exists_forall₂_append_ne_nil_iff, isMatch]
  by_cases hname : attr.variableName = pattern.variableName
  · rw [if_neg (not_not.mpr hname), and_iff_right hname]
    split_ifs with hall hlong <;> simp_all
  · simp [hname]

/-- The third outcome is the one that is left. -/
theorem AttributePattern.isMatch_eq_kNone_iff {pattern : AttributePattern} {attr : Attribute} :
    pattern.isMatch attr = .kNone ↔ ¬pattern.Hides attr ∧ ¬pattern.Below attr := by
  rw [← isMatch_eq_kFull_iff, ← isMatch_eq_kPartial_iff]
  cases pattern.isMatch attr <;> simp

/-- **A pattern without wildcards hides the attribute it is the text of, and its extensions.** -/
theorem AttributePattern.hides_ofString_iff {variableName : String} {path : List String}
    {other : Attribute} :
    AttributePattern.Hides ⟨variableName, path.map .ofString⟩ other
      ↔ other.variableName = variableName ∧ path <+: other.qualifierPath := by
  have hmatch : ∀ above : List String, List.Forall₂ (fun q key =>
      AttributeQualifierPattern.isMatch q key = true) (path.map .ofString) above ↔ path = above := by
    intro above
    rw [List.forall₂_map_left_iff, ← List.forall₂_eq_eq_eq]
    exact iff_of_eq (congrArg (fun R => List.Forall₂ R path above)
      (funext₂ fun value key => propext beq_iff_eq))
  refine and_congr_right fun _ => ⟨?_, ?_⟩
  · rintro ⟨above, below, happend, hall⟩
    exact ⟨below, by rw [happend, (hmatch above).mp hall]⟩
  · rintro ⟨below, happend⟩
    exact ⟨path, below, happend.symm, (hmatch path).mpr rfl⟩

/-! ## A text that is read back -/

/-- What the text of an attribute is read as. -/
theorem AttributePattern.parse_asString {attr : Attribute} {text : String}
    (hkeys : ∀ value ∈ attr.qualifierPath, value.toList ∈ identifiers)
    (htext : attr.asString = .ok text) (hvariable : attr.variableName.toList ∈ identifiers) :
    AttributePattern.parse text
      = .ok ⟨attr.variableName, attr.qualifierPath.map .ofString⟩ := by
  obtain ⟨text', htext', hchars⟩ := Attribute.asString_of_identifiers hkeys
  obtain rfl := Except.ok.inj (htext.symm.trans htext')
  refine parse_complete ⟨hvariable, fun q hq => ?_⟩ hchars.symm
  obtain ⟨value, hvalue, rfl⟩ := List.mem_map.mp hq
  exact hkeys value hvalue

/-- **Patterns match by prefix.** The parser takes the texts of the grammar; a match is full,
partial or none by which path is the beginning of which; and the text of an attribute, whose keys are
identifiers, is read back as what matches it and its extensions exactly when its variable is an
identifier too. -/
theorem patterns_matchByPrefix :
    (∀ dotted, (∃ pattern, AttributePattern.parse dotted = .ok pattern)
      ↔ dotted.toList ∈ patternTexts) ∧
    (∀ (pattern : AttributePattern) (attr : Attribute),
      (pattern.isMatch attr = .kFull ↔ pattern.Hides attr) ∧
      (pattern.isMatch attr = .kPartial ↔ pattern.Below attr) ∧
      (pattern.isMatch attr = .kNone ↔ ¬pattern.Hides attr ∧ ¬pattern.Below attr)) ∧
    ∀ attr : Attribute, (∀ value ∈ attr.qualifierPath, value.toList ∈ identifiers) →
      ∃ text, attr.asString = .ok text ∧
        (attr.variableName.toList ∈ identifiers ↔
          ∃ pattern, AttributePattern.parse text = .ok pattern ∧
            ∀ other, pattern.isMatch other = .kFull ↔
              other.variableName = attr.variableName ∧
                attr.qualifierPath <+: other.qualifierPath) := by
  refine ⟨fun dotted => ?_, fun pattern attr => ⟨AttributePattern.isMatch_eq_kFull_iff,
    AttributePattern.isMatch_eq_kPartial_iff, AttributePattern.isMatch_eq_kNone_iff⟩,
    fun attr hkeys => ?_⟩
  · rw [mem_patternTexts_iff]
    exact exists_congr fun pattern => AttributePattern.parse_eq_ok_iff
  · obtain ⟨text, htext, -⟩ := Attribute.asString_of_identifiers hkeys
    refine ⟨text, htext, fun hvariable => ?_, ?_⟩
    · refine ⟨_, AttributePattern.parse_asString hkeys htext hvariable, fun other => ?_⟩
      rw [AttributePattern.isMatch_eq_kFull_iff, AttributePattern.hides_ofString_iff]
    · rintro ⟨pattern, hparse, hfull⟩
      have hself := (hfull attr).mpr ⟨rfl, List.prefix_rfl⟩
      rw [(AttributePattern.isMatch_eq_kFull_iff.mp hself).1]
      exact (AttributePattern.parse_sound hparse).1.1

/-- The text of an attribute with a key is read as a pattern that hides what is below the attribute,
and not the variable. -/
theorem patterns_matchByPrefix_request :
    let x := String.ofList ['x']
    let y := String.ofList ['y']
    ∃ text pattern, Attribute.asString ⟨x, [y]⟩ = .ok text ∧
      AttributePattern.parse text = .ok pattern ∧ pattern.isMatch ⟨x, [y, "z"]⟩ = .kFull ∧
      pattern.isMatch ⟨x, []⟩ ≠ .kFull := by
  intro x y
  have hletter : ∀ c, isIdentStart c = true → (String.ofList [c]).toList ∈ identifiers :=
    fun c hc => ⟨c, [], String.toList_ofList, hc, fun _ h => absurd h List.not_mem_nil⟩
  obtain ⟨text, htext, hiff⟩ := patterns_matchByPrefix.2.2 ⟨x, [y]⟩
    (List.forall_mem_singleton.mpr (hletter 'y' (by decide)))
  obtain ⟨pattern, hparse, hfull⟩ := hiff.mp (hletter 'x' (by decide))
  refine ⟨text, pattern, htext, hparse, (hfull _).mpr ⟨rfl, ["z"], rfl⟩, fun h => ?_⟩
  exact List.cons_ne_nil _ _ (List.prefix_nil.mp ((hfull _).mp h).2)

/-- **The text of a variable with a dot** is read as a variable and a key, and that does not match
the variable. -/
theorem patterns_dottedVariable :
    Attribute.asString ⟨String.ofList ['a', '.', 'b'], []⟩ = .ok (String.ofList ['a', '.', 'b']) ∧
      ∃ pattern, AttributePattern.parse (String.ofList ['a', '.', 'b']) = .ok pattern ∧
        pattern.isMatch ⟨String.ofList ['a', '.', 'b'], []⟩ = .kNone := by
  have hletter : ∀ c, isIdentStart c = true → (String.ofList [c]).toList ∈ identifiers :=
    fun c hc => ⟨c, [], String.toList_ofList, hc, fun _ h => absurd h List.not_mem_nil⟩
  refine ⟨congrArg Except.ok ?_, ⟨String.ofList ['a'], [.ofString (String.ofList ['b'])]⟩,
    AttributePattern.parse_complete ⟨hletter 'a' (by decide), fun q hq => ?_⟩ ?_, if_pos ?_⟩
  · exact String.toList_inj.mp (by rw [String.toList_join]; simp)
  · rw [List.mem_singleton.mp hq]
    exact hletter 'b' (by decide)
  · simp [AttributePattern.chars, qualifierChars, AttributeQualifierPattern.chars]
  · exact fun h => absurd (String.ofList_injective h) (by decide)

end CelWasm
