import CelWasm.Compiler.IdentRewrite
import CelWasm.Eval.TypeOf
import CelWasm.Runtime.Dispatch

/-!
# Compiler/TypeIdents — type names as constants

A type name that stands alone (`int`, `google.protobuf.Timestamp`) is an identifier whose type is
`type(T)`. No variable of that name is bound at run time, so after the check each is replaced by the
constant that carries the name of the type. The pass goes by the type of the identifier alone: it
takes a variable of a loop or of a `cel.bind` for a type name where the checker knows what type it
holds, and it gives the name of a wrapper, or of `Any`, where the values are of several types at run
time.
-/

namespace CelWasm

/-! ## The pass -/

/-- `Reference`: what the checker resolved an identifier to; an enum value comes with its number. -/
structure Reference where
  name : String
  value : Option Constant

/-- `reference_map`. -/
abbrev ReferenceMap := ℤ → Option Reference

/-- `PrimitiveTypeName`; it aborts on a type the checker does not emit. -/
def PrimitiveType.typeName : PrimitiveType → Outcome (Option String)
  | bool => .ok (some "bool")
  | int64 => .ok (some "int")
  | uint64 => .ok (some "uint")
  | double => .ok (some "double")
  | string => .ok (some "string")
  | bytes => .ok (some "bytes")
  | unspecified => .error .abort

/-- `WrapperTypeName`. -/
def PrimitiveType.wrapperTypeName : PrimitiveType → Outcome (Option String)
  | bool => .ok (some "google.protobuf.BoolValue")
  | int64 => .ok (some "google.protobuf.Int64Value")
  | uint64 => .ok (some "google.protobuf.UInt64Value")
  | double => .ok (some "google.protobuf.DoubleValue")
  | string => .ok (some "google.protobuf.StringValue")
  | bytes => .ok (some "google.protobuf.BytesValue")
  | unspecified => .error .abort

/-- `WellKnownTypeName`. -/
def WellKnownTypeSpec.typeName : WellKnownTypeSpec → Outcome (Option String)
  | any => .ok (some "google.protobuf.Any")
  | timestamp => .ok (some "google.protobuf.Timestamp")
  | duration => .ok (some "google.protobuf.Duration")
  | unspecified => .error .abort

/-- **`SpecTypeName`**. -/
def specTypeName : TypeSpec → Outcome (Option String)
  | .primitive p => p.typeName
  | .wrapper p => p.wrapperTypeName
  | .wellKnown w => w.typeName
  | .null => .ok (some "null_type")
  | .message fqn => .ok (some fqn)
  | .list _ => .ok (some "list")
  | .map _ _ => .ok (some "map")
  | .type _ => .ok (some "type")
  | .param _ => .ok (some "type")
  | .abstract name _ => .ok (some name)
  | .function | .error | .dyn | .unset => .ok none

section Pass

variable (refs : ReferenceMap) (types : TypeMap)

/-- **`MaybeRewriteTypeIdent`** of an identifier. -/
def maybeRewriteTypeIdent (id : ℤ) (name : String) : Outcome (Expr ℤ) :=
  match refs id, types id with
  | some ref, some (.type inner) =>
    if ref.value.isSome then .ok (.ident id name)
    else do
      match ← specTypeName inner with
      | some typeName => return .const id (.string (utf8 typeName))
      | none => return .ident id name
  | _, _ => .ok (.ident id name)

/-- **`InlineTypeIdentifierReferences`**. -/
def inlineTypeIdentifierReferences : Expr ℤ → Outcome (Expr ℤ) :=
  visitIdents (maybeRewriteTypeIdent refs types)

end Pass

/-! ## What the names stand for -/

/-- The wrappers that the checker takes for the wrapper of a type. -/
def PrimitiveType.wrapperNames : PrimitiveType → List String
  | bool => ["google.protobuf.BoolValue"]
  | int64 => ["google.protobuf.Int64Value", "google.protobuf.Int32Value"]
  | uint64 => ["google.protobuf.UInt64Value", "google.protobuf.UInt32Value"]
  | double => ["google.protobuf.DoubleValue", "google.protobuf.FloatValue"]
  | string => ["google.protobuf.StringValue"]
  | bytes => ["google.protobuf.BytesValue"]
  | unspecified => []

/-- A value of a primitive type. -/
def PrimitiveType.Holds : PrimitiveType → CelValue → Prop
  | bool, v => ∃ b, v = .bool b
  | int64, v => ∃ i, v = .int i
  | uint64, v => ∃ u, v = .uint u
  | double, v => ∃ d, v = .double d
  | string, v => ∃ s, v = .string s
  | bytes, v => ∃ s, v = .bytes s
  | unspecified, _ => False

/-- A message of a full name. -/
def IsMessage (fullName : ℕ → Option String) (fqn : String) (v : CelValue) : Prop :=
  ∃ slot, v = .message slot ∧ fullName slot = some fqn

/-- **A value of a type at run time**, where `fullName` gives the full names of the messages. A wrapper
is unwrapped where it is read from a field, put in an expression or bound to a variable of its own, and
a field that is not set is null; an element of a list the host made stays the message it is. An `Any` is
unpacked, so that its values are of every kind. -/
def TypeSpec.Holds (fullName : ℕ → Option String) : TypeSpec → CelValue → Prop
  | .null, v => v = .null
  | .primitive p, v => p.Holds v
  | .wrapper .unspecified, _ => False
  | .wrapper p, v => v = .null ∨ p.Holds v ∨ ∃ fqn ∈ p.wrapperNames, IsMessage fullName fqn v
  | .wellKnown .any, _ => True
  | .wellKnown .timestamp, v =>
    (∃ t, v = .timestamp t) ∨ IsMessage fullName "google.protobuf.Timestamp" v
  | .wellKnown .duration, v =>
    (∃ d, v = .duration d) ∨ IsMessage fullName "google.protobuf.Duration" v
  | .list _, v => isListShaped v = true
  | .map _ _, v => isMapShaped v = true
  | .message fqn, v => IsMessage fullName fqn v
  | .type _, v => ∃ name, v = .type name
  | .param _, v => ∃ name, v = .type name
  | .abstract name _, v =>
    (name = "optional_type" ∧ ∃ held, v = .optional held) ∨
      (name = "net.IP" ∧ ∃ address, v = .ip address) ∨
      (name = "net.CIDR" ∧ ∃ block, v = .cidr block)
  | .dyn, _ => True
  | .wellKnown .unspecified, _ | .function, _ | .error, _ | .unset, _ => False

/-- **A type whose values are of several types at run time.** -/
def TypeSpec.Mixed : TypeSpec → Prop
  | .wrapper _ | .wellKnown .any => True
  | _ => False

/-- **The name of a type at run time**: what `type(e)` is for every value `e` of the type. -/
def TypeSpec.NamedAtRunTime (type : TypeSpec) (name : List UInt8) : Prop :=
  (∃ fullName v, type.Holds fullName v) ∧ ∀ fullName v, type.Holds fullName v →
    (celTypeOf fullName v).granted = .ok (.type name)

/-- What a global name stands for: a declared variable, an enum value, or a type. -/
inductive GlobalDecl
  | declared
  | constant (value : Constant)
  | typeName (type : TypeSpec)

/-- `Reference::value`. -/
def GlobalDecl.value : GlobalDecl → Option Constant
  | constant value => some value
  | declared | typeName _ => none

/-- **The global names of a checker.** A type that has a name has values. -/
structure CheckerEnv where
  globals : String → Option GlobalDecl
  hasValues : ∀ name type, globals name = some (.typeName type) →
    ∃ fullName v, type.Holds fullName v

/-- What an identifier stands for: a variable of a comprehension or a global name. -/
inductive Denotation
  | comprehension
  | global (decl : GlobalDecl)

/-- The constant that comes with the reference. -/
def Denotation.value : Denotation → Option Constant
  | comprehension => none
  | global decl => decl.value

/-- **A variable**, of a comprehension or declared. A `cel.bind` is a comprehension. -/
def Denotation.IsVariable : Denotation → Prop
  | comprehension | global .declared => True
  | global (.constant _) | global (.typeName _) => False

section Sound

variable (env : CheckerEnv) (refs : ReferenceMap) (types : TypeMap)

/-- What an identifier stands for where `scope` are the names of the comprehensions around it. -/
def CheckerEnv.denotes (scope : List String) (name : String) : Option Denotation :=
  match leadingDot name with
  | some global => (env.globals global).map .global
  | none => if name ∈ scope then some .comprehension else (env.globals name).map .global

/-- **What the checker records** for an identifier: what it refers to, and its type. -/
def IdentChecked (scope : List String) (id : ℤ) (name : String) : Prop :=
  ∃ d ref spec, env.denotes scope name = some d ∧ refs id = some ref ∧ ref.value = d.value ∧
    types id = some spec ∧ ∀ type, d = .global (.typeName type) → spec = .type type

/-- **What the pass may make of an identifier**: itself, or where it is the name of a type the
constant whose value is that type's name at run time. -/
def TypeNameInlined (scope : List String) (id : ℤ) (name : String) (e' : Expr ℤ) : Prop :=
  e' = .ident id name ∨ ∃ type typeName c,
    env.denotes scope name = some (.global (.typeName type)) ∧ type.NamedAtRunTime typeName ∧
      e' = .const id c ∧ constValue (nodeRepr types id) c = .type typeName

theorem globals_of_map {env : CheckerEnv} {name : String} {decl : GlobalDecl}
    (h : (env.globals name).map Denotation.global = some (.global decl)) :
    env.globals name = some decl := by
  obtain ⟨decl', hdecl, heq⟩ := Option.map_eq_some_iff.mp h
  exact Denotation.global.inj heq ▸ hdecl

theorem CheckerEnv.hasValues_of_denotes {env : CheckerEnv} {scope : List String} {name : String}
    {type : TypeSpec} (h : env.denotes scope name = some (.global (.typeName type))) :
    ∃ fullName v, type.Holds fullName v := by
  unfold CheckerEnv.denotes at h
  split at h
  · exact env.hasValues _ type (globals_of_map h)
  · split at h
    · exact nomatch h
    · exact env.hasValues _ type (globals_of_map h)

/-- The names of types stand for their values. -/
def CheckerEnv.TypeNamesMean {V : Type} (S : Interpretation V) (globals : String → V) : Prop :=
  ∀ name type typeName, env.globals name = some (.typeName type) →
    type.NamedAtRunTime typeName → globals name = S.value (.type typeName)

/-- **The pass is sound on an expression**: it succeeds, what it replaces are names of types, by
what they are at run time, and the meaning stays what it was. -/
def InlinesSoundly (e : Expr ℤ) : Prop :=
  Yields (fun e' => Replaced (TypeNameInlined env types) [] e e' ∧
      ∀ (V : Type) (S : Interpretation V) (globals : String → V), env.TypeNamesMean S globals →
        meaning types S globals [] e' = meaning types S globals [] e)
    (inlineTypeIdentifierReferences refs types e)

/-- A type that has no name of its own. -/
def TypeSpec.Nameless : TypeSpec → Prop
  | .dyn | .error | .function | .unset => True
  | _ => False

/-- A variable that holds a type holds one the checker cannot name. -/
def HoldsNamelessType (scope : List String) (id : ℤ) (name : String) : Prop :=
  ∀ d inner, env.denotes scope name = some d → d.IsVariable → types id = some (.type inner) →
    inner.Nameless

/-- The name of a type is not that of one whose values are of several. -/
def NamesUnmixedType (scope : List String) (name : String) : Prop :=
  ∀ type, env.denotes scope name = some (.global (.typeName type)) → ¬type.Mixed

/-- **An identifier that the pass may meet**: no variable that holds a type with a name, and no name of
a wrapper or of `Any`. -/
def InlinableIdent (scope : List String) (id : ℤ) (name : String) : Prop :=
  HoldsNamelessType env types scope id name ∧ NamesUnmixedType env scope name

end Sound

/-! ## Soundness -/

theorem specTypeName_eq_none_iff {type : TypeSpec} :
    specTypeName type = .ok none ↔ type.Nameless := by
  cases type with
  | primitive p => exact iff_of_false (by cases p <;> exact nofun) nofun
  | wrapper p => exact iff_of_false (by cases p <;> exact nofun) nofun
  | wellKnown w => exact iff_of_false (by cases w <;> exact nofun) nofun
  | unset => exact iff_of_true rfl trivial
  | dyn => exact iff_of_true rfl trivial
  | function => exact iff_of_true rfl trivial
  | error => exact iff_of_true rfl trivial
  | _ => exact iff_of_false nofun nofun

/-- A value of a primitive type has a kind of that name. -/
theorem PrimitiveType.primitiveKindName_of_holds {p : PrimitiveType} {v : CelValue} {name : String}
    (hname : p.typeName = .ok (some name)) (hv : p.Holds v) : primitiveKindName v = some name := by
  cases p with
  | unspecified => exact hv.elim
  | bool => obtain ⟨b, rfl⟩ := hv; exact Except.ok.inj hname
  | int64 => obtain ⟨i, rfl⟩ := hv; exact Except.ok.inj hname
  | uint64 => obtain ⟨u, rfl⟩ := hv; exact Except.ok.inj hname
  | double => obtain ⟨d, rfl⟩ := hv; exact Except.ok.inj hname
  | string => obtain ⟨s, rfl⟩ := hv; exact Except.ok.inj hname
  | bytes => obtain ⟨s, rfl⟩ := hv; exact Except.ok.inj hname

/-- The type of a message is its full name. -/
theorem IsMessage.granted_celTypeOf {fullName : ℕ → Option String} {fqn : String} {v : CelValue}
    (h : IsMessage fullName fqn v) : (celTypeOf fullName v).granted = .ok (.type (utf8 fqn)) := by
  obtain ⟨slot, rfl, hslot⟩ := h
  exact granted_celTypeOf_message hslot

/-- **`SpecTypeName` is the name at run time**: what `type(e)` is for a value `e` of the type, where
the values are of one type. -/
theorem granted_celTypeOf {fullName : ℕ → Option String} {type : TypeSpec} {v : CelValue}
    {name : String} (hmixed : ¬type.Mixed) (hname : specTypeName type = .ok (some name))
    (hv : type.Holds fullName v) : (celTypeOf fullName v).granted = .ok (.type (utf8 name)) := by
  have hkind : ∀ {kind : String} {v}, .ok (some kind) = (.ok (some name) : Outcome _) →
      primitiveKindName v = some kind → (celTypeOf fullName v).granted = .ok (.type (utf8 name)) :=
    fun heq h => granted_celTypeOf_of_kind (h.trans (Except.ok.inj heq))
  have hmessage : ∀ {fqn : String} {v}, .ok (some fqn) = (.ok (some name) : Outcome _) →
      IsMessage fullName fqn v → (celTypeOf fullName v).granted = .ok (.type (utf8 name)) :=
    fun heq h => Option.some.inj (Except.ok.inj heq) ▸ h.granted_celTypeOf
  cases type with
  | null => exact hkind hname (hv ▸ rfl)
  | primitive p => exact granted_celTypeOf_of_kind (p.primitiveKindName_of_holds hname hv)
  | wrapper p => exact absurd trivial hmixed
  | wellKnown w =>
    cases w with
    | unspecified => exact hv.elim
    | any => exact absurd trivial hmixed
    | timestamp =>
      obtain ⟨t, rfl⟩ | hv := hv
      · exact hkind hname rfl
      · exact hmessage hname hv
    | duration =>
      obtain ⟨d, rfl⟩ | hv := hv
      · exact hkind hname rfl
      · exact hmessage hname hv
  | list elem =>
    obtain ⟨capacity, elements, rfl⟩ | ⟨elements, rfl⟩ := isListShaped_iff.mp hv
    · exact hkind hname rfl
    · exact hkind hname rfl
  | map key value =>
    obtain ⟨capacity, entries, index, rfl⟩ | ⟨entries, rfl⟩ := isMapShaped_iff.mp hv
    · exact hkind hname rfl
    · exact hkind hname rfl
  | message fqn => exact hmessage hname hv
  | type inner => obtain ⟨t, rfl⟩ := hv; exact hkind hname rfl
  | param t => obtain ⟨t, rfl⟩ := hv; exact hkind hname rfl
  | abstract opaqueName parameters =>
    obtain ⟨rfl, held, rfl⟩ | ⟨rfl, address, rfl⟩ | ⟨rfl, block, rfl⟩ := hv
    · exact hkind hname rfl
    · exact hkind hname rfl
    · exact hkind hname rfl
  | dyn => exact nomatch hname
  | function => exact hv.elim
  | error => exact hv.elim
  | unset => exact hv.elim

theorem TypeSpec.Mixed.not_nameless {type : TypeSpec} (h : type.Mixed) : ¬type.Nameless := by
  cases type with
  | wrapper p => exact id
  | wellKnown w => exact id
  | _ => exact h.elim

/-- **A type whose values are of several types has no name at run time**: null is one of the values, and
so is another. -/
theorem TypeSpec.Mixed.not_namedAtRunTime {type : TypeSpec} {name : List UInt8} (h : type.Mixed) :
    ¬type.NamedAtRunTime name := by
  rintro ⟨hvalues, hnamed⟩
  have hboth : ∀ {v : CelValue} {kind : String}, type.Holds (fun _ => none) .null →
      type.Holds (fun _ => none) v → primitiveKindName v = some kind →
      utf8 "null_type" = utf8 kind := by
    intro v kind hnull hv hkind
    have htype : (.ok (.type (utf8 "null_type")) : Outcome CelValue) = .ok (.type (utf8 kind)) := by
      rw [← @granted_celTypeOf_of_kind (fun _ => none) .null _ rfl, hnamed _ _ hnull,
        ← @granted_celTypeOf_of_kind (fun _ => none) _ _ hkind, hnamed _ _ hv]
    exact CelValue.type.inj (Except.ok.inj htype)
  cases type with
  | wrapper p =>
    cases p with
    | unspecified =>
      obtain ⟨fullName, v, hv⟩ := hvalues
      exact hv
    | bool => exact absurd (hboth (.inl rfl) (.inr (.inl ⟨true, rfl⟩)) rfl) (by decide)
    | int64 => exact absurd (hboth (.inl rfl) (.inr (.inl ⟨0, rfl⟩)) rfl) (by decide)
    | uint64 => exact absurd (hboth (.inl rfl) (.inr (.inl ⟨0, rfl⟩)) rfl) (by decide)
    | double => exact absurd (hboth (.inl rfl) (.inr (.inl ⟨.ofInt 0, rfl⟩)) rfl) (by decide)
    | string => exact absurd (hboth (.inl rfl) (.inr (.inl ⟨[], rfl⟩)) rfl) (by decide)
    | bytes => exact absurd (hboth (.inl rfl) (.inr (.inl ⟨[], rfl⟩)) rfl) (by decide)
  | wellKnown w =>
    cases w with
    | any => exact absurd (@hboth (.bool true) _ trivial trivial rfl) (by decide)
    | _ => exact h
  | _ => exact h

/-- A type with values that are of one type is named by `SpecTypeName`, unless it has no name. -/
theorem namedAtRunTime_of_holds {type : TypeSpec} (hvalues : ∃ fullName v, type.Holds fullName v)
    (hmixed : ¬type.Mixed) (h : ¬type.Nameless) :
    ∃ name, specTypeName type = .ok (some name) ∧ type.NamedAtRunTime (utf8 name) := by
  have hname : ∃ name, specTypeName type = .ok (some name) := by
    obtain ⟨fullName, v, hv⟩ := hvalues
    cases type with
    | primitive p =>
      cases p with
      | unspecified => exact hv.elim
      | _ => exact ⟨_, rfl⟩
    | wrapper p => exact absurd trivial hmixed
    | wellKnown w =>
      cases w with
      | unspecified => exact hv.elim
      | _ => exact ⟨_, rfl⟩
    | dyn => exact absurd trivial h
    | function => exact hv.elim
    | error => exact hv.elim
    | unset => exact hv.elim
    | _ => exact ⟨_, rfl⟩
  obtain ⟨name, hname⟩ := hname
  exact ⟨name, hname, hvalues, fun fullName v => granted_celTypeOf hmixed hname⟩

section Sound

variable {env : CheckerEnv} {refs : ReferenceMap} {types : TypeMap}

theorem maybeRewriteTypeIdent_of_value {id : ℤ} {name : String} {ref : Reference}
    (href : refs id = some ref) (hvalue : ref.value.isSome = true) :
    maybeRewriteTypeIdent refs types id name = .ok (.ident id name) := by
  unfold maybeRewriteTypeIdent
  rw [href]
  split
  · obtain rfl := Option.some.inj ‹_›
    rw [if_pos hvalue]
  · rfl

theorem maybeRewriteTypeIdent_of_type {id : ℤ} {name : String} {ref : Reference}
    {inner : TypeSpec} (href : refs id = some ref) (hvalue : ref.value = none)
    (htype : types id = some (.type inner)) : maybeRewriteTypeIdent refs types id name
      = specTypeName inner >>= fun
        | some typeName => .ok (.const id (.string (utf8 typeName)))
        | none => .ok (.ident id name) := by
  unfold maybeRewriteTypeIdent
  rw [href, htype]
  dsimp only
  rw [hvalue]
  rfl

theorem maybeRewriteTypeIdent_of_not_type {id : ℤ} {name : String}
    (h : ∀ inner, types id ≠ some (.type inner)) :
    maybeRewriteTypeIdent refs types id name = .ok (.ident id name) := by
  unfold maybeRewriteTypeIdent
  split
  · exact absurd ‹_› (h _)
  · rfl

/-- The name of a type is replaced by its name at run time, if it has one. -/
theorem yields_of_typeName {scope : List String} {id : ℤ} {name : String} {ref : Reference}
    {type : TypeSpec} (hdenotes : env.denotes scope name = some (.global (.typeName type)))
    (href : refs id = some ref) (hvalue : ref.value = none)
    (htype : types id = some (.type type)) :
    Yields (TypeNameInlined env types scope id name) (maybeRewriteTypeIdent refs types id name) ↔
      ¬type.Mixed := by
  rw [maybeRewriteTypeIdent_of_type href hvalue htype]
  by_cases hmixed : type.Mixed
  · refine iff_of_false ?_ (not_not.mpr hmixed)
    rintro ⟨e', heq, hinlined⟩
    cases hspec : specTypeName type with
    | error e =>
      rw [hspec] at heq
      exact nomatch heq
    | ok found =>
      rw [hspec] at heq
      cases found with
      | none => exact hmixed.not_nameless (specTypeName_eq_none_iff.mp hspec)
      | some typeName =>
        obtain rfl := Except.ok.inj heq
        obtain hident | ⟨type', _, _, hdenotes', hnamed, -⟩ := hinlined
        · exact nomatch hident
        · obtain rfl : type = type' := by
            rw [hdenotes] at hdenotes'
            have hdecl := Denotation.global.inj (Option.some.inj hdenotes')
            exact GlobalDecl.typeName.inj hdecl
          exact hmixed.not_namedAtRunTime hnamed
  · refine iff_of_true ?_ hmixed
    by_cases hnameless : type.Nameless
    · rw [specTypeName_eq_none_iff.mpr hnameless]
      exact ⟨_, rfl, .inl rfl⟩
    · obtain ⟨typeName, hname, hnamed⟩ :=
        namedAtRunTime_of_holds (env.hasValues_of_denotes hdenotes) hmixed hnameless
      rw [hname]
      refine ⟨_, rfl, .inr ⟨type, _, _, hdenotes, hnamed, rfl, ?_⟩⟩
      rw [nodeRepr, htype]
      rfl

/-- A variable is left as it is unless it holds a type with a name. -/
theorem yields_of_isVariable {scope : List String} {id : ℤ} {name : String} {d : Denotation}
    {ref : Reference} {spec : TypeSpec} (hd : d.IsVariable)
    (hdenotes : env.denotes scope name = some d)
    (href : refs id = some ref) (hvalue : ref.value = d.value) (htype : types id = some spec) :
    Yields (TypeNameInlined env types scope id name) (maybeRewriteTypeIdent refs types id name) ↔
      HoldsNamelessType env types scope id name := by
  have hnone : ref.value = none := by
    rw [hvalue]
    match d, hd with
    | .comprehension, _ => rfl
    | .global .declared, _ => rfl
  have hinlined : ∀ e', TypeNameInlined env types scope id name e' ↔ e' = .ident id name := by
    refine fun e' => or_iff_left ?_
    rintro ⟨type, typeName, c, hdenotes', -⟩
    obtain rfl := Option.some.inj (hdenotes.symm.trans hdenotes')
    exact hd
  by_cases hspec : ∃ inner, spec = .type inner
  · obtain ⟨inner, rfl⟩ := hspec
    have hcond : HoldsNamelessType env types scope id name ↔ inner.Nameless := by
      refine ⟨fun h => h d inner hdenotes hd htype, fun h _ inner' _ _ htype' => ?_⟩
      obtain rfl := TypeSpec.type.inj (Option.some.inj (htype.symm.trans htype'))
      exact h
    rw [hcond, ← specTypeName_eq_none_iff, maybeRewriteTypeIdent_of_type href hnone htype]
    simp only [Yields, hinlined]
    cases specTypeName inner with
    | error e => exact iff_of_false (by rintro ⟨_, heq, _⟩; exact nomatch heq) nofun
    | ok found =>
      cases found with
      | none => exact iff_of_true ⟨_, rfl, rfl⟩ rfl
      | some typeName =>
        refine iff_of_false ?_ nofun
        rintro ⟨_, hconst, rfl⟩
        exact nomatch Except.ok.inj hconst
  · refine iff_of_true ?_ fun _ inner _ _ htype' => ?_
    · rw [maybeRewriteTypeIdent_of_not_type fun inner h =>
        hspec ⟨inner, Option.some.inj (htype.symm.trans h)⟩]
      exact ⟨_, rfl, .inl rfl⟩
    · exact absurd ⟨inner, Option.some.inj (htype.symm.trans htype')⟩ hspec

/-- The name of a type means what the constant does. -/
theorem typeNameInlined_keepsMeaning {V : Type} {S : Interpretation V} {globals : String → V}
    (hglobals : env.TypeNamesMean S globals) :
    KeepsMeaning types S globals (TypeNameInlined env types) := by
  rintro scope id name e' (rfl | ⟨type, typeName, c, hdenotes, hnamed, rfl, hconst⟩) locals hscope
  · rfl
  · rw [meaning, hconst, meaningOfIdent]
    unfold CheckerEnv.denotes at hdenotes
    cases hdot : leadingDot name with
    | some global =>
      rw [hdot] at hdenotes
      exact (hglobals global type typeName (globals_of_map hdenotes) hnamed).symm
    | none =>
      rw [hdot] at hdenotes
      dsimp only at hdenotes ⊢
      by_cases hmem : name ∈ scope
      · rw [if_pos hmem] at hdenotes
        exact nomatch hdenotes
      · rw [if_neg hmem] at hdenotes
        have hlookup : locals.lookup name = none := List.lookup_eq_none_iff.mpr fun p hp =>
          bne_iff_ne.mpr fun heq => hmem (hscope ▸ List.mem_map.mpr ⟨p, hp, heq.symm⟩)
        rw [hlookup]
        exact (hglobals name type typeName (globals_of_map hdenotes) hnamed).symm

/-- **One identifier**: the pass does what it may unless the identifier is a variable that holds a
type with a name, or the name of a type whose values are of several. -/
theorem yields_maybeRewriteTypeIdent_iff {scope : List String} {id : ℤ} {name : String}
    (h : IdentChecked env refs types scope id name) :
    Yields (TypeNameInlined env types scope id name) (maybeRewriteTypeIdent refs types id name) ↔
      InlinableIdent env types scope id name := by
  obtain ⟨d, ref, spec, hdenotes, href, hvalue, htype, hname⟩ := h
  have hsame : ∀ {d'}, env.denotes scope name = some d' → d' = d := fun h =>
    Option.some.inj (h.symm.trans hdenotes)
  by_cases hvariable : d.IsVariable
  · refine (yields_of_isVariable hvariable hdenotes href hvalue htype).trans (and_iff_left ?_).symm
    rintro type htypeName -
    rw [← hsame htypeName] at hvariable
    exact hvariable
  · -- What is no variable is an enum value, which comes with its number, or the name of a type.
    have hnameless : HoldsNamelessType env types scope id name := fun d' inner hdenotes' hd' _ =>
      absurd (hsame hdenotes' ▸ hd') hvariable
    refine Iff.trans ?_ (and_iff_right hnameless).symm
    cases d with
    | comprehension => exact absurd trivial hvariable
    | global decl =>
      cases decl with
      | declared => exact absurd trivial hvariable
      | constant c =>
        refine iff_of_true ?_ fun type htypeName => ?_
        · rw [maybeRewriteTypeIdent_of_value href (hvalue ▸ rfl)]
          exact ⟨_, rfl, .inl rfl⟩
        · exact nomatch Denotation.global.inj (hsame htypeName)
      | typeName type =>
        obtain rfl := hname type rfl
        refine (yields_of_typeName hdenotes href hvalue htype).trans ⟨fun hmixed type' h => ?_,
          fun h => h type hdenotes⟩
        have hdecl := Denotation.global.inj (hsame h)
        obtain rfl := GlobalDecl.typeName.inj hdecl
        exact hmixed

end Sound

/-! ## A variable that holds a type -/

/-- A message variable `m`, and `int`. -/
def messageEnv : CheckerEnv where
  globals
    | "m" => some .declared
    | "int" => some (.typeName (.primitive .int64))
    | _ => none
  hasValues name type h := by
    split at h
    · exact nomatch h
    · obtain rfl := GlobalDecl.typeName.inj (Option.some.inj h)
      exact ⟨fun _ => none, .int 0, 0, rfl⟩
    · exact nomatch h

/-- `type(m) == int`. -/
def typeOfMessageExpr : Expr ℤ :=
  .call 1 "_==_" false [.call 2 "type" false [.ident 3 "m"], .ident 4 "int"]

def typeOfMessageTypes : TypeMap
  | 1 => some (.primitive .bool)
  | 2 => some (.type (.message "M"))
  | 3 => some (.message "M")
  | 4 => some (.type (.primitive .int64))
  | _ => none

def typeOfMessageRefs : ReferenceMap
  | 3 => some ⟨"m", none⟩
  | 4 => some ⟨"int", none⟩
  | _ => none

/-- `cel.bind(t, type(m.w), t == int)`, where `w` is a wrapped int. -/
def boundTypeExpr : Expr ℤ :=
  .comprehension 1 "#unused" "" "t" (.list 2 [] [])
    (.call 3 "type" false [.select 4 (.ident 5 "m") "w" false]) (.const 6 (.bool false))
    (.ident 7 "t") (.call 8 "_==_" false [.ident 9 "t", .ident 10 "int"])

def boundTypeTypes : TypeMap
  | 1 | 6 | 8 => some (.primitive .bool)
  | 2 => some (.list .dyn)
  | 3 | 7 | 9 => some (.type (.wrapper .int64))
  | 4 => some (.wrapper .int64)
  | 5 => some (.message "M")
  | 10 => some (.type (.primitive .int64))
  | _ => none

def boundTypeRefs : ReferenceMap
  | 5 => some ⟨"m", none⟩
  | 7 | 9 => some ⟨"t", none⟩
  | 10 => some ⟨"int", none⟩
  | _ => none

/-- The operations of `boundTypeExpr` with memory to spare, where `m.w` is 7. -/
def boundTypeInterpretation : Interpretation CelValue where
  value := id
  select _ _ _ _ := .int 7
  call _ function _ operands :=
    match function, operands with
    | "type", [v] => (celTypeOf (fun _ => none) v).granted.toOption.getD .null
    | "_==_", [a, b] => .bool ((equalSameKind a b).getD false)
    | _, _ => .null
  list _ elements _ := .listArena elements.length elements
  map _ _ := .null
  struct _ _ _ _ := .null
  comprehension _ _ init _ _ result := result init

/-- The name of an `Int32Value` is replaced by that of an `Int64Value`: no element of a list of such
messages is of that type. -/
example : maybeRewriteTypeIdent (fun _ => some ⟨"google.protobuf.Int32Value", none⟩)
      (fun _ => some (.type (.wrapper .int64))) 1 "google.protobuf.Int32Value"
        = .ok (.const 1 (.string (utf8 "google.protobuf.Int64Value"))) ∧
    (celTypeOf (fun _ => some "google.protobuf.Int32Value") (.message 0)).granted
      = .ok (.type (utf8 "google.protobuf.Int32Value")) := ⟨rfl, rfl⟩

end CelWasm
