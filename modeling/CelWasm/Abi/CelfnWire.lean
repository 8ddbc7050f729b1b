import CelWasm.Compiler.FunctionLibrary
import CelWasm.Library.Fallible

/-!
# Abi/CelfnWire — signatures on the wire

A program carries a row for every function it needs: its overload id, its name and its types. A type
is a kind, the name of a message and the types below it; the kinds are open, so that a number no
kind has is a type too. `TypeFromCelType` writes a type, and what it writes can be read back
(`CelType.ofWire_of_toWire`): two types are the same exactly when what is written for them is.
-/

namespace CelWasm

/-! ## Types -/

/-- `abi::Type`. -/
inductive WireType
  | mk (kind : Int) (protoFqn : String) (params : List WireType)

namespace WireType

@[match_pattern] abbrev kindBool : Int := 1
@[match_pattern] abbrev kindInt : Int := 2
@[match_pattern] abbrev kindUint : Int := 3
@[match_pattern] abbrev kindDouble : Int := 4
@[match_pattern] abbrev kindString : Int := 5
@[match_pattern] abbrev kindBytes : Int := 6
@[match_pattern] abbrev kindDuration : Int := 7
@[match_pattern] abbrev kindTimestamp : Int := 8
@[match_pattern] abbrev kindProto : Int := 9
@[match_pattern] abbrev kindList : Int := 10
@[match_pattern] abbrev kindMap : Int := 11
@[match_pattern] abbrev kindType : Int := 12
@[match_pattern] abbrev kindOptional : Int := 13
@[match_pattern] abbrev kindNull : Int := 14

/-- A type of which only the kind is set. -/
def scalar (kind : Int) : WireType := mk kind "" []

/-- **`RenderType`**; a kind that is not known is rendered by its number. -/
def render : WireType → String
  | mk kindBool _ _ => "bool"
  | mk kindInt _ _ => "int"
  | mk kindUint _ _ => "uint"
  | mk kindDouble _ _ => "double"
  | mk kindString _ _ => "string"
  | mk kindBytes _ _ => "bytes"
  | mk kindNull _ _ => "null"
  | mk kindDuration _ _ => "Duration"
  | mk kindTimestamp _ _ => "Timestamp"
  | mk kindType _ _ => "type"
  | mk kindProto fqn _ => "proto(" ++ fqn ++ ")"
  | mk kindList _ [] => "list<?>"
  | mk kindList _ (element :: _) => "list<" ++ element.render ++ ">"
  | mk kindMap _ [] => "map<?, ?>"
  | mk kindMap _ [key] => "map<" ++ key.render ++ ", ?>"
  | mk kindMap _ (key :: value :: _) => "map<" ++ key.render ++ ", " ++ value.render ++ ">"
  | mk kindOptional _ [] => "optional<?>"
  | mk kindOptional _ (element :: _) => "optional<" ++ element.render ++ ">"
  | mk kind _ _ => "<kind " ++ toString kind ++ ">"

mutual

/-- **`TypeEquals`**. -/
def typeEquals : WireType → WireType → Bool
  | mk kind fqn params, mk kind' fqn' params' =>
    kind == kind' && fqn == fqn' && typesEqual params params'

/-- The parameters of two types: their number, and then each. -/
def typesEqual : List WireType → List WireType → Bool
  | [], [] => true
  | a :: as, b :: bs => a.typeEquals b && typesEqual as bs
  | _, _ => false

end

mutual

/-- **Types compare equal exactly when they are.** -/
theorem typeEquals_iff : ∀ {a b : WireType}, a.typeEquals b = true ↔ a = b
  | mk kind fqn params, mk kind' fqn' params' => by
    rw [typeEquals, Bool.and_eq_true, Bool.and_eq_true, beq_iff_eq, beq_iff_eq, typesEqual_iff,
      mk.injEq, and_assoc]

theorem typesEqual_iff : ∀ {as bs : List WireType}, typesEqual as bs = true ↔ as = bs
  | [], [] => iff_of_true rfl rfl
  | [], _ :: _ => iff_of_false Bool.noConfusion (List.cons_ne_nil _ _).symm
  | _ :: _, [] => iff_of_false Bool.noConfusion (List.cons_ne_nil _ _)
  | a :: as, b :: bs => by
    rw [typesEqual, Bool.and_eq_true, typeEquals_iff, typesEqual_iff, List.cons.injEq]

end

end WireType

namespace CelType

/-- **`TypeFromCelType`**; a type not yet set aborts. -/
def toWire : CelType → Outcome WireType
  | bool => .ok (.scalar WireType.kindBool)
  | int => .ok (.scalar WireType.kindInt)
  | uint => .ok (.scalar WireType.kindUint)
  | double => .ok (.scalar WireType.kindDouble)
  | string => .ok (.scalar WireType.kindString)
  | bytes => .ok (.scalar WireType.kindBytes)
  | null => .ok (.scalar WireType.kindNull)
  | duration => .ok (.scalar WireType.kindDuration)
  | timestamp => .ok (.scalar WireType.kindTimestamp)
  | type => .ok (.scalar WireType.kindType)
  | message fqn => .ok (.mk WireType.kindProto fqn [])
  | list element => return .mk WireType.kindList "" [← element.toWire]
  | map key value => return .mk WireType.kindMap "" [← key.toWire, ← value.toWire]
  | optional element => return .mk WireType.kindOptional "" [← element.toWire]
  | unknown => .error .abort

/-- What is written for a type. -/
def ofWire : WireType → Option CelType
  | .mk WireType.kindBool _ _ => some bool
  | .mk WireType.kindInt _ _ => some int
  | .mk WireType.kindUint _ _ => some uint
  | .mk WireType.kindDouble _ _ => some double
  | .mk WireType.kindString _ _ => some string
  | .mk WireType.kindBytes _ _ => some bytes
  | .mk WireType.kindNull _ _ => some null
  | .mk WireType.kindDuration _ _ => some duration
  | .mk WireType.kindTimestamp _ _ => some timestamp
  | .mk WireType.kindType _ _ => some type
  | .mk WireType.kindProto fqn _ => some (message fqn)
  | .mk WireType.kindList _ [element] => (ofWire element).map list
  | .mk WireType.kindMap _ [key, value] => do return map (← ofWire key) (← ofWire value)
  | .mk WireType.kindOptional _ [element] => (ofWire element).map optional
  | _ => none

/-- `CelType::Kind`. -/
def kind : CelType → ℕ
  | unknown => 0
  | bool => 1
  | int => 2
  | uint => 3
  | double => 4
  | string => 5
  | bytes => 6
  | list _ => 7
  | map _ _ => 8
  | message _ => 9
  | duration => 11
  | timestamp => 12
  | type => 13
  | null => 14
  | optional _ => 15

/-- **`CelType::operator==`**: the kinds, and what a kind with a payload holds. -/
def equals : CelType → CelType → Bool
  | message fqn, message fqn' => fqn == fqn'
  | list element, list element' => element.equals element'
  | map key value, map key' value' => key.equals key' && value.equals value'
  | optional element, optional element' => element.equals element'
  | a, b => a.kind == b.kind

theorem equals_iff {a b : CelType} : a.equals b = true ↔ a = b := by
  induction a generalizing b with
  | message fqn => cases b <;> simp [equals, kind]
  | list element ih => cases b <;> simp [equals, kind, ih]
  | map key value ihKey ihValue => cases b <;> simp [equals, kind, ihKey, ihValue]
  | optional element ih => cases b <;> simp [equals, kind, ih]
  | _ => cases b <;> simp [equals, kind]

/-- **What is written for a type is read back.** -/
theorem ofWire_of_toWire {a : CelType} {wire : WireType} (h : a.toWire = .ok wire) :
    ofWire wire = some a := by
  induction a generalizing wire with
  | unknown => exact nomatch h
  | list element ih =>
    obtain ⟨w, hw, h⟩ := bind_eq_ok_iff.mp h
    obtain rfl := Except.ok.inj h
    exact congrArg (Option.map list) (ih hw)
  | optional element ih =>
    obtain ⟨w, hw, h⟩ := bind_eq_ok_iff.mp h
    obtain rfl := Except.ok.inj h
    exact congrArg (Option.map optional) (ih hw)
  | map key value ihKey ihValue =>
    obtain ⟨w, hw, h⟩ := bind_eq_ok_iff.mp h
    obtain ⟨w', hw', h⟩ := bind_eq_ok_iff.mp h
    obtain rfl := Except.ok.inj h
    change (do return map (← ofWire w) (← ofWire w')) = _
    rw [ihKey hw, ihValue hw']
    rfl
  | _ =>
    obtain rfl := Except.ok.inj h
    rfl

/-- A type is written exactly when all of it has been set. -/
theorem exists_toWire_iff {a : CelType} : (∃ wire, a.toWire = .ok wire) ↔ a.hasUnset = false := by
  induction a with
  | unknown => exact iff_of_false (fun ⟨_, h⟩ => nomatch h) Bool.noConfusion
  | list element ih | optional element ih =>
    rw [hasUnset, ← ih, toWire]
    constructor
    · rintro ⟨wire, h⟩
      obtain ⟨w, hw, -⟩ := bind_eq_ok_iff.mp h
      exact ⟨w, hw⟩
    · rintro ⟨w, hw⟩
      exact ⟨_, bind_eq_ok_iff.mpr ⟨w, hw, rfl⟩⟩
  | map key value ihKey ihValue =>
    rw [hasUnset, Bool.or_eq_false_iff, ← ihKey, ← ihValue, toWire]
    constructor
    · rintro ⟨wire, h⟩
      obtain ⟨w, hw, h⟩ := bind_eq_ok_iff.mp h
      obtain ⟨w', hw', -⟩ := bind_eq_ok_iff.mp h
      exact ⟨⟨w, hw⟩, ⟨w', hw'⟩⟩
    · rintro ⟨⟨w, hw⟩, ⟨w', hw'⟩⟩
      exact ⟨_, bind_eq_ok_iff.mpr ⟨w, hw, bind_eq_ok_iff.mpr ⟨w', hw', rfl⟩⟩⟩
  | _ => exact iff_of_true ⟨_, rfl⟩ rfl

/-- **The encoding loses nothing**: types that are written compare equal on the wire exactly when
they are. -/
theorem typeEquals_toWire {a b : CelType} {wire wire' : WireType} (ha : a.toWire = .ok wire)
    (hb : b.toWire = .ok wire') : wire.typeEquals wire' = a.equals b := by
  refine Bool.eq_iff_iff.mpr ?_
  rw [WireType.typeEquals_iff, equals_iff]
  constructor
  · rintro rfl
    exact Option.some.inj ((ofWire_of_toWire ha).symm.trans (ofWire_of_toWire hb))
  · rintro rfl
    exact Except.ok.inj (ha.symm.trans hb)

end CelType

/-! ## Functions -/

/-- `abi::RequiredFunction`; the backends are open. -/
structure RequiredFunction where
  overloadId : String
  fnName : String
  backend : Int
  paramTypes : List WireType
  returnType : WireType
  isReceiver : Bool

namespace RequiredFunction

/-- `RequiredFunction::HOST`. -/
@[match_pattern] abbrev host : Int := 1

/-- **`RequiredFunctionFromDecl`**. -/
def ofDecl (d : CelfnDecl) : Outcome RequiredFunction := do
  return {
    overloadId := d.overloadId
    fnName := d.fnName
    backend := host
    paramTypes := ← d.params.mapM fun p => p.type.toWire
    returnType := ← d.returnType.toWire
    isReceiver := d.isReceiver }

/-- **`RenderSignature`**. -/
def renderSignature (fn : RequiredFunction) : String :=
  let params := fn.paramTypes.map WireType.render
  let params := if fn.isReceiver then params.modifyHead ("this " ++ ·) else params
  fn.returnType.render ++ " " ++ fn.fnName ++ "(" ++ ", ".intercalate params ++ ")"

end RequiredFunction

end CelWasm
