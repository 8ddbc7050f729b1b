import CelWasm.Runtime.Value

/-!
# Compiler/FunctionLibrary — the functions an embedder declares

A declaration gets an overload id, the function's name and the slugs of its parameters' types joined
by underscores, and the number of parameters of its import, one more than the function's in a byte.
A library is refused if two ids are alike, if `this` stands past the first parameter, or if a map has
keys of a type no map takes.
-/

namespace CelWasm

/-! ## Types -/

/-- `CelType`: the type of a parameter or a result. `unknown` is the type not yet set. -/
inductive CelType
  | unknown
  | bool
  | int
  | uint
  | double
  | string
  | bytes
  | null
  | duration
  | timestamp
  | list (element : CelType)
  | map (key value : CelType)
  | message (fullyQualifiedName : String)
  | type
  | optional (element : CelType)

namespace CelType

/-- `CelTypeKindName`. -/
def kindName : CelType → String
  | unknown => "unknown"
  | bool => "bool"
  | int => "int"
  | uint => "uint"
  | double => "double"
  | string => "string"
  | bytes => "bytes"
  | null => "null"
  | duration => "duration"
  | timestamp => "timestamp"
  | list _ => "list"
  | map _ _ => "map"
  | message _ => "message"
  | type => "type"
  | optional _ => "optional"

/-- **`ArgkindSlug`**; a type not yet set aborts. -/
def argkindSlug : CelType → Outcome String
  | bool => .ok "bool"
  | int => .ok "int"
  | uint => .ok "uint"
  | double => .ok "double"
  | string => .ok "string"
  | bytes => .ok "bytes"
  | null => .ok "null"
  | duration => .ok "duration"
  | timestamp => .ok "timestamp"
  | list element => return "list_" ++ (← element.argkindSlug)
  | map key value => return "map_" ++ (← key.argkindSlug) ++ "_" ++ (← value.argkindSlug)
  | message fqn => .ok ("message_" ++ fqn.replace "." "_")
  | type => .ok "type"
  | optional element => return "optional_" ++ (← element.argkindSlug)
  | unknown => .error .abort

/-- Whether the type not yet set stands anywhere in a type. -/
def hasUnset : CelType → Bool
  | unknown => true
  | list element | optional element => element.hasUnset
  | map key value => key.hasUnset || value.hasUnset
  | _ => false

/-- `IsLegalMapKeyKind`. -/
def isLegalMapKey : CelType → Bool
  | bool | int | uint | string => true
  | _ => false

/-- `FirstIllegalMapKey`: the kind of the first key that no map takes. -/
def firstIllegalMapKey : CelType → Option String
  | map key value => if !key.isLegalMapKey then some key.kindName else value.firstIllegalMapKey
  | list element | optional element => element.firstIllegalMapKey
  | _ => none

end CelType

/-! ## Declarations -/

/-- `CelfnParam`. -/
structure CelfnParam where
  isReceiver : Bool
  type : CelType
  name : String

/-- `CelfnDecl`. -/
structure CelfnDecl where
  fnName : String
  moduleName : String
  overloadId : String
  numArgs : UInt8
  isReceiver : Bool
  params : List CelfnParam
  returnType : CelType

/-- **`SynthesiseOverloadId`**. -/
def synthesiseOverloadId (fnName : String) (params : List CelfnParam) : Outcome String :=
  return "_".intercalate (fnName :: (← params.mapM fun p => p.type.argkindSlug))

/-- **`AddHost`** and `Finalise`: the number of parameters is computed in a byte. -/
def addHost (fnName : String) (returnType : CelType) (params : List CelfnParam) :
    Outcome CelfnDecl := do
  let overloadId ← synthesiseOverloadId fnName params
  return {
    fnName
    moduleName := "cel_fn"
    overloadId
    numArgs := UInt8.ofNat params.length + 1
    isReceiver := params.head?.any CelfnParam.isReceiver
    params
    returnType }

/-! ## Libraries -/

/-- `ValidateThisPlacement`. -/
def validateThisPlacement (d : CelfnDecl) : Except String Unit :=
  if d.params.tail.any CelfnParam.isReceiver then
    .error ("`" ++ d.fnName ++ "`: `this` modifier is only allowed on the first parameter")
  else .ok ()

/-- `CheckUniversalDeclShape`. -/
def checkUniversalDeclShape (d : CelfnDecl) : Except String Unit := do
  if let some bad := d.returnType.firstIllegalMapKey then
    throw ("`" ++ d.fnName ++ "` return type contains map<" ++ bad ++
      ", ...> — map keys must be bool|int|uint|string (langdef)")
  d.params.forM fun p => do
    if let some bad := p.type.firstIllegalMapKey then
      throw ("`" ++ d.fnName ++ "` parameter `" ++ p.name ++ "` contains map<" ++ bad ++
        ", ...> — map keys must be bool|int|uint|string (langdef)")

/-- The loop of `FunctionLibrary::Builder::Build`; `seen` are the ids of the declarations before. -/
def checkDecls : List String → List CelfnDecl → Except String Unit
  | _, [] => .ok ()
  | seen, d :: rest => do
    validateThisPlacement d
    if d.overloadId ∈ seen then
      throw ("duplicate declaration: overload-id `" ++ d.overloadId ++
        "` already declared in this library")
    checkUniversalDeclShape d
    checkDecls (d.overloadId :: seen) rest

/-- The declaration is what `AddHost` makes of its arguments. -/
def CelfnDecl.Declared (d : CelfnDecl) : Prop := addHost d.fnName d.returnType d.params = .ok d

/-- **`FunctionLibrary`**: declarations of `AddHost` that `Build` has accepted. -/
structure FunctionLibrary where
  decls : List CelfnDecl
  declared : ∀ d ∈ decls, d.Declared
  accepted : checkDecls [] decls = .ok ()

/-- The import of a declared function has a parameter more than the function, in a byte. -/
theorem CelfnDecl.Declared.numArgs_eq {d : CelfnDecl} (h : d.Declared) :
    d.numArgs = UInt8.ofNat d.params.length + 1 := by
  unfold CelfnDecl.Declared addHost at h
  cases hid : synthesiseOverloadId d.fnName d.params with
  | error e =>
    rw [hid] at h
    exact nomatch h
  | ok id =>
    rw [hid] at h
    exact congrArg CelfnDecl.numArgs (Except.ok.inj h).symm

end CelWasm
