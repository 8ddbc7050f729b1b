import CelWasm.Compiler.Ast

/-!
# Compiler/SubsetGate — the gate in front of code generation

Before code is generated the checked expression is walked, and refused if a node has a type codegen
has no representation for. Some sub-trees are admitted without being walked: the list of arguments
of `format`, the list `math.@min` and `math.@max` fold over, and the parts of a `cel.bind` that never
run. What the gate promises is a matter of what may stand in these.
-/

namespace CelWasm

/-! ## Types -/

/-- `PrimitiveType`. -/
inductive PrimitiveType
  | unspecified
  | bool
  | int64
  | uint64
  | double
  | string
  | bytes
  deriving DecidableEq

/-- `WellKnownTypeSpec`. -/
inductive WellKnownTypeSpec
  | unspecified
  | any
  | timestamp
  | duration
  deriving DecidableEq

/-- `TypeSpec`: the type the checker gave a node. -/
inductive TypeSpec
  | unset
  | dyn
  | null
  | primitive (type : PrimitiveType)
  | wrapper (type : PrimitiveType)
  | wellKnown (type : WellKnownTypeSpec)
  | list (elem : TypeSpec)
  | map (key value : TypeSpec)
  | function
  | message (type : String)
  | param (name : String)
  | type (inner : TypeSpec)
  | error
  | abstract (name : String) (parameters : List TypeSpec)

/-- `type_map`: the types by the ids of the nodes. -/
abbrev TypeMap := ℤ → Option TypeSpec

/-- `ReprOfPrimitive`. -/
def PrimitiveType.repr : PrimitiveType → NodeRepr
  | unspecified => .unknown
  | bool => .bool
  | int64 => .int
  | uint64 => .uint
  | double => .double
  | string => .string
  | bytes => .bytes

/-- `ReprOfWellKnown`. -/
def WellKnownTypeSpec.repr : WellKnownTypeSpec → NodeRepr
  | unspecified => .unknown
  | any => .message
  | timestamp => .timestamp
  | duration => .duration

/-- **`ReprOf`**. -/
def reprOf : TypeSpec → NodeRepr
  | .primitive p | .wrapper p => p.repr
  | .wellKnown w => w.repr
  | .null => .null
  | .list _ => .list
  | .map _ _ => .map
  | .message _ => .message
  | .type _ => .type
  | .abstract name _ => if name = "optional_type" then .optional else .unknown
  | .dyn | .error | .function | .param _ | .unset => .unknown

/-- `PopulateAnnotations`: what a node is stamped with. -/
def nodeRepr (types : TypeMap) (id : ℤ) : NodeRepr := (types id).elim .unknown reprOf

mutual

/-- **`UnacceptableLabel`**. -/
def unacceptableLabel : TypeSpec → Option String
  | .dyn => some "dyn"
  | .error => some "error"
  | .function => some "function"
  | .param _ => some "type-param"
  | .unset => some "unset"
  | .list elem => unacceptableLabel elem
  | .map key value => unacceptableLabel key <|> unacceptableLabel value
  | .abstract _ parameters => unacceptableLabels parameters
  | _ => none

/-- The first label of a list of types. -/
def unacceptableLabels : List TypeSpec → Option String
  | [] => none
  | p :: rest => unacceptableLabel p <|> unacceptableLabels rest

end

/-! ## Shapes of nodes -/

section Shapes

variable (types : TypeMap)

/-- `kConversions`. -/
def conversions : List String :=
  ["int", "uint", "double", "string", "bytes", "bool", "duration", "timestamp"]

/-- **`IsConversionOverDyn`**. -/
def isConversionOverDyn : Expr ℤ → Bool
  | .call _ function false [arg] =>
    conversions.contains function && match types arg.ann with | some .dyn => true | _ => false
  | _ => false

/-- `ArgIsAdmissibleScalar`. -/
def argIsAdmissibleScalar (arg : Expr ℤ) : Bool :=
  match types arg.ann with
  | some (.primitive _) | some .null | some (.type _) => true
  | _ => false

/-- A call of `dyn` with one argument, with a target or without. -/
def isDynCall : Expr ℤ → Bool
  | .call _ function receiver operands =>
    function == "dyn" && operands.length == if receiver then 2 else 1
  | _ => false

/-- `IsDynPassthroughCall`. -/
def isDynPassthroughCall : Expr ℤ → Bool
  | .call _ function false [arg] =>
    function == "dyn" &&
      if isDynCall arg then isDynPassthroughCall arg else argIsAdmissibleScalar types arg
  | _ => false

/-- `IsSelectThroughAny`. -/
def isSelectThroughAny : Expr ℤ → Bool
  | .select _ operand _ _ =>
    match types operand.ann with
    | some (.wellKnown .any) => true
    | some (.message name) => name == "google.protobuf.Any" || isSelectThroughAny operand
    | some _ => isSelectThroughAny operand
    | none => false
  | _ => false

/-- `IsMathMinMaxCall`. -/
def isMathMinMaxCall (function : String) (receiver : Bool) : Bool :=
  !receiver && (function == "math.@min" || function == "math.@max")

/-- A list literal. -/
def isListExpr : Expr ℤ → Bool
  | .list .. => true
  | _ => false

/-- `IsFormatCallWithListLiteralArgs` of a call with a target, by its other arguments. -/
def isFormatCallWithListLiteralArgs (function : String) : List (Expr ℤ) → Bool
  | [arg] => function == "format" && isListExpr arg
  | _ => false

/-- `IsCelBindShape`. -/
def isCelBindShape (iterRange loopCondition : Expr ℤ) : Bool :=
  match iterRange, loopCondition with
  | .list _ [] _, .const _ (.bool false) => true
  | _, _ => false

end Shapes

/-! ## The gate -/

/-- `Violation`. -/
structure Violation where
  exprId : ℤ
  kind : String
  detail : String

section Gate

-- `cel::FormatTypeSpec`.
variable (types : TypeMap) (formatTypeSpec : TypeSpec → String)

/-- What `CheckSubsetNode` finds wrong with the type of a node. -/
def checkSubsetType (id : ℤ) : List Violation :=
  if id = 0 then []
  else
    match types id with
    | none => [⟨id, "dyn", "no type_map entry"⟩]
    | some spec =>
      match unacceptableLabel spec with
      | some label => [⟨id, label, formatTypeSpec spec⟩]
      | none => []

mutual

/-- **`CheckSubsetNode`**, with the cases of `CheckSubsetChildren`. -/
def checkSubsetNode : Expr ℤ → List Violation
  | .const id _ | .ident id _ => checkSubsetType types formatTypeSpec id
  | .select id operand field testOnly =>
    if isSelectThroughAny types (.select id operand field testOnly) then checkSubsetNode operand
    else checkSubsetType types formatTypeSpec id ++ checkSubsetNode operand
  | .call id function receiver operands =>
    if isConversionOverDyn types (.call id function receiver operands) then
      [⟨id, "dyn", "`" ++ function ++ "(<dyn>)` cannot be resolved statically"⟩]
    else if isDynPassthroughCall types (.call id function receiver operands) then
      checkSubsetNodes operands
    else if isMathMinMaxCall function receiver then checkSubsetCall function receiver operands
    else
      checkSubsetType types formatTypeSpec id ++ checkSubsetCall function receiver operands
  | .list id elements _ => checkSubsetType types formatTypeSpec id ++ checkSubsetNodes elements
  | .map id entries => checkSubsetType types formatTypeSpec id ++ checkSubsetMap entries
  | .struct id _ _ values => checkSubsetType types formatTypeSpec id ++ checkSubsetNodes values
  | .comprehension id _ _ _ iterRange accuInit loopCondition loopStep result =>
    let celBind := isCelBindShape iterRange loopCondition
    checkSubsetType types formatTypeSpec id ++
      (if celBind then [] else checkSubsetNode iterRange) ++ checkSubsetNode accuInit ++
      checkSubsetNode loopCondition ++ (if celBind then [] else checkSubsetNode loopStep) ++
      checkSubsetNode result

/-- `CheckSubsetCall`: the target, then the arguments, unless they are a literal to be formatted. -/
def checkSubsetCall (function : String) (receiver : Bool) : List (Expr ℤ) → List Violation
  | [] => []
  | first :: rest =>
    if receiver then
      checkSubsetNode first ++
        if isFormatCallWithListLiteralArgs function rest then [] else checkSubsetNodes rest
    else if isMathMinMaxCall function receiver then
      (if isListExpr first then [] else checkSubsetNode first) ++ checkSubsetFolded rest
    else checkSubsetNode first ++ checkSubsetNodes rest

/-- The arguments of `math.@min` and `math.@max`: a list literal is left out. -/
def checkSubsetFolded : List (Expr ℤ) → List Violation
  | [] => []
  | arg :: rest => (if isListExpr arg then [] else checkSubsetNode arg) ++ checkSubsetFolded rest

/-- Nodes in order. -/
def checkSubsetNodes : List (Expr ℤ) → List Violation
  | [] => []
  | e :: rest => checkSubsetNode e ++ checkSubsetNodes rest

/-- `CheckSubsetMap`. -/
def checkSubsetMap : MapEntries ℤ → List Violation
  | .nil => []
  | .cons _ key value rest => checkSubsetNode key ++ checkSubsetNode value ++ checkSubsetMap rest

end

/-- The status of a refusal: its message, and the ids its payload lists. -/
structure Refusal where
  message : String
  ids : String

/-- **`RejectDyn`**, of a checked expression. -/
def rejectDyn (e : Expr ℤ) : Except Refusal Unit :=
  match checkSubsetNode types formatTypeSpec e with
  | [] => .ok ()
  | violations =>
    .error
      { message := "expression is not in the static subset:\n" ++
          "\n".intercalate (violations.map fun v =>
            "  expr id=" ++ toString v.exprId ++ " is " ++ v.kind ++ " (" ++ v.detail ++ ")")
        ids := ",".intercalate (violations.map fun v => toString v.exprId) }

end Gate

end CelWasm
