import CelWasm.Compiler.Ast
import CelWasm.Compiler.WasmModule

/-!
# Compiler/HostCalls — calls of the functions an embedder declares

A call is lowered to a call by name, and the overload id of a declared function is also the name of
its import in the module. An import is left out if its name is taken, by the runtime or by another
import, and if the function has more than four parameters; the call is lowered just the same.
-/

namespace CelWasm

/-! ## Lowering a call -/

/-- `IsNumericRepr`. -/
def NodeRepr.isNumeric : NodeRepr → Bool
  | int | uint | double => true
  | _ => false

/-- The overload of an ordering of two numbers of different kinds. -/
def crossNumericId (stem uintDouble : String) : NodeRepr → NodeRepr → String
  | .int, .uint => stem ++ "_int64_uint64"
  | .uint, .int => stem ++ "_uint64_int64"
  | .int, .double => stem ++ "_int64_double"
  | .double, .int => stem ++ "_double_int64"
  | .uint, .double => uintDouble
  | .double, .uint => stem ++ "_double_uint64"
  | _, _ => ""

def crossNumericLtId : NodeRepr → NodeRepr → String :=
  crossNumericId "less" "less_uint64_double"

def crossNumericLeId : NodeRepr → NodeRepr → String :=
  crossNumericId "less_equals" "less_equals_uint64_double"

def crossNumericGtId : NodeRepr → NodeRepr → String :=
  crossNumericId "greater" "greater_uint64_double"

def crossNumericGeId : NodeRepr → NodeRepr → String :=
  crossNumericId "greater_equals" "greater_equals_uint_double"

/-- `CrossNumericOverloadId`, empty where the checker's overload is kept. -/
def crossNumericOverloadId (fn : String) (a b : NodeRepr) : String :=
  if !a.isNumeric || !b.isNumeric || a == b then ""
  else if fn = "_<_" then crossNumericLtId a b
  else if fn = "_<=_" then crossNumericLeId a b
  else if fn = "_>_" then crossNumericGtId a b
  else if fn = "_>=_" then crossNumericGeId a b
  else ""

/-- A call: the representations of its arguments that are annotated, and the overloads it may
resolve to. No call is of a function without a name. -/
structure CallSite where
  exprId : Int64
  function : String
  named : function ≠ ""
  hasTarget : Bool
  argReprs : List (Option NodeRepr)
  overloads : List String

namespace CallSite

/-- The annotation of a call: the first overload, or none. -/
def overloadId (call : CallSite) : String := call.overloads.headD ""

/-- `MaybeRepickCrossNumericOverload`. -/
def maybeRepickCrossNumericOverload (call : CallSite) : String :=
  match call.hasTarget, call.argReprs with
  | false, [some a, some b] => crossNumericOverloadId call.function a b
  | _, _ => ""

/-- What becomes of a call: its argument, the two with a lowering of their own, or a call of a
helper by name. -/
inductive Lowered
  | argument
  | index
  | conditional
  | helper (name : String)

/-- `ResolveCallHelper`. -/
def resolveCallHelper (table : OverloadTable) (call : CallSite) (overloadId : String) :
    Except String String :=
  let header := "expr_lower: kCallExpr expr_id=" ++ toString call.exprId ++ " function=`" ++
    call.function ++ "`"
  if overloadId = "" then
    .error (header ++ " has empty overload_id (ResolvePass left the annotation unstamped)")
  else
    match table.lookup overloadId with
    | none =>
      .error (header ++ " overload_id=`" ++ overloadId ++ "` not registered in OverloadTable")
    | some impl => .ok impl.wasmImportFunctionName

/-- `EmitGeneralCall`, up to its operands. -/
def emitGeneralCall (table : OverloadTable) (call : CallSite) : Except String String :=
  let repicked := call.maybeRepickCrossNumericOverload
  call.resolveCallHelper table (if repicked ≠ "" then repicked else call.overloadId)

/-- **`Emit`** of a call, up to its operands. -/
def emit (table : OverloadTable) (call : CallSite) : Except String Lowered :=
  if call.function = "dyn" ∧ call.argReprs.length = 1 ∧ call.hasTarget = false then .ok .argument
  else if call.function = "_[_]" then .ok .index
  else if call.function = "_?_:_" then .ok .conditional
  else .helper <$> call.emitGeneralCall table

end CallSite

/-! ## Calls of a declared function -/

/-- The functions that are lowered by their name: the checker declares them itself, and takes no
further declaration of their names. -/
def loweredByName : List String := ["dyn", "_[_]", "_?_:_", "_<_", "_<=_", "_>_", "_>=_"]

/-- A call that the checker resolves to the declaration. -/
structure CallSite.Of (call : CallSite) (d : CelfnDecl) : Prop where
  function_eq : call.function = d.fnName
  target_eq : call.hasTarget = d.isReceiver
  operands : call.argReprs.length + call.hasTarget.toNat = d.params.length
  overload : call.overloads.head? = some d.overloadId

/-- The import of a declared function: by its overload id, with an address for the result and one for
each parameter. -/
structure WasmFunction.IsImportOf (f : WasmFunction) (d : CelfnDecl) : Prop where
  imported : f.imported = some ("cel_fn", d.overloadId)
  params : f.params = List.replicate (d.params.length + 1) .i32
  result : f.result = none

/-- **Calls reach the host**: a module is emitted with the import of each declaration, and every call
of the declaration is lowered to a call of that import. -/
def CallsReach (B : Binaryen) (mode : LinkMode) (table : OverloadTable) (decls : List CelfnDecl) :
    Prop :=
  ∃ m, emitModule B mode table = .ok m ∧ ∀ d ∈ decls,
    (∃ f ∈ m.functions, f.IsImportOf d) ∧
    ∀ call : CallSite, call.Of d → ∃ helper f, call.emit table = .ok (.helper helper) ∧
      B.getFunction m helper = some f ∧ f.IsImportOf d

/-- **The condition**: four parameters at most, and an overload id without a NUL that names nothing
else of the module. -/
structure CelfnDecl.Callable (B : Binaryen) (mode : LinkMode) (d : CelfnDecl) : Prop where
  arity : d.params.length ≤ 4
  noNul : Char.ofNat 0 ∉ d.overloadId.toList
  notBase : d.overloadId ∉ (mode.baseModule B).names
  notHelper : ∀ impl ∈ seedBuiltins, d.overloadId ≠ impl.wasmImportFunctionName
  notEval : d.overloadId ≠ evalInternalName

/-! ## Lowered calls -/

section Lowered

variable {libraries : List FunctionLibrary} {table : OverloadTable} {d : CelfnDecl}

/-- A declared function with a name has an overload id. -/
theorem CelfnDecl.Declared.overloadId_ne (h : d.Declared) (hname : d.fnName ≠ "") :
    d.overloadId ≠ "" := by
  unfold CelfnDecl.Declared addHost synthesiseOverloadId at h
  cases hslugs : d.params.mapM fun p => p.type.argkindSlug with
  | error e =>
    rw [hslugs] at h
    exact nomatch h
  | ok slugs =>
    rw [hslugs] at h
    have hid : "_".intercalate (d.fnName :: slugs) = d.overloadId :=
      congrArg CelfnDecl.overloadId (Except.ok.inj h)
    rw [← hid]
    cases slugs with
    | nil => exact fun h => hname (String.intercalate_singleton.symm.trans h)
    | cons slug rest =>
      rw [String.intercalate_cons_cons]
      exact fun h => hname (String.append_eq_empty_iff.mp (String.append_eq_empty_iff.mp h).1).1

/-- **The table finds each declaration** under its overload id. -/
theorem OverloadTable.lookup_overloadId (hbuild : buildOverloadTable libraries = .ok table)
    (hd : d ∈ declsOf libraries) : table.lookup d.overloadId = some d.overloadDef := by
  obtain ⟨himpls, hnodup, hnew⟩ := buildOverloadTable_eq_ok hbuild
  have hmem : d.overloadDef ∈ table.impls := by
    rw [himpls]
    exact List.mem_append_right _ (List.mem_map_of_mem hd)
  cases hfind : table.lookup d.overloadId with
  | none =>
    exact absurd (beq_self_eq_true d.overloadId) (List.find?_eq_none.mp hfind d.overloadDef hmem)
  | some impl =>
    have hid : impl.overloadId = d.overloadId := beq_iff_eq.mp
      (@List.find?_some _ (fun impl : OverloadDef => impl.overloadId == d.overloadId) _ _ hfind)
    have himpl := List.mem_of_find?_eq_some hfind
    rw [himpls] at himpl
    obtain himpl | himpl := List.mem_append.mp himpl
    · exact absurd (hid ▸ List.mem_map_of_mem himpl) (hnew d hd).1
    · obtain ⟨d', hd', rfl⟩ := List.mem_map.mp himpl
      rw [List.inj_on_of_nodup_map hnodup hd' hd hid]

/-- **A call of a declaration is lowered** to a call by the overload id. -/
theorem CallSite.Of.emit {call : CallSite} (hcall : call.Of d)
    (hbuild : buildOverloadTable libraries = .ok table) (hd : d ∈ declsOf libraries)
    (hname : d.fnName ∉ loweredByName) : call.emit table = .ok (.helper d.overloadId) := by
  have hfunction : call.function ∉ loweredByName := hcall.function_eq ▸ hname
  simp only [loweredByName, List.mem_cons, List.not_mem_nil, or_false, not_or] at hfunction
  obtain ⟨hdyn, hindex, hconditional, hlt, hle, hgt, hge⟩ := hfunction
  have hrepick : call.maybeRepickCrossNumericOverload = "" := by
    unfold CallSite.maybeRepickCrossNumericOverload
    split
    · rw [crossNumericOverloadId, if_neg hlt, if_neg hle, if_neg hgt, if_neg hge, ite_self]
    · rfl
  obtain ⟨lib, hlib, hdecl⟩ := List.mem_flatMap.mp hd
  have hid : d.overloadId ≠ "" :=
    (lib.declared d hdecl).overloadId_ne (hcall.function_eq ▸ call.named)
  have hoverload : call.overloadId = d.overloadId := by
    rw [CallSite.overloadId, List.headD_eq_head?_getD, hcall.overload, Option.getD_some]
  have hgeneral : call.emitGeneralCall table = .ok d.overloadId := by
    unfold CallSite.emitGeneralCall
    dsimp only
    rw [hrepick, if_neg (not_not_intro rfl), hoverload, CallSite.resolveCallHelper, if_neg hid,
      OverloadTable.lookup_overloadId hbuild hd]
    rfl
  rw [CallSite.emit, if_neg (fun h => hdyn h.1), if_neg hindex, if_neg hconditional, hgeneral]
  rfl

end Lowered

/-! ## The imports of the declarations -/

section Imports

variable {B : Binaryen} {mode : LinkMode} {libraries : List FunctionLibrary} {table : OverloadTable}
  {m : WasmModule} {d : CelfnDecl}

/-- The module and the pairs as they are once the seeds have been installed. -/
def seedState (B : Binaryen) (mode : LinkMode) : WasmModule × List (String × String) :=
  seedBuiltins.foldl (installStep B) (mode.baseModule B, [])

theorem cString_cel_ne : cString "cel" ≠ "cel_fn" := by
  rw [cString_eq_self (nul_notMem_of_bytes (by decide))]
  decide

/-- No seed is imported from `cel_fn`. -/
theorem cString_seed_module {impl : OverloadDef} (himpl : impl ∈ seedBuiltins) :
    impl.wasmImportModuleType.importModuleName ≠ "cel_fn" ∧
      cString impl.wasmImportModuleType.importModuleName ≠ "cel_fn" := by
  obtain ⟨seed, -, rfl⟩ := List.mem_map.mp himpl
  have hcel : "cel" ≠ "cel_fn" := by decide
  exact ⟨hcel, cString_cel_ne⟩

/-- The names once the seeds are installed: those from the start, and the helpers'. -/
theorem mem_names_seedState {name : String} : name ∈ (seedState B mode).1.names ↔
    name ∈ (mode.baseModule B).names ∨
      ∃ impl ∈ seedBuiltins, name = impl.wasmImportFunctionName := by
  refine ⟨fun h => ?_, ?_⟩
  · obtain ⟨added, hadded, hmem⟩ :=
      foldl_installStep_functions seedBuiltins (mode.baseModule B, [])
    rw [seedState, WasmModule.names, hadded, List.map_append] at h
    obtain h | h := List.mem_append.mp h
    · exact .inl h
    · obtain ⟨f, hf, rfl⟩ := List.mem_map.mp h
      obtain ⟨-, impl, himpl, rfl, -⟩ := hmem f hf
      exact .inr ⟨impl, himpl, cString_seedBuiltins impl himpl⟩
  · rintro (h | ⟨impl, himpl, rfl⟩)
    · exact mem_names_foldl_installStep h
    · rw [← cString_seedBuiltins impl himpl]
      exact name_mem_foldl_installStep seedBuiltins_installable (fun _ h => absurd h List.not_mem_nil)
        impl himpl

/-- **An import from `cel_fn` is of a declaration**, under a name that was new. -/
theorem mem_functions_of_cel_fn (hbuild : buildOverloadTable libraries = .ok table)
    (hemit : emitModule B mode table = .ok m) {f : WasmFunction} (hf : f ∈ m.functions)
    {base : String} (himported : f.imported = some ("cel_fn", base)) :
    f.name ∉ (seedState B mode).1.names ∧ f.name ≠ evalInternalName ∧
      ∃ d ∈ declsOf libraries, f = d.overloadDef.importedFunction ∧ d.overloadDef.Installable := by
  obtain ⟨himpls, -, -⟩ := buildOverloadTable_eq_ok hbuild
  obtain ⟨heval, rfl⟩ := emitModule_eq_ok_iff.mp hemit
  obtain hf | hf := List.mem_append.mp hf
  swap
  · rw [List.mem_singleton.mp hf] at himported
    exact nomatch himported
  have hne : f.name ≠ evalInternalName := fun heq =>
    heval (cString_evalInternalName.symm ▸ heq ▸ List.mem_map_of_mem hf)
  have hfold : f ∈ (table.impls.foldl (installStep B) (mode.baseModule B, [])).1.functions := by
    obtain hinstalled | hinstalled :=
      installOverloadImportsExport_cases (mode.baseModule B) table <;> rw [hinstalled] at hf
    · exact hf
    · obtain hf | hf := List.mem_append.mp hf
      · exact hf
      · rw [List.mem_singleton.mp hf] at himported
        exact absurd (congrArg Prod.fst (Option.some.inj himported)) cString_cel_ne
  rw [himpls, List.foldl_append] at hfold
  obtain ⟨added, hadded, hnew⟩ :=
    foldl_installStep_functions ((declsOf libraries).map CelfnDecl.overloadDef) (seedState B mode)
  rw [seedState] at hadded
  rw [hadded] at hfold
  obtain hfold | hfold := List.mem_append.mp hfold
  · obtain ⟨seeds, hseeds, himports⟩ :=
      foldl_installStep_functions seedBuiltins (mode.baseModule B, [])
    rw [hseeds] at hfold
    obtain hfold | hfold := List.mem_append.mp hfold
    · exact absurd himported (LinkMode.baseModule_no_cel_fn mode f hfold base)
    · obtain ⟨-, impl, himpl, rfl, -⟩ := himports f hfold
      exact absurd (congrArg Prod.fst (Option.some.inj himported)) (cString_seed_module himpl).2
  · obtain ⟨hname, impl, himpl, heq, hinstallable⟩ := hnew f hfold
    obtain ⟨d, hd, rfl⟩ := List.mem_map.mp himpl
    exact ⟨hname, hne, d, hd, heq, hinstallable⟩

/-- The parameters of an import, if the number fits. -/
theorem CelfnDecl.Declared.numArgs_toNat (h : d.Declared) (harity : d.params.length ≤ 4) :
    d.numArgs.toNat = d.params.length + 1 := by
  rw [h.numArgs_eq, UInt8.toNat_add, UInt8.toNat_ofNat']
  simp
  omega

/-- **A declaration's import is found by its name**, if every declaration is callable. -/
theorem getFunction_overloadId (hbuild : buildOverloadTable libraries = .ok table)
    (hcallable : ∀ d ∈ declsOf libraries, d.Callable B mode) (hd : d ∈ declsOf libraries) :
    B.getFunction (table.impls.foldl (installStep B) (mode.baseModule B, [])).1 d.overloadId
      = some d.overloadDef.importedFunction := by
  obtain ⟨himpls, hnodup, -⟩ := buildOverloadTable_eq_ok hbuild
  rw [himpls, List.foldl_append]
  have hname : ∀ d ∈ declsOf libraries, cString d.overloadId = d.overloadId :=
    fun d hd => cString_eq_self (hcallable d hd).noNul
  refine @getFunction_foldl_installStep_of_new _ _ (seedState B mode) ?_ ?_ d.overloadDef
    (List.mem_map_of_mem hd)
  · rw [List.map_map]
    exact (List.map_congr_left hname).symm ▸ hnodup
  · refine List.forall_mem_map.mpr fun d hd => ⟨?_, ?_, ?_⟩
    · obtain ⟨lib, hlib, hdecl⟩ := List.mem_flatMap.mp hd
      have hargs := (lib.declared d hdecl).numArgs_toNat (hcallable d hd).arity
      have harity := (hcallable d hd).arity
      change 1 ≤ d.numArgs.toNat ∧ d.numArgs.toNat ≤ 5
      omega
    · change cString d.overloadId ∉ _
      rw [hname d hd, mem_names_seedState]
      rintro (h | ⟨impl, himpl, heq⟩)
      · exact (hcallable d hd).notBase h
      · exact (hcallable d hd).notHelper impl himpl heq
    · rw [seedState, foldl_installStep_installed]
      rintro (⟨impl, himpl, heq⟩ | h)
      · exact (cString_seed_module himpl).1 (congrArg Prod.fst heq).symm
      · exact nomatch h

end Imports

/-! ## The condition -/

section Condition

variable {B : Binaryen} {mode : LinkMode} {libraries : List FunctionLibrary} {table : OverloadTable}
  {m : WasmModule} {d : CelfnDecl}

/-- The import of a callable declaration is as it should be. -/
theorem CelfnDecl.Callable.isImportOf (h : d.Callable B mode) (hdeclared : d.Declared) :
    d.overloadDef.importedFunction.IsImportOf d where
  imported := by
    have hmodule : cString "cel_fn" = "cel_fn" := cString_eq_self (nul_notMem_of_bytes (by decide))
    exact congrArg₂ (fun module base => some (module, base)) hmodule (cString_eq_self h.noNul)
  params := congrArg (List.replicate · WasmType.i32) (hdeclared.numArgs_toNat h.arity)
  result := rfl

/-- **Declarations with imports are callable**: what is imported has the arity and the name that were
free. -/
theorem callable_of_imports (hbuild : buildOverloadTable libraries = .ok table)
    (hemit : emitModule B mode table = .ok m)
    (himports : ∀ d ∈ declsOf libraries, ∃ f ∈ m.functions, f.IsImportOf d) :
    ∀ d ∈ declsOf libraries, d.Callable B mode := by
  obtain ⟨-, hnodup, -⟩ := buildOverloadTable_eq_ok hbuild
  have hbase : ∀ d : CelfnDecl, ∀ c : CelfnDecl, c.overloadDef.importedFunction.IsImportOf d →
      cString c.overloadId = d.overloadId :=
    fun d c h => congrArg Prod.snd (Option.some.inj h.imported)
  have hnul : ∀ d ∈ declsOf libraries, Char.ofNat 0 ∉ d.overloadId.toList := fun d hd => by
    obtain ⟨f, hf, himport⟩ := himports d hd
    obtain ⟨-, -, c, -, rfl, -⟩ := mem_functions_of_cel_fn hbuild hemit hf himport.imported
    exact hbase d c himport ▸ nul_notMem_cString c.overloadId
  intro d hd
  obtain ⟨f, hf, himport⟩ := himports d hd
  obtain ⟨hname, heval, c, hc, rfl, hinstallable⟩ :=
    mem_functions_of_cel_fn hbuild hemit hf himport.imported
  have hid : c.overloadId = d.overloadId :=
    (cString_eq_self (hnul c hc)).symm.trans (hbase d c himport)
  obtain rfl := List.inj_on_of_nodup_map hnodup hc hd hid
  have hcname : c.overloadDef.importedFunction.name = c.overloadId := cString_eq_self (hnul c hc)
  rw [hcname] at hname heval
  rw [mem_names_seedState, not_or] at hname
  have hlength : c.numArgs.toNat = c.params.length + 1 := by
    have hparams : List.replicate c.numArgs.toNat WasmType.i32
        = List.replicate (c.params.length + 1) WasmType.i32 := himport.params
    simpa using congrArg List.length hparams
  have hle : c.numArgs.toNat ≤ 5 := hinstallable.2
  exact ⟨by omega, hnul c hc, hname.1, fun impl himpl heq => hname.2 ⟨impl, himpl, heq⟩, heval⟩

/-- **A module is emitted** if every declaration is callable. -/
theorem exists_emitModule_of_callable (hbuild : buildOverloadTable libraries = .ok table)
    (hcallable : ∀ d ∈ declsOf libraries, d.Callable B mode) :
    ∃ m, emitModule B mode table = .ok m := by
  obtain ⟨himpls, -, -⟩ := buildOverloadTable_eq_ok hbuild
  have hseeds : ∀ impl ∈ seedBuiltins, impl.wasmImportFunctionName ≠ evalInternalName := by
    set_option maxRecDepth 2000 in decide
  refine exists_emitModule fun impl himpl => ?_
  rw [himpls] at himpl
  obtain himpl | himpl := List.mem_append.mp himpl
  · rw [cString_seedBuiltins impl himpl]
    exact hseeds impl himpl
  · obtain ⟨d, hd, rfl⟩ := List.mem_map.mp himpl
    exact (cString_eq_self (hcallable d hd).noNul).trans_ne (hcallable d hd).notEval

/-- **Calls reach the host exactly if every declaration is callable**: at most four parameters, and
an overload id that as a name of the module is new. -/
theorem callsReach_iff (B : Binaryen) (mode : LinkMode) {libraries : List FunctionLibrary}
    {table : OverloadTable} (hbuild : buildOverloadTable libraries = .ok table)
    (hchecker : ∀ d ∈ declsOf libraries, d.fnName ∉ loweredByName) :
    CallsReach B mode table (declsOf libraries) ↔ ∀ d ∈ declsOf libraries, d.Callable B mode := by
  constructor
  · rintro ⟨m, hemit, hreach⟩
    exact callable_of_imports hbuild hemit fun d hd => (hreach d hd).1
  · intro hcallable
    obtain ⟨m, hemit⟩ := exists_emitModule_of_callable hbuild hcallable
    refine ⟨m, hemit, fun d hd => ?_⟩
    obtain ⟨lib, -, hdecl⟩ := List.mem_flatMap.mp hd
    have himport := (hcallable d hd).isImportOf (lib.declared d hdecl)
    have hget : B.getFunction m d.overloadId = some d.overloadDef.importedFunction :=
      getFunction_emitModule hemit (getFunction_overloadId hbuild hcallable hd)
    have hmem := List.mem_of_find?_eq_some ((B.getFunction_eq m d.overloadId).symm.trans hget)
    refine ⟨⟨_, hmem, himport⟩, fun call hcall => ?_⟩
    exact ⟨d.overloadId, _, hcall.emit hbuild hd (hchecker d hd), hget, himport⟩

/-- A declaration of integers. -/
def intDecl (fnName overloadId : String) (numArgs : UInt8) (arity : ℕ) : CelfnDecl where
  fnName
  moduleName := "cel_fn"
  overloadId
  numArgs
  isReceiver := false
  params := List.replicate arity ⟨false, .int, ""⟩
  returnType := .int

/-- The table of one declaration with a new id. -/
theorem buildOverloadTable_singleton {libraries : List FunctionLibrary} {d : CelfnDecl}
    (hdecls : declsOf libraries = [d]) (hargs : ¬ d.numArgs < 1)
    (hnew : ∀ impl ∈ seedBuiltins, impl.overloadId ≠ d.overloadId) :
    buildOverloadTable libraries = .ok ⟨seedBuiltins ++ [d.overloadDef]⟩ := by
  have hcheck : ¬ (d.overloadDef.wasmImportModuleType = .cel ∨ d.overloadDef.numArgs < 1) :=
    not_or.mpr ⟨nofun, hargs⟩
  have hfind : seedBuiltins.findIdx? (fun impl => impl.overloadId == d.overloadDef.overloadId)
      = none :=
    List.findIdx?_eq_none_iff.mpr fun impl himpl => beq_eq_false_iff_ne.mpr (hnew impl himpl)
  rw [buildOverloadTable, hdecls, List.map_singleton, OverloadTable.build, appendCustoms,
    if_neg hcheck, hfind]
  rfl

/-- A library of one function, of one integer. -/
def unaryLibrary : FunctionLibrary where
  decls := [intDecl "f" "f_int" 2 1]
  declared := List.forall_mem_singleton.mpr (by rfl)
  accepted := by rfl

/-- A library of one function, of five integers. -/
def quinaryLibrary : FunctionLibrary where
  decls := [intDecl "f" "f_int_int_int_int_int" 6 5]
  declared := List.forall_mem_singleton.mpr (by rfl)
  accepted := by rfl

/-- Calls of a function of one integer reach the host. -/
theorem callsReach_unary : ∃ table, buildOverloadTable [unaryLibrary] = .ok table ∧
    CallsReach .inList .dynamic table (declsOf [unaryLibrary]) := by
  have hrows : ∀ row ∈ exprModuleImports, row.internalName ≠ "f_int" := by decide
  have hbase : "f_int" ∉ (LinkMode.dynamic.baseModule .inList).names := fun hmem => by
    obtain hmem | ⟨row, hrow, heq⟩ := mem_names_installImports hmem
    · exact nomatch hmem
    · exact hrows row hrow ((cString_internalName row hrow).symm.trans heq.symm)
  have hseeds : ∀ impl ∈ seedBuiltins, "f_int" ≠ impl.wasmImportFunctionName := by
    set_option maxRecDepth 2000 in decide
  have hcallable : (intDecl "f" "f_int" 2 1).Callable .inList .dynamic :=
    ⟨by decide, nul_notMem_of_bytes (by decide), hbase, hseeds, by decide⟩
  have hbuild := @buildOverloadTable_singleton [unaryLibrary] _ rfl (by decide)
    (by set_option maxRecDepth 2000 in decide)
  refine ⟨_, hbuild, (callsReach_iff .inList .dynamic hbuild ?_).mpr ?_⟩
  · exact List.forall_mem_singleton.mpr (by decide)
  · exact List.forall_mem_singleton.mpr hcallable

/-- **Calls of a function of five integers** are of an import that is not there. -/
theorem not_callsReach_quinary : ∃ table, buildOverloadTable [quinaryLibrary] = .ok table ∧
    (∀ d ∈ declsOf [quinaryLibrary], d.fnName ∉ loweredByName) ∧
    ¬ CallsReach .inList .dynamic table (declsOf [quinaryLibrary]) := by
  have hbuild :=
    @buildOverloadTable_singleton [quinaryLibrary] _ rfl (by decide)
      (by set_option maxRecDepth 2000 in decide)
  refine ⟨_, hbuild, List.forall_mem_singleton.mpr (by decide), ?_⟩
  rintro ⟨m, hemit, hreach⟩
  have hmem : intDecl "f" "f_int_int_int_int_int" 6 5 ∈ declsOf [quinaryLibrary] :=
    List.mem_singleton.mpr rfl
  have harity := (callable_of_imports hbuild hemit (fun d hd => (hreach d hd).1) _ hmem).arity
  exact absurd harity (by decide)

end Condition

end CelWasm
