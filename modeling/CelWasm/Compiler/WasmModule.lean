import CelWasm.Compiler.OverloadTable
import Mathlib.Data.List.TakeWhile

/-!
# Compiler/WasmModule — the functions of the module that is emitted

A module names its functions, imports and definitions alike. The expression's module starts from the
imports every expression may need, or from the runtime it is linked with; the overloads' imports come
next, in the order of the table, each unless a function of that name is there, and `$eval` last. What
Binaryen does with a module is a parameter, by what is documented of it.
-/

namespace CelWasm

/-- The type of a parameter or a result. -/
inductive WasmType
  | i32
  | i64
  | f32
  | f64
  deriving DecidableEq

/-- A function of a module, and for an import the pair it is imported as. -/
structure WasmFunction where
  name : String
  imported : Option (String × String)
  params : List WasmType
  result : Option WasmType

/-- The functions of a module, in order. -/
structure WasmModule where
  functions : List WasmFunction

/-- A string as far as its first NUL, where a C string ends. -/
def cString (s : String) : String := String.ofList (s.toList.takeWhile (· != Char.ofNat 0))

/-- A string without a NUL is a C string. -/
theorem cString_eq_self {s : String} (h : Char.ofNat 0 ∉ s.toList) : cString s = s := by
  have hall : ∀ c ∈ s.toList, (c != Char.ofNat 0) = true :=
    fun c hc => bne_iff_ne.mpr fun heq => h (heq ▸ hc)
  rw [cString, List.takeWhile_eq_self_iff.mpr hall, String.ofList_toList]

/-- A C string has no NUL. -/
theorem nul_notMem_cString (s : String) : Char.ofNat 0 ∉ (cString s).toList := by
  rw [cString, String.toList_ofList]
  intro hmem
  exact bne_iff_ne.mp (@List.mem_takeWhile_imp _ (· != Char.ofNat 0) _ _ hmem) rfl

/-- The bytes of a string have a zero for each NUL. -/
theorem nul_notMem_of_bytes {s : String} (h : (0 : UInt8) ∉ s.toByteArray.data.toList) :
    Char.ofNat 0 ∉ s.toList := fun hmem => by
  obtain ⟨before, after, hsplit⟩ := List.append_of_mem hmem
  have hs : s = String.ofList before ++ (String.ofList [Char.ofNat 0] ++ String.ofList after) := by
    rw [← String.ofList_append, ← String.ofList_append, List.singleton_append, ← hsplit,
      String.ofList_toList]
  have hnul : (0 : UInt8) ∈ (String.ofList [Char.ofNat 0]).toByteArray.data.toList := by decide
  rw [hs, String.toByteArray_append, String.toByteArray_append, ByteArray.data_append,
    ByteArray.data_append, Array.toList_append, Array.toList_append] at h
  exact h (List.mem_append_right _ (List.mem_append_left _ hnul))

namespace WasmModule

/-- The names of the functions. -/
def names (m : WasmModule) : List String := m.functions.map WasmFunction.name

end WasmModule

/-- **Binaryen's functions on a module**, and what is documented of them. -/
structure Binaryen where
  /-- `BinaryenGetFunction`. -/
  getFunction : WasmModule → String → Option WasmFunction
  /-- `BinaryenAddFunctionImport`, by the internal name and the pair. -/
  addFunctionImport : WasmModule → String → String → String → List WasmType → Option WasmType →
    WasmModule
  /-- `BinaryenAddFunction`. -/
  addFunction : WasmModule → WasmFunction → Outcome WasmModule
  /-- A function is looked up by its name. -/
  getFunction_eq : ∀ m name,
    getFunction m name = m.functions.find? fun f => f.name == cString name
  /-- An import under a new name is a function more. -/
  addFunctionImport_of_new : ∀ {m name} module base params result, getFunction m name = none →
    addFunctionImport m name module base params result
      = ⟨m.functions ++ [⟨cString name, some (cString module, cString base), params, result⟩]⟩
  /-- Where a function of the name is there, it becomes the import. -/
  addFunctionImport_of_present : ∀ {m name f} module base params result,
    getFunction m name = some f → addFunctionImport m name module base params result
      = ⟨m.functions.map fun f => if f.name == cString name then
          { f with imported := some (cString module, cString base) } else f⟩
  /-- A definition under a new name is a function more. -/
  addFunction_of_new : ∀ {m} f, getFunction m f.name = none →
    addFunction m f = .ok ⟨m.functions ++ [f]⟩
  /-- A second function of a name aborts. -/
  addFunction_of_present : ∀ {m g} f, getFunction m f.name = some g →
    addFunction m f = .error .abort

namespace Binaryen

/-- Functions in a list, looked up from the front. -/
def inList : Binaryen where
  getFunction m name := m.functions.find? fun f => f.name == cString name
  addFunctionImport m name module base params result :=
    let imported := some (cString module, cString base)
    match m.functions.find? fun f => f.name == cString name with
    | none => ⟨m.functions ++ [⟨cString name, imported, params, result⟩]⟩
    | some _ => ⟨m.functions.map fun f => if f.name == cString name then { f with imported } else f⟩
  addFunction m f :=
    match m.functions.find? fun g => g.name == cString f.name with
    | none => .ok ⟨m.functions ++ [f]⟩
    | some _ => .error .abort
  getFunction_eq _ _ := rfl
  addFunctionImport_of_new _ _ _ _ h := by rw [h]
  addFunctionImport_of_present _ _ _ _ h := by rw [h]
  addFunction_of_new _ h := by rw [h]
  addFunction_of_present _ h := by rw [h]

end Binaryen

/-! ## The module to start from -/

/-- An import of `n` addresses: its internal name, the pair it is imported as, and its result. -/
structure ImportRow where
  internalName : String
  externalModule : String
  externalBase : String
  params : ℕ
  result : Option WasmType

/-- An import of the runtime's under its own name. -/
def runtimeImport (name : String) (params : ℕ) (result : Option WasmType) : ImportRow :=
  ⟨name, "cel", name, params, result⟩

def installImports (B : Binaryen) (rows : List ImportRow) (m : WasmModule) : WasmModule :=
  rows.foldl (fun m row => B.addFunctionImport m row.internalName row.externalModule
    row.externalBase (List.replicate row.params .i32) row.result) m

/-- `InstallCelHostImports`. -/
def celHostImports : List ImportRow :=
  [⟨"cel_get_field", "cel_host", "cel_get_field", 4, none⟩,
    ⟨"cel_has_field", "cel_host", "cel_has_field", 4, none⟩,
    ⟨"cel_make_message", "cel_host", "cel_make_message", 2, none⟩,
    ⟨"cel_set_field", "cel_host", "cel_set_field", 3, none⟩,
    ⟨"cel_wkt_unwrap_time", "cel_host", "cel_wkt_unwrap_time", 2, none⟩,
    ⟨"cel_wkt_unwrap_wrapper", "cel_host", "cel_wkt_unwrap_wrapper", 3, none⟩]

/-- `InstallMapAccessImports` and `InstallMapIterImports`. -/
def mapAccessImports : List ImportRow :=
  [runtimeImport "cel_map_lookup_arena" 3 none, runtimeImport "cel_map_lookup" 3 none,
    ⟨"cel_host_cel_map_lookup", "cel_host", "cel_map_lookup", 3, none⟩,
    runtimeImport "cel_map_in_arena" 3 none, runtimeImport "cel_map_in" 3 none,
    ⟨"cel_host_cel_map_in", "cel_host", "cel_map_in", 3, none⟩,
    runtimeImport "cel_map_iter_init" 1 (some .i32),
    runtimeImport "cel_map_iter_next" 1 (some .i32), runtimeImport "cel_map_iter_key_at" 2 none,
    runtimeImport "cel_map_iter_value_at" 2 none, runtimeImport "cel_map_count" 1 (some .i32),
    runtimeImport "cel_list_arena_view" 1 (some .i32)]

/-- `InstallMapImports`. -/
def mapImports : List ImportRow :=
  [runtimeImport "cel_map_create" 2 none, runtimeImport "cel_map_insert" 3 none,
    runtimeImport "cel_map_index_build" 1 none, runtimeImport "cel_map_insert_at" 3 none,
    runtimeImport "cel_map_insert_at_if_bool" 4 none, runtimeImport "cel_map_merge_at" 2 none,
    runtimeImport "cel_map_merge_at_if_bool" 3 none,
    runtimeImport "cel_map_insert_at_if_present" 3 none] ++ mapAccessImports

/-- `InstallListImports`. -/
def listImports : List ImportRow :=
  [runtimeImport "cel_list_create" 2 none, runtimeImport "cel_list_at_arena" 3 none,
    runtimeImport "cel_list_at" 3 none,
    ⟨"cel_host_cel_list_at", "cel_host", "cel_list_at", 3, none⟩,
    runtimeImport "cel_list_append_at" 2 none, runtimeImport "cel_list_append_at_if_bool" 3 none,
    runtimeImport "cel_list_append_at_if_present" 2 none,
    runtimeImport "cel_set_field_at_if_present" 3 none]

/-- `InstallExprModuleImports`, its functions. -/
def exprModuleImports : List ImportRow :=
  [runtimeImport "arena_reset" 0 none, runtimeImport "arena_alloc" 1 (some .i32)] ++
    celHostImports ++ mapImports ++ listImports

/-- The internal name of the function the expression becomes. -/
def evalInternalName : String := "$eval"

/-- **The runtime's module as it is adopted**: it has no `$eval`, and imports nothing of `cel_fn`. -/
structure AdoptedRuntime where
  module : WasmModule
  no_eval : evalInternalName ∉ module.names
  no_cel_fn : ∀ f ∈ module.functions, ∀ base, f.imported ≠ some ("cel_fn", base)

/-- `LinkMode`. -/
inductive LinkMode
  | dynamic
  | static (runtime : AdoptedRuntime)

/-- The module the overloads' imports are added to: a new one, or the runtime's. -/
def LinkMode.baseModule (B : Binaryen) : LinkMode → WasmModule
  | dynamic => installImports B exprModuleImports ⟨[]⟩
  | static runtime => installImports B celHostImports runtime.module

section BaseModule

variable {B : Binaryen}

/-- An import by `AddFunctionImport` is the one asked for. -/
theorem Binaryen.mem_functions_addFunctionImport {m : WasmModule} {name module base : String}
    {params : List WasmType} {result : Option WasmType} {f : WasmFunction}
    (hf : f ∈ (B.addFunctionImport m name module base params result).functions) :
    f ∈ m.functions ∨ f.imported = some (cString module, cString base) := by
  cases hfind : B.getFunction m name with
  | none =>
    rw [B.addFunctionImport_of_new module base params result hfind] at hf
    obtain hf | hf := List.mem_append.mp hf
    · exact .inl hf
    · exact .inr (congrArg WasmFunction.imported (List.mem_singleton.mp hf))
  | some g =>
    rw [B.addFunctionImport_of_present module base params result hfind] at hf
    obtain ⟨g, hg, rfl⟩ := List.mem_map.mp hf
    split_ifs
    · exact .inr rfl
    · exact .inl hg

/-- And of the name asked for. -/
theorem Binaryen.mem_names_addFunctionImport {m : WasmModule} {name module base : String}
    {params : List WasmType} {result : Option WasmType} {n : String}
    (hn : n ∈ (B.addFunctionImport m name module base params result).names) :
    n ∈ m.names ∨ n = cString name := by
  obtain ⟨f, hf, rfl⟩ := List.mem_map.mp hn
  cases hfind : B.getFunction m name with
  | none =>
    rw [B.addFunctionImport_of_new module base params result hfind] at hf
    obtain hf | hf := List.mem_append.mp hf
    · exact .inl (List.mem_map_of_mem hf)
    · exact .inr (congrArg WasmFunction.name (List.mem_singleton.mp hf))
  | some g =>
    rw [B.addFunctionImport_of_present module base params result hfind] at hf
    obtain ⟨g, hg, rfl⟩ := List.mem_map.mp hf
    refine .inl ?_
    split_ifs
    · exact List.mem_map.mpr ⟨g, hg, rfl⟩
    · exact List.mem_map_of_mem hg

theorem mem_functions_installImports : ∀ {rows : List ImportRow} {m : WasmModule}
    {f : WasmFunction}, f ∈ (installImports B rows m).functions →
    f ∈ m.functions ∨
      ∃ row ∈ rows, f.imported = some (cString row.externalModule, cString row.externalBase)
  | [], _, _, hf => .inl hf
  | row :: rest, m, f, hf => by
    obtain hf | ⟨row', hrow, heq⟩ := @mem_functions_installImports rest _ _ hf
    · exact (Binaryen.mem_functions_addFunctionImport hf).imp_right
        fun heq => ⟨row, List.mem_cons_self, heq⟩
    · exact .inr ⟨row', List.mem_cons_of_mem _ hrow, heq⟩

theorem mem_names_installImports : ∀ {rows : List ImportRow} {m : WasmModule} {n : String},
    n ∈ (installImports B rows m).names → n ∈ m.names ∨ ∃ row ∈ rows, n = cString row.internalName
  | [], _, _, hn => .inl hn
  | row :: rest, m, n, hn => by
    obtain hn | ⟨row', hrow, heq⟩ := @mem_names_installImports rest _ _ hn
    · exact (Binaryen.mem_names_addFunctionImport hn).imp_right
        fun heq => ⟨row, List.mem_cons_self, heq⟩
    · exact .inr ⟨row', List.mem_cons_of_mem _ hrow, heq⟩

/-- The imports that every module starts with are of the runtime and of its host. -/
theorem cString_externalModule : ∀ row ∈ exprModuleImports,
    cString row.externalModule ≠ "cel_fn" := by
  have hcel : cString "cel" = "cel" := cString_eq_self (nul_notMem_of_bytes (by decide))
  have hhost : cString "cel_host" = "cel_host" := cString_eq_self (nul_notMem_of_bytes (by decide))
  have hrows : ∀ row ∈ exprModuleImports,
      row.externalModule = "cel" ∨ row.externalModule = "cel_host" := by decide
  intro row hrow
  obtain h | h := hrows row hrow <;> rw [h]
  · rw [hcel]
    decide
  · rw [hhost]
    decide

/-- Their names have no NUL. -/
theorem cString_internalName : ∀ row ∈ exprModuleImports,
    cString row.internalName = row.internalName := by
  have hbytes : ∀ row ∈ exprModuleImports,
      (0 : UInt8) ∉ row.internalName.toByteArray.data.toList := by decide
  exact fun row hrow => cString_eq_self (nul_notMem_of_bytes (hbytes row hrow))

/-- None of them is the expression's function. -/
theorem internalName_ne_eval : ∀ row ∈ exprModuleImports,
    row.internalName ≠ evalInternalName := by decide

theorem celHostImports_subset : celHostImports ⊆ exprModuleImports := fun row hrow => by
  unfold exprModuleImports
  simp [hrow]

/-- **Nothing of the module to start from is imported from `cel_fn`.** -/
theorem LinkMode.baseModule_no_cel_fn (mode : LinkMode) :
    ∀ f ∈ (mode.baseModule B).functions, ∀ base, f.imported ≠ some ("cel_fn", base) := by
  intro f hf base himported
  cases mode with
  | dynamic =>
    obtain hf | ⟨row, hrow, heq⟩ := mem_functions_installImports hf
    · exact nomatch hf
    · exact cString_externalModule row hrow
        (congrArg Prod.fst (Option.some.inj (heq.symm.trans himported)))
  | static runtime =>
    obtain hf | ⟨row, hrow, heq⟩ := mem_functions_installImports hf
    · exact runtime.no_cel_fn f hf base himported
    · exact cString_externalModule row (celHostImports_subset hrow)
        (congrArg Prod.fst (Option.some.inj (heq.symm.trans himported)))

theorem LinkMode.baseModule_no_eval (mode : LinkMode) :
    evalInternalName ∉ (mode.baseModule B).names := by
  intro hmem
  cases mode with
  | dynamic =>
    obtain hmem | ⟨row, hrow, heq⟩ := mem_names_installImports hmem
    · exact nomatch hmem
    · exact internalName_ne_eval row hrow ((cString_internalName row hrow).symm.trans heq.symm)
  | static runtime =>
    obtain hmem | ⟨row, hrow, heq⟩ := mem_names_installImports hmem
    · exact runtime.no_eval hmem
    · have hrow := celHostImports_subset hrow
      exact internalName_ne_eval row hrow ((cString_internalName row hrow).symm.trans heq.symm)

end BaseModule

/-! ## The overloads' imports -/

/-- **`InstallOverloadImport`**: nothing is installed of an arity without a case. -/
def installOverloadImport (B : Binaryen) (m : WasmModule) (name moduleName : String)
    (numArgs : UInt8) : WasmModule :=
  if 1 ≤ numArgs.toNat ∧ numArgs.toNat ≤ 5 then
    B.addFunctionImport m name moduleName name (List.replicate numArgs.toNat .i32) none
  else m

/-- The loop of `InstallOverloadImportsExport`, with the pairs that are `installed`. -/
def installStep (B : Binaryen) (state : WasmModule × List (String × String)) (impl : OverloadDef) :
    WasmModule × List (String × String) :=
  let moduleName := impl.wasmImportModuleType.importModuleName
  let key := (moduleName, impl.wasmImportFunctionName)
  if key ∈ state.2 then state
  else if (B.getFunction state.1 impl.wasmImportFunctionName).isSome then (state.1, key :: state.2)
  else
    (installOverloadImport B state.1 impl.wasmImportFunctionName moduleName impl.numArgs,
      key :: state.2)

/-- **`InstallOverloadImportsExport`**. -/
def installOverloadImportsExport (B : Binaryen) (m : WasmModule) (table : OverloadTable) :
    WasmModule :=
  let state := table.impls.foldl (installStep B) (m, [])
  if ("cel", "cel_copy_slot") ∉ state.2 ∧ (B.getFunction state.1 "cel_copy_slot").isNone then
    installOverloadImport B state.1 "cel_copy_slot" "cel" 2
  else state.1

/-- **The functions of the emitted module**, up to the optimizer. -/
def emitModule (B : Binaryen) (mode : LinkMode) (table : OverloadTable) : Outcome WasmModule :=
  B.addFunction (installOverloadImportsExport B (mode.baseModule B) table)
    ⟨evalInternalName, none, [], some .i32⟩

/-! ## What is installed -/

section Installed

variable {B : Binaryen}

/-- The import of an entry of the table. -/
def OverloadDef.importedFunction (impl : OverloadDef) : WasmFunction :=
  ⟨cString impl.wasmImportFunctionName,
    some (cString impl.wasmImportModuleType.importModuleName,
      cString impl.wasmImportFunctionName),
    List.replicate impl.numArgs.toNat .i32, none⟩

/-- An arity with a case in `InstallOverloadImport`. -/
def OverloadDef.Installable (impl : OverloadDef) : Prop :=
  1 ≤ impl.numArgs.toNat ∧ impl.numArgs.toNat ≤ 5

instance (impl : OverloadDef) : Decidable impl.Installable := inferInstanceAs (Decidable (_ ∧ _))

/-- The pair an entry is remembered by. -/
def OverloadDef.key (impl : OverloadDef) : String × String :=
  (impl.wasmImportModuleType.importModuleName, impl.wasmImportFunctionName)

theorem Binaryen.getFunction_eq_none_iff {m : WasmModule} {name : String} :
    B.getFunction m name = none ↔ cString name ∉ m.names := by
  rw [B.getFunction_eq, List.find?_eq_none, WasmModule.names, List.mem_map]
  simp only [beq_iff_eq, not_exists, not_and]

theorem Binaryen.getFunction_append_singleton {m : WasmModule} {f : WasmFunction} {name : String}
    (h : B.getFunction m name = none) (hname : f.name = cString name) :
    B.getFunction ⟨m.functions ++ [f]⟩ name = some f := by
  have hfind := (B.getFunction_eq m name).symm.trans h
  rw [B.getFunction_eq, List.find?_append, hfind, Option.none_or, List.find?_cons_of_pos]
  exact beq_iff_eq.mpr hname

theorem Binaryen.getFunction_append {m : WasmModule} {fs : List WasmFunction} {f : WasmFunction}
    {name : String} (h : B.getFunction m name = some f) :
    B.getFunction ⟨m.functions ++ fs⟩ name = some f := by
  have hfind := (B.getFunction_eq m name).symm.trans h
  rw [B.getFunction_eq, List.find?_append, hfind, Option.some_or]

/-- An entry under a new name. -/
theorem installStep_of_new {m : WasmModule} {installed : List (String × String)}
    {impl : OverloadDef} (hkey : impl.key ∉ installed)
    (hname : cString impl.wasmImportFunctionName ∉ m.names) (h : impl.Installable) :
    installStep B (m, installed) impl
      = (⟨m.functions ++ [impl.importedFunction]⟩, impl.key :: installed) := by
  have hnone : B.getFunction m impl.wasmImportFunctionName = none :=
    Binaryen.getFunction_eq_none_iff.mpr hname
  unfold installStep
  dsimp only
  rw [← OverloadDef.key, if_neg hkey, hnone, if_neg (by simp), installOverloadImport,
    if_pos (And.intro h.1 h.2), B.addFunctionImport_of_new _ _ _ _ hnone]
  rfl

/-- **One step**: nothing, or the import of an entry under a new name. -/
theorem installStep_cases (m : WasmModule) (installed : List (String × String))
    (impl : OverloadDef) :
    (installStep B (m, installed) impl).1 = m ∨
      cString impl.wasmImportFunctionName ∉ m.names ∧ impl.Installable ∧
        (installStep B (m, installed) impl).1 = ⟨m.functions ++ [impl.importedFunction]⟩ := by
  by_cases hkey : impl.key ∈ installed
  · exact .inl (congrArg Prod.fst (if_pos hkey))
  · by_cases hname : cString impl.wasmImportFunctionName ∈ m.names
    · refine .inl ?_
      have hsome : (B.getFunction m impl.wasmImportFunctionName).isSome = true := by
        rw [Option.isSome_iff_ne_none]
        exact fun hnone => Binaryen.getFunction_eq_none_iff.mp hnone hname
      unfold installStep
      dsimp only
      rw [← OverloadDef.key, if_neg hkey, if_pos hsome]
    · by_cases hinstallable : impl.Installable
      · exact .inr ⟨hname, hinstallable,
          congrArg Prod.fst (installStep_of_new hkey hname hinstallable)⟩
      · refine .inl ?_
        unfold installStep
        dsimp only
        rw [← OverloadDef.key, if_neg hkey, Binaryen.getFunction_eq_none_iff.mpr hname,
          if_neg (by simp), installOverloadImport, if_neg (fun h => hinstallable ⟨h.1, h.2⟩)]

/-- **The loop adds imports** of entries under new names. -/
theorem foldl_installStep_functions : ∀ (impls : List OverloadDef)
    (state : WasmModule × List (String × String)),
    ∃ added, (impls.foldl (installStep B) state).1.functions = state.1.functions ++ added ∧
      ∀ f ∈ added, f.name ∉ state.1.names ∧
        ∃ impl ∈ impls, f = impl.importedFunction ∧ impl.Installable
  | [], state => ⟨[], (List.append_nil _).symm, nofun⟩
  | impl :: rest, (m, installed) => by
    obtain ⟨added, hadded, hmem⟩ :=
      foldl_installStep_functions rest (installStep B (m, installed) impl)
    rw [List.foldl_cons]
    obtain hsame | ⟨hnew, hinstallable, hgrown⟩ := installStep_cases m installed impl
    · rw [hsame] at hadded hmem
      refine ⟨added, hadded, fun f hf => ?_⟩
      obtain ⟨hname, impl', himpl', hfun⟩ := hmem f hf
      exact ⟨hname, impl', List.mem_cons_of_mem _ himpl', hfun⟩
    · rw [hgrown] at hadded hmem
      refine ⟨impl.importedFunction :: added, by rw [hadded, List.append_assoc]; rfl, ?_⟩
      refine List.forall_mem_cons.mpr ⟨⟨hnew, impl, List.mem_cons_self, rfl, hinstallable⟩, ?_⟩
      intro f hf
      obtain ⟨hname, impl', himpl', hfun⟩ := hmem f hf
      refine ⟨fun hin => hname ?_, impl', List.mem_cons_of_mem _ himpl', hfun⟩
      rw [WasmModule.names, List.map_append]
      exact List.mem_append_left _ hin

/-- What is there stays. -/
theorem mem_foldl_installStep {impls : List OverloadDef}
    {state : WasmModule × List (String × String)} {f : WasmFunction}
    (hf : f ∈ state.1.functions) : f ∈ (impls.foldl (installStep B) state).1.functions := by
  obtain ⟨added, hadded, -⟩ := foldl_installStep_functions impls state
  exact hadded ▸ List.mem_append_left _ hf

theorem mem_names_foldl_installStep {impls : List OverloadDef}
    {state : WasmModule × List (String × String)} {name : String}
    (h : name ∈ state.1.names) : name ∈ (impls.foldl (installStep B) state).1.names := by
  obtain ⟨f, hf, rfl⟩ := List.mem_map.mp h
  exact List.mem_map_of_mem (mem_foldl_installStep hf)

theorem getFunction_foldl_installStep {impls : List OverloadDef}
    {state : WasmModule × List (String × String)} {name : String} {f : WasmFunction}
    (h : B.getFunction state.1 name = some f) :
    B.getFunction (impls.foldl (installStep B) state).1 name = some f := by
  obtain ⟨added, hadded, -⟩ := foldl_installStep_functions impls state
  have hgrown := @Binaryen.getFunction_append B state.1 added f name h
  rwa [← hadded] at hgrown

/-- The pairs that are remembered. -/
theorem installStep_installed (state : WasmModule × List (String × String)) (impl : OverloadDef) :
    ∀ key, key ∈ (installStep B state impl).2 ↔ key = impl.key ∨ key ∈ state.2 := by
  intro key
  unfold installStep
  dsimp only
  split_ifs with hkey
  · exact ⟨.inr, fun h => h.elim (fun heq => heq ▸ hkey) id⟩
  · exact List.mem_cons
  · exact List.mem_cons

theorem foldl_installStep_installed : ∀ (impls : List OverloadDef)
    (state : WasmModule × List (String × String)) (key : String × String),
    key ∈ (impls.foldl (installStep B) state).2 ↔
      (∃ impl ∈ impls, key = impl.key) ∨ key ∈ state.2
  | [], state, key => by simp
  | impl :: rest, state, key => by
    rw [List.foldl_cons, foldl_installStep_installed rest, installStep_installed,
      List.exists_mem_cons_iff]
    exact or_left_comm.trans (or_assoc).symm

/-- **Names are there after the loop** that are to be installed with an arity that has a case. -/
theorem name_mem_foldl_installStep : ∀ {impls : List OverloadDef}
    {state : WasmModule × List (String × String)},
    (∀ impl ∈ impls, impl.Installable) → (∀ key ∈ state.2, cString key.2 ∈ state.1.names) →
    ∀ impl ∈ impls,
      cString impl.wasmImportFunctionName ∈ (impls.foldl (installStep B) state).1.names
  | [], _, _, _, _, h => nomatch h
  | impl :: rest, (m, installed), hinstallable, hkeys, impl', hmem => by
    obtain ⟨himpl, hrest⟩ := List.forall_mem_cons.mp hinstallable
    have hkept : ∀ name ∈ m.names, name ∈ (installStep B (m, installed) impl).1.names :=
      fun name => @mem_names_foldl_installStep B [impl] (m, installed) name
    have hpresent : cString impl.wasmImportFunctionName ∈
        (installStep B (m, installed) impl).1.names := by
      by_cases hkey : impl.key ∈ installed
      · exact hkept _ (hkeys impl.key hkey)
      · by_cases hname : cString impl.wasmImportFunctionName ∈ m.names
        · exact hkept _ hname
        · rw [installStep_of_new hkey hname himpl, WasmModule.names, List.map_append]
          exact List.mem_append_right _ List.mem_cons_self
    rw [List.foldl_cons]
    obtain rfl | hmem := List.mem_cons.mp hmem
    · exact mem_names_foldl_installStep hpresent
    · refine name_mem_foldl_installStep hrest (fun key hkey => ?_) impl' hmem
      obtain rfl | hkey := (installStep_installed (m, installed) impl key).mp hkey
      · exact hpresent
      · exact hkept _ (hkeys key hkey)

/-- **Entries of new names**, each once, are found by name. -/
theorem getFunction_foldl_installStep_of_new : ∀ {impls : List OverloadDef}
    {state : WasmModule × List (String × String)},
    (impls.map fun impl => cString impl.wasmImportFunctionName).Nodup →
    (∀ impl ∈ impls, impl.Installable ∧ cString impl.wasmImportFunctionName ∉ state.1.names ∧
      impl.key ∉ state.2) →
    ∀ impl ∈ impls, B.getFunction (impls.foldl (installStep B) state).1 impl.wasmImportFunctionName
      = some impl.importedFunction
  | [], _, _, _, _, h => nomatch h
  | impl :: rest, (m, installed), hnodup, hnew, impl', hmem => by
    obtain ⟨⟨hinstallable, hname, hkey⟩, hrest⟩ := List.forall_mem_cons.mp hnew
    obtain ⟨hnotin, hnodup⟩ := List.nodup_cons.mp hnodup
    rw [List.foldl_cons, installStep_of_new hkey hname hinstallable]
    obtain rfl | hmem := List.mem_cons.mp hmem
    · refine getFunction_foldl_installStep ?_
      exact Binaryen.getFunction_append_singleton (Binaryen.getFunction_eq_none_iff.mpr hname)
        rfl
    · refine getFunction_foldl_installStep_of_new hnodup (fun c hc => ?_) impl' hmem
      obtain ⟨hc₁, hc₂, hc₃⟩ := hrest c hc
      have hne : cString c.wasmImportFunctionName ≠ cString impl.wasmImportFunctionName :=
        fun heq => hnotin (List.mem_map.mpr ⟨c, hc, heq⟩)
      refine ⟨hc₁, ?_, ?_⟩
      · rw [WasmModule.names, List.map_append, List.mem_append, List.map_singleton,
          List.mem_singleton]
        exact not_or.mpr ⟨hc₂, hne⟩
      · exact fun h => (List.mem_cons.mp h).elim
          (fun heq => hne (congrArg cString (congrArg Prod.snd heq))) hc₃

end Installed

/-! ## What is emitted -/

section Emitted

variable {B : Binaryen}

/-- Every helper of a seed has an arity with a case. -/
theorem seedBuiltins_installable : ∀ impl ∈ seedBuiltins, impl.Installable := by
  set_option maxRecDepth 2000 in decide

theorem cString_seedBuiltins : ∀ impl ∈ seedBuiltins,
    cString impl.wasmImportFunctionName = impl.wasmImportFunctionName := by
  have hbytes : ∀ impl ∈ seedBuiltins,
      (0 : UInt8) ∉ impl.wasmImportFunctionName.toByteArray.data.toList := by
    set_option maxRecDepth 2000 in decide
  exact fun impl himpl => cString_eq_self (nul_notMem_of_bytes (hbytes impl himpl))

/-- The import of `cel_copy_slot`. -/
def copySlotImport : WasmFunction :=
  ⟨cString "cel_copy_slot", some (cString "cel", cString "cel_copy_slot"), [.i32, .i32], none⟩

/-- After the loop, `cel_copy_slot` at most. -/
theorem installOverloadImportsExport_cases (m : WasmModule) (table : OverloadTable) :
    installOverloadImportsExport B m table = (table.impls.foldl (installStep B) (m, [])).1 ∨
      installOverloadImportsExport B m table
        = ⟨(table.impls.foldl (installStep B) (m, [])).1.functions ++ [copySlotImport]⟩ := by
  unfold installOverloadImportsExport
  dsimp only
  split_ifs with hcopy
  · refine .inr ?_
    rw [installOverloadImport, if_pos (by decide),
      B.addFunctionImport_of_new _ _ _ _ (Option.isNone_iff_eq_none.mp hcopy.2)]
    rfl
  · exact .inl rfl

/-- **What is emitted**: the overloads' imports and then `$eval`, which must be new. -/
theorem emitModule_eq_ok_iff {mode : LinkMode} {table : OverloadTable} {m : WasmModule} :
    emitModule B mode table = .ok m ↔
      cString evalInternalName ∉ (installOverloadImportsExport B (mode.baseModule B) table).names ∧
        m = ⟨(installOverloadImportsExport B (mode.baseModule B) table).functions ++
          [⟨evalInternalName, none, [], some .i32⟩]⟩ := by
  rw [← Binaryen.getFunction_eq_none_iff, emitModule]
  cases hfind : B.getFunction (installOverloadImportsExport B (mode.baseModule B) table)
      evalInternalName with
  | none =>
    rw [B.addFunction_of_new _ hfind]
    exact ⟨fun h => ⟨rfl, (Except.ok.inj h).symm⟩, fun h => congrArg Except.ok h.2.symm⟩
  | some f =>
    rw [B.addFunction_of_present _ hfind]
    exact ⟨nofun, fun h => nomatch h.1⟩

/-- What the overloads leave under a name is found in what is emitted. -/
theorem getFunction_emitModule {mode : LinkMode} {table : OverloadTable} {m : WasmModule}
    {name : String} {f : WasmFunction} (hemit : emitModule B mode table = .ok m)
    (h : B.getFunction (table.impls.foldl (installStep B) (mode.baseModule B, [])).1 name = some f) :
    B.getFunction m name = some f := by
  obtain ⟨-, rfl⟩ := emitModule_eq_ok_iff.mp hemit
  refine Binaryen.getFunction_append ?_
  obtain hinstalled | hinstalled :=
    installOverloadImportsExport_cases (mode.baseModule B) table <;> rw [hinstalled]
  · exact h
  · exact Binaryen.getFunction_append h

theorem cString_evalInternalName : cString evalInternalName = evalInternalName :=
  cString_eq_self (nul_notMem_of_bytes (by decide))

/-- `$eval` is new if no entry of the table has the name. -/
theorem exists_emitModule {mode : LinkMode} {table : OverloadTable}
    (h : ∀ impl ∈ table.impls, cString impl.wasmImportFunctionName ≠ evalInternalName) :
    ∃ m, emitModule B mode table = .ok m := by
  refine ⟨_, emitModule_eq_ok_iff.mpr ⟨?_, rfl⟩⟩
  rw [cString_evalInternalName]
  have hfold : evalInternalName ∉
      (table.impls.foldl (installStep B) (mode.baseModule B, [])).1.names := fun hmem => by
    obtain ⟨added, hadded, hnew⟩ := foldl_installStep_functions table.impls (mode.baseModule B, [])
    rw [WasmModule.names, hadded, List.map_append] at hmem
    obtain hmem | hmem := List.mem_append.mp hmem
    · exact mode.baseModule_no_eval hmem
    · obtain ⟨f, hf, heq⟩ := List.mem_map.mp hmem
      obtain ⟨-, impl, himpl, rfl, -⟩ := hnew f hf
      exact h impl himpl heq
  obtain hinstalled | hinstalled :=
    installOverloadImportsExport_cases (mode.baseModule B) table <;> rw [hinstalled]
  · exact hfold
  · have hcopy : cString "cel_copy_slot" = "cel_copy_slot" :=
      cString_eq_self (nul_notMem_of_bytes (by decide))
    rw [WasmModule.names, List.map_append, List.mem_append, List.map_singleton, List.mem_singleton]
    exact not_or.mpr ⟨hfold, fun heq => absurd (heq.trans hcopy) (by decide)⟩

end Emitted

end CelWasm
