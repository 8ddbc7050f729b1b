import CelWasm.Abi.CelfnWire

/-!
# Eval/RequiredFnCheck — whether an engine has what a program needs

Before a program is planned, every row of its table is looked up by its overload id among the
functions that have been registered. The number of parameters is compared, and if the declaration has
been kept with the function, so is the signature. The first row that is not met is the error.
-/

namespace CelWasm

/-- `RegisteredHostCallback`: the number of the import's parameters, and the declaration if the
function came with one. -/
structure RegisteredHostCallback where
  numArgs : UInt8
  declSignature : Option RequiredFunction

/-- `WasmtimeEngineState::host_callbacks`. -/
abbrev HostCallbacks := String → Option RegisteredHostCallback

namespace RequiredFunction

/-- **`SignaturesAgree`**. -/
def signaturesAgree (row registered : RequiredFunction) : Bool :=
  row.isReceiver == registered.isReceiver &&
    WireType.typesEqual row.paramTypes registered.paramTypes &&
    row.returnType.typeEquals registered.returnType

theorem signaturesAgree_iff {row registered : RequiredFunction} :
    row.signaturesAgree registered = true ↔ row.isReceiver = registered.isReceiver ∧
      row.paramTypes = registered.paramTypes ∧ row.returnType = registered.returnType := by
  rw [signaturesAgree, Bool.and_eq_true, Bool.and_eq_true, beq_iff_eq, WireType.typesEqual_iff,
    WireType.typeEquals_iff, and_assoc]

variable (row : RequiredFunction) (hostCallbacks : HostCallbacks)

/-- **`CheckHostRow`**. -/
def checkHostRow : Except String Unit :=
  match hostCallbacks row.overloadId with
  | none =>
    .error ("Engine::Plan: program requires host function `" ++ row.overloadId ++ "` (`" ++
      row.renderSignature ++ "`) but none is registered; call Engine::BindFunction (or " ++
      "AddFunction) before Plan")
  | some registered =>
    let wasmArity := row.paramTypes.length + 1
    if wasmArity ≠ registered.numArgs.toNat then
      .error ("Engine::Plan: program requires host function `" ++ row.overloadId ++
        "` with wasm arity " ++ toString wasmArity ++ " but it was registered with arity " ++
        toString registered.numArgs.toNat)
    else
      match registered.declSignature with
      | none => .ok ()
      | some declared =>
        if !row.signaturesAgree declared then
          .error ("Engine::Plan: program requires host function `" ++ row.overloadId ++
            "` with signature `" ++ row.renderSignature ++
            "` but Engine::BindFunction registered `" ++ declared.renderSignature ++
            "`; signatures must match exactly — recompile the program or fix the registration")
        else .ok ()

/-- `kRetiredPluginBackend`. -/
@[match_pattern] abbrev kRetiredPluginBackend : Int := 2

/-- One row of `CheckRequiredFunctions`; a backend that is not known is skipped. -/
def checkRow : Except String Unit :=
  match row.backend with
  | host => row.checkHostRow hostCallbacks
  | kRetiredPluginBackend =>
    .error ("Engine::Plan: program requires function `" ++ row.overloadId ++ "` (`" ++
      row.renderSignature ++ "`) via the removed wasm-component plugin backend; this engine " ++
      "supports only host-backed custom functions — recompile the program declaring the " ++
      "function with the `@host.` backend")
  | _ => .ok ()

/-- **A registration meets a row**: it has the row's overload id and the number of its parameters,
and the types that were kept with it are the row's. -/
def Registered (registered : RegisteredHostCallback) : Prop :=
  hostCallbacks row.overloadId = some registered ∧
    registered.numArgs.toNat = row.paramTypes.length + 1 ∧
    ∀ declared, registered.declSignature = some declared →
      declared.paramTypes = row.paramTypes ∧ declared.returnType = row.returnType

/-- A registration that kept a declaration agrees on what is called as a method. -/
def SameReceiver (registered : RegisteredHostCallback) : Prop :=
  ∀ declared, registered.declSignature = some declared → declared.isReceiver = row.isReceiver

variable {row hostCallbacks}

/-- **A row of the host is met** by the registration of its overload id. -/
theorem checkHostRow_iff : row.checkHostRow hostCallbacks = .ok () ↔
    ∃ registered, row.Registered hostCallbacks registered ∧ row.SameReceiver registered := by
  rw [checkHostRow]
  cases hfind : hostCallbacks row.overloadId with
  | none => exact iff_of_false (fun h => nomatch h) fun ⟨_, ⟨h, _⟩, _⟩ => nomatch hfind.symm.trans h
  | some registered =>
    have hsole : (∃ r, row.Registered hostCallbacks r ∧ row.SameReceiver r) ↔
        row.Registered hostCallbacks registered ∧ row.SameReceiver registered :=
      ⟨fun ⟨_, hr, hs⟩ => Option.some.inj (hfind.symm.trans hr.1) ▸ ⟨hr, hs⟩, fun h => ⟨_, h⟩⟩
    rw [hsole, Registered, SameReceiver, hfind]
    dsimp only
    by_cases harity : row.paramTypes.length + 1 = registered.numArgs.toNat
    · rw [if_neg (not_not_intro harity)]
      cases registered.declSignature with
      | none =>
        exact iff_of_true rfl ⟨⟨rfl, harity.symm, fun _ h => nomatch h⟩, fun _ h => nomatch h⟩
      | some declared =>
        by_cases hsame : row.signaturesAgree declared = true
        · obtain ⟨hreceiver, hparams, hreturn⟩ := signaturesAgree_iff.mp hsame
          refine iff_of_true (if_neg (by simp [hsame])) ⟨⟨rfl, harity.symm, ?_⟩, ?_⟩
          · rintro _ ⟨⟩
            exact ⟨hparams.symm, hreturn.symm⟩
          · rintro _ ⟨⟩
            exact hreceiver.symm
        · dsimp only
          rw [if_pos (by simpa using hsame)]
          refine iff_of_false (fun h => nomatch h) ?_
          rintro ⟨⟨-, -, htypes⟩, hreceiver⟩
          obtain ⟨hparams, hreturn⟩ := htypes declared rfl
          exact hsame (signaturesAgree_iff.mpr
            ⟨(hreceiver declared rfl).symm, hparams.symm, hreturn.symm⟩)
    · rw [if_pos harity]
      exact iff_of_false (fun h => nomatch h) fun h => harity h.1.2.1.symm

/-- What a row is let through for. -/
theorem checkRow_iff : row.checkRow hostCallbacks = .ok () ↔
    row.backend ≠ kRetiredPluginBackend ∧ (row.backend = host →
      ∃ registered, row.Registered hostCallbacks registered ∧ row.SameReceiver registered) := by
  rw [← checkHostRow_iff, checkRow]
  split
  · next hhost => simp [hhost]
  · next hretired => exact iff_of_false (fun h => nomatch h) fun h => h.1 hretired
  · next hhost hretired => exact iff_of_true rfl ⟨hretired, fun h => absurd h hhost⟩

end RequiredFunction

/-- **`CheckRequiredFunctions`**. -/
def checkRequiredFunctions (requiredFunctions : List RequiredFunction)
    (hostCallbacks : HostCallbacks) : Except String Unit :=
  requiredFunctions.forM fun row => row.checkRow hostCallbacks

/-- **The check of a table**: no row is for the retired backend, and each row of the host has its
registration, which agrees on the receiver; and the types that are compared are the declared ones. -/
theorem checkRequiredFunctions_exact :
    (∀ (requiredFunctions : List RequiredFunction) (hostCallbacks : HostCallbacks),
      checkRequiredFunctions requiredFunctions hostCallbacks = .ok () ↔
        ∀ row ∈ requiredFunctions,
          row.backend ≠ RequiredFunction.kRetiredPluginBackend ∧
          (row.backend = RequiredFunction.host → ∃ registered,
            row.Registered hostCallbacks registered ∧ row.SameReceiver registered)) ∧
    ∀ a b : CelType, a.hasUnset = false → b.hasUnset = false →
      ∃ wire wire', a.toWire = .ok wire ∧ b.toWire = .ok wire' ∧
        wire.typeEquals wire' = a.equals b := by
  refine ⟨fun requiredFunctions hostCallbacks => ?_, fun a b ha hb => ?_⟩
  · rw [checkRequiredFunctions, forM_eq_ok_iff]
    exact forall₂_congr fun row _ => RequiredFunction.checkRow_iff
  · obtain ⟨wire, hwire⟩ := CelType.exists_toWire_iff.mpr ha
    obtain ⟨wire', hwire'⟩ := CelType.exists_toWire_iff.mpr hb
    exact ⟨wire, wire', hwire, hwire', CelType.typeEquals_toWire hwire hwire'⟩

/-- The row of a declaration, which is let through with its registration and refused without; and a
list beside a map of lists. -/
theorem checkRequiredFunctions_exact_row :
    (∃ row, RequiredFunction.ofDecl ⟨"f", "m", "f_int", 2, true, [⟨true, .int, "x"⟩], .bool⟩ = .ok row ∧
      checkRequiredFunctions [row] (fun id => if id = "f_int" then some ⟨2, some row⟩ else none)
        = .ok () ∧
      checkRequiredFunctions [row] (fun _ => none) ≠ .ok ()) ∧
    ∃ wire wire', (CelType.list .int).toWire = .ok wire ∧
      (CelType.map .int (.list .int)).toWire = .ok wire' ∧ wire.typeEquals wire' = false := by
  refine ⟨⟨_, rfl, (checkRequiredFunctions_exact.1 _ _).mpr (List.forall_mem_singleton.mpr ?_),
    fun h => ?_⟩, checkRequiredFunctions_exact.2 (.list .int) (.map .int (.list .int)) rfl rfl⟩
  · refine ⟨by decide, fun _ => ⟨_, ⟨rfl, rfl, ?_⟩, ?_⟩⟩
    · rintro _ ⟨⟩
      exact ⟨rfl, rfl⟩
    · rintro _ ⟨⟩
      rfl
  · obtain ⟨registered, ⟨hfound, -⟩, -⟩ :=
      (List.forall_mem_singleton.mp ((checkRequiredFunctions_exact.1 _ _).mp h)).2 rfl
    exact nomatch hfound

/-- **A registration with the types of its row** is refused if only one of the two is called as a
method. -/
theorem checkRequiredFunctions_receiver :
    let row : RequiredFunction := ⟨"f_int", "f", RequiredFunction.host, [.scalar WireType.kindInt],
      .scalar WireType.kindBool, true⟩
    let registered : RegisteredHostCallback := ⟨2, some { row with isReceiver := false }⟩
    let hostCallbacks : HostCallbacks := fun id => if id = "f_int" then some registered else none
    (∀ required ∈ [row], required.backend = RequiredFunction.host →
      ∃ r, required.Registered hostCallbacks r) ∧
      checkRequiredFunctions [row] hostCallbacks ≠ .ok () := by
  intro row registered hostCallbacks
  constructor
  · intro required hrequired _
    obtain rfl := List.mem_singleton.mp hrequired
    refine ⟨registered, rfl, rfl, ?_⟩
    rintro _ ⟨⟩
    exact ⟨rfl, rfl⟩
  · intro h
    obtain ⟨r, hr, hsame⟩ := (RequiredFunction.checkRow_iff.mp
      (forM_eq_ok_iff.mp h row (List.mem_singleton.mpr rfl))).2 rfl
    obtain rfl : registered = r := Option.some.inj hr.1
    exact Bool.noConfusion (hsame _ rfl)

end CelWasm
