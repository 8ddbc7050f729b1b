import CelWasm.Runtime.Value

/-!
# Runtime/Host — the imports of the runtime module

Operations on host containers and messages leave the module through its `cel_host` imports. A kernel
takes them as a parameter: nothing about the runtime's own arms depends on what they compute.
-/

namespace CelWasm

/-- The `cel_host_*` imports, each as the value it writes to its result slot. -/
structure CelHost where
  /-- `cel_host_cel_map_lookup`: map, key. -/
  mapLookup : CelValue → CelValue → Kernel CelValue
  /-- `cel_host_cel_list_at`: list, index. -/
  listAt : CelValue → CelValue → Kernel CelValue
  /-- `cel_host_cel_list_in`: value, list. -/
  listIn : CelValue → CelValue → Kernel CelValue
  /-- `cel_host_cel_map_in`: key, map. -/
  mapIn : CelValue → CelValue → Kernel CelValue
  /-- `cel_host_cel_list_eq`. -/
  listEq : CelValue → CelValue → Kernel CelValue
  /-- `cel_host_cel_map_eq`. -/
  mapEq : CelValue → CelValue → Kernel CelValue
  /-- `cel_host_cel_list_concat`. -/
  listConcat : CelValue → CelValue → Kernel CelValue
  /-- `cel_host_cel_message_eq`. -/
  messageEq : CelValue → CelValue → Kernel CelValue
  /-- `cel_host_cel_map_iter_open`: the snapshot of a host map's entries. -/
  mapIterOpen : CelValue → Kernel (List (CelValue × CelValue))
  /-- `cel_host_cel_list_iter_open`: the snapshot of a host list as an arena list. -/
  listIterOpen : CelValue → Kernel CelValue

/-- The weak stubs a native build links: TYPE_MISMATCH, and an empty walk. -/
def CelHost.stubs : CelHost where
  mapLookup _ _ := return .error .typeMismatch
  listAt _ _ := return .error .typeMismatch
  listIn _ _ := return .error .typeMismatch
  mapIn _ _ := return .error .typeMismatch
  listEq _ _ := return .error .typeMismatch
  mapEq _ _ := return .error .typeMismatch
  listConcat _ _ := return .error .typeMismatch
  messageEq _ _ := return .error .typeMismatch
  mapIterOpen _ := return []
  listIterOpen _ := return .listArena 0 []

end CelWasm
