import CelWasm.Eval.HostEncode
import CelWasm.Runtime.Dispatch
import CelWasm.Runtime.MapPairs

/-!
# Eval/HostMap — keyed reads of a host map

A host map compares keys on the host's side, after decoding the query into a host value; only the
four key kinds decode, and any other query is a type error. An arena map compares any query with its
keys. So the two answer alike on queries of a key kind, and on no other.
-/

namespace CelWasm

/-- The host's `AbsorbBinary`: the first ERROR, or else the first UNKNOWN. -/
def absorbBinary (a b : CelValue) (body : Kernel CelValue) : Kernel CelValue :=
  match a, b with
  | .error e, _ => return .error e
  | _, .error e => return .error e
  | .unknown s, _ => return .unknown s
  | _, .unknown s => return .unknown s
  | _, _ => body

/-- `DecodeKey`: the host value of a query of a key kind. -/
def decodeKey : CelValue → Option HostValue
  | .bool b => some (.bool b)
  | .int i => some (.int i)
  | .uint u => some (.uint u)
  | .string s => some (.string s)
  | _ => none

/-- `MapKeysEqual`. -/
def mapKeysEqual : HostValue → HostValue → Bool
  | .int a, .int b => a == b
  | .uint a, .uint b => a == b
  | .int a, .uint b => decide (0 ≤ a) && a.toUInt64 == b
  | .uint a, .int b => decide (0 ≤ b) && a == b.toUInt64
  | .bool a, .bool b => a == b
  | .string a, .string b => a == b
  | _, _ => false

/-- The host's `IsValidMapKeyKind`. -/
def HostValue.isValidMapKeyKind : HostValue → Bool
  | .bool _ | .int _ | .uint _ | .string _ => true
  | _ => false

/-- `HostMap::Get`. -/
def hostMapGet (entries : List (HostValue × HostValue)) (key : HostValue) : HostValue :=
  if !key.isValidMapKeyKind then .error .typeMismatch
  else
    match entries.find? fun e => mapKeysEqual e.1 key with
    | some e => e.2
    | none => .error .noSuchKey

/-- `HostMap::ContainsKey`. -/
def hostMapContainsKey (entries : List (HostValue × HostValue)) (key : HostValue) : Bool :=
  if !key.isValidMapKeyKind then false else entries.any fun e => mapKeysEqual e.1 key

/-- **`CelMapLookupImpl`**. -/
def celMapLookupImpl (m key : CelValue) : Kernel CelValue :=
  if key.isPoison then return key
  else if m.isPoison then return m
  else
    match m with
    | .mapHost entries =>
      match decodeKey key with
      | some key => encodeValue (hostMapGet entries key)
      | none => return .error .typeMismatch
    | _ => return .error .typeMismatch

/-- **`CelMapInImpl`**. -/
def celMapInImpl (key m : CelValue) : Kernel CelValue :=
  absorbBinary key m <|
    match m with
    | .mapHost entries =>
      match decodeKey key with
      | some key => return .bool (hostMapContainsKey entries key)
      | none => return .error .typeMismatch
    | _ => return .error .typeMismatch

/-- The imports with the host maps' keyed reads. -/
def CelHost.withHostMaps (host : CelHost) : CelHost :=
  { host with mapLookup := celMapLookupImpl, mapIn := celMapInImpl }

/-! ## Keys on the two sides -/

/-- A query of a key kind is written as itself. -/
theorem encoded_of_decodeKey {query : CelValue} {key : HostValue} (h : decodeKey query = some key) :
    key.encoded = some query ∧ key.isValidMapKeyKind = true ∧ isValidMapKeyKind query = true := by
  cases query <;> simp only [decodeKey, reduceCtorEq, Option.some.injEq] at h <;> subst h <;>
    exact ⟨rfl, rfl, rfl⟩

theorem decodeKey_eq_none_iff {query : CelValue} :
    decodeKey query = none ↔ isValidMapKeyKind query = false := by
  cases query <;> simp [decodeKey, isValidMapKeyKind]

theorem HostValue.isValidMapKeyKind_iff {k : HostValue} : k.isValidMapKeyKind = true ↔
    (∃ b, k = .bool b) ∨ (∃ i, k = .int i) ∨ (∃ u, k = .uint u) ∨ ∃ s, k = .string s := by
  cases k <;> simp [isValidMapKeyKind]

/-- **A host key and a stored key are equal to the same queries.** -/
theorem mapKeysEqual_eq {k q : HostValue} {k' q' : CelValue} (hk : k.encoded = some k')
    (hq : q.encoded = some q') (hkind : k.isValidMapKeyKind = true)
    (hkind' : q.isValidMapKeyKind = true) : mapKeysEqual k q = celMapKeyEq k' q' := by
  have mixed : ∀ (i : Int64) (u : UInt64),
      (decide (0 ≤ i) && i.toUInt64 == u) = true ↔ i.toInt = (u.toNat : ℤ) := by
    intro i u
    rw [Bool.and_eq_true, decide_eq_true_iff, beq_iff_eq, ← cmpIntVsUint_eq_equal, cmpIntVsUint_iff]
  rw [HostValue.isValidMapKeyKind_iff] at hkind hkind'
  obtain ⟨b, rfl⟩ | ⟨i, rfl⟩ | ⟨u, rfl⟩ | ⟨s, rfl⟩ := hkind <;>
    obtain ⟨c, rfl⟩ | ⟨j, rfl⟩ | ⟨v, rfl⟩ | ⟨t, rfl⟩ := hkind' <;>
    obtain rfl := Option.some.inj hk <;> obtain rfl := Option.some.inj hq <;>
    rw [Bool.eq_iff_iff, celMapKeyEq_iff rfl]
  case inr.inl.inr.inr.inl => simpa [mapKeysEqual, keyClass] using mixed i v
  case inr.inr.inl.inr.inl =>
    have hswap : (u == j.toUInt64) = (j.toUInt64 == u) := Bool.beq_comm
    simp only [mapKeysEqual, keyClass, hswap, Option.some.injEq, KeyClass.integer.injEq]
    exact (mixed j u).trans eq_comm
  all_goals simp [mapKeysEqual, keyClass, Int64.toInt_inj, UInt64.toNat_inj]

/-! ## The two maps -/

/-- **An arena map holds the entries of a host map**: each key and each value as its cell. -/
def EncodedEntries (entries : List (HostValue × HostValue)) (cells : List (CelValue × CelValue)) :
    Prop :=
  List.Forall₂ (fun e c => e.1.encoded = some c.1 ∧ e.2.encoded = some c.2) entries cells

section Maps

variable {entries : List (HostValue × HostValue)} {cells : List (CelValue × CelValue)}
  {query : CelValue} {key : HostValue}

/-- The entry a query finds is the same on both sides. -/
theorem EncodedEntries.find? (h : EncodedEntries entries cells)
    (hkinds : ∀ e ∈ entries, e.1.isValidMapKeyKind = true) (hkey : decodeKey query = some key) :
    (hostMapGet entries key).encoded
        = some (((cells.find? fun c => celMapKeyEq c.1 query).map Prod.snd).getD
          (.error .noSuchKey)) ∧
      hostMapContainsKey entries key = (cells.find? fun c => celMapKeyEq c.1 query).isSome := by
  obtain ⟨hencoded, hkind, -⟩ := encoded_of_decodeKey hkey
  rw [hostMapGet, hostMapContainsKey, hkind]
  simp only [Bool.not_true, Bool.false_eq_true, if_false]
  induction h with
  | nil => exact ⟨rfl, rfl⟩
  | @cons e c entries cells hec _ ih =>
    have heq : mapKeysEqual e.1 key = celMapKeyEq c.1 query :=
      mapKeysEqual_eq hec.1 hencoded (hkinds e List.mem_cons_self) hkind
    rw [List.find?_cons, List.find?_cons, List.any_cons, heq]
    cases celMapKeyEq c.1 query with
    | true => exact ⟨hec.2, rfl⟩
    | false => exact ih fun e he => hkinds e (List.mem_cons_of_mem _ he)

/-- Stored keys are of the key kinds on both sides. -/
theorem EncodedEntries.valid (h : EncodedEntries entries cells)
    (hkinds : ∀ e ∈ entries, e.1.isValidMapKeyKind = true) :
    ∀ c ∈ cells, isValidMapKeyKind c.1 = true := by
  induction h with
  | nil => exact nofun
  | @cons e c entries cells hec _ ih =>
    rw [List.forall_mem_cons] at hkinds ⊢
    refine ⟨?_, ih hkinds.2⟩
    have hkind := hkinds.1
    have hcell := hec.1
    rw [HostValue.isValidMapKeyKind_iff] at hkind
    obtain ⟨b, hb⟩ | ⟨i, hi⟩ | ⟨u, hu⟩ | ⟨s, hs⟩ := hkind
    · rw [hb] at hcell; exact Option.some.inj hcell ▸ rfl
    · rw [hi] at hcell; exact Option.some.inj hcell ▸ rfl
    · rw [hu] at hcell; exact Option.some.inj hcell ▸ rfl
    · rw [hs] at hcell; exact Option.some.inj hcell ▸ rfl

/-- **The `in` of an arena map** is whether an entry has the key. -/
theorem granted_celMapInArena {index : Option MapIndex} (capacity : ℕ)
    (hindex : IndexedBy (cells.map Prod.fst) index)
    (hkeys : ∀ c ∈ cells, isValidMapKeyKind c.1 = true) (hquery : query.isPoison = false) :
    (celMapInArena query (.mapArena capacity cells index)).granted
      = .ok (.bool (cells.find? fun c => celMapKeyEq c.1 query).isSome) := by
  have hbody : celMapInArena query (.mapArena capacity cells index)
      = arenaMapFind cells index query >>= fun found => pure (.bool found.isSome) := by
    cases query <;> first | rfl | simp [CelValue.isPoison] at hquery
  rw [hbody, Prog.granted_bind, granted_arenaMapFind hindex hkeys query, List.isSome_find?,
    ← List.findIdx?_isSome]
  rfl

/-- A query of no key kind is a type error to a host map. -/
theorem celMapInImpl_of_decodeKey_none (hkey : decodeKey query = none)
    (hquery : query.isPoison = false) :
    celMapInImpl query (.mapHost entries) = return .error .typeMismatch := by
  cases query <;> first
    | rfl
    | (simp [decodeKey] at hkey; done)
    | simp [CelValue.isPoison] at hquery

/-- A query of a key kind is looked up among the host's keys. -/
theorem celMapInImpl_of_decodeKey (hkey : decodeKey query = some key) :
    celMapInImpl query (.mapHost entries) = return .bool (hostMapContainsKey entries key) := by
  cases query <;> first | (obtain rfl := Option.some.inj hkey; rfl) | simp [decodeKey] at hkey

theorem celMapLookupImpl_of_decodeKey (hkey : decodeKey query = some key) :
    celMapLookupImpl (.mapHost entries) query = encodeValue (hostMapGet entries key) := by
  cases query <;> first | (obtain rfl := Option.some.inj hkey; rfl) | simp [decodeKey] at hkey

/-- **A host map and an arena map of the same entries** give the same lookup and the same `in` for a
query if and only if it is poison or of a key kind. -/
theorem hostMap_agrees_iff (host : CelHost) (capacity : ℕ) {index : Option MapIndex}
    (hencoded : EncodedEntries entries cells)
    (hkinds : ∀ e ∈ entries, e.1.isValidMapKeyKind = true)
    (hindex : IndexedBy (cells.map Prod.fst) index) (query : CelValue) :
    ((celMapLookup host.withHostMaps (.mapHost entries) query).granted
        = (celMapLookup host.withHostMaps (.mapArena capacity cells index) query).granted ∧
      (celMapIn host.withHostMaps query (.mapHost entries)).granted
        = (celMapIn host.withHostMaps query (.mapArena capacity cells index)).granted) ↔
    (query.isPoison = true ∨ isValidMapKeyKind query = true) := by
  have hkeys := hencoded.valid hkinds
  change ((celMapLookupImpl (.mapHost entries) query).granted
      = (celMapLookupArena (.mapArena capacity cells index) query).granted ∧
    (unlessPoison query _ (celMapInImpl query (.mapHost entries))).granted
      = (unlessPoison query _ (celMapInArena query (.mapArena capacity cells index))).granted) ↔ _
  cases hquery : query.isPoison with
  | true =>
    refine iff_of_true ⟨?_, ?_⟩ (.inl rfl)
    · rw [celMapLookupImpl, celMapLookupArena, if_pos hquery, if_pos hquery]
    · rw [unlessPoison, unlessPoison, if_pos hquery, if_pos hquery]
  | false =>
    have hlive : ∀ m body, CelValue.isPoison m = false → unlessPoison query m body = body := by
      intro m body hm
      rw [unlessPoison, hquery, hm, if_neg Bool.false_ne_true, if_neg Bool.false_ne_true]
    rw [hlive _ _ rfl, hlive _ _ rfl, granted_celMapLookupArena capacity hindex hkeys hquery,
      granted_celMapInArena capacity hindex hkeys hquery]
    cases hkey : decodeKey query with
    | some key =>
      obtain ⟨hget, hcontains⟩ := hencoded.find? hkinds hkey
      refine iff_of_true ⟨?_, ?_⟩ (.inr (encoded_of_decodeKey hkey).2.2)
      · rw [celMapLookupImpl_of_decodeKey hkey, granted_encodeValue_of_encoded hget]
      · rw [celMapInImpl_of_decodeKey hkey, hcontains]
        rfl
    | none =>
      rw [decodeKey_eq_none_iff] at hkey
      refine iff_of_false (fun hsame => ?_) (by simp [hkey])
      rw [celMapInImpl_of_decodeKey_none (decodeKey_eq_none_iff.mpr hkey) hquery] at hsame
      cases Except.ok.inj hsame.2

end Maps

/-- The host map `{1: 'a'}`. -/
def oneEntry : List (HostValue × HostValue) := [(.int 1, .string [97])]

/-- The uint 1 finds the entry of the int 1 on both sides. -/
theorem hostMap_agrees_uint :
    (celMapLookup CelHost.stubs.withHostMaps (.mapHost oneEntry) (.uint 1)).granted
        = (celMapLookup CelHost.stubs.withHostMaps
          (.mapArena 1 [(.int 1, .string [97])] none) (.uint 1)).granted :=
  ((hostMap_agrees_iff .stubs 1 (.cons ⟨rfl, rfl⟩ .nil) (by decide) (.inl rfl) (.uint 1)).mpr
    (.inr rfl)).1

/-- A query equal to the key 1 finds its entry in the arena map. -/
theorem granted_arenaReads_of_eq {query : CelValue} (hlive : query.isPoison = false)
    (hquery : celMapKeyEq (.int 1) query = true) :
    (celMapLookupArena (.mapArena 1 [(.int 1, .string [97])] none) query).granted
        = .ok (.string [97]) ∧
      (celMapInArena query (.mapArena 1 [(.int 1, .string [97])] none)).granted
        = .ok (.bool true) := by
  have hfind : [((.int 1, .string [97]) : CelValue × CelValue)].find? (fun c => celMapKeyEq c.1 query)
      = some (.int 1, .string [97]) := by rw [List.find?_cons, hquery]
  rw [granted_celMapLookupArena 1 (.inl rfl) (by decide) hlive,
    granted_celMapInArena 1 (.inl rfl) (by decide) hlive, hfind]
  exact ⟨rfl, rfl⟩

/-- The double 1 finds it in the arena map; the host map calls the query ill-typed. -/
theorem hostMap_rejects_double :
    (celMapLookup CelHost.stubs.withHostMaps (.mapHost oneEntry) (.double (Binary64.ofInt 1))).granted
        = .ok (.error .typeMismatch) ∧
      (celMapLookup CelHost.stubs.withHostMaps (.mapArena 1 [(.int 1, .string [97])] none)
        (.double (Binary64.ofInt 1))).granted = .ok (.string [97]) ∧
      (celMapIn CelHost.stubs.withHostMaps (.double (Binary64.ofInt 1)) (.mapHost oneEntry)).granted
        = .ok (.error .typeMismatch) ∧
      (celMapIn CelHost.stubs.withHostMaps (.double (Binary64.ofInt 1))
        (.mapArena 1 [(.int 1, .string [97])] none)).granted = .ok (.bool true) := by
  obtain ⟨hlookup, hin⟩ := @granted_arenaReads_of_eq (.double (Binary64.ofInt 1)) rfl
    (by decide +kernel)
  exact ⟨rfl, hlookup, rfl, hin⟩

end CelWasm
