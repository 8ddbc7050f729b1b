import CelWasm.Eval.BindMeaning
import CelWasm.Eval.RunMeaning

/-!
# Eval/History — what a call owes to the calls before it

A call rewrites whatever it reads: the slots, the buffer up to its cursor, the table, the patterns and
the arena. What the calls before leave it is the heap and the caches. The buffers that were too small
are never freed, and a copy that the heap refuses leaves a cache wrong; apart from these a call comes
to what it comes to on an instance just planned.
-/

namespace CelWasm

variable {P : Platform} {i j : Instance P} {program : Program P} {activation : Activation}
  {unknowns : List AttributePattern} {c : Call}

/-! ## What binding the variables leaves alone -/

/-- Only the memory, the slots and the table differ. -/
structure Instance.Framed (i j : Instance P) : Prop where
  resolved : j.resolved = i.resolved
  regexCache : j.regexCache = i.regexCache
  formatCache : j.formatCache = i.formatCache
  heap : j.heap = i.heap
  arena : j.arena = i.arena
  buffer : j.buffer = i.buffer

theorem Instance.Framed.refl (i : Instance P) : i.Framed i := ⟨rfl, rfl, rfl, rfl, rfl, rfl⟩

theorem Instance.Framed.trans {k : Instance P} (h : i.Framed j) (h' : j.Framed k) : i.Framed k where
  resolved := h'.resolved.trans h.resolved
  regexCache := h'.regexCache.trans h.regexCache
  formatCache := h'.formatCache.trans h.formatCache
  heap := h'.heap.trans h.heap
  arena := h'.arena.trans h.arena
  buffer := h'.buffer.trans h.buffer

theorem Instance.framed_place (i : Instance P) (address : ℕ) (cell : CelValue) :
    i.Framed (i.place address cell).2 := by
  cases cell <;> exact ⟨rfl, rfl, rfl, rfl, rfl, rfl⟩

theorem MarshalState.framed_marshalOneVariable (attributes : List Attribute) (s : MarshalState P)
    (dv : VariableEntry) : s.inst.Framed (s.marshalOneVariable attributes dv).2.inst := by
  rw [marshalOneVariable]
  split
  · exact .refl _
  · split
    · rw [encodeUnknownVariable]
      split
      · exact .refl _
      · exact ⟨rfl, rfl, rfl, rfl, rfl, rfl⟩
    · split
      · exact .refl _
      · exact .refl _
      · split
        · exact .refl _
        · obtain ⟨hresolved, hregex, hformat, hheap, harena, hbuffer⟩ :=
            s.inst.framed_place s.next (by assumption)
          exact ⟨hresolved, hregex, hformat, hheap, harena, hbuffer⟩

theorem MarshalState.framed_marshalVariables (attributes : List Attribute) :
    ∀ (entries : List VariableEntry) (s : MarshalState P),
      s.inst.Framed (s.marshalVariables attributes entries).2.inst
  | [], s => .refl _
  | dv :: rest, s => by
    have hone := framed_marshalOneVariable attributes s dv
    rw [marshalVariables]
    generalize s.marshalOneVariable attributes dv = marshalled at hone ⊢
    obtain ⟨_ | status, s'⟩ := marshalled
    · exact hone.trans (framed_marshalVariables attributes rest s')
    · exact hone

/-- The buffer changes nothing that a cache holds. -/
theorem Instance.sameCaches_reserve (i : Instance P) (firstVarName : String) (need : UInt32) :
    i.SameCaches (i.reserve firstVarName need).2 := by
  rw [reserve]
  split
  · rw [ensureActivationBuffer]
    split
    · exact ⟨rfl, rfl, rfl⟩
    · split <;> exact ⟨rfl, rfl, rfl⟩
  · exact ⟨rfl, rfl, rfl⟩

/-- **Binding the variables leaves the caches alone**, also where it fails. -/
theorem Instance.sameCaches_marshalActivation (i : Instance P) (abi : CelAbi)
    (activation : Activation) : i.SameCaches (i.marshalActivation abi activation).2 := by
  rw [marshalActivation]
  split
  case h_1 => exact ⟨rfl, rfl, rfl⟩
  case h_2 stringBytes activation' _ =>
    have hsame := i.sameCaches_reserve ((abi.entries.head?.map VariableEntry.name).getD "")
      (stringBytes + unknownDescriptorBytes
        * UInt32.ofNat (countUnknownVariables abi.attributes i.unknownPatterns abi.entries))
    dsimp only
    generalize i.reserve _ _ = reserved at hsame ⊢
    obtain ⟨_ | status, j⟩ := reserved
    · have hframed := MarshalState.framed_marshalVariables abi.attributes abi.entries
        { inst := j, arena := { capacity := j.buffer.capacity, cursor := 0 }, activation := activation' }
      exact ⟨hsame.1.trans hframed.resolved.symm, hsame.2.1.trans hframed.regexCache.symm,
        hsame.2.2.trans hframed.formatCache.symm⟩
    · exact hsame

/-! ## The conditions -/

/-- Whether the binding of a call's variables fails, and the instance its body starts from. -/
def Instance.begin (program : Program P) (i : Instance P) : Call → Option Status × Instance P
  | .eval activation => i.bindVariables program activation []
  | .partialEval activation unknowns => i.bindVariables program activation unknowns
  | .evalOnly => (none, i)

/-- A condition holds at every step of a call's body. -/
def Instance.AtEveryStep (program : Program P)
    (C : Body P.format.Compiled program.abi.entries.length → Instance P → Prop) (i : Instance P)
    (c : Call) : Prop :=
  ∀ j, i.begin program c = (none, j) → program.body.Always program.abi C [] j.arenaReset

/-- **In every call of a sequence the refills are whole.** -/
def WholeAlong (program : Program P) : List Call → Instance P → Prop
  | [], _ => True
  | c :: calls, i =>
    i.AtEveryStep program Body.RefillWhole c ∧ WholeAlong program calls (i.call program c).2

/-- The activation and the patterns of a call that has them. -/
def Call.arguments : Call → Option (Activation × List AttributePattern)
  | .eval activation => some (activation, [])
  | .partialEval activation unknowns => some (activation, unknowns)
  | .evalOnly => none

/-- The bytes of the activation buffer a call needs. -/
def Program.bytesNeeded (program : Program P) (activation : Activation)
    (unknowns : List AttributePattern) : ℕ :=
  activationBytes P program.abi.attributes unknowns activation.bound program.abi.entries

/-- The buffer holds so many bytes, or the heap grants one that does. -/
def Instance.BufferGranted (i : Instance P) (need : ℕ) : Prop :=
  need ≤ i.buffer.capacity.toNat ∨ (P.malloc i.heap (roundUpTo4K need).toNat).isSome = true

/-- **No request of a call is refused.** -/
def Instance.Grants (program : Program P) (i : Instance P) (c : Call) : Prop :=
  (∀ activation unknowns, c.arguments = some (activation, unknowns) →
    i.BufferGranted (program.bytesNeeded activation unknowns)) ∧
  i.AtEveryStep program Body.RequestGranted c

/-! ## A call comes to its meaning -/

theorem toNat_roundUpTo4K {need : ℕ} (hfits : need + 4095 < 2 ^ 32) :
    need ≤ (roundUpTo4K need).toNat := by
  have hlt : (need + 4095) / 4096 * 4096 < 2 ^ 32 := by omega
  rw [roundUpTo4K, UInt32.toNat_ofNat_of_lt' hlt]
  omega

/-- A buffer that is too small is replaced. -/
theorem Instance.reserve_of_small {name : String} {need : UInt32} {n : ℕ} (hneed : need.toNat = n)
    (hsmall : i.buffer.capacity.toNat < n) :
    i.reserve name need
      = match P.malloc i.heap (roundUpTo4K n).toNat with
        | none =>
          (some
            { code := .resourceExhausted
              message := "Activation[" ++ name ++ "]: malloc returned NULL (needed "
                ++ toString (roundUpTo4K n) ++ " bytes)" }, i)
        | some (block, heap) => (none, { i with heap, buffer := .ofBlock block }) := by
  subst hneed
  have hpos : 0 < need := by
    rw [UInt32.lt_iff_toNat_lt, UInt32.toNat_zero]
    exact Nat.zero_lt_of_lt hsmall
  have hnot := UInt32.not_le.mpr (UInt32.lt_iff_toNat_lt.mpr hsmall)
  rw [reserve, if_pos hpos, ensureActivationBuffer, if_neg hnot]
  rcases P.malloc i.heap (roundUpTo4K need.toNat).toNat with _ | ⟨block, heap⟩ <;> rfl

/-- **A buffer that is granted has room.** -/
theorem Instance.reserve_spec {firstVarName : String} {need : UInt32}
    (hfits : need.toNat + 4095 < 2 ^ 32) (hgranted : i.BufferGranted need.toNat) :
    ∃ j, i.reserve firstVarName need = (none, j) ∧ need.toNat ≤ j.buffer.capacity.toNat ∧
      j.refs = i.refs ∧ j.unknownPatterns = i.unknownPatterns := by
  rcases le_or_gt need.toNat i.buffer.capacity.toNat with hholds | hsmall
  · refine ⟨i, ?_, hholds, rfl, rfl⟩
    rw [reserve, ensureActivationBuffer, if_pos (UInt32.le_iff_toNat_le.mpr hholds), ite_self]
  · obtain ⟨⟨block, heap⟩, hmalloc⟩ := Option.isSome_iff_exists.mp
      (hgranted.resolve_left (not_le.mpr hsmall))
    rw [reserve_of_small rfl hsmall, hmalloc]
    exact ⟨_, rfl, toNat_roundUpTo4K hfits, rfl, rfl⟩

/-- **`MarshalActivation` comes to the meaning of the variables.** -/
theorem Instance.marshalActivation_spec {abi : CelAbi} (hrefs : i.refs = .empty)
    (hfits : activationBytes P abi.attributes i.unknownPatterns activation.bound abi.entries + 4095
      < 2 ^ 32)
    (hgranted : i.BufferGranted
      (activationBytes P abi.attributes i.unknownPatterns activation.bound abi.entries)) :
    (∀ status, sizingFailure abi.attributes i.unknownPatterns activation.bound abi.entries = some status →
      (i.marshalActivation abi activation).1 = some status) ∧
    (sizingFailure abi.attributes i.unknownPatterns activation.bound abi.entries = none →
      match bindingMeaning P abi.attributes i.unknownPatterns activation.bound abi.entries
          (fun _ => .inline .null) .empty with
      | .error status => (i.marshalActivation abi activation).1 = some status
      | .ok (view, refs) => ∃ j, i.marshalActivation abi activation = (none, j) ∧
          j.unknownPatterns = i.unknownPatterns ∧ j.refs = refs ∧
          ∀ dv ∈ abi.entries, (j.slots dv.slotOffset).read j.memory = view dv.slotOffset) := by
  have hbytes := activationBytes_eq P abi.attributes i.unknownPatterns activation.bound abi.entries
  have htotal := @totalHostStringBytes_spec P abi.attributes i.unknownPatterns abi.entries 0 _
    activation.remembers_clearLazyCache (Dvd.intro 0 rfl) (by
      rw [Activation.bound_clearLazyCache]
      omega)
  rw [Activation.bound_clearLazyCache] at htotal
  obtain ⟨hfailure, hsize⟩ := htotal
  constructor
  · intro status hstatus
    have hfails := hfailure status hstatus
    rw [marshalActivation]
    generalize totalHostStringBytes _ _ _ _ _ _ = total at hfails ⊢
    obtain ⟨total, activation'⟩ := total
    obtain rfl : total = .error status := hfails
    rfl
  · intro hnone
    obtain ⟨activation', hsize, hremembers, hbound⟩ := hsize hnone
    change totalHostStringBytes _ _ _ _ 0 _ = _ at hsize
    have hneed : UInt32.ofNat (0 + (abi.entries.map (stringBytes P abi.attributes i.unknownPatterns
          activation.bound)).sum) + unknownDescriptorBytes
          * UInt32.ofNat (countUnknownVariables abi.attributes i.unknownPatterns abi.entries)
        = UInt32.ofNat (activationBytes P abi.attributes i.unknownPatterns activation.bound
            abi.entries) := by
      rw [hbytes, Nat.zero_add, UInt32.ofNat_add, UInt32.ofNat_mul]
      rfl
    have hnat := UInt32.toNat_ofNat_of_lt' (show activationBytes P abi.attributes i.unknownPatterns
      activation.bound abi.entries < 2 ^ 32 by omega)
    obtain ⟨j, hreserve, hroom, hrefs', hpatterns⟩ := @reserve_spec P i
      ((abi.entries.head?.map VariableEntry.name).getD "") (.ofNat _) (by rwa [hnat])
      (by rwa [hnat])
    rw [hnat] at hroom
    have hvariables := @MarshalState.marshalVariables_spec P abi.attributes i.unknownPatterns
      activation.bound
      { inst := j, arena := { capacity := j.buffer.capacity, cursor := 0 }, activation := activation' }
      (fun _ => False) (fun _ => .inline .null) .empty abi.entries
      ⟨hpatterns, hremembers, hbound, rfl⟩ ⟨hrefs'.trans hrefs, nofun⟩ abi.slot_le (by simpa using hroom)
    rw [marshalActivation, hsize]
    dsimp only
    rw [hneed, hreserve]
    rcases hmeaning : bindingMeaning P abi.attributes i.unknownPatterns activation.bound abi.entries
        (fun _ => .inline .null) .empty with status | ⟨view, refs⟩
    · rw [hmeaning] at hvariables
      exact hvariables
    · rw [hmeaning] at hvariables
      obtain ⟨s, hmarshal, hpatterns', hbinds⟩ := hvariables
      dsimp only
      rw [hmarshal]
      exact ⟨s.inst, rfl, hpatterns', hbinds.refs, fun dv hdv =>
        hbinds.reads dv.slotOffset (.inr ⟨dv, hdv, rfl⟩) _ fun _ _ => rfl⟩

/-- A body reads the slots of the variables only. -/
theorem Body.meaning_congr {abi : CelAbi} {unknownPatterns : List AttributePattern}
    {view view' : ℕ → ReadCell} (h : ∀ dv ∈ abi.entries, view dv.slotOffset = view' dv.slotOffset)
    (b : Body P.format.Compiled abi.entries.length) (refs : HostExternrefTable)
    (blocks : List (List UInt8)) :
    b.meaning P abi unknownPatterns view refs blocks
      = b.meaning P abi unknownPatterns view' refs blocks := by
  induction b generalizing refs blocks with
  | ret result => rfl
  | trap message => rfl
  | readVariable index next ih =>
    rw [meaning, meaning, h _ (List.get_mem _ index)]
    exact ih _ refs blocks
  | arenaAlloc bytes next ih =>
    rw [meaning, meaning]
    split
    · exact ih none refs blocks
    · exact ih _ refs _
  | load block offset next ih => exact ih _ refs blocks
  | store block offset byte next ih => exact ih refs _
  | malloc bytes next ih => exact ih refs blocks
  | free block next ih => exact ih refs blocks
  | table update next ih => exact ih _ _ blocks
  | getField slot fieldRef attributeId next ih => exact ih _ _ blocks
  | celMatches text pattern next ih => exact ih _ refs blocks
  | parseFormat format next ih => exact ih _ refs blocks

/-- Resetting the arena keeps the caches. -/
theorem Instance.Coherent.arenaReset {abi : CelAbi} (h : i.Coherent abi) : i.arenaReset.Coherent abi :=
  { h with }

/-- **How a call begins** decides what it comes to. -/
theorem Instance.call_of_begin (hc : c.arguments = some (activation, unknowns)) :
    i.begin program c = i.bindVariables program activation unknowns ∧
      (i.call program c).1 = match i.bindVariables program activation unknowns with
        | (some status, _) => .error status
        | (none, j) => (j.evalOnly program).1 := by
  cases c with
  | eval activation' =>
    obtain ⟨rfl, rfl⟩ := Prod.mk.inj (Option.some.inj hc)
    refine ⟨rfl, ?_⟩
    rw [call, eval]
    rcases i.bindVariables program activation' [] with ⟨_ | status, j⟩ <;> rfl
  | partialEval activation' unknowns' =>
    obtain ⟨rfl, rfl⟩ := Prod.mk.inj (Option.some.inj hc)
    refine ⟨rfl, ?_⟩
    rw [call, partialEval]
    rcases i.bindVariables program activation' unknowns' with ⟨_ | status, j⟩ <;> rfl
  | evalOnly => exact nomatch hc

/-- **A call comes to its meaning** on an instance whose caches are right, when no request of it is
refused. -/
theorem Instance.Coherent.call_eq_meaning (h : i.Coherent program.abi)
    (hc : c.arguments = some (activation, unknowns))
    (hfits : program.bytesNeeded activation unknowns + 4095 < 2 ^ 32) (hgrants : i.Grants program c) :
    (i.call program c).1 = program.meaning activation unknowns := by
  obtain ⟨hbuffer, hsteps⟩ := hgrants
  obtain ⟨hbegin, hcall⟩ := @call_of_begin P i program _ _ _ hc
  rw [hcall, Program.meaning]
  have hcoherent : (i.bindVariables program activation unknowns).2.Coherent program.abi :=
    h.congr (Instance.sameCaches_marshalActivation
      { i with refs := i.refs.reset, unknownPatterns := unknowns } program.abi activation)
  obtain ⟨hfailure, hbind⟩ := @marshalActivation_spec P
    { i with refs := i.refs.reset, unknownPatterns := unknowns } activation program.abi
    i.refs.reset_eq_empty hfits (hbuffer activation unknowns hc)
  change (∀ status, _ → (i.bindVariables program activation unknowns).1 = _) at hfailure
  cases hsizing : sizingFailure program.abi.attributes unknowns activation.bound program.abi.entries with
  | some status =>
    have hfails := hfailure status hsizing
    rcases hbound : i.bindVariables program activation unknowns with ⟨failed, j⟩
    rw [hbound] at hfails
    obtain rfl : failed = some status := hfails
    rfl
  | none =>
    have hbind := hbind hsizing
    dsimp only at hbind ⊢
    rcases hmeaning : bindingMeaning P program.abi.attributes unknowns activation.bound
        program.abi.entries (fun _ => .inline .null) .empty with status | ⟨view, refs⟩
    · rw [hmeaning] at hbind
      change (i.bindVariables program activation unknowns).1 = _ at hbind
      rcases hbound : i.bindVariables program activation unknowns with ⟨failed, j⟩
      rw [hbound] at hbind
      obtain rfl : failed = some status := hbind
      rfl
    · rw [hmeaning] at hbind
      obtain ⟨j, hbound, hpatterns, hrefs, hview⟩ := hbind
      change i.bindVariables program activation unknowns = _ at hbound
      rw [hbound] at hcoherent
      have hgranted := hsteps j (hbegin.trans hbound)
      rw [hbound]
      dsimp only
      rw [evalOnly, Body.run_eq_meaning hcoherent.arenaReset hgranted]
      refine (Body.meaning_congr hview program.body _ _).trans ?_
      change program.body.meaning P program.abi j.unknownPatterns view j.refs [] = _
      rw [hpatterns, hrefs]

/-! ## Runs -/

/-- **A call keeps the caches right** when its refills are whole, whatever it comes to. -/
theorem Instance.Coherent.call (h : i.Coherent program.abi)
    (hwhole : i.AtEveryStep program Body.RefillWhole c) : (i.call program c).2.Coherent program.abi := by
  have hbound : ∀ activation unknowns,
      (i.bindVariables program activation unknowns).2.Coherent program.abi :=
    fun activation unknowns => h.congr (Instance.sameCaches_marshalActivation
      { i with refs := i.refs.reset, unknownPatterns := unknowns } program.abi activation)
  cases c with
  | eval activation =>
    have hbound := hbound activation []
    rw [Instance.call, eval]
    rcases hbegin : i.bindVariables program activation [] with ⟨_ | status, j⟩
    · rw [hbegin] at hbound
      exact Body.run_coherent hbound.arenaReset (hwhole j hbegin)
    · rw [hbegin] at hbound
      exact hbound
  | partialEval activation unknowns =>
    have hbound := hbound activation unknowns
    rw [Instance.call, partialEval]
    rcases hbegin : i.bindVariables program activation unknowns with ⟨_ | status, j⟩
    · rw [hbegin] at hbound
      exact { Body.run_coherent hbound.arenaReset (hwhole j hbegin) with }
    · rw [hbegin] at hbound
      exact { hbound with }
  | evalOnly => exact Body.run_coherent h.arenaReset (hwhole i rfl)

/-- **Calls whose refills are whole keep the caches right.** -/
theorem Instance.Coherent.after : ∀ {calls : List Call} {i : Instance P}, i.Coherent program.abi →
    WholeAlong program calls i → (Instance.after program calls i).Coherent program.abi
  | [], _, h, _ => h
  | _ :: _, _, h, hwhole => (h.call hwhole.1).after hwhole.2

/-- The call with an activation that remembers what binders made before. -/
def Call.remembering (memo : List (String × HostValue)) : Call → Call
  | .eval activation => .eval { activation with lazyCache := memo }
  | .partialEval activation unknowns => .partialEval { activation with lazyCache := memo } unknowns
  | .evalOnly => .evalOnly

/-- What an activation remembers is dropped when a call begins. -/
theorem Instance.call_remembering (i : Instance P) (c : Call) (memo : List (String × HostValue)) :
    i.call program (c.remembering memo) = i.call program c := by
  cases c <;> rfl

/-- **A call comes to the same after any calls as on an instance just planned**, provided that no
request of it is refused there or here, that its strings fit the address space, and that the calls
before left no cache half refilled. -/
theorem evaluation_forgets (program : Program P) (heap : P.State) (arena : CelArena)
    (earlier : List Call) (c : Call) (activation : Activation) (unknowns : List AttributePattern)
    (memo : List (String × HostValue)) (hc : c.arguments = some (activation, unknowns))
    (hfits : program.bytesNeeded activation unknowns + 4095 < 2 ^ 32)
    (hwhole : WholeAlong program earlier (Instance.plan heap arena))
    (hthere : (Instance.plan heap arena).Grants program c)
    (hhere : (Instance.after program earlier (Instance.plan heap arena)).Grants program c) :
    ((Instance.after program earlier (Instance.plan heap arena)).call program
        (c.remembering memo)).1
      = ((Instance.plan heap arena).call program c).1 := by
  have hplan : (Instance.plan heap arena).Coherent program.abi := Instance.coherent_plan heap arena
  rw [Instance.call_remembering, (hplan.after hwhole).call_eq_meaning hc hfits hhere,
    hplan.call_eq_meaning hc hfits hthere]

/-! ## A program of one string -/

/-- The heap of a module of 64 MiB, as an allocator that never reuses a block. -/
def linearMemory : Heap where
  State := ℕ
  malloc used n :=
    if h : used + n ≤ 66846720 then
      some (⟨reservedLowMemoryBytes + used, by rw [reservedLowMemoryBytes]; omega,
        by rw [reservedLowMemoryBytes]; omega⟩, used + n)
    else none
  free used _ := used
  memorySize _ := 67108864
  reserved_le _ := by decide

/-- No messages, no regexes and no formats. -/
def plainPlatform : Platform where
  toHeap := linearMemory
  toReflection :=
    { wellKnown := fun _ => none
      descriptor := fun _ => none
      resolveFieldDescriptor := fun _ _ => none
      readFieldClassified := fun _ _ _ => .ok .null
      readField := fun _ _ => .ok .null }
  regex := { Compiled := Unit, compile := fun _ => none, requests := fun _ => [] }
  format := { Compiled := Unit, compile := fun _ => none, requests := fun _ => [] }
  partialMatch := fun _ _ => false

/-- `s.size()`, over the bytes. -/
def sizeOfString : Program plainPlatform where
  abi :=
    { entries := [{ name := "s", repr := .string, slotOffset := 0 }]
      fieldRefs := []
      attributes := [⟨"", []⟩, ⟨"s", []⟩]
      slot_le := by decide }
  body := .readVariable 0 fun cell =>
    .ret (.ok (match cell with | .string s => .int (Int64.ofNat s.length) | _ => .null))

/-- The chunk `arena_init` takes. -/
def firstChunk : CelArena where
  head := { address := 262144, base := 262160, capacity := arenaCapacityBytes, cursor := 0 }
  grown := []
  blocks := []
  head_capacity := rfl

/-- The program's instance after `Plan`. -/
def planned : Instance plainPlatform := @Instance.plan plainPlatform (65712 : ℕ) firstChunk

/-- The activation of one string. -/
def bindString (s : List UInt8) : Activation where
  bindings := [("s", .string s)]
  lazyBinders := []
  lazyCache := []

theorem bytesNeeded_bindString (s : List UInt8) :
    sizeOfString.bytesNeeded (bindString s) [] = alignUp8 s.length := rfl

/-- Binding the string is one reservation and one pass. -/
theorem bindVariables_bindString (i : Instance plainPlatform) {s : List UInt8}
    (hfits : alignUp8 s.length + 4095 < 2 ^ 32) :
    i.bindVariables sizeOfString (bindString s) []
      = match ({ i with refs := i.refs.reset, unknownPatterns := [] } : Instance plainPlatform).reserve
          "s" (.ofNat (alignUp8 s.length)) with
        | (some status, j) => (some status, j)
        | (none, j) =>
          let (failed, s) := MarshalState.marshalVariables sizeOfString.abi.attributes
            sizeOfString.abi.entries
            { inst := j, arena := { capacity := j.buffer.capacity, cursor := 0 },
              activation := bindString s }
          (failed, s.inst) := by
  have hround := @roundedTotal 0 s.length (Dvd.intro 0 rfl) (by omega)
  rw [Nat.zero_add] at hround
  have htotal : totalHostStringBytes plainPlatform.wellKnown sizeOfString.abi.attributes []
      sizeOfString.abi.entries 0 (bindString s).clearLazyCache
        = (.ok (.ofNat (alignUp8 s.length)), bindString s) := by
    rw [← hround]
    rfl
  have hneed : UInt32.ofNat (alignUp8 s.length) + unknownDescriptorBytes
      * UInt32.ofNat (countUnknownVariables sizeOfString.abi.attributes [] sizeOfString.abi.entries)
        = UInt32.ofNat (alignUp8 s.length) := UInt32.add_zero _
  rw [Instance.bindVariables, Instance.marshalActivation]
  dsimp only
  rw [htotal]
  dsimp only
  have hname : (sizeOfString.abi.entries.head?.map VariableEntry.name).getD "" = "s" := rfl
  rw [hneed, hname]
  generalize Instance.reserve _ "s" _ = reserved
  obtain ⟨_ | status, j⟩ := reserved <;> rfl

/-- The variable means what its copy is read as. -/
theorem variableMeaning_bindString (s : List UInt8) :
    variableMeaning plainPlatform sizeOfString.abi.attributes [] (bindString s).bound
        { name := "s", repr := .string, slotOffset := 0 } .empty
      = match copyToArena wholeArena "s" "" s (.string s) with
        | .error status => .error status
        | .ok (cell, _) => .ok (cellMeaning plainPlatform .empty cell) :=
  rfl

/-- The meaning of the call is the size. -/
theorem meaning_bindString {s : List UInt8} (hfits : alignUp8 s.length + 4095 < 2 ^ 32) :
    sizeOfString.meaning (bindString s) [] = .ok (.int (Int64.ofNat s.length)) := by
  have hcopy := @copyToArena_wholeArena "s" "" s (.string s) (by omega)
  have hvar : variableMeaning plainPlatform sizeOfString.abi.attributes [] (bindString s).bound
      { name := "s", repr := .string, slotOffset := 0 } .empty = .ok (.string s, .empty) := by
    rw [variableMeaning_bindString, hcopy]
    rfl
  have hbinding : bindingMeaning plainPlatform sizeOfString.abi.attributes [] (bindString s).bound
      sizeOfString.abi.entries (fun _ => .inline .null) .empty
        = .ok (Function.update (fun _ => .inline .null) 0 (.string s), .empty) := by
    change bindingMeaning plainPlatform _ _ _ [_] _ _ = _
    rw [bindingMeaning, hvar]
    rfl
  have hsizing : sizingFailure sizeOfString.abi.attributes [] (bindString s).bound
      sizeOfString.abi.entries = none := rfl
  rw [Program.meaning, hsizing]
  dsimp only
  rw [hbinding]
  rfl

/-- Where the buffer is granted, the call keeps the block it was granted. -/
theorem heap_call_bindString {i j : Instance plainPlatform} {s : List UInt8}
    (hgrown : i.arena.grown = []) (hfits : alignUp8 s.length + 4095 < 2 ^ 32)
    (hreserve : ({ i with refs := i.refs.reset, unknownPatterns := [] } :
      Instance plainPlatform).reserve "s" (.ofNat (alignUp8 s.length)) = (none, j)) 
    (harena : j.arena = i.arena) :
    (i.call sizeOfString (.eval (bindString s))).2.heap = j.heap ∧
      (i.call sizeOfString (.eval (bindString s))).2.buffer = j.buffer := by
  have hframed := MarshalState.framed_marshalVariables sizeOfString.abi.attributes
    sizeOfString.abi.entries
    { inst := j
      arena := { capacity := j.buffer.capacity, cursor := 0 }
      activation := bindString s }
  rw [Instance.call, Instance.eval, bindVariables_bindString i hfits, hreserve]
  dsimp only
  generalize MarshalState.marshalVariables _ _ _ = marshalled at hframed ⊢
  obtain ⟨_ | status, m⟩ := marshalled
  · refine ⟨?_, hframed.buffer⟩
    change (m.inst.arena.grown.reverse.foldl (freeChunk linearMemory) m.inst.heap) = _
    rw [hframed.arena, harena, hgrown]
    exact hframed.heap
  · exact ⟨hframed.heap, hframed.buffer⟩



theorem malloc_linearMemory {used n : ℕ} (h : used + n ≤ 66846720) :
    ∃ block, linearMemory.malloc used n = some (block, (used + n : ℕ)) :=
  ⟨_, dif_pos h⟩

theorem malloc_linearMemory_of_lt {used n : ℕ} (h : 66846720 < used + n) :
    linearMemory.malloc used n = none := dif_neg (not_le.mpr h)

/-- A refused buffer fails the call. -/
theorem call_bindString_of_refused {i : Instance plainPlatform} {s : List UInt8} {n used : ℕ}
    (hn : alignUp8 s.length = n) (hfits : n + 4095 < 2 ^ 32)
    (hsmall : i.buffer.capacity.toNat < n) (hused : i.heap = used)
    (hrefused : 66846720 < used + (roundUpTo4K n).toNat) :
    (i.call sizeOfString (.eval (bindString s))).1
      = .error
        { code := .resourceExhausted
          message := "Activation[s]: malloc returned NULL (needed "
            ++ toString (roundUpTo4K n) ++ " bytes)" } := by
  have hlt : n < 2 ^ 32 := by omega
  have hreserve := @Instance.reserve_of_small plainPlatform
    { i with refs := i.refs.reset, unknownPatterns := [] } "s" _ n
    (UInt32.toNat_ofNat_of_lt' hlt) hsmall
  have hrefused : plainPlatform.malloc i.heap (roundUpTo4K n).toNat = none := by
    rw [hused]
    exact malloc_linearMemory_of_lt hrefused
  dsimp only at hreserve
  rw [hrefused] at hreserve
  subst hn
  rw [Instance.call, Instance.eval, bindVariables_bindString i hfits, hreserve]
  rfl

/-- A granted buffer is kept. -/
theorem call_bindString_of_granted {i : Instance plainPlatform} {s : List UInt8} {n used : ℕ}
    (hn : alignUp8 s.length = n) (hfits : n + 4095 < 2 ^ 32) (hgrown : i.arena.grown = [])
    (hsmall : i.buffer.capacity.toNat < n) (hused : i.heap = used)
    (hgranted : used + (roundUpTo4K n).toNat ≤ 66846720) :
    (i.call sizeOfString (.eval (bindString s))).2.heap = (used + (roundUpTo4K n).toNat : ℕ) ∧
      (i.call sizeOfString (.eval (bindString s))).2.buffer.capacity = roundUpTo4K n := by
  have hlt : n < 2 ^ 32 := by omega
  obtain ⟨block, hmalloc⟩ := malloc_linearMemory hgranted
  have hreserve := @Instance.reserve_of_small plainPlatform
    { i with refs := i.refs.reset, unknownPatterns := [] } "s" _ n
    (UInt32.toNat_ofNat_of_lt' hlt) hsmall
  have hmalloc : plainPlatform.malloc i.heap (roundUpTo4K n).toNat
    = some (block, (used + (roundUpTo4K n).toNat : ℕ)) := by rw [hused]; exact hmalloc
  dsimp only at hreserve
  rw [hmalloc] at hreserve
  subst hn
  have h := heap_call_bindString hgrown hfits hreserve rfl
  exact ⟨h.1, by rw [h.2]; rfl⟩


/-- The buffer is all the call asks for. -/
theorem grants_bindString {i : Instance plainPlatform} {s : List UInt8}
    (h : i.BufferGranted (alignUp8 s.length)) : i.Grants sizeOfString (.eval (bindString s)) := by
  refine ⟨fun activation unknowns hc => ?_, fun _ _ => trivial⟩
  obtain ⟨rfl, rfl⟩ := Prod.mk.inj (Option.some.inj hc)
  exact h

/-- The block of a first string is kept while a second one is bound, and the two do not fit. -/
theorem call_bindString_twice {s t : List UInt8} (hs : alignUp8 s.length = 40000000)
    (ht : alignUp8 t.length = 41000000) :
    ((Instance.after sizeOfString [.eval (bindString s)] planned).call sizeOfString
        (.eval (bindString t))).1
      = .error
        { code := .resourceExhausted
          message := "Activation[s]: malloc returned NULL (needed 41000960 bytes)" } := by
  have hround : (roundUpTo4K 40000000).toNat = 40001536 := rfl
  have hround' : (roundUpTo4K 41000000).toNat = 41000960 := rfl
  have hmessage : toString (roundUpTo4K 41000000) = "41000960" := rfl
  obtain ⟨hheap, hbuffer⟩ := @call_bindString_of_granted planned _ 40000000 65712 hs (by omega) rfl
    (by decide) rfl (by rw [hround]; omega)
  rw [Instance.after, Instance.after]
  generalize (planned.call sizeOfString (.eval (bindString s))).2 = i at hheap hbuffer ⊢
  rw [call_bindString_of_refused ht (by omega) (by rw [hbuffer, hround]; omega) hheap
    (by rw [hround, hround']; omega), hmessage]
  rfl

/-- The second string alone fits. -/
theorem call_bindString_planned {t : List UInt8} (ht : alignUp8 t.length = 41000000) :
    (planned.call sizeOfString (.eval (bindString t))).1 = .ok (.int (Int64.ofNat t.length)) := by
  have hplan : planned.Coherent sizeOfString.abi := Instance.coherent_plan _ _
  have hround : (roundUpTo4K 41000000).toNat = 41000960 := rfl
  obtain ⟨block, hmalloc⟩ := @malloc_linearMemory 65712 (roundUpTo4K 41000000).toNat
    (by rw [hround]; omega)
  have hneeded := bytesNeeded_bindString t
  rw [ht] at hneeded
  rw [hplan.call_eq_meaning rfl (by rw [hneeded]; omega) (grants_bindString (.inr ?_)),
    meaning_bindString (by rw [ht]; omega)]
  rw [ht]
  exact Option.isSome_iff_exists.mpr ⟨_, hmalloc⟩

/-- **A larger string is refused its buffer after a call with a smaller one.** -/
theorem evaluation_leaks_buffer :
    ((Instance.after sizeOfString [.eval (bindString (.replicate 40000000 97))] planned).call
        sizeOfString (.eval (bindString (.replicate 41000000 97)))).1
      = .error
        { code := .resourceExhausted
          message := "Activation[s]: malloc returned NULL (needed 41000960 bytes)" } ∧
    (planned.call sizeOfString (.eval (bindString (.replicate 41000000 97)))).1
      = .ok (.int 41000000) := by
  have hlength (n : ℕ) (hn : n % 8 = 0) :
      alignUp8 (List.replicate n (97 : UInt8)).length = n := by
    rw [List.length_replicate, alignUp8]
    omega
  have hfirst := hlength 40000000 rfl
  have hsecond := hlength 41000000 rfl
  refine ⟨call_bindString_twice hfirst hsecond, ?_⟩
  rw [call_bindString_planned hsecond, List.length_replicate]
  rfl

theorem evaluation_forgets_short :
    ((Instance.after sizeOfString [.eval (bindString [97])] planned).call sizeOfString
        (.eval (bindString [98]))).1
      = (planned.call sizeOfString (.eval (bindString [98]))).1 :=
  evaluation_forgets sizeOfString (65712 : ℕ) firstChunk [.eval (bindString [97])]
    (.eval (bindString [98])) (bindString [98]) [] [] rfl (by decide)
    ⟨fun _ _ => trivial, trivial⟩ (grants_bindString (.inr (by decide)))
    (grants_bindString (.inr (by decide)))

end CelWasm
