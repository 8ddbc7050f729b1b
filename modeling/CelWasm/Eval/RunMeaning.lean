import CelWasm.Eval.Meaning

/-!
# Eval/RunMeaning — a run of a body comes to the body's meaning

Two conditions on a configuration of a run. A request that is *granted* is one the heap does not
refuse. A refill is *whole* when the heap does not refuse the copy of the text: one that is cut short
there leaves the compiled form of the new text with the old one. Whole refills keep the caches right,
and a run over right caches whose requests are granted comes to the meaning.
-/

namespace CelWasm

/-! ## Caches of compiled texts -/

section TextCache

variable {H : Heap} {C : TextCompiler} {cache : TextCache C.Compiled} {heap : H.State}
  {text : List UInt8}

/-- The cache keeps the compiled form of its text. -/
def TextCache.Right (C : TextCompiler) (cache : TextCache C.Compiled) : Prop :=
  cache.entry.Sound fun text compiled => compiled = C.compile text

/-- A copy of a text that is longer than its block is not refused. -/
def TextCache.AssignGranted (H : Heap) (cache : TextCache C.Compiled) (heap : H.State)
    (text : List UInt8) : Prop :=
  text.length ≤ cache.capacity ∨ (H.malloc heap (text.length + 1)).isSome = true

/-- **The refill is whole** — once the new form is compiled the copy of the text is not refused. -/
def TextCache.Whole (H : Heap) (C : TextCompiler) (cache : TextCache C.Compiled) (heap : H.State)
    (text : List UInt8) : Prop :=
  cache.entry.hit text = none → ∀ blocks heap', mallocAll H heap (C.requests text) = (some blocks, heap') →
    cache.AssignGranted H (cache.replaced H C heap') text

/-- **The refill is granted** — no request of it is refused. -/
def TextCache.Granted (H : Heap) (C : TextCompiler) (cache : TextCache C.Compiled) (heap : H.State)
    (text : List UInt8) : Prop :=
  cache.entry.hit text = none → ∃ blocks heap', mallocAll H heap (C.requests text) = (some blocks, heap') ∧
    cache.AssignGranted H (cache.replaced H C heap') text

theorem TextCache.assign_of_granted (h : cache.AssignGranted H heap text) :
    ∃ cache' heap', cache.assign H C heap text = (some cache', heap') ∧
      cache'.entry = some (text, C.compile text) := by
  rw [assign]
  split
  case isTrue hfits => exact ⟨_, heap, rfl, rfl⟩
  case isFalse hlong =>
    obtain hfits | hgranted := h
    · exact absurd hfits hlong
    · obtain ⟨⟨block, heap'⟩, hmalloc⟩ := Option.isSome_iff_exists.mp hgranted
      rw [hmalloc]
      exact ⟨_, _, rfl, rfl⟩

theorem TextCache.Right.of_assigned {cache' : TextCache C.Compiled}
    (h : cache'.entry = some (text, C.compile text)) : cache'.Right C := by
  rw [Right, h]
  exact OneEntryCache.sound_some rfl

/-- **A whole refill keeps the cache right**, also when the module aborts. -/
theorem TextCache.Right.refresh (h : cache.Right C) (hwhole : cache.Whole H C heap text) :
    (cache.refresh H C heap text).2.1.Right C := by
  rw [TextCache.refresh]
  cases hhit : cache.entry.hit text with
  | some compiled => exact h
  | none =>
    rcases hmalloc : mallocAll H heap (C.requests text) with ⟨_ | blocks, heap'⟩
    · exact h
    · obtain ⟨cache', heap'', hassign, hentry⟩ := @assign_of_granted H C { cache with
        entry := cache.entry.torn (C.compile text), compiledBlocks := blocks } _ text
        (hwhole hhit blocks heap' hmalloc)
      simp only [hassign]
      exact .of_assigned hentry

/-- **A granted refill of a right cache gives the compiled form of the text.** -/
theorem TextCache.Right.refresh_of_granted (h : cache.Right C) (hgranted : cache.Granted H C heap text) :
    (cache.refresh H C heap text).1 = some (C.compile text) := by
  rw [TextCache.refresh]
  cases hhit : cache.entry.hit text with
  | some compiled => exact congrArg some (h.of_hit hhit)
  | none =>
    obtain ⟨blocks, heap', hmalloc, hassign⟩ := hgranted hhit
    obtain ⟨cache', heap'', hassign, -⟩ := @assign_of_granted H C { cache with
      entry := cache.entry.torn (C.compile text), compiledBlocks := blocks } _ text hassign
    simp only [hmalloc, hassign]

theorem TextCache.Granted.whole (h : cache.Granted H C heap text) : cache.Whole H C heap text := by
  intro hhit blocks heap' hmalloc
  obtain ⟨blocks', heap'', hmalloc', hassign⟩ := h hhit
  rw [hmalloc] at hmalloc'
  obtain ⟨-, rfl⟩ := Prod.mk.inj hmalloc'
  exact hassign

end TextCache

variable {P : Platform} {abi : CelAbi}

/-! ## The caches of an instance -/

/-- A field kept for an access site is the one its descriptor resolves. -/
def SiteRight (P : Platform) (site : FieldRefEntry) (d : Descriptor)
    (found : FieldDescriptor × ProtoFieldReadClass) : Prop :=
  P.resolveFieldDescriptor d site = some found.1 ∧ found.2 = classifyResolvedField found.1

/-- **The caches of an instance are right.** -/
structure Instance.Coherent (abi : CelAbi) (i : Instance P) : Prop where
  sites : ∀ fieldRef site, abi.resolveFieldRef fieldRef = some site →
    (i.resolved fieldRef).Sound (SiteRight P site)
  regex : i.regexCache.Right P.regex
  format : i.formatCache.Right P.format

theorem Instance.coherent_plan (heap : P.State) (arena : CelArena) :
    (Instance.plan heap arena : Instance P).Coherent abi where
  sites _ _ _ := OneEntryCache.sound_none
  regex := OneEntryCache.sound_none
  format := OneEntryCache.sound_none

/-- Two instances have the same caches. -/
def Instance.SameCaches (i j : Instance P) : Prop :=
  i.resolved = j.resolved ∧ i.regexCache = j.regexCache ∧ i.formatCache = j.formatCache

theorem Instance.Coherent.congr {i j : Instance P} (h : i.Coherent abi) (hsame : i.SameCaches j) :
    j.Coherent abi where
  sites := hsame.1 ▸ h.sites
  regex := hsame.2.1 ▸ h.regex
  format := hsame.2.2 ▸ h.format

section Instance

variable {i : Instance P} {fieldRef slot attributeId : ℕ} {site : FieldRefEntry} {d : Descriptor}

/-- **A site's cache answers as the descriptor resolves**, and stays right; nothing else changes. -/
theorem Instance.Coherent.resolveField (h : i.Coherent abi)
    (hsite : abi.resolveFieldRef fieldRef = some site) :
    (i.resolveFieldThroughSiteCache fieldRef site d).1
        = (P.resolveFieldDescriptor d site).map (fun field => (field, classifyResolvedField field)) ∧
      ∃ resolved, (i.resolveFieldThroughSiteCache fieldRef site d).2 = { i with resolved } ∧
        ({ i with resolved } : Instance P).Coherent abi := by
  rw [resolveFieldThroughSiteCache]
  cases hhit : (i.resolved fieldRef).hit d with
  | some found =>
    obtain ⟨hfield, hclass⟩ := (h.sites fieldRef site hsite).of_hit hhit
    refine ⟨?_, i.resolved, rfl, h⟩
    rw [hfield, Option.map_some, ← hclass]
  | none =>
    cases hfield : P.resolveFieldDescriptor d site with
    | none => exact ⟨rfl, i.resolved, rfl, h⟩
    | some field =>
      refine ⟨rfl, _, rfl, { h with sites := fun fieldRef' site' hsite' => ?_ }⟩
      by_cases href : fieldRef' = fieldRef
      · subst href
        obtain rfl := Option.some.inj (hsite'.symm.trans hsite)
        simp only [Function.update_self]
        exact OneEntryCache.sound_some ⟨hfield, rfl⟩
      · simp only [Function.update_of_ne href]
        exact h.sites fieldRef' site' hsite'

/-- **A read of a field comes to its meaning**, and keeps the caches right. -/
theorem Instance.Coherent.celGetField (h : i.Coherent abi) :
    ((i.celGetField abi slot fieldRef attributeId).1
        = (fieldMeaning P abi i.unknownPatterns i.refs slot fieldRef attributeId).1) ∧
      ∃ resolved, (i.celGetField abi slot fieldRef attributeId).2 = { i with
          resolved
          refs := (fieldMeaning P abi i.unknownPatterns i.refs slot fieldRef attributeId).2 } ∧
        ({ i with resolved } : Instance P).Coherent abi := by
  rw [Instance.celGetField, fieldMeaning]
  cases hsite : abi.resolveFieldRef fieldRef with
  | none => exact ⟨rfl, i.resolved, rfl, h⟩
  | some site =>
    dsimp only
    split
    case isTrue => exact ⟨rfl, i.resolved, rfl, h⟩
    case isFalse =>
      cases hslot : i.refs.lookup slot with
      | none => exact ⟨rfl, i.resolved, rfl, h⟩
      | some message =>
        cases hdescriptor : P.descriptor message with
        | none =>
          simp only [hdescriptor]
          cases P.readField message site with
          | error status => exact ⟨rfl, i.resolved, rfl, h⟩
          | ok v => exact ⟨rfl, i.resolved, rfl, h⟩
        | some d =>
          obtain ⟨hfound, resolved, hrest, hcoherent⟩ := @resolveField _ _ _ _ _ d h hsite
          simp only [hdescriptor]
          rcases hresolve : i.resolveFieldThroughSiteCache fieldRef site d with ⟨found, j⟩
          rw [hresolve] at hfound hrest
          obtain rfl : found = _ := hfound
          obtain rfl : j = _ := hrest
          cases P.resolveFieldDescriptor d site with
          | none => exact ⟨rfl, resolved, rfl, hcoherent⟩
          | some field =>
            dsimp only [Option.map_some]
            cases P.readFieldClassified message field (classifyResolvedField field) with
            | error status => exact ⟨rfl, resolved, rfl, hcoherent⟩
            | ok v => exact ⟨rfl, resolved, rfl, hcoherent⟩

end Instance

/-! ## Runs -/

/-- **A condition holds at every step of a run.** -/
def Body.Always (abi : CelAbi) (C : Body P.format.Compiled abi.entries.length → Instance P → Prop) :
    Body P.format.Compiled abi.entries.length → List ℕ → Instance P → Prop
  | .ret _, _, _ => True
  | .trap _, _, _ => True
  | .readVariable index next, held, i =>
    (next ((i.slots (abi.entries.get index).slotOffset).read i.memory)).Always abi C held i
  | .arenaAlloc bytes next, held, i =>
    C (.arenaAlloc bytes next) i ∧
      let (block, heap, arena) := CelWasm.arenaAlloc P.toHeap i.heap i.arena bytes
      (next block).Always abi C held { i with heap, arena }
  | .load block offset next, held, i => (next (i.arena.load block offset)).Always abi C held i
  | .store block offset byte next, held, i =>
    next.Always abi C held { i with arena := i.arena.store block offset byte }
  | .malloc bytes next, held, i =>
    C (.malloc bytes next) i ∧
      match P.malloc i.heap bytes with
      | none => True
      | some (block, heap) => next.Always abi C (block.address :: held) { i with heap }
  | .free block next, held, i =>
    match held[block]? with
    | none => next.Always abi C held i
    | some address =>
      next.Always abi C (held.eraseIdx block) { i with heap := P.free i.heap address }
  | .table update next, held, i =>
    (next i.refs).Always abi C held { i with refs := update i.refs }
  | .getField slot fieldRef attributeId next, held, i =>
    let (answer, i) := i.celGetField abi slot fieldRef attributeId
    (next answer).Always abi C held i
  | .celMatches text pattern next, held, i =>
    C (.celMatches text pattern next) i ∧
      match i.regexCache.refresh P.toHeap P.regex i.heap pattern with
      | (none, _, _) => True
      | (some compiled, regexCache, heap) =>
        (next (compiled.map (P.partialMatch · text))).Always abi C held { i with regexCache, heap }
  | .parseFormat format next, held, i =>
    C (.parseFormat format next) i ∧
      match i.formatCache.refresh P.toHeap P.format i.heap format with
      | (none, _, _) => True
      | (some compiled, formatCache, heap) =>
        (next compiled).Always abi C held { i with formatCache, heap }

/-- The step's refill, if it is one, is whole. -/
def Body.RefillWhole {variables' : ℕ} :
    Body P.format.Compiled variables' → Instance P → Prop
  | .celMatches _ pattern _, i => i.regexCache.Whole P.toHeap P.regex i.heap pattern
  | .parseFormat format _, i => i.formatCache.Whole P.toHeap P.format i.heap format
  | _, _ => True

/-- No request of the step is refused. -/
def Body.RequestGranted {variables' : ℕ} :
    Body P.format.Compiled variables' → Instance P → Prop
  | .arenaAlloc bytes _, i => bytes ≤ 2 ^ 32 - 1 - 7 → ArenaRoom P.toHeap i.heap i.arena bytes
  | .malloc bytes _, i => (P.malloc i.heap bytes).isSome = true
  | .celMatches _ pattern _, i => i.regexCache.Granted P.toHeap P.regex i.heap pattern
  | .parseFormat format _, i => i.formatCache.Granted P.toHeap P.format i.heap format
  | _, _ => True

section Run

variable {b : Body P.format.Compiled abi.entries.length} {held : List ℕ} {i : Instance P}

/-- **Whole refills keep the caches right** through a run, whether it returns or traps. -/
theorem Body.run_coherent (h : i.Coherent abi) (hwhole : b.Always abi RefillWhole held i) :
    (b.run abi held i).2.Coherent abi := by
  induction b generalizing held i with
  | ret result => exact h
  | trap message => exact h
  | readVariable index next ih => exact ih _ h hwhole
  | arenaAlloc bytes next ih => exact ih _ { h with } hwhole.2
  | load block offset next ih => exact ih _ h hwhole
  | store block offset byte next ih => exact ih { h with } hwhole
  | malloc bytes next ih =>
    rw [Always] at hwhole
    rw [run]
    rcases hmalloc : P.malloc i.heap bytes with _ | ⟨block, heap⟩
    · exact h
    · rw [hmalloc] at hwhole
      exact ih { h with } hwhole.2
  | free block next ih =>
    rw [Always] at hwhole
    rw [run]
    cases hheld : held[block]? with
    | none =>
      rw [hheld] at hwhole
      exact ih h hwhole
    | some address =>
      rw [hheld] at hwhole
      exact ih { h with } hwhole
  | table update next ih => exact ih _ { h with } hwhole
  | getField slot fieldRef attributeId next ih =>
    obtain ⟨-, resolved, hrest, hcoherent⟩ :=
      @Instance.Coherent.celGetField _ _ _ fieldRef slot attributeId h
    have hkept : (i.celGetField abi slot fieldRef attributeId).2.Coherent abi := by
      rw [hrest]
      exact { hcoherent with }
    exact ih _ hkept hwhole
  | celMatches text pattern next ih =>
    rw [Always] at hwhole
    rw [run]
    have hright := h.regex.refresh hwhole.1
    rcases hrefresh : i.regexCache.refresh P.toHeap P.regex i.heap pattern with
      ⟨_ | compiled, regexCache, heap⟩
    · rw [hrefresh] at hright
      exact { h with regex := hright }
    · rw [hrefresh] at hright hwhole
      exact ih _ { h with regex := hright } hwhole.2
  | parseFormat format next ih =>
    rw [Always] at hwhole
    rw [run]
    have hright := h.format.refresh hwhole.1
    rcases hrefresh : i.formatCache.refresh P.toHeap P.format i.heap format with
      ⟨_ | compiled, formatCache, heap⟩
    · rw [hrefresh] at hright
      exact { h with format := hright }
    · rw [hrefresh] at hright hwhole
      exact ih _ { h with format := hright } hwhole.2

/-- **A run over right caches whose requests are granted comes to the meaning** of the body, over what
the slots of the variables lead to. -/
theorem Body.run_eq_meaning (h : i.Coherent abi) (hgranted : b.Always abi RequestGranted held i) :
    (b.run abi held i).1
      = b.meaning P abi i.unknownPatterns (fun offset => (i.slots offset).read i.memory) i.refs
          i.arena.blocks := by
  induction b generalizing held i with
  | ret result => rfl
  | trap message => rfl
  | readVariable index next ih => exact ih _ h hgranted
  | arenaAlloc bytes next ih =>
    rw [Always] at hgranted
    obtain ⟨hroom, hnext⟩ := hgranted
    rw [run, meaning]
    obtain ⟨hlarge, halloc⟩ | ⟨hsmall, heap, arena, halloc, hblocks⟩ := arenaAlloc_of_room P.toHeap hroom
    · rw [halloc] at hnext ⊢
      rw [if_pos hlarge]
      exact ih none h hnext
    · rw [halloc] at hnext ⊢
      rw [if_neg (not_lt.mpr hsmall), ← hblocks]
      exact @ih _ held { i with heap, arena } { h with } hnext
  | load block offset next ih => exact ih _ h hgranted
  | store block offset byte next ih =>
    exact @ih held { i with arena := i.arena.store block offset byte } { h with } hgranted
  | malloc bytes next ih =>
    rw [Always] at hgranted
    obtain ⟨hsome, hnext⟩ := hgranted
    obtain ⟨⟨block, heap⟩, hmalloc⟩ := Option.isSome_iff_exists.mp hsome
    rw [run, meaning]
    simp only [hmalloc] at hnext ⊢
    exact @ih _ { i with heap } { h with } hnext
  | free block next ih =>
    rw [Always] at hgranted
    rw [run, meaning]
    cases hheld : held[block]? with
    | none =>
      rw [hheld] at hgranted
      exact ih h hgranted
    | some address =>
      rw [hheld] at hgranted
      exact @ih _ { i with heap := P.free i.heap address } { h with } hgranted
  | table update next ih =>
    exact @ih _ held { i with refs := update i.refs } { h with } hgranted
  | getField slot fieldRef attributeId next ih =>
    obtain ⟨hanswer, resolved, hrest, hcoherent⟩ :=
      @Instance.Coherent.celGetField _ _ _ fieldRef slot attributeId h
    rw [Always] at hgranted
    rw [run, meaning]
    rcases hfield : i.celGetField abi slot fieldRef attributeId with ⟨answer, j⟩
    rw [hfield] at hanswer hrest hgranted
    obtain rfl : answer = _ := hanswer
    obtain rfl : j = _ := hrest
    exact ih _ { hcoherent with } hgranted
  | celMatches text pattern next ih =>
    rw [Always] at hgranted
    obtain ⟨hrefill, hnext⟩ := hgranted
    have hright := h.regex.refresh hrefill.whole
    have hcompiled := h.regex.refresh_of_granted hrefill
    rw [run, meaning]
    rcases hrefresh : i.regexCache.refresh P.toHeap P.regex i.heap pattern with
      ⟨answer, regexCache, heap⟩
    rw [hrefresh] at hright hcompiled hnext
    obtain rfl : answer = _ := hcompiled
    exact @ih _ held { i with regexCache, heap } { h with regex := hright } hnext
  | parseFormat format next ih =>
    rw [Always] at hgranted
    obtain ⟨hrefill, hnext⟩ := hgranted
    have hright := h.format.refresh hrefill.whole
    have hcompiled := h.format.refresh_of_granted hrefill
    rw [run, meaning]
    rcases hrefresh : i.formatCache.refresh P.toHeap P.format i.heap format with
      ⟨answer, formatCache, heap⟩
    rw [hrefresh] at hright hcompiled hnext
    obtain rfl : answer = _ := hcompiled
    exact @ih _ held { i with formatCache, heap } { h with format := hright } hnext

end Run

end CelWasm
