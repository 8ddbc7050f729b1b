import CelWasm.Eval.History
import CelWasm.Eval.WellFormedStrings
import CelWasm.Library.CarriedState
import CelWasm.Runtime.FormatCover

/-!
# Eval/FormatCache — the parts of a format are kept for the next call

    cache ──call──▸ cache ──call──▸ cache ──call──▸ …

`RefreshCache` keeps the parts of the last format, or that it had none. A call may abort in the middle
of it: the parts are stored before the format they are the parts of, and the copy of the format may be
refused. As long as none is, what a call comes to is what it comes to with nothing kept.
-/

namespace CelWasm

section Cached

/-- **`ParseFormat` as a compiler of formats**, which asks for so many blocks. -/
abbrev formatCompiler (requests : List UInt8 → List ℕ) : TextCompiler where
  Compiled := List DirectiveOp
  compile fmt := (parseFormat fmt).toOption
  requests

/-- The cache of a module just instantiated. -/
def TextCache.initial (γ : Type) : TextCache γ where
  entry := none
  compiledBlocks := []
  textBlock := none
  capacity := 0

theorem TextCache.right_initial (C : TextCompiler) : (TextCache.initial C.Compiled).Right C :=
  OneEntryCache.sound_none

variable (host : CelHost) (absl : AbslFormat) (stack : ℕ)

/-- What the kernel does behind `RefreshCache`, with the parts that are kept. -/
def formatElements (fmt : List UInt8) (elements : List CelValue) :
    Option (List DirectiveOp) → Kernel CelValue
  | none => return .error .invalidArgument
  | some ops =>
    match elements.find? CelValue.isPoison with
    | some absorbed => return absorbed
    | none => do
      match ← runFormat host absl stack fmt ops elements with
      | none => return .error .invalidArgument
      | some text => writeStringFromBytes text

variable {H : Heap} (requests : List UInt8 → List ℕ)
  (cache : TextCache (List DirectiveOp)) (heap : H.State)

/-- `formatArgs` as it keeps the parts, over the heap that `RefreshCache` finds. -/
def formatArgsCached (fmt : List UInt8) (args : CelValue) :
    Prog (Stop × TextCache (List DirectiveOp)) (CelValue × TextCache (List DirectiveOp)) := do
  let (elements, _) ← (celListArenaView host args).carrying cache
  match cache.refresh H (formatCompiler requests) heap fmt with
  | (none, kept, _) => Prog.stop (.abort, kept)
  | (some parts, kept, _) => (formatElements host absl stack fmt elements parts).carrying kept

/-- **`cel_string_format_at_vv` as it keeps the parts.** -/
def celStringFormatCached (s args : CelValue) :
    Prog (Stop × TextCache (List DirectiveOp)) (CelValue × TextCache (List DirectiveOp)) :=
  match absorb3vlUnary s, absorb3vlUnary args with
  | some poison, _ => return (poison, cache)
  | none, some poison => return (poison, cache)
  | none, none =>
    match s, args with
    | .string fmt, .listArena .. | .string fmt, .listHost _ =>
      formatArgsCached host absl stack requests cache heap fmt args
    | _, _ => return (.error .typeMismatch, cache)

variable {host absl stack requests cache heap} {fmt : List UInt8} {s args : CelValue}

/-- **With the parts of its own format** a call comes to what it comes to without a cache. -/
theorem forget_formatArgsCached (h : (cache.refresh H (formatCompiler requests) heap fmt).1
      = some (parseFormat fmt).toOption) :
    (formatArgsCached host absl stack requests cache heap fmt args).forget
      = formatArgs host absl stack fmt args := by
  rw [formatArgsCached, formatArgs, Prog.forget_carrying_bind]
  refine congrArg (celListArenaView host args >>= ·) (funext fun elements => ?_)
  generalize cache.refresh H (formatCompiler requests) heap fmt = refreshed at h ⊢
  obtain ⟨_ | parts, kept, heap'⟩ := refreshed
  · exact nomatch h
  · obtain rfl : parts = (parseFormat fmt).toOption := Option.some.inj h
    refine (Prog.forget_carrying kept _).trans ?_
    cases parseFormat fmt <;> rfl

theorem forget_celStringFormatCached (h : ∀ fmt, s = .string fmt →
      (cache.refresh H (formatCompiler requests) heap fmt).1 = some (parseFormat fmt).toOption) :
    (celStringFormatCached host absl stack requests cache heap s args).forget
      = celStringFormat host absl stack s args := by
  rw [celStringFormatCached.eq_def, celStringFormat.eq_def, unlessAbsorbedUnary, unlessAbsorbedUnary]
  cases absorb3vlUnary s with
  | some poison => rfl
  | none =>
    cases absorb3vlUnary args with
    | some poison => rfl
    | none =>
      cases s with
      | string fmt =>
        cases args with
        | listArena capacity elements => exact forget_formatArgsCached (h fmt rfl)
        | listHost elements => exact forget_formatArgsCached (h fmt rfl)
        | _ => rfl
      | _ => rfl

/-- **A call leaves its cache as it was, or refilled**, however it ends. -/
theorem meets_celStringFormatCached {P : TextCache (List DirectiveOp) → Prop} (hcache : P cache)
    (hrefresh : ∀ fmt, s = .string fmt →
      P (cache.refresh H (formatCompiler requests) heap fmt).2.1) :
    (celStringFormatCached host absl stack requests cache heap s args).Meets (P ·.2) (P ·.2) := by
  have hargs : ∀ fmt, s = .string fmt →
      (formatArgsCached host absl stack requests cache heap fmt args).Meets (P ·.2) (P ·.2) := by
    intro fmt hs
    have hkept := hrefresh fmt hs
    refine (Prog.meets_carrying hcache _).bind fun r _ => ?_
    generalize cache.refresh H (formatCompiler requests) heap fmt = refreshed at hkept ⊢
    obtain ⟨_ | parts, kept, heap'⟩ := refreshed
    · exact hkept
    · exact Prog.meets_carrying hkept _
  rw [celStringFormatCached.eq_def]
  split
  · exact hcache
  · exact hcache
  · split
    · exact hargs _ rfl
    · exact hargs _ rfl
    · exact hcache

end Cached

/-! ## Calls in sequence -/

/-- **A call**: its operands, the heap that `RefreshCache` finds, and what the arena answers. -/
structure FormatCall (H : Heap) where
  s : CelValue
  args : CelValue
  heap : H.State
  answers : List ℕ → Bool

section Calls

variable (host : CelHost) (absl : AbslFormat) (stack : ℕ) (requests : List UInt8 → List ℕ) {H : Heap}

/-- What a call comes to, and the cache it leaves. -/
def FormatCall.run (c : FormatCall H) (cache : TextCache (List DirectiveOp)) :
    Outcome CelValue × TextCache (List DirectiveOp) :=
  splitState ((celStringFormatCached host absl stack requests cache c.heap c.s c.args).run
    c.answers [])

/-- The cache that calls leave. -/
def cacheAfter (calls : List (FormatCall H)) (cache : TextCache (List DirectiveOp)) :
    TextCache (List DirectiveOp) :=
  calls.foldl (fun cache c => (c.run host absl stack requests cache).2) cache

/-- The refill of a call is whole. -/
def FormatCall.Whole (c : FormatCall H) (cache : TextCache (List DirectiveOp)) : Prop :=
  ∀ fmt, c.s = .string fmt → cache.Whole H (formatCompiler requests) c.heap fmt

/-- The refill of a call is granted. -/
def FormatCall.Granted (c : FormatCall H) (cache : TextCache (List DirectiveOp)) : Prop :=
  ∀ fmt, c.s = .string fmt → cache.Granted H (formatCompiler requests) c.heap fmt

/-- **In every call of a sequence the refill is whole.** -/
def WholeCalls : List (FormatCall H) → TextCache (List DirectiveOp) → Prop
  | [], _ => True
  | c :: calls, cache =>
    c.Whole requests cache ∧ WholeCalls calls (c.run host absl stack requests cache).2

variable {host absl stack requests} {c : FormatCall H} {cache : TextCache (List DirectiveOp)}

/-- **A whole refill keeps the cache right**, also in a call that traps. -/
theorem FormatCall.right_run (h : cache.Right (formatCompiler requests))
    (hwhole : c.Whole requests cache) :
    (c.run host absl stack requests cache).2.Right (formatCompiler requests) :=
  (meets_celStringFormatCached h fun fmt hs => h.refresh (hwhole fmt hs)).splitState_run

/-- **Calls whose refills are whole keep the cache right.** -/
theorem right_cacheAfter {calls : List (FormatCall H)} (h : cache.Right (formatCompiler requests))
    (hwhole : WholeCalls host absl stack requests calls cache) :
    (cacheAfter host absl stack requests calls cache).Right (formatCompiler requests) := by
  induction calls generalizing cache with
  | nil => exact h
  | cons c calls ih => exact ih (c.right_run h hwhole.1) hwhole.2

/-- **A call over a right cache whose refill is granted** comes to what it comes to without one. -/
theorem FormatCall.run_of_granted (h : cache.Right (formatCompiler requests))
    (hgranted : c.Granted requests cache) : (c.run host absl stack requests cache).1
      = (celStringFormat host absl stack c.s c.args).run c.answers [] := by
  rw [run, Prog.splitState_run_fst]
  exact congrArg (Prog.run c.answers []) (forget_celStringFormatCached fun fmt hs =>
    h.refresh_of_granted (hgranted fmt hs))

/-- A call with a list of the arena always comes to its refill. -/
theorem FormatCall.run_snd {fmt : List UInt8} {capacity : ℕ} {elements : List CelValue}
    (hs : c.s = .string fmt) (hargs : c.args = .listArena capacity elements) :
    (c.run host absl stack requests cache).2
      = (cache.refresh H (formatCompiler requests) c.heap fmt).2.1 := by
  rw [run, hs, hargs]
  change (splitState (Prog.run c.answers [] (formatArgsCached host absl stack requests cache c.heap fmt
    (.listArena capacity elements)))).2 = _
  rw [formatArgsCached]
  generalize cache.refresh H (formatCompiler requests) c.heap fmt = refreshed
  obtain ⟨_ | parts, kept, heap'⟩ := refreshed
  · rfl
  · have hkept := Prog.meets_carrying (P := (· = kept)) rfl
      (formatElements host absl stack fmt elements parts)
    exact hkept.splitState_run (P := (· = kept))

end Calls

/-- **Formats are the parts they are parsed into, and what is kept of them is not seen.** The parts of
a format spell it, the clauses take the arguments from the left, and a call comes to the same after any
calls as with nothing kept, provided that no refill of it is refused memory there or here and that no
call before was refused the copy of its format. -/
theorem formatting_forgets (host : CelHost) (absl : AbslFormat) (stack : ℕ)
    (requests : List UInt8 → List ℕ) (H : Heap) :
    (∀ fmt ops, parseFormat fmt = .ok ops →
      ops.flatMap (spelled fmt) = fmt ∧ (∀ op ∈ ops, PartOf fmt op) ∧
      ∀ args, runFormat host absl stack fmt ops args
        = joinParts (ops.mapIdx fun j op =>
            partText host absl stack fmt args (clauseCount (ops.take j)) op)) ∧
    ∀ (earlier : List (FormatCall H)) (c : FormatCall H) (heap : H.State),
      WholeCalls host absl stack requests earlier (.initial _) →
      c.Granted requests (cacheAfter host absl stack requests earlier (.initial _)) →
      ({ c with heap } : FormatCall H).Granted requests (.initial _) →
      (c.run host absl stack requests (cacheAfter host absl stack requests earlier (.initial _))).1
        = (({ c with heap } : FormatCall H).run host absl stack requests (.initial _)).1 := by
  refine ⟨fun fmt ops hparse => ?_, fun earlier c heap hwhole hhere hthere => ?_⟩
  · obtain ⟨hspells, hparts⟩ := spelled_parseFormat hparse
    refine ⟨hspells, hparts, fun args => ?_⟩
    have htaken := @runFormat_eq_joinParts host absl stack fmt ops args 0
    simpa only [List.drop_zero, Nat.zero_add] using htaken
  · rw [FormatCall.run_of_granted (right_cacheAfter (TextCache.right_initial _) hwhole) hhere,
      FormatCall.run_of_granted (TextCache.right_initial _) hthere]

/-! ## A format too long to copy -/

section Refused

variable {H : Heap} {C : TextCompiler} {cache : TextCache C.Compiled} {heap heap' : H.State}
  {text : List UInt8} {blocks : List ℕ}

/-- **A refused copy leaves the compiled form of the new text with the old one.** -/
theorem TextCache.refresh_of_refused (hmiss : cache.entry.hit text = none)
    (hblocks : mallocAll H heap (C.requests text) = (some blocks, heap'))
    (hlong : cache.capacity < text.length)
    (hrefused : H.malloc (cache.replaced H C heap') (text.length + 1) = none) :
    cache.refresh H C heap text = (none,
      { cache with entry := cache.entry.torn (C.compile text), compiledBlocks := blocks },
      cache.replaced H C heap') := by
  rw [refresh, hmiss]
  dsimp only
  rw [hblocks]
  dsimp only
  rw [assign, if_neg (not_le.mpr hlong), hrefused]

end Refused

/-- The block of the parts of a format. -/
def partsBlock (fmt : List UInt8) : List ℕ :=
  match parseFormat fmt with
  | .ok ops => [16 * ops.length]
  | .error _ => []

/-- `"%s".format([1])`. -/
def formatOne : FormatCall linearMemory where
  s := .string (verbatim "%s")
  args := .listArena 1 [.int 1]
  heap := (65712 : ℕ)
  answers _ := true

/-- A clause there is not, and letters behind it. -/
def letters (n : ℕ) : List UInt8 := 0x25 :: List.replicate (n + 2) 97

/-- `letters.format([])`, where so much of the heap is used. -/
def formatLetters (n used : ℕ) : FormatCall linearMemory where
  s := .string (letters n)
  args := .listArena 0 []
  heap := used
  answers _ := true

theorem length_letters (n : ℕ) : (letters n).length = n + 3 := by
  rw [letters, List.length_cons, List.length_replicate]

theorem parseFormat_letters (n : ℕ) : ∃ e, parseFormat (letters n) = .error e := by
  rw [parseFormat, length_letters, parseFormatFrom, length_letters, if_neg (by omega),
    if_neg (by simp [letters]), if_neg (by omega), if_neg (by simp [letters, List.replicate_succ])]
  exact ⟨_, rfl⟩

theorem ne_letters (n : ℕ) : verbatim "%s" ≠ letters n := by
  intro h
  have hsecond : (0x73 : UInt8) = 97 := congrArg (List.getD · 1 0) h
  exact absurd hsecond (by decide)

/-- What the calls leave where the letters are not copied: `%s`, and that it has no parts. -/
theorem entry_cacheAfter_letters {n used : ℕ} (h : 66846720 < used + (n + 4)) :
    (cacheAfter .stubs .ofZero 1 partsBlock [formatOne, formatLetters n used] (.initial _)).entry
      = some (verbatim "%s", none) := by
  obtain ⟨kept, hkept⟩ : ∃ kept, cacheAfter .stubs .ofZero 1 partsBlock [formatOne] (.initial _) = kept := ⟨_, rfl⟩
  have hentry : kept.entry = some (verbatim "%s", some [⟨.kSubstring, 0, 2, none⟩]) := hkept ▸ rfl
  have hcapacity : kept.capacity = 2 := hkept ▸ rfl
  have hreplaced : kept.replaced linearMemory (formatCompiler partsBlock) used = used := hkept ▸ rfl
  obtain ⟨e, hparse⟩ := parseFormat_letters n
  have hmiss : kept.entry.hit (letters n) = none := by
    rw [hentry, OneEntryCache.hit, if_neg (ne_letters n)]
  have hblocks : mallocAll linearMemory used ((formatCompiler partsBlock).requests (letters n))
      = (some [], used) := by
    change mallocAll linearMemory used (partsBlock (letters n)) = _
    rw [partsBlock, hparse]
    rfl
  have hrefused : linearMemory.malloc (kept.replaced linearMemory (formatCompiler partsBlock) used)
      ((letters n).length + 1) = none := by
    rw [hreplaced, length_letters]
    exact malloc_linearMemory_of_lt h
  have hcompile : (formatCompiler partsBlock).compile (letters n) = none := by
    change (parseFormat (letters n)).toOption = none
    rw [hparse]
    rfl
  have hrun := @FormatCall.run_snd .stubs .ofZero 1 partsBlock linearMemory (formatLetters n used) kept
    (letters n) 0 [] rfl rfl
  have hrefresh := TextCache.refresh_of_refused hmiss hblocks
    (by rw [hcapacity, length_letters]; omega) hrefused
  rw [cacheAfter, List.foldl_cons] at hkept ⊢
  change (formatOne.run .stubs .ofZero 1 partsBlock (.initial _)).2 = kept at hkept
  rw [hkept, List.foldl_cons, List.foldl_nil, hrun, formatLetters]
  dsimp only
  rw [hrefresh, hentry, OneEntryCache.torn, hcompile, Option.map_some]

/-- **A call that comes to a text comes to an error behind a call that was refused its copy.** -/
theorem formatting_keeps_refused :
    (formatOne.run .stubs .ofZero 1 partsBlock
        (cacheAfter .stubs .ofZero 1 partsBlock [formatOne, formatLetters 40000000 40070000]
          (.initial _))).1
      = .ok (.error .invalidArgument) ∧
    (formatOne.run .stubs .ofZero 1 partsBlock (.initial _)).1 = .ok (.string (verbatim "1")) := by
  refine ⟨?_, rfl⟩
  have hentry := @entry_cacheAfter_letters 40000000 40070000 (by omega)
  generalize cacheAfter .stubs .ofZero 1 partsBlock [formatOne, formatLetters 40000000 40070000] (.initial _)
    = kept at hentry ⊢
  obtain ⟨entry, compiledBlocks, textBlock, capacity⟩ := kept
  obtain rfl : entry = _ := hentry
  rfl

/-- `"%d".format([1])`. -/
def formatDecimal : FormatCall linearMemory := { formatOne with s := .string (verbatim "%d") }

theorem formatting_forgets_decimal :
    (formatOne.run .stubs .ofZero 1 partsBlock
        (cacheAfter .stubs .ofZero 1 partsBlock [formatDecimal] (.initial _))).1
      = (formatOne.run .stubs .ofZero 1 partsBlock (.initial _)).1 := by
  refine (formatting_forgets .stubs .ofZero 1 partsBlock linearMemory).2 [formatDecimal] formatOne
    formatOne.heap ⟨?_, trivial⟩ ?_ ?_
  · rintro fmt ⟨⟩ - blocks heap' hblocks
    refine .inr ?_
    obtain ⟨-, rfl⟩ := Prod.mk.inj hblocks
    rfl
  · rintro fmt ⟨⟩ -
    exact ⟨_, _, rfl, .inl (by decide)⟩
  · rintro fmt ⟨⟩ -
    exact ⟨_, _, rfl, .inr rfl⟩

end CelWasm
