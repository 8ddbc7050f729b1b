import CelWasm.Library.ProgramLogic
import CelWasm.Runtime.Maps
import CelWasm.Runtime.TextWalks

/-!
# Runtime/WellFormedTexts — the strings in a value stay well-formed

A value holds spans: its own, and those of what it is made of. No kernel of strings looks into bytes,
so that what it writes is well-formed as soon as its strings are: a kernel keeps texts if every run
of it ends in a value whose strings are well-formed.
-/

namespace CelWasm

open Utf8

/-! ## The spans of a value -/

/-- What a span is of. -/
inductive SpanKind
  | string
  | bytes
  | type
  deriving DecidableEq, Repr

/-- **A span in a value of the host.** -/
inductive HostValue.HasSpan : HostValue → SpanKind → List UInt8 → Prop
  | string {s} : HasSpan (.string s) .string s
  | bytes {s} : HasSpan (.bytes s) .bytes s
  | type {s} : HasSpan (.type s) .type s
  | element {elements e kind s} (hmem : e ∈ elements) (h : HasSpan e kind s) :
    HasSpan (.list elements) kind s
  | key {entries e kind s} (hmem : e ∈ entries) (h : HasSpan e.1 kind s) :
    HasSpan (.map entries) kind s
  | value {entries e kind s} (hmem : e ∈ entries) (h : HasSpan e.2 kind s) :
    HasSpan (.map entries) kind s

/-- **A span in a cell.** -/
inductive CelValue.HasSpan : CelValue → SpanKind → List UInt8 → Prop
  | string {s} : HasSpan (.string s) .string s
  | bytes {s} : HasSpan (.bytes s) .bytes s
  | type {s} : HasSpan (.type s) .type s
  | element {capacity elements e kind s} (hmem : e ∈ elements) (h : HasSpan e kind s) :
    HasSpan (.listArena capacity elements) kind s
  | key {capacity entries index e kind s} (hmem : e ∈ entries) (h : HasSpan e.1 kind s) :
    HasSpan (.mapArena capacity entries index) kind s
  | value {capacity entries index e kind s} (hmem : e ∈ entries) (h : HasSpan e.2 kind s) :
    HasSpan (.mapArena capacity entries index) kind s
  | held {v kind s} (h : HasSpan v kind s) : HasSpan (.optional (some v)) kind s
  | listHost {elements kind s} (h : (HostValue.list elements).HasSpan kind s) :
    HasSpan (.listHost elements) kind s
  | mapHost {entries kind s} (h : (HostValue.map entries).HasSpan kind s) :
    HasSpan (.mapHost entries) kind s

variable {P : SpanKind → List UInt8 → Prop}

/-- Every span in a value of the host is such a one. -/
def HostValue.AllSpans (P : SpanKind → List UInt8 → Prop) (v : HostValue) : Prop :=
  ∀ kind s, v.HasSpan kind s → P kind s

/-- Every span in a cell is such a one. -/
def CelValue.AllSpans (P : SpanKind → List UInt8 → Prop) (v : CelValue) : Prop :=
  ∀ kind s, v.HasSpan kind s → P kind s

/-- **The strings in a value are well-formed**, whatever its bytes are. -/
def CelValue.StringsWellFormed (v : CelValue) : Prop :=
  v.AllSpans fun kind s => kind = .string → WellFormed s

/-- All the spans in a value are well-formed. -/
def CelValue.SpansWellFormed (v : CelValue) : Prop := v.AllSpans fun _ s => WellFormed s

namespace HostValue

/-- The spans of a list are those of its elements, -/
theorem allSpans_list {elements : List HostValue} :
    (list elements).AllSpans P ↔ ∀ e ∈ elements, e.AllSpans P := by
  constructor
  · exact fun h e hmem kind s hs => h kind s (.element hmem hs)
  · intro h kind s hs
    cases hs with
    | element hmem hs => exact h _ hmem kind s hs

/-- …and of a map those of its keys and its values. -/
theorem allSpans_map {entries : List (HostValue × HostValue)} :
    (map entries).AllSpans P ↔ ∀ e ∈ entries, e.1.AllSpans P ∧ e.2.AllSpans P := by
  constructor
  · exact fun h e hmem => ⟨fun kind s hs => h kind s (.key hmem hs),
      fun kind s hs => h kind s (.value hmem hs)⟩
  · intro h kind s hs
    cases hs with
    | key hmem hs => exact (h _ hmem).1 kind s hs
    | value hmem hs => exact (h _ hmem).2 kind s hs

end HostValue

namespace CelValue

theorem allSpans_string {s : List UInt8} : (string s).AllSpans P ↔ P .string s := by
  refine ⟨fun h => h _ _ .string, ?_⟩
  rintro h kind t ⟨⟩
  exact h

theorem allSpans_bytes {s : List UInt8} : (bytes s).AllSpans P ↔ P .bytes s := by
  refine ⟨fun h => h _ _ .bytes, ?_⟩
  rintro h kind t ⟨⟩
  exact h

theorem allSpans_type {s : List UInt8} : (type s).AllSpans P ↔ P .type s := by
  refine ⟨fun h => h _ _ .type, ?_⟩
  rintro h kind t ⟨⟩
  exact h

/-- In the arena they are the same, -/
theorem allSpans_listArena {capacity : ℕ} {elements : List CelValue} :
    (listArena capacity elements).AllSpans P ↔ ∀ e ∈ elements, e.AllSpans P := by
  constructor
  · exact fun h e hmem kind s hs => h kind s (.element hmem hs)
  · intro h kind s hs
    cases hs with
    | element hmem hs => exact h _ hmem kind s hs

theorem allSpans_mapArena {capacity : ℕ} {entries : List (CelValue × CelValue)}
    {index : Option MapIndex} : (mapArena capacity entries index).AllSpans P ↔
      ∀ e ∈ entries, e.1.AllSpans P ∧ e.2.AllSpans P := by
  constructor
  · exact fun h e hmem => ⟨fun kind s hs => h kind s (.key hmem hs),
      fun kind s hs => h kind s (.value hmem hs)⟩
  · intro h kind s hs
    cases hs with
    | key hmem hs => exact (h _ hmem).1 kind s hs
    | value hmem hs => exact (h _ hmem).2 kind s hs

/-- …and behind a handle. -/
theorem allSpans_listHost {elements : List HostValue} :
    (listHost elements).AllSpans P ↔ ∀ e ∈ elements, e.AllSpans P := by
  rw [← HostValue.allSpans_list]
  refine ⟨fun h kind s hs => h kind s (.listHost hs), ?_⟩
  rintro h kind s ⟨⟩
  exact h kind s ‹_›

theorem allSpans_mapHost {entries : List (HostValue × HostValue)} :
    (mapHost entries).AllSpans P ↔ ∀ e ∈ entries, e.1.AllSpans P ∧ e.2.AllSpans P := by
  rw [← HostValue.allSpans_map]
  refine ⟨fun h kind s hs => h kind s (.mapHost hs), ?_⟩
  rintro h kind s ⟨⟩
  exact h kind s ‹_›

/-- Poison has no spans. -/
theorem allSpans_error (e : CelErr) : (error e).AllSpans P := nofun

/-- **Poison has no spans.** -/
theorem allSpans_of_isPoison {v : CelValue} (h : v.isPoison = true) : v.AllSpans P := by
  obtain ⟨e, rfl⟩ | ⟨s, rfl⟩ := isPoison_iff.mp h
  · exact nofun
  · exact nofun

/-- A string has one text. -/
theorem stringsWellFormed_string {s : List UInt8} :
    (string s).StringsWellFormed ↔ WellFormed s := by
  rw [StringsWellFormed, allSpans_string]
  exact ⟨fun h => h rfl, fun h _ => h⟩

end CelValue

/-! ## Kernels -/

/-- **A kernel keeps texts**: the strings in what it comes to are well-formed, in every run. -/
def KeepsTexts (k : Kernel CelValue) : Prop := k.Meets CelValue.StringsWellFormed fun _ => True

section Rules

variable {a b v : CelValue} {body : Kernel CelValue} {s t : List UInt8}

theorem keepsTexts_error (e : CelErr) : KeepsTexts (return .error e) := CelValue.allSpans_error e

/-- A string that is well-formed is a result that keeps texts. -/
theorem keepsTexts_string (h : WellFormed s) : KeepsTexts (return .string s) :=
  CelValue.stringsWellFormed_string.mpr h

/-- Poison is handed on. -/
theorem keepsTexts_unlessAbsorbedUnary (h : KeepsTexts body) :
    KeepsTexts (unlessAbsorbedUnary a body) := by
  rw [unlessAbsorbedUnary, absorb3vlUnary]
  by_cases ha : a.isPoison = true
  · rw [if_pos ha]
    exact CelValue.allSpans_of_isPoison ha
  · rw [if_neg ha]
    exact h

/-- A guard adds no text of its own. -/
theorem keepsTexts_unlessEither (h : KeepsTexts body) : KeepsTexts (unlessEither a b body) :=
  keepsTexts_unlessAbsorbedUnary (keepsTexts_unlessAbsorbedUnary h)

/-- What is merged is poison. -/
theorem meets_celUnknownMerge : (celUnknownMerge a b).Meets (·.isPoison = true) fun _ => True := by
  unfold celUnknownMerge mergeUnknownDescriptors
  split
  · refine Prog.meets_ite (fun _ => rfl) fun _ => Prog.meets_ite (fun _ => rfl) fun _ => ?_
    exact Prog.meets_bind.mpr (Prog.meets_alloc_bind.mpr ⟨rfl, Prog.meets_alloc_bind.mpr ⟨rfl, rfl⟩⟩)
  · exact rfl

/-- …and so is all that is absorbed. -/
theorem meets_absorb3vlBinary :
    (absorb3vlBinary a b).Meets (fun o => ∀ v ∈ o, v.isPoison = true) fun _ => True := by
  unfold absorb3vlBinary
  split
  · rintro _ ⟨⟩; rfl
  · rintro _ ⟨⟩; rfl
  · rw [map_eq_pure_bind]
    exact meets_celUnknownMerge.bind fun v hv w hw => Option.some.inj hw ▸ hv
  · rintro _ ⟨⟩; rfl
  · rintro _ ⟨⟩; rfl
  · exact nofun

theorem keepsTexts_unlessAbsorbed (h : KeepsTexts body) : KeepsTexts (unlessAbsorbed a b body) := by
  refine meets_absorb3vlBinary.bind fun o ho => ?_
  cases o with
  | none => exact h
  | some v => exact CelValue.allSpans_of_isPoison (ho v rfl)

/-- What is copied into the arena is the text that was copied. -/
theorem keepsTexts_writeStringFromBytes (h : WellFormed s) :
    KeepsTexts (writeStringFromBytes s) :=
  Prog.meets_ite (fun _ => keepsTexts_string wellFormed_nil) fun _ =>
    Prog.meets_alloc_bind.mpr ⟨keepsTexts_error .overflow, keepsTexts_string h⟩

/-- **Two well-formed texts one behind the other are well-formed.** -/
theorem keepsTexts_concatIntoOut (hs : WellFormed s) (ht : WellFormed t) :
    KeepsTexts (concatIntoOut .string s t) :=
  Prog.meets_ite (fun _ => keepsTexts_error .overflow) fun _ =>
    Prog.meets_ite
      (fun _ => Prog.meets_alloc_bind.mpr
        ⟨keepsTexts_error .overflow, keepsTexts_string (hs.append ht)⟩)
      fun _ => keepsTexts_string wellFormed_nil

/-- A fold of ASCII bytes among themselves. -/
theorem keepsTexts_asciiFoldInto {needsFold : UInt8 → Bool} {fold : UInt8 → UInt8}
    (hs : WellFormed s) (h : ∀ n : Fin 256, needsFold (.ofNat n) = true →
      n.val < 128 ∧ (fold (.ofNat n)).toNat < 128) :
    KeepsTexts (asciiFoldInto needsFold fold s) := by
  have hbytes : ∀ b, needsFold b = true → b.toNat < 128 ∧ (fold b).toNat < 128 := by
    intro b
    have hb := h ⟨b.toNat, b.toNat_lt⟩
    rwa [UInt8.ofNat_toNat] at hb
  exact Prog.meets_ite (fun _ => keepsTexts_string hs) fun _ => Prog.meets_alloc_bind.mpr
    ⟨keepsTexts_error .overflow, keepsTexts_string (wellFormed_fold hs hbytes)⟩

/-- **A replacement of well-formed texts**: an occurrence begins and ends between characters. -/
theorem keepsTexts_doReplace {new : List UInt8} (hs : WellFormed s) (ht : WellFormed t)
    (hnew : WellFormed new) (limit : Int64) : KeepsTexts (doReplace s t new limit) :=
  Prog.meets_ite (fun _ => keepsTexts_string hs) fun _ =>
    keepsTexts_writeStringFromBytes (wellFormed_buildReplaced hs ht hnew)

/-- **A list of well-formed pieces.** -/
theorem keepsTexts_doSplit (hs : WellFormed s) (ht : WellFormed t) (limit : Int64) :
    KeepsTexts (doSplit s t limit) := by
  have hpieces : ∀ p ∈ (if limit = 0 then [] else computeSplitRanges s t (normalizedLimit limit)),
      WellFormed p := by
    split_ifs
    · exact nofun
    · exact wellFormed_computeSplitRanges hs ht
  have hlist : ∀ pieces : List (List UInt8), (∀ p ∈ pieces, WellFormed p) →
      KeepsTexts (return .listArena pieces.length (pieces.map .string)) := by
    intro pieces h
    refine CelValue.allSpans_listArena.mpr fun e he => ?_
    obtain ⟨p, hp, rfl⟩ := List.mem_map.mp he
    exact CelValue.stringsWellFormed_string.mpr (h p hp)
  have hgranted : ∀ capacity, (allocList capacity).Meets (fun _ => True) fun _ => True :=
    fun capacity => Prog.meets_alloc_bind.mpr ⟨trivial, Prog.meets_ite (fun _ => trivial) fun _ =>
      Prog.meets_ite (fun _ => trivial) fun _ _ => trivial⟩
  refine (hgranted _).bind fun granted _ => ?_
  cases granted with
  | true => exact hlist _ hpieces
  | false => exact keepsTexts_error .overflow

/-- The strings of a list, or what is handed on of it. -/
theorem joinedStrings_cases : ∀ {elements : List CelValue},
    (∀ e ∈ elements, e.StringsWellFormed) →
      (∃ strings, joinedStrings elements = .ok strings ∧ ∀ p ∈ strings, WellFormed p) ∨
      ∃ v, joinedStrings elements = .error v ∧ v.isPoison = true
  | [], _ => .inl ⟨[], rfl, nofun⟩
  | .string s :: rest, h => by
    rw [List.forall_mem_cons] at h
    obtain ⟨strings, heq, hstrings⟩ | ⟨v, heq, hv⟩ := joinedStrings_cases h.2
    · refine .inl ⟨s :: strings, by rw [joinedStrings, heq]; rfl, ?_⟩
      exact List.forall_mem_cons.mpr ⟨CelValue.stringsWellFormed_string.mp h.1, hstrings⟩
    · exact .inr ⟨v, by rw [joinedStrings, heq]; rfl, hv⟩
  | .null :: _, _ | .bool _ :: _, _ | .int _ :: _, _ | .uint _ :: _, _ | .double _ :: _, _
  | .bytes _ :: _, _ | .listArena .. :: _, _ | .mapArena .. :: _, _ | .mapHost _ :: _, _
  | .message _ :: _, _ | .type _ :: _, _ | .duration _ :: _, _ | .timestamp _ :: _, _
  | .optional _ :: _, _ | .unknown _ :: _, _ | .error _ :: _, _ | .listHost _ :: _, _
  | .ip _ :: _, _ | .cidr _ :: _, _ => .inr ⟨_, rfl, rfl⟩

/-- A join puts well-formed texts and separators together, or finds an element that is no string. -/
theorem keepsTexts_buildJoin {elements : List CelValue} (ht : WellFormed t)
    (h : ∀ e ∈ elements, e.StringsWellFormed) : KeepsTexts (buildJoin elements t) := by
  rw [buildJoin]
  obtain ⟨strings, heq, hstrings⟩ | ⟨v, heq, hv⟩ := joinedStrings_cases h
  · rw [heq]
    exact keepsTexts_writeStringFromBytes (.intercalate ht hstrings)
  · rw [heq]
    exact CelValue.allSpans_of_isPoison hv

end Rules

/-! ## Containers -/

/-- **The host has no spans of its own**: in the copy of a container are those of the container. -/
structure CelHost.KeepsSpans (host : CelHost) : Prop where
  listIterOpen : ∀ (P : SpanKind → List UInt8 → Prop) (elements : List HostValue),
    (CelValue.listHost elements).AllSpans P →
      (host.listIterOpen (.listHost elements)).Meets (·.AllSpans P) fun _ => True
  mapIterOpen : ∀ (P : SpanKind → List UInt8 → Prop) (entries : List (HostValue × HostValue)),
    (CelValue.mapHost entries).AllSpans P → (host.mapIterOpen (.mapHost entries)).Meets
      (fun walked => ∀ e ∈ walked, e.1.AllSpans P ∧ e.2.AllSpans P) fun _ => True

section Containers

variable {host : CelHost} {v : CelValue}

/-- What is walked instead of what is no container. -/
theorem allSpans_poisonFor : (if v.isPoison then v else .error .typeMismatch).AllSpans P := by
  split_ifs with h
  · exact CelValue.allSpans_of_isPoison h
  · exact CelValue.allSpans_error .typeMismatch

/-- **The elements a list is viewed as have the spans of the list**, copied or not. -/
theorem meets_celListArenaView (hhost : host.KeepsSpans) (h : v.AllSpans P) :
    (celListArenaView host v).Meets (fun elements => ∀ e ∈ elements, e.AllSpans P)
      fun _ => True := by
  cases v with
  | listArena capacity elements => exact CelValue.allSpans_listArena.mp h
  | listHost elements =>
    refine Prog.meets_alloc_bind.mpr ⟨fun _ => ?_, ?_⟩
    · exact List.forall_mem_singleton.mpr (CelValue.allSpans_error .overflow)
    · refine (hhost.listIterOpen P elements h).bind fun view hview => ?_
      cases view with
      | listArena capacity cells => exact CelValue.allSpans_listArena.mp hview
      | _ => trivial
  | _ => exact fun _ => List.forall_mem_singleton.mpr allSpans_poisonFor

/-- A walk of nothing but poison. -/
theorem meets_vendPoisonMapIter (h : v.AllSpans P) : (vendPoisonMapIter v).Meets
    (fun walked => ∀ e ∈ walked, e.1.AllSpans P ∧ e.2.AllSpans P) fun _ => True :=
  fun _ => List.forall_mem_singleton.mpr ⟨h, h⟩

/-- …and the entries a map is walked in have those of the map. -/
theorem meets_celMapIterInit (hhost : host.KeepsSpans) (h : v.AllSpans P) :
    (celMapIterInit host v).Meets (fun walked => ∀ e ∈ walked, e.1.AllSpans P ∧ e.2.AllSpans P)
      fun _ => True := by
  have hpoison : (CelValue.error .overflow).AllSpans P := CelValue.allSpans_error .overflow
  cases v with
  | mapArena capacity entries index =>
    cases entries with
    | nil => exact CelValue.allSpans_mapArena.mp h
    | cons e entries =>
      exact Prog.meets_alloc_bind.mpr
        ⟨meets_vendPoisonMapIter hpoison, CelValue.allSpans_mapArena.mp h⟩
  | mapHost entries =>
    exact Prog.meets_alloc_bind.mpr
      ⟨fun _ => List.forall_mem_singleton.mpr ⟨hpoison, hpoison⟩, hhost.mapIterOpen P entries h⟩
  | _ => exact meets_vendPoisonMapIter allSpans_poisonFor

theorem keepsTexts_joinView {sep : List UInt8} (hhost : host.KeepsSpans) (hsep : WellFormed sep)
    (h : v.StringsWellFormed) : KeepsTexts (joinView host v sep) := by
  have hjoin : KeepsTexts (celListArenaView host v >>= fun elements => buildJoin elements sep) :=
    (meets_celListArenaView hhost h).bind fun _ => keepsTexts_buildJoin hsep
  cases v with
  | listArena capacity elements => exact hjoin
  | listHost elements => exact hjoin
  | _ => exact keepsTexts_error .typeMismatch

end Containers

/-! ## The extension -/

section Extension

variable {host : CelHost} {a b c d : CelValue}

/-- A character is cut out whole. -/
theorem keepsTexts_celStringCharAt (ha : a.StringsWellFormed) :
    KeepsTexts (celStringCharAt a b) := by
  refine keepsTexts_unlessAbsorbedUnary <| keepsTexts_unlessAbsorbedUnary ?_
  split
  · rename_i text pos
    have htext := CelValue.stringsWellFormed_string.mp ha
    refine Prog.meets_ite (fun _ => keepsTexts_error .invalidArgument) fun _ => ?_
    cases hwalk : charAtWalk text.length text pos.toInt.toNat with
    | none => exact keepsTexts_error .invalidArgument
    | some bytes => exact keepsTexts_writeStringFromBytes (wellFormed_charAtWalk htext hwalk)
  · exact keepsTexts_error .typeMismatch

/-- A substring is cut between characters, -/
theorem keepsTexts_celStringSubstring (ha : a.StringsWellFormed) :
    KeepsTexts (celStringSubstring a b) := by
  refine keepsTexts_unlessEither ?_
  split
  · rename_i text start
    have htext := CelValue.stringsWellFormed_string.mp ha
    refine Prog.meets_ite (fun _ => keepsTexts_error .invalidArgument) fun _ => ?_
    cases hoffset : codepointToByteOffset text start with
    | none => exact keepsTexts_error .invalidArgument
    | some offset => exact keepsTexts_string (isCut_codepointToByteOffset htext hoffset).drop
  · exact keepsTexts_error .typeMismatch

/-- …at both ends. -/
theorem keepsTexts_celStringSubstringRange (ha : a.StringsWellFormed) :
    KeepsTexts (celStringSubstringRange a b c) := by
  refine keepsTexts_unlessEither <| keepsTexts_unlessAbsorbedUnary ?_
  split
  · rename_i text start stop
    have htext := CelValue.stringsWellFormed_string.mp ha
    refine Prog.meets_ite (fun _ => keepsTexts_error .invalidArgument) fun _ =>
      Prog.meets_ite (fun _ => keepsTexts_error .invalidArgument) fun _ => ?_
    cases hstart : codepointToByteOffset text start with
    | none => exact keepsTexts_error .invalidArgument
    | some startByte =>
      cases hstop : codepointToByteOffset text stop with
      | none => exact keepsTexts_error .invalidArgument
      | some stopByte =>
        exact keepsTexts_string ((isCut_codepointToByteOffset htext hstart).between
          (isCut_codepointToByteOffset htext hstop))
  · exact keepsTexts_error .typeMismatch

theorem keepsTexts_celStringReplace (ha : a.StringsWellFormed) (hb : b.StringsWellFormed)
    (hc : c.StringsWellFormed) : KeepsTexts (celStringReplace a b c) := by
  refine keepsTexts_unlessEither <| keepsTexts_unlessAbsorbedUnary ?_
  split
  · rw [CelValue.stringsWellFormed_string] at ha hb hc
    exact keepsTexts_doReplace ha hb hc (-1)
  · exact keepsTexts_error .typeMismatch

theorem keepsTexts_celStringReplaceN (ha : a.StringsWellFormed) (hb : b.StringsWellFormed)
    (hc : c.StringsWellFormed) : KeepsTexts (celStringReplaceN a b c d) := by
  refine keepsTexts_unlessEither <| keepsTexts_unlessEither ?_
  split
  · rw [CelValue.stringsWellFormed_string] at ha hb hc
    exact keepsTexts_doReplace ha hb hc _
  · exact keepsTexts_error .typeMismatch

/-- The pieces of a split are cut at occurrences of a well-formed separator. -/
theorem keepsTexts_celStringSplit (ha : a.StringsWellFormed) (hb : b.StringsWellFormed) :
    KeepsTexts (celStringSplit a b) := by
  refine keepsTexts_unlessEither ?_
  split
  · rw [CelValue.stringsWellFormed_string] at ha hb
    exact keepsTexts_doSplit ha hb (-1)
  · exact keepsTexts_error .typeMismatch

theorem keepsTexts_celStringSplitN (ha : a.StringsWellFormed) (hb : b.StringsWellFormed) :
    KeepsTexts (celStringSplitN a b c) := by
  refine keepsTexts_unlessEither <| keepsTexts_unlessAbsorbedUnary ?_
  split
  · rw [CelValue.stringsWellFormed_string] at ha hb
    exact keepsTexts_doSplit ha hb _
  · exact keepsTexts_error .typeMismatch

theorem keepsTexts_celStringJoinSep (hhost : host.KeepsSpans) (ha : a.StringsWellFormed)
    (hb : b.StringsWellFormed) : KeepsTexts (celStringJoinSep host a b) := by
  refine keepsTexts_unlessEither ?_
  split
  · exact keepsTexts_joinView hhost (CelValue.stringsWellFormed_string.mp hb) ha
  · exact keepsTexts_error .typeMismatch

/-- The searches come to a number or an error. -/
theorem keepsTexts_celStringIndexOf : KeepsTexts (celStringIndexOf a b) ∧
    KeepsTexts (celStringIndexOfFrom a b c) ∧ KeepsTexts (celStringLastIndexOf a b) ∧
    KeepsTexts (celStringLastIndexOfTo a b c) := by
  have hint : ∀ i, KeepsTexts (return writeInt i) := fun _ => nofun
  refine ⟨keepsTexts_unlessEither ?_, keepsTexts_unlessEither <| keepsTexts_unlessAbsorbedUnary ?_,
    keepsTexts_unlessEither ?_, keepsTexts_unlessEither <| keepsTexts_unlessAbsorbedUnary ?_⟩
  · split
    · exact hint _
    · exact keepsTexts_error .typeMismatch
  · split
    · exact Prog.meets_ite (fun _ => keepsTexts_error .invalidArgument) fun _ => hint _
    · exact keepsTexts_error .typeMismatch
  · split
    · exact hint _
    · exact keepsTexts_error .typeMismatch
  · split
    · exact Prog.meets_ite (fun _ => keepsTexts_error .invalidArgument) fun _ => hint _
    · exact keepsTexts_error .typeMismatch

/-- A match is a bool. -/
theorem keepsTexts_celMatches (regex : Regex) : KeepsTexts (celMatches regex a b) := by
  refine keepsTexts_unlessAbsorbedUnary <| keepsTexts_unlessAbsorbedUnary ?_
  split
  · split
    · exact keepsTexts_error .invalidArgument
    · exact nofun
  · exact keepsTexts_error .invalidArgument

/-- **The string extension keeps texts.** -/
theorem keepsTexts_stringCall (hhost : host.KeepsSpans) (regex : Regex) {call : StringCall}
    (h : ∀ v ∈ call.operands, v.StringsWellFormed) : KeepsTexts (call.run host regex) := by
  cases call with
  | charAt s i => exact keepsTexts_celStringCharAt (List.forall_mem_cons.mp h).1
  | indexOf s sub => exact (@keepsTexts_celStringIndexOf s sub .null).1
  | indexOfFrom s sub pos => exact keepsTexts_celStringIndexOf.2.1
  | lastIndexOf s sub => exact (@keepsTexts_celStringIndexOf s sub .null).2.2.1
  | lastIndexOfTo s sub pos => exact keepsTexts_celStringIndexOf.2.2.2
  | substring s start => exact keepsTexts_celStringSubstring (List.forall_mem_cons.mp h).1
  | substringRange s start stop =>
    exact keepsTexts_celStringSubstringRange (List.forall_mem_cons.mp h).1
  | replace s old new =>
    simp only [StringCall.operands, List.forall_mem_cons] at h
    exact keepsTexts_celStringReplace h.1 h.2.1 h.2.2.1
  | replaceN s old new n =>
    simp only [StringCall.operands, List.forall_mem_cons] at h
    exact keepsTexts_celStringReplaceN h.1 h.2.1 h.2.2.1
  | split s sep =>
    simp only [StringCall.operands, List.forall_mem_cons] at h
    exact keepsTexts_celStringSplit h.1 h.2.1
  | splitN s sep n =>
    simp only [StringCall.operands, List.forall_mem_cons] at h
    exact keepsTexts_celStringSplitN h.1 h.2.1
  | join list =>
    exact keepsTexts_unlessAbsorbedUnary
      (keepsTexts_joinView hhost wellFormed_nil (List.forall_mem_cons.mp h).1)
  | joinSep list sep =>
    simp only [StringCall.operands, List.forall_mem_cons] at h
    exact keepsTexts_celStringJoinSep hhost h.1 h.2.1
  | _ => exact keepsTexts_celMatches regex

/-! ## The other kernels -/

theorem keepsTexts_celStringConcat (ha : a.StringsWellFormed) (hb : b.StringsWellFormed) :
    KeepsTexts (celStringConcat a b) := by
  refine keepsTexts_unlessAbsorbed ?_
  split
  · rw [CelValue.stringsWellFormed_string] at ha hb
    exact keepsTexts_concatIntoOut ha hb
  · exact keepsTexts_error .typeMismatch

theorem keepsTexts_celStringLowerAscii (ha : a.StringsWellFormed) :
    KeepsTexts (celStringLowerAscii a) := by
  refine keepsTexts_unlessAbsorbedUnary ?_
  split
  · exact keepsTexts_asciiFoldInto (CelValue.stringsWellFormed_string.mp ha)
      (by set_option maxRecDepth 1000 in decide)
  · exact keepsTexts_error .typeMismatch

theorem keepsTexts_celStringUpperAscii (ha : a.StringsWellFormed) :
    KeepsTexts (celStringUpperAscii a) := by
  refine keepsTexts_unlessAbsorbedUnary ?_
  split
  · exact keepsTexts_asciiFoldInto (CelValue.stringsWellFormed_string.mp ha)
      (by set_option maxRecDepth 1000 in decide)
  · exact keepsTexts_error .typeMismatch

/-- What is trimmed off is whole characters. -/
theorem keepsTexts_celStringTrim (ha : a.StringsWellFormed) : KeepsTexts (celStringTrim a) := by
  refine keepsTexts_unlessAbsorbedUnary ?_
  split
  · exact keepsTexts_string (wellFormed_trimmed (CelValue.stringsWellFormed_string.mp ha))
  · exact keepsTexts_error .typeMismatch

/-- A string is reversed character by character, and not byte by byte. -/
theorem keepsTexts_celStringReverse (ha : a.StringsWellFormed) :
    KeepsTexts (celStringReverse a) := by
  refine keepsTexts_unlessAbsorbedUnary ?_
  split
  · exact keepsTexts_string wellFormed_nil
  · exact Prog.meets_alloc_bind.mpr ⟨keepsTexts_error .overflow,
      keepsTexts_string (wellFormed_reverse (CelValue.stringsWellFormed_string.mp ha))⟩
  · exact keepsTexts_error .typeMismatch

/-- What is quoted has its bytes that are no text replaced. -/
theorem keepsTexts_celStringQuote (ha : a.StringsWellFormed) : KeepsTexts (celStringQuote a) := by
  have hquote : WellFormed [0x22] := .of_all_ascii rfl
  refine keepsTexts_unlessAbsorbedUnary ?_
  split
  · rename_i text
    have hquoted := @wellFormed_quoteFrom text text.length (CelValue.stringsWellFormed_string.mp ha)
    exact keepsTexts_writeStringFromBytes ((hquote.append hquoted).append hquote)
  · exact keepsTexts_error .typeMismatch

end Extension

end CelWasm
