import CelWasm.Eval.HostSnapshot
import CelWasm.Runtime.FormatTexts

/-!
# Eval/WellFormedStrings — string values stay well-formed

The copies of host containers have the spans of these, so that no kernel that writes a string gets at
others than its operands have. From well-formed strings all of them write well-formed strings but
`format`, which by `%s` copies bytes out as they are: what it writes is well-formed if the bytes are
that it copies.
-/

namespace CelWasm

open Utf8

/-! ## Copies of host containers -/

section Copies

variable {P : SpanKind → List UInt8 → Prop}

/-- **A cell has the spans of the value it is of.** -/
theorem HostValue.AllSpans.cell {v : HostValue} (h : v.AllSpans P) : v.cell.AllSpans P := by
  cases v with
  | string s => exact CelValue.allSpans_string.mpr (h _ _ .string)
  | bytes s => exact CelValue.allSpans_bytes.mpr (h _ _ .bytes)
  | list elements => exact CelValue.allSpans_listHost.mpr (HostValue.allSpans_list.mp h)
  | map entries => exact CelValue.allSpans_mapHost.mpr (HostValue.allSpans_map.mp h)
  | _ => exact nofun

theorem allSpans_listCells {v : CelValue} (h : v.AllSpans P) : ∀ c ∈ listCells v, c.AllSpans P := by
  cases v with
  | listArena capacity elements => exact CelValue.allSpans_listArena.mp h
  | listHost elements =>
    refine List.forall_mem_map.mpr fun e he => ?_
    exact (CelValue.allSpans_listHost.mp h e he).cell
  | _ => exact nofun

/-- **The host has no spans of its own.** -/
theorem keepsSpans_withSnapshots (host : CelHost) : host.withSnapshots.KeepsSpans where
  listIterOpen P elements h := by
    refine (celListIterOpenImpl_meets elements).mono ?_ fun _ _ => trivial
    rintro view ⟨capacity, cells, rfl, rfl | rfl⟩
    · exact CelValue.allSpans_listArena.mpr (allSpans_listCells h)
    · exact CelValue.allSpans_listArena.mpr nofun
  mapIterOpen P entries h := by
    refine (celMapIterOpenImpl_meets entries).mono ?_ fun _ _ => trivial
    rintro walked (rfl | rfl)
    · refine List.forall_mem_map.mpr fun e he => ?_
      obtain ⟨hkey, hvalue⟩ := CelValue.allSpans_mapHost.mp h e he
      exact ⟨hkey.cell, hvalue.cell⟩
    · exact nofun

end Copies

/-! ## Formats -/

section Formats

variable {host : CelHost} {absl : AbslFormat} {stack : ℕ} {fmt : List UInt8} {args : CelValue}

/-- **What `%s` copies is well-formed**: the bytes in the arguments that `%s` clauses take, and the
names of types. -/
def CopiesWellFormed (fmt : List UInt8) (args : CelValue) : Prop :=
  ∀ ops, parseFormat fmt = .ok ops → ∀ v ∈ substringArgs ops (listCells args),
    v.AllSpans fun kind s => kind ≠ .string → WellFormed s

/-- **`format` keeps texts** if what `%s` copies is well-formed. -/
theorem keepsTexts_formatArgs (habsl : absl.PrintsAscii) (hfmt : WellFormed fmt)
    (hargs : args.StringsWellFormed) (hcopies : CopiesWellFormed fmt args) :
    KeepsTexts (formatArgs host.withSnapshots absl stack fmt args) := by
  refine ((celListArenaView_withSnapshots_meets host args).mono (fun _ => id)
    fun _ _ => trivial).bind fun elements helements => ?_
  cases hparse : parseFormat fmt with
  | error e => exact keepsTexts_error .invalidArgument
  | ok ops =>
    have hspans : ∀ v ∈ substringArgs ops elements, v.SpansWellFormed := by
      intro v hv
      obtain rfl | rfl | ⟨poison, rfl, hpoison⟩ := helements
      · intro kind s hs
        by_cases hkind : kind = .string
        · exact allSpans_listCells hargs v (mem_of_mem_substringArgs hv) kind s hs hkind
        · exact hcopies ops hparse v hv kind s hs hkind
      · exact absurd (mem_of_mem_substringArgs hv) List.not_mem_nil
      · rw [List.mem_singleton.mp (mem_of_mem_substringArgs hv)]
        exact CelValue.allSpans_of_isPoison hpoison
    dsimp only
    cases habsorbed : elements.find? CelValue.isPoison with
    | some absorbed => exact CelValue.allSpans_of_isPoison (List.find?_some habsorbed)
    | none =>
      refine (rendersWellFormed_runFormat (keepsSpans_withSnapshots host) habsl
        (runsWellFormed_parseFormat hfmt hparse) hspans).bind fun r hr => ?_
      cases r with
      | none => exact keepsTexts_error .invalidArgument
      | some text => exact keepsTexts_writeStringFromBytes (hr text rfl)

end Formats

/-! ## Calls -/

/-- A call of a kernel that writes a string, or of another one of the extension. -/
inductive TextCall
  | concat (a b : CelValue)
  | extension (call : StringCall)
  | lowerAscii (s : CelValue)
  | upperAscii (s : CelValue)
  | trim (s : CelValue)
  | reverse (s : CelValue)
  | quote (s : CelValue)
  | format (s args : CelValue)

namespace TextCall

/-- The operands, from the left. -/
def operands : TextCall → List CelValue
  | concat a b => [a, b]
  | extension call => call.operands
  | lowerAscii s | upperAscii s | trim s | reverse s | quote s => [s]
  | format s args => [s, args]

/-- The kernel of a call, on its operands. -/
def run (host : CelHost) (regex : Regex) (absl : AbslFormat) (stack : ℕ) :
    TextCall → Kernel CelValue
  | concat a b => celStringConcat a b
  | extension call => call.run host regex
  | lowerAscii s => celStringLowerAscii s
  | upperAscii s => celStringUpperAscii s
  | trim s => celStringTrim s
  | reverse s => celStringReverse s
  | quote s => celStringQuote s
  | format s args => celStringFormat host absl stack s args

/-- **What a call copies of bytes is well-formed**: only `format` does, by `%s`. -/
def CopiesWellFormed : TextCall → Prop
  | format (.string fmt) args => CelWasm.CopiesWellFormed fmt args
  | _ => True

end TextCall

/-- **String values stay well-formed.** From operands whose strings are well-formed no kernel comes to
a value with a string in it that is not, in any run; of `format` the bytes that `%s` copies have to be
well-formed as well. -/
theorem stringsWellFormed_run (host : CelHost) (regex : Regex) {absl : AbslFormat}
    (habsl : absl.PrintsAscii) (stack : ℕ) {call : TextCall}
    (hoperands : ∀ v ∈ call.operands, v.StringsWellFormed) (hcopies : call.CopiesWellFormed)
    {v : CelValue} (h : (call.run host.withSnapshots regex absl stack).Reaches (.ok v)) :
    v.StringsWellFormed := by
  have hkeeps : KeepsTexts (call.run host.withSnapshots regex absl stack) := by
    cases call with
    | concat a b =>
      simp only [TextCall.operands, List.forall_mem_cons] at hoperands
      exact keepsTexts_celStringConcat hoperands.1 hoperands.2.1
    | extension call => exact keepsTexts_stringCall (keepsSpans_withSnapshots host) regex hoperands
    | lowerAscii s => exact keepsTexts_celStringLowerAscii (List.forall_mem_cons.mp hoperands).1
    | upperAscii s => exact keepsTexts_celStringUpperAscii (List.forall_mem_cons.mp hoperands).1
    | trim s => exact keepsTexts_celStringTrim (List.forall_mem_cons.mp hoperands).1
    | reverse s => exact keepsTexts_celStringReverse (List.forall_mem_cons.mp hoperands).1
    | quote s => exact keepsTexts_celStringQuote (List.forall_mem_cons.mp hoperands).1
    | format s args =>
      simp only [TextCall.operands, List.forall_mem_cons] at hoperands
      refine keepsTexts_unlessAbsorbedUnary <| keepsTexts_unlessAbsorbedUnary ?_
      split
      · exact keepsTexts_formatArgs habsl (CelValue.stringsWellFormed_string.mp hoperands.1)
          hoperands.2.1 hcopies
      · exact keepsTexts_formatArgs habsl (CelValue.stringsWellFormed_string.mp hoperands.1)
          hoperands.2.1 hcopies
      · exact keepsTexts_error .typeMismatch
  exact hkeeps.good_of_reaches h

/-! ## Formats with bytes -/

/-- A library as it prints zero and the epoch. -/
def AbslFormat.ofZero : AbslFormat where
  strCatDouble _ := verbatim "0"
  fixed p _ := verbatim (if p = 0 then "0" else "0.") ++ List.replicate p 0x30
  scientific p _ :=
    verbatim (if p = 0 then "0" else "0.") ++ List.replicate p 0x30 ++ verbatim "e+00"
  rfc3339Full _ := verbatim "1970-01-01T00:00:00+00:00"

theorem AbslFormat.printsAscii_ofZero : ofZero.PrintsAscii := by
  have hzero : ∀ b ∈ verbatim "0", b.toNat < 128 := ascii_of_all rfl
  have hpoint : ∀ b ∈ verbatim "0.", b.toNat < 128 := ascii_of_all rfl
  have hexponent : ∀ b ∈ verbatim "e+00", b.toNat < 128 := ascii_of_all rfl
  have hepoch : ∀ b ∈ verbatim "1970-01-01T00:00:00+00:00", b.toNat < 128 := ascii_of_all rfl
  have hfixed : ∀ p : ℕ, ∀ b ∈ verbatim (if p = 0 then "0" else "0.") ++ List.replicate p 0x30,
      b.toNat < 128 := by
    intro p b hb
    obtain hb | hb := List.mem_append.mp hb
    · split_ifs at hb
      · exact hzero b hb
      · exact hpoint b hb
    · rw [List.eq_of_mem_replicate hb]
      decide
  refine ⟨fun _ => hzero, fun p _ => hfixed p, fun p _ b hb => ?_, fun _ => hepoch⟩
  obtain hb | hb := List.mem_append.mp hb
  · exact hfixed p b hb
  · exact hexponent b hb

/-- Bytes are no string. -/
theorem stringsWellFormed_bytes (s : List UInt8) : (CelValue.bytes s).StringsWellFormed :=
  CelValue.allSpans_bytes.mpr nofun

/-- The operands of a format with a list of arguments. -/
theorem stringsWellFormed_operands_format (fmt : String) {capacity : ℕ} {args : List CelValue}
    (hargs : ∀ v ∈ args, v.StringsWellFormed) :
    ∀ v ∈ (TextCall.format (.string (verbatim fmt)) (.listArena capacity args)).operands,
      v.StringsWellFormed :=
  List.forall_mem_cons.mpr ⟨CelValue.stringsWellFormed_string.mpr (wellFormed_verbatim fmt),
    List.forall_mem_singleton.mpr (CelValue.allSpans_listArena.mpr hargs)⟩

/-- `"%s %x"` of zero and the byte `FF`. -/
theorem stringsWellFormed_run_hex :
    (TextCall.run CelHost.stubs.withSnapshots (fun _ => none) .ofZero 16
      (.format (.string (verbatim "%s %x"))
        (.listArena 2 [.double (.ofInt 0), .bytes [0xFF]]))).granted
        = .ok (.string (verbatim "0 ff")) ∧
      (CelValue.string (verbatim "0 ff")).StringsWellFormed := by
  have hrun : (TextCall.run CelHost.stubs.withSnapshots (fun _ => none) .ofZero 16
      (.format (.string (verbatim "%s %x"))
        (.listArena 2 [.double (.ofInt 0), .bytes [0xFF]]))).granted
        = .ok (.string (verbatim "0 ff")) := rfl
  have hargs : ∀ v ∈ [CelValue.double (.ofInt 0), .bytes [0xFF]], v.StringsWellFormed :=
    List.forall_mem_cons.mpr ⟨nofun, List.forall_mem_singleton.mpr (stringsWellFormed_bytes _)⟩
  refine ⟨hrun, stringsWellFormed_run .stubs (fun _ => none) AbslFormat.printsAscii_ofZero 16
    (stringsWellFormed_operands_format "%s %x" hargs) ?_ (hrun ▸ Prog.reaches_granted _)⟩
  rintro ops hops
  obtain rfl := Except.ok.inj hops
  exact List.forall_mem_singleton.mpr nofun

/-- `"%s"` of the byte `FF` is that byte. -/
theorem not_wellFormed_format_bytes :
    ¬ ∀ (absl : AbslFormat) (call : TextCall), absl.PrintsAscii →
      (∀ v ∈ call.operands, v.StringsWellFormed) → ∀ s,
      (call.run CelHost.stubs.withSnapshots (fun _ => none) absl 16).Reaches (.ok (.string s)) →
        WellFormed s := by
  intro h
  have hrun : (TextCall.run CelHost.stubs.withSnapshots (fun _ => none) .ofZero 16
      (.format (.string (verbatim "%s")) (.listArena 1 [.bytes [0xFF]]))).granted
        = .ok (.string [0xFF]) := rfl
  have hargs : ∀ v ∈ [CelValue.bytes [0xFF]], v.StringsWellFormed :=
    List.forall_mem_singleton.mpr (stringsWellFormed_bytes _)
  have hwf : WellFormed [0xFF] := h .ofZero _ AbslFormat.printsAscii_ofZero
    (stringsWellFormed_operands_format "%s" hargs) _ (hrun ▸ Prog.reaches_granted _)
  exact absurd hwf (by decide)

end CelWasm
