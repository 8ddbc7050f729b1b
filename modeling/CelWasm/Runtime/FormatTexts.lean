import CelWasm.Runtime.StringFormat
import CelWasm.Runtime.WellFormedTexts

/-!
# Runtime/FormatTexts — what `string.format` writes

A format is cut in front of percent signs and behind clauses, which are ASCII, so that of a well-formed
format every run is well-formed. Numbers, doubles and times are printed in ASCII, and so are strings
and bytes by `%x`. `%s` copies strings, bytes and the names of types out as they are: what it renders
is well-formed as soon as all of these are.
-/

namespace CelWasm

open Utf8

/-! ## The runs of a format -/

section Parse

variable {fmt : List UInt8} {i : ℕ} {ops : List DirectiveOp}

/-- The runs among the parts of a format are well-formed. -/
def RunsWellFormed (fmt : List UInt8) (ops : List DirectiveOp) : Prop :=
  ∀ op ∈ ops, op.kind = .kLiteral → WellFormed (emitLiteral fmt op)

/-- **Where the loop of `ParseFormat` is**: behind a clause, or behind a run that may go on. -/
inductive ParsedTo (fmt : List UInt8) : ℕ → List DirectiveOp → Prop
  | clause {i : ℕ} {ops : List DirectiveOp} (hops : RunsWellFormed fmt ops)
    (hlast : ∀ last ∈ ops.head?, last.kind ≠ .kLiteral) (hrest : WellFormed (fmt.drop i)) :
    ParsedTo fmt i ops
  | run {last : DirectiveOp} {ops : List DirectiveOp} (hkind : last.kind = .kLiteral)
    (hops : RunsWellFormed fmt ops) (hrun : WellFormed (fmt.drop last.byteOff)) :
    ParsedTo fmt (last.byteOff + last.len) (last :: ops)

/-- A run ends in front of what continues nothing. -/
theorem ParsedTo.closed (h : ParsedTo fmt i ops) (hbegins : BeginsSequence (fmt.drop i)) :
    RunsWellFormed fmt ops ∧ WellFormed (fmt.drop i) := by
  cases h with
  | clause hops _ hrest => exact ⟨hops, hrest⟩
  | @run last ops hkind hops hrun =>
    obtain ⟨htake, hdrop⟩ := hrun.cut (List.take_append_drop last.len _).symm
      (by rwa [List.drop_drop])
    rw [List.drop_drop] at hdrop
    exact ⟨List.forall_mem_cons.mpr ⟨fun _ => htake, hops⟩, hdrop⟩

/-- A byte of the format's own. -/
theorem ParsedTo.literal (h : ParsedTo fmt i ops) :
    ParsedTo fmt (i + 1) (appendLiteralByte ops i) := by
  cases h with
  | clause hops hlast hrest =>
    cases ops with
    | nil => exact @ParsedTo.run fmt ⟨.kLiteral, i, 1, none⟩ [] rfl hops hrest
    | cons last rest =>
      rw [appendLiteralByte, if_neg fun hrun => hlast last rfl hrun.1]
      exact @ParsedTo.run fmt ⟨.kLiteral, i, 1, none⟩ _ rfl hops hrest
  | @run last ops hkind hops hrun =>
    rw [appendLiteralByte, if_pos ⟨hkind, rfl⟩]
    exact @ParsedTo.run fmt { last with len := last.len + 1 } _ hkind hops hrun

/-- Behind a run of ASCII. -/
theorem wellFormed_drop_of_ascii {run : List UInt8} {next : ℕ} (h : WellFormed (fmt.drop i))
    (hrun : fmt.drop i = run ++ fmt.drop next) (hascii : ∀ b ∈ run, b.toNat < 128) :
    WellFormed (fmt.drop next) := by
  rwa [hrun, wellFormed_append_iff (.of_ascii hascii)] at h

/-- What is left from a byte on. -/
theorem drop_eq_getD_cons (hi : i < fmt.length) : fmt.drop i = fmt.getD i 0 :: fmt.drop (i + 1) := by
  rw [List.drop_eq_getElem_cons hi, List.getD_eq_getElem?_getD, List.getElem?_eq_getElem hi]
  rfl

/-- **At a percent sign** a run has ended. -/
theorem ParsedTo.percent (h : ParsedTo fmt i ops) (hi : i < fmt.length)
    (hpercent : fmt.getD i 0 = 0x25) : RunsWellFormed fmt ops ∧ WellFormed (fmt.drop (i + 1)) := by
  have hcons := drop_eq_getD_cons hi
  rw [hpercent] at hcons
  have hbegins : BeginsSequence (fmt.drop i) := by
    intro b hb hcontinues
    rw [hcons, List.head?_cons, Option.mem_some_iff] at hb
    rw [← hb] at hcontinues
    exact absurd hcontinues.1 (by decide)
  obtain ⟨hops, hrest⟩ := h.closed hbegins
  exact ⟨hops, @wellFormed_drop_of_ascii fmt i [0x25] (i + 1) hrest hcons
    (List.forall_mem_singleton.mpr (by decide))⟩

/-- Two percent signs are one, which begins a run. -/
theorem ParsedTo.escaped (h : ParsedTo fmt i ops) (hi : i < fmt.length)
    (hpercent : fmt.getD i 0 = 0x25) : ParsedTo fmt (i + 2) (appendLiteralByte ops (i + 1)) := by
  obtain ⟨hops, hrest⟩ := h.percent hi hpercent
  have hrun := @ParsedTo.run fmt ⟨.kLiteral, i + 1, 1, none⟩ ops rfl hops hrest
  cases h with
  | clause _ hlast _ =>
    cases ops with
    | nil => exact hrun
    | cons last rest =>
      rw [appendLiteralByte, if_neg fun hrun => hlast last rfl hrun.1]
      exact hrun
  | run _ _ _ =>
    rw [appendLiteralByte, if_neg fun hrun => by omega]
    exact hrun

/-- **The loop keeps what it knows.** -/
theorem runsWellFormed_parseFormatFrom {fuel : ℕ} {parsed : List DirectiveOp}
    (h : ParsedTo fmt i ops) (hfuel : fmt.length < fuel + i)
    (hparse : parseFormatFrom fmt fuel i ops = .ok parsed) : RunsWellFormed fmt parsed := by
  have hend : ∀ {i ops}, ParsedTo fmt i ops → fmt.length ≤ i → RunsWellFormed fmt ops.reverse := by
    intro i ops h hi op hop
    refine (h.closed ?_).1 op (List.mem_reverse.mp hop)
    rw [List.drop_eq_nil_of_le hi]
    rintro _ ⟨⟩
  induction fuel generalizing i ops with
  | zero => exact Except.ok.inj hparse ▸ hend h (by omega)
  | succ fuel ih =>
    rw [parseFormatFrom] at hparse
    split_ifs at hparse with hi hpercent hone htwo
    · exact Except.ok.inj hparse ▸ hend h hi
    · exact ih h.literal (by omega) hparse
    · exact ih (h.escaped (by omega) (not_not.mp hpercent)) (by omega) hparse
    · obtain ⟨hops, hrest⟩ := h.percent (by omega) (not_not.mp hpercent)
      cases hdirective : parseDirective fmt (i + 1) with
      | error e =>
        rw [hdirective] at hparse
        cases hparse
      | ok found =>
        obtain ⟨next, op⟩ := found
        rw [hdirective] at hparse
        obtain ⟨hkind, run, hrun, hlen, -, hascii⟩ := parseDirective_ok hdirective
        refine ih (.clause ?_ ?_ (wellFormed_drop_of_ascii hrest hrun hascii)) (by omega) hparse
        · exact List.forall_mem_cons.mpr ⟨fun h => absurd h hkind, hops⟩
        · rintro _ ⟨⟩
          exact hkind

/-- **The runs of a well-formed format are well-formed.** -/
theorem runsWellFormed_parseFormat (hfmt : WellFormed fmt) (h : parseFormat fmt = .ok ops) :
    RunsWellFormed fmt ops := by
  have hstart : ParsedTo fmt 0 [] := .clause (fun _ hop => absurd hop List.not_mem_nil)
    (fun _ hlast => absurd hlast (Option.not_mem_none _)) (by rwa [List.drop_zero])
  exact runsWellFormed_parseFormatFrom hstart (Nat.lt_succ_self _) h

end Parse

/-! ## ASCII -/

section Ascii

theorem ascii_numeral (n : ℕ) : ∀ b ∈ numeral n, b.toNat < 128 := fun b hb => by
  have hdigit := isDigit_iff.mp ((isNumeral_numeral n).2 b hb)
  omega

theorem ascii_strCatInt (v : ℤ) : ∀ b ∈ strCatInt v, b.toNat < 128 := by
  rw [strCatInt]
  split_ifs
  · exact List.forall_mem_cons.mpr ⟨by decide, ascii_numeral _⟩
  · exact ascii_numeral _

theorem ascii_zeroPadded (width : ℕ) (v : ℤ) : ∀ b ∈ zeroPadded width v, b.toNat < 128 := by
  intro b hb
  rw [zeroPadded] at hb
  obtain hb | hb := List.mem_append.mp hb
  · obtain hb | hb := List.mem_append.mp hb
    · split_ifs at hb
      · rw [List.mem_singleton.mp hb]
        decide
      · exact absurd hb List.not_mem_nil
    · rw [List.eq_of_mem_replicate hb]
      decide
  · exact ascii_numeral _ b hb

theorem ascii_radixDigit (upper : Bool) {d : ℕ} (h : d < 16) : (radixDigit upper d).toNat < 128 := by
  rw [radixDigit]
  split_ifs <;> rw [UInt8.toNat_ofNat'] <;> omega

theorem ascii_radixNumeral {base : ℕ} (upper : Bool) (hone : 1 < base) (hbase : base ≤ 16) (v : ℕ) :
    ∀ b ∈ radixNumeral base upper v, b.toNat < 128 := by
  intro b hb
  rw [radixNumeral] at hb
  split_ifs at hb
  · rw [List.mem_singleton.mp hb]
    decide
  · obtain ⟨d, hd, rfl⟩ := List.mem_map.mp (List.mem_reverse.mp hb)
    exact ascii_radixDigit upper ((Nat.digits_lt_base hone hd).trans_le hbase)

theorem ascii_signedRadix {base : ℕ} (upper : Bool) (hone : 1 < base) (hbase : base ≤ 16)
    (v : Int64) : ∀ b ∈ signedRadix base upper v, b.toNat < 128 := by
  intro b hb
  rw [signedRadix] at hb
  obtain hb | hb := List.mem_append.mp hb
  · split_ifs at hb
    · rw [List.mem_singleton.mp hb]
      decide
    · exact absurd hb List.not_mem_nil
  · exact ascii_radixNumeral upper hone hbase _ b hb

/-- Of any bytes. -/
theorem ascii_bytesAsHex (upper : Bool) (bytes : List UInt8) :
    ∀ b ∈ bytesAsHex upper bytes, b.toNat < 128 := by
  intro b hb
  obtain ⟨c, -, hb⟩ := List.mem_flatMap.mp hb
  have hlt := c.toNat_lt
  rw [List.mem_cons, List.mem_singleton] at hb
  obtain rfl | rfl := hb
  · exact ascii_radixDigit upper (by omega)
  · exact ascii_radixDigit upper (by omega)

end Ascii

/-! ## The clauses -/

section Clauses

variable {absl : AbslFormat} {v : CelValue} {t : List UInt8}

theorem wellFormed_verbatim (text : String) : WellFormed (verbatim text) :=
  wellFormed_encode text.toList

theorem wellFormed_appendDoubleToken {d : Binary64} (h : ∀ b ∈ t, b.toNat < 128) :
    WellFormed (appendDoubleToken d t) := by
  rw [appendDoubleToken]
  split_ifs
  all_goals first | exact wellFormed_verbatim _ | exact .of_ascii h

theorem wellFormed_appendDurationCanonical (d : CelDurTs) :
    WellFormed (appendDurationCanonical d) := by
  have hfraction : ∀ width n, WellFormed (0x2E :: zeroPadded width n) := fun width n =>
    .of_ascii (List.forall_mem_cons.mpr ⟨by decide, ascii_zeroPadded width n⟩)
  rw [appendDurationCanonical]
  by_cases hzero : d.seconds = 0 ∧ d.nanos = 0
  · rw [if_pos hzero]
    exact wellFormed_verbatim _
  · rw [if_neg hzero]
    refine ((WellFormed.append ?_ (.of_ascii (ascii_strCatInt _))).append ?_).append
      (.of_all_ascii rfl)
    · split_ifs
      · exact .of_all_ascii rfl
      · exact wellFormed_nil
    · split_ifs
      all_goals first | exact wellFormed_nil | exact hfraction _ _

theorem wellFormed_appendTimestampCanonical (habsl : absl.PrintsAscii) (d : CelDurTs) :
    WellFormed (appendTimestampCanonical absl d) := by
  have hprinted := habsl.rfc3339Full (.ofSecondsNanos d.seconds d.nanos)
  rw [appendTimestampCanonical]
  split_ifs
  · refine WellFormed.append ?_ (.of_all_ascii rfl)
    exact .of_ascii fun b hb => hprinted b (List.mem_of_mem_take hb)
  · exact .of_ascii hprinted

theorem wellFormed_renderFixed (habsl : absl.PrintsAscii) {precision : Option ℕ}
    (h : renderFixed absl v precision = some t) : WellFormed t := by
  obtain ⟨d, -, rfl⟩ := Option.map_eq_some_iff.mp h
  exact wellFormed_appendDoubleToken (habsl.fixed _ d)

theorem wellFormed_renderScientific (habsl : absl.PrintsAscii) {precision : Option ℕ}
    (h : renderScientific absl v precision = some t) : WellFormed t := by
  obtain ⟨d, -, rfl⟩ := Option.map_eq_some_iff.mp h
  exact wellFormed_appendDoubleToken (habsl.scientific _ d)

theorem wellFormed_renderDecimal (habsl : absl.PrintsAscii)
    (h : renderDecimal absl v = some t) : WellFormed t := by
  cases v with
  | int i => exact Option.some.inj h ▸ .of_ascii (ascii_strCatInt _)
  | uint u => exact Option.some.inj h ▸ .of_ascii (ascii_strCatInt _)
  | double d => exact wellFormed_renderFixed habsl h
  | _ => exact nomatch h

theorem wellFormed_renderBinary (h : renderBinary v = some t) : WellFormed t := by
  cases v with
  | int i =>
    exact Option.some.inj h ▸ .of_ascii (ascii_signedRadix false (by decide) (by decide) i)
  | uint u =>
    exact Option.some.inj h ▸ .of_ascii (ascii_radixNumeral false (by decide) (by decide) _)
  | bool b => exact Option.some.inj h ▸ .of_ascii (by cases b <;> exact ascii_of_all rfl)
  | _ => exact nomatch h

theorem wellFormed_renderOctal (h : renderOctal v = some t) : WellFormed t := by
  cases v with
  | int i =>
    exact Option.some.inj h ▸ .of_ascii (ascii_signedRadix false (by decide) (by decide) i)
  | uint u =>
    exact Option.some.inj h ▸ .of_ascii (ascii_radixNumeral false (by decide) (by decide) _)
  | _ => exact nomatch h

/-- **Bytes are well-formed by `%x`**, whatever they are. -/
theorem wellFormed_renderHex {upper : Bool} (h : renderHex upper v = some t) : WellFormed t := by
  cases v with
  | int i =>
    exact Option.some.inj h ▸ .of_ascii (ascii_signedRadix upper (by decide) (by decide) i)
  | uint u =>
    exact Option.some.inj h ▸ .of_ascii (ascii_radixNumeral upper (by decide) (by decide) _)
  | string s => exact Option.some.inj h ▸ .of_ascii (ascii_bytesAsHex upper s)
  | bytes s => exact Option.some.inj h ▸ .of_ascii (ascii_bytesAsHex upper s)
  | _ => exact nomatch h

end Clauses

/-! ## Containers -/

/-- A text that is rendered is well-formed. -/
def RendersWellFormed (k : Kernel (Option (List UInt8))) : Prop :=
  k.Meets (fun r => ∀ t ∈ r, WellFormed t) fun _ => True

section Containers

variable {render : CelValue → Kernel (Option (List UInt8))} {host : CelHost} {v : CelValue}

theorem rendersWellFormed_some {t : List UInt8} (h : WellFormed t) :
    RendersWellFormed (return some t) := fun _ ht => Option.some.inj ht ▸ h

theorem rendersWellFormed_none : RendersWellFormed (return none) := nofun

/-- What is rendered at once. -/
theorem rendersWellFormed_pure {r : Option (List UInt8)} (h : ∀ {t}, r = some t → WellFormed t) :
    RendersWellFormed (return r) := fun _ ht => h ht

theorem meets_renderElements {elements : List CelValue}
    (h : ∀ v ∈ elements, RendersWellFormed (render v)) : (renderElements render elements).Meets
      (fun r => ∀ texts ∈ r, ∀ t ∈ texts, WellFormed t) fun _ => True := by
  induction elements with
  | nil => rintro _ ⟨⟩ t ht; exact absurd ht List.not_mem_nil
  | cons v rest ih =>
    rw [List.forall_mem_cons] at h
    refine h.1.bind fun r hr => ?_
    cases r with
    | none => exact nofun
    | some text =>
      refine (ih h.2).bind fun r hrest texts htexts => ?_
      obtain ⟨more, hmore, rfl⟩ := Option.map_eq_some_iff.mp htexts
      exact List.forall_mem_cons.mpr ⟨hr text rfl, hrest more hmore⟩

/-- An entry put among those in order. -/
theorem forall_mem_emplace {Q : List UInt8 → Prop} {key value : List UInt8}
    {sorted : List (List UInt8 × List UInt8)} (hkey : Q key) (hvalue : Q value)
    (h : ∀ e ∈ sorted, Q e.1 ∧ Q e.2) : ∀ e ∈ emplace key value sorted, Q e.1 ∧ Q e.2 := by
  induction sorted with
  | nil => exact List.forall_mem_singleton.mpr ⟨hkey, hvalue⟩
  | cons e rest ih =>
    rw [emplace]
    split_ifs
    · exact List.forall_mem_cons.mpr ⟨⟨hkey, hvalue⟩, h⟩
    · exact h
    · rw [List.forall_mem_cons] at h
      exact List.forall_mem_cons.mpr ⟨h.1, ih h.2⟩

theorem meets_renderEntries {entries : List (CelValue × CelValue)}
    {sorted : List (List UInt8 × List UInt8)}
    (h : ∀ e ∈ entries, RendersWellFormed (render e.1) ∧ RendersWellFormed (render e.2))
    (hsorted : ∀ e ∈ sorted, WellFormed e.1 ∧ WellFormed e.2) :
    (renderEntries render entries sorted).Meets
      (fun r => ∀ sorted ∈ r, ∀ e ∈ sorted, WellFormed e.1 ∧ WellFormed e.2) fun _ => True := by
  induction entries generalizing sorted with
  | nil => rintro _ ⟨⟩; exact hsorted
  | cons e rest ih =>
    obtain ⟨key, value⟩ := e
    rw [List.forall_mem_cons] at h
    refine Prog.meets_ite (fun _ => nofun) fun _ => h.1.1.bind fun r hkey => ?_
    cases r with
    | none => exact nofun
    | some keyStr =>
      refine h.1.2.bind fun r hvalue => ?_
      cases r with
      | none => exact nofun
      | some valStr =>
        exact ih h.2 (forall_mem_emplace (hkey keyStr rfl) (hvalue valStr rfl) hsorted)

theorem rendersWellFormed_appendListCanonical (hhost : host.KeepsSpans)
    (h : ∀ v, v.SpansWellFormed → RendersWellFormed (render v)) (hv : v.SpansWellFormed) :
    RendersWellFormed (appendListCanonical render host v) := by
  refine (meets_celListArenaView hhost hv).bind fun elements helements => ?_
  refine (meets_renderElements fun e he => h e (helements e he)).bind fun r hr t ht => ?_
  obtain ⟨texts, htexts, rfl⟩ := Option.map_eq_some_iff.mp ht
  have hjoined := WellFormed.intercalate (wellFormed_verbatim ", ") (hr texts htexts)
  exact ((@WellFormed.of_all_ascii [0x5B] rfl).append hjoined).append
    (.of_all_ascii rfl)

theorem rendersWellFormed_appendMapCanonical (hhost : host.KeepsSpans)
    (h : ∀ v, v.SpansWellFormed → RendersWellFormed (render v)) (hv : v.SpansWellFormed) :
    RendersWellFormed (appendMapCanonical render host v) := by
  refine Prog.meets_alloc_bind.mpr ⟨rendersWellFormed_none, ?_⟩
  refine (meets_celMapIterInit hhost hv).bind fun entries hentries => ?_
  refine (@meets_renderEntries render entries []
    (fun e he => ⟨h _ (hentries e he).1, h _ (hentries e he).2⟩) nofun).bind fun r hr t ht => ?_
  obtain ⟨sorted, hsorted, rfl⟩ := Option.map_eq_some_iff.mp ht
  have hjoined : WellFormed ((verbatim ", ").intercalate
      (sorted.map fun e => e.1 ++ verbatim ": " ++ e.2)) := by
    refine .intercalate (wellFormed_verbatim ", ") fun p hp => ?_
    obtain ⟨e, he, rfl⟩ := List.mem_map.mp hp
    obtain ⟨hkey, hvalue⟩ := hr sorted hsorted e he
    exact (hkey.append (wellFormed_verbatim ": ")).append hvalue
  exact ((@WellFormed.of_all_ascii [0x7B] rfl).append hjoined).append
    (.of_all_ascii rfl)

end Containers

/-! ## Formats -/

section Formats

variable {host : CelHost} {absl : AbslFormat} {stack : ℕ} {v : CelValue}

/-- **`%s` renders well-formed spans well-formed**, at any depth. -/
theorem rendersWellFormed_renderString (hhost : host.KeepsSpans) (habsl : absl.PrintsAscii)
    (hv : v.SpansWellFormed) : RendersWellFormed (renderString host absl stack v) := by
  induction stack generalizing v with
  | zero => trivial
  | succ stack ih =>
    have hlist := @rendersWellFormed_appendListCanonical (renderString host absl stack) host v hhost
      (fun _ => ih) hv
    have hmap := @rendersWellFormed_appendMapCanonical (renderString host absl stack) host v hhost
      (fun _ => ih) hv
    cases v with
    | null => exact rendersWellFormed_some (wellFormed_verbatim _)
    | bool b => exact rendersWellFormed_some (wellFormed_verbatim _)
    | int i => exact rendersWellFormed_some (.of_ascii (ascii_strCatInt _))
    | uint u => exact rendersWellFormed_some (.of_ascii (ascii_strCatInt _))
    | double d =>
      exact rendersWellFormed_some (wellFormed_appendDoubleToken (habsl.strCatDouble d))
    | string s => exact rendersWellFormed_some (CelValue.allSpans_string.mp hv)
    | bytes s => exact rendersWellFormed_some (CelValue.allSpans_bytes.mp hv)
    | type name => exact rendersWellFormed_some (CelValue.allSpans_type.mp hv)
    | timestamp t => exact rendersWellFormed_some (wellFormed_appendTimestampCanonical habsl t)
    | duration d => exact rendersWellFormed_some (wellFormed_appendDurationCanonical d)
    | listArena capacity elements => exact hlist
    | listHost elements => exact hlist
    | mapArena capacity entries index => exact hmap
    | mapHost entries => exact hmap
    | _ => exact rendersWellFormed_none

/-- **A clause renders well-formed**: `%s` if the spans of its argument are, the others always. -/
theorem rendersWellFormed_dispatchDirective (hhost : host.KeepsSpans) (habsl : absl.PrintsAscii)
    {op : DirectiveOp} (hv : op.kind = .kSubstring → v.SpansWellFormed) :
    RendersWellFormed (dispatchDirective host absl stack op v) := by
  rw [dispatchDirective]
  cases hkind : op.kind with
  | kSubstring => exact rendersWellFormed_renderString hhost habsl (hv hkind)
  | kDecimal => exact rendersWellFormed_pure (wellFormed_renderDecimal habsl)
  | kFixed => exact rendersWellFormed_pure (wellFormed_renderFixed habsl)
  | kScientific => exact rendersWellFormed_pure (wellFormed_renderScientific habsl)
  | kBinary => exact rendersWellFormed_pure wellFormed_renderBinary
  | kOctal => exact rendersWellFormed_pure wellFormed_renderOctal
  | kHexLower => exact rendersWellFormed_pure wellFormed_renderHex
  | kHexUpper => exact rendersWellFormed_pure wellFormed_renderHex
  | kLiteral => trivial

/-- **The arguments that `%s` clauses take.** -/
def substringArgs : List DirectiveOp → List CelValue → List CelValue
  | [], _ => []
  | op :: ops, args =>
    if op.kind = .kLiteral then substringArgs ops args
    else (if op.kind = .kSubstring then args.head?.toList else []) ++ substringArgs ops args.tail

theorem mem_of_mem_substringArgs {ops : List DirectiveOp} {args : List CelValue}
    (h : v ∈ substringArgs ops args) : v ∈ args := by
  induction ops generalizing args with
  | nil => exact absurd h List.not_mem_nil
  | cons op ops ih =>
    rw [substringArgs] at h
    split_ifs at h
    · exact ih h
    · obtain h | h := List.mem_append.mp h
      · exact List.mem_of_mem_head? (Option.mem_toList.mp h)
      · exact List.mem_of_mem_tail (ih h)
    · exact List.mem_of_mem_tail (ih h)

/-- **A format runs into a well-formed text**, if what its `%s` clauses take has well-formed spans. -/
theorem rendersWellFormed_runFormat (hhost : host.KeepsSpans) (habsl : absl.PrintsAscii)
    {fmt : List UInt8} {ops : List DirectiveOp} {args : List CelValue}
    (hops : RunsWellFormed fmt ops) (hargs : ∀ v ∈ substringArgs ops args, v.SpansWellFormed) :
    RendersWellFormed (runFormat host absl stack fmt ops args) := by
  induction ops generalizing args with
  | nil => exact rendersWellFormed_some wellFormed_nil
  | cons op ops ih =>
    have hmap : ∀ {t r}, WellFormed t → (∀ u ∈ r, WellFormed u) →
        RendersWellFormed (return Option.map (t ++ ·) r) := by
      intro t r ht hr u hu
      obtain ⟨w, hw, rfl⟩ := Option.map_eq_some_iff.mp hu
      exact ht.append (hr w hw)
    rw [RunsWellFormed, List.forall_mem_cons] at hops
    rw [substringArgs] at hargs
    refine Prog.meets_ite (fun hkind => ?_) fun hkind => ?_
    · rw [if_pos hkind] at hargs
      exact (ih hops.2 hargs).bind fun r hr => hmap (hops.1 hkind) hr
    · rw [if_neg hkind] at hargs
      cases args with
      | nil => exact rendersWellFormed_none
      | cons arg rest =>
        have hsplit : (op.kind = .kSubstring → arg.SpansWellFormed) ∧
            ∀ v ∈ substringArgs ops rest, v.SpansWellFormed := by
          refine ⟨fun hs => hargs arg ?_, fun v hv => hargs v (List.mem_append_right _ hv)⟩
          rw [if_pos hs]
          exact List.mem_cons_self
        refine (rendersWellFormed_dispatchDirective hhost habsl hsplit.1).bind fun r hr => ?_
        cases r with
        | none => exact rendersWellFormed_none
        | some text =>
          exact (ih hops.2 hsplit.2).bind fun r hrest => hmap (hr text rfl) hrest

end Formats

end CelWasm
