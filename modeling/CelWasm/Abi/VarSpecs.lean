import CelWasm.Abi.CelfnWire
import CelWasm.Eval.PatternParser

/-!
# Abi/VarSpecs — the types of variables as text

A program describes each of its variables by a text that can be given back in a `--var` flag.
`renderVarTypeSpec` writes the text of a type on the wire, `parseTypeSpec` reads one. Both follow one
grammar, and read its words apart: the parser has a word less than the renderer, and takes every word
it does not have for the name of a message.

    spec  ::=  word  |  list<spec>  |  map<spec,spec>

So a text is read as the type it was written for exactly when no `type` and no message under one of
the parser's own words occurs in the type (`CelType.reread_eq_some_iff`), and two types share a text
exactly when they differ in what their words stand for (`Spelled.worded_eq`).
-/

namespace CelWasm

/-! ## The renderer -/

/-- **`RenderVarTypeSpec`**; a kind without a spec is described by its number. -/
def WireType.renderVarTypeSpec : WireType → String
  | mk kindBool _ _ => "bool"
  | mk kindInt _ _ => "int"
  | mk kindUint _ _ => "uint"
  | mk kindDouble _ _ => "double"
  | mk kindString _ _ => "string"
  | mk kindBytes _ _ => "bytes"
  | mk kindDuration _ _ => "duration"
  | mk kindTimestamp _ _ => "timestamp"
  | mk kindType _ _ => "type"
  | mk kindProto fqn _ => fqn
  | mk kindList _ [element] => "list<" ++ element.renderVarTypeSpec ++ ">"
  | mk kindList _ _ => "list<?>"
  | mk kindMap _ [key, value] =>
    "map<" ++ key.renderVarTypeSpec ++ "," ++ value.renderVarTypeSpec ++ ">"
  | mk kindMap _ _ => "map<?,?>"
  | mk kind _ _ => "<kind " ++ toString kind ++ ">"

/-- The text a program gives for a variable of a type: the type goes on the wire, and is rendered
from there. -/
def CelType.varTypeSpec (t : CelType) : Outcome String := return (← t.toWire).renderVarTypeSpec

/-! ## The parser -/

/-- What becomes of a spec that is not read: the error, or no end at all. -/
inductive SpecFault
  | invalidArgument (message : String)
  | endless

/-- `Cursor`. -/
structure SpecCursor where
  src : List Char
  pos : ℕ

/-- A letter, a digit, an underscore or a dot. -/
def isSpecChar (c : Char) : Bool := isIdentCont c || c == '.'

namespace SpecCursor

variable (c : SpecCursor)

/-- The text ahead. -/
def rest : List Char := c.src.drop c.pos

/-- The cursor so many characters on. -/
def advance (n : ℕ) : SpecCursor := { c with pos := c.pos + n }

/-- The position in bytes. -/
def offset : ℕ := (String.ofList (c.src.take c.pos)).utf8ByteSize

/-- `Skip`. -/
def skip : SpecCursor := c.advance (c.rest.takeWhile asciiIsspace).length

/-- **`Expect`**. -/
def expect (ch : Char) : Except SpecFault SpecCursor :=
  let c := c.skip
  if c.rest.head? = some ch then .ok (c.advance 1)
  else .error (.invalidArgument ("expected '" ++ String.singleton ch ++ "' at offset " ++
    toString c.offset ++ " in: " ++ String.ofList c.src))

/-- **`ParseIdent`**. -/
def parseIdent : Except SpecFault (String × SpecCursor) :=
  let c := c.skip
  let word := c.rest.takeWhile isSpecChar
  if word = [] then
    .error (.invalidArgument ("expected type identifier at offset " ++ toString c.offset ++
      " in type spec: " ++ String.ofList c.src))
  else .ok (String.ofList word, c.advance word.length)

end SpecCursor

/-- A parser of a part of a spec. -/
abbrev SpecParser := SpecCursor → Except SpecFault (CelType × SpecCursor)

/-- `ParseListT`. -/
def parseListT (parseTypeRec : SpecParser) : SpecParser := fun c => do
  let c ← c.expect '<'
  let (e, c) ← parseTypeRec c
  let c ← c.expect '>'
  return (.list e, c)

/-- `ParseMapT`. -/
def parseMapT (parseTypeRec : SpecParser) : SpecParser := fun c => do
  let c ← c.expect '<'
  let (k, c) ← parseTypeRec c
  let c ← c.expect ','
  let (v, c) ← parseTypeRec c
  let c ← c.expect '>'
  return (.map k v, c)

/-- The words for types without parameters. -/
def typeOfWord : String → Option CelType
  | "bool" => some .bool
  | "int" => some .int
  | "uint" => some .uint
  | "double" => some .double
  | "string" => some .string
  | "bytes" => some .bytes
  | "duration" => some .duration
  | "timestamp" => some .timestamp
  | _ => none

/-- **`ParseTypeRec`**, for a nesting of at most so many types. -/
def parseTypeRec : ℕ → SpecParser
  | 0, _ => .error .endless
  | depth + 1, c => do
    let (n, c) ← c.parseIdent
    match typeOfWord n with
    | some t => return (t, c)
    | none =>
      if n = "list" then parseListT (parseTypeRec depth) c
      else if n = "map" then parseMapT (parseTypeRec depth) c
      else return (.message n, c)

/-- **`ParseTypeSpec`**, on a stack with room for the descent: no more types are nested in a spec than
it has characters. -/
def parseTypeSpec (spec : String) : Except SpecFault CelType := do
  let (t, c) ← parseTypeRec (spec.length + 1) ⟨spec.toList, 0⟩
  let c := c.skip
  if c.rest ≠ [] then
    .error (.invalidArgument ("unexpected trailing characters in type spec at offset " ++
      toString c.offset ++ ": `" ++ spec ++ "`"))
  else return t

/-! ## The parser ends -/

section Ends

open SpecCursor

variable {c c' : SpecCursor} {n depth : ℕ} {ch : Char} {name : String} {t : CelType}

@[simp] theorem SpecCursor.rest_advance : (c.advance n).rest = c.rest.drop n := by
  rw [rest, rest, advance, List.drop_drop]

theorem SpecCursor.length_rest_skip_le : c.skip.rest.length ≤ c.rest.length := by
  rw [skip, rest_advance, List.length_drop]
  exact Nat.sub_le _ _

/-- What is expected is passed over. -/
theorem length_lt_of_expect (h : c.expect ch = .ok c') : c'.rest.length < c.rest.length := by
  rw [expect] at h
  split_ifs at h with hhead
  obtain rfl := Except.ok.inj h
  obtain ⟨tail, htail⟩ := List.head?_eq_some_iff.mp hhead
  have hle := c.length_rest_skip_le
  rw [htail] at hle
  rw [rest_advance, htail]
  exact hle

theorem expect_ne_endless (c : SpecCursor) (ch : Char) : c.expect ch ≠ .error .endless := by
  rw [expect]
  split_ifs <;> exact fun h => nomatch h

theorem parseIdent_ne_endless (c : SpecCursor) : c.parseIdent ≠ .error .endless := by
  rw [parseIdent]
  split_ifs <;> exact fun h => nomatch h

/-- A name is passed over. -/
theorem length_lt_of_parseIdent (h : c.parseIdent = .ok (name, c')) :
    c'.rest.length < c.rest.length := by
  rw [parseIdent] at h
  split_ifs at h with hword
  obtain ⟨-, rfl⟩ := Prod.mk.inj (Except.ok.inj h)
  have hle := c.length_rest_skip_le
  have hpos := List.length_pos_of_ne_nil hword
  have hprefix := (List.takeWhile_prefix isSpecChar (l := c.skip.rest)).length_le
  rw [rest_advance, List.length_drop]
  omega

theorem length_lt_of_parseTypeRec (h : parseTypeRec depth c = .ok (t, c')) :
    c'.rest.length < c.rest.length := by
  induction depth generalizing c c' t with
  | zero => exact nomatch h
  | succ depth ih =>
    obtain ⟨⟨name, c₁⟩, hname, h⟩ := bind_eq_ok_iff.mp h
    refine lt_of_le_of_lt ?_ (length_lt_of_parseIdent hname)
    dsimp only at h
    split at h
    · obtain ⟨-, rfl⟩ := Prod.mk.inj (Except.ok.inj h)
      exact le_rfl
    · split_ifs at h
      · obtain ⟨c₂, hopen, h⟩ := bind_eq_ok_iff.mp h
        obtain ⟨⟨e, c₃⟩, he, h⟩ := bind_eq_ok_iff.mp h
        obtain ⟨c₄, hclose, h⟩ := bind_eq_ok_iff.mp h
        obtain ⟨-, rfl⟩ := Prod.mk.inj (Except.ok.inj h)
        exact ((length_lt_of_expect hclose).trans <| (ih he).trans <|
          length_lt_of_expect hopen).le
      · obtain ⟨c₂, hopen, h⟩ := bind_eq_ok_iff.mp h
        obtain ⟨⟨k, c₃⟩, hk, h⟩ := bind_eq_ok_iff.mp h
        obtain ⟨c₄, hcomma, h⟩ := bind_eq_ok_iff.mp h
        obtain ⟨⟨v, c₅⟩, hv, h⟩ := bind_eq_ok_iff.mp h
        obtain ⟨c₆, hclose, h⟩ := bind_eq_ok_iff.mp h
        obtain ⟨-, rfl⟩ := Prod.mk.inj (Except.ok.inj h)
        exact ((length_lt_of_expect hclose).trans <| (ih hv).trans <|
          (length_lt_of_expect hcomma).trans <| (ih hk).trans <| length_lt_of_expect hopen).le
      · obtain ⟨-, rfl⟩ := Prod.mk.inj (Except.ok.inj h)
        exact le_rfl

/-- **A spec is read within the depth it is given.** -/
theorem depth_le_of_endless (h : parseTypeRec depth c = .error .endless) : depth ≤ c.rest.length := by
  induction depth generalizing c with
  | zero => exact Nat.zero_le _
  | succ depth ih =>
    obtain hname | ⟨⟨name, c₁⟩, hname, h⟩ := bind_eq_error_iff.mp h
    · exact absurd hname (parseIdent_ne_endless c)
    refine lt_of_le_of_lt ?_ (length_lt_of_parseIdent hname)
    dsimp only at h
    split at h
    · exact nomatch h
    split_ifs at h
    · obtain hopen | ⟨c₂, hopen, h⟩ := bind_eq_error_iff.mp h
      · exact absurd hopen (expect_ne_endless c₁ _)
      obtain he | ⟨⟨e, c₃⟩, -, h⟩ := bind_eq_error_iff.mp h
      · exact (ih he).trans (length_lt_of_expect hopen).le
      obtain hclose | ⟨_, -, h⟩ := bind_eq_error_iff.mp h
      · exact absurd hclose (expect_ne_endless c₃ _)
      · exact nomatch h
    · obtain hopen | ⟨c₂, hopen, h⟩ := bind_eq_error_iff.mp h
      · exact absurd hopen (expect_ne_endless c₁ _)
      obtain hk | ⟨⟨k, c₃⟩, hk, h⟩ := bind_eq_error_iff.mp h
      · exact (ih hk).trans (length_lt_of_expect hopen).le
      obtain hcomma | ⟨c₄, hcomma, h⟩ := bind_eq_error_iff.mp h
      · exact absurd hcomma (expect_ne_endless c₃ _)
      obtain hv | ⟨⟨v, c₅⟩, -, h⟩ := bind_eq_error_iff.mp h
      · exact (ih hv).trans <| (length_lt_of_expect hcomma).le.trans <|
          (length_lt_of_parseTypeRec hk).le.trans (length_lt_of_expect hopen).le
      obtain hclose | ⟨_, -, h⟩ := bind_eq_error_iff.mp h
      · exact absurd hclose (expect_ne_endless c₅ _)
      · exact nomatch h
    · exact nomatch h

/-- **Every text is read or refused.** -/
theorem parseTypeSpec_ne_endless (spec : String) : parseTypeSpec spec ≠ .error .endless := by
  intro h
  obtain h | ⟨⟨t, c⟩, -, h⟩ := bind_eq_error_iff.mp h
  · have hle := depth_le_of_endless h
    rw [rest, List.drop_zero, String.length_toList] at hle
    exact absurd hle (Nat.not_succ_le_self _)
  · dsimp only at h
    split_ifs at h <;> exact nomatch h

end Ends

/-! ## What a text is read as -/

namespace CelType

/-- The types a spec is written for. -/
def Declarable : CelType → Prop
  | message fqn => ∀ c ∈ fqn.toList, isSpecChar c = true
  | list element => element.Declarable
  | map key value => key.Declarable ∧ value.Declarable
  | unknown | null | optional _ => False
  | _ => True

/-- The word of a type without parameters. -/
def word : CelType → Option String
  | bool => some "bool"
  | int => some "int"
  | uint => some "uint"
  | double => some "double"
  | string => some "string"
  | bytes => some "bytes"
  | duration => some "duration"
  | timestamp => some "timestamp"
  | type => some "type"
  | message fqn => some fqn
  | _ => none

/-- The type with each word in it taken for the name of a message. -/
def worded : CelType → CelType
  | list element => list element.worded
  | map key value => map key.worded value.worded
  | t => (t.word.map message).getD t

/-- What a word is read as. -/
def ofWord (w : String) : Option CelType :=
  if w = "" ∨ w = "list" ∨ w = "map" then none else some ((typeOfWord w).getD (message w))

/-- What the text of a type is read as. -/
def reread : CelType → Option CelType
  | list element => element.reread.map list
  | map key value => do return map (← key.reread) (← value.reread)
  | t => t.word.bind ofWord

/-- The words of the parser. -/
def typeWords : List String :=
  ["bool", "int", "uint", "double", "string", "bytes", "duration", "timestamp", "list", "map"]

/-- **Nothing in a type is read as something else**: no `type`, and no message without a name or
under a word of the parser. -/
def ReadsBack : CelType → Prop
  | type => False
  | message fqn => fqn ≠ "" ∧ fqn ∉ typeWords
  | list element => element.ReadsBack
  | map key value => key.ReadsBack ∧ value.ReadsBack
  | _ => True

end CelType

/-- **The grammar of specs.** -/
inductive Spelled : CelType → List Char → Prop
  | word {t : CelType} {w : String} (hword : t.word = some w)
      (hchars : ∀ c ∈ w.toList, isSpecChar c = true) : Spelled t w.toList
  | list {element : CelType} {s : List Char} (he : Spelled element s) :
      Spelled (.list element) ("list".toList ++ '<' :: (s ++ ['>']))
  | map {key value : CelType} {s s' : List Char} (hk : Spelled key s) (hv : Spelled value s') :
      Spelled (.map key value) ("map".toList ++ '<' :: (s ++ ',' :: (s' ++ ['>'])))


/-! ## Reading what was rendered -/

section Reading

open SpecCursor

variable {t u : CelType} {s s' w w' r r' : List Char} {c : SpecCursor} {ch : Char} {depth : ℕ}

/-- What can stand behind a spec. -/
def Stops (rest : List Char) : Prop := ∀ ch ∈ rest.head?, ch = ',' ∨ ch = '>'

theorem stops_nil : Stops [] := fun _ h => nomatch h

theorem stops_cons (h : ch = ',' ∨ ch = '>') (r : List Char) : Stops (ch :: r) := by
  intro d hd
  obtain rfl := Option.some.inj hd
  exact h

/-- What ends a word. -/
def EndsWord (rest : List Char) : Prop := ∀ ch ∈ rest.head?, isSpecChar ch = false

theorem Stops.endsWord (h : Stops r) : EndsWord r := by
  intro ch hch
  obtain rfl | rfl := h ch hch <;> rfl

theorem endsWord_angle (r : List Char) : EndsWord ('<' :: r) := by
  intro ch hch
  obtain rfl := Option.some.inj hch
  rfl

theorem not_isspace_of_isSpecChar (h : isSpecChar ch = true) : asciiIsspace ch = false := by
  have hrange : 0x20 < ch.toNat := by
    rw [isSpecChar, Bool.or_eq_true, beq_iff_eq] at h
    obtain (h | rfl) | rfl := h.imp_left toNat_of_isIdentCont
    · omega
    · decide
    · decide
  rw [asciiIsspace, Bool.or_eq_false_iff, beq_eq_false_iff_ne, Bool.and_eq_false_iff,
    decide_eq_false_iff_not, decide_eq_false_iff_not]
  refine ⟨?_, .inr (by omega)⟩
  rintro rfl
  exact absurd hrange (by decide)

/-- A class the first character is not of. -/
theorem takeWhile_eq_nil_of_head {p : Char → Bool} (h : ∀ ch ∈ r.head?, p ch = false) :
    r.takeWhile p = [] := by
  cases r with
  | nil => rfl
  | cons ch r => exact List.takeWhile_cons_of_neg (by rw [h ch rfl]; exact Bool.noConfusion)

/-- The first word of a text. -/
theorem takeWhile_word (hw : ∀ c ∈ w, isSpecChar c = true) (hr : EndsWord r) :
    (w ++ r).takeWhile isSpecChar = w := by
  rw [List.takeWhile_append_of_pos hw, takeWhile_eq_nil_of_head hr, List.append_nil]

/-- **A text starts with one word only.** -/
theorem word_unique (hw : ∀ c ∈ w, isSpecChar c = true) (hr : EndsWord r)
    (hw' : ∀ c ∈ w', isSpecChar c = true) (hr' : EndsWord r') (h : w ++ r = w' ++ r') :
    w = w' ∧ r = r' := by
  obtain rfl : w = w' := by rw [← takeWhile_word hw hr, h, takeWhile_word hw' hr']
  exact ⟨rfl, List.append_cancel_left h⟩

theorem SpecCursor.skip_eq (h : ∀ ch ∈ c.rest.head?, asciiIsspace ch = false) : c.skip = c := by
  rw [skip, takeWhile_eq_nil_of_head h]
  rfl

theorem SpecCursor.expect_eq (hc : c.rest = ch :: r) (hch : asciiIsspace ch = false) :
    c.expect ch = .ok (c.advance 1) := by
  have hskip : c.skip = c := skip_eq (by rw [hc]; simpa using hch)
  rw [expect, hskip, hc]
  exact if_pos rfl

/-- Behind a spec no parameters are found. -/
theorem SpecCursor.expect_angle_of_stops (hc : c.rest = r) (hr : Stops r) :
    ∃ message, c.expect '<' = .error (.invalidArgument message) := by
  have hskip : c.skip = c := skip_eq fun ch hch => by
    obtain rfl | rfl := hr ch (hc ▸ hch) <;> rfl
  rw [expect, hskip, if_neg]
  · exact ⟨_, rfl⟩
  · intro hhead
    obtain h | h := hr '<' (hc ▸ hhead) <;> exact absurd h (by decide)

theorem SpecCursor.parseIdent_eq (hc : c.rest = w ++ r) (hw : ∀ c ∈ w, isSpecChar c = true)
    (hr : EndsWord r) (hne : w ≠ []) :
    c.parseIdent = .ok (String.ofList w, c.advance w.length) := by
  have hskip : c.skip = c := skip_eq fun ch hch => by
    obtain ⟨d, w, rfl⟩ := List.exists_cons_of_ne_nil hne
    rw [hc] at hch
    obtain rfl := Option.some.inj hch
    exact not_isspace_of_isSpecChar (hw _ List.mem_cons_self)
  rw [parseIdent, hskip, hc, takeWhile_word hw hr]
  exact if_neg hne

theorem SpecCursor.parseIdent_of_stops (hc : c.rest = r) (hr : Stops r) :
    ∃ message, c.parseIdent = .error (.invalidArgument message) := by
  have hskip : c.skip = c := skip_eq fun ch hch => by
    obtain rfl | rfl := hr ch (hc ▸ hch) <;> rfl
  rw [parseIdent, hskip, hc, takeWhile_eq_nil_of_head hr.endsWord]
  exact ⟨_, if_pos rfl⟩

/-- What the parser makes of a type: the type it reads, up to where it stops, or an error. -/
def SpecReads (x : Except SpecFault (CelType × SpecCursor)) (read : Option CelType) (c : SpecCursor) :
    Prop :=
  match read with
  | some t => x = .ok (t, c)
  | none => ∃ message, x = .error (.invalidArgument message)

/-- **A word is read by the table of words.** -/
theorem parseTypeRec_word {name : String} (hc : c.rest = name.toList ++ r)
    (hname : ∀ ch ∈ name.toList, isSpecChar ch = true) (hr : Stops r) :
    SpecReads (parseTypeRec (depth + 1) c) (CelType.ofWord name) (c.advance name.toList.length) := by
  rw [CelType.ofWord]
  split_ifs with hrefused
  · by_cases hempty : name = ""
    · subst hempty
      obtain ⟨message, h⟩ := parseIdent_of_stops hc hr
      exact ⟨message, by rw [parseTypeRec, h]; rfl⟩
    · have hident := parseIdent_eq hc hname hr.endsWord (by simpa using hempty)
      obtain ⟨message, h⟩ := expect_angle_of_stops
        (c := c.advance name.toList.length) (r := r) (by rw [rest_advance, hc, List.drop_left]) hr
      rw [String.ofList_toList] at hident
      refine ⟨message, ?_⟩
      obtain rfl | rfl | rfl := hrefused
      · exact absurd rfl hempty
      · rw [parseTypeRec, hident]
        change parseListT _ _ = _
        rw [parseListT, h]
        rfl
      · rw [parseTypeRec, hident]
        change parseMapT _ _ = _
        rw [parseMapT, h]
        rfl
  · push Not at hrefused
    have hident := parseIdent_eq hc hname hr.endsWord (by simpa using hrefused.1)
    rw [String.ofList_toList] at hident
    rw [parseTypeRec, hident]
    cases hword : typeOfWord name with
    | some t =>
      change (match typeOfWord name with | some t => _ | none => _) = _
      rw [hword]
      rfl
    | none =>
      change (match typeOfWord name with | some t => _ | none => _) = _
      rw [hword]
      dsimp only
      rw [if_neg hrefused.2.1, if_neg hrefused.2.2]
      rfl

theorem CelType.reread_of_word {name : String} (h : t.word = some name) :
    t.reread = CelType.ofWord name := by
  cases t <;> simp only [CelType.word, Option.some.injEq, reduceCtorEq] at h <;> subst h <;> rfl

theorem SpecCursor.advance_advance (c : SpecCursor) (n m : ℕ) :
    (c.advance n).advance m = c.advance (n + m) := by
  rw [advance, advance, advance, Nat.add_assoc]

/-- **A list is read** where its element is. -/
theorem reads_list {element : CelType} (hc : c.rest = "list".toList ++ '<' :: (s ++ '>' :: r))
    (he : SpecReads (parseTypeRec depth (c.advance 5)) element.reread
      ((c.advance 5).advance s.length)) :
    SpecReads (parseTypeRec (depth + 1) c) (CelType.list element).reread
      (c.advance (5 + s.length + 1)) := by
  have hident := parseIdent_eq hc (List.all_eq_true.mp rfl) (endsWord_angle _) (by decide)
  have hopen : (c.advance 4).expect '<' = .ok (c.advance 5) :=
    expect_eq (by rw [rest_advance, hc]; rfl) rfl
  have hrun : parseTypeRec (depth + 1) c = (do
      let (e, c) ← parseTypeRec depth (c.advance 5)
      let c ← c.expect '>'
      return (.list e, c)) := by
    rw [parseTypeRec, hident, String.ofList_toList]
    change parseListT _ (c.advance 4) = _
    rw [parseListT, hopen]
    rfl
  rw [hrun, CelType.reread]
  cases hread : element.reread with
  | none =>
    rw [hread] at he
    obtain ⟨message, he⟩ := he
    exact ⟨message, by rw [he]; rfl⟩
  | some e =>
    rw [hread] at he
    have hend : ((c.advance 5).advance s.length).rest = '>' :: r := by
      rw [rest_advance, rest_advance, hc]
      exact List.drop_left
    have hclose := expect_eq hend rfl
    rw [advance_advance, advance_advance] at hclose
    change parseTypeRec depth (c.advance 5) = _ at he
    rw [he, advance_advance]
    change (do let c ← (c.advance (5 + s.length)).expect '>'; return (CelType.list e, c)) = _
    rw [hclose]
    rfl

/-- **A map is read** where its key and its value are. -/
theorem reads_map {key value : CelType}
    (hc : c.rest = "map".toList ++ '<' :: (s ++ ',' :: (s' ++ '>' :: r)))
    (hk : SpecReads (parseTypeRec depth (c.advance 4)) key.reread ((c.advance 4).advance s.length))
    (hv : SpecReads (parseTypeRec depth (c.advance (4 + s.length + 1))) value.reread
      ((c.advance (4 + s.length + 1)).advance s'.length)) :
    SpecReads (parseTypeRec (depth + 1) c) (CelType.map key value).reread
      (c.advance (4 + s.length + 1 + s'.length + 1)) := by
  have hident := parseIdent_eq hc (List.all_eq_true.mp rfl) (endsWord_angle _) (by decide)
  have hopen : (c.advance 3).expect '<' = .ok (c.advance 4) :=
    expect_eq (by rw [rest_advance, hc]; rfl) rfl
  have hkey : (c.advance (4 + s.length)).rest = ',' :: (s' ++ '>' :: r) := by
    rw [← advance_advance, rest_advance, rest_advance, hc]
    exact List.drop_left
  have hcomma := expect_eq hkey rfl
  rw [advance_advance] at hcomma
  have hrun : parseTypeRec (depth + 1) c = (do
      let (k, c) ← parseTypeRec depth (c.advance 4)
      let c ← c.expect ','
      let (v, c) ← parseTypeRec depth c
      let c ← c.expect '>'
      return (.map k v, c)) := by
    rw [parseTypeRec, hident, String.ofList_toList]
    change parseMapT _ (c.advance 3) = _
    rw [parseMapT, hopen]
    rfl
  rw [hrun, CelType.reread]
  cases hreadKey : key.reread with
  | none =>
    rw [hreadKey] at hk
    obtain ⟨message, hk⟩ := hk
    exact ⟨message, by rw [hk]; rfl⟩
  | some k =>
    rw [hreadKey] at hk
    change parseTypeRec depth (c.advance 4) = _ at hk
    rw [hk, advance_advance]
    change SpecReads ((c.advance (4 + s.length)).expect ',' >>= _) _ _
    rw [hcomma]
    change SpecReads (parseTypeRec depth (c.advance (4 + s.length + 1)) >>= _) _ _
    cases hreadValue : value.reread with
    | none =>
      rw [hreadValue] at hv
      obtain ⟨message, hv⟩ := hv
      exact ⟨message, by rw [hv]; rfl⟩
    | some v =>
      rw [hreadValue] at hv
      have hend : (c.advance (4 + s.length + 1 + s'.length)).rest = '>' :: r := by
        rw [← advance_advance, ← advance_advance, rest_advance, rest_advance, hkey]
        exact List.drop_left
      have hclose := expect_eq hend rfl
      rw [advance_advance] at hclose
      change parseTypeRec depth _ = _ at hv
      rw [hv, advance_advance]
      change (do
        let c ← (c.advance (4 + s.length + 1 + s'.length)).expect '>'
        return (CelType.map k v, c)) = _
      rw [hclose]
      rfl

/-- **A rendered type is read as what its words stand for**, and the parser stops behind it. -/
theorem Spelled.reads (h : Spelled t s) : ∀ {depth : ℕ} {c : SpecCursor} {r : List Char},
    s.length < depth → c.rest = s ++ r → Stops r →
      SpecReads (parseTypeRec depth c) t.reread (c.advance s.length) := by
  induction h with
  | word hword hchars =>
    intro depth c r hdepth hc hr
    obtain ⟨depth, rfl⟩ := Nat.exists_eq_succ_of_ne_zero (Nat.ne_zero_of_lt hdepth)
    rw [CelType.reread_of_word hword]
    exact parseTypeRec_word hc hchars hr
  | @list element s he ih =>
    intro depth c r hdepth hc hr
    obtain ⟨depth, rfl⟩ := Nat.exists_eq_succ_of_ne_zero (Nat.ne_zero_of_lt hdepth)
    have hlength : ("list".toList ++ '<' :: (s ++ ['>'])).length = 5 + s.length + 1 := by
      simp only [List.length_append, List.length_cons, List.length_nil]
      change 4 + _ = _
      omega
    have hc : c.rest = "list".toList ++ '<' :: (s ++ '>' :: r) := by rw [hc]; simp
    rw [hlength] at hdepth ⊢
    refine reads_list hc (ih (by omega) ?_ (stops_cons (.inr rfl) r))
    rw [rest_advance, hc]
    rfl
  | @map key value s s' hk hv ihKey ihValue =>
    intro depth c r hdepth hc hr
    obtain ⟨depth, rfl⟩ := Nat.exists_eq_succ_of_ne_zero (Nat.ne_zero_of_lt hdepth)
    have hlength : ("map".toList ++ '<' :: (s ++ ',' :: (s' ++ ['>']))).length
        = 4 + s.length + 1 + s'.length + 1 := by
      simp only [List.length_append, List.length_cons, List.length_nil]
      change 3 + _ = _
      omega
    have hc : c.rest = "map".toList ++ '<' :: (s ++ ',' :: (s' ++ '>' :: r)) := by rw [hc]; simp
    have hkey : (c.advance 4).rest = s ++ ',' :: (s' ++ '>' :: r) := by
      rw [rest_advance, hc]
      rfl
    rw [hlength] at hdepth ⊢
    refine reads_map hc (ihKey (by omega) hkey (stops_cons (.inl rfl) _))
      (ihValue (by omega) ?_ (stops_cons (.inr rfl) r))
    rw [← advance_advance, ← advance_advance, rest_advance, rest_advance, hkey, List.drop_left]
    rfl

/-- **A spec that was rendered** is read as what its words stand for, or refused. -/
theorem Spelled.parseTypeSpec_eq_ok_iff (h : Spelled t s) :
    parseTypeSpec (String.ofList s) = .ok u ↔ t.reread = some u := by
  have hread : SpecReads (parseTypeRec ((String.ofList s).length + 1) ⟨(String.ofList s).toList, 0⟩) _
      _ :=
    h.reads (r := []) (by rw [String.length_ofList]; exact Nat.lt_succ_self _)
      (by rw [rest, String.toList_ofList, List.drop_zero, List.append_nil]) stops_nil
  cases hre : t.reread with
  | none =>
    rw [hre] at hread
    obtain ⟨message, hread⟩ := hread
    rw [parseTypeSpec, hread]
    exact iff_of_false (fun h => nomatch h) (fun h => nomatch h)
  | some t' =>
    rw [hre] at hread
    change parseTypeRec _ _ = _ at hread
    have hend : (SpecCursor.advance ⟨(String.ofList s).toList, 0⟩ s.length).rest = [] := by
      rw [rest_advance, rest, String.toList_ofList, List.drop_zero, List.drop_length]
    have hskip := skip_eq (c := SpecCursor.advance ⟨(String.ofList s).toList, 0⟩ s.length)
      (by rw [hend]; exact fun _ h => nomatch h)
    rw [parseTypeSpec, hread]
    change (if (SpecCursor.advance _ _).skip.rest ≠ [] then _ else _) = _ ↔ _
    rw [hskip, if_neg (not_not.mpr hend), Option.some.injEq]
    exact ⟨Except.ok.inj, congrArg _⟩

end Reading

/-! ## Which types come back -/

section RoundTrip

variable {t u : CelType} {s s' r r' : List Char}

theorem typeOfWord_eq_none_iff {name : String} (hlist : name ≠ "list") (hmap : name ≠ "map") :
    typeOfWord name = none ↔ name ∉ CelType.typeWords := by
  rw [typeOfWord.eq_def]
  split <;> simp_all [CelType.typeWords]

/-- The table of words names no message. -/
theorem typeOfWord_ne_message {name fqn : String} : typeOfWord name ≠ some (.message fqn) := by
  rw [typeOfWord.eq_def]
  split <;> exact fun h => nomatch h

/-- **A type is read back as itself exactly where nothing in it is read as something else.** -/
theorem CelType.reread_eq_some_iff (ht : t.Declarable) : t.reread = some t ↔ t.ReadsBack := by
  induction t with
  | list element ih => rw [reread, ReadsBack, ← ih ht, Option.map_eq_some_iff]; simp
  | map key value ihKey ihValue =>
    rw [reread, ReadsBack, ← ihKey ht.1, ← ihValue ht.2]
    simp [Option.bind_eq_some_iff]
  | message fqn =>
    change ofWord fqn = _ ↔ fqn ≠ "" ∧ fqn ∉ typeWords
    rw [ofWord]
    split_ifs with hrefused
    · refine iff_of_false (fun h => nomatch h) ?_
      rintro ⟨hne, hword⟩
      obtain h | rfl | rfl := hrefused
      · exact hne h
      · exact hword (by decide)
      · exact hword (by decide)
    · push Not at hrefused
      rw [← typeOfWord_eq_none_iff hrefused.2.1 hrefused.2.2, Option.some.injEq]
      cases hword : typeOfWord fqn with
      | none => exact iff_of_true rfl ⟨hrefused.1, rfl⟩
      | some t =>
        refine iff_of_false ?_ fun h => nomatch h.2
        rintro rfl
        exact typeOfWord_ne_message hword
  | unknown | null | optional => exact ht.elim
  | type => exact iff_of_false (fun h => nomatch h) id
  | _ => exact iff_of_true rfl trivial

/-- **What goes on the wire is rendered by the grammar.** -/
theorem CelType.Declarable.exists_spelled (ht : t.Declarable) :
    ∃ s, Spelled t s ∧ t.varTypeSpec = .ok (String.ofList s) := by
  induction t with
  | list element ih =>
    obtain ⟨s, hs, h⟩ := ih ht
    obtain ⟨wire, hwire, h⟩ := bind_eq_ok_iff.mp h
    have hrender : wire.renderVarTypeSpec = String.ofList s := Except.ok.inj h
    refine ⟨_, .list hs, bind_eq_ok_iff.mpr ⟨.mk WireType.kindList "" [wire], ?_, ?_⟩⟩
    · rw [toWire, hwire]
      rfl
    · change Except.ok ("list<" ++ wire.renderVarTypeSpec ++ ">") = _
      rw [hrender]
      refine congrArg Except.ok (String.toList_inj.mp ?_)
      simp
  | map key value ihKey ihValue =>
    obtain ⟨s, hs, h⟩ := ihKey ht.1
    obtain ⟨s', hs', h'⟩ := ihValue ht.2
    obtain ⟨wire, hwire, h⟩ := bind_eq_ok_iff.mp h
    obtain ⟨wire', hwire', h'⟩ := bind_eq_ok_iff.mp h'
    have hrender : wire.renderVarTypeSpec = String.ofList s := Except.ok.inj h
    have hrender' : wire'.renderVarTypeSpec = String.ofList s' := Except.ok.inj h'
    refine ⟨_, .map hs hs', bind_eq_ok_iff.mpr ⟨.mk WireType.kindMap "" [wire, wire'], ?_, ?_⟩⟩
    · rw [toWire, hwire, hwire']
      rfl
    · change Except.ok ("map<" ++ wire.renderVarTypeSpec ++ "," ++ wire'.renderVarTypeSpec ++ ">") = _
      rw [hrender, hrender']
      refine congrArg Except.ok (String.toList_inj.mp ?_)
      simp
  | message fqn => exact ⟨_, .word rfl ht, by rw [String.ofList_toList]; rfl⟩
  | unknown | null | optional => exact ht.elim
  | _ => exact ⟨_, .word rfl (List.all_eq_true.mp rfl), rfl⟩

/-! ## Which types share a spec -/

theorem CelType.worded_of_word {name : String} (h : t.word = some name) :
    t.worded = .message name := by
  cases t <;> simp only [word, Option.some.injEq, reduceCtorEq] at h <;> subst h <;> rfl

/-- **The grammar is unambiguous**: a text starts with the spec of one type, up to its words. -/
theorem Spelled.unique (h : Spelled t s) : ∀ {u : CelType} {s' r r' : List Char}, Spelled u s' →
    Stops r → Stops r' → s ++ r = s' ++ r' → t.worded = u.worded ∧ r = r' := by
  induction h with
  | word hword hchars =>
    intro u s' r r' hu hr hr' heq
    cases hu with
    | word hword' hchars' =>
      obtain ⟨hname, rfl⟩ := word_unique hchars hr.endsWord hchars' hr'.endsWord heq
      obtain rfl := String.toList_inj.mp hname
      exact ⟨(CelType.worded_of_word hword).trans (CelType.worded_of_word hword').symm, rfl⟩
    | list he =>
      rw [List.append_assoc] at heq
      obtain ⟨-, rfl⟩ := word_unique hchars hr.endsWord (List.all_eq_true.mp rfl)
        (endsWord_angle _) heq
      exact absurd (hr '<' rfl) (by decide)
    | map hk hv =>
      rw [List.append_assoc] at heq
      obtain ⟨-, rfl⟩ := word_unique hchars hr.endsWord (List.all_eq_true.mp rfl)
        (endsWord_angle _) heq
      exact absurd (hr '<' rfl) (by decide)
  | list he ih =>
    intro u s' r r' hu hr hr' heq
    rw [List.append_assoc] at heq
    cases hu with
    | word hword' hchars' =>
      obtain ⟨-, rfl⟩ := word_unique (List.all_eq_true.mp rfl) (endsWord_angle _) hchars'
        hr'.endsWord heq
      exact absurd ( hr' '<' rfl) (by decide)
    | list he' =>
      rw [List.append_assoc] at heq
      simp only [List.cons_append, List.append_assoc, List.nil_append, List.append_cancel_left_eq,
        List.cons.injEq, true_and] at heq
      obtain ⟨he, hrest⟩ := ih he' (stops_cons (.inr rfl) _) (stops_cons (.inr rfl) _) heq
      exact ⟨congrArg CelType.list he, (List.cons.inj hrest).2⟩
    | map hk hv =>
      rw [List.append_assoc] at heq
      obtain ⟨h, -⟩ := word_unique (List.all_eq_true.mp rfl) (endsWord_angle _)
        (List.all_eq_true.mp rfl) (endsWord_angle _) heq
      exact absurd h (by decide)
  | map hk hv ihKey ihValue =>
    intro u s' r r' hu hr hr' heq
    rw [List.append_assoc] at heq
    cases hu with
    | word hword' hchars' =>
      obtain ⟨-, rfl⟩ := word_unique (List.all_eq_true.mp rfl) (endsWord_angle _) hchars'
        hr'.endsWord heq
      exact absurd ( hr' '<' rfl) (by decide)
    | list he' =>
      rw [List.append_assoc] at heq
      obtain ⟨h, -⟩ := word_unique (List.all_eq_true.mp rfl) (endsWord_angle _)
        (List.all_eq_true.mp rfl) (endsWord_angle _) heq
      exact absurd h (by decide)
    | map hk' hv' =>
      rw [List.append_assoc] at heq
      simp only [List.cons_append, List.append_assoc, List.nil_append, List.append_cancel_left_eq,
        List.cons.injEq, true_and] at heq
      obtain ⟨hkey, hrest⟩ := ihKey hk' (stops_cons (.inl rfl) _) (stops_cons (.inl rfl) _) heq
      obtain ⟨hvalue, hrest⟩ := ihValue hv' (stops_cons (.inr rfl) _) (stops_cons (.inr rfl) _)
        (List.cons.inj hrest).2
      exact ⟨congrArg₂ CelType.map hkey hvalue, (List.cons.inj hrest).2⟩

theorem Spelled.worded (h : Spelled t s) : Spelled t.worded s := by
  induction h with
  | word hword hchars => exact CelType.worded_of_word hword ▸ .word rfl hchars
  | list _ ih => exact .list ih
  | map _ _ ihKey ihValue => exact .map ihKey ihValue

/-- A type has one spec. -/
theorem Spelled.functional (h : Spelled t s) : ∀ {s' : List Char}, Spelled t s' → s = s' := by
  induction h with
  | word hword hchars =>
    intro s' h'
    cases h' with
    | word hword' => rw [Option.some.inj (hword.symm.trans hword')]
    | list | map => exact nomatch hword
  | list he ih =>
    intro s' h'
    cases h' with
    | word hword' => exact nomatch hword'
    | list he' => rw [ih he']
  | map hk hv ihKey ihValue =>
    intro s' h'
    cases h' with
    | word hword' => exact nomatch hword'
    | map hk' hv' => rw [ihKey hk', ihValue hv']

/-- **Two types share a spec exactly when they are the same up to their words.** -/
theorem Spelled.eq_iff (h : Spelled t s) (h' : Spelled u s') : s = s' ↔ t.worded = u.worded := by
  constructor
  · rintro rfl
    exact (h.unique h' stops_nil stops_nil rfl).1
  · intro hworded
    exact (hworded ▸ h.worded).functional h'.worded

/-- **Specs of variables.** A type that can be declared has a spec; the spec is read as the type
exactly when nothing in the type is read as something else, and so no two such types share one. Any
two types share a spec exactly when they are the same up to what their words stand for. -/
theorem varTypeSpec_rereads_iff (ht : t.Declarable) :
    ∃ spec, t.varTypeSpec = .ok spec ∧
      ((∃ t', parseTypeSpec spec = .ok t' ∧ t'.equals t = true) ↔ t.ReadsBack) ∧
      ∀ u : CelType, u.Declarable →
        (u.varTypeSpec = .ok spec ↔ u.worded = t.worded) ∧
        (t.ReadsBack → u.ReadsBack → u.varTypeSpec = .ok spec → u = t) := by
  obtain ⟨s, hs, hspec⟩ := ht.exists_spelled
  refine ⟨_, hspec, ?_, fun u hu => ?_⟩
  · rw [← CelType.reread_eq_some_iff ht, ← hs.parseTypeSpec_eq_ok_iff]
    constructor
    · rintro ⟨t', hread, hequal⟩
      rwa [← CelType.equals_iff.mp hequal]
    · exact fun hread => ⟨t, hread, CelType.equals_iff.mpr rfl⟩
  · obtain ⟨s', hs', hspec'⟩ := hu.exists_spelled
    have heq : u.varTypeSpec = .ok (String.ofList s) ↔ s' = s := by
      rw [hspec']
      exact ⟨fun h => String.ofList_inj.mp (Except.ok.inj h), fun h => h ▸ rfl⟩
    refine ⟨heq.trans (hs'.eq_iff hs), fun hback hback' h => ?_⟩
    obtain rfl := heq.mp h
    have hread := hs.parseTypeSpec_eq_ok_iff.mpr ((CelType.reread_eq_some_iff ht).mpr hback)
    have hread' := hs'.parseTypeSpec_eq_ok_iff.mpr ((CelType.reread_eq_some_iff hu).mpr hback')
    exact Except.ok.inj (hread'.symm.trans hread)

/-- A map from strings to lists of messages. -/
theorem varTypeSpec_rereads_map :
    ∃ spec, (CelType.map .string (.list (.message "acme.User"))).varTypeSpec = .ok spec ∧
      ∃ t', parseTypeSpec spec = .ok t' ∧
        t'.equals (.map .string (.list (.message "acme.User"))) = true := by
  have hdeclared : (CelType.map .string (.list (.message "acme.User"))).Declarable :=
    ⟨trivial, List.all_eq_true.mp rfl⟩
  obtain ⟨spec, hspec, hread, -⟩ := varTypeSpec_rereads_iff hdeclared
  exact ⟨spec, hspec, hread.mpr ⟨trivial, by decide, by decide⟩⟩

/-- The spec of `type` is read as a message, and is the spec of that message too. -/
theorem varTypeSpec_type_reread :
    CelType.type.varTypeSpec = .ok "type" ∧ parseTypeSpec "type" = .ok (.message "type") ∧
      (CelType.message "type").equals .type = false ∧
      (CelType.message "type").varTypeSpec = .ok "type" := by
  refine ⟨rfl, ?_, rfl, rfl⟩
  exact (Spelled.word (t := .type) rfl (List.all_eq_true.mp rfl)).parseTypeSpec_eq_ok_iff.mpr rfl

end RoundTrip

end CelWasm
