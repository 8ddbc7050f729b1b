import CelWasm.Compiler.Comprehension

/-!
# Compiler/FusedSteps — the fused steps against the step as written

A recognised step writes to the accumulator directly; as written it would build a list of one element,
concatenate, and copy, or choose between that and the accumulator. A fused writer lets the first poison
stick, where the ternary hands on whatever its condition comes to that is no bool: the two agree exactly
if what the ternary leaves in the end is the poison the accumulator holds (`fusedSteps_agree_iff`). An
element flagged optional and a refused block set them apart as well: the fused writers append the
first as it is and never ask for the second.
-/

namespace CelWasm

variable {α : Type}

/-! ## The accumulator -/

namespace CelValue

/-- A container without the room it has to spare. -/
def trimmed : CelValue → CelValue
  | listArena _ elements => listArena elements.length elements
  | mapArena _ entries index => mapArena entries.length entries index
  | v => v

/-- A bool of either kind. -/
def isBoolKind : CelValue → Bool
  | bool _ => true
  | _ => false

/-- The value, where it is poison. -/
def poison? (v : CelValue) : Option CelValue := if v.isPoison then some v else none

theorem isBoolKind_iff {v : CelValue} : v.isBoolKind = true ↔ v = bool true ∨ v = bool false := by
  cases v with
  | bool b => cases b <;> simp [isBoolKind]
  | _ => simp [isBoolKind]

theorem poison?_of_isPoison {v : CelValue} (h : v.isPoison = true) : v.poison? = some v := if_pos h

theorem poison?_of_not_isPoison {v : CelValue} (h : v.isPoison = false) : v.poison? = none :=
  if_neg (by rw [h]; exact Bool.false_ne_true)

/-- Poison has no room to spare, and what has the contents of poison is that poison. -/
theorem trimmed_eq_trimmed_iff_of_isPoison {p v : CelValue} (hp : p.isPoison = true) :
    p.trimmed = v.trimmed ↔ v = p := by
  obtain ⟨e, rfl⟩ | ⟨s, rfl⟩ := isPoison_iff.mp hp <;> cases v <;> simp [trimmed, eq_comm]

end CelValue

/-- What spoils an entry: poison of the key or of the value, or a key no map can hold. -/
def entrySpoil (key value : CelValue) : Option CelValue :=
  key.poison?.or <| value.poison?.or <|
    if isValidMapKeyKind key then none else some (.error .typeMismatch)

namespace LoopStepShape

/-- The steps that append or insert one element. -/
def isInsertion : LoopStepShape α → Bool
  | listAppend _ | listAppendIf _ _ | mapInsert _ _ | mapInsertIf _ _ _ => true
  | _ => false

/-- The accumulator an insertion starts from. -/
def create (shape : LoopStepShape α) (count : ℕ) : Kernel CelValue :=
  if shape.mapAccumulating then celMapCreate count else celListCreate count

/-- The gate of a step; a step without one is always let through. -/
def gate (shape : LoopStepShape α) (val : Valuation α) : CelValue :=
  match shape with
  | listAppendIf pred _ | mapInsertIf pred _ _ | mapMergeIf pred _ => val pred
  | _ => .bool true

/-- The poison a step would insert, as an element or in an entry. -/
def spoil (shape : LoopStepShape α) (val : Valuation α) : Option CelValue :=
  match shape with
  | listAppend elem | listAppendIf _ elem => (val elem).poison?
  | mapInsert key value | mapInsertIf _ key value => entrySpoil (val key) (val value)
  | _ => none

/-- The poison a fused writer leaves of a live accumulator: that of the gate, a kind mismatch for a
gate of another kind, or what spoils the insertion. -/
def poison (shape : LoopStepShape α) (val : Valuation α) : Option CelValue :=
  match shape.gate val with
  | .bool true => shape.spoil val
  | .bool false => none
  | g => some (if g.isPoison then g else .error .typeMismatch)

/-- What a write makes, as written, of a value that is no container to write to. -/
def overwritten (shape : LoopStepShape α) (held : CelValue) (val : Valuation α) : CelValue :=
  if held.isPoison || shape.mapAccumulating then held
  else (shape.spoil val).getD (.error .typeMismatch)

/-- What an iteration makes of it, as written: a gate that is no bool takes its place. -/
def handedOn (shape : LoopStepShape α) (held : CelValue) (val : Valuation α) : CelValue :=
  match shape.gate val with
  | .bool true => shape.overwritten held val
  | .bool false => held
  | g => g

/-- **The first poison is the last**: from the iteration that poisons the accumulator, the iterations
as written hand that poison on, or come back to it. -/
def FirstPoisonLast (shape : LoopStepShape α) : Option CelValue → List (Valuation α) → Prop
  | some held, rest => rest.foldl shape.handedOn held = held
  | none, [] => True
  | none, val :: rest =>
    match shape.poison val with
    | some p => (val :: rest).foldl shape.handedOn p = p
    | none => shape.FirstPoisonLast none rest

theorem firstPoisonLast_some {shape : LoopStepShape α} {held : CelValue}
    {rest : List (Valuation α)} :
    shape.FirstPoisonLast (some held) rest ↔ rest.foldl shape.handedOn held = held := by
  cases rest <;> exact Iff.rfl

/-- A value that is no container of the accumulator's kind. -/
def Foreign (shape : LoopStepShape α) (v : CelValue) : Prop :=
  (if shape.mapAccumulating then isMapShaped v else isListShaped v) = false

/-- A gate that is no such container. -/
def ForeignGate (shape : LoopStepShape α) (val : Valuation α) : Prop :=
  shape.Foreign (shape.gate val)

/-- Poison is none. -/
theorem foreign_of_isPoison (shape : LoopStepShape α) {v : CelValue} (h : v.isPoison = true) :
    shape.Foreign v := by
  obtain ⟨e, rfl⟩ | ⟨s, rfl⟩ := CelValue.isPoison_iff.mp h <;> exact ite_self false

end LoopStepShape

/-- The element an append body appends is flagged optional. -/
def elementOptional : Expr α → Bool
  | .call _ _ _ [_, .list _ _ optionals] => optionals.getD 0 false
  | _ => false

/-- The step appends an element flagged optional. -/
def appendsOptional (step : Expr α) (accuVar : String) : Bool :=
  elementOptional (((matchConditionalWrap step accuVar).map Prod.snd).getD step)

/-! ## Reading a classification back -/

section Inversion

variable {e step : Expr α} {accuVar : String}

theorem matchAppendBody_eq_some {elem : Expr α} (h : matchAppendBody e accuVar = some elem) :
    ∃ a b lhs optionals, e = .call a "_+_" false [lhs, .list b [elem] optionals] ∧
      lhs.isIdentNamed accuVar = true := by
  unfold matchAppendBody at h
  split at h
  · split_ifs at h with hlhs
    obtain rfl := Option.some.inj h
    exact ⟨_, _, _, _, rfl, hlhs⟩
  · exact nomatch h

theorem matchMapInsertCall_eq_cons {x : Expr α} {xs : List (Expr α)}
    (h : matchMapInsertCall e accuVar = x :: xs) :
    ∃ a m, e = .call a "cel.@mapInsert" false (m :: x :: xs) ∧ m.isIdentNamed accuVar = true := by
  unfold matchMapInsertCall at h
  split at h
  · split_ifs at h with hm
    rw [h]
    exact ⟨_, _, rfl, hm⟩
  · exact nomatch h

theorem matchConditionalWrap_eq_some {pred body : Expr α}
    (h : matchConditionalWrap e accuVar = some (pred, body)) :
    ∃ a orElse, e = .call a "_?_:_" false [pred, body, orElse] ∧
      orElse.isIdentNamed accuVar = true := by
  unfold matchConditionalWrap at h
  split at h
  · split_ifs at h with horElse
    obtain ⟨rfl, rfl⟩ := Prod.mk.inj (Option.some.inj h)
    exact ⟨_, _, rfl, horElse⟩
  · exact nomatch h

/-- An insertion that is no append calls `cel.@mapInsert` with a key and a value. -/
theorem exists_of_isInsertion_mapStepShape {operands : List (Expr α)}
    {wrap : Option (Expr α × Expr α)} (h : (mapStepShape operands wrap).isInsertion = true) :
    ∃ key value, operands = [key, value] := by
  unfold mapStepShape at h
  split at h
  · exact ⟨_, _, rfl⟩
  · exact ⟨_, _, rfl⟩
  all_goals exact absurd h Bool.false_ne_true

end Inversion

/-! ## Both evaluations as a gate and a write -/

section Gate

variable (host : CelHost) {accuVar : String} {step : Expr α} (val : Valuation α)
  (accu : CelValue)

/-- What a step writes past its gate, as written. -/
def LoopStepShape.writeGeneric (shape : LoopStepShape α) : Kernel CelValue :=
  match shape with
  | listAppend elem | listAppendIf _ elem => listLiteral val [elem] [] >>= celListConcat host accu
  | mapInsert key value | mapInsertIf _ key value => celMapInsertAt accu (val key) (val value)
  | _ => return accu

/-- What a step writes past its gate, fused. -/
def LoopStepShape.writeFused (shape : LoopStepShape α) : Kernel CelValue :=
  match shape with
  | listAppend elem | listAppendIf _ elem => celListAppendAt accu (val elem)
  | mapInsert key value | mapInsertIf _ key value => celMapInsertAt accu (val key) (val value)
  | _ => return accu

/-- The flags of a list literal of one element say nothing unless the first is set. -/
theorem listLiteral_singleton {elem : Expr α} {optionals : List Bool}
    (h : optionals.getD 0 false = false) :
    listLiteral val [elem] optionals = listLiteral val [elem] [] := by
  rw [List.getD_eq_getElem?_getD] at h
  simp [listLiteral, h]

/-- An append body is a concatenation with the list literal of its element. -/
theorem bodyValue_append {e elem : Expr α} (h : matchAppendBody e accuVar = some elem) :
    ∃ optionals : List Bool, optionals.getD 0 false = elementOptional e ∧
      ∀ accu, bodyValue host accuVar val accu e
        = listLiteral val [elem] optionals >>= celListConcat host accu := by
  obtain ⟨a, b, lhs, optionals, rfl, hlhs⟩ := matchAppendBody_eq_some h
  refine ⟨optionals, rfl, fun accu => ?_⟩
  have hread : readAccu accuVar val accu lhs = accu := if_pos hlhs
  exact congrArg (fun accu => listLiteral val [elem] optionals >>= celListConcat host accu) hread

theorem bodyValue_mapInsert {e key value : Expr α}
    (h : matchMapInsertCall e accuVar = [key, value]) :
    bodyValue host accuVar val accu e = celMapInsertAt accu (val key) (val value) := by
  obtain ⟨a, m, rfl, hm⟩ := matchMapInsertCall_eq_cons h
  exact congrArg (celMapInsertAt · (val key) (val value)) (if_pos hm)

theorem bodyValue_accu {e : Expr α} (h : e.isIdentNamed accuVar = true) :
    bodyValue host accuVar val accu e = return accu := by
  cases e with
  | ident a name => exact congrArg pure (if_pos h)
  | _ => exact absurd h Bool.false_ne_true

theorem genericStep_append {e elem : Expr α} (h : matchAppendBody e accuVar = some elem) :
    genericStep host accuVar val accu e = bodyValue host accuVar val accu e := by
  obtain ⟨a, b, lhs, optionals, rfl, -⟩ := matchAppendBody_eq_some h
  rfl

theorem genericStep_mapInsert {e key value : Expr α}
    (h : matchMapInsertCall e accuVar = [key, value]) :
    genericStep host accuVar val accu e = bodyValue host accuVar val accu e := by
  obtain ⟨a, m, rfl, -⟩ := matchMapInsertCall_eq_cons h
  rfl

/-- A step that is a choice for the accumulator evaluates its body past the gate. -/
theorem genericStep_wrap {e pred body : Expr α}
    (h : matchConditionalWrap e accuVar = some (pred, body)) :
    genericStep host accuVar val accu e
      = conditional (val pred) (bodyValue host accuVar val accu body) (return accu) := by
  obtain ⟨a, orElse, rfl, horElse⟩ := matchConditionalWrap_eq_some h
  exact congrArg (conditional (val pred) (bodyValue host accuVar val accu body))
    (bodyValue_accu host val accu horElse)

/-- **As written, an append is a choice between a concatenation and the accumulator**: with the list
literal of its element, flagged or not. -/
theorem genericStep_append_eq_conditional
    (hshape : (classifyLoopStep step accuVar).isInsertion = true)
    (hlist : (classifyLoopStep step accuVar).mapAccumulating = false) :
    ∃ (elem : Expr α) (optionals : List Bool),
      optionals.getD 0 false = appendsOptional step accuVar ∧
        (classifyLoopStep step accuVar = .listAppend elem ∨
          ∃ pred, classifyLoopStep step accuVar = .listAppendIf pred elem) ∧
        ∀ accu, genericStep host accuVar val accu step
          = conditional ((classifyLoopStep step accuVar).gate val)
              (listLiteral val [elem] optionals >>= celListConcat host accu) (return accu) := by
  unfold appendsOptional
  unfold classifyLoopStep at hshape hlist ⊢
  cases hwrap : matchConditionalWrap step accuVar with
  | none =>
    simp only [hwrap, Option.map_none, Option.getD_none] at hshape hlist ⊢
    cases happend : matchAppendBody step accuVar with
    | some elem =>
      obtain ⟨optionals, hflag, hvalue⟩ := bodyValue_append host val happend
      refine ⟨elem, optionals, hflag, .inl rfl, fun accu => ?_⟩
      rw [genericStep_append host val accu happend, hvalue]
      rfl
    | none =>
      simp only [happend] at hshape hlist
      obtain ⟨key, value, hcall⟩ := exists_of_isInsertion_mapStepShape hshape
      rw [hcall] at hlist
      exact nomatch hlist
  | some w =>
    obtain ⟨pred, body⟩ := w
    simp only [hwrap, Option.map_some, Option.getD_some] at hshape hlist ⊢
    cases happend : matchAppendBody body accuVar with
    | some elem =>
      obtain ⟨optionals, hflag, hvalue⟩ := bodyValue_append host val happend
      refine ⟨elem, optionals, hflag, .inr ⟨pred, rfl⟩, fun accu => ?_⟩
      rw [genericStep_wrap host val accu hwrap, hvalue]
      rfl
    | none =>
      simp only [happend] at hshape hlist
      obtain ⟨key, value, hcall⟩ := exists_of_isInsertion_mapStepShape hshape
      rw [hcall] at hlist
      exact nomatch hlist

/-- **…and an insertion into a map a choice between its write and the accumulator**, none of it flagged
optional. -/
theorem genericStep_insert_eq_conditional
    (hshape : (classifyLoopStep step accuVar).isInsertion = true)
    (hmap : (classifyLoopStep step accuVar).mapAccumulating = true) :
    appendsOptional step accuVar = false ∧
      genericStep host accuVar val accu step
        = conditional ((classifyLoopStep step accuVar).gate val)
            ((classifyLoopStep step accuVar).writeGeneric host val accu) (return accu) := by
  have hplain : ∀ {e key value : Expr α}, matchMapInsertCall e accuVar = [key, value] →
      elementOptional e = false := by
    intro e key value h
    obtain ⟨a, m, rfl, -⟩ := matchMapInsertCall_eq_cons h
    cases key <;> rfl
  unfold appendsOptional
  unfold classifyLoopStep at hshape hmap ⊢
  cases hwrap : matchConditionalWrap step accuVar with
  | none =>
    simp only [hwrap, Option.map_none, Option.getD_none] at hshape hmap ⊢
    cases happend : matchAppendBody step accuVar with
    | some elem =>
      simp only [happend] at hmap
      exact nomatch hmap
    | none =>
      simp only [happend] at hshape ⊢
      obtain ⟨key, value, hcall⟩ := exists_of_isInsertion_mapStepShape hshape
      refine ⟨hplain hcall, ?_⟩
      rw [genericStep_mapInsert host val accu hcall, bodyValue_mapInsert host val accu hcall, hcall]
      rfl
  | some w =>
    obtain ⟨pred, body⟩ := w
    simp only [hwrap, Option.map_some, Option.getD_some] at hshape hmap ⊢
    rw [genericStep_wrap host val accu hwrap]
    cases happend : matchAppendBody body accuVar with
    | some elem =>
      simp only [happend] at hmap
      exact nomatch hmap
    | none =>
      simp only [happend] at hshape ⊢
      obtain ⟨key, value, hcall⟩ := exists_of_isInsertion_mapStepShape hshape
      refine ⟨hplain hcall, ?_⟩
      rw [bodyValue_mapInsert host val accu hcall, hcall]
      rfl

/-- **As written, an insertion is a choice between its write and the accumulator.** -/
theorem genericStep_eq_conditional
    (hshape : (classifyLoopStep step accuVar).isInsertion = true)
    (hopt : appendsOptional step accuVar = false) :
    genericStep host accuVar val accu step
      = conditional ((classifyLoopStep step accuVar).gate val)
          ((classifyLoopStep step accuVar).writeGeneric host val accu) (return accu) := by
  cases hmap : (classifyLoopStep step accuVar).mapAccumulating with
  | true => exact (genericStep_insert_eq_conditional host val accu hshape hmap).2
  | false =>
    obtain ⟨elem, optionals, hflag, hclass, hgeneric⟩ :=
      genericStep_append_eq_conditional host val hshape hmap
    rw [hgeneric, listLiteral_singleton val (hflag.trans hopt)]
    obtain hclass | ⟨pred, hclass⟩ := hclass <;> rw [hclass] <;> rfl

end Gate

/-! ## One iteration -/

section Iteration

variable (host : CelHost) {accuVar : String} {step : Expr α} (val : Valuation α)

/-- **Fused, an insertion into a live list is its write behind its gate.** -/
theorem compLoopStep_listArena {capacity : ℕ} {elements : List CelValue}
    (hshape : (classifyLoopStep step accuVar).isInsertion = true)
    (hlist : (classifyLoopStep step accuVar).mapAccumulating = false) :
    compLoopStep host accuVar val (.listArena capacity elements) step
      = ifBool (.listArena capacity elements) ((classifyLoopStep step accuVar).gate val)
          ((classifyLoopStep step accuVar).writeFused val (.listArena capacity elements)) := by
  rw [compLoopStep]
  cases hclass : classifyLoopStep step accuVar <;> rw [hclass] at hshape hlist <;>
    first | rfl | exact absurd hshape Bool.false_ne_true | exact absurd hlist.symm Bool.false_ne_true

/-- **Fused, an insertion into a live map is its write behind its gate.** -/
theorem compLoopStep_mapArena {capacity : ℕ} {entries : List (CelValue × CelValue)}
    {index : Option MapIndex}
    (hshape : (classifyLoopStep step accuVar).isInsertion = true)
    (hmap : (classifyLoopStep step accuVar).mapAccumulating = true) :
    compLoopStep host accuVar val (.mapArena capacity entries index) step
      = ifBool (.mapArena capacity entries index) ((classifyLoopStep step accuVar).gate val)
          ((classifyLoopStep step accuVar).writeFused val (.mapArena capacity entries index)) := by
  rw [compLoopStep]
  cases hclass : classifyLoopStep step accuVar <;> rw [hclass] at hshape hmap <;>
    first | rfl | exact absurd hshape Bool.false_ne_true | exact absurd hmap Bool.false_ne_true

/-- A poisoned accumulator stays. -/
theorem compLoopStep_poison {p : CelValue} (hp : p.isPoison = true)
    (hshape : (classifyLoopStep step accuVar).isInsertion = true) :
    compLoopStep host accuVar val p step = return p := by
  obtain ⟨e, rfl⟩ | ⟨s, rfl⟩ := CelValue.isPoison_iff.mp hp <;> rw [compLoopStep] <;>
    cases hclass : classifyLoopStep step accuVar <;> rw [hclass] at hshape <;>
    first | rfl | exact absurd hshape Bool.false_ne_true

/-- The list literal of one element. -/
theorem granted_listLiteral_singleton (elem : Expr α) :
    (listLiteral val [elem] []).granted
      = .ok (if (val elem).isPoison then val elem else .listArena 1 [val elem]) := by
  have hliteral : (listLiteral val [elem] []).granted
      = (celListAppendAt (.listArena 1 []) (val elem)).granted := by
    simp [listLiteral, celListCreate, kCelListEntryStride]
    rfl
  rw [hliteral, celListAppendAt]
  cases (val elem).isPoison <;> rfl

/-- Concatenating arena lists that fit. -/
theorem granted_celListConcat {capacity capacity' : ℕ} {xs ys : List CelValue}
    (hfit : (xs.length + ys.length) * 24 ≤ 2 ^ 32 - 8) :
    (celListConcat host (.listArena capacity xs) (.listArena capacity' ys)).granted
      = .ok (.listArena (xs.length + ys.length) (xs ++ ys)) := by
  have hfit' : ¬ 2 ^ 32 - 1 - xs.length < ys.length := by omega
  have halloc : (allocRun 16 kCelListEntryStride (xs.length + ys.length)).granted = .ok true := by
    rw [granted_allocRun (by decide), kCelListEntryStride, decide_eq_true hfit]
  change (if 2 ^ 32 - 1 - xs.length < ys.length then return .error .overflow
    else allocRun 16 kCelListEntryStride (xs.length + ys.length) >>= fun granted =>
      if granted = true then return .listArena (xs.length + ys.length) (xs ++ ys)
      else return .error .overflow : Kernel CelValue).granted = _
  rw [if_neg hfit', Prog.granted_bind, halloc]
  rfl

/-- An append to what is no list, as written. -/
theorem granted_append_foreign (elem : Expr α) {v : CelValue} (h : isListShaped v = false) :
    (listLiteral val [elem] [] >>= celListConcat host v).granted
      = .ok (if v.isPoison then v else (val elem).poison?.getD (.error .typeMismatch)) := by
  have horigin : listOrigin v = .neither := by
    cases v <;> first | rfl | exact absurd h.symm Bool.false_ne_true
  rw [Prog.granted_bind, granted_listLiteral_singleton]
  change (celListConcat host v _).granted = _
  rw [celListConcat, unlessPoison, horigin]
  cases hv : v.isPoison with
  | true => rfl
  | false =>
    cases hp : (val elem).isPoison with
    | true => simp [hp, CelValue.poison?_of_isPoison hp]
    | false => simp [CelValue.poison?_of_not_isPoison hp, CelValue.isPoison, Origin.both, dispatch]

/-- A write to what is no container of the accumulator's kind, as written. -/
theorem granted_writeGeneric_foreign {shape : LoopStepShape α} (hshape : shape.isInsertion = true)
    {v : CelValue} (h : shape.Foreign v) :
    (shape.writeGeneric host val v).granted = .ok (shape.overwritten v val) := by
  have hinsert : isMapShaped v = false →
      ∀ key value, (celMapInsertAt v key value).granted = .ok v := by
    intro hmap key value
    cases v <;> first | rfl | exact absurd hmap.symm Bool.false_ne_true
  have happend : isListShaped v = false → ∀ elem,
      (listLiteral val [elem] [] >>= celListConcat host v).granted
        = .ok (if (v.isPoison || false) = true then v
            else (val elem).poison?.getD (.error .typeMismatch)) := by
    intro hlist elem
    rw [Bool.or_false, granted_append_foreign host val elem hlist]
  cases shape with
  | listAppend elem => exact happend h elem
  | listAppendIf _ elem => exact happend h elem
  | mapInsert key value =>
    refine (hinsert h _ _).trans (congrArg Except.ok (if_pos ?_).symm)
    exact Bool.or_true _
  | mapInsertIf _ key value =>
    refine (hinsert h _ _).trans (congrArg Except.ok (if_pos ?_).symm)
    exact Bool.or_true _
  | _ => exact absurd hshape Bool.false_ne_true

/-- Inserting into a map with room poisons it if the entry is spoiled, and else leaves it a map with at
most one entry more. -/
theorem mapInsertAtKernel_spec {capacity : ℕ} {entries : List (CelValue × CelValue)}
    (index : Option MapIndex) (key value : CelValue) (hroom : entries.length < capacity) :
    (∀ p, entrySpoil key value = some p →
      mapInsertAtKernel capacity entries index key value false = return p) ∧
    (entrySpoil key value = none → ∃ entries', entries'.length ≤ entries.length + 1 ∧
      mapInsertAtKernel capacity entries index key value false
        = return .mapArena capacity entries' index) := by
  rw [mapInsertAtKernel, entrySpoil, CelValue.poison?, CelValue.poison?]
  cases hkey : key.isPoison with
  | true => exact ⟨fun p hp => Option.some.inj hp ▸ rfl, nofun⟩
  | false =>
    cases hvalue : value.isPoison with
    | true => exact ⟨fun p hp => Option.some.inj hp ▸ rfl, nofun⟩
    | false =>
      cases hvalid : isValidMapKeyKind key with
      | false => exact ⟨fun p hp => Option.some.inj hp ▸ rfl, nofun⟩
      | true =>
        refine ⟨nofun, fun _ => ?_⟩
        cases hover : overwriteValue entries key value with
        | some entries' =>
          refine ⟨entries', ?_, rfl⟩
          obtain ⟨i, -, rfl⟩ := Option.map_eq_some_iff.mp hover
          simp
        | none =>
          refine ⟨entries ++ [(key, value)], by simp, ?_⟩
          simp [hroom]

end Iteration

/-! ## Poison, once it is held -/

section Poison

variable {shape : LoopStepShape α} {val : Valuation α} {rest : List (Valuation α)}

/-- A gate is open, shut or no bool. -/
theorem LoopStepShape.gate_cases (shape : LoopStepShape α) (val : Valuation α) :
    shape.gate val = .bool true ∨ shape.gate val = .bool false ∨
      (shape.gate val).isBoolKind = false := by
  cases hg : (shape.gate val).isBoolKind with
  | true => exact (CelValue.isBoolKind_iff.mp hg).imp_right .inl
  | false => exact .inr (.inr rfl)

/-- Fused, a gate that is no bool is reported. -/
theorem ifBool_of_not_isBoolKind {accu g : CelValue} {write : Kernel CelValue}
    (hg : g.isBoolKind = false) :
    ifBool accu g write = return (if g.isPoison then g else .error .typeMismatch) := by
  cases g <;> first | rfl | exact absurd hg.symm Bool.false_ne_true

/-- As written, it is the result. -/
theorem conditional_of_not_isBoolKind {g : CelValue} {x y : Kernel CelValue}
    (hg : g.isBoolKind = false) : conditional g x y = return g := by
  cases g <;> first | rfl | exact absurd hg.symm Bool.false_ne_true

/-- A gate that is no bool poisons a live accumulator. -/
theorem LoopStepShape.poison_of_not_isBoolKind (hg : (shape.gate val).isBoolKind = false) :
    shape.poison val
      = some (if (shape.gate val).isPoison then shape.gate val else .error .typeMismatch) := by
  rw [poison]
  generalize shape.gate val = g at hg ⊢
  cases g <;> first | rfl | exact absurd hg.symm Bool.false_ne_true

/-- Past an open gate the poison is that of what is inserted. -/
theorem LoopStepShape.poison_of_open (hopen : shape.gate val = .bool true) :
    shape.poison val = shape.spoil val := by
  rw [poison, hopen]

theorem LoopStepShape.poison_of_shut (hshut : shape.gate val = .bool false) :
    shape.poison val = none := by
  rw [poison, hshut]

theorem LoopStepShape.handedOn_of_not_isBoolKind (hg : (shape.gate val).isBoolKind = false)
    (held : CelValue) : shape.handedOn held val = shape.gate val := by
  rw [handedOn]
  generalize shape.gate val = g at hg ⊢
  cases g <;> first | rfl | exact absurd hg.symm Bool.false_ne_true

/-- Past an open gate poison is handed on. -/
theorem LoopStepShape.handedOn_of_open (hopen : shape.gate val = .bool true) {p : CelValue}
    (hp : p.isPoison = true) : shape.handedOn p val = p := by
  rw [handedOn, hopen]
  exact if_pos (by rw [hp]; rfl)

/-- What spoils an insertion is poison. -/
theorem LoopStepShape.isPoison_of_spoil {p : CelValue} (h : shape.spoil val = some p) :
    p.isPoison = true := by
  have hpoison : ∀ {v : CelValue}, v.poison? = some p → p.isPoison = true := by
    intro v hv
    rw [CelValue.poison?] at hv
    split_ifs at hv with hisPoison
    exact Option.some.inj hv ▸ hisPoison
  have hentry : ∀ {key value : CelValue}, entrySpoil key value = some p → p.isPoison = true := by
    intro key value hspoil
    rw [entrySpoil, Option.or_eq_some_iff, Option.or_eq_some_iff] at hspoil
    obtain hkey | ⟨-, hvalue | ⟨-, hkind⟩⟩ := hspoil
    · exact hpoison hkey
    · exact hpoison hvalue
    · split_ifs at hkind with hvalid
      exact Option.some.inj hkind ▸ rfl
  cases shape with
  | listAppend elem => exact hpoison h
  | listAppendIf _ elem => exact hpoison h
  | mapInsert key value => exact hentry h
  | mapInsertIf _ key value => exact hentry h
  | _ => exact nomatch h

/-- **One iteration as written** of what is no container of the accumulator's kind. -/
theorem granted_conditional_foreign (host : CelHost) (hshape : shape.isInsertion = true)
    {v : CelValue} (hv : shape.Foreign v) :
    (conditional (shape.gate val) (shape.writeGeneric host val v) (return v)).granted
      = .ok (shape.handedOn v val) := by
  obtain hg | hg | hg := shape.gate_cases val
  · rw [LoopStepShape.handedOn, hg]
    exact granted_writeGeneric_foreign host val hshape hv
  · rw [LoopStepShape.handedOn, hg]
    rfl
  · rw [conditional_of_not_isBoolKind hg, LoopStepShape.handedOn_of_not_isBoolKind hg]
    rfl

/-- What it makes of it is none either. -/
theorem LoopStepShape.Foreign.handedOn {v : CelValue} (hv : shape.Foreign v)
    (hgate : shape.ForeignGate val) : shape.Foreign (shape.handedOn v val) := by
  obtain hg | hg | hg := shape.gate_cases val
  · rw [LoopStepShape.handedOn, hg]
    change shape.Foreign (shape.overwritten v val)
    rw [LoopStepShape.overwritten]
    split_ifs
    · exact hv
    · cases hspoil : shape.spoil val with
      | none => exact shape.foreign_of_isPoison rfl
      | some p => exact shape.foreign_of_isPoison (LoopStepShape.isPoison_of_spoil hspoil)
  · rw [LoopStepShape.handedOn, hg]
    exact hv
  · rw [LoopStepShape.handedOn_of_not_isBoolKind hg]
    exact hgate

end Poison

/-! ## Whole runs -/

/-- **What ties the two accumulators together** with `rest` still to come, where `agree` is what the
runs agree on in the end: the same elements in lists that may differ in room, or the same map; or
poison, and what the step as written has handed on. -/
inductive SameAccu (shape : LoopStepShape α) (agree : Prop) (rest : List (Valuation α)) :
    CelValue → CelValue → Prop
  | list {capacity capacity' : ℕ} {elements : List CelValue}
      (hlist : shape.mapAccumulating = false) (hroom : elements.length + rest.length ≤ capacity)
      (hfit : capacity * 24 ≤ 2 ^ 32 - 8) (hagree : agree ↔ shape.FirstPoisonLast none rest) :
      SameAccu shape agree rest (.listArena capacity elements) (.listArena capacity' elements)
  | map {capacity : ℕ} {entries : List (CelValue × CelValue)} {index : Option MapIndex}
      (hmap : shape.mapAccumulating = true) (hroom : entries.length + rest.length ≤ capacity)
      (hagree : agree ↔ shape.FirstPoisonLast none rest) :
      SameAccu shape agree rest (.mapArena capacity entries index) (.mapArena capacity entries index)
  | poison {p q : CelValue} (hp : p.isPoison = true) (hq : shape.Foreign q)
      (hagree : agree ↔ rest.foldl shape.handedOn q = p) : SameAccu shape agree rest p q

section Runs

variable {shape : LoopStepShape α} {agree : Prop} {val : Valuation α} {rest : List (Valuation α)}

/-- Past an iteration that poisons the accumulator, the condition is the one on what is handed on. -/
theorem sameAccu_of_poison {p q : CelValue} (hpoison : shape.poison val = some p)
    (hp : p.isPoison = true) (hq : shape.Foreign q) (hnext : shape.handedOn p val = q)
    (hagree : agree ↔ shape.FirstPoisonLast none (val :: rest)) :
    SameAccu shape agree rest p q := by
  rw [LoopStepShape.FirstPoisonLast, hpoison] at hagree
  rw [← hnext] at hq ⊢
  exact .poison hp hq hagree

/-- Past what spoils the insertion, the poison is in both. -/
theorem sameAccu_of_spoil {p : CelValue} (hopen : shape.gate val = .bool true)
    (hspoil : shape.spoil val = some p)
    (hagree : agree ↔ shape.FirstPoisonLast none (val :: rest)) : SameAccu shape agree rest p p :=
  have hp := LoopStepShape.isPoison_of_spoil hspoil
  sameAccu_of_poison ((LoopStepShape.poison_of_open hopen).trans hspoil) hp
    (shape.foreign_of_isPoison hp) (LoopStepShape.handedOn_of_open hopen hp) hagree

/-- Past a gate that is no bool, it is what is handed on. -/
theorem sameAccu_of_gate (hg : (shape.gate val).isBoolKind = false)
    (hgate : shape.ForeignGate val)
    (hagree : agree ↔ shape.FirstPoisonLast none (val :: rest)) :
    SameAccu shape agree rest
      (if (shape.gate val).isPoison then shape.gate val else .error .typeMismatch)
      (shape.gate val) := by
  refine sameAccu_of_poison (LoopStepShape.poison_of_not_isBoolKind hg) ?_ hgate
    (LoopStepShape.handedOn_of_not_isBoolKind hg _) hagree
  split_ifs with hp
  · exact hp
  · rfl

/-- Past an iteration that does not poison, the condition is the one on the iterations to come. -/
theorem firstPoisonLast_cons_of_none (rest : List (Valuation α))
    (hpoison : shape.poison val = none) :
    shape.FirstPoisonLast none (val :: rest) ↔ shape.FirstPoisonLast none rest := by
  rw [LoopStepShape.FirstPoisonLast, hpoison]

/-- An append into a list with room, past an open gate. -/
theorem append_tied (host : CelHost) {capacity capacity' : ℕ} {elements : List CelValue}
    (hshape : shape.isInsertion = true) (hlist : shape.mapAccumulating = false)
    (hroom : elements.length + (val :: rest).length ≤ capacity) (hfit : capacity * 24 ≤ 2 ^ 32 - 8)
    (hagree : agree ↔ shape.FirstPoisonLast none (val :: rest))
    (hopen : shape.gate val = .bool true) :
    ∃ s' t', (shape.writeFused val (.listArena capacity elements)).granted = .ok s' ∧
      (shape.writeGeneric host val (.listArena capacity' elements)).granted = .ok t' ∧
      SameAccu shape agree rest s' t' := by
  obtain ⟨elem, hfused, hgeneric, hspoil⟩ : ∃ elem,
      (∀ accu, shape.writeFused val accu = celListAppendAt accu (val elem)) ∧
      (∀ accu, shape.writeGeneric host val accu
        = listLiteral val [elem] [] >>= celListConcat host accu) ∧
      shape.spoil val = (val elem).poison? := by
    cases shape with
    | listAppend elem => exact ⟨elem, fun _ => rfl, fun _ => rfl, rfl⟩
    | listAppendIf _ elem => exact ⟨elem, fun _ => rfl, fun _ => rfl, rfl⟩
    | mapInsert _ _ => exact absurd hlist.symm Bool.false_ne_true
    | mapInsertIf _ _ _ => exact absurd hlist.symm Bool.false_ne_true
    | _ => exact absurd hshape Bool.false_ne_true
  rw [List.length_cons] at hroom
  rw [hfused, hgeneric]
  simp only [Prog.granted_bind, granted_listLiteral_singleton]
  cases hp : (val elem).isPoison with
  | true =>
    rw [CelValue.poison?_of_isPoison hp] at hspoil
    refine ⟨val elem, val elem, ?_, ?_, sameAccu_of_spoil hopen hspoil hagree⟩
    · rw [celListAppendAt, hp]
      rfl
    · change (celListConcat host (.listArena capacity' elements) (val elem)).granted = _
      rw [celListConcat, unlessPoison, hp]
      rfl
  | false =>
    rw [CelValue.poison?_of_not_isPoison hp] at hspoil
    have hnone := (LoopStepShape.poison_of_open hopen).trans hspoil
    refine ⟨_, _, ?_, granted_celListConcat host ?_,
      .list hlist ?_ hfit (hagree.trans (firstPoisonLast_cons_of_none _ hnone))⟩
    · rw [celListAppendAt, hp, if_neg Bool.false_ne_true, if_neg (by omega)]
      rfl
    · simp only [List.length_cons, List.length_nil]
      omega
    · simp only [List.length_append, List.length_cons, List.length_nil]
      omega

/-- An insertion into a map with room, past an open gate. -/
theorem insert_tied (host : CelHost) {capacity : ℕ} {entries : List (CelValue × CelValue)}
    {index : Option MapIndex} (hshape : shape.isInsertion = true)
    (hmap : shape.mapAccumulating = true)
    (hroom : entries.length + (val :: rest).length ≤ capacity)
    (hagree : agree ↔ shape.FirstPoisonLast none (val :: rest))
    (hopen : shape.gate val = .bool true) :
    ∃ s' t', (shape.writeFused val (.mapArena capacity entries index)).granted = .ok s' ∧
      (shape.writeGeneric host val (.mapArena capacity entries index)).granted = .ok t' ∧
      SameAccu shape agree rest s' t' := by
  obtain ⟨key, value, hfused, hgeneric, hspoil⟩ : ∃ key value,
      (∀ accu, shape.writeFused val accu = celMapInsertAt accu (val key) (val value)) ∧
      (∀ accu, shape.writeGeneric host val accu = celMapInsertAt accu (val key) (val value)) ∧
      shape.spoil val = entrySpoil (val key) (val value) := by
    cases shape with
    | mapInsert key value => exact ⟨key, value, fun _ => rfl, fun _ => rfl, rfl⟩
    | mapInsertIf _ key value => exact ⟨key, value, fun _ => rfl, fun _ => rfl, rfl⟩
    | listAppend _ => exact absurd hmap Bool.false_ne_true
    | listAppendIf _ _ => exact absurd hmap Bool.false_ne_true
    | _ => exact absurd hshape Bool.false_ne_true
  rw [List.length_cons] at hroom
  rw [hfused, hgeneric]
  obtain ⟨hspoiled, hlive⟩ := mapInsertAtKernel_spec index (val key) (val value)
    (show entries.length < capacity by omega)
  cases hentry : entrySpoil (val key) (val value) with
  | some p =>
    have hkernel := hspoiled p hentry
    refine ⟨p, p, ?_, ?_, sameAccu_of_spoil hopen (hspoil.trans hentry) hagree⟩ <;>
      simp only [celMapInsertAt, hkernel, Prog.granted_pure]
  | none =>
    obtain ⟨entries', hlength, hkernel⟩ := hlive hentry
    have hnone := (LoopStepShape.poison_of_open hopen).trans (hspoil.trans hentry)
    refine ⟨.mapArena capacity entries' index, .mapArena capacity entries' index, ?_, ?_,
      .map hmap (by omega) (hagree.trans (firstPoisonLast_cons_of_none _ hnone))⟩ <;>
      simp only [celMapInsertAt, hkernel, Prog.granted_pure]

variable {host : CelHost} {accuVar : String} {step : Expr α}

/-- **One iteration** keeps the two accumulators tied. -/
theorem sameAccu_step (hshape : (classifyLoopStep step accuVar).isInsertion = true)
    (hopt : appendsOptional step accuVar = false)
    (hgate : (classifyLoopStep step accuVar).ForeignGate val) {s t : CelValue}
    (h : SameAccu (classifyLoopStep step accuVar) agree (val :: rest) s t) :
    ∃ s' t', (compLoopStep host accuVar val s step).granted = .ok s' ∧
      (genericStep host accuVar val t step).granted = .ok t' ∧
      SameAccu (classifyLoopStep step accuVar) agree rest s' t' := by
  rw [genericStep_eq_conditional host val t hshape hopt]
  cases h with
  | poison hp hq hagree =>
    rw [compLoopStep_poison host val hp hshape]
    exact ⟨s, _, rfl, granted_conditional_foreign host hshape hq,
      .poison hp (hq.handedOn hgate) hagree⟩
  | @list capacity capacity' elements hlist hroom hfit hagree =>
    rw [compLoopStep_listArena host val hshape hlist]
    obtain hg | hg | hg := (classifyLoopStep step accuVar).gate_cases val
    · rw [hg]
      exact append_tied host hshape hlist hroom hfit hagree hg
    · have hkept := firstPoisonLast_cons_of_none rest (LoopStepShape.poison_of_shut hg)
      rw [hg]
      exact ⟨_, _, rfl, rfl, .list hlist (by rw [List.length_cons] at hroom; omega) hfit
        (hagree.trans hkept)⟩
    · rw [ifBool_of_not_isBoolKind hg, conditional_of_not_isBoolKind hg]
      exact ⟨_, _, rfl, rfl, sameAccu_of_gate hg hgate hagree⟩
  | @map capacity entries index hmap hroom hagree =>
    rw [compLoopStep_mapArena host val hshape hmap]
    obtain hg | hg | hg := (classifyLoopStep step accuVar).gate_cases val
    · rw [hg]
      exact insert_tied host hshape hmap hroom hagree hg
    · have hkept := firstPoisonLast_cons_of_none rest (LoopStepShape.poison_of_shut hg)
      rw [hg]
      exact ⟨_, _, rfl, rfl, .map hmap (by rw [List.length_cons] at hroom; omega)
        (hagree.trans hkept)⟩
    · rw [ifBool_of_not_isBoolKind hg, conditional_of_not_isBoolKind hg]
      exact ⟨_, _, rfl, rfl, sameAccu_of_gate hg hgate hagree⟩

/-- With nothing to come, tied accumulators have the same contents where the runs agree. -/
theorem SameAccu.trimmed_eq_iff {s t : CelValue} (h : SameAccu shape agree [] s t) :
    s.trimmed = t.trimmed ↔ agree := by
  cases h with
  | list _ _ _ hagree => exact iff_of_true rfl (hagree.mpr trivial)
  | map _ _ hagree => exact iff_of_true rfl (hagree.mpr trivial)
  | poison hp _ hagree => exact (CelValue.trimmed_eq_trimmed_iff_of_isPoison hp).trans hagree.symm

/-- A created accumulator is tied to itself. -/
theorem sameAccu_of_create {vals : List (Valuation α)} {start : CelValue}
    (hcreate : (shape.create vals.length).granted = .ok start) :
    SameAccu shape (shape.FirstPoisonLast start.poison? vals) vals start start := by
  unfold LoopStepShape.create at hcreate
  split_ifs at hcreate with hmap
  · rw [granted_celMapCreate] at hcreate
    split_ifs at hcreate with hfit
    · obtain rfl := Except.ok.inj hcreate
      exact .map hmap (by simp) Iff.rfl
    · obtain rfl := Except.ok.inj hcreate
      exact .poison rfl (shape.foreign_of_isPoison rfl) LoopStepShape.firstPoisonLast_some
  · rw [granted_celListCreate] at hcreate
    split_ifs at hcreate with hfit
    · obtain rfl := Except.ok.inj hcreate
      exact .list (Bool.eq_false_of_not_eq_true hmap) (by simp) hfit Iff.rfl
    · obtain rfl := Except.ok.inj hcreate
      exact .poison rfl (shape.foreign_of_isPoison rfl) LoopStepShape.firstPoisonLast_some

/-- **A run** leaves the two accumulators tied, with what is behind it still to come. -/
theorem sameAccu_run (host : CelHost)
    (hshape : (classifyLoopStep step accuVar).isInsertion = true)
    (hopt : appendsOptional step accuVar = false) {vals behind : List (Valuation α)}
    {start : CelValue} (hgates : ∀ val ∈ vals, (classifyLoopStep step accuVar).ForeignGate val)
    (h : SameAccu (classifyLoopStep step accuVar) agree (vals ++ behind) start start) :
    ∃ fused generic,
      (vals.foldlM (fun accu val => compLoopStep host accuVar val accu step) start).granted
          = .ok fused ∧
        (vals.foldlM (fun accu val => genericStep host accuVar val accu step) start).granted
          = .ok generic ∧
        SameAccu (classifyLoopStep step accuVar) agree behind fused generic := by
  obtain ⟨fused, generic, hfused, hgeneric, -, htied⟩ :=
    Prog.granted_foldlM_simulation
      (R := fun rest s t => (∀ val ∈ rest, (classifyLoopStep step accuVar).ForeignGate val) ∧
        SameAccu (classifyLoopStep step accuVar) agree (rest ++ behind) s t)
      (f := fun accu val => compLoopStep host accuVar val accu step)
      (g := fun accu val => genericStep host accuVar val accu step)
      (fun val rest s t ⟨hgates, h⟩ => by
        rw [List.forall_mem_cons] at hgates
        obtain ⟨s', t', hs, ht, h'⟩ := sameAccu_step hshape hopt hgates.1 h
        exact ⟨s', t', hs, ht, hgates.2, h'⟩) vals start start ⟨hgates, h⟩
  exact ⟨fused, generic, hfused, hgeneric, htied⟩

end Runs

/-- The step of `range.filter(x, x > 0)`, with the predicate a call. -/
def filterStep : Expr Unit :=
  .call () "_?_:_" false
    [.call () "_>_" false [.ident () "x", .const () (.int 0)],
      .call () "_+_" false [.ident () "@result", .list () [.ident () "x"] []],
      .ident () "@result"]

/-- One iteration of the filter: its predicate, and the element. -/
def filterIteration (pred x : CelValue) : Valuation Unit
  | .ident _ _ => x
  | _ => pred

section Apart

variable {host : CelHost} {accuVar : String} {step : Expr α} {val : Valuation α}

/-- **A last gate that is a container of the accumulator's kind sets them apart**: fused it is reported,
or meets the poison held; as written it is the result. -/
theorem fusedSteps_differ_of_container {vals : List (Valuation α)} {start : CelValue}
    (hshape : (classifyLoopStep step accuVar).isInsertion = true)
    (hopt : appendsOptional step accuVar = false)
    (hcreate : ((classifyLoopStep step accuVar).create (vals ++ [val]).length).granted = .ok start)
    (hgates : ∀ val ∈ vals, (classifyLoopStep step accuVar).ForeignGate val)
    (hcontainer : ¬(classifyLoopStep step accuVar).ForeignGate val) :
    ∃ fused generic,
      ((vals ++ [val]).foldlM (fun accu val => compLoopStep host accuVar val accu step)
          start).granted = .ok fused ∧
        ((vals ++ [val]).foldlM (fun accu val => genericStep host accuVar val accu step)
          start).granted = .ok generic ∧
        fused.isPoison = true ∧ generic.isPoison = false := by
  have hbool : ((classifyLoopStep step accuVar).gate val).isBoolKind = false := by
    rw [LoopStepShape.ForeignGate, LoopStepShape.Foreign] at hcontainer
    generalize (classifyLoopStep step accuVar).gate val = g at hcontainer ⊢
    cases g <;> first | rfl | exact absurd (ite_self false) hcontainer
  have hpoison : ((classifyLoopStep step accuVar).gate val).isPoison = false :=
    Bool.eq_false_of_not_eq_true fun hp => hcontainer (LoopStepShape.foreign_of_isPoison _ hp)
  obtain ⟨s, t, hs, ht, htied⟩ :=
    sameAccu_run host hshape hopt hgates (sameAccu_of_create hcreate)
  have hlast : ∃ fused, (compLoopStep host accuVar val s step).granted = .ok fused ∧
      fused.isPoison = true := by
    cases htied with
    | list hlist =>
      rw [compLoopStep_listArena host val hshape hlist, ifBool_of_not_isBoolKind hbool, hpoison]
      exact ⟨_, rfl, rfl⟩
    | map hmap =>
      rw [compLoopStep_mapArena host val hshape hmap, ifBool_of_not_isBoolKind hbool, hpoison]
      exact ⟨_, rfl, rfl⟩
    | poison hp =>
      rw [compLoopStep_poison host val hp hshape]
      exact ⟨s, rfl, hp⟩
  obtain ⟨fused, hfused, hp⟩ := hlast
  refine ⟨fused, (classifyLoopStep step accuVar).gate val, ?_, ?_, hp, hpoison⟩
  · rw [List.foldlM_append, Prog.granted_bind, hs]
    change (compLoopStep host accuVar val s step >>= pure).granted = _
    rw [bind_pure, hfused]
  · rw [List.foldlM_append, Prog.granted_bind, ht]
    change (genericStep host accuVar val t step >>= pure).granted = _
    rw [bind_pure, genericStep_eq_conditional host val t hshape hopt,
      conditional_of_not_isBoolKind hbool]
    rfl

/-- What a list literal makes of one element flagged optional: the element held, if there is one, or
poison. -/
theorem granted_listLiteral_optional (val : Valuation α) (elem : Expr α) {optionals : List Bool}
    (hflag : optionals.getD 0 false = true) :
    ∃ v, (listLiteral val [elem] optionals).granted = .ok v ∧
      (v.isPoison = true ∨ v = .listArena 1 [] ∨
        ∃ w, val elem = .optional (some w) ∧ v = .listArena 1 [w]) := by
  have hliteral : (listLiteral val [elem] optionals).granted
      = (celListAppendAtIfPresent (.listArena 1 []) (val elem)).granted := by
    rw [List.getD_eq_getElem?_getD] at hflag
    simp [listLiteral, celListCreate, kCelListEntryStride, hflag]
    rfl
  rw [hliteral, celListAppendAtIfPresent]
  cases hval : val elem with
  | optional o =>
    cases o with
    | none => exact ⟨_, rfl, .inr (.inl rfl)⟩
    | some w =>
      rw [ifPresent, celListAppendAt]
      cases hw : w.isPoison with
      | true => exact ⟨w, rfl, .inl hw⟩
      | false => exact ⟨_, rfl, .inr (.inr ⟨w, rfl, rfl⟩)⟩
  | _ => exact ⟨_, rfl, .inl rfl⟩

/-- **An element flagged optional sets them apart** where it is the first to be appended: fused it goes
in as it is, as written what it holds does, if anything. -/
theorem fusedSteps_differ_of_optional
    (hshape : (classifyLoopStep step accuVar).isInsertion = true)
    (hopt : appendsOptional step accuVar = true)
    (hopen : (classifyLoopStep step accuVar).gate val = .bool true)
    (hspoil : (classifyLoopStep step accuVar).spoil val = none) :
    ∃ fused generic,
      (compLoopStep host accuVar val (.listArena 1 []) step).granted = .ok fused ∧
        (genericStep host accuVar val (.listArena 1 []) step).granted = .ok generic ∧
        fused.trimmed ≠ generic.trimmed := by
  have hlist : (classifyLoopStep step accuVar).mapAccumulating = false := by
    refine Bool.eq_false_of_not_eq_true fun hmap => ?_
    have hplain := (genericStep_insert_eq_conditional host val (.listArena 1 []) hshape hmap).1
    exact Bool.false_ne_true (hplain.symm.trans hopt)
  obtain ⟨elem, optionals, hflag, hclass, hgeneric⟩ :=
    genericStep_append_eq_conditional host val hshape hlist
  rw [hopt] at hflag
  obtain ⟨hfused, hspoilElem⟩ : (∀ accu, (classifyLoopStep step accuVar).writeFused val accu
        = celListAppendAt accu (val elem)) ∧
      (classifyLoopStep step accuVar).spoil val = (val elem).poison? := by
    obtain hclass | ⟨pred, hclass⟩ := hclass <;> rw [hclass] <;> exact ⟨fun _ => rfl, rfl⟩
  have hlive : (val elem).isPoison = false := by
    rw [hspoilElem, CelValue.poison?] at hspoil
    refine Bool.eq_false_of_not_eq_true fun hp => ?_
    exact Option.some_ne_none _ ((if_pos hp).symm.trans hspoil)
  have hheld : (compLoopStep host accuVar val (.listArena 1 []) step).granted
      = .ok (.listArena 1 [val elem]) := by
    rw [compLoopStep_listArena host val hshape hlist, hopen, hfused, celListAppendAt, hlive]
    rfl
  obtain ⟨v, hv, hcases⟩ := granted_listLiteral_optional val elem hflag
  have hwritten : (genericStep host accuVar val (.listArena 1 []) step).granted
      = (celListConcat host (.listArena 1 []) v).granted := by
    rw [hgeneric, hopen]
    change (listLiteral val [elem] optionals >>= celListConcat host (.listArena 1 [])).granted = _
    rw [Prog.granted_bind, hv]
    rfl
  obtain hp | rfl | ⟨w, hw, rfl⟩ := hcases
  · refine ⟨_, v, hheld, ?_, fun hsame => ?_⟩
    · rw [hwritten, celListConcat, unlessPoison, hp]
      rfl
    · rw [← (CelValue.trimmed_eq_trimmed_iff_of_isPoison hp).mp hsame.symm] at hp
      exact absurd hp Bool.false_ne_true
  · refine ⟨_, .listArena 0 [], hheld, hwritten.trans (granted_celListConcat host (by decide)), ?_⟩
    simp [CelValue.trimmed]
  · refine ⟨_, .listArena 1 [w], hheld, hwritten.trans (granted_celListConcat host (by simp)),
      fun hsame => ?_⟩
    have helement : val elem = w := by simpa [CelValue.trimmed] using hsame
    rw [hw] at helement
    have hsize := congrArg sizeOf helement
    simp only [CelValue.optional.sizeOf_spec, Option.some.sizeOf_spec] at hsize
    omega

end Apart

/-- As written, a refused block is an error; fused, none is asked for. -/
example : (compLoopStep .stubs "@result" (filterIteration (.bool true) (.int 7)) (.listArena 1 [])
      filterStep).run (fun _ => false) [] = .ok (.listArena 1 [.int 7]) ∧
    (genericStep .stubs "@result" (filterIteration (.bool true) (.int 7)) (.listArena 1 [])
      filterStep).run (fun _ => false) [] = .ok (.error .overflow) := ⟨rfl, rfl⟩

end CelWasm
