import CelWasm.Compiler.AstTraverse
import CelWasm.Compiler.IdentResolver
import CelWasm.Eval.Attribute
import CelWasm.Library.Interning

/-!
# Compiler/AttributePaths — the ids of the paths in an expression

An identifier of a free variable is a path, and so is a field selected from a path; a path is interned
under its text, the variable and behind a bar the fields with dots between them. So two nodes are
stamped with one id exactly when their paths have one text. That is when the paths are the same,
unless they clash (`attributeIds_injective_iff`): a field may have a dot in it, and a variable may be
written with a dot before it.

    x.a.b  ──▸  x|a.b  ◂──  x.`a.b`        .y  ──▸  .y|        y  ──▸  y|
-/

namespace CelWasm

/-! ## The walk -/

/-- The fields of a path with dots between them. -/
def Attribute.dotted (path : Attribute) : String := ".".intercalate path.qualifierPath

/-- The key of `Intern`. -/
def Attribute.internKey (path : Attribute) : String := path.variableName ++ "|" ++ path.dotted

/-- A field below a path. -/
def Attribute.select (path : Attribute) (field : String) : Attribute :=
  { path with qualifierPath := path.qualifierPath ++ [field] }

/-- `AttributePathResolver`: the table of paths, and the id each node has been stamped with. -/
structure AttributeState where
  table : InternTable Attribute String
  attributeId : ℤ → ℕ

namespace AttributeState

/-- The state the walk starts in; row 0 stands for no path. -/
def initial : AttributeState := ⟨⟨[⟨"", []⟩], []⟩, fun _ => 0⟩

/-- A node is stamped with the id of a path, which `Intern` finds or makes. -/
def stamp (id : ℤ) (path : Attribute) (s : AttributeState) : AttributeState where
  table := (s.table.intern path.internKey path).2
  attributeId := Function.update s.attributeId id (s.table.intern path.internKey path).1

variable (scopeId : ℤ → ℕ)

/-- **`PostVisitIdent`** and **`PostVisitSelect`**, by the scopes that identifiers are in: 0 is that of
a free variable. -/
def postVisit (s : AttributeState) : Expr ℤ → AttributeState
  | .ident id name =>
    if scopeId id ≠ 0 then { s with attributeId := Function.update s.attributeId id 0 }
    else s.stamp id ⟨name, []⟩
  | .select id operand field _ =>
    if s.attributeId operand.ann = 0 then s
    else
      match s.table.rows[s.attributeId operand.ann]? with
      | some base => s.stamp id (base.select field)
      | none => s  -- an id past the rows is never stamped
  | _ => s

end AttributeState

/-- **The walk of `AttributePathResolver`.** -/
def resolveAttributes (scopeId : ℤ → ℕ) (e : Expr ℤ) : AttributeState :=
  e.postOrder.foldl (AttributeState.postVisit scopeId) .initial

/-! ## Paths -/

/-- **The path of a node**: an identifier of a free variable, and the fields selected from it. -/
def attributePath (scopeId : ℤ → ℕ) : Expr ℤ → Option Attribute
  | .ident id name => if scopeId id ≠ 0 then none else some ⟨name, []⟩
  | .select _ operand field _ => (attributePath scopeId operand).map fun path => path.select field
  | _ => none

/-- **What a path denotes**: the variable is the same with and without a dot before it. -/
def Attribute.denoted (path : Attribute) : Attribute :=
  { path with variableName := (leadingDot path.variableName).getD path.variableName }

/-- **Two paths clash**: their fields are not the same, but read alike with dots between them; or
their variables are not the same, but one is written with a dot before it; or one variable has a bar
in its name, and the fields of the other begin with what is behind the bar. -/
def Attribute.Clash (a b : Attribute) : Prop :=
  (a.variableName = b.variableName ∧ a.qualifierPath ≠ b.qualifierPath ∧ a.dotted = b.dotted) ∨
  (a.variableName ≠ b.variableName ∧ a.denoted = b.denoted) ∨
  (∃ behind, a.variableName = b.variableName ++ "|" ++ behind ∧
    b.dotted = behind ++ "|" ++ a.dotted) ∨
  ∃ behind, b.variableName = a.variableName ++ "|" ++ behind ∧
    a.dotted = behind ++ "|" ++ b.dotted

namespace Attribute

variable {a b : Attribute}

/-- When two texts of two parts with a bar between them are alike. -/
theorem append_bar_inj {r j r' j' : List Char} :
    r ++ '|' :: j = r' ++ '|' :: j' ↔
      (r = r' ∧ j = j') ∨ (∃ m, r = r' ++ '|' :: m ∧ j' = m ++ '|' :: j) ∨
        ∃ m, r' = r ++ '|' :: m ∧ j = m ++ '|' :: j' := by
  rw [List.append_eq_append_iff]
  constructor
  · rintro (⟨t, rfl, ht⟩ | ⟨t, rfl, ht⟩) <;> cases t with
    | nil =>
      rw [List.nil_append, List.cons.injEq] at ht
      simp [ht.2]
    | cons c t =>
      rw [List.cons_append, List.cons.injEq] at ht
      obtain ⟨rfl, rfl⟩ := ht
      simp
  · rintro (⟨rfl, rfl⟩ | ⟨m, rfl, rfl⟩ | ⟨m, rfl, rfl⟩)
    · exact .inl ⟨[], by simp⟩
    · exact .inr ⟨'|' :: m, by simp⟩
    · exact .inl ⟨'|' :: m, by simp⟩

/-- **Paths of one key** are the same path, or clash. -/
theorem internKey_eq_iff : a.internKey = b.internKey ↔
    (a.variableName = b.variableName ∧ a.dotted = b.dotted) ∨
    (∃ behind, a.variableName = b.variableName ++ "|" ++ behind ∧
      b.dotted = behind ++ "|" ++ a.dotted) ∨
    ∃ behind, b.variableName = a.variableName ++ "|" ++ behind ∧
      a.dotted = behind ++ "|" ++ b.dotted := by
  have htext : ∀ t u : String, (t ++ "|" ++ u).toList = t.toList ++ '|' :: u.toList := by simp
  have hexists : ∀ P : List Char → Prop, (∃ m, P m) ↔ ∃ behind : String, P behind.toList :=
    fun P => ⟨fun ⟨m, hm⟩ => ⟨String.ofList m, by simpa using hm⟩, fun ⟨_, hb⟩ => ⟨_, hb⟩⟩
  rw [internKey, internKey, ← String.toList_inj, htext, htext, append_bar_inj, hexists, hexists]
  simp only [← htext, String.toList_inj]

/-- Paths of one key that denote the same are the same. -/
theorem eq_of_internKey (hkey : a.internKey = b.internKey)
    (hpath : a.qualifierPath = b.qualifierPath) : a = b := by
  rw [internKey, internKey, dotted, dotted, hpath] at hkey
  have hname := String.toList_inj.mpr hkey
  rw [String.toList_append, String.toList_append, String.toList_append, String.toList_append] at hname
  obtain ⟨variableName, qualifierPath⟩ := a
  obtain ⟨variableName', qualifierPath'⟩ := b
  obtain rfl : qualifierPath = qualifierPath' := hpath
  exact congrArg (Attribute.mk · _) (String.toList_inj.mp
    (List.append_cancel_right (List.append_cancel_right hname)))

/-- A bar behind a text makes another text of it. -/
theorem ne_append_bar {name behind : String} : name ≠ name ++ "|" ++ behind := fun h => by
  have hlength := congrArg String.length h
  simp only [String.length_append] at hlength
  have : "|".length = 1 := rfl
  omega

/-- **Two paths clash** when they are not the same, but have one key or denote the same. -/
theorem clash_iff : a.Clash b ↔ a ≠ b ∧ (a.internKey = b.internKey ∨ a.denoted = b.denoted) := by
  rw [Clash, internKey_eq_iff]
  constructor
  · rintro (⟨hname, hpath, hdotted⟩ | ⟨hname, hdenoted⟩ | ⟨behind, hname, hdotted⟩ |
      ⟨behind, hname, hdotted⟩)
    · exact ⟨fun h => hpath (h ▸ rfl), .inl (.inl ⟨hname, hdotted⟩)⟩
    · exact ⟨fun h => hname (h ▸ rfl), .inr hdenoted⟩
    · exact ⟨fun h => ne_append_bar (h ▸ hname), .inl (.inr (.inl ⟨behind, hname, hdotted⟩))⟩
    · exact ⟨fun h => ne_append_bar (h ▸ hname), .inl (.inr (.inr ⟨behind, hname, hdotted⟩))⟩
  · rintro ⟨hne, (⟨hname, hdotted⟩ | hbehind | hbehind) | hdenoted⟩
    · refine .inl ⟨hname, fun hpath => hne ?_, hdotted⟩
      exact eq_of_internKey (internKey_eq_iff.mpr (.inl ⟨hname, hdotted⟩)) hpath
    · exact .inr (.inr (.inl hbehind))
    · exact .inr (.inr (.inr hbehind))
    · refine .inr (.inl ⟨fun hname => hne ?_, hdenoted⟩)
      obtain ⟨variableName, qualifierPath⟩ := a
      obtain ⟨variableName', qualifierPath'⟩ := b
      obtain rfl : variableName = variableName' := hname
      exact congrArg (Attribute.mk _) (congrArg Attribute.qualifierPath hdenoted)

end Attribute

/-! ## The order of the walk -/

/-- **Operands come before what selects from them.** -/
def OperandsBefore : List (Expr ℤ) → List (Expr ℤ) → Prop
  | _, [] => True
  | seen, n :: rest =>
    (∀ id operand field testOnly, n = .select id operand field testOnly → operand ∈ seen) ∧
      OperandsBefore (seen ++ [n]) rest

theorem operandsBefore_append {seen xs ys : List (Expr ℤ)} (hxs : OperandsBefore seen xs)
    (hys : OperandsBefore (seen ++ xs) ys) : OperandsBefore seen (xs ++ ys) := by
  induction xs generalizing seen with
  | nil => rwa [List.append_nil] at hys
  | cons x xs ih =>
    refine ⟨hxs.1, ih hxs.2 ?_⟩
    rwa [List.append_assoc]

/-- **Operands come first** in the order in which nodes are left. -/
theorem operandsBefore_postOrder (e : Expr ℤ) (seen : List (Expr ℤ)) :
    OperandsBefore seen e.postOrder := by
  induction e using Expr.children_induction generalizing seen with
  | h e ih =>
    have hchildren : ∀ (es : List (Expr ℤ)) (seen : List (Expr ℤ)), (∀ c ∈ es, c ∈ e.children) →
        OperandsBefore seen (es.flatMap Expr.postOrder) := by
      intro es
      induction es with
      | nil => exact fun _ _ => trivial
      | cons c es ihs =>
        intro seen hes
        rw [List.flatMap_cons]
        exact operandsBefore_append (ih c (hes c List.mem_cons_self) seen)
          (ihs _ fun c' hc' => hes c' (List.mem_cons_of_mem _ hc'))
    rw [postOrder_eq]
    refine operandsBefore_append (hchildren e.children seen fun _ hc => hc) ⟨?_, trivial⟩
    rintro id operand field testOnly rfl
    refine List.mem_append_right _ ?_
    exact List.mem_flatMap.mpr ⟨operand, List.mem_singleton_self _, mem_postOrder_self operand⟩

/-! ## What has been stamped -/

section Stamping

variable {scopeId : ℤ → ℕ} {seen rest : List (Expr ℤ)} {s s' : AttributeState}
  {n : Expr ℤ}

/-- **The nodes that have been left are stamped**: those with a path with the id of a row, the others
with 0. -/
structure Stamped (scopeId : ℤ → ℕ) (seen : List (Expr ℤ)) (s : AttributeState) : Prop where
  sound : s.table.Sound Attribute.internKey
  fresh : ∀ id ∉ seen.map Expr.ann, s.attributeId id = 0
  pathless : ∀ n ∈ seen, attributePath scopeId n = none → s.attributeId n.ann = 0
  row : ∀ n ∈ seen, ∀ a, attributePath scopeId n = some a →
    0 < s.attributeId n.ann ∧ ∃ row, s.table.rows[s.attributeId n.ann]? = some row

/-- **The rows are the paths of the nodes.** -/
structure Exact (scopeId : ℤ → ℕ) (seen : List (Expr ℤ)) (s : AttributeState) : Prop where
  row : ∀ n ∈ seen, ∀ a, attributePath scopeId n = some a →
    s.table.rows[s.attributeId n.ann]? = some a
  origin : ∀ r ∈ s.table.rows.tail, ∃ n ∈ seen, attributePath scopeId n = some r

/-- What a step keeps: the ids of the nodes before, and the rows. -/
structure Keeps (seen : List (Expr ℤ)) (s s' : AttributeState) : Prop where
  ids : ∀ m ∈ seen, s'.attributeId m.ann = s.attributeId m.ann
  rows : s.table.rows <+: s'.table.rows

theorem Keeps.row (h : Keeps seen s s') {m : Expr ℤ} (hm : m ∈ seen) {r : Attribute}
    (hr : s.table.rows[s.attributeId m.ann]? = some r) :
    s'.table.rows[s'.attributeId m.ann]? = some r := by
  rw [h.ids m hm]
  obtain ⟨added, hadded⟩ := h.rows
  obtain ⟨hlt, -⟩ := List.getElem?_eq_some_iff.mp hr
  rw [← hadded, List.getElem?_append_left hlt, hr]

/-- **What a step does**: it stamps a node that has a path, and leaves all as it is at any other. -/
theorem Stamped.postVisit_eq (h : Stamped scopeId seen s) (hnew : n.ann ∉ seen.map Expr.ann)
    (hoperand : ∀ id operand field testOnly, n = .select id operand field testOnly →
      operand ∈ seen) :
    (attributePath scopeId n = none ∧ s.postVisit scopeId n = s) ∨
      ∃ a path, attributePath scopeId n = some a ∧ s.postVisit scopeId n = s.stamp n.ann path ∧
        (Exact scopeId seen s → path = a) := by
  cases n with
  | ident id name =>
    by_cases hscope : scopeId id = 0
    · exact .inr ⟨_, _, if_neg (not_not_intro hscope), if_neg (not_not_intro hscope), fun _ => rfl⟩
    · have hzero := Function.update_eq_self id s.attributeId
      rw [h.fresh id hnew] at hzero
      refine .inl ⟨if_pos hscope, (if_pos hscope).trans ?_⟩
      rw [hzero]
  | select id operand field testOnly =>
    have hmem := hoperand id operand field testOnly rfl
    cases hpath : attributePath scopeId operand with
    | none =>
      exact .inl ⟨by rw [attributePath, hpath]; rfl, if_pos (h.pathless operand hmem hpath)⟩
    | some a =>
      obtain ⟨hpos, row, hrow⟩ := h.row operand hmem a hpath
      refine .inr ⟨a.select field, row.select field, by rw [attributePath, hpath]; rfl, ?_,
        fun hexact => ?_⟩
      · refine (if_neg hpos.ne').trans ?_
        rw [hrow]
        rfl
      · rw [Option.some.inj (hrow.symm.trans (hexact.row operand hmem a hpath))]
  | _ => exact .inl ⟨rfl, rfl⟩

/-- A node that is stamped. -/
theorem Stamped.stamp (h : Stamped scopeId seen s) (hnew : n.ann ∉ seen.map Expr.ann) {a : Attribute}
    (hpath : attributePath scopeId n = some a) (path : Attribute) :
    Stamped scopeId (seen ++ [n]) (s.stamp n.ann path) ∧ Keeps seen s (s.stamp n.ann path) := by
  obtain ⟨hsound, hprefix, hpos, found, hfound, -⟩ := h.sound.intern path
  have hsame : ∀ m ∈ seen, (s.stamp n.ann path).attributeId m.ann = s.attributeId m.ann :=
    fun m hm => Function.update_of_ne
      (fun hann : m.ann = n.ann => hnew (hann ▸ List.mem_map_of_mem hm)) _ _
  have hkeeps : Keeps seen s (s.stamp n.ann path) := ⟨hsame, hprefix⟩
  have hself : (s.stamp n.ann path).attributeId n.ann = (s.table.intern path.internKey path).1 :=
    Function.update_self ..
  refine ⟨⟨hsound, fun id hid => ?_, fun m hm hnone => ?_, fun m hm b hb => ?_⟩, hkeeps⟩
  · simp only [List.map_append, List.mem_append, List.map_singleton, List.mem_singleton,
      not_or] at hid
    exact (Function.update_of_ne hid.2 _ _).trans (h.fresh id hid.1)
  · obtain hm | hm := List.mem_append.mp hm
    · exact (hsame m hm).trans (h.pathless m hm hnone)
    · obtain rfl := List.mem_singleton.mp hm
      exact nomatch hnone.symm.trans hpath
  · obtain hm | hm := List.mem_append.mp hm
    · obtain ⟨hpos, row, hrow⟩ := h.row m hm b hb
      exact ⟨(hsame m hm).symm ▸ hpos, row, hkeeps.row hm hrow⟩
    · obtain rfl := List.mem_singleton.mp hm
      rw [hself]
      exact ⟨hpos, found, hfound⟩

/-- A node without a path. -/
theorem Stamped.skip (h : Stamped scopeId seen s) (hnew : n.ann ∉ seen.map Expr.ann)
    (hpath : attributePath scopeId n = none) : Stamped scopeId (seen ++ [n]) s := by
  refine ⟨h.sound, fun id hid => h.fresh id fun hmem => hid ?_, fun m hm hnone => ?_,
    fun m hm b hb => ?_⟩
  · exact List.map_append ▸ List.mem_append_left _ hmem
  · obtain hm | hm := List.mem_append.mp hm
    · exact h.pathless m hm hnone
    · obtain rfl := List.mem_singleton.mp hm
      exact h.fresh _ hnew
  · obtain hm | hm := List.mem_append.mp hm
    · exact h.row m hm b hb
    · obtain rfl := List.mem_singleton.mp hm
      exact nomatch hpath.symm.trans hb

/-- **One step.** -/
theorem Stamped.step (h : Stamped scopeId seen s) (hnew : n.ann ∉ seen.map Expr.ann)
    (hoperand : ∀ id operand field testOnly, n = .select id operand field testOnly →
      operand ∈ seen) :
    Stamped scopeId (seen ++ [n]) (s.postVisit scopeId n) ∧
      Keeps seen s (s.postVisit scopeId n) := by
  obtain ⟨hpath, hstep⟩ | ⟨a, path, hpath, hstep, -⟩ := h.postVisit_eq hnew hoperand
  · rw [hstep]
    exact ⟨h.skip hnew hpath, ⟨fun _ _ => rfl, List.prefix_rfl⟩⟩
  · rw [hstep]
    exact h.stamp hnew hpath path

/-- **One step of an exact table**: a node with a path has the id of a row of its key. If that row is
its path, the table stays exact. -/
theorem Exact.step (h : Stamped scopeId seen s) (hexact : Exact scopeId seen s)
    (hnew : n.ann ∉ seen.map Expr.ann)
    (hoperand : ∀ id operand field testOnly, n = .select id operand field testOnly →
      operand ∈ seen)
    (hfound : ∀ a found, attributePath scopeId n = some a →
      (s.postVisit scopeId n).table.rows[(s.postVisit scopeId n).attributeId n.ann]? = some found →
      found.internKey = a.internKey → (∃ m ∈ seen, attributePath scopeId m = some found) →
      found = a) :
    Exact scopeId (seen ++ [n]) (s.postVisit scopeId n) := by
  have hkeeps := (h.step hnew hoperand).2
  obtain ⟨hpath, hstep⟩ | ⟨a, path, hpath, hstep, heq⟩ := h.postVisit_eq hnew hoperand
  · rw [hstep]
    refine ⟨fun m hm b hb => ?_, fun r hr => ?_⟩
    · obtain hm | hm := List.mem_append.mp hm
      · exact hexact.row m hm b hb
      · obtain rfl := List.mem_singleton.mp hm
        exact nomatch hpath.symm.trans hb
    · obtain ⟨m, hm, hr⟩ := hexact.origin r hr
      exact ⟨m, List.mem_append_left _ hm, hr⟩
  · obtain rfl := heq hexact
    obtain ⟨-, -, -, found, hrow, hkey, horigin, hrows⟩ := h.sound.intern path
    have hself : (s.stamp n.ann path).attributeId n.ann
        = (s.table.intern path.internKey path).1 := Function.update_self ..
    rw [hstep] at hfound hkeeps ⊢
    rw [hself] at hfound
    obtain rfl : found = path := by
      obtain hsame | hold := horigin
      · exact hsame
      · exact hfound path found hpath hrow hkey (hexact.origin found hold)
    refine ⟨fun m hm b hb => ?_, fun r hr => ?_⟩
    · obtain hm | hm := List.mem_append.mp hm
      · exact hkeeps.row hm (hexact.row m hm b hb)
      · obtain rfl := List.mem_singleton.mp hm
        rw [hself, Option.some.inj (hb.symm.trans hpath)]
        exact hrow
    · obtain hold | rfl := hrows r hr
      · obtain ⟨m, hm, hr⟩ := hexact.origin r hold
        exact ⟨m, List.mem_append_left _ hm, hr⟩
      · exact ⟨n, List.mem_append_right _ (List.mem_singleton.mpr rfl), hpath⟩

/-- The ids of two lists of nodes, one after the other, are not alike. -/
theorem ann_not_mem {n : Expr ℤ} (h : ((seen ++ n :: rest).map Expr.ann).Nodup) :
    n.ann ∉ seen.map Expr.ann := by
  rw [List.map_append, List.nodup_append] at h
  exact fun hmem => h.2.2 _ hmem _ (List.mem_map_of_mem List.mem_cons_self) rfl

/-- **A run** over nodes that come after their operands. -/
theorem Stamped.run (h : Stamped scopeId seen s) (hids : ((seen ++ rest).map Expr.ann).Nodup)
    (hbefore : OperandsBefore seen rest) :
    Stamped scopeId (seen ++ rest) (rest.foldl (AttributeState.postVisit scopeId) s) ∧
      Keeps seen s (rest.foldl (AttributeState.postVisit scopeId) s) := by
  induction rest generalizing seen s with
  | nil =>
    rw [List.append_nil]
    exact ⟨h, ⟨fun _ _ => rfl, List.prefix_rfl⟩⟩
  | cons n rest ih =>
    obtain ⟨hstep, hkeeps⟩ := h.step (ann_not_mem hids) hbefore.1
    rw [List.append_cons] at hids ⊢
    obtain ⟨hrun, hkeeps'⟩ := ih hstep hids hbefore.2
    exact ⟨hrun, fun m hm => (hkeeps'.ids m (List.mem_append_left _ hm)).trans (hkeeps.ids m hm),
      hkeeps.rows.trans hkeeps'.rows⟩

/-- **A run of an exact table** stays exact, if paths of one key that end up with one id are the
same. -/
theorem Exact.run (h : Stamped scopeId seen s) (hexact : Exact scopeId seen s)
    (hids : ((seen ++ rest).map Expr.ann).Nodup) (hbefore : OperandsBefore seen rest)
    (hsame : ∀ n ∈ seen ++ rest, ∀ m ∈ seen ++ rest, ∀ a b, attributePath scopeId n = some a →
      attributePath scopeId m = some b → b.internKey = a.internKey →
      (rest.foldl (AttributeState.postVisit scopeId) s).attributeId n.ann
        = (rest.foldl (AttributeState.postVisit scopeId) s).attributeId m.ann → b = a) :
    Exact scopeId (seen ++ rest) (rest.foldl (AttributeState.postVisit scopeId) s) := by
  induction rest generalizing seen s with
  | nil =>
    rw [List.append_nil]
    exact hexact
  | cons n rest ih =>
    have hnew := ann_not_mem hids
    obtain ⟨hstep, hkeeps⟩ := h.step hnew hbefore.1
    have hafter : (seen ++ [n] ++ rest) = seen ++ n :: rest := (List.append_cons ..).symm
    have hrun := (hstep.run (hafter.symm ▸ hids) hbefore.2).2
    rw [← hafter] at hids hsame ⊢
    refine ih hstep (hexact.step h hnew hbefore.1 ?_) hids hbefore.2 hsame
    rintro a found ha hfound hkey ⟨m, hm, hb⟩
    have hn : n ∈ seen ++ [n] := List.mem_append_right _ (List.mem_singleton.mpr rfl)
    have hm' : m ∈ seen ++ [n] := List.mem_append_left _ hm
    refine hsame n (List.mem_append_left _ hn) m (List.mem_append_left _ hm') a found ha hb hkey ?_
    -- the two ids are those of one row already here, and no later step changes them
    refine (hrun.ids n hn).trans (Eq.trans ?_ (hrun.ids m hm').symm)
    exact hstep.sound.id_unique (hstep.row n hn a ha).1 (hstep.row m hm' found hb).1 hfound
      (hkeeps.row hm (hexact.row m hm found hb)) rfl

/-- In an exact table two paths have one id exactly when they are the same. -/
theorem Exact.attributeId_eq_iff (hexact : Exact scopeId seen s) (h : Stamped scopeId seen s)
    {n m : Expr ℤ} (hn : n ∈ seen) (hm : m ∈ seen) {a b : Attribute}
    (ha : attributePath scopeId n = some a) (hb : attributePath scopeId m = some b) :
    (s.attributeId n.ann = s.attributeId m.ann ↔ a = b) ∧ (a.internKey = b.internKey → a = b) := by
  have hrow := hexact.row n hn a ha
  have hrow' := hexact.row m hm b hb
  have hsame : s.attributeId n.ann = s.attributeId m.ann → a = b := fun hid => by
    rw [hid, hrow'] at hrow
    exact (Option.some.inj hrow).symm
  have hunique : a.internKey = b.internKey → s.attributeId n.ann = s.attributeId m.ann :=
    h.sound.id_unique (h.row n hn a ha).1 (h.row m hm b hb).1 hrow hrow'
  exact ⟨⟨hsame, fun heq => hunique (heq ▸ rfl)⟩, fun hkey => hsame (hunique hkey)⟩

end Stamping

/-! ## Ids -/

/-- **Attribute interning is injective exactly when no two paths clash.** Of an expression whose nodes
have ids of their own, the nodes with a path are those that are stamped; and two of them are stamped
alike exactly when they denote the same, for every two, if and only if no two of their paths clash. -/
theorem attributeIds_injective_iff (scopeId : ℤ → ℕ) (e : Expr ℤ)
    (hids : (e.postOrder.map Expr.ann).Nodup) :
    (∀ n ∈ e.postOrder, (resolveAttributes scopeId e).attributeId n.ann ≠ 0 ↔
      ∃ a, attributePath scopeId n = some a) ∧
    ((∀ n ∈ e.postOrder, ∀ m ∈ e.postOrder, ∀ a b, attributePath scopeId n = some a →
        attributePath scopeId m = some b →
        ((resolveAttributes scopeId e).attributeId n.ann
            = (resolveAttributes scopeId e).attributeId m.ann ↔ a.denoted = b.denoted)) ↔
      ∀ n ∈ e.postOrder, ∀ m ∈ e.postOrder, ∀ a b, attributePath scopeId n = some a →
        attributePath scopeId m = some b → ¬a.Clash b) := by
  have hinitial : Stamped scopeId [] .initial :=
    ⟨InternTable.sound_singleton _, fun _ _ => rfl, fun _ h => absurd h List.not_mem_nil,
      fun _ h => absurd h List.not_mem_nil⟩
  have hexactInitial : Exact scopeId [] .initial :=
    ⟨fun _ h => absurd h List.not_mem_nil, fun _ h => absurd h List.not_mem_nil⟩
  have hbefore := operandsBefore_postOrder e []
  have hstamped := (@Stamped.run scopeId [] e.postOrder _ hinitial hids hbefore).1
  have hrun := @Exact.run scopeId [] e.postOrder _ hinitial hexactInitial hids hbefore
  rw [List.nil_append] at hstamped hrun
  change Stamped scopeId _ (resolveAttributes scopeId e) at hstamped
  refine ⟨fun n hn => ?_, fun hclaim => ?_, fun hclash n hn m hm a b ha hb => ?_⟩
  · cases hpath : attributePath scopeId n with
    | none => simp [hstamped.pathless n hn hpath]
    | some a => simp [(hstamped.row n hn a hpath).1.ne']
  · have hexact := hrun fun n hn m hm a b ha hb hkey hid =>
      Attribute.eq_of_internKey hkey
        (congrArg Attribute.qualifierPath ((hclaim n hn m hm a b ha hb).mp hid)).symm
    rintro n hn m hm a b ha hb hclash
    obtain ⟨hne, hsame⟩ := Attribute.clash_iff.mp hclash
    obtain ⟨hid, hkey⟩ := hexact.attributeId_eq_iff hstamped hn hm ha hb
    obtain hsame | hsame := hsame
    · exact hne (hkey hsame)
    · exact hne (hid.mp ((hclaim n hn m hm a b ha hb).mpr hsame))
  · have hexact := hrun fun n hn m hm a b ha hb hkey _ => not_not.mp fun hne =>
      hclash m hm n hn b a hb ha (Attribute.clash_iff.mpr ⟨hne, .inl hkey⟩)
    refine (hexact.attributeId_eq_iff hstamped hn hm ha hb).1.trans
      ⟨fun heq => heq ▸ rfl, fun hdenoted => not_not.mp fun hne => ?_⟩
    exact hclash n hn m hm a b ha hb (Attribute.clash_iff.mpr ⟨hne, .inr hdenoted⟩)

/-- `[x.a.b, x.a.c, x.a.b]`. -/
def plainFieldsExpr : Expr ℤ :=
  .list 1 [.select 4 (.select 3 (.ident 2 "x") "a" false) "b" false,
    .select 7 (.select 6 (.ident 5 "x") "a" false) "c" false,
    .select 10 (.select 9 (.ident 8 "x") "a" false) "b" false] []

/-- `x.a.b` and a field of `x` with a dot in its name, in a list. -/
def dottedFieldExpr : Expr ℤ :=
  .list 1 [.select 4 (.select 3 (.ident 2 "x") "a" false) "b" false,
    .select 6 (.ident 5 "x") "a.b" false] []

/-- Of both lists: in the first the paths that are stamped alike are those that are the same. -/
theorem attributeIds_injective_iff_fields :
    (∀ n ∈ plainFieldsExpr.postOrder, ∀ m ∈ plainFieldsExpr.postOrder, ∀ a b,
      attributePath (fun _ => 0) n = some a → attributePath (fun _ => 0) m = some b →
      ((resolveAttributes (fun _ => 0) plainFieldsExpr).attributeId n.ann
        = (resolveAttributes (fun _ => 0) plainFieldsExpr).attributeId m.ann ↔
          a.denoted = b.denoted)) ∧
      (resolveAttributes (fun _ => 0) dottedFieldExpr).attributeId 6 ≠ 0 := by
  have hclash : ∀ a ∈ plainFieldsExpr.postOrder.filterMap (attributePath fun _ => 0),
      ∀ b ∈ plainFieldsExpr.postOrder.filterMap (attributePath fun _ => 0),
        ¬(a ≠ b ∧ (a.internKey = b.internKey ∨ a.denoted = b.denoted)) := by decide
  constructor
  · refine (attributeIds_injective_iff (fun _ => 0) plainFieldsExpr (by decide)).2.mpr ?_
    intro n hn m hm a b ha hb
    rw [Attribute.clash_iff]
    exact hclash a (List.mem_filterMap.mpr ⟨n, hn, ha⟩) b (List.mem_filterMap.mpr ⟨m, hm, hb⟩)
  · exact ((attributeIds_injective_iff (fun _ => 0) dottedFieldExpr (by decide)).1
      (.select 6 (.ident 5 "x") "a.b" false)
      (by simp [dottedFieldExpr, Expr.postOrder, postOrderList])).mpr ⟨⟨"x", ["a.b"]⟩, rfl⟩

/-- **Two fields with a dot between them and one field with a dot in its name** are stamped alike;
and a variable is stamped in two ways, with a dot before it and without. -/
theorem attributeIds_clash :
    ((resolveAttributes (fun _ => 0) dottedFieldExpr).attributeId 4
        = (resolveAttributes (fun _ => 0) dottedFieldExpr).attributeId 6 ∧
      attributePath (fun _ => 0) (.select 4 (.select 3 (.ident 2 "x") "a" false) "b" false)
        = some ⟨"x", ["a", "b"]⟩ ∧
      attributePath (fun _ => 0) (.select 6 (.ident 5 "x") "a.b" false) = some ⟨"x", ["a.b"]⟩) ∧
    (resolveAttributes (fun _ => 0) (.list 1 [.ident 2 ".y", .ident 3 "y"] [])).attributeId 2
        ≠ (resolveAttributes (fun _ => 0) (.list 1 [.ident 2 ".y", .ident 3 "y"] [])).attributeId 3 ∧
      (⟨".y", []⟩ : Attribute).denoted = (⟨"y", []⟩ : Attribute).denoted := by
  refine ⟨⟨?_, rfl, rfl⟩, ?_, ?_⟩
  · decide
  · decide
  · decide

end CelWasm
