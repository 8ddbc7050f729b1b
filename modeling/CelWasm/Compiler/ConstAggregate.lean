import CelWasm.Compiler.LiteralBuild
import CelWasm.Compiler.StaticMemory

/-!
# Compiler/ConstAggregate — constant lists and maps in rodata

The pass walks the tree from the leaves up and writes every list or map literal made of literals
alone into rodata. A literal it has written is embedded in the literal around it; a map whose keys
repeat, or whose keys the staging arena has no room for, is left to be built at run time, and with
it every literal around it.
-/

namespace CelWasm

/-- What the pass knows of a node: its representation, its place in rodata (`Storage`), and the frame
`frames_` remembers for a literal that has been written. -/
structure Stamp where
  repr : NodeRepr
  storage : Option ℕ
  frame : Option RawValue

/-- The stamp of a node not yet visited. -/
def Stamp.initial (repr : NodeRepr) : Stamp := ⟨repr, none, none⟩

/-! ## Eligible literals -/

mutual

/-- **`IsConstMaterializable`**. -/
def isConstMaterializable : Expr NodeRepr → Bool
  | .const repr _ => repr != .type
  | .list _ elements optionals => optionals.all (!·) && isConstMaterializableList elements
  | .map _ entries => isConstMaterializableEntries entries
  | _ => false

def isConstMaterializableList : List (Expr NodeRepr) → Bool
  | [] => true
  | e :: es => isConstMaterializable e && isConstMaterializableList es

def isConstMaterializableEntries : MapEntries NodeRepr → Bool
  | .nil => true
  | .cons optional key value rest =>
    !optional && isConstMaterializable key && isConstMaterializable value &&
      isConstMaterializableEntries rest

end

/-! ## Writing a literal -/

/-- A node gets a place in rodata. -/
def placeAt (addr : ℕ) (e : Expr Stamp) : Expr Stamp :=
  e.modifyAnn fun s => { s with storage := some addr }

/-- The element nodes get their slots in the run. -/
def stampRun : ℕ → List (Expr Stamp) → List (Expr Stamp)
  | _, [] => []
  | addr, e :: es =>
    placeAt addr e :: stampRun (addr + kCelValueSize) es

/-- `StampMapEntryStorage`. -/
def stampEntries : ℕ → MapEntries Stamp → MapEntries Stamp
  | _, .nil => .nil
  | addr, .cons optional key value rest =>
    .cons optional (placeAt addr key) (placeAt (addr + kCelValueSize) value)
      (stampEntries (addr + kCelMapEntryStride) rest)

/-- What an attempt to write comes to: the frames, if it succeeds, the stamped tree, and the rodata
with whatever was written on the way. -/
structure Written (ρ τ : Type) where
  frames : Option ρ
  tree : τ
  rodata : StaticMemoryBuilder

mutual

/-- **`ElementValue`, `MaterializeList` and `MaterializeMap`**. -/
def materialize : Expr Stamp → StaticMemoryBuilder → Written RawValue (Expr Stamp)
  | .const s c, b => ⟨some (b.constToCelValue c).1, .const s c, (b.constToCelValue c).2⟩
  | .list s elements optionals, b =>
    match s.frame with
    | some frame => ⟨some frame, .list s elements optionals, b⟩
    | none =>
      let o := materializeElements elements b
      match o.frames with
      | none => ⟨none, .list s o.tree optionals, o.rodata⟩
      | some frames =>
        let r := o.rodata.materializeList frames
        ⟨some r.1.frame, .list ⟨s.repr, some r.1.frameOffset, some r.1.frame⟩
          (stampRun r.1.runOffset o.tree) optionals, r.2⟩
  | .map s entries, b =>
    match s.frame with
    | some frame => ⟨some frame, .map s entries, b⟩
    | none =>
      let o := materializeEntries entries b
      match o.frames with
      | none => ⟨none, .map s o.tree, o.rodata⟩
      | some frames =>
        match o.rodata.materializeMap frames with
        | none => ⟨none, .map s o.tree, o.rodata⟩
        | some r =>
          ⟨some r.1.frame, .map ⟨s.repr, some r.1.frameOffset, some r.1.frame⟩
            (stampEntries r.1.runOffset o.tree), r.2⟩
  | e, b => ⟨none, e, b⟩

def materializeElements :
    List (Expr Stamp) → StaticMemoryBuilder → Written (List RawValue) (List (Expr Stamp))
  | [], b => ⟨some [], [], b⟩
  | e :: es, b =>
    let o := materialize e b
    match o.frames with
    | none => ⟨none, o.tree :: es, o.rodata⟩
    | some frame =>
      let o' := materializeElements es o.rodata
      ⟨o'.frames.map (frame :: ·), o.tree :: o'.tree, o'.rodata⟩

def materializeEntries : MapEntries Stamp → StaticMemoryBuilder →
    Written (List (RawValue × RawValue)) (MapEntries Stamp)
  | .nil, b => ⟨some [], .nil, b⟩
  | .cons optional key value rest, b =>
    let ok := materialize key b
    let ov := materialize value ok.rodata
    match ok.frames, ov.frames with
    | some k, some v =>
      let o := materializeEntries rest ov.rodata
      ⟨o.frames.map ((k, v) :: ·), .cons optional ok.tree ov.tree o.tree, o.rodata⟩
    | _, _ => ⟨none, .cons optional ok.tree ov.tree rest, ov.rodata⟩

end

/-! ## The pass -/

/-- `PostVisitList` and `PostVisitMap`. -/
def postVisit (excluded : Bool) (original : Expr NodeRepr) (e : Expr Stamp)
    (b : StaticMemoryBuilder) : Expr Stamp × StaticMemoryBuilder :=
  if excluded then (e, b)
  else if isConstMaterializable original then ((materialize e b).tree, (materialize e b).rodata)
  else (e, b)

mutual

/-- **`ConstAggregateVisitor`** over a tree. The initial value of an accumulator is `excluded`: the
loop writes to it. -/
def constAggregate (excluded : Bool) :
    Expr NodeRepr → StaticMemoryBuilder → Expr Stamp × StaticMemoryBuilder
  | .const r c, b => (.const (.initial r) c, b)
  | .ident r name, b => (.ident (.initial r) name, b)
  | .select r operand field testOnly, b =>
    let o := constAggregate false operand b
    (.select (.initial r) o.1 field testOnly, o.2)
  | .call r function receiver operands, b =>
    let o := constAggregateList operands b
    (.call (.initial r) function receiver o.1, o.2)
  | .list r elements optionals, b =>
    let o := constAggregateList elements b
    postVisit excluded (.list r elements optionals) (.list (.initial r) o.1 optionals) o.2
  | .map r entries, b =>
    let o := constAggregateEntries entries b
    postVisit excluded (.map r entries) (.map (.initial r) o.1) o.2
  | .struct r name fields values, b =>
    let o := constAggregateList values b
    (.struct (.initial r) name fields o.1, o.2)
  | .comprehension r iterVar iterVar2 accuVar iterRange accuInit loopCondition loopStep result, b =>
    let o₁ := constAggregate false iterRange b
    let o₂ := constAggregate true accuInit o₁.2
    let o₃ := constAggregate false loopCondition o₂.2
    let o₄ := constAggregate false loopStep o₃.2
    let o₅ := constAggregate false result o₄.2
    (.comprehension (.initial r) iterVar iterVar2 accuVar o₁.1 o₂.1 o₃.1 o₄.1 o₅.1, o₅.2)

def constAggregateList :
    List (Expr NodeRepr) → StaticMemoryBuilder → List (Expr Stamp) × StaticMemoryBuilder
  | [], b => ([], b)
  | e :: es, b =>
    let o := constAggregate false e b
    let o' := constAggregateList es o.2
    (o.1 :: o'.1, o'.2)

def constAggregateEntries :
    MapEntries NodeRepr → StaticMemoryBuilder → MapEntries Stamp × StaticMemoryBuilder
  | .nil, b => (.nil, b)
  | .cons optional key value rest, b =>
    let ok := constAggregate false key b
    let ov := constAggregate false value ok.2
    let o := constAggregateEntries rest ov.2
    (.cons optional ok.1 ov.1 o.1, o.2)

end

/-! ## Rodata only grows -/

/-- What has been written stays, write after write. -/
theorem extends_trans {a b c : StaticMemoryBuilder} (h : ∃ x, b = a.append x)
    (h' : ∃ x, c = b.append x) : ∃ x, c = a.append x := by
  obtain ⟨x, rfl⟩ := h
  obtain ⟨y, rfl⟩ := h'
  exact ⟨x ++ y, Image.append_append _ _ _⟩

theorem extends_refl (a : StaticMemoryBuilder) : ∃ x, a = a.append x := ⟨[], a.append_nil.symm⟩

mutual

/-- **Materialising writes behind what is there.** -/
theorem materialize_extends : ∀ (e : Expr Stamp) (b : StaticMemoryBuilder),
    ∃ x, (materialize e b).rodata = b.append x
  | .const s c, b => StaticMemoryBuilder.constToCelValue_append c
  | .list s elements optionals, b => by
    rw [materialize]
    split
    · exact extends_refl b
    · have hgrow := materializeElements_extends elements b
      dsimp only
      split
      · exact hgrow
      · exact extends_trans hgrow ⟨_, rfl⟩
  | .map s entries, b => by
    rw [materialize]
    split
    · exact extends_refl b
    · have hgrow := materializeEntries_extends entries b
      dsimp only
      split
      · exact hgrow
      · split
        · exact hgrow
        · next r hr =>
          obtain ⟨index, -, rfl⟩ := Option.map_eq_some_iff.mp hr
          exact extends_trans hgrow ⟨_, rfl⟩
  | .ident _ _, b | .select _ _ _ _, b | .call _ _ _ _, b | .struct _ _ _ _, b
  | .comprehension _ _ _ _ _ _ _ _ _, b => extends_refl b

theorem materializeElements_extends : ∀ (es : List (Expr Stamp)) (b : StaticMemoryBuilder),
    ∃ x, (materializeElements es b).rodata = b.append x
  | [], b => extends_refl b
  | e :: es, b => by
    have hhead := materialize_extends e b
    rw [materializeElements]
    dsimp only
    split
    · exact hhead
    · exact extends_trans hhead (materializeElements_extends es _)

theorem materializeEntries_extends : ∀ (entries : MapEntries Stamp) (b : StaticMemoryBuilder),
    ∃ x, (materializeEntries entries b).rodata = b.append x
  | .nil, b => extends_refl b
  | .cons optional key value rest, b => by
    have hpair := extends_trans (materialize_extends key b) (materialize_extends value _)
    rw [materializeEntries]
    dsimp only
    split
    · exact extends_trans hpair (materializeEntries_extends rest _)
    · exact hpair

end

/-- An image that extends another ends no earlier. -/
theorem next_le_of_extends {a b : StaticMemoryBuilder} (h : ∃ x, b = a.append x) :
    a.next ≤ b.next := by
  obtain ⟨x, rfl⟩ := h
  rw [Image.next_append]
  exact Nat.le_add_right _ _

/-! ## What is stamped is right -/

/-- What a literal is built to, with the stamps left out. -/
def NodeBuiltTo (other : Expr NodeRepr → Kernel CelValue) (e : Expr Stamp) (v : CelValue) : Prop :=
  BuiltTo other (e.mapAnn Stamp.repr) v

/-- **A stamp is sound**: the frame it remembers, and the one at its place in rodata, carry what the
literal is built to. -/
def Sound (other : Expr NodeRepr → Kernel CelValue) (b : StaticMemoryBuilder) (e : Expr Stamp) :
    Prop :=
  (∀ frame, e.ann.frame = some frame → ∃ v, Carries b frame v ∧ NodeBuiltTo other e v) ∧
    ∀ addr, e.ann.storage = some addr →
      ∃ frame v, FrameAt b addr frame ∧ Carries b frame v ∧ NodeBuiltTo other e v

section Sound

variable {other : Expr NodeRepr → Kernel CelValue} {b b' : StaticMemoryBuilder}

/-- **What an image holds it still holds when it is extended.** -/
theorem Sound.extends {e : Expr Stamp} (h : Sound other b e) (hb : ∃ x, b' = b.append x) :
    Sound other b' e := by
  obtain ⟨x, rfl⟩ := hb
  refine ⟨fun frame hframe => ?_, fun addr haddr => ?_⟩
  · obtain ⟨v, hv, hbuilt⟩ := h.1 frame hframe
    exact ⟨v, hv.append x, hbuilt⟩
  · obtain ⟨frame, v, hat, hv, hbuilt⟩ := h.2 addr haddr
    exact ⟨frame, v, hat.append x, hv.append x, hbuilt⟩

/-- A node with the same stamp and the same literal. -/
theorem Sound.congr {e e' : Expr Stamp} (h : Sound other b e) (hann : e'.ann = e.ann)
    (hsame : e'.mapAnn Stamp.repr = e.mapAnn Stamp.repr) : Sound other b e' := by
  unfold Sound NodeBuiltTo at h ⊢
  rw [hann, hsame]
  exact h

/-- A node without a place in rodata. -/
theorem sound_initial {e : Expr Stamp} (hframe : e.ann.frame = none) (hstorage : e.ann.storage = none) :
    Sound other b e :=
  ⟨fun _ h => absurd (hframe.symm.trans h) (Option.some_ne_none _).symm,
    fun _ h => absurd (hstorage.symm.trans h) (Option.some_ne_none _).symm⟩

/-- A place is a stamp, and no part of the expression. -/
theorem mapAnn_placeAt (addr : ℕ) (e : Expr Stamp) :
    (placeAt addr e).mapAnn Stamp.repr = e.mapAnn Stamp.repr :=
  Expr.mapAnn_modifyAnn (g := Stamp.repr) (f := fun s => { s with storage := some addr })
    (fun _ => rfl) e

/-- A node that gets a place where a frame of its own value stands. -/
theorem Sound.placeAt {e : Expr Stamp} {addr : ℕ} {frame : RawValue} {v : CelValue}
    (h : Sound other b e) (hat : FrameAt b addr frame) (hv : Carries b frame v)
    (hbuilt : NodeBuiltTo other e v) : Sound other b (placeAt addr e) := by
  have hsame : ∀ {v}, NodeBuiltTo other e v → NodeBuiltTo other (CelWasm.placeAt addr e) v :=
    fun hv => by rwa [NodeBuiltTo, mapAnn_placeAt]
  refine ⟨fun frame' hframe' => ?_, fun addr' haddr' => ?_⟩
  · rw [CelWasm.placeAt, Expr.ann_modifyAnn] at hframe'
    obtain ⟨v', hv', hbuilt'⟩ := h.1 frame' hframe'
    exact ⟨v', hv', hsame hbuilt'⟩
  · rw [CelWasm.placeAt, Expr.ann_modifyAnn] at haddr'
    obtain rfl := Option.some.inj haddr'
    exact ⟨frame, v, hat, hv, hsame hbuilt⟩

/-! ### Stamping a run -/

theorem mapAnnList_stampRun : ∀ (addr : ℕ) (es : List (Expr Stamp)),
    mapAnnList Stamp.repr (stampRun addr es) = mapAnnList Stamp.repr es
  | _, [] => rfl
  | addr, e :: es => by
    rw [stampRun, mapAnnList, mapAnnList, mapAnnList_stampRun, mapAnn_placeAt]

theorem mapAnn_stampEntries : ∀ (addr : ℕ) (entries : MapEntries Stamp),
    (stampEntries addr entries).mapAnn Stamp.repr = entries.mapAnn Stamp.repr
  | _, .nil => rfl
  | addr, .cons optional key value rest => by
    rw [stampEntries, MapEntries.mapAnn, MapEntries.mapAnn, mapAnn_stampEntries, mapAnn_placeAt,
      mapAnn_placeAt]

/-- **The elements of a run are where they were written**: each is stamped with its own cell. -/
theorem forallList_stampRun : ∀ {es : List (Expr Stamp)} {frames : List RawValue}
    {vs : List CelValue} {addr : ℕ}, ForallList (Sound other b) es → RunAt b addr frames →
    List.Forall₂ (Carries b) frames vs → List.Forall₂ (NodeBuiltTo other) es vs →
    ForallList (Sound other b) (stampRun addr es)
  | [], _, _, _, _, _, _, _ => trivial
  | _ :: _, [], _, _, _, _, .nil, hbuilts => nomatch hbuilts
  | _ :: _, _ :: _, _ :: _, _, ⟨he, hes⟩, ⟨hat, hrun⟩, .cons hv hvs, .cons hbuilt hbuilts =>
    ⟨he.modifyAnn (he.root.placeAt hat hv hbuilt), forallList_stampRun hes hrun hvs hbuilts⟩

/-- The key and value of an entry, with the stamps left out, are built to those of a pair. -/
def NodeEntryBuiltTo (other : Expr NodeRepr → Kernel CelValue)
    (e : Bool × Expr Stamp × Expr Stamp) (p : CelValue × CelValue) : Prop :=
  e.1 = false ∧ NodeBuiltTo other e.2.1 p.1 ∧ NodeBuiltTo other e.2.2 p.2

/-- …and so are the keys and the values of the entries of a map. -/
theorem forall_stampEntries : ∀ {entries : MapEntries Stamp} {frames : List (RawValue × RawValue)}
    {ps : List (CelValue × CelValue)} {addr : ℕ}, entries.Forall (Sound other b) →
    EntriesAt b addr frames → List.Forall₂ (CarriesEntry b) frames ps →
    List.Forall₂ (NodeEntryBuiltTo other) entries.toList ps →
    (stampEntries addr entries).Forall (Sound other b)
  | .nil, _, _, _, _, _, _, _ => trivial
  | .cons _ _ _ _, [], _, _, _, _, .nil, hbuilts => nomatch hbuilts
  | .cons _ _ _ _, _ :: _, _ :: _, _, ⟨hk, hv, hrest⟩, ⟨hatk, hatv, hats⟩, .cons hc hcs,
      .cons hbuilt hbuilts =>
    ⟨hk.modifyAnn (hk.root.placeAt hatk hc.1 hbuilt.2.1),
      hv.modifyAnn (hv.root.placeAt hatv hc.2 hbuilt.2.2), forall_stampEntries hrest hats hcs hbuilts⟩

/-! ### Writing keeps the stamps sound -/

theorem length_mapAnnList : ∀ es : List (Expr Stamp), (mapAnnList Stamp.repr es).length = es.length
  | [] => rfl
  | _ :: es => congrArg Nat.succ (length_mapAnnList es)

/-- What the nodes are built to is what the expressions are built to. -/
theorem forall₂_mapAnnList {es : List (Expr Stamp)} {vs : List CelValue}
    (h : List.Forall₂ (NodeBuiltTo other) es vs) :
    List.Forall₂ (BuiltTo other) (mapAnnList Stamp.repr es) vs := by
  induction h with
  | nil => exact .nil
  | cons he _ ih => exact .cons he ih

theorem forallList_extends {es : List (Expr Stamp)} (h : ForallList (Sound other b) es)
    (hb : ∃ x, b' = b.append x) : ForallList (Sound other b') es :=
  ForallList.imp (fun _ he => he.extends hb) h

/-- Frames that carry values in an image carry them in one that extends it. -/
theorem carriesAll_extends {frames : List RawValue} {vs : List CelValue}
    (h : List.Forall₂ (Carries b) frames vs) (hb : ∃ x, b' = b.append x) :
    List.Forall₂ (Carries b') frames vs := by
  obtain ⟨x, rfl⟩ := hb
  exact h.imp fun _ _ hv => hv.append x

theorem carriesEntries_extends {frames : List (RawValue × RawValue)}
    {ps : List (CelValue × CelValue)} (h : List.Forall₂ (CarriesEntry b) frames ps)
    (hb : ∃ x, b' = b.append x) : List.Forall₂ (CarriesEntry b') frames ps := by
  obtain ⟨x, rfl⟩ := hb
  exact h.imp fun _ _ hv => ⟨hv.1.append x, hv.2.append x⟩

/-- A list that has just been written. -/
theorem sound_list (s : Stamp) {es : List (Expr Stamp)} {optionals : List Bool}
    {frames : List RawValue} {vs : List CelValue} (hsound : ForallList (Sound other b) es)
    (hvs : List.Forall₂ (Carries b) frames vs) (hbuilts : List.Forall₂ (NodeBuiltTo other) es vs)
    (hplain : optionals.all (!·) = true) (hfits : (b.materializeList frames).2.next < 2 ^ 32) :
    Expr.Forall (Sound other (b.materializeList frames).2)
      (.list ⟨s.repr, some (b.materializeList frames).1.frameOffset,
          some (b.materializeList frames).1.frame⟩
        (stampRun (b.materializeList frames).1.runOffset es) optionals) ∧
    ∃ v, Carries (b.materializeList frames).2 (b.materializeList frames).1.frame v ∧
      NodeBuiltTo other (.list s es optionals) v := by
  have hwrite : ∃ x, (b.materializeList frames).2 = b.append x := ⟨_, rfl⟩
  obtain ⟨hframe, hat, hrun, hfit⟩ := StaticMemoryBuilder.materializeList_spec hvs hfits
  have hlength : frames.length = (mapAnnList Stamp.repr es).length := by
    rw [hvs.length_eq, ← hbuilts.length_eq, length_mapAnnList]
  have hbuilt : BuiltTo other (.list s.repr (mapAnnList Stamp.repr es) optionals)
      (.listArena frames.length vs) := by
    rw [hlength] at hfit ⊢
    exact builtTo_list (forall₂_mapAnnList hbuilts)
      (fun o ho => by simpa using List.all_eq_true.mp hplain o ho) hfit
  have hnode : NodeBuiltTo other (.list ⟨s.repr, some (b.materializeList frames).1.frameOffset,
      some (b.materializeList frames).1.frame⟩
      (stampRun (b.materializeList frames).1.runOffset es) optionals)
      (.listArena frames.length vs) := by
    rwa [NodeBuiltTo, Expr.mapAnn, mapAnnList_stampRun]
  refine ⟨⟨⟨fun frame hframe' => ?_, fun addr haddr => ?_⟩, ?_⟩, _, hframe, hbuilt⟩
  · obtain rfl := Option.some.inj hframe'
    exact ⟨_, hframe, hnode⟩
  · obtain rfl := Option.some.inj haddr
    exact ⟨_, _, hat, hframe, hnode⟩
  · exact forallList_stampRun (forallList_extends hsound hwrite) hrun
      (carriesAll_extends hvs hwrite) hbuilts

theorem length_toList_mapAnn : ∀ entries : MapEntries Stamp,
    (entries.mapAnn Stamp.repr).toList.length = entries.toList.length
  | .nil => rfl
  | .cons _ _ _ rest => congrArg Nat.succ (length_toList_mapAnn rest)

theorem forall₂_toList_mapAnn : ∀ {entries : MapEntries Stamp} {ps : List (CelValue × CelValue)},
    List.Forall₂ (NodeEntryBuiltTo other) entries.toList ps →
    List.Forall₂ (EntryBuiltTo other) (entries.mapAnn Stamp.repr).toList ps
  | .nil, _, .nil => .nil
  | .cons _ _ _ _, _, .cons he hes => .cons he (forall₂_toList_mapAnn hes)

/-- A map that has just been written. -/
theorem sound_map (s : Stamp) {entries : MapEntries Stamp} {frames : List (RawValue × RawValue)}
    {ps : List (CelValue × CelValue)} {r : StaticMemoryBuilder.MaterializedAggregate × Image}
    (hsound : entries.Forall (Sound other b)) (hps : List.Forall₂ (CarriesEntry b) frames ps)
    (hbuilts : List.Forall₂ (NodeEntryBuiltTo other) entries.toList ps)
    (hwritten : b.materializeMap frames = some r) (hfits : r.2.next < 2 ^ 32) :
    Expr.Forall (Sound other r.2) (.map ⟨s.repr, some r.1.frameOffset, some r.1.frame⟩
        (stampEntries r.1.runOffset entries)) ∧
    ∃ v, Carries r.2 r.1.frame v ∧ NodeBuiltTo other (.map s entries) v := by
  obtain ⟨index, hdecide, rfl⟩ := Option.map_eq_some_iff.mp hwritten
  obtain ⟨staged, hstaged⟩ := StaticMemoryBuilder.staged_of_decide hps hdecide
  have hwrite : ∃ x, (b.writeMap frames index).2 = b.append x := ⟨_, rfl⟩
  obtain ⟨hframe, hat, hrun, hfit⟩ := StaticMemoryBuilder.writeMap_spec hps hstaged hfits
  have hlength : frames.length = (entries.mapAnn Stamp.repr).toList.length := by
    rw [hps.length_eq, ← hbuilts.length_eq, length_toList_mapAnn]
  have hbuilt : BuiltTo other (.map s.repr (entries.mapAnn Stamp.repr))
      (.mapArena frames.length ps index) := by
    rw [hlength] at hfit ⊢
    exact builtTo_map (forall₂_toList_mapAnn hbuilts) hstaged.keys hstaged.distinct hstaged.index hfit
  have hnode : NodeBuiltTo other (.map ⟨s.repr, some (b.writeMap frames index).1.frameOffset,
      some (b.writeMap frames index).1.frame⟩
      (stampEntries (b.writeMap frames index).1.runOffset entries))
      (.mapArena frames.length ps index) := by
    rwa [NodeBuiltTo, Expr.mapAnn, mapAnn_stampEntries]
  refine ⟨⟨⟨fun frame hframe' => ?_, fun addr haddr => ?_⟩, ?_⟩, _, hframe, hbuilt⟩
  · obtain rfl := Option.some.inj hframe'
    exact ⟨_, hframe, hnode⟩
  · obtain rfl := Option.some.inj haddr
    exact ⟨_, _, hat, hframe, hnode⟩
  · exact forall_stampEntries (hsound.imp fun _ he => he.extends hwrite) hrun
      (carriesEntries_extends hps hwrite) hbuilts

mutual

/-- **Writing a literal** keeps every stamp sound, changes nothing but stamps, and where it succeeds
carries what the literal is built to. -/
theorem materialize_spec : ∀ (e : Expr Stamp) (b : StaticMemoryBuilder),
    e.Forall (Sound other b) → isConstMaterializable (e.mapAnn Stamp.repr) = true →
    (materialize e b).rodata.next < 2 ^ 32 →
    (materialize e b).tree.Forall (Sound other (materialize e b).rodata) ∧
      (materialize e b).tree.mapAnn Stamp.repr = e.mapAnn Stamp.repr ∧
      ∀ frame, (materialize e b).frames = some frame →
        ∃ v, Carries (materialize e b).rodata frame v ∧ NodeBuiltTo other e v
  | .const s c, b, h, hconst, hfits => by
    refine ⟨h.extends (StaticMemoryBuilder.constToCelValue_append c), rfl, fun frame hframe => ?_⟩
    obtain rfl := Option.some.inj hframe
    have hrepr : s.repr ≠ .type := fun h => by
      simp [Expr.mapAnn, isConstMaterializable, h] at hconst
    exact ⟨c.value, StaticMemoryBuilder.carries_constToCelValue c hfits, builtTo_const c hrepr⟩
  | .list s elements optionals, b, ⟨hroot, helements⟩, hconst, hfits => by
    rw [Expr.mapAnn, isConstMaterializable, Bool.and_eq_true_iff] at hconst
    obtain ⟨hplain, hconst⟩ := hconst
    rw [materialize] at hfits ⊢
    split at hfits
    · next frame hframe =>
      refine ⟨⟨hroot, helements⟩, rfl, fun frame' hframe' => ?_⟩
      obtain rfl := Option.some.inj hframe'
      exact hroot.1 _ hframe
    · next hframe =>
      have hgrow := materializeElements_extends elements b
      dsimp only at hfits ⊢
      split at hfits
      · next hnone =>
        obtain ⟨hsound, hsame, -⟩ := materializeElements_spec elements b helements hconst hfits
        refine ⟨⟨?_, hsound⟩, ?_, nofun⟩
        · exact (hroot.extends hgrow).congr rfl (by rw [Expr.mapAnn, Expr.mapAnn, hsame])
        · rw [Expr.mapAnn, Expr.mapAnn, hsame]
      · next frames hframes =>
        have hwrite : ∃ x, ((materializeElements elements b).rodata.materializeList frames).2
            = (materializeElements elements b).rodata.append x := ⟨_, rfl⟩
        obtain ⟨hsound, hsame, hcarry⟩ := materializeElements_spec elements b helements hconst
          ((next_le_of_extends hwrite).trans_lt hfits)
        obtain ⟨vs, hvs, hbuilts⟩ := hcarry frames hframes
        obtain ⟨hforall, v, hv, hbuilt⟩ := sound_list s hsound hvs hbuilts hplain hfits
        refine ⟨hforall, ?_, fun frame hframe => ?_⟩
        · rw [Expr.mapAnn, Expr.mapAnn, mapAnnList_stampRun, hsame]
        · obtain rfl := Option.some.inj hframe
          rw [NodeBuiltTo, Expr.mapAnn, hsame] at hbuilt
          exact ⟨v, hv, hbuilt⟩
  | .map s entries, b, ⟨hroot, hentries⟩, hconst, hfits => by
    rw [Expr.mapAnn, isConstMaterializable] at hconst
    rw [materialize] at hfits ⊢
    split at hfits
    · next frame hframe =>
      refine ⟨⟨hroot, hentries⟩, rfl, fun frame' hframe' => ?_⟩
      obtain rfl := Option.some.inj hframe'
      exact hroot.1 _ hframe
    · next hframe =>
      have hgrow := materializeEntries_extends entries b
      have hleft : (materializeEntries entries b).rodata.next < 2 ^ 32 →
          Expr.Forall (Sound other (materializeEntries entries b).rodata)
            (.map s (materializeEntries entries b).tree) ∧
          Expr.mapAnn Stamp.repr (.map s (materializeEntries entries b).tree)
            = Expr.mapAnn Stamp.repr (.map s entries) := fun hfits => by
        obtain ⟨hsound, hsame, -⟩ := materializeEntries_spec entries b hentries hconst hfits
        have hsame' : Expr.mapAnn Stamp.repr (.map s (materializeEntries entries b).tree)
            = Expr.mapAnn Stamp.repr (.map s entries) := by rw [Expr.mapAnn, Expr.mapAnn, hsame]
        exact ⟨⟨(hroot.extends hgrow).congr rfl hsame', hsound⟩, hsame'⟩
      dsimp only at hfits ⊢
      split at hfits
      · exact ⟨(hleft hfits).1, (hleft hfits).2, nofun⟩
      · next frames hframes =>
        split at hfits
        · exact ⟨(hleft hfits).1, (hleft hfits).2, nofun⟩
        · next r hr =>
          have hwrite : ∃ x, r.2 = (materializeEntries entries b).rodata.append x := by
            obtain ⟨index, -, rfl⟩ := Option.map_eq_some_iff.mp hr
            exact ⟨_, rfl⟩
          obtain ⟨hsound, hsame, hcarry⟩ := materializeEntries_spec entries b hentries hconst
            ((next_le_of_extends hwrite).trans_lt hfits)
          obtain ⟨ps, hps, hbuilts⟩ := hcarry frames hframes
          obtain ⟨hforall, v, hv, hbuilt⟩ := sound_map s hsound hps hbuilts hr hfits
          refine ⟨hforall, ?_, fun frame hframe => ?_⟩
          · rw [Expr.mapAnn, Expr.mapAnn, mapAnn_stampEntries, hsame]
          · obtain rfl := Option.some.inj hframe
            rw [NodeBuiltTo, Expr.mapAnn, hsame] at hbuilt
            exact ⟨v, hv, hbuilt⟩
  | .ident _ _, b, _, hconst, _ | .select _ _ _ _, b, _, hconst, _ | .call _ _ _ _, b, _, hconst, _
  | .struct _ _ _ _, b, _, hconst, _ | .comprehension _ _ _ _ _ _ _ _ _, b, _, hconst, _ =>
    nomatch hconst

/-- **The elements of a constant list are materialised soundly**, one behind the other, -/
theorem materializeElements_spec : ∀ (es : List (Expr Stamp)) (b : StaticMemoryBuilder),
    ForallList (Sound other b) es → isConstMaterializableList (mapAnnList Stamp.repr es) = true →
    (materializeElements es b).rodata.next < 2 ^ 32 →
    ForallList (Sound other (materializeElements es b).rodata) (materializeElements es b).tree ∧
      mapAnnList Stamp.repr (materializeElements es b).tree = mapAnnList Stamp.repr es ∧
      ∀ frames, (materializeElements es b).frames = some frames →
        ∃ vs, List.Forall₂ (Carries (materializeElements es b).rodata) frames vs ∧
          List.Forall₂ (NodeBuiltTo other) (materializeElements es b).tree vs
  | [], b, _, _, _ => ⟨trivial, rfl, fun frames hframes => by
      obtain rfl := Option.some.inj hframes
      exact ⟨[], .nil, .nil⟩⟩
  | e :: es, b, ⟨he, hes⟩, hconst, hfits => by
    rw [mapAnnList, isConstMaterializableList, Bool.and_eq_true_iff] at hconst
    have hgrow := materialize_extends e b
    rw [materializeElements] at hfits ⊢
    dsimp only at hfits ⊢
    split at hfits
    · next hnone =>
      obtain ⟨hsound, hsame, -⟩ := materialize_spec e b he hconst.1 hfits
      exact ⟨⟨hsound, forallList_extends hes hgrow⟩, by rw [mapAnnList, mapAnnList, hsame], nofun⟩
    · next frame hframe =>
      have hgrow' := materializeElements_extends es (materialize e b).rodata
      obtain ⟨hsound, hsame, hcarry⟩ := materialize_spec e b he hconst.1
        ((next_le_of_extends hgrow').trans_lt hfits)
      obtain ⟨hsound', hsame', hcarry'⟩ := materializeElements_spec es (materialize e b).rodata
        (forallList_extends hes hgrow) hconst.2 hfits
      refine ⟨⟨hsound.imp fun _ h => h.extends hgrow', hsound'⟩,
        by rw [mapAnnList, mapAnnList, hsame, hsame'], fun frames hframes => ?_⟩
      obtain ⟨rest, hrest, rfl⟩ := Option.map_eq_some_iff.mp hframes
      obtain ⟨v, hv, hbuilt⟩ := hcarry frame hframe
      obtain ⟨vs, hvs, hbuilts⟩ := hcarry' rest hrest
      refine ⟨v :: vs, .cons ?_ hvs, .cons ?_ hbuilts⟩
      · obtain ⟨x, hx⟩ := hgrow'
        exact hx ▸ hv.append x
      · rwa [NodeBuiltTo, hsame]

/-- …and the entries of a constant map, each key before its value. -/
theorem materializeEntries_spec : ∀ (entries : MapEntries Stamp) (b : StaticMemoryBuilder),
    entries.Forall (Sound other b) →
    isConstMaterializableEntries (entries.mapAnn Stamp.repr) = true →
    (materializeEntries entries b).rodata.next < 2 ^ 32 →
    (materializeEntries entries b).tree.Forall (Sound other (materializeEntries entries b).rodata) ∧
      (materializeEntries entries b).tree.mapAnn Stamp.repr = entries.mapAnn Stamp.repr ∧
      ∀ frames, (materializeEntries entries b).frames = some frames →
        ∃ ps, List.Forall₂ (CarriesEntry (materializeEntries entries b).rodata) frames ps ∧
          List.Forall₂ (NodeEntryBuiltTo other) (materializeEntries entries b).tree.toList ps
  | .nil, b, _, _, _ => ⟨trivial, rfl, fun frames hframes => by
      obtain rfl := Option.some.inj hframes
      exact ⟨[], .nil, .nil⟩⟩
  | .cons optional key value rest, b, ⟨hk, hv, hrest⟩, hconst, hfits => by
    rw [MapEntries.mapAnn, isConstMaterializableEntries, Bool.and_eq_true_iff, Bool.and_eq_true_iff,
      Bool.and_eq_true_iff] at hconst
    obtain ⟨⟨⟨hplain, hconstKey⟩, hconstValue⟩, hconstRest⟩ := hconst
    have hgrowKey := materialize_extends key b
    have hgrowValue := materialize_extends value (materialize key b).rodata
    rw [materializeEntries] at hfits ⊢
    dsimp only at hfits ⊢
    have hpair : (materialize value (materialize key b).rodata).rodata.next < 2 ^ 32 → _ :=
      fun hfits => And.intro
        (materialize_spec key b hk hconstKey ((next_le_of_extends hgrowValue).trans_lt hfits))
        (materialize_spec value (materialize key b).rodata (hv.imp fun _ h => h.extends hgrowKey)
          hconstValue hfits)
    split at hfits
    · next k v hkframe hvframe =>
      have hgrow := materializeEntries_extends rest (materialize value (materialize key b).rodata).rodata
      obtain ⟨⟨hsoundk, hsamek, hcarryk⟩, hsoundv, hsamev, hcarryv⟩ :=
        hpair ((next_le_of_extends hgrow).trans_lt hfits)
      obtain ⟨hsound, hsame, hcarry⟩ := materializeEntries_spec rest _
        (hrest.imp fun _ h => h.extends (extends_trans hgrowKey hgrowValue)) hconstRest hfits
      refine ⟨⟨hsoundk.imp fun _ h => h.extends (extends_trans hgrowValue hgrow),
        hsoundv.imp fun _ h => h.extends hgrow, hsound⟩, ?_, fun frames hframes => ?_⟩
      · rw [MapEntries.mapAnn, MapEntries.mapAnn, hsamek, hsamev, hsame]
      · obtain ⟨fs, hfs, rfl⟩ := Option.map_eq_some_iff.mp hframes
        obtain ⟨kv, hkv, hkbuilt⟩ := hcarryk k hkframe
        obtain ⟨vv, hvv, hvbuilt⟩ := hcarryv v hvframe
        obtain ⟨ps, hps, hbuilts⟩ := hcarry fs hfs
        refine ⟨(kv, vv) :: ps, .cons ⟨?_, ?_⟩ hps, .cons ⟨?_, ?_, ?_⟩ hbuilts⟩
        · obtain ⟨x, hx⟩ := extends_trans hgrowValue hgrow
          exact hx ▸ hkv.append x
        · obtain ⟨x, hx⟩ := hgrow
          exact hx ▸ hvv.append x
        · simpa using hplain
        · rwa [NodeBuiltTo, hsamek]
        · rwa [NodeBuiltTo, hsamev]
    · obtain ⟨⟨hsoundk, hsamek, -⟩, hsoundv, hsamev, -⟩ := hpair hfits
      exact ⟨⟨hsoundk.imp fun _ h => h.extends hgrowValue, hsoundv,
        hrest.imp fun _ h => h.extends (extends_trans hgrowKey hgrowValue)⟩,
        by rw [MapEntries.mapAnn, MapEntries.mapAnn, hsamek, hsamev], nofun⟩

end

/-! ### The pass keeps the stamps sound -/

/-- A visit writes behind what is there. -/
theorem postVisit_extends (excluded : Bool) (original : Expr NodeRepr) (e : Expr Stamp)
    (b : StaticMemoryBuilder) : ∃ x, (postVisit excluded original e b).2 = b.append x := by
  unfold postVisit
  split_ifs
  · exact extends_refl b
  · exact materialize_extends e b
  · exact extends_refl b

/-- **A visit keeps every stamp sound**, those below the node and the one it adds. -/
theorem postVisit_spec (excluded : Bool) {e : Expr Stamp} (h : e.Forall (Sound other b))
    (hfits : (postVisit excluded (e.mapAnn Stamp.repr) e b).2.next < 2 ^ 32) :
    (postVisit excluded (e.mapAnn Stamp.repr) e b).1.Forall
        (Sound other (postVisit excluded (e.mapAnn Stamp.repr) e b).2) ∧
      (postVisit excluded (e.mapAnn Stamp.repr) e b).1.mapAnn Stamp.repr = e.mapAnn Stamp.repr := by
  unfold postVisit at hfits ⊢
  split_ifs at hfits ⊢ with hexcluded hconst
  · exact ⟨h, rfl⟩
  · obtain ⟨hsound, hsame, -⟩ := materialize_spec e b h hconst hfits
    exact ⟨hsound, hsame⟩
  · exact ⟨h, rfl⟩

mutual

/-- **The pass writes behind what is there**, at every node. -/
theorem constAggregate_extends : ∀ (excluded : Bool) (e : Expr NodeRepr) (b : StaticMemoryBuilder),
    ∃ x, (constAggregate excluded e b).2 = b.append x
  | _, .const _ _, b | _, .ident _ _, b => extends_refl b
  | _, .select _ operand _ _, b => constAggregate_extends false operand b
  | _, .call _ _ _ operands, b => constAggregateList_extends operands b
  | excluded, .list _ elements _, b =>
    extends_trans (constAggregateList_extends elements b) (postVisit_extends excluded _ _ _)
  | excluded, .map _ entries, b =>
    extends_trans (constAggregateEntries_extends entries b) (postVisit_extends excluded _ _ _)
  | _, .struct _ _ _ values, b => constAggregateList_extends values b
  | _, .comprehension _ _ _ _ iterRange accuInit loopCondition loopStep result, b =>
    extends_trans (constAggregate_extends false iterRange b) <|
      extends_trans (constAggregate_extends true accuInit _) <|
      extends_trans (constAggregate_extends false loopCondition _) <|
      extends_trans (constAggregate_extends false loopStep _) <|
      constAggregate_extends false result _

theorem constAggregateList_extends : ∀ (es : List (Expr NodeRepr)) (b : StaticMemoryBuilder),
    ∃ x, (constAggregateList es b).2 = b.append x
  | [], b => extends_refl b
  | e :: es, b => extends_trans (constAggregate_extends false e b) (constAggregateList_extends es _)

theorem constAggregateEntries_extends : ∀ (entries : MapEntries NodeRepr) (b : StaticMemoryBuilder),
    ∃ x, (constAggregateEntries entries b).2 = b.append x
  | .nil, b => extends_refl b
  | .cons _ key value rest, b =>
    extends_trans (constAggregate_extends false key b) <|
      extends_trans (constAggregate_extends false value _) (constAggregateEntries_extends rest _)

end

/-- The second of two steps fits, so the first does. -/
theorem fits_of_extends {a b : StaticMemoryBuilder} (h : ∃ x, b = a.append x)
    (hfits : b.next < 2 ^ 32) : a.next < 2 ^ 32 := (next_le_of_extends h).trans_lt hfits

mutual

/-- **The pass only stamps, and every stamp is sound.** -/
theorem constAggregate_spec : ∀ (excluded : Bool) (e : Expr NodeRepr) (b : StaticMemoryBuilder),
    (constAggregate excluded e b).2.next < 2 ^ 32 →
    (constAggregate excluded e b).1.Forall (Sound other (constAggregate excluded e b).2) ∧
      (constAggregate excluded e b).1.mapAnn Stamp.repr = e
  | _, .const _ _, _, _ | _, .ident _ _, _, _ => ⟨sound_initial rfl rfl, rfl⟩
  | _, .select r operand field testOnly, b, hfits => by
    obtain ⟨hsound, hsame⟩ := constAggregate_spec false operand b hfits
    exact ⟨⟨sound_initial rfl rfl, hsound⟩, by rw [constAggregate, Expr.mapAnn, hsame]; rfl⟩
  | _, .call r function receiver operands, b, hfits => by
    obtain ⟨hsound, hsame⟩ := constAggregateList_spec operands b hfits
    exact ⟨⟨sound_initial rfl rfl, hsound⟩, by rw [constAggregate, Expr.mapAnn, hsame]; rfl⟩
  | excluded, .list r elements optionals, b, hfits => by
    obtain ⟨hsound, hsame⟩ := constAggregateList_spec elements b
      (fits_of_extends (postVisit_extends excluded _ _ _) hfits)
    have hnode : Expr.mapAnn Stamp.repr (.list (.initial r) (constAggregateList elements b).1 optionals)
        = .list r elements optionals := by rw [Expr.mapAnn, hsame]; rfl
    rw [constAggregate, ← hnode] at hfits ⊢
    exact postVisit_spec excluded ⟨sound_initial rfl rfl, hsound⟩ hfits
  | excluded, .map r entries, b, hfits => by
    obtain ⟨hsound, hsame⟩ := constAggregateEntries_spec entries b
      (fits_of_extends (postVisit_extends excluded _ _ _) hfits)
    have hnode : Expr.mapAnn Stamp.repr (.map (.initial r) (constAggregateEntries entries b).1)
        = .map r entries := by rw [Expr.mapAnn, hsame]; rfl
    rw [constAggregate, ← hnode] at hfits ⊢
    exact postVisit_spec excluded ⟨sound_initial rfl rfl, hsound⟩ hfits
  | _, .struct r name fields values, b, hfits => by
    obtain ⟨hsound, hsame⟩ := constAggregateList_spec values b hfits
    exact ⟨⟨sound_initial rfl rfl, hsound⟩, by rw [constAggregate, Expr.mapAnn, hsame]; rfl⟩
  | _, .comprehension r iterVar iterVar2 accuVar iterRange accuInit loopCondition loopStep result, b,
      hfits => by
    have hgrow₅ := constAggregate_extends false result (constAggregate false loopStep
      (constAggregate false loopCondition (constAggregate true accuInit
        (constAggregate false iterRange b).2).2).2).2
    have hgrow₄ := extends_trans (constAggregate_extends false loopStep (constAggregate false
      loopCondition (constAggregate true accuInit (constAggregate false iterRange b).2).2).2) hgrow₅
    have hgrow₃ := extends_trans (constAggregate_extends false loopCondition (constAggregate true
      accuInit (constAggregate false iterRange b).2).2) hgrow₄
    have hgrow₂ := extends_trans (constAggregate_extends true accuInit
      (constAggregate false iterRange b).2) hgrow₃
    obtain ⟨hsound₁, hsame₁⟩ := constAggregate_spec false iterRange b (fits_of_extends hgrow₂ hfits)
    obtain ⟨hsound₂, hsame₂⟩ := constAggregate_spec true accuInit _ (fits_of_extends hgrow₃ hfits)
    obtain ⟨hsound₃, hsame₃⟩ :=
      constAggregate_spec false loopCondition _ (fits_of_extends hgrow₄ hfits)
    obtain ⟨hsound₄, hsame₄⟩ := constAggregate_spec false loopStep _ (fits_of_extends hgrow₅ hfits)
    obtain ⟨hsound₅, hsame₅⟩ := constAggregate_spec false result _ hfits
    refine ⟨⟨sound_initial rfl rfl, hsound₁.imp fun _ h => h.extends hgrow₂,
      hsound₂.imp fun _ h => h.extends hgrow₃, hsound₃.imp fun _ h => h.extends hgrow₄,
      hsound₄.imp fun _ h => h.extends hgrow₅, hsound₅⟩, ?_⟩
    rw [constAggregate, Expr.mapAnn, hsame₁, hsame₂, hsame₃, hsame₄, hsame₅]
    rfl

/-- **The pass is sound** on the elements of a list, -/
theorem constAggregateList_spec : ∀ (es : List (Expr NodeRepr)) (b : StaticMemoryBuilder),
    (constAggregateList es b).2.next < 2 ^ 32 →
    ForallList (Sound other (constAggregateList es b).2) (constAggregateList es b).1 ∧
      mapAnnList Stamp.repr (constAggregateList es b).1 = es
  | [], _, _ => ⟨trivial, rfl⟩
  | e :: es, b, hfits => by
    have hgrow := constAggregateList_extends es (constAggregate false e b).2
    obtain ⟨hsound, hsame⟩ := constAggregate_spec false e b (fits_of_extends hgrow hfits)
    obtain ⟨hsounds, hsames⟩ := constAggregateList_spec es _ hfits
    exact ⟨⟨hsound.imp fun _ h => h.extends hgrow, hsounds⟩,
      by rw [constAggregateList, mapAnnList, hsame, hsames]⟩

/-- …and on the entries of a map. -/
theorem constAggregateEntries_spec : ∀ (entries : MapEntries NodeRepr) (b : StaticMemoryBuilder),
    (constAggregateEntries entries b).2.next < 2 ^ 32 →
    (constAggregateEntries entries b).1.Forall (Sound other (constAggregateEntries entries b).2) ∧
      (constAggregateEntries entries b).1.mapAnn Stamp.repr = entries
  | .nil, _, _ => ⟨trivial, rfl⟩
  | .cons optional key value rest, b, hfits => by
    have hgrow₃ := constAggregateEntries_extends rest
      (constAggregate false value (constAggregate false key b).2).2
    have hgrow₂ := extends_trans
      (constAggregate_extends false value (constAggregate false key b).2) hgrow₃
    obtain ⟨hsoundk, hsamek⟩ := constAggregate_spec false key b (fits_of_extends hgrow₂ hfits)
    obtain ⟨hsoundv, hsamev⟩ := constAggregate_spec false value _ (fits_of_extends hgrow₃ hfits)
    obtain ⟨hsounds, hsames⟩ := constAggregateEntries_spec rest _ hfits
    exact ⟨⟨hsoundk.imp fun _ h => h.extends hgrow₂, hsoundv.imp fun _ h => h.extends hgrow₃,
      hsounds⟩, by rw [constAggregateEntries, MapEntries.mapAnn, hsamek, hsamev, hsames]⟩

end

end Sound

/-! ## Folding preserves meaning -/

/-- **The value at an address**: some depth of following containers suffices to read it. -/
def Image.Holds (m : Image) (addr : ℕ) (v : CelValue) : Prop :=
  ∃ frame, m.readFrame addr = some frame ∧ ∃ d, ∀ depth ≥ d, m.resolve depth frame = some v

/-- At an address there is one value. -/
theorem Image.Holds.unique {m : Image} {addr : ℕ} {v v' : CelValue} (h : m.Holds addr v)
    (h' : m.Holds addr v') : v = v' := by
  obtain ⟨frame, hframe, d, hd⟩ := h
  obtain ⟨frame', hframe', d', hd'⟩ := h'
  obtain rfl := Option.some.inj (hframe.symm.trans hframe')
  exact Option.some.inj ((hd (max d d') (le_max_left _ _)).symm.trans (hd' _ (le_max_right _ _)))

/-- A frame that carries a value holds it in the image, whatever is written behind it. -/
theorem holds_of_carries {b : StaticMemoryBuilder} {addr : ℕ} {frame : RawValue} {v : CelValue}
    (hat : FrameAt b addr frame) (hv : Carries b frame v) (more : List UInt8) :
    (b.append more).Holds addr v := by
  obtain ⟨-, d, hd⟩ := hv
  exact ⟨frame, hat more, d, fun depth hdepth => hd depth hdepth more⟩

/-- **Folding a literal preserves its meaning exactly if its keys are legal.** At every node of every
expression to which the pass gives a place in rodata, the finished image holds there what the literal
is built to at run time if and only if every map literal in it has only keys of a legal kind. -/
theorem constAggregate_agrees_iff (other : Expr NodeRepr → Kernel CelValue) (e : Expr NodeRepr)
    (b : StaticMemoryBuilder) (hfits : (constAggregate false e b).2.next < 2 ^ 32) :
    (constAggregate false e b).1.mapAnn Stamp.repr = e ∧
      (constAggregate false e b).1.Forall fun node => ∀ addr, node.ann.storage = some addr →
        ∃ r, (build other (node.mapAnn Stamp.repr)).granted = .ok r ∧ ∀ more,
          (((constAggregate false e b).2.append more).Holds addr r ↔
            legalKeys (node.mapAnn Stamp.repr) = true) := by
  obtain ⟨hsound, hsame⟩ := @constAggregate_spec other false e b hfits
  refine ⟨hsame, hsound.imp fun node hnode addr haddr => ?_⟩
  obtain ⟨frame, v, hat, hv, hbuilt⟩ := hnode.2 addr haddr
  obtain ⟨r, hr, hlegal, hpoison⟩ := hbuilt.built
  refine ⟨r, hr, fun more => ⟨fun hholds => ?_, fun hkeys => ?_⟩⟩
  · by_contra hillegal
    have hrp := hpoison (Bool.eq_false_of_not_eq_true hillegal)
    rw [hholds.unique (holds_of_carries hat hv more), hbuilt.live] at hrp
    exact Bool.false_ne_true hrp
  · rw [hlegal hkeys]
    exact holds_of_carries hat hv more

/-- `{1: [true], 'k': {2: null}}`. -/
def nestedMap : Expr NodeRepr :=
  .map .map (.cons false (.const .int (.int 1)) (.list .list [.const .bool (.bool true)] [])
    (.cons false (.const .string (.string [0x6b]))
      (.map .map (.cons false (.const .int (.int 2)) (.const .null .null) .nil)) .nil))

set_option maxRecDepth 4000 in
/-- The image holds the map, with the list and the map that are in it. -/
theorem constAggregate_agrees_nested : ∃ addr,
    (constAggregate false nestedMap ⟨16, []⟩).1.ann.storage = some addr ∧
    (constAggregate false nestedMap ⟨16, []⟩).2.Holds addr
      (.mapArena 2 [(.int 1, .listArena 1 [.bool true]),
        (.string [0x6b], .mapArena 1 [(.int 2, .null)] none)] none) := by
  obtain ⟨-, hnodes⟩ :=
    constAggregate_agrees_iff (fun _ => return .null) nestedMap ⟨16, []⟩ (by decide)
  refine ⟨_, rfl, ?_⟩
  obtain ⟨r, hr, hholds⟩ := hnodes.root _ rfl
  obtain rfl := Except.ok.inj hr
  have h := (hholds []).mpr rfl
  rwa [Image.append_nil] at h

/-- An image holds no poison. -/
theorem Image.Holds.live {m : Image} {addr : ℕ} {v : CelValue} (h : m.Holds addr v) :
    v.isPoison = false := by
  obtain ⟨frame, -, d, hd⟩ := h
  have hresolve := hd (d + 1) (Nat.le_succ d)
  cases frame <;> rw [Image.resolve] at hresolve <;>
    simp only [Option.bind_eq_bind, Option.bind_eq_some_iff, Option.map_eq_some_iff,
      Option.pure_def, Option.some.injEq] at hresolve
  case string => obtain ⟨_, -, rfl⟩ := hresolve; rfl
  case bytes => obtain ⟨_, -, rfl⟩ := hresolve; rfl
  case listArena => obtain ⟨_, -, _, -, _, -, _, -, _, -, rfl⟩ := hresolve; rfl
  case mapArena => obtain ⟨_, -, _, -, _, -, _, -, _, -, _, -, _, -, rfl⟩ := hresolve; rfl
  all_goals exact hresolve ▸ rfl

/-- `{1: true, b'x': true}`: a key of a kind no map takes. -/
def bytesKeyMap : Expr NodeRepr :=
  .map .map (.cons false (.const .int (.int 1)) (.const .bool (.bool true))
    (.cons false (.const .bytes (.bytes [120])) (.const .bool (.bool true)) .nil))

/-- The map is folded; built at run time it is an error, which the image does not hold. -/
theorem bytesKeyMap_folded : ∃ addr,
    (constAggregate false bytesKeyMap ⟨16, []⟩).1.ann.storage = some addr ∧
    (build (fun _ => return .null) bytesKeyMap).granted = .ok (.error .typeMismatch) ∧
    ¬(constAggregate false bytesKeyMap ⟨16, []⟩).2.Holds addr (.error .typeMismatch) := by
  refine ⟨_, rfl, rfl, fun h => ?_⟩
  exact Bool.false_ne_true h.live.symm

end CelWasm
