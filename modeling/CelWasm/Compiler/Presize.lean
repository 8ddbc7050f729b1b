import CelWasm.Compiler.EntryMerge
import CelWasm.Eval.HostSnapshot

/-!
# Compiler/Presize — the room a comprehension sets aside

An accumulator is created with room for every iteration, and its writers trap past that room. The
capacity is the count of the source times the inserts of one iteration, in 32 bits. A list is counted
in the view that is walked; a map by a query of its own before the walk is opened, and query and walk
ask the arena for a block each. Where the product fits and both are answered, no run traps
(`presized_never_traps`).
-/

namespace CelWasm

variable {α : Type}

/-- Room for so many more elements; what is no arena container takes none. -/
def CelValue.HasRoom (n : ℕ) : CelValue → Prop
  | listArena capacity elements => elements.length + n ≤ capacity
  | mapArena capacity entries _ => entries.length + n ≤ capacity
  | _ => True

/-- How many elements or entries a source has. -/
def CelValue.sourceCount : CelValue → ℕ
  | listArena _ elements => elements.length
  | listHost elements => elements.length
  | mapArena _ entries _ => entries.length
  | mapHost entries => entries.length
  | _ => 0

/-- The steps that insert into the room set aside. The rest insert nothing, or merge a map that was
built first, and a merge grows the accumulator. -/
def LoopStepShape.usesCapacity : LoopStepShape α → Bool
  | mapMerge (.map _ entries) => !entries.toList.isEmpty
  | mapMergeIf _ (.map _ entries) => entries.toList.length == 1
  | mapMerge _ | mapMergeIf _ _ | generic => false
  | _ => true

/-- Whether a step is one of the recognised writes. -/
def LoopStepShape.isFused : LoopStepShape α → Bool
  | generic => false
  | _ => true

/-- The comprehension of a macro that accumulates: from an empty literal, by a recognised step. -/
def ComprehensionExpr.accumulates (comp : ComprehensionExpr α) : Bool :=
  isPresizableCollectionAccu comp && (classifyLoopStep comp.loopStep comp.accuVar).isFused

/-! ## The writers -/

section Writers

variable {n : ℕ} {accu : CelValue} {write : Kernel CelValue}

theorem CelValue.HasRoom.mono {m : ℕ} (h : accu.HasRoom n) (hm : m ≤ n) : accu.HasRoom m := by
  cases accu with
  | listArena capacity elements => exact (Nat.add_le_add_left hm _).trans h
  | mapArena capacity entries index => exact (Nat.add_le_add_left hm _).trans h
  | _ => trivial

theorem CelValue.hasRoom_of_isPoison (h : accu.isPoison = true) : accu.HasRoom n := by
  obtain ⟨e, rfl⟩ | ⟨s, rfl⟩ := CelValue.isPoison_iff.mp h <;> trivial

/-- A run of entries is granted or not. -/
theorem allocRun_meets (headerBytes stride : ℕ) :
    (allocRun headerBytes stride n).Meets (fun _ => True) Untrapped := by
  refine Prog.meets_alloc_bind.mpr ⟨trivial, Prog.meets_ite (fun _ => trivial) fun _ => ?_⟩
  exact Prog.meets_ite (fun _ => trivial) fun _ => Prog.meets_ite (fun _ => trivial) fun _ _ => trivial

theorem celListCreate_meets : (celListCreate n).Meets (·.HasRoom n) Untrapped :=
  (allocRun_meets 16 kCelListEntryStride).bind fun granted _ => by
    cases granted with
    | true => exact (Nat.zero_add n).le
    | false => trivial

theorem celMapCreate_meets : (celMapCreate n).Meets (·.HasRoom n) Untrapped :=
  (allocRun_meets 16 kCelMapEntryStride).bind fun granted _ => by
    cases granted with
    | true => exact (Nat.zero_add n).le
    | false => trivial

/-- An append takes up one place. -/
theorem celListAppendAt_meets (h : accu.HasRoom (n + 1)) (value : CelValue) :
    (celListAppendAt accu value).Meets (·.HasRoom n) Untrapped := by
  cases accu with
  | listArena capacity elements =>
    have hroom : elements.length + (n + 1) ≤ capacity := h
    rw [celListAppendAt, if_neg (by omega : ¬capacity ≤ elements.length)]
    split
    · exact CelValue.hasRoom_of_isPoison ‹_›
    · change (elements ++ [value]).length + n ≤ capacity
      rw [List.length_append, List.length_singleton]
      omega
  | mapArena capacity entries index => exact CelValue.HasRoom.mono h n.le_succ
  | _ => trivial

/-- An insert takes up one place. -/
theorem celMapInsertAt_meets (h : accu.HasRoom (n + 1)) (key value : CelValue) :
    (celMapInsertAt accu key value).Meets (·.HasRoom n) Untrapped := by
  cases accu with
  | mapArena capacity entries index =>
    have hroom : entries.length + (n + 1) ≤ capacity := h
    rw [celMapInsertAt]
    cases hspoil : spoil key value with
    | some p =>
      rw [mapInsertAtKernel_of_spoil hspoil]
      exact CelValue.hasRoom_of_isPoison (isPoison_of_spoil hspoil)
    | none =>
      obtain ⟨entries', hlength, hkernel⟩ := mapInsertAtKernel_of_room index hspoil
        (by omega : entries.length < capacity)
      rw [hkernel]
      change entries'.length + n ≤ capacity
      omega
  | listArena capacity elements => exact CelValue.HasRoom.mono h n.le_succ
  | _ => trivial

/-- Behind a gate, too. -/
theorem ifBool_meets {good : CelValue → Prop} (hpoison : ∀ p : CelValue, p.isPoison = true → good p)
    (haccu : good accu) (pred : CelValue) (hwrite : write.Meets good Untrapped) :
    (ifBool accu pred write).Meets good Untrapped := by
  unfold ifBool
  split
  · exact hpoison _ rfl
  · exact hpoison _ rfl
  · exact hwrite
  · exact haccu
  · exact hpoison _ rfl

theorem celListAppendAtIfBool_meets (h : accu.HasRoom (n + 1)) (pred value : CelValue) :
    (celListAppendAtIfBool accu pred value).Meets (·.HasRoom n) Untrapped := by
  cases accu with
  | listArena capacity elements =>
    exact ifBool_meets (fun _ => CelValue.hasRoom_of_isPoison) (h.mono n.le_succ) pred
      (celListAppendAt_meets h value)
  | mapArena capacity entries index => exact CelValue.HasRoom.mono h n.le_succ
  | _ => trivial

theorem celMapInsertAtIfBool_meets (h : accu.HasRoom (n + 1)) (pred key value : CelValue) :
    (celMapInsertAtIfBool accu pred key value).Meets (·.HasRoom n) Untrapped := by
  cases accu with
  | mapArena capacity entries index =>
    exact ifBool_meets (fun _ => CelValue.hasRoom_of_isPoison) (h.mono n.le_succ) pred
      (celMapInsertAt_meets h key value)
  | listArena capacity elements => exact CelValue.HasRoom.mono h n.le_succ
  | _ => trivial

/-! ## Merges -/

/-- A run grows or does not. -/
theorem arenaMapGrowOne_meets (count capacity : ℕ) :
    (arenaMapGrowOne count capacity).Meets (fun _ => True) Untrapped :=
  Prog.meets_ite (fun _ => trivial) fun _ => Prog.meets_ite (fun _ => trivial) fun _ =>
    Prog.meets_alloc_bind.mpr ⟨trivial, trivial⟩

/-- A merge inserts with leave to grow. -/
theorem mapInsertAtKernel_meets (capacity : ℕ) (entries : List (CelValue × CelValue))
    (index : Option MapIndex) (key value : CelValue) :
    (mapInsertAtKernel capacity entries index key value true).Meets (fun _ => True)
      Untrapped := by
  refine Prog.meets_ite (fun _ => trivial) fun _ => Prog.meets_ite (fun _ => trivial) fun _ =>
    Prog.meets_ite (fun _ => trivial) fun _ => ?_
  cases overwriteValue entries key value with
  | some entries' => trivial
  | none =>
    refine Prog.meets_ite (fun _ => trivial) fun _ => ?_
    exact (arenaMapGrowOne_meets entries.length capacity).bind fun grown _ => by
      cases grown <;> trivial

theorem mapMergeEntries_meets (source : List (CelValue × CelValue)) : ∀ m : CelValue,
    (mapMergeEntries m source).Meets (fun _ => True) Untrapped := by
  induction source with
  | nil => exact fun m => by cases m <;> trivial
  | cons entry source ih =>
    intro m
    cases m with
    | mapArena capacity entries index =>
      exact (mapInsertAtKernel_meets capacity entries index entry.1 entry.2).bind fun m _ => ih m
    | _ => trivial

/-- The gate of an optional entry leaves the target, poison, or what is written. -/
theorem ifPresent_meets {good : CelValue → Prop} {stops : Stop → Prop} {target : CelValue}
    (hpoison : ∀ p : CelValue, p.isPoison = true → good p) (htarget : good target) (opt : CelValue)
    {write : CelValue → Kernel CelValue} (hwrite : ∀ v, (write v).Meets good stops) :
    (ifPresent target opt write).Meets good stops := by
  unfold ifPresent
  split
  · exact hpoison _ rfl
  · exact hpoison _ rfl
  · exact hwrite _
  · exact htarget
  · exact hpoison _ rfl

/-- One entry of a literal takes up one place. -/
theorem insertLiteralEntry_meets {α : Type} {val : Valuation α} (h : accu.HasRoom (n + 1))
    (entry : Bool × Expr α × Expr α) :
    (insertLiteralEntry val accu entry).Meets (·.HasRoom n) Untrapped := by
  cases accu with
  | mapArena capacity entries index =>
    refine Prog.meets_ite (fun _ => ?_) fun _ => ?_
    · exact ifPresent_meets (fun _ => CelValue.hasRoom_of_isPoison) (h.mono n.le_succ) _
        fun v => celMapInsertAt_meets h _ v
    · have hroom : entries.length + (n + 1) ≤ capacity := h
      change (celMapInsert _ _ _).HasRoom n
      dsimp only [celMapInsert]
      split_ifs with hkey hvalue
      · exact CelValue.hasRoom_of_isPoison hkey
      · exact CelValue.hasRoom_of_isPoison hvalue
      · trivial
      · trivial
      · trivial
      · change (entries ++ [_]).length + n ≤ capacity
        rw [List.length_append, List.length_singleton]
        omega
  | listArena capacity elements =>
    exact Prog.meets_ite (fun _ => h.mono n.le_succ) fun _ => h.mono n.le_succ
  | _ => exact Prog.meets_ite (fun _ => trivial) fun _ => trivial

theorem celMapIndexBuild_meets (m : CelValue) :
    (celMapIndexBuild m).Meets (fun _ => True) Untrapped := by
  cases m with
  | mapArena capacity entries index =>
    refine Prog.meets_ite (fun _ => trivial) fun _ => Prog.meets_alloc_bind.mpr ⟨trivial, ?_⟩
    change (publishIndex capacity entries _).Meets _ _
    unfold publishIndex
    split
    · exact nofun
    · trivial
    · trivial
  | _ => trivial

/-- A literal is built in the room its entries need. -/
theorem mapLiteral_meets {α : Type} (val : Valuation α) (entries : List (Bool × Expr α × Expr α)) :
    (mapLiteral val entries).Meets (fun _ => True) Untrapped := by
  rw [mapLiteral_eq]
  refine celMapCreate_meets.bind fun m hm => ?_
  refine (Prog.meets_foldlM (fun entry rest m h => insertLiteralEntry_meets h entry) entries m
    hm).bind fun m _ => ?_
  exact celMapIndexBuild_meets m

end Writers

/-! ## Host containers -/

section Snapshots

/-- **The walk of a list** has its elements, or one of poison. -/
theorem celListArenaView_meets (host : CelHost) (list : CelValue) :
    (celListArenaView host.withSnapshots list).Meets
      (fun elements => elements.length ≤ max 1 list.sourceCount) Untrapped := by
  have hcells : (listCells list).length ≤ list.sourceCount := by
    cases list with
    | listArena capacity elements => exact le_rfl
    | listHost elements => exact (List.length_map _).le
    | _ => exact Nat.zero_le _
  refine (celListArenaView_withSnapshots_meets host list).mono ?_ fun _ => Stop.OfCopy.untrapped
  rintro elements (rfl | rfl | ⟨poison, rfl, -⟩)
  · exact le_max_of_le_right hcells
  · exact Nat.zero_le _
  · exact le_max_left _ _

/-- A host map is walked in its entries, or in one of poison. -/
theorem mapIterInitHost_meets (host : CelHost) (entries : List (HostValue × HostValue)) :
    (mapIterInitHost host.withSnapshots (.mapHost entries)).Meets
      (fun walked => walked.length ≤ max 1 entries.length) Untrapped := by
  refine Prog.meets_alloc_bind.mpr ⟨fun _ => le_max_left _ _, ?_⟩
  refine (celMapIterOpenImpl_meets entries).mono ?_ fun _ => Stop.OfCopy.untrapped
  rintro walked (rfl | rfl)
  · exact le_max_of_le_right (List.length_map _).le
  · exact Nat.zero_le _

/-- **A merge never traps.** -/
theorem celMapMergeAt_meets (host : CelHost) (m entry : CelValue) :
    (celMapMergeAt host.withSnapshots m entry).Meets (fun _ => True) Untrapped := by
  cases m with
  | mapArena capacity entries index =>
    refine Prog.meets_ite (fun _ => trivial) fun _ => ?_
    cases entry with
    | mapArena capacity' source index' => exact mapMergeEntries_meets source _
    | mapHost source =>
      refine (mapIterInitHost_meets host source).bind fun walked _ => ?_
      cases walked with
      | nil => trivial
      | cons e walked =>
        refine Prog.meets_alloc_bind.mpr ⟨trivial, mapMergeEntries_meets _ _⟩
    | _ => trivial
  | _ => trivial

theorem celMapMergeAtIfBool_meets (host : CelHost) (m pred entry : CelValue) :
    (celMapMergeAtIfBool host.withSnapshots m pred entry).Meets (fun _ => True) Untrapped := by
  cases m with
  | mapArena capacity entries index =>
    exact ifBool_meets (fun _ _ => trivial) trivial pred (celMapMergeAt_meets host _ entry)
  | _ => trivial

end Snapshots

/-! ## The loop -/

/-- **Room for the iterations to come**, where the step needs it. -/
def LoopStepShape.Provided (shape : LoopStepShape α) (iterations : ℕ) (accu : CelValue) : Prop :=
  shape.usesCapacity = true → accu.HasRoom (iterations * perIterEntryCount shape)

section Loop

variable (host : CelHost) {accuVar : String} {step : Expr α} {n : ℕ} {accu : CelValue}

/-- A step of one insert. -/
theorem provided_of_hasRoom {shape : LoopStepShape α} {write : Kernel CelValue}
    (hone : perIterEntryCount shape = 1) (huses : shape.usesCapacity = true)
    (h : shape.Provided (n + 1) accu)
    (hwrite : accu.HasRoom (n + 1) → write.Meets (·.HasRoom n) Untrapped) :
    write.Meets (shape.Provided n) Untrapped := by
  have hroom := h huses
  rw [hone, mul_one] at hroom
  refine (hwrite hroom).mono (fun m hm _ => ?_) fun _ => id
  rwa [hone, mul_one]

/-- A step that leaves the room alone. -/
theorem provided_of_not_usesCapacity {shape : LoopStepShape α} {write : Kernel CelValue}
    (huses : shape.usesCapacity = false) (hwrite : write.Meets (fun _ => True) Untrapped) :
    write.Meets (shape.Provided n) Untrapped :=
  hwrite.mono (fun _ _ h => absurd (huses.symm.trans h) Bool.false_ne_true) fun _ => id

theorem mapMergeStep_meets (val : Valuation α) (entry : Expr α)
    (h : (LoopStepShape.mapMerge entry).Provided (n + 1) accu) :
    (mapMergeStep host.withSnapshots val accu entry).Meets
      ((LoopStepShape.mapMerge entry).Provided n) Untrapped := by
  cases entry with
  | map a entries =>
    cases hentries : entries.toList with
    | nil =>
      have huses : (LoopStepShape.mapMerge (.map a entries)).usesCapacity = false := by
        rw [LoopStepShape.usesCapacity, hentries]
        rfl
      refine provided_of_not_usesCapacity huses ?_
      rw [mapMergeStep, hentries]
      trivial
    | cons e es =>
      have huses : (LoopStepShape.mapMerge (.map a entries)).usesCapacity = true := by
        rw [LoopStepShape.usesCapacity, hentries]
        rfl
      have hroom := h huses
      rw [perIterEntryCount, Nat.succ_mul, Nat.add_comm] at hroom
      refine (Prog.meets_foldlM (I := fun rest m =>
        m.HasRoom (rest.length + n * entries.toList.length)) (fun entry rest m hm => ?_)
        entries.toList accu hroom).mono (fun m hm _ => ?_) fun _ => id
      · rw [List.length_cons, Nat.add_right_comm] at hm
        exact celMapInsertAt_meets hm _ _
      · rwa [List.length_nil, Nat.zero_add] at hm
  | _ => exact provided_of_not_usesCapacity rfl (celMapMergeAt_meets host accu _)

theorem mapMergeIfStep_meets (val : Valuation α) (pred entry : Expr α)
    (h : (LoopStepShape.mapMergeIf pred entry).Provided (n + 1) accu) :
    (mapMergeIfStep host.withSnapshots val accu pred entry).Meets
      ((LoopStepShape.mapMergeIf pred entry).Provided n) Untrapped := by
  cases entry with
  | map a entries =>
    rw [mapMergeIfStep]
    match hentries : entries.toList with
    | [] =>
      refine provided_of_not_usesCapacity ?_ trivial
      rw [LoopStepShape.usesCapacity, hentries]
      rfl
    | [(optional, key, value)] =>
      refine provided_of_hasRoom ?_ ?_ h fun hroom => celMapInsertAtIfBool_meets hroom _ _ _
      · rw [perIterEntryCount, hentries]
        rfl
      · rw [LoopStepShape.usesCapacity, hentries]
        rfl
    | e :: e' :: es =>
      refine provided_of_not_usesCapacity ?_ ((mapLiteral_meets val _).bind fun m _ =>
        celMapMergeAtIfBool_meets host accu _ m)
      rw [LoopStepShape.usesCapacity, hentries]
      rfl
  | _ => exact provided_of_not_usesCapacity rfl (celMapMergeAtIfBool_meets host accu _ _)

/-- **One iteration** takes up its share of the room. -/
theorem compLoopStep_meets (hshape : (classifyLoopStep step accuVar).isFused = true)
    (val : Valuation α) (h : (classifyLoopStep step accuVar).Provided (n + 1) accu) :
    (compLoopStep host.withSnapshots accuVar val accu step).Meets
      ((classifyLoopStep step accuVar).Provided n) Untrapped := by
  unfold compLoopStep
  cases hclass : classifyLoopStep step accuVar with
  | listAppend elem =>
    exact provided_of_hasRoom rfl rfl (hclass ▸ h) fun hroom => celListAppendAt_meets hroom _
  | listAppendIf pred elem =>
    exact provided_of_hasRoom rfl rfl (hclass ▸ h) fun hroom =>
      celListAppendAtIfBool_meets hroom _ _
  | mapInsert key value =>
    exact provided_of_hasRoom rfl rfl (hclass ▸ h) fun hroom => celMapInsertAt_meets hroom _ _
  | mapInsertIf pred key value =>
    exact provided_of_hasRoom rfl rfl (hclass ▸ h) fun hroom =>
      celMapInsertAtIfBool_meets hroom _ _ _
  | mapMerge entry => exact mapMergeStep_meets host val entry (hclass ▸ h)
  | mapMergeIf pred entry => exact mapMergeIfStep_meets host val pred entry (hclass ▸ h)
  | generic =>
    rw [hclass] at hshape
    exact absurd hshape Bool.false_ne_true

/-- A loop whose steps each take up their share. -/
theorem compLoop_meets {β : Type} {exit : LoopExit} {step : CelValue → β → Kernel CelValue}
    {I : ℕ → CelValue → Prop}
    (hstep : ∀ n accu x, I (n + 1) accu → (step accu x).Meets (I n) Untrapped) :
    ∀ (walked : List β) (accu : CelValue), I walked.length accu →
      (compLoop exit step accu walked).Meets (fun _ => True) Untrapped
  | [], _, _ => trivial
  | x :: walked, accu, h => Prog.meets_ite (fun _ => trivial) fun _ =>
    (hstep _ accu x h).bind fun accu h => compLoop_meets hstep walked accu h

end Loop

/-! ## The whole lowering -/

section Whole

variable (host : CelHost) {comp : ComprehensionExpr α} {exit : LoopExit} (range init : CelValue)
  {β : Type}

/-- The product of the counts, where the step uses it, is one that 32 bits hold. -/
def CapacityFits (comp : ComprehensionExpr α) (count : ℕ) : Prop :=
  (classifyLoopStep comp.loopStep comp.accuVar).usesCapacity = true →
    count * perIterEntryCount (classifyLoopStep comp.loopStep comp.accuVar) < 2 ^ 32

/-- An accumulator that is created has the room of its capacity. -/
theorem initAccu_meets (hcomp : isPresizableCollectionAccu comp = true) (count : ℕ) :
    (initAccu comp init count).Meets (·.HasRoom
      (count * perIterEntryCount (classifyLoopStep comp.loopStep comp.accuVar) % 2 ^ 32))
      Untrapped := by
  unfold isPresizableCollectionAccu at hcomp
  unfold initAccu
  split at hcomp
  · exact celListCreate_meets
  · exact celMapCreate_meets
  · exact absurd hcomp Bool.false_ne_true

/-- **Past a prologue that provides for its walk**, nothing traps. -/
theorem guardedLoop_run {prologue : Kernel (CelValue × List β)} {answer : List ℕ → Bool}
    {past : List ℕ} (hfused : (classifyLoopStep comp.loopStep comp.accuVar).isFused = true)
    (val : β → Valuation α) (hmeets : prologue.Meets (fun _ => True) Untrapped)
    (hprovided : range.isPoison = false → ∀ p, prologue.run answer past = .ok p →
      (classifyLoopStep comp.loopStep comp.accuVar).Provided p.2.length p.1)
    (resultVal : Valuation α) :
    (guardedLoop host.withSnapshots comp range exit prologue val >>= fun accu =>
      return readAccu comp.accuVar resultVal accu comp.result).run answer past
        ≠ .error .trap := by
  unfold guardedLoop
  split
  · exact nofun
  · next hrange =>
    rw [bind_assoc]
    intro htrap
    refine @Prog.stops_of_run_bind _ _ _ Untrapped answer past prologue _ (fun _ => True)
      (fun p hp => ?_) (fun e he => hmeets.stops_of_run he) _ htrap rfl
    have hroom := hprovided (Bool.eq_false_of_not_eq_true hrange) p hp
    refine Prog.meets_bind.mpr ?_
    refine (compLoop_meets (I := (classifyLoopStep comp.loopStep comp.accuVar).Provided)
      (fun n accu x h => compLoopStep_meets host hfused (val x) h) p.2 p.1 hroom).bind fun accu _ => ?_
    exact Prog.meets_ite (fun _ => celMapIndexBuild_meets accu) fun _ => trivial

/-- A list is walked in the view it is counted in. -/
theorem listPrologue_meets (hcomp : isPresizableCollectionAccu comp = true)
    (hfits : CapacityFits comp (max 1 range.sourceCount)) :
    (listPrologue host.withSnapshots comp range init).Meets (fun p =>
      (classifyLoopStep comp.loopStep comp.accuVar).Provided p.2.length p.1) Untrapped := by
  refine (celListArenaView_meets host range).bind fun elements hlength => ?_
  refine (initAccu_meets init hcomp elements.length).bind fun accu hroom huses => ?_
  rw [Nat.mod_eq_of_lt ((Nat.mul_le_mul_right _ hlength).trans_lt (hfits huses))] at hroom
  rwa [List.length_zipIdx]

/-- An arena map is walked in the entries that are counted. -/
theorem mapPrologue_meets_mapArena (capacity : ℕ) (entries : List (CelValue × CelValue))
    (index : Option MapIndex) (hcomp : isPresizableCollectionAccu comp = true)
    (hfits : CapacityFits comp entries.length) :
    (mapPrologue host.withSnapshots comp (.mapArena capacity entries index) init).Meets (fun p =>
      (classifyLoopStep comp.loopStep comp.accuVar).Provided p.2.length p.1) Untrapped := by
  have hwalk : (celMapIterInit host.withSnapshots (.mapArena capacity entries index)).Meets
      (fun walked => walked.length ≤ entries.length) Untrapped := by
    cases entries with
    | nil => exact le_rfl
    | cons e entries =>
      exact Prog.meets_alloc_bind.mpr ⟨fun _ => Nat.succ_le_of_lt (Nat.succ_pos _), le_rfl⟩
  unfold mapPrologue
  rw [if_pos hcomp]
  refine (initAccu_meets init hcomp entries.length).bind fun accu hroom => ?_
  refine hwalk.bind fun walked hlength huses => ?_
  rw [Nat.mod_eq_of_lt (hfits huses)] at hroom
  exact hroom.mono (Nat.mul_le_mul_right _ hlength)

/-- The prologue over a host map, from its count on. -/
def mapPrologueFrom (comp : ComprehensionExpr α) (entries : List (HostValue × HostValue))
    (count : ℕ) : Kernel (CelValue × List (CelValue × CelValue)) := do
  let accu ← initAccu comp init count
  let walked ← mapIterInitHost host.withSnapshots (.mapHost entries)
  return (accu, walked)

theorem mapPrologue_mapHost (entries : List (HostValue × HostValue))
    (hcomp : isPresizableCollectionAccu comp = true) :
    mapPrologue host.withSnapshots comp (.mapHost entries) init = Prog.ask 24 fun answer =>
      mapPrologueFrom host init comp entries (if answer then entries.length % 2 ^ 32 else 0) := by
  unfold mapPrologue
  rw [if_pos hcomp]
  exact congrArg (Prog.ask 24) (funext fun answer => by cases answer <;> rfl)

theorem mapPrologueFrom_meets (hcomp : isPresizableCollectionAccu comp = true)
    (entries : List (HostValue × HostValue)) (count : ℕ) :
    (mapPrologueFrom host init comp entries count).Meets (fun p => p.1.HasRoom
      (count * perIterEntryCount (classifyLoopStep comp.loopStep comp.accuVar) % 2 ^ 32) ∧
        p.2.length ≤ max 1 entries.length) Untrapped :=
  (initAccu_meets init hcomp count).bind fun _ hroom =>
    (mapIterInitHost_meets host entries).bind fun _ hlength => ⟨hroom, hlength⟩

/-- Whatever the source, the prologue over a map does not trap. -/
theorem mapPrologue_meets (hcomp : isPresizableCollectionAccu comp = true) :
    (mapPrologue host.withSnapshots comp range init).Meets (fun _ => True) Untrapped := by
  have hcount : (celMapCount range).Meets (fun _ => True) Untrapped := by
    cases range with
    | mapHost entries => exact Prog.meets_alloc_bind.mpr ⟨trivial, trivial⟩
    | _ => trivial
  have hwalk : (celMapIterInit host.withSnapshots range).Meets (fun _ => True) Untrapped := by
    cases range with
    | mapArena capacity entries index =>
      cases entries with
      | nil => trivial
      | cons e entries => exact Prog.meets_alloc_bind.mpr ⟨fun _ => trivial, trivial⟩
    | mapHost entries => exact (mapIterInitHost_meets host entries).mono (fun _ _ => trivial) fun _ => id
    | _ => exact fun _ => trivial
  unfold mapPrologue
  rw [if_pos hcomp]
  exact hcount.bind fun count _ => (initAccu_meets init hcomp count).bind fun accu _ =>
    hwalk.bind fun walked _ => trivial

/-- **The queries before the loop are answered**: a host map's count gets its cell, and the walk of an
empty one its state, unless the accumulator was not created either. -/
def QueriesAnswered (answer : List ℕ → Bool) (past : List ℕ) : CelValue → Prop
  | .mapHost entries => answer (24 :: past) = true ∧
      (entries = [] → answer (16 :: 24 :: past) = true → answer (16 :: 16 :: 24 :: past) = true)
  | _ => True

/-- Without iterations, an accumulator is a header or an error. -/
theorem initAccu_zero (hcomp : isPresizableCollectionAccu comp = true) :
    ∃ created : CelValue, created.HasRoom 0 ∧ initAccu comp init 0 = Prog.ask 16 fun answer =>
      Prog.ret (if answer then created else .error .overflow) := by
  unfold isPresizableCollectionAccu at hcomp
  unfold initAccu
  split at hcomp
  · refine ⟨.listArena 0 [], le_rfl, ?_⟩
    rw [Nat.zero_mul, Nat.zero_mod]
    exact congrArg (Prog.ask 16) (funext fun answer => by cases answer <;> rfl)
  · refine ⟨.mapArena 0 [] none, le_rfl, ?_⟩
    rw [Nat.zero_mul, Nat.zero_mod]
    exact congrArg (Prog.ask 16) (funext fun answer => by cases answer <;> rfl)
  · exact absurd hcomp Bool.false_ne_true

theorem mapPrologueFrom_nil {answer : List ℕ → Bool} {past : List ℕ}
    (hcomp : isPresizableCollectionAccu comp = true)
    (hstate : answer (16 :: past) = true → answer (16 :: 16 :: past) = true)
    {p : CelValue × List (CelValue × CelValue)}
    (hrun : (mapPrologueFrom host init comp [] 0).run answer past = .ok p) (shape : LoopStepShape α) :
    shape.Provided p.2.length p.1 := by
  obtain ⟨created, hcreated, hinit⟩ := initAccu_zero init hcomp
  rw [mapPrologueFrom, hinit] at hrun
  change (Prog.run answer (16 :: past) (mapIterInitHost host.withSnapshots (.mapHost []) >>=
    fun walked => Prog.ret (if answer (16 :: past) then created else .error .overflow, walked)))
      = .ok p at hrun
  cases hheader : answer (16 :: past) with
  | false =>
    have hpoison : (mapIterInitHost host.withSnapshots (.mapHost []) >>= fun walked =>
        Prog.ret (CelValue.error .overflow, walked)).Meets (fun p => p.1 = .error .overflow)
          Untrapped := (mapIterInitHost_meets host []).bind fun _ _ => rfl
    rw [hheader] at hrun
    intro _
    rw [hpoison.good_of_run hrun]
    trivial
  | true =>
    rw [hheader] at hrun
    change Prog.run answer (16 :: 16 :: past) ((if answer (16 :: 16 :: past) = true then
      host.withSnapshots.mapIterOpen (.mapHost []) else _) >>= _) = .ok p at hrun
    rw [hstate hheader] at hrun
    obtain rfl := Except.ok.inj hrun
    intro _
    rw [List.length_nil, Nat.zero_mul]
    exact hcreated

/-- **The prologue over a host map** provides for the walk once its queries are answered. -/
theorem mapPrologue_run_mapHost {answer : List ℕ → Bool} {past : List ℕ}
    {entries : List (HostValue × HostValue)} (hcomp : isPresizableCollectionAccu comp = true)
    (hfits : CapacityFits comp entries.length)
    (hqueries : QueriesAnswered answer past (.mapHost entries))
    {p : CelValue × List (CelValue × CelValue)}
    (hrun : (mapPrologue host.withSnapshots comp (.mapHost entries) init).run answer past = .ok p) :
    (classifyLoopStep comp.loopStep comp.accuVar).Provided p.2.length p.1 := by
  rw [mapPrologue_mapHost host init entries hcomp] at hrun
  change Prog.run answer (24 :: past) (mapPrologueFrom host init comp entries
    (if answer (24 :: past) = true then entries.length % 2 ^ 32 else 0)) = .ok p at hrun
  rw [if_pos hqueries.1] at hrun
  cases entries with
  | nil => exact mapPrologueFrom_nil host init hcomp (hqueries.2 rfl) hrun _
  | cons e entries =>
    obtain ⟨hroom, hlength⟩ :=
      (mapPrologueFrom_meets host init hcomp (e :: entries) _).good_of_run hrun
    rw [max_eq_right (List.length_pos_of_mem List.mem_cons_self)] at hlength
    intro huses
    rw [Nat.mod_mul_mod, Nat.mod_eq_of_lt (hfits huses)] at hroom
    exact hroom.mono (Nat.mul_le_mul_right _ hlength)

end Whole

/-- **What is asked of one run** of a lowered comprehension: past the range guard the accumulator has
room for all that the walk inserts, and the run does not trap. -/
def NeverOverflows {β : Type} (comp : ComprehensionExpr α) (range : CelValue)
    (prologue : Kernel (CelValue × List β)) (lowered : Option (Kernel CelValue))
    (answer : List ℕ → Bool) (past : List ℕ) : Prop :=
  (range.isPoison = false → ∀ p, prologue.run answer past = .ok p →
    (classifyLoopStep comp.loopStep comp.accuVar).Provided p.2.length p.1) ∧
  ∀ kernel ∈ lowered, kernel.run answer past ≠ .error .trap

/-- What the range of a comprehension over a map may come to. -/
def CelValue.IsMapSource : CelValue → Prop
  | mapArena _ _ _ | mapHost _ => True
  | v => v.isPoison = true

/-- **Accumulators never overflow** in the runs in which the capacity fits and, for a map whose step
uses the room, the queries before the loop are answered: whatever the source, what the step comes to in
each iteration, and what else the arena refuses. -/
theorem presized_never_traps (host : CelHost) (comp : ComprehensionExpr α)
    (hcomp : comp.accumulates = true) (range init : CelValue) (resultVal : Valuation α)
    (answer : List ℕ → Bool) (past : List ℕ) :
    (CapacityFits comp (max 1 range.sourceCount) → ∀ val,
      NeverOverflows comp range (listPrologue host.withSnapshots comp range init)
        (lowerListComprehension host.withSnapshots comp range init val resultVal) answer past) ∧
    (range.IsMapSource → CapacityFits comp range.sourceCount →
      ((classifyLoopStep comp.loopStep comp.accuVar).usesCapacity = true →
        QueriesAnswered answer past range) → ∀ val,
      NeverOverflows comp range (mapPrologue host.withSnapshots comp range init)
        (lowerMapComprehension host.withSnapshots comp range init val resultVal) answer past) := by
  obtain ⟨hpresizable, hfused⟩ := Bool.and_eq_true_iff.mp hcomp
  constructor
  · intro hfits val
    have hprologue := listPrologue_meets host range init hpresizable hfits
    refine ⟨fun _ p hp => hprologue.good_of_run hp, fun kernel hkernel => ?_⟩
    obtain ⟨exit, -, rfl⟩ := Option.map_eq_some_iff.mp hkernel
    exact guardedLoop_run host range hfused _ (hprologue.mono (fun _ _ => trivial) fun _ => id)
      (fun _ p hp => hprologue.good_of_run hp) resultVal
  · intro hsource hfits hqueries val
    have hprovided : range.isPoison = false → ∀ p,
        (mapPrologue host.withSnapshots comp range init).run answer past = .ok p →
          (classifyLoopStep comp.loopStep comp.accuVar).Provided p.2.length p.1 := by
      intro hrange p hp huses
      cases range with
      | mapArena capacity entries index =>
        exact (mapPrologue_meets_mapArena host init capacity entries index hpresizable
          hfits).good_of_run hp huses
      | mapHost entries =>
        exact mapPrologue_run_mapHost host init hpresizable hfits (hqueries huses) hp huses
      | _ => exact absurd (hrange.symm.trans hsource) Bool.false_ne_true
    refine ⟨hprovided, fun kernel hkernel => ?_⟩
    obtain ⟨exit, -, rfl⟩ := Option.map_eq_some_iff.mp hkernel
    exact guardedLoop_run host range hfused _ (mapPrologue_meets host range init hpresizable)
      hprovided resultVal

/-! ## The runs that trap -/

/-- `m.map(k, 1)`. -/
def mapOnes : ComprehensionExpr Unit where
  iterVar := "k"
  iterVar2 := ""
  iterRange := .ident () "m"
  accuVar := "@result"
  accuInit := .list () [] []
  loopCondition := .const () (.bool true)
  loopStep := .call () "_+_" false
    [.ident () "@result", .list () [.const () (.int 1)] []]
  result := .ident () "@result"

/-- A map that the host bound, with one entry. -/
def boundMap : CelValue := .mapHost [(.string [97], .int 7)]

/-- Both queries of the walk are answered. -/
theorem presized_never_traps_bound : NeverOverflows mapOnes boundMap
    (mapPrologue CelHost.stubs.withSnapshots mapOnes boundMap .null)
    (lowerMapComprehension CelHost.stubs.withSnapshots mapOnes boundMap .null
      (fun _ _ => .int 1) (fun _ => .null)) (fun _ => true) [] :=
  (presized_never_traps .stubs mapOnes rfl boundMap .null (fun _ => .null) (fun _ => true) []).2
    trivial (fun _ => by decide) (fun _ => ⟨rfl, nofun⟩) _

/-- An arena with sixteen bytes to spare refuses the cell of the count and grants the header of the
list; the walk's state is refused too, and its one entry of poison appends a 1 to no room. -/
theorem presized_traps : mapOnes.accumulates = true ∧ ∃ kernel,
    lowerMapComprehension CelHost.stubs.withSnapshots mapOnes boundMap .null
      (fun _ _ => .int 1) (fun _ => .null) = some kernel ∧
    kernel.run (fun past => past == [16, 24]) [] = .error .trap :=
  ⟨rfl, _, rfl, rfl⟩

end CelWasm
