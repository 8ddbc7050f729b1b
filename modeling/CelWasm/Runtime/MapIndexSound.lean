import CelWasm.Runtime.MapIndex

/-!
# Runtime/MapIndexSound — the index agrees with a linear scan

The index read as a table of entries (`MapIndex.table`) is an open-addressing table whose looks are
honest (`answers_probeGroup`): the word tricks flag every lane with the wanted control byte and only
full lanes, and equal keys have equal control bytes. `Indexes` is the invariant of the placement
loop, and from it `celMapIndexFind_eq_scan`: a probe of a built index finds what a scan of the entries
finds.
-/

namespace CelWasm

open OpenAddressing (Probe walk Answers Placed)
open TriangularProbe (groupStart)

/-! ## Lanes -/

theorem celH2_lt (h : UInt64) : (celH2 h).toNat < 128 := by
  have : (celH2 h).toNat = h.toNat % 2 ^ 7 := by
    rw [celH2, UInt64.toNat_toUInt8, UInt64.toNat_and, show (0x7F : UInt64).toNat = 2 ^ 7 - 1 from rfl,
      Nat.and_two_pow_sub_one_eq_mod]
    omega
  omega

theorem mem_lanes {mask : BitVec 64} {j : ℕ} :
    j ∈ lanes mask ↔ ∃ i, mask.getLsbD i = true ∧ i / 8 = j := by
  simp [lanes, Swar.mem_setBits]

/-- **Every lane that holds the wanted control byte is flagged.** -/
theorem mem_lanes_groupMatch {bytes : List UInt8} {h2 : UInt8} {j : ℕ} (hj : j < 8)
    (h : bytes.getD j 0 = h2) : j ∈ lanes (groupMatch (Swar.word bytes) h2) := by
  refine mem_lanes.mpr ⟨8 * j + 7, Swar.getLsbD_zeroLane hj fun i hi => ?_, by omega⟩
  rw [BitVec.getLsbD_xor, Swar.getLsbD_word hi hj, Swar.getLsbD_lsbs_mul hi hj, h, Bool.xor_self]

/-- **A flagged lane is full**: its top bit is clear, and the empty control byte's is set. -/
theorem of_mem_lanes_groupMatch {bytes : List UInt8} {h2 : UInt8} (hh2 : h2.toNat < 128) {j : ℕ}
    (h : j ∈ lanes (groupMatch (Swar.word bytes) h2)) : j < 8 ∧ bytes.getD j 0 ≠ kEmpty := by
  obtain ⟨i, hi, rfl⟩ := mem_lanes.mp h
  obtain ⟨hi64, hi7, hclear⟩ := Swar.of_getLsbD_zeroLane hi
  have hj : i / 8 < 8 := by omega
  have htop : h2.toNat.testBit 7 = false := Nat.testBit_lt_two_pow hh2
  refine ⟨hj, fun hempty => ?_⟩
  rw [show i = 8 * (i / 8) + 7 by omega, BitVec.getLsbD_xor, Swar.getLsbD_word (by omega) hj,
    Swar.getLsbD_lsbs_mul (by omega) hj, hempty, htop] at hclear
  exact absurd hclear (by decide)

/-- **The empty lanes are exactly the lanes that hold the empty control byte.** -/
theorem mem_lanes_groupMatchEmpty {bytes : List UInt8}
    (hbytes : ∀ j < 8, bytes.getD j 0 = kEmpty ∨ (bytes.getD j 0).toNat < 128) {j : ℕ} :
    j ∈ lanes (groupMatchEmpty (Swar.word bytes)) ↔ j < 8 ∧ bytes.getD j 0 = kEmpty := by
  rw [mem_lanes]
  constructor
  · rintro ⟨i, hi, rfl⟩
    rw [groupMatchEmpty, BitVec.getLsbD_and, BitVec.getLsbD_and, Swar.getLsbD_msbs] at hi
    simp only [Bool.and_eq_true, decide_eq_true_eq] at hi
    have hj : i / 8 < 8 := by omega
    refine ⟨hj, (hbytes _ hj).resolve_right fun hlt => ?_⟩
    have hset := hi.1.1
    rw [show i = 8 * (i / 8) + 7 by omega, Swar.getLsbD_word (by omega) hj,
      Nat.testBit_lt_two_pow hlt] at hset
    exact Bool.false_ne_true hset
  · rintro ⟨hj, hempty⟩
    refine ⟨8 * j + 7, ?_, by omega⟩
    have h7 : (Swar.word bytes).getLsbD (8 * j + 7) = true := by
      rw [Swar.getLsbD_word (by omega) hj, hempty]
      decide
    have h1 : (Swar.word bytes).getLsbD (8 * j + 1) = false := by
      rw [Swar.getLsbD_word (by omega) hj, hempty]
      decide
    rw [groupMatchEmpty, BitVec.getLsbD_and, BitVec.getLsbD_and, Swar.getLsbD_msbs, h7,
      BitVec.getLsbD_shiftLeft, BitVec.getLsbD_not, show 8 * j + 7 - 6 = 8 * j + 1 by omega, h1,
      decide_eq_true (by omega : 8 * j + 7 < 64), decide_eq_true (by omega : 8 * j + 1 < 64),
      decide_eq_true (by omega : (8 * j + 7) % 8 = 7), decide_eq_false (by omega : ¬ 8 * j + 7 < 6)]
    rfl

/-! ## The index as a table -/

/-- The entry each slot of the index holds. -/
def MapIndex.table (index : MapIndex) (numSlots s : ℕ) : Option ℕ :=
  if s < numSlots ∧ index.ctrl.getD s 0 ≠ kEmpty then some (index.slots.getD s 0) else none

/-- An index block of `numSlots` slots: its lengths, the copied control bytes, and no control byte
but a full or an empty one. -/
structure MapIndex.WellFormed (index : MapIndex) (numSlots : ℕ) : Prop where
  length_ctrl : index.ctrl.length = numSlots + 7
  length_slots : index.slots.length = numSlots
  clone : ∀ s < 7, index.ctrl.getD (s + numSlots) 0 = index.ctrl.getD s 0
  byte : ∀ s < numSlots, index.ctrl.getD s 0 = kEmpty ∨ (index.ctrl.getD s 0).toNat < 128

/-- The slots of the `t`-th group of a probe that starts at `start`. -/
def groupSlots (numSlots start t : ℕ) : Set ℕ :=
  { s | ∃ lane < 8, s = (groupStart kGroupWidth numSlots start t + lane) % numSlots }

section Look

variable {keys : List CelValue} {index : MapIndex} {numSlots : ℕ} {key : CelValue}

/-- A group load sees the control byte of every slot it covers, wrapped or not. -/
theorem getD_groupBytes (hw : index.WellFormed numSlots) (h7 : 7 ≤ numSlots) {seq lane : ℕ}
    (hseq : seq < numSlots) (hlane : lane < 8) :
    ((index.ctrl.drop seq).take kGroupWidth).getD lane 0
      = index.ctrl.getD ((seq + lane) % numSlots) 0 := by
  have hload : ((index.ctrl.drop seq).take kGroupWidth).getD lane 0
      = index.ctrl.getD (seq + lane) 0 := by
    simp [List.getD_eq_getElem?_getD, kGroupWidth, hlane]
  rw [hload]
  rcases Nat.lt_or_ge (seq + lane) numSlots with hlt | hge
  · rw [Nat.mod_eq_of_lt hlt]
  · have hclone := hw.clone (seq + lane - numSlots) (by omega)
    rw [Nat.sub_add_cancel hge] at hclone
    rw [hclone, Nat.mod_eq_sub_mod hge, Nat.mod_eq_of_lt (by omega)]

/-- Equal keys have equal control bytes in `index`, and nothing else is asked of its entries. -/
def Tagged (keys : List CelValue) (index : MapIndex) (numSlots : ℕ) (key : CelValue) : Prop :=
  ∀ s < numSlots, ∀ e, index.table numSlots s = some e →
    celMapKeyEq (indexMapEntryKey keys e) key = true →
      index.ctrl.getD s 0 = celH2 (celMapKeyHash key)

/-- **Every look of the probe is honest.** -/
theorem answers_probeGroup (hw : index.WellFormed numSlots) (h7 : 7 ≤ numSlots)
    (htag : Tagged keys index numSlots key) (start t : ℕ) :
    Answers (index.table numSlots) (fun e => celMapKeyEq (indexMapEntryKey keys e) key = true)
      (groupSlots numSlots start t)
      (probeGroup keys index numSlots key (groupStart kGroupWidth numSlots start t)) := by
  have hseq : groupStart kGroupWidth numSlots start t < numSlots := Nat.mod_lt _ (by omega)
  have hbyte := fun lane (hlane : lane < 8) => getD_groupBytes hw h7 hseq hlane
  unfold groupSlots probeGroup celGroupLoad
  generalize groupStart kGroupWidth numSlots start t = seq at hseq hbyte ⊢
  generalize (index.ctrl.drop seq).take kGroupWidth = bytes at hbyte ⊢
  have hslot : ∀ lane, (seq + lane) % numSlots < numSlots := fun _ => Nat.mod_lt _ (by omega)
  have hfull : ∀ lane < 8, bytes.getD lane 0 ≠ kEmpty → index.table numSlots
      ((seq + lane) % numSlots) = some (index.slots.getD ((seq + lane) % numSlots) 0) :=
    fun lane hlane hne => if_pos ⟨hslot lane, hbyte lane hlane ▸ hne⟩
  dsimp only
  cases hconf : (lanes (groupMatch (Swar.word bytes) (celH2 (celMapKeyHash key)))).findSome? _ with
  | some r =>
    obtain ⟨lane, hmem, hlane⟩ := List.exists_of_findSome?_eq_some hconf
    split_ifs at hlane with hkey
    obtain ⟨h8, hne⟩ := of_mem_lanes_groupMatch (celH2_lt _) hmem
    rw [← Option.some.inj hlane]
    exact ⟨hkey, _, ⟨lane, h8, rfl⟩, hfull lane h8 hne⟩
  | none =>
    have hno : ∀ s ∈ { s | ∃ lane < 8, s = (seq + lane) % numSlots }, ∀ e,
        index.table numSlots s = some e → ¬ celMapKeyEq (indexMapEntryKey keys e) key = true := by
      rintro s ⟨lane, hlane, rfl⟩ e he hkey
      have hflag := mem_lanes_groupMatch hlane
        ((hbyte lane hlane).trans (htag _ (hslot lane) e he hkey))
      have hnone := List.findSome?_eq_none_iff.mp hconf lane hflag
      obtain rfl : index.slots.getD ((seq + lane) % numSlots) 0 = e := by
        unfold MapIndex.table at he
        split_ifs at he
        exact Option.some.inj he
      rw [if_pos hkey] at hnone
      exact Option.some_ne_none _ hnone
    have hvalid : ∀ lane < 8, bytes.getD lane 0 = kEmpty ∨ (bytes.getD lane 0).toNat < 128 :=
      fun lane hlane => hbyte lane hlane ▸ hw.byte _ (hslot lane)
    cases hempty : (lanes (groupMatchEmpty (Swar.word bytes))).head? with
    | none =>
      rintro s ⟨lane, hlane, rfl⟩
      have hne : bytes.getD lane 0 ≠ kEmpty := fun h => by
        have hmem := (mem_lanes_groupMatchEmpty hvalid).mpr ⟨hlane, h⟩
        rw [List.head?_eq_none_iff.mp hempty] at hmem
        exact List.not_mem_nil hmem
      exact ⟨_, hfull lane hlane hne, hno _ ⟨lane, hlane, rfl⟩ _ (hfull lane hlane hne)⟩
    | some lane =>
      obtain ⟨hlane, h⟩ := (mem_lanes_groupMatchEmpty hvalid).mp (List.mem_of_head? hempty)
      exact ⟨⟨lane, hlane, rfl⟩, if_neg fun hc => hc.2 (hbyte lane hlane ▸ h), hno⟩

/-- **The probe loop is a walk over the triangular groups.** -/
theorem probeLoop_eq_walk (start : ℕ) : ∀ (fuel t : ℕ),
    probeLoop keys index numSlots key fuel (groupStart kGroupWidth numSlots start t)
        (kGroupWidth * (t + 1))
      = walk (fun t => probeGroup keys index numSlots key (groupStart kGroupWidth numSlots start t))
          fuel t
  | 0, _ => rfl
  | fuel + 1, t => by
    rw [probeLoop, walk, ← TriangularProbe.groupStart_succ,
      show kGroupWidth * (t + 1) + kGroupWidth = kGroupWidth * (t + 1 + 1) from rfl,
      probeLoop_eq_walk start fuel (t + 1)]
    cases probeGroup keys index numSlots key (groupStart kGroupWidth numSlots start t) <;> rfl

theorem probe_eq_walk : probe keys index numSlots key
    = walk (fun t => probeGroup keys index numSlots key
        (groupStart kGroupWidth numSlots (celH1 (celMapKeyHash key)) t)) numSlots 0 := by
  rw [probe, ← probeLoop_eq_walk, groupStart, TriangularProbe.triangle, Nat.mul_zero, Nat.add_zero]
  rfl

end Look

/-! ## The table size -/

theorem le_doubleUntil {needed : ℕ} : ∀ {fuel slots : ℕ}, needed ≤ slots * 2 ^ fuel →
    needed ≤ doubleUntil needed fuel slots
  | 0, slots, h => by simpa [doubleUntil] using h
  | fuel + 1, slots, h => by
    rw [doubleUntil]
    split_ifs with hlt
    · refine le_doubleUntil (h.trans_eq ?_)
      rw [Nat.mul_assoc, Nat.pow_succ, Nat.mul_comm 2]
    · exact not_lt.mp hlt

theorem doubleUntil_eq (needed : ℕ) : ∀ fuel k : ℕ, ∃ m,
    doubleUntil needed fuel (kGroupWidth * 2 ^ k) = kGroupWidth * 2 ^ m
  | 0, k => ⟨k, rfl⟩
  | fuel + 1, k => by
    rw [doubleUntil]
    split_ifs
    · rw [Nat.mul_assoc, ← Nat.pow_succ]
      exact doubleUntil_eq needed fuel (k + 1)
    · exact ⟨k, rfl⟩

/-- The table is a power of two of groups. -/
theorem celMapIndexNumSlots_eq (count : ℕ) : ∃ m, celMapIndexNumSlots count = kGroupWidth * 2 ^ m :=
  doubleUntil_eq _ _ 0

/-- **The table is never full.** -/
theorem lt_celMapIndexNumSlots (count : ℕ) : count < celMapIndexNumSlots count := by
  have h : max ((count * 8 + 6) / 7) kGroupWidth ≤ celMapIndexNumSlots count :=
    le_doubleUntil ((Nat.lt_two_pow_self).le.trans (Nat.le_mul_of_pos_left _ (by decide)))
  have h8 : kGroupWidth = 8 := rfl
  omega

/-! ## The invariant of the placement loop -/

/-- The groups the probe for entry `e` visits. -/
def homeGroups (keys : List CelValue) (numSlots e t : ℕ) : Set ℕ :=
  groupSlots numSlots (celH1 (celMapKeyHash (indexMapEntryKey keys e))) t

/-- **The index holds the first `i` entries**, each under its own control byte and where its probe
reaches it, and has room for the rest. -/
structure Indexes (keys : List CelValue) (numSlots i : ℕ) (index : MapIndex) : Prop
    extends index.WellFormed numSlots where
  tagged : ∀ s < numSlots, ∀ e, index.table numSlots s = some e →
    e < i ∧ index.ctrl.getD s 0 = celH2 (celMapKeyHash (indexMapEntryKey keys e))
  placed : ∀ e < i, Placed (index.table numSlots) (homeGroups keys numSlots) e
  card_full : ((Finset.range numSlots).filter fun s => index.table numSlots s ≠ none).card ≤ i

/-- No two of the first `i` keys are equal. -/
def DistinctKeys (keys : List CelValue) (i : ℕ) : Prop :=
  ∀ a b, a < b → b < i →
    celMapKeyEq (indexMapEntryKey keys a) (indexMapEntryKey keys b) = false

section Fill

variable {index : MapIndex} {numSlots slot i : ℕ} {h2 : UInt8}

theorem getD_set_of_lt {α : Type} {l : List α} {k : ℕ} (hk : k < l.length) (a d : α) (j : ℕ) :
    (l.set k a).getD j d = if j = k then a else l.getD j d := by
  rw [List.getD_eq_getElem?_getD, List.getElem?_set, List.getD_eq_getElem?_getD]
  by_cases h : j = k
  · rw [if_pos h.symm, if_pos hk, if_pos h]
    rfl
  · rw [if_neg (Ne.symm h), if_neg h]

theorem length_fill_ctrl : (index.fill numSlots slot h2 i).ctrl.length = index.ctrl.length := by
  unfold MapIndex.fill
  dsimp only
  split_ifs <;> simp

/-- Filling a slot writes its control byte and, for the first seven slots, the copy. -/
theorem getD_fill_ctrl (hw : index.WellFormed numSlots) (hslot : slot < numSlots) (s : ℕ) :
    (index.fill numSlots slot h2 i).ctrl.getD s 0
      = if s = slot ∨ slot < 7 ∧ s = slot + numSlots then h2 else index.ctrl.getD s 0 := by
  have hlen := hw.length_ctrl
  unfold MapIndex.fill
  dsimp only
  by_cases h7 : slot < kGroupWidth - 1
  · have h7' : slot < 7 := h7
    rw [if_pos h7, getD_set_of_lt (by rw [List.length_set]; omega), getD_set_of_lt (by omega)]
    by_cases hs : s = slot
    · simp [hs]
    · simp [hs, h7']
  · have h7' : ¬ slot < 7 := h7
    rw [if_neg h7, getD_set_of_lt (by omega)]
    simp [h7']

/-- **Filling an empty slot keeps the block well formed.** -/
theorem MapIndex.WellFormed.fill (hw : index.WellFormed numSlots) (h8 : 8 ≤ numSlots)
    (hslot : slot < numSlots) (hh2 : h2.toNat < 128) :
    (index.fill numSlots slot h2 i).WellFormed numSlots where
  length_ctrl := length_fill_ctrl.trans hw.length_ctrl
  length_slots := (List.length_set ..).trans hw.length_slots
  clone s hs := by
    rw [getD_fill_ctrl hw hslot, getD_fill_ctrl hw hslot, hw.clone s hs]
    congr 1
    simp only [eq_iff_iff]
    omega
  byte s hs := by
    rw [getD_fill_ctrl hw hslot]
    split_ifs
    · exact .inr hh2
    · exact hw.byte s hs

/-- **Filling a slot updates the table there and nowhere else.** -/
theorem table_fill (hw : index.WellFormed numSlots) (hslot : slot < numSlots)
    (hh2 : h2.toNat < 128) : (index.fill numSlots slot h2 i).table numSlots
      = Function.update (index.table numSlots) slot (some i) := by
  have hslots : ∀ s, (index.fill numSlots slot h2 i).slots.getD s 0
      = if s = slot then i else index.slots.getD s 0 := fun s =>
    getD_set_of_lt (by rw [hw.length_slots]; exact hslot) i 0 s
  funext s
  rw [MapIndex.table, getD_fill_ctrl hw hslot, hslots]
  by_cases hs : s = slot
  · subst hs
    have hne : h2 ≠ kEmpty := fun h => by
      rw [h] at hh2
      exact absurd hh2 (by decide)
    simp [hslot, hne]
  · rw [Function.update_of_ne hs, MapIndex.table]
    by_cases hlt : s < numSlots
    · simp [hs, hlt, show s ≠ slot + numSlots by omega]
    · simp [hlt]

end Fill

/-! ## Searching a partly built index -/

section Search

variable {keys : List CelValue} {index : MapIndex} {i m : ℕ}

/-- Entries are tagged for every query, because equal keys hash alike. -/
theorem Indexes.tagged_query {numSlots : ℕ} (h : Indexes keys numSlots i index)
    (key : CelValue) : Tagged keys index numSlots key := by
  intro s hs e he heq
  obtain ⟨hei, htag⟩ := h.tagged s hs e he
  rw [htag, celMapKeyHash_congr heq]

/-- **A table with room stops every probe** — some group has an empty slot, and the triangular walk
meets every group. -/
theorem Indexes.probe_ne_none (h : Indexes keys (kGroupWidth * 2 ^ m) i index)
    (hroom : i < kGroupWidth * 2 ^ m) (key : CelValue) :
    probe keys index (kGroupWidth * 2 ^ m) key ≠ none := by
  have hpos : 0 < 2 ^ m := Nat.two_pow_pos m
  have hn : kGroupWidth * 2 ^ m = 8 * 2 ^ m := rfl
  obtain ⟨s, hs, hempty⟩ : ∃ s < kGroupWidth * 2 ^ m,
      index.table (kGroupWidth * 2 ^ m) s = none := by
    by_contra hfull
    push Not at hfull
    have hall := Finset.filter_true_of_mem (s := Finset.range (kGroupWidth * 2 ^ m))
      (p := fun s => index.table (kGroupWidth * 2 ^ m) s ≠ none)
      fun s hs => hfull s (Finset.mem_range.mp hs)
    have hcard := h.card_full
    rw [hall, Finset.card_range] at hcard
    omega
  obtain ⟨t, ht, lane, hlane, hcover⟩ := TriangularProbe.exists_group_covers (m := m)
    (by decide : 0 < kGroupWidth) (celH1 (celMapKeyHash key)) hs
  rw [probe_eq_walk]
  refine OpenAddressing.walk_ne_none (u := t) (fun hnone => ?_) (Nat.zero_le t) (by omega)
  have hans := answers_probeGroup h.toWellFormed (by omega) (h.tagged_query key)
    (celH1 (celMapKeyHash key)) t
  rw [hnone] at hans
  obtain ⟨e, he, -⟩ := hans s ⟨lane, hlane, hcover.symm⟩
  exact Option.some_ne_none e (he.symm.trans hempty)

/-- An entry the probe stops at is equal to the key probed for. -/
theorem Indexes.probe_hit (h : Indexes keys (kGroupWidth * 2 ^ m) i index)
    {key : CelValue} {e : ℕ}
    (hit : probe keys index (kGroupWidth * 2 ^ m) key = some (.hit e)) :
    e < i ∧ celMapKeyEq (indexMapEntryKey keys e) key = true := by
  have hpos : 0 < 2 ^ m := Nat.two_pow_pos m
  have hn : kGroupWidth * 2 ^ m = 8 * 2 ^ m := rfl
  rw [probe_eq_walk] at hit
  obtain ⟨heq, s, hs⟩ := OpenAddressing.walk_hit (fun t => answers_probeGroup h.toWellFormed
    (by omega) (h.tagged_query key) (celH1 (celMapKeyHash key)) t) hit
  have hlt : s < kGroupWidth * 2 ^ m := by
    unfold MapIndex.table at hs
    split_ifs at hs with hc
    exact hc.1
  exact ⟨(h.tagged s hlt e hs).1, heq⟩

/-- **A probe that stops at an empty slot has missed nothing.** -/
theorem Indexes.probe_vacant (h : Indexes keys (kGroupWidth * 2 ^ m) i index)
    {key : CelValue} {s : ℕ}
    (vacant : probe keys index (kGroupWidth * 2 ^ m) key = some (.vacant s)) {e : ℕ} (he : e < i) :
    celMapKeyEq (indexMapEntryKey keys e) key = false := by
  have hpos : 0 < 2 ^ m := Nat.two_pow_pos m
  have hn : kGroupWidth * 2 ^ m = 8 * 2 ^ m := rfl
  refine Bool.eq_false_of_not_eq_true fun heq => ?_
  rw [probe_eq_walk, ← celMapKeyHash_congr heq] at vacant
  have hlook : ∀ t, Answers (index.table (kGroupWidth * 2 ^ m))
      (fun e => celMapKeyEq (indexMapEntryKey keys e) key = true)
      (homeGroups keys (kGroupWidth * 2 ^ m) e t) _ := fun t =>
    answers_probeGroup h.toWellFormed (by omega) (h.tagged_query key) _ t
  exact OpenAddressing.not_vacant_of_placed hlook (h.placed e he) heq vacant

end Search

/-! ## The placement loop -/

section Build

variable {keys : List CelValue} {index : MapIndex} {i m : ℕ}

/-- The block the loop starts from holds nothing. -/
theorem indexes_empty (keys : List CelValue) (m : ℕ) :
    Indexes keys (kGroupWidth * 2 ^ m) 0 (MapIndex.empty (kGroupWidth * 2 ^ m)) := by
  have hctrl : ∀ s < ctrlTotalBytes (kGroupWidth * 2 ^ m),
      (MapIndex.empty (kGroupWidth * 2 ^ m)).ctrl.getD s 0 = kEmpty := fun s hs => by
    rw [MapIndex.empty, List.getD_eq_getElem?_getD, List.getElem?_replicate, if_pos hs]
    rfl
  have htotal : ctrlTotalBytes (kGroupWidth * 2 ^ m) = kGroupWidth * 2 ^ m + 7 := rfl
  have hpos : 0 < 2 ^ m := Nat.two_pow_pos m
  have hn : kGroupWidth * 2 ^ m = 8 * 2 ^ m := rfl
  have htable : ∀ s, (MapIndex.empty (kGroupWidth * 2 ^ m)).table (kGroupWidth * 2 ^ m) s = none :=
    fun s => if_neg fun hc => hc.2 (hctrl s (by omega))
  refine { length_ctrl := ?_, length_slots := ?_, clone := ?_, byte := ?_, tagged := ?_,
           placed := ?_, card_full := ?_ }
  · simp [MapIndex.empty, htotal]
  · simp [MapIndex.empty]
  · intro s hs
    rw [hctrl _ (by omega), hctrl _ (by omega)]
  · exact fun s hs => .inl (hctrl s (by omega))
  · exact fun s _ e he => absurd ((htable s).symm.trans he) (Option.some_ne_none e).symm
  · exact fun e he => absurd he (Nat.not_lt_zero e)
  · simp [htable]

/-- **One placement**: the entry takes the empty slot its probe stops at, and the index holds one
entry more. -/
theorem Indexes.place (h : Indexes keys (kGroupWidth * 2 ^ m) i index) {s : ℕ}
    (vacant : probe keys index (kGroupWidth * 2 ^ m) (indexMapEntryKey keys i)
      = some (.vacant s)) :
    Indexes keys (kGroupWidth * 2 ^ m) (i + 1) (index.fill (kGroupWidth * 2 ^ m) s
      (celH2 (celMapKeyHash (indexMapEntryKey keys i))) i) := by
  have hpos : 0 < 2 ^ m := Nat.two_pow_pos m
  have hn : kGroupWidth * 2 ^ m = 8 * 2 ^ m := rfl
  have hlook : ∀ t, Answers (index.table (kGroupWidth * 2 ^ m))
      (fun e => celMapKeyEq (indexMapEntryKey keys e) (indexMapEntryKey keys i) = true)
      (homeGroups keys (kGroupWidth * 2 ^ m) i t) _ := fun t =>
    answers_probeGroup h.toWellFormed (by omega) (h.tagged_query _) _ t
  rw [probe_eq_walk] at vacant
  obtain ⟨hs, t, ⟨lane, -, hmod⟩, -⟩ := OpenAddressing.walk_vacant hlook vacant
  have hlt : s < kGroupWidth * 2 ^ m := hmod ▸ Nat.mod_lt _ (by omega)
  have htable := table_fill (i := i) h.toWellFormed hlt (celH2_lt (celMapKeyHash
    (indexMapEntryKey keys i)))
  refine { toWellFormed := h.toWellFormed.fill (by omega) hlt (celH2_lt _), tagged := ?_,
           placed := ?_, card_full := ?_ }
  · intro s' hs' e he
    rw [htable] at he
    rw [getD_fill_ctrl h.toWellFormed hlt]
    by_cases heq : s' = s
    · rw [heq, Function.update_self] at he
      obtain rfl := Option.some.inj he
      exact ⟨Nat.lt_succ_self i, if_pos (.inl heq)⟩
    · rw [Function.update_of_ne heq] at he
      rw [if_neg (by omega)]
      exact ⟨(h.tagged s' hs' e he).1.trans (Nat.lt_succ_self i), (h.tagged s' hs' e he).2⟩
  · intro e he
    rw [htable]
    rcases Nat.lt_succ_iff_lt_or_eq.mp he with hlt' | rfl
    · exact (h.placed e hlt').update hs
    · exact OpenAddressing.placed_update_self hlook vacant
  · rw [htable]
    refine (Finset.card_le_card (t := insert s ((Finset.range _).filter fun s =>
      index.table (kGroupWidth * 2 ^ m) s ≠ none)) fun s' hs' => ?_).trans
      ((Finset.card_insert_le _ _).trans (Nat.succ_le_succ h.card_full))
    rw [Finset.mem_filter] at hs'
    by_cases heq : s' = s
    · exact heq ▸ Finset.mem_insert_self _ _
    · rw [Function.update_of_ne heq] at hs'
      exact Finset.mem_insert_of_mem (Finset.mem_filter.mpr hs')

/-- **The placement loop indexes the entries up to the first duplicate** — as long as the table has
room it neither runs on for ever nor misses a repeated key. -/
theorem indexPlaceEntries_spec : ∀ i : ℕ, i ≤ kGroupWidth * 2 ^ m →
    (DistinctKeys keys i → ∃ index, indexPlaceEntries keys (kGroupWidth * 2 ^ m) i
        = some (some index) ∧ Indexes keys (kGroupWidth * 2 ^ m) i index) ∧
      (¬ DistinctKeys keys i → indexPlaceEntries keys (kGroupWidth * 2 ^ m) i = some none)
  | 0, _ => ⟨fun _ => ⟨_, rfl, indexes_empty keys m⟩,
      fun h => absurd (fun _ b _ hb => absurd hb (Nat.not_lt_zero b)) h⟩
  | i + 1, hroom => by
    obtain ⟨hdistinct, hdup⟩ := indexPlaceEntries_spec i (by omega)
    rw [indexPlaceEntries]
    by_cases hd : DistinctKeys keys i
    · obtain ⟨index, hindex, hinv⟩ := hdistinct hd
      rw [hindex]
      dsimp only [indexPlaceEntry]
      cases hprobe : probe keys index (kGroupWidth * 2 ^ m) (indexMapEntryKey keys i) with
      | none => exact absurd hprobe (hinv.probe_ne_none hroom _)
      | some r =>
        cases r with
        | hit e =>
          obtain ⟨he, heq⟩ := hinv.probe_hit hprobe
          refine ⟨fun h => ?_, fun _ => rfl⟩
          rw [h e i he (Nat.lt_succ_self i)] at heq
          exact absurd heq Bool.false_ne_true
        | vacant s =>
          refine ⟨fun _ => ⟨_, rfl, hinv.place hprobe⟩, fun h => absurd ?_ h⟩
          intro a b hab hb
          rcases Nat.lt_succ_iff_lt_or_eq.mp hb with hb' | rfl
          · exact hd a b hab hb'
          · exact hinv.probe_vacant hprobe hab
    · rw [hdup hd]
      exact ⟨fun h => absurd (fun a b hab hb => h a b hab (hb.trans (Nat.lt_succ_self i))) hd,
        fun _ => rfl⟩

end Build

/-! ## Building and finding -/

/-- The scan a keyed operation falls back to: the first entry whose key is equal. -/
def celMapScan (keys : List CelValue) (key : CelValue) : Option ℕ :=
  keys.findIdx? (celMapKeyEq · key)

section Find

variable {keys : List CelValue} {index : MapIndex} {key : CelValue}

theorem indexMapEntryKey_eq_getElem {e : ℕ} (he : e < keys.length) :
    indexMapEntryKey keys e = keys[e] := by
  rw [indexMapEntryKey, List.getD_eq_getElem?_getD, List.getElem?_eq_getElem he, Option.getD_some]

/-- A finished build holds every entry, and no key twice. -/
theorem indexes_of_indexPlaceEntries
    (hbuilt : indexPlaceEntries keys (celMapIndexNumSlots keys.length) keys.length
      = some (some index)) :
    DistinctKeys keys keys.length ∧
      Indexes keys (celMapIndexNumSlots keys.length) keys.length index := by
  obtain ⟨m, hm⟩ := celMapIndexNumSlots_eq keys.length
  have hroom := lt_celMapIndexNumSlots keys.length
  rw [hm] at hbuilt hroom ⊢
  obtain ⟨hdistinct, hdup⟩ := indexPlaceEntries_spec (m := m) keys.length hroom.le
  by_cases hd : DistinctKeys keys keys.length
  · obtain ⟨index', hbuilt', hinv⟩ := hdistinct hd
    rw [hbuilt'] at hbuilt
    rw [Option.some.inj (Option.some.inj hbuilt)] at hinv
    exact ⟨hd, hinv⟩
  · rw [hdup hd] at hbuilt
    exact absurd (Option.some.inj hbuilt) (Option.some_ne_none _).symm

/-- Keys that are equal to one query are equal to each other, so distinct keys leave at most one
entry to find. -/
theorem DistinctKeys.unique (hd : DistinctKeys keys keys.length)
    (hkeys : ∀ k ∈ keys, isValidMapKeyKind k = true) {a b : ℕ} (ha : a < keys.length)
    (hb : b < keys.length) (hak : celMapKeyEq (indexMapEntryKey keys a) key = true)
    (hbk : celMapKeyEq (indexMapEntryKey keys b) key = true) : a = b := by
  have hvalid : ∀ e < keys.length, isValidMapKeyKind (indexMapEntryKey keys e) = true :=
    fun e he => indexMapEntryKey_eq_getElem he ▸ hkeys _ (List.getElem_mem he)
  rcases Nat.lt_trichotomy a b with hlt | heq | hgt
  · exact absurd (celMapKeyEq_trans (hvalid a ha) (hvalid b hb) hak hbk)
      (Bool.eq_false_iff.mp (hd a b hlt hb))
  · exact heq
  · exact absurd (celMapKeyEq_trans (hvalid b hb) (hvalid a ha) hbk hak)
      (Bool.eq_false_iff.mp (hd b a hgt ha))

/-- **A probe of a finished index finds what the scan finds.** -/
theorem celMapIndexFind_eq_scan
    (hbuilt : indexPlaceEntries keys (celMapIndexNumSlots keys.length) keys.length
      = some (some index)) (hkeys : ∀ k ∈ keys, isValidMapKeyKind k = true) (key : CelValue) :
    celMapIndexFind keys (some index) key = some (celMapScan keys key) := by
  obtain ⟨hd, hinv⟩ := indexes_of_indexPlaceEntries hbuilt
  obtain ⟨m, hm⟩ := celMapIndexNumSlots_eq keys.length
  have hroom := lt_celMapIndexNumSlots keys.length
  rw [celMapIndexFind]
  rw [hm] at hinv hroom ⊢
  cases hprobe : probe keys index (kGroupWidth * 2 ^ m) key with
  | none => exact absurd hprobe (hinv.probe_ne_none hroom key)
  | some r =>
    cases r with
    | hit e =>
      obtain ⟨he, heq⟩ := hinv.probe_hit hprobe
      have hscan : celMapScan keys key = some e := by
        refine List.findIdx?_eq_some_iff_getElem.mpr
          ⟨he, indexMapEntryKey_eq_getElem he ▸ heq, fun j hj hjk => ?_⟩
        have hj' : j < keys.length := hj.trans he
        exact absurd (hd.unique hkeys hj' he (indexMapEntryKey_eq_getElem hj' ▸ hjk) heq)
          (Nat.ne_of_lt hj)
      rw [hscan]
      rfl
    | vacant s =>
      have hscan : celMapScan keys key = none := by
        refine List.findIdx?_eq_none_iff.mpr fun k hk => ?_
        obtain ⟨e, he, rfl⟩ := List.getElem_of_mem hk
        exact indexMapEntryKey_eq_getElem he ▸ hinv.probe_vacant hprobe he
      rw [hscan]
      rfl

/-- A run that hands back an indexed map ran the placement loop to its end. -/
theorem indexPlaceEntries_of_reaches {capacity : ℕ} {entries : List (CelValue × CelValue)}
    {old : Option MapIndex}
    (h : (celMapIndexBuild (.mapArena capacity entries old)).Reaches
      (.ok (.mapArena capacity entries (some index)))) :
    indexPlaceEntries (entries.map Prod.fst) (celMapIndexNumSlots entries.length) entries.length
      = some (some index) := by
  rw [celMapIndexBuild] at h
  split_ifs at h
  · cases h
  · cases h with
    | ask _ _ b h =>
      cases b with
      | false => cases h
      | true =>
        change (publishIndex capacity entries _).Reaches _ at h
        unfold publishIndex at h
        split at h
        · cases h
        · cases h
        · next hplaced =>
          cases h
          exact hplaced

/-- With memory to spare, a map of eight entries or more is indexed, unless a key repeats. -/
theorem granted_celMapIndexBuild (capacity : ℕ) (entries : List (CelValue × CelValue))
    (old : Option MapIndex) (h8 : kCelMapIndexThreshold ≤ entries.length) :
    (DistinctKeys (entries.map Prod.fst) entries.length → ∃ index,
      (celMapIndexBuild (.mapArena capacity entries old)).granted
        = .ok (.mapArena capacity entries (some index))) ∧
      (¬ DistinctKeys (entries.map Prod.fst) entries.length →
        (celMapIndexBuild (.mapArena capacity entries old)).granted
          = .ok (.error .duplicateKey)) := by
  obtain ⟨m, hm⟩ := celMapIndexNumSlots_eq entries.length
  have hroom := lt_celMapIndexNumSlots entries.length
  rw [hm] at hroom
  have hrun : (celMapIndexBuild (.mapArena capacity entries old)).granted
      = (publishIndex capacity entries (indexPlaceEntries (entries.map Prod.fst)
          (celMapIndexNumSlots entries.length) entries.length)).granted := by
    rw [celMapIndexBuild, if_neg (not_lt.mpr h8)]
    rfl
  rw [hrun, hm]
  obtain ⟨hdistinct, hdup⟩ :=
    @indexPlaceEntries_spec (entries.map Prod.fst) m entries.length hroom.le
  refine ⟨fun hd => ?_, fun hd => ?_⟩
  · obtain ⟨index, hbuilt, -⟩ := hdistinct hd
    exact ⟨index, by rw [hbuilt]; rfl⟩
  · rw [hdup hd]
    rfl

end Find

/-! ## The index is an accelerator and nothing else -/

section Agreement

variable {capacity : ℕ} {entries : List (CelValue × CelValue)} {old : Option MapIndex}

/-- Two entries with equal keys. -/
def RepeatsKey (entries : List (CelValue × CelValue)) : Prop :=
  ∃ a b, a < b ∧ b < entries.length ∧
    celMapKeyEq (indexMapEntryKey (entries.map Prod.fst) a)
      (indexMapEntryKey (entries.map Prod.fst) b) = true

theorem not_distinctKeys_iff :
    ¬ DistinctKeys (entries.map Prod.fst) entries.length ↔ RepeatsKey entries := by
  simp [DistinctKeys, RepeatsKey]

/-- A key no entry is equal to is a key the scan does not find. -/
theorem celMapScan_eq_none_iff {keys : List CelValue} {key : CelValue} :
    celMapScan keys key = none ↔ ∀ k ∈ keys, celMapKeyEq k key = false :=
  List.findIdx?_eq_none_iff

/-- **The index agrees with the linear scan** — in whatever run the index was built, a find of any
key at all ends, with the entry a scan from the left would stop at; and where the index is built at
all, a repeated key is what stops it. -/
theorem celMapIndex_agrees :
    (∀ capacity entries old index, (∀ e ∈ entries, isValidMapKeyKind (Prod.fst e) = true) →
      (celMapIndexBuild (.mapArena capacity entries old)).Reaches
        (.ok (.mapArena capacity entries (some index))) →
      ∀ key, celMapIndexFind (entries.map Prod.fst) (some index) key
          = some (celMapScan (entries.map Prod.fst) key) ∧
        (celMapIndexFind (entries.map Prod.fst) (some index) key = some none ↔
          ∀ e ∈ entries, celMapKeyEq (Prod.fst e) key = false)) ∧
      (∀ capacity entries old, kCelMapIndexThreshold ≤ entries.length →
        ((celMapIndexBuild (.mapArena capacity entries old)).granted = .ok (.error .duplicateKey) ↔
          RepeatsKey entries)) := by
  refine ⟨fun capacity entries old index hkeys hrun key => ?_,
    fun capacity entries old h8 => ?_⟩
  · have hbuilt := indexPlaceEntries_of_reaches hrun
    have hvalid : ∀ k ∈ entries.map Prod.fst, isValidMapKeyKind k = true := by
      simpa using hkeys
    rw [celMapIndexFind_eq_scan (by rw [List.length_map]; exact hbuilt) hvalid key]
    refine ⟨rfl, ?_⟩
    rw [Option.some_inj, celMapScan_eq_none_iff]
    simp
  · obtain ⟨hdistinct, hdup⟩ := granted_celMapIndexBuild capacity entries old h8
    rw [← not_distinctKeys_iff]
    refine ⟨fun h hd => ?_, hdup⟩
    obtain ⟨index, hindex⟩ := hdistinct hd
    rw [hindex] at h
    exact nomatch Except.ok.inj h

/-- The map from `0, …, 7`, each to itself. -/
def diagonalEntries : List (CelValue × CelValue) :=
  (List.range 8).map fun i => (.int (Int64.ofNat i), .int (Int64.ofNat i))

/-- The double `3.0` finds the entry of the int `3`. -/
theorem celMapIndex_agrees_diagonal : ∃ index,
    (celMapIndexBuild (.mapArena 8 diagonalEntries none)).granted
        = .ok (.mapArena 8 diagonalEntries (some index)) ∧
      celMapIndexFind (diagonalEntries.map Prod.fst) (some index) (.double (Binary64.ofInt 3))
        = some (some 3) := by
  have hdistinct : ∀ b < 8, ∀ a < b,
      celMapKeyEq (indexMapEntryKey (diagonalEntries.map Prod.fst) a)
        (indexMapEntryKey (diagonalEntries.map Prod.fst) b) = false := by decide
  obtain ⟨index, hindex⟩ := (granted_celMapIndexBuild 8 diagonalEntries none (by decide)).1
    fun a b hab hb => hdistinct b hb a hab
  refine ⟨index, hindex, ?_⟩
  rw [(celMapIndex_agrees.1 8 diagonalEntries none index (by decide)
    (hindex ▸ Prog.reaches_granted _) _).1]
  decide +kernel

/-- Two entries of a map too small to index: nothing compares their keys. -/
theorem smallMap_repeats_unreported :
    ¬ ∀ capacity entries old,
      ((celMapIndexBuild (.mapArena capacity entries old)).granted = .ok (.error .duplicateKey) ↔
        RepeatsKey entries) := by
  intro h
  have hdup := (h 2 [(.int 1, .null), (.uint 1, .null)] none).mpr
    ⟨0, 1, by decide, by decide, by decide⟩
  exact nomatch Except.ok.inj hdup

end Agreement

end CelWasm
