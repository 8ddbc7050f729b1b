import CelWasm.Abi.WasmBinary

/-!
# Abi/CustomSections — what a lookup finds, before and after a section is appended

A module stands for the row of its sections, and a lookup for the payloads of the custom sections of
one name: one is the answer, none and more than one are refused. Appending adds a section to the end
of the row. Whatever the bytes are, the walk comes to an end inside the buffer.
-/

namespace CelWasm

/-! ## The walk stays inside the buffer -/

/-- A status of the function, not a fault of its reading. -/
def WasmFault.IsStatus : WasmFault → Prop
  | invalidArgument _ | notFound _ => True
  | outOfBounds | endless => False

/-- **A read ends**, with a value as described or with a status. -/
def Ends {α : Type} (run : WasmRead α) (post : α → Prop) : Prop :=
  match run with
  | .ok a => post a
  | .error fault => fault.IsStatus

namespace Ends

variable {α β : Type} {run : WasmRead α} {next : α → WasmRead β} {mid : α → Prop} {post : β → Prop}

theorem bind (h : Ends run mid) (hnext : ∀ a, mid a → Ends (next a) post) :
    Ends (run >>= next) post := by
  cases run with
  | ok a => exact hnext a h
  | error fault => exact h

theorem ite {c : Prop} [Decidable c] {a b : WasmRead β} (ha : c → Ends a post)
    (hb : ¬ c → Ends b post) : Ends (if c then a else b) post := by
  split_ifs with h
  · exact ha h
  · exact hb h

theorem imp {weak : α → Prop} (h : Ends run mid) (himp : ∀ a, mid a → weak a) : Ends run weak := by
  cases run with
  | ok a => exact himp a h
  | error fault => exact h

end Ends

section Bounds

variable {bytes : List UInt8} {pos n : ℕ}

theorem byteAt_ends (h : pos < bytes.length) : Ends (byteAt bytes pos) fun _ => True := by
  rw [byteAt, List.getElem?_eq_getElem h]
  trivial

theorem bytesAt_ends (h : pos + n ≤ bytes.length) : Ends (bytesAt bytes pos n) fun _ => True := by
  rw [bytesAt, if_pos h]
  trivial

/-- An encoding ends past its first byte, and inside the buffer. -/
theorem readLebLoop_ends {left : ℕ} {shift out : UInt32} :
    Ends (readLebLoop bytes left pos shift out)
      fun read => ∀ r ∈ read, pos < r.1 ∧ r.1 ≤ bytes.length := by
  induction left generalizing pos shift out with
  | zero => exact fun _ h => nomatch h
  | succ left ih =>
    rw [readLebLoop]
    refine Ends.ite (fun _ _ h => nomatch h) fun hpos => ?_
    refine (byteAt_ends (not_le.mp hpos)).bind fun b _ => Ends.ite (fun _ r hr => ?_) fun _ => ?_
    · obtain rfl := Option.some.inj hr
      exact ⟨Nat.lt_succ_self pos, not_le.mp hpos⟩
    · exact ih.imp fun read hread r hr => ⟨Nat.lt_of_succ_lt (hread r hr).1, (hread r hr).2⟩

theorem readFramingLeb_ends {what : String} :
    Ends (readFramingLeb bytes pos what) fun r => pos < r.1 ∧ r.1 ≤ bytes.length := by
  refine readLebLoop_ends.bind fun read hread => ?_
  cases read with
  | none => trivial
  | some r => exact hread r rfl

variable {sectionEnd : ℕ}

theorem readSectionName_ends (h : sectionEnd ≤ bytes.length) :
    Ends (readSectionName bytes pos sectionEnd) fun r => r.1 ≤ sectionEnd := by
  refine readFramingLeb_ends.bind fun r _ => Ends.ite (fun _ => trivial) fun hname => ?_
  exact (bytesAt_ends ((not_lt.mp hname).trans h)).bind fun _ _ => not_lt.mp hname

theorem foundInSection_ends {name : List UInt8} {sectionId : UInt8} {found : Option (List UInt8)}
    (h : sectionEnd ≤ bytes.length) :
    Ends (foundInSection bytes name sectionId pos sectionEnd found) fun _ => True := by
  refine Ends.ite (fun _ => ?_) fun _ => trivial
  refine (readSectionName_ends h).bind fun r hr => Ends.ite (fun _ => ?_) fun _ => trivial
  refine Ends.ite (fun _ => trivial) fun _ => ?_
  exact (bytesAt_ends (by omega)).bind fun _ _ => trivial

/-- **The walk ends**: each time around it takes a byte at least. -/
theorem sectionWalk_ends {name : List UInt8} {left : ℕ} {found : Option (List UInt8)}
    (hleft : bytes.length ≤ pos + left) :
    Ends (sectionWalk bytes name left pos found) fun _ => True := by
  induction left generalizing pos found with
  | zero =>
    unfold sectionWalk
    rw [if_pos (show bytes.length ≤ pos from hleft)]
    cases found <;> trivial
  | succ left ih =>
    unfold sectionWalk
    refine Ends.ite (fun _ => by cases found <;> trivial) fun hpos => ?_
    refine (byteAt_ends (not_le.mp hpos)).bind fun sectionId _ => ?_
    refine readFramingLeb_ends.bind fun r hr => Ends.ite (fun _ => trivial) fun hsize => ?_
    exact (foundInSection_ends (not_lt.mp hsize)).bind fun found _ => ih (by omega)

/-- **A lookup ends inside the buffer**, whatever the bytes are. -/
theorem findCustomSection_ends (bytes name : List UInt8) :
    Ends (findCustomSection bytes name) fun _ => True := by
  have hcore : Ends (isCoreModule bytes) fun _ => True := by
    refine Ends.ite (fun _ => trivial) fun hsize => ?_
    rw [kPreambleSize] at hsize
    refine (bytesAt_ends (by omega)).bind fun _ _ => Ends.ite (fun _ => trivial) fun _ => ?_
    exact (bytesAt_ends (by omega)).bind fun _ _ => trivial
  refine hcore.bind fun core _ => Ends.ite (fun _ => ?_) fun _ => trivial
  exact sectionWalk_ends (Nat.le_add_left _ _)

end Bounds

/-! ## Reading what was written -/

section Blocks

/-- A block stands in the buffer at a position. -/
abbrev StandsAt (bytes : List UInt8) (pos : ℕ) (block : List UInt8) : Prop :=
  (Image.mk 0 bytes).At pos block

variable {bytes block : List UInt8} {pos : ℕ}

theorem bytesAt_of_standsAt (h : StandsAt bytes pos block) :
    bytesAt bytes pos block.length = .ok block := by
  have hread := h.read
  rw [Image.read] at hread
  simp only [Nat.zero_le, Nat.zero_add, Nat.sub_zero, true_and] at hread
  split_ifs at hread with hle
  rw [bytesAt, if_pos hle, Option.some.inj hread]

theorem StandsAt.le (h : StandsAt bytes pos block) : pos + block.length ≤ bytes.length := by
  obtain ⟨before, after, rfl, rfl⟩ := h
  simp only [List.length_append]
  omega

theorem byteAt_of_standsAt {b : UInt8} (h : StandsAt bytes pos (b :: block)) :
    byteAt bytes pos = .ok b := by
  obtain ⟨before, after, rfl, rfl⟩ := h
  simp [byteAt]

theorem StandsAt.tail {b : UInt8} (h : StandsAt bytes pos (b :: block)) :
    StandsAt bytes (pos + 1) block := @Image.At.right ⟨0, bytes⟩ pos [b] block h

/-- **An encoding is read**, from any position and with what was read before it: what is above the
word is lost. -/
theorem readLebLoop_encodes {n : ℕ} (h : Leb128.Encodes block n) {left : ℕ} {shift out : UInt32}
    (hat : StandsAt bytes pos block) (hleft : block.length ≤ left)
    (hshift : shift.toNat + 7 * left = 35) (hout : out.toNat < 2 ^ shift.toNat) :
    ∃ word : UInt32, readLebLoop bytes left pos shift out = .ok (some (pos + block.length, word)) ∧
      word.toNat = (out.toNat + n * 2 ^ shift.toNat) % 2 ^ 32 := by
  induction h generalizing left pos shift out with
  | @last b hb =>
    obtain ⟨left, rfl⟩ := Nat.exists_eq_succ_of_ne_zero (Nat.ne_of_gt hleft)
    have hlt := hat.le
    have hbits : (b &&& 0x7f).toUInt32.toNat = b.toNat := by
      rw [UInt8.toNat_toUInt32, toNat_and_127, Nat.mod_eq_of_lt hb]
    refine ⟨out ||| ((b &&& 0x7f).toUInt32 <<< shift), ?_, ?_⟩
    · rw [readLebLoop, if_neg (not_le.mpr hlt), byteAt_of_standsAt hat]
      simp only [Except.bind, bind, (and_128_eq_zero_iff b).mpr hb, if_true]
      rfl
    · rw [toNat_or_shiftLeft hout (by omega), hbits]
  | @more b bs n hb hrest ih =>
    obtain ⟨left, rfl⟩ := Nat.exists_eq_succ_of_ne_zero (Nat.ne_of_gt (Nat.lt_of_lt_of_le
      (Nat.succ_pos bs.length) hleft))
    have hlt := hat.le
    have hbyte := b.toNat_lt
    have hbits : (b &&& 0x7f).toUInt32.toNat = b.toNat - 128 := by
      rw [UInt8.toNat_toUInt32, toNat_and_127]
      omega
    have hsplit : (b.toNat - 128 + 128 * n) * 2 ^ shift.toNat
        = (b.toNat - 128) * 2 ^ shift.toNat + n * 2 ^ (shift.toNat + 7) := by
      rw [pow_add]
      ring
    have hbs : 0 < bs.length := by cases hrest <;> simp
    rw [List.length_cons] at hleft
    have hnext : (shift + 7).toNat = shift.toNat + 7 := by
      rw [UInt32.toNat_add]
      exact Nat.mod_eq_of_lt (by change shift.toNat + 7 < 2 ^ 32; omega)
    -- a byte that is not the last is below the word whole
    have hfits : out.toNat + (b.toNat - 128) * 2 ^ shift.toNat < 2 ^ (shift + 7).toNat := by
      have hseven : (b.toNat - 128) * 2 ^ shift.toNat ≤ 127 * 2 ^ shift.toNat :=
        Nat.mul_le_mul_right _ (by omega)
      rw [hnext, pow_add]
      omega
    have hbelow : 2 ^ (shift + 7).toNat ≤ 2 ^ 32 := Nat.pow_le_pow_right (by decide) (by omega)
    have hor := toNat_or_shiftLeft (x := (b &&& 0x7f).toUInt32) hout (by omega)
    rw [hbits, Nat.mod_eq_of_lt (hfits.trans_le hbelow)] at hor
    rw [← hor] at hfits
    obtain ⟨word, hread, hvalue⟩ := ih hat.tail (Nat.le_of_succ_le_succ hleft) (by omega) hfits
    refine ⟨word, ?_, ?_⟩
    · rw [readLebLoop, if_neg (by simp only [List.length_cons] at hlt; omega),
        byteAt_of_standsAt hat]
      simp only [Except.bind, bind, if_neg (mt (and_128_eq_zero_iff b).mp (not_lt.mpr hb))]
      rw [hread, List.length_cons, Nat.add_assoc, Nat.add_comm 1]
    · rw [hvalue, hor, hnext, hsplit, Nat.add_assoc]

end Blocks

/-! ## The sections of a module -/

/-- An encoding of a word that a reader takes. -/
structure EncodesU32 (encoding : List UInt8) (n : ℕ) : Prop where
  encodes : Leb128.Encodes encoding n
  short : encoding.length ≤ kMaxU32LebBytes
  word : n < 2 ^ 32

/-- A section: a custom one, or one of another id. -/
inductive WasmSection
  | custom (name payload : List UInt8)
  | other (id : UInt8) (nonzero : id ≠ kCustomSectionId) (content : List UInt8)

namespace WasmSection

def id : WasmSection → UInt8
  | custom _ _ => kCustomSectionId
  | other id _ _ => id

/-- The bytes of a section behind its size: those of a custom one begin with its name. -/
def HasBody : WasmSection → List UInt8 → Prop
  | custom name payload, body =>
    ∃ nameLen, EncodesU32 nameLen name.length ∧ body = nameLen ++ (name ++ payload)
  | other _ _ content, body => body = content

/-- The bytes of a section. -/
def EncodedBy (s : WasmSection) (block : List UInt8) : Prop :=
  ∃ size body, s.HasBody body ∧ EncodesU32 size body.length ∧ block = s.id :: (size ++ body)

/-- The payload of a section, if it is custom and of the name. -/
def payloadNamed (name : List UInt8) : WasmSection → Option (List UInt8)
  | custom sectionName payload => if sectionName = name then some payload else none
  | other _ _ _ => none

end WasmSection

/-- Sections one behind the other. -/
inductive SectionsEncoded : List WasmSection → List UInt8 → Prop
  | nil : SectionsEncoded [] []
  | cons {s : WasmSection} {block blocks : List UInt8} {sections : List WasmSection}
      (head : s.EncodedBy block) (tail : SectionsEncoded sections blocks) :
      SectionsEncoded (s :: sections) (block ++ blocks)

/-- The magic number and the version of a core module. -/
def corePreamble : List UInt8 := kWasmMagic ++ leBytes 4 kCoreVersionWord

/-- **A well-formed core module**: the preamble, and the sections. -/
def CoreModule (bytes : List UInt8) (sections : List WasmSection) : Prop :=
  ∃ blocks, bytes = corePreamble ++ blocks ∧ SectionsEncoded sections blocks

/-- The payloads of the custom sections of a name. -/
def payloadsNamed (name : List UInt8) (sections : List WasmSection) : List (List UInt8) :=
  sections.filterMap (WasmSection.payloadNamed name)

/-- **What a lookup answers**: the payload of the one section of the name. -/
def lookupAnswer (name : List UInt8) : List (List UInt8) → WasmRead (List UInt8)
  | [] => .error (sectionNotFound name)
  | [payload] => .ok payload
  | _ => .error (duplicateSection name)

section Lookup

variable {bytes block body name : List UInt8} {pos n : ℕ}

/-- The size of a section, or the length of its name, is read back. -/
theorem readFramingLeb_encodes (h : EncodesU32 block n) (hat : StandsAt bytes pos block)
    (what : String) : ∃ word : UInt32, readFramingLeb bytes pos what
      = .ok (pos + block.length, word) ∧ word.toNat = n := by
  obtain ⟨word, hread, hvalue⟩ := @readLebLoop_encodes bytes block pos n h.encodes kMaxU32LebBytes 0
    0 hat h.short (by decide) (by decide)
  refine ⟨word, ?_, hvalue.trans (by simpa using h.word)⟩
  rw [readFramingLeb, readLeb128U32, hread]
  rfl

/-- What the walk knows behind a section: its payload too, if the section has the name. -/
def foundBehind (name : List UInt8) :
    Option (List UInt8) → Option (List UInt8) → WasmRead (Option (List UInt8))
  | found, none => .ok found
  | none, some payload => .ok (some payload)
  | some _, some _ => .error (duplicateSection name)

theorem foundInSection_hasBody {s : WasmSection} (h : s.HasBody body)
    (hat : StandsAt bytes pos body) (found : Option (List UInt8)) :
    foundInSection bytes name s.id pos (pos + body.length) found
      = foundBehind name found (s.payloadNamed name) := by
  cases s with
  | other id nonzero content =>
    rw [foundInSection, WasmSection.id, if_neg nonzero]
    cases found <;> rfl
  | custom sectionName payload =>
    obtain ⟨nameLen, hname, rfl⟩ := h
    obtain ⟨word, hread, hword⟩ := readFramingLeb_encodes hname hat.left "custom-section name length"
    have hnameAt : StandsAt bytes (pos + nameLen.length) sectionName := hat.right.left
    have hpayloadAt := hat.right.right
    have hsectionName : readSectionName bytes pos (pos + (nameLen ++ (sectionName ++ payload)).length)
        = .ok (pos + nameLen.length + sectionName.length, sectionName) := by
      rw [readSectionName, hread]
      simp only [bind, Except.bind, hword, List.length_append]
      rw [if_neg (by omega), bytesAt_of_standsAt hnameAt]
      rfl
    rw [foundInSection, WasmSection.id, if_pos rfl, hsectionName, WasmSection.payloadNamed]
    simp only [bind, Except.bind]
    split_ifs with hsame hfound
    · obtain ⟨other, rfl⟩ := Option.isSome_iff_exists.mp hfound
      rfl
    · have hlen : pos + (nameLen ++ (sectionName ++ payload)).length
          - (pos + nameLen.length + sectionName.length) = payload.length := by
        simp only [List.length_append]
        omega
      rw [hlen, bytesAt_of_standsAt hpayloadAt, Option.not_isSome_iff_eq_none.mp hfound]
      rfl
    · cases found <;> rfl

/-- **The walk over the sections of a module** answers with what it has found before and finds. -/
theorem sectionWalk_encoded {sections : List WasmSection} {blocks : List UInt8}
    (h : SectionsEncoded sections blocks) {left : ℕ} {found : Option (List UInt8)}
    (hat : StandsAt bytes pos blocks) (hend : bytes.length = pos + blocks.length)
    (hleft : blocks.length ≤ left) :
    sectionWalk bytes name left pos found
      = lookupAnswer name (found.toList ++ payloadsNamed name sections) := by
  induction h generalizing pos left found with
  | nil =>
    unfold sectionWalk
    rw [if_pos (by simp [hend])]
    cases found <;> rfl
  | @cons s block blocks sections head tail ih =>
    obtain ⟨size, body, hbody, hsize, rfl⟩ := head
    have hblock : StandsAt bytes pos (s.id :: (size ++ body)) := hat.left
    have hsizeAt : StandsAt bytes (pos + 1) (size ++ body) := hblock.tail
    have hbodyAt : StandsAt bytes (pos + 1 + size.length) body := hsizeAt.right
    obtain ⟨word, hread, hword⟩ := readFramingLeb_encodes hsize hsizeAt.left "section size"
    simp only [List.length_append, List.length_cons] at hend hleft
    obtain ⟨left, rfl⟩ : ∃ k, left = k + 1 := Nat.exists_eq_succ_of_ne_zero (by omega)
    have hnext : pos + (s.id :: (size ++ body)).length = pos + 1 + size.length + body.length := by
      simp only [List.length_append, List.length_cons]
      omega
    unfold sectionWalk
    rw [if_neg (by omega), byteAt_of_standsAt hblock]
    simp only [bind, Except.bind, hread, hword]
    rw [if_neg (by omega), foundInSection_hasBody hbody hbodyAt, payloadsNamed,
      List.filterMap_cons]
    cases hnamed : s.payloadNamed name with
    | none =>
      exact ih (hnext ▸ hat.right) (by omega) (by omega)
    | some payload =>
      cases found with
      | none => exact ih (hnext ▸ hat.right) (by omega) (by omega)
      | some other => rfl

/-- **A lookup in a module** is a lookup in the row of its sections. -/
theorem findCustomSection_eq {sections : List WasmSection} (h : CoreModule bytes sections) :
    findCustomSection bytes name = lookupAnswer name (payloadsNamed name sections) := by
  obtain ⟨blocks, rfl, hblocks⟩ := h
  have hcore : isCoreModule (corePreamble ++ blocks) = .ok true := by
    have hmagic : bytesAt (corePreamble ++ blocks) 0 4 = .ok kWasmMagic :=
      @bytesAt_of_standsAt (corePreamble ++ blocks) kWasmMagic 0
        ⟨[], leBytes 4 kCoreVersionWord ++ blocks, by simp [corePreamble], rfl⟩
    have hword : bytesAt (corePreamble ++ blocks) 4 4 = .ok (leBytes 4 kCoreVersionWord) :=
      @bytesAt_of_standsAt (corePreamble ++ blocks) (leBytes 4 kCoreVersionWord) 4
        ⟨kWasmMagic, blocks, rfl, rfl⟩
    rw [isCoreModule, if_neg (by simp [corePreamble, kWasmMagic, kPreambleSize])]
    simp only [bind, Except.bind, hmagic, hword]
    rfl
  have hat : StandsAt (corePreamble ++ blocks) kPreambleSize blocks :=
    ⟨corePreamble, [], by simp, rfl⟩
  rw [findCustomSection, hcore]
  exact sectionWalk_encoded hblocks hat (List.length_append ..) (by simp)

end Lookup

/-! ## Appending -/

section Appending

variable {bytes name payload : List UInt8} {sections : List WasmSection}

/-- The writer makes the shortest encoding. -/
theorem appendLeb128U32_eq (value : UInt32) :
    appendLeb128U32 value = Leb128.encode value.toNat := by
  have hnext : ∀ v : UInt32, (v >>> 7).toNat = v.toNat / 128 := fun v => by
    rw [UInt32.toNat_shiftRight, Nat.shiftRight_eq_div_pow]
    rfl
  have hlow : ∀ v : UInt32, (v &&& 0x7f).toUInt8.toNat = v.toNat % 128 := fun v => by
    have hand : (v &&& 0x7f).toNat = v.toNat % 128 :=
      (UInt32.toNat_and v 0x7f).trans (Nat.and_two_pow_sub_one_eq_mod v.toNat 7)
    rw [UInt32.toNat_toUInt8, hand]
    omega
  fun_induction appendLeb128U32 value with
  | case1 value h =>
    have hsmall : value.toNat < 128 := by
      have hzero := congrArg UInt32.toNat h
      rw [hnext] at hzero
      change value.toNat / 128 = 0 at hzero
      omega
    rw [Leb128.encode, if_pos hsmall]
    refine congrArg (· :: []) (UInt8.toNat_inj.mp ?_)
    rw [hlow, UInt8.toNat_ofNat']
    omega
  | case2 value h ih =>
    have hlarge : ¬ value.toNat < 128 := fun hlt => h (UInt32.toNat_inj.mp (by
      rw [hnext]
      exact Nat.div_eq_of_lt hlt))
    rw [Leb128.encode, if_neg hlarge, ih, hnext]
    refine congrArg (· :: _) (UInt8.toNat_inj.mp ?_)
    have hbit : 128 ||| (value &&& 0x7f).toUInt8.toNat = 128 + (value &&& 0x7f).toUInt8.toNat := by
      have hor := Nat.two_pow_add_eq_or_of_lt (i := 7) (b := (value &&& 0x7f).toUInt8.toNat)
        (by rw [hlow]; omega) 1
      exact hor.symm
    rw [UInt8.toNat_or, Nat.or_comm]
    change 128 ||| _ = _
    rw [hbit, hlow, UInt8.toNat_ofNat']
    omega

/-- What the writer writes is an encoding that the reader takes. -/
theorem encodesU32_append {n : ℕ} (h : n < 2 ^ 32) :
    EncodesU32 (appendLeb128U32 (UInt32.ofNat n)) n := by
  have hn : (UInt32.ofNat n).toNat = n := UInt32.toNat_ofNat_of_lt' h
  rw [appendLeb128U32_eq, hn]
  exact ⟨Leb128.encodes_encode n, Leb128.length_encode_le (h.trans (by decide)), h⟩

/-- The bytes of a new section, if its size is a word. -/
theorem buildCustomSection_encoded (h : (customSectionBody name payload).length < 2 ^ 32) :
    (WasmSection.custom name payload).EncodedBy (buildCustomSection name payload) := by
  have hname : name.length < 2 ^ 32 := by
    rw [customSectionBody, List.length_append, List.length_append] at h
    omega
  refine ⟨appendLeb128U32 (UInt32.ofNat (customSectionBody name payload).length),
    customSectionBody name payload, ⟨_, encodesU32_append hname, ?_⟩, encodesU32_append h, rfl⟩
  rw [customSectionBody, List.append_assoc]

theorem SectionsEncoded.concat {blocks block : List UInt8} {s : WasmSection}
    (h : SectionsEncoded sections blocks) (hs : s.EncodedBy block) :
    SectionsEncoded (sections ++ [s]) (blocks ++ block) := by
  induction h with
  | nil => simpa using SectionsEncoded.cons hs .nil
  | cons head _ ih =>
    rw [List.append_assoc]
    exact .cons head ih

/-- **A module with a section appended** is a module of one section more. -/
theorem CoreModule.append (h : CoreModule bytes sections)
    (hsize : (customSectionBody name payload).length < 2 ^ 32) :
    CoreModule (bytes ++ buildCustomSection name payload)
      (sections ++ [.custom name payload]) := by
  obtain ⟨blocks, rfl, hblocks⟩ := h
  exact ⟨blocks ++ buildCustomSection name payload, List.append_assoc ..,
    hblocks.concat (buildCustomSection_encoded hsize)⟩

/-- Appending is lookup first: a name that is taken is refused. -/
theorem appendCustomSection_eq (h : CoreModule bytes sections) :
    (payloadsNamed name sections = [] →
      appendCustomSection name payload bytes = .ok (bytes ++ buildCustomSection name payload)) ∧
    (payloadsNamed name sections ≠ [] →
      ∃ message, appendCustomSection name payload bytes = .error (.invalidArgument message)) := by
  rw [appendCustomSection, findCustomSection_eq h]
  constructor
  · intro hnone
    rw [hnone]
    rfl
  · intro hsome
    match hnamed : payloadsNamed name sections with
    | [] => exact absurd hnamed hsome
    | [payload] => exact ⟨_, rfl⟩
    | _ :: _ :: _ => exact ⟨_, rfl⟩

/-- **A custom section is found again.** In a well-formed module a section is appended if its name is
free, and then a lookup of the name gives the payload and lookups of other names what they gave
before; a name that is taken is refused. And a lookup in any bytes ends, inside the buffer. -/
theorem customSections_found :
    (∀ (bytes name payload : List UInt8) (sections : List WasmSection), CoreModule bytes sections →
      (customSectionBody name payload).length < 2 ^ 32 →
      (payloadsNamed name sections = [] → ∃ out, appendCustomSection name payload bytes = .ok out ∧
        findCustomSection out name = .ok payload ∧
        ∀ other ≠ name, findCustomSection out other = findCustomSection bytes other) ∧
      (payloadsNamed name sections ≠ [] →
        ∃ message, appendCustomSection name payload bytes = .error (.invalidArgument message))) ∧
    ∀ bytes name, Ends (findCustomSection bytes name) fun _ => True := by
  refine ⟨fun bytes name payload sections h hsize => ⟨fun hfree => ?_, ?_⟩, findCustomSection_ends⟩
  · refine ⟨_, (appendCustomSection_eq h).1 hfree, ?_, fun other hother => ?_⟩
    · rw [findCustomSection_eq (h.append hsize), payloadsNamed, List.filterMap_append]
      rw [payloadsNamed] at hfree
      simp [hfree, WasmSection.payloadNamed, lookupAnswer]
    · rw [findCustomSection_eq (h.append hsize), findCustomSection_eq h, payloadsNamed,
        List.filterMap_append]
      simp [WasmSection.payloadNamed, hother.symm, payloadsNamed]
  · exact (appendCustomSection_eq h).2

/-- A module of a type section, whose size is in two bytes, and a custom section `b`. -/
def typedModule : List UInt8 :=
  corePreamble ++ ([0x01, 0x84, 0x00, 0x01, 0x60, 0x00, 0x00] ++ [0x00, 0x03, 0x01, 0x62, 0x07])

theorem coreModule_typedModule :
    CoreModule typedModule [.other 0x01 (by decide) [0x01, 0x60, 0x00, 0x00], .custom [0x62] [0x07]] := by
  have hfour : EncodesU32 [0x84, 0x00] 4 :=
    ⟨.more (by decide) (@Leb128.Encodes.last 0x00 (by decide)), by decide, by decide⟩
  have hthree : EncodesU32 [0x03] 3 := ⟨@Leb128.Encodes.last 0x03 (by decide), by decide, by decide⟩
  have hone : EncodesU32 [0x01] 1 := ⟨@Leb128.Encodes.last 0x01 (by decide), by decide, by decide⟩
  have htype : (WasmSection.other 0x01 (by decide) [0x01, 0x60, 0x00, 0x00]).EncodedBy
      [0x01, 0x84, 0x00, 0x01, 0x60, 0x00, 0x00] := ⟨[0x84, 0x00], _, rfl, hfour, rfl⟩
  have hcustom : (WasmSection.custom [0x62] [0x07]).EncodedBy [0x00, 0x03, 0x01, 0x62, 0x07] :=
    ⟨[0x03], [0x01, 0x62, 0x07], ⟨[0x01], hone, rfl⟩, hthree, rfl⟩
  exact ⟨_, rfl, .cons htype (.cons hcustom .nil)⟩

/-- There a section `a` is found once it is appended, and `b` is what it was; a second `b` is
refused. -/
theorem customSections_found_typed :
    (∃ out, appendCustomSection [0x61] [0x2a] typedModule = .ok out ∧
      findCustomSection out [0x61] = .ok [0x2a] ∧ findCustomSection out [0x62] = .ok [0x07]) ∧
    ∃ message, appendCustomSection [0x62] [0x2a] typedModule = .error (.invalidArgument message) := by
  have hsize : ∀ c : UInt8, (customSectionBody [c] [0x2a]).length < 2 ^ 32 := by
    intro c
    have hlen : (UInt32.ofNat [c].length).toNat < 128 := by simp
    rw [customSectionBody, appendLeb128U32_eq, Leb128.encode, if_pos hlen]
    simp
  constructor
  · obtain ⟨out, happend, hfind, hothers⟩ := (customSections_found.1 typedModule [0x61] [0x2a] _
      coreModule_typedModule (hsize _)).1 (by decide)
    refine ⟨out, happend, hfind, (hothers [0x62] (by decide)).trans ?_⟩
    rw [findCustomSection_eq coreModule_typedModule]
    rfl
  · exact (customSections_found.1 typedModule [0x62] [0x2a] _ coreModule_typedModule (hsize _)).2
      (by decide)

end Appending

end CelWasm
