import CelWasm.Library.BitPrefix
import CelWasm.Runtime.SlotStrings

/-!
# Runtime/NetCidr — addresses and blocks of them

The network extension reads addresses with `inet_pton`, which is a parameter here, and keeps them as a
family and sixteen bytes; an IPv4 address has four and zeros behind them. An IPv6 address of the form
`::ffff:a.b.c.d` is the IPv4 address it maps, from the moment it is read. A block keeps the address it
was written with, host bits and all.

    text ──▸ address ──▸ in a block?      the first bits of two addresses
    text ──▸ block ──▸ masked, within a block?
-/

namespace CelWasm

open CellProg BitPrefix

/-! ## Reading addresses -/

/-- **`inet_pton`**, with `AF_INET` and with `AF_INET6`. -/
structure InetPton where
  v4 : List UInt8 → Option (Vector UInt8 4)
  v6 : List UInt8 → Option (Vector UInt8 16)

/-- `kNetIpMaxText`. -/
def kNetIpMaxText : ℕ := 39

/-- `is_v4_mapped`. -/
def isV4Mapped (b16 : Vector UInt8 16) : Bool :=
  (b16.toList.take 10).all (· == 0) && b16[10] == 0xff && b16[11] == 0xff

/-- The loop of `has_leading_zero_octet`. -/
def leadingZeroFrom (atOctetStart : Bool) : List UInt8 → Bool
  | [] => false
  | c :: rest =>
    (atOctetStart && c == 0x30 && rest.head?.any fun d => 0x30 ≤ d && d ≤ 0x39)
      || leadingZeroFrom (c == 0x2E) rest

/-- `has_leading_zero_octet`. -/
def hasLeadingZeroOctet : List UInt8 → Bool := leadingZeroFrom true

/-- `set_ipv4`. -/
def setIpv4 (v4 : Vector UInt8 4) : NetIp where
  family := 4
  addr := (v4 ++ Vector.replicate 12 (0 : UInt8) : Vector UInt8 (4 + 12))

/-- What C reads of bytes that end in a zero. -/
def cText (s : List UInt8) : List UInt8 := s.takeWhile (· != 0)

section Parsing

variable (inet : InetPton)

/-- `try_parse_v4`: no IPv4 at all, one that is refused, or an address. -/
def tryParseV4 (s : List UInt8) : Option (Option NetIp) :=
  match inet.v4 (cText s) with
  | none => none
  | some v4 => some (if hasLeadingZeroOctet s then none else some (setIpv4 v4))

/-- `try_parse_v6`. -/
def tryParseV6 (s : List UInt8) : Option NetIp :=
  if !s.contains 0x3A then none
  else if s.contains 0x2E then none
  else
    match inet.v6 (cText s) with
    | none => none
    | some b16 =>
      if isV4Mapped b16 then some (setIpv4 (b16.drop 12))
      else some { family := 6, addr := b16 }

/-- **`parse_address`**. -/
def parseAddress (s : List UInt8) : Option NetIp :=
  if s.length = 0 ∨ kNetIpMaxText < s.length then none
  else if s.contains 0x25 then none
  else
    match tryParseV4 inet s with
    | some v4 => v4
    | none => tryParseV6 inet s

/-- `parse_prefix`: what follows the slash, bounded by `max`. -/
def parsePrefix (max : UInt32) (digits : List UInt8) : Option UInt32 := do
  if digits = [] then none
  else
    let pfx ← digits.foldlM (fun pfx c =>
      if c < 0x30 ∨ 0x39 < c then none
      else
        let next := pfx * 10 + (c - 0x30).toUInt32
        if 128 < next then none else some next) (0 : UInt32)
    if max < pfx then none else some pfx

/-- The index of the last slash. -/
def lastSlash (s : List UInt8) : Option ℕ :=
  s.zipIdx.foldl (fun slash (c, k) => if c = 0x2F then some k else slash) none

/-- **`parse_cidr`**: split at the last slash. -/
def parseCidr (s : List UInt8) : Option NetCidr := do
  let slash ← lastSlash s
  let ip ← parseAddress inet (s.take slash)
  let pfx ← parsePrefix (if ip.family = 4 then 32 else 128) (s.drop (slash + 1))
  return { family := ip.family, pfx, addr := ip.addr }

end Parsing

/-! ## Masking -/

/-- `mask_bits`. -/
def maskBits (addr : Vector UInt8 16) (nbits : UInt32) : Vector UInt8 16 :=
  Vector.ofFn fun k : Fin 16 =>
    if nbits.toNat ≤ k * 8 then 0
    else if nbits.toNat < (k + 1) * 8 then
      addr[k] &&& (0xff <<< UInt8.ofNat (8 - (nbits.toNat - k * 8)))
    else addr[k]

/-- The block `cel_cidr_masked_at_v` writes. -/
def maskedCidr (c : NetCidr) : NetCidr := { c with addr := maskBits c.addr c.pfx }

/-- A kernel of the extension with a result in the arena: absorption, a check of the kind, and a block of
so many bytes for what there is to write. -/
def netKernelAt {α : Type} (want : CelKind) (arm : CelValue → Option α) (bytes : ℕ)
    (compute : α → Option CelValue) (out a : Slot) : SlotKernel Unit := do
  if ← absorb3vlUnaryAt out a then return
  if (← loadKind a) ≠ want then
    poisonAt out .typeMismatch
    return
  match compute (← payload arm a) with
  | none => poisonAt out .invalidArgument
  | some v => if ← arenaAllocAt bytes then store out v else poisonAt out .overflow

/-- `cel_ip_parse_at_v`. -/
def celIpParseAt (inet : InetPton) : Slot → Slot → SlotKernel Unit :=
  netKernelAt .string CelValue.string? 20 fun s => (parseAddress inet s).map CelValue.ip

/-- `cel_cidr_parse_at_v`. -/
def celCidrParseAt (inet : InetPton) : Slot → Slot → SlotKernel Unit :=
  netKernelAt .string CelValue.string? 24 fun s => (parseCidr inet s).map CelValue.cidr

/-- `cel_cidr_ip_at_v`. -/
def celCidrIpAt : Slot → Slot → SlotKernel Unit :=
  netKernelAt .cidr CelValue.cidr? 20 fun c => some (.ip { family := c.family, addr := c.addr })

/-- `cel_cidr_masked_at_v`. -/
def celCidrMaskedAt : Slot → Slot → SlotKernel Unit :=
  netKernelAt .cidr CelValue.cidr? 24 fun c => some (.cidr (maskedCidr c))

/-! ## Bit by bit -/

/-- **What is masked** keeps its first bits and no others. -/
theorem bitAt_maskBits (addr : Vector UInt8 16) (nbits : UInt32) {i : ℕ} (hi : i < 128) :
    bitAt (maskBits addr nbits).toList i = (bitAt addr.toList i && decide (i < nbits.toNat)) := by
  have hbyte : i / 8 < 16 := by omega
  have hbit : i % 8 < 8 := Nat.mod_lt _ (by decide)
  rw [bitAt, bitAt, List.getD_eq_getElem?_getD, List.getD_eq_getElem?_getD,
    List.getElem?_eq_getElem (by simpa using hbyte), List.getElem?_eq_getElem (by simpa using hbyte),
    Option.getD_some, Option.getD_some, Vector.getElem_toList, Vector.getElem_toList, maskBits,
    Vector.getElem_ofFn]
  simp only [Fin.getElem_fin]
  split_ifs with hall hsome
  · rw [byteBit_zero, decide_eq_false (by omega), Bool.and_false]
  · rw [byteBit_and]
    congr 1
    have hhigh := @byteBit_highBits (nbits.toNat - i / 8 * 8) (i % 8) (by omega) (by omega) hbit
    rw [highBits] at hhigh
    rw [hhigh]
    exact decide_eq_decide.mpr (by omega)
  · rw [decide_eq_true (by omega), Bool.and_true]

-- from here a masked address is known by its bits
attribute [local irreducible] maskBits

/-- An address of four bytes, bit by bit. -/
theorem drop_four_iff (addr : Vector UInt8 16) : addr.toList.drop 4 = List.replicate 12 0 ↔
    ∀ i < 96, bitAt addr.toList (32 + i) = false := by
  rw [eq_replicate_zero_iff (by simp)]
  exact forall₂_congr fun i _ => by rw [bitAt_drop]

/-- The bytes that an IPv4 address is mapped behind. -/
def mappedBytes : List UInt8 := List.replicate 10 0 ++ [0xff, 0xff, 0, 0, 0, 0]

theorem bitAt_mappedBytes : ∀ i < 96, bitAt mappedBytes i = decide (80 ≤ i) := by decide

/-- **A mapped address**, bit by bit. -/
theorem isV4Mapped_iff (b16 : Vector UInt8 16) :
    isV4Mapped b16 = true ↔ AgreeUpTo bitAt 96 b16.toList mappedBytes := by
  have hlen : b16.toList.length = 16 := Vector.length_toList
  have htake : b16.toList.take 12 = b16.toList.take 10 ++ [b16[10], b16[11]] := by
    rw [List.take_succ_eq_append_getElem (by omega), List.take_succ_eq_append_getElem (by omega),
      Vector.getElem_toList, Vector.getElem_toList, List.append_assoc]
    rfl
  have hmapped : mappedBytes.take 12 = List.replicate 10 0 ++ [0xff, 0xff] := rfl
  have hten : (b16.toList.take 10).length = 10 := by simp
  rw [← take_eq_take_iff (k := 12) hlen (by omega), htake, hmapped, isV4Mapped, Bool.and_eq_true,
    Bool.and_eq_true, beq_iff_eq, beq_iff_eq, List.all_eq_true]
  refine ⟨fun ⟨⟨hzero, h10⟩, h11⟩ => ?_, fun h => ?_⟩
  · rw [h10, h11, List.eq_replicate_iff.mpr ⟨hten, fun b hb => beq_iff_eq.mp (hzero b hb)⟩]
  · obtain ⟨hzero, hlast⟩ := List.append_inj h hten
    simp only [List.cons.injEq, and_true] at hlast
    refine ⟨⟨fun b hb => beq_iff_eq.mpr ?_, hlast.1⟩, hlast.2⟩
    exact List.eq_of_mem_replicate (hzero ▸ hb)

/-- **A prefix is compared** by its bits. -/
theorem firstNBitsMatch_iff (a b : Vector UInt8 16) {nbits : UInt32} (h : nbits.toNat ≤ 128) :
    firstNBitsMatch a b nbits = true ↔ AgreeUpTo bitAt nbits.toNat a.toList b.toList := by
  have hlen : a.toList.length = b.toList.length := by simp
  rw [agreeUpTo_iff hlen (by rw [Vector.length_toList]; omega), firstNBitsMatch]
  simp only [Bool.and_eq_true, Bool.or_eq_true, beq_iff_eq]
  rfl

/-! ## Values -/

/-- **A block of the extension**: read, or masked. -/
inductive IsCidrValue (inet : InetPton) : NetCidr → Prop
  | parsed {s : List UInt8} {c : NetCidr} (h : parseCidr inet s = some c) : IsCidrValue inet c
  | masked {c : NetCidr} (h : IsCidrValue inet c) : IsCidrValue inet (maskedCidr c)

/-- **An address of the extension**: read, or that of a block. -/
inductive IsIpValue (inet : InetPton) : NetIp → Prop
  | parsed {s : List UInt8} {ip : NetIp} (h : parseAddress inet s = some ip) : IsIpValue inet ip
  | ofCidr {c : NetCidr} (h : IsCidrValue inet c) : IsIpValue inet { family := c.family, addr := c.addr }

/-- The address a block is written with. -/
def NetCidr.ip (c : NetCidr) : NetIp := { family := c.family, addr := c.addr }

/-- **An address of a family**: four bytes and zeros, or sixteen. -/
def NetIp.IsAddress (p : NetIp) : Prop :=
  (p.family = 4 ∧ p.addr.toList.drop 4 = List.replicate 12 0) ∨ p.family = 6

/-- No IPv6 address that maps one of IPv4. -/
def NetIp.IsFolded (p : NetIp) : Prop := p.family = 6 → isV4Mapped p.addr = false

/-- The bits of an address. -/
def width (family : UInt32) : ℕ := if family = 4 then 32 else 128

/-- **A well-formed block**: an address, with no more bits to compare than it has. -/
structure NetCidr.WellFormed (c : NetCidr) : Prop where
  isAddress : c.ip.IsAddress
  isFolded : c.ip.IsFolded
  pfx_le : c.pfx.toNat ≤ width c.family

section WellFormed

variable {inet : InetPton}

theorem isAddress_setIpv4 (v4 : Vector UInt8 4) : (setIpv4 v4).IsAddress := by
  refine .inl ⟨rfl, ?_⟩
  change (v4 ++ Vector.replicate 12 (0 : UInt8)).toList.drop 4 = _
  rw [Vector.toList_append, List.drop_append_of_le_length (by simp), List.drop_of_length_le (by simp),
    Vector.toList_replicate]
  rfl

/-- **What is read is an address**, and folded. -/
theorem parseAddress_spec {s : List UInt8} {ip : NetIp} (h : parseAddress inet s = some ip) :
    ip.IsAddress ∧ ip.IsFolded := by
  have hv4 : ∀ v4 : Vector UInt8 4, (setIpv4 v4).IsAddress ∧ (setIpv4 v4).IsFolded :=
    fun v4 => ⟨isAddress_setIpv4 v4, fun h => nomatch (h : (4 : UInt32) = 6)⟩
  rw [parseAddress] at h
  split_ifs at h
  cases hfour : tryParseV4 inet s with
  | some r =>
    simp only [hfour] at h
    subst h
    rw [tryParseV4] at hfour
    split at hfour
    · exact nomatch hfour
    · split_ifs at hfour
      · exact nomatch hfour
      · obtain rfl := Option.some.inj (Option.some.inj hfour)
        exact hv4 _
  | none =>
    simp only [hfour] at h
    rw [tryParseV6] at h
    split_ifs at h
    split at h
    · exact nomatch h
    · split_ifs at h with hmapped
      · obtain rfl := Option.some.inj h
        exact hv4 _
      · obtain rfl := Option.some.inj h
        exact ⟨.inr rfl, fun _ => Bool.not_eq_true _ ▸ hmapped⟩

/-- A prefix that is read is within its bound. -/
theorem parsePrefix_le {max pfx : UInt32} {digits : List UInt8} (h : parsePrefix max digits = some pfx) :
    pfx ≤ max := by
  rw [parsePrefix] at h
  split_ifs at h
  obtain ⟨p, -, h⟩ := Option.bind_eq_some_iff.mp h
  split_ifs at h with hmax
  obtain rfl := Option.some.inj h
  exact UInt32.not_lt.mp hmax

/-- **What is read is a well-formed block**. -/
theorem wellFormed_of_parseCidr {s : List UInt8} {c : NetCidr} (h : parseCidr inet s = some c) :
    c.WellFormed := by
  rw [parseCidr] at h
  obtain ⟨slash, -, h⟩ := Option.bind_eq_some_iff.mp h
  obtain ⟨ip, hip, h⟩ := Option.bind_eq_some_iff.mp h
  obtain ⟨pfx, hpfx, h⟩ := Option.bind_eq_some_iff.mp h
  obtain rfl := Option.some.inj h
  obtain ⟨haddress, hfolded⟩ := parseAddress_spec hip
  refine ⟨haddress, hfolded, ?_⟩
  have hle := UInt32.le_iff_toNat_le.mp (parsePrefix_le hpfx)
  change pfx.toNat ≤ width ip.family
  rw [width]
  split_ifs at hle ⊢ <;> exact hle

/-- Masking keeps a block well formed: it turns bits off, and an address is not made a mapped one by
that. -/
theorem NetCidr.WellFormed.masked {c : NetCidr} (h : c.WellFormed) : (maskedCidr c).WellFormed := by
  obtain ⟨haddress, hfolded, hpfx⟩ := h
  have haddr : (maskedCidr c).ip.addr = maskBits c.addr c.pfx := rfl
  have hzeros : c.addr.toList.drop 4 = List.replicate 12 0 →
      (maskedCidr c).ip.addr.toList.drop 4 = List.replicate 12 0 := by
    rw [haddr, drop_four_iff, drop_four_iff]
    intro htail i hi
    rw [bitAt_maskBits _ _ (by omega), htail i hi, Bool.false_and]
  refine ⟨haddress.imp_left fun ⟨hfour, htail⟩ => ⟨hfour, hzeros htail⟩, fun hsix => ?_, hpfx⟩
  have hnot : ¬ isV4Mapped c.addr = true := Bool.not_eq_true _ ▸ hfolded hsix
  rw [haddr, ← Bool.not_eq_true, isV4Mapped_iff]
  rw [isV4Mapped_iff] at hnot
  refine fun hmapped => hnot fun i hi => ?_
  -- the last bit of the mark is on, so nothing before it was masked
  have hlast := hmapped 95 (by omega)
  rw [bitAt_maskBits _ _ (by omega), bitAt_mappedBytes 95 (by omega),
    decide_eq_true (show 80 ≤ 95 by decide), Bool.and_eq_true_iff] at hlast
  have hlt : 95 < c.pfx.toNat := of_decide_eq_true hlast.2
  have hbit := hmapped i hi
  rwa [bitAt_maskBits _ _ (by omega), decide_eq_true (by omega), Bool.and_true] at hbit

theorem IsCidrValue.wellFormed {c : NetCidr} (h : IsCidrValue inet c) : c.WellFormed := by
  induction h with
  | parsed h => exact wellFormed_of_parseCidr h
  | masked _ ih => exact ih.masked

/-- **No address of the extension is a mapped one.** -/
theorem IsIpValue.isFolded {p : NetIp} (h : IsIpValue inet p) : p.IsFolded := by
  cases h with
  | parsed h => exact (parseAddress_spec h).2
  | ofCidr h => exact h.wellFormed.isFolded

end WellFormed

/-! ## Blocks -/

/-- `containsIP` of a block and an address. -/
def NetCidr.containsIp (c : NetCidr) (p : NetIp) : Bool :=
  c.family == p.family && firstNBitsMatch c.addr p.addr c.pfx

/-- `containsCIDR` of two blocks. -/
def NetCidr.containsCidr (a b : NetCidr) : Bool :=
  a.family == b.family && !(b.pfx < a.pfx : Bool) && firstNBitsMatch a.addr b.addr a.pfx

/-- Addresses of a family. -/
def Address (family : UInt32) : Type := {p : NetIp // p.IsAddress ∧ p.family = family}

/-- The bits of an address. -/
def addressBit {family : UInt32} (p : Address family) : ℕ → Bool := bitAt p.val.addr.toList

/-- **The addresses of a block**: those of its family with its first bits. -/
def NetCidr.block (c : NetCidr) : Set NetIp :=
  {p | p.IsAddress ∧ c.family = p.family ∧ AgreeUpTo bitAt c.pfx.toNat c.addr.toList p.addr.toList}

/-- Any bit of an address may be turned over. -/
theorem flips_address (family : UInt32) : Flips (@addressBit family) (width family) := by
  rintro ⟨p, haddress, hfamily⟩ i hi
  have hi' : i < 128 := by
    rw [width] at hi
    split_ifs at hi <;> omega
  have hlen : i < 8 * p.addr.toList.length := by rw [Vector.length_toList]; omega
  have hbits := bitAt_flip hlen
  let x := p.addr.toList.getD (i / 8) 0 ^^^ (0x80 >>> UInt8.ofNat (i % 8))
  have haddr : (p.addr.set (i / 8) x (by omega)).toList = p.addr.toList.set (i / 8) x :=
    Vector.toList_set _
  refine ⟨⟨{ p with addr := p.addr.set (i / 8) x (by omega) }, ?_, hfamily⟩, fun j => ?_⟩
  · refine haddress.imp_left fun ⟨hfour, htail⟩ => ⟨hfour, ?_⟩
    rw [drop_four_iff] at htail ⊢
    intro j hj
    have hwidth : i < 32 := by rwa [width, if_pos (hfamily.symm.trans hfour)] at hi
    rw [haddr, hbits, htail j hj, decide_eq_false (by omega)]
    rfl
  · change bitAt (p.addr.set (i / 8) x (by omega)).toList j = _
    rw [haddr, hbits]
    rfl

section Laws

variable {a b : NetCidr}

theorem containsIp_iff (ha : a.WellFormed) (p : NetIp) : a.containsIp p = true ↔
    a.family = p.family ∧ AgreeUpTo bitAt a.pfx.toNat a.addr.toList p.addr.toList := by
  have hwidth : width a.family ≤ 128 := by rw [width]; split_ifs <;> omega
  rw [NetCidr.containsIp, Bool.and_eq_true, beq_iff_eq, firstNBitsMatch_iff _ _ (ha.pfx_le.trans hwidth)]

/-- A block has its own address. -/
theorem NetCidr.WellFormed.ip_mem_block (hb : b.WellFormed) : b.ip ∈ b.block :=
  ⟨hb.isAddress, rfl, fun _ _ => rfl⟩

/-- **One block is within another** as its addresses are. -/
theorem containsCidr_iff (ha : a.WellFormed) (hb : b.WellFormed) :
    a.containsCidr b = true ↔ b.block ⊆ a.block := by
  have hwidth : width a.family ≤ 128 := by rw [width]; split_ifs <;> omega
  have hpfx : ¬ b.pfx < a.pfx ↔ a.pfx.toNat ≤ b.pfx.toNat :=
    UInt32.not_lt.trans UInt32.le_iff_toNat_le
  rw [NetCidr.containsCidr, Bool.and_eq_true, Bool.and_eq_true, beq_iff_eq, Bool.not_eq_true',
    decide_eq_false_iff_not, hpfx, firstNBitsMatch_iff _ _ (ha.pfx_le.trans hwidth)]
  by_cases hfamily : a.family = b.family
  · have hblocks := block_subset_block_iff (m := b.pfx.toNat) (x := (⟨a.ip, ha.isAddress, rfl⟩ : Address a.family))
      (y := ⟨b.ip, hb.isAddress, hfamily.symm⟩) (flips_address a.family) ha.pfx_le
    refine (and_congr_left' (and_iff_right hfamily)).trans (hblocks.symm.trans ⟨fun h p hp => ?_, fun h p hp => ?_⟩)
    · obtain ⟨haddress, hp, hbits⟩ := hp
      exact ⟨haddress, hfamily.trans hp, @h ⟨p, haddress, (hfamily.trans hp).symm⟩ hbits⟩
    · exact (h ⟨p.2.1, hfamily.symm.trans p.2.2.symm, hp⟩).2.2
  · exact iff_of_false (fun h => hfamily h.1.1) fun h => hfamily (h hb.ip_mem_block).2.1

/-- **Masking keeps the first bits**… -/
theorem agreeUpTo_maskBits (addr : Vector UInt8 16) {nbits : UInt32} (h : nbits.toNat ≤ 128) :
    AgreeUpTo bitAt nbits.toNat (maskBits addr nbits).toList addr.toList := fun i hi => by
  rw [bitAt_maskBits _ _ (by omega), decide_eq_true hi, Bool.and_true]

/-- …and does nothing a second time. -/
theorem maskBits_maskBits (addr : Vector UInt8 16) (nbits : UInt32) :
    maskBits (maskBits addr nbits) nbits = maskBits addr nbits := by
  refine Vector.toList_inj.mp (eq_of_bitAt (by simp) fun i hi => ?_)
  rw [Vector.length_toList] at hi
  rw [bitAt_maskBits _ _ (by omega), bitAt_maskBits _ _ (by omega), Bool.and_assoc, Bool.and_self]

theorem maskedCidr_maskedCidr (c : NetCidr) : maskedCidr (maskedCidr c) = maskedCidr c := by
  rw [maskedCidr, maskedCidr]
  simp only [maskBits_maskBits]

/-- **The members of a masked block** are those of the block. -/
theorem containsIp_maskedCidr (ha : a.WellFormed) (p : NetIp) :
    (maskedCidr a).containsIp p = a.containsIp p := by
  have hwidth : width a.family ≤ 128 := by rw [width]; split_ifs <;> omega
  have hagree := agreeUpTo_maskBits a.addr (ha.pfx_le.trans hwidth)
  rw [Bool.eq_iff_iff, containsIp_iff ha, containsIp_iff ha.masked]
  exact and_congr_right' ⟨hagree.symm.trans, hagree.trans⟩

end Laws

/-! ## Kernels -/

/-- The address an operand stands for: its own, or the one that is read. -/
def resolvedIp (inet : InetPton) (arg : CelValue) : Kernel (Option NetIp) :=
  if arg.kind = .ip then some <$> arg.ip?.elim (Prog.stop .wildRead) pure
  else parseAddress inet <$> arg.string?.elim (Prog.stop .wildRead) pure

theorem reads_resolveArgIp_resolved (inet : InetPton) (arg : Slot) :
    Reads (resolveArgIp (parseAddress inet) arg) fun cells => resolvedIp inet (cells arg) := by
  refine .congr (.bind (reads_loadKind arg) fun _ =>
    .ite (.bind (reads_payload _ arg) fun _ => reads_pure _)
      (.bind (reads_payload _ arg) fun _ => reads_pure _)) fun cells => ?_
  rw [pure_bind, resolvedIp, map_eq_pure_bind, map_eq_pure_bind]

/-- The block an operand stands for. -/
def resolvedCidr (inet : InetPton) (arg : CelValue) : Kernel (Option NetCidr) :=
  if arg.kind = .cidr then some <$> arg.cidr?.elim (Prog.stop .wildRead) pure
  else parseCidr inet <$> arg.string?.elim (Prog.stop .wildRead) pure

theorem reads_resolveArgCidr_resolved (inet : InetPton) (arg : Slot) :
    Reads (resolveArgCidr (parseCidr inet) arg) fun cells => resolvedCidr inet (cells arg) := by
  refine .congr (.bind (reads_loadKind arg) fun _ =>
    .ite (.bind (reads_payload _ arg) fun _ => reads_pure _)
      (.bind (reads_payload _ arg) fun _ => reads_pure _)) fun cells => ?_
  rw [pure_bind, resolvedCidr, map_eq_pure_bind, map_eq_pure_bind]

/-- What a block comes to with the one or the address that an operand stands for. -/
def againstBlock {α : Type} (op : NetCidr → α → Bool) (cidr : CelValue) : Option α → Kernel CelValue
  | none => return .error .invalidArgument
  | some x => do
    let c ← cidr.cidr?.elim (Prog.stop .wildRead) pure
    return .bool (op c x)

/-- What `containsIP` comes to. -/
def celCidrContainsIp (inet : InetPton) (cidr arg : CelValue) : Kernel CelValue :=
  unlessAbsorbed cidr arg <|
    if cidr.kind ≠ .cidr ∨ (arg.kind ≠ .ip ∧ arg.kind ≠ .string) then return .error .typeMismatch
    else resolvedIp inet arg >>= againstBlock NetCidr.containsIp cidr

theorem computes_celCidrContainsIpAt (inet : InetPton) (cidr arg : Slot) :
    Computes (celCidrContainsIpAt (parseAddress inet) · cidr arg) fun cells =>
      celCidrContainsIp inet (cells cidr) (cells arg) := by
  refine computes_unlessAbsorbed cidr arg <| .congr (.read (reads_loadKind cidr) fun _ =>
    .read (reads_loadKind arg) fun _ => .read (reads_loadKind arg) fun _ =>
      .ite (computes_store _) <| .read (reads_resolveArgIp_resolved inet arg)
        (K := fun r cells => againstBlock NetCidr.containsIp (cells cidr) r) fun r => ?_) fun cells => ?_
  · cases r with
    | none => exact computes_store _
    | some p =>
      refine .congr (.read (reads_payload _ cidr) fun _ => .ite (computes_store _) (computes_store _))
        fun cells => bind_congr fun c => ?_
      rw [NetCidr.containsIp]
      split_ifs with hfamily
      · rw [beq_eq_false_iff_ne.mpr hfamily, Bool.false_and]
      · rw [beq_iff_eq.mpr (not_not.mp hfamily), Bool.true_and]
  · simp only [pure_bind, Bool.or_eq_true, Bool.and_eq_true, decide_eq_true_eq]

/-- What `containsCIDR` comes to. -/
def celCidrContainsCidr (inet : InetPton) (cidr arg : CelValue) : Kernel CelValue :=
  unlessAbsorbed cidr arg <|
    if cidr.kind ≠ .cidr ∨ (arg.kind ≠ .cidr ∧ arg.kind ≠ .string) then return .error .typeMismatch
    else resolvedCidr inet arg >>= againstBlock NetCidr.containsCidr cidr

theorem computes_celCidrContainsCidrAt (inet : InetPton) (cidr arg : Slot) :
    Computes (celCidrContainsCidrAt (parseCidr inet) · cidr arg) fun cells =>
      celCidrContainsCidr inet (cells cidr) (cells arg) := by
  refine computes_unlessAbsorbed cidr arg <| .congr (.read (reads_loadKind cidr) fun _ =>
    .read (reads_loadKind arg) fun _ => .read (reads_loadKind arg) fun _ =>
      .ite (computes_store _) <| .read (reads_resolveArgCidr_resolved inet arg)
        (K := fun r cells => againstBlock NetCidr.containsCidr (cells cidr) r) fun r => ?_) fun cells => ?_
  · cases r with
    | none => exact computes_store _
    | some b =>
      refine .congr (.read (reads_payload _ cidr) fun _ => .ite (computes_store _) (computes_store _))
        fun cells => bind_congr fun a => ?_
      rw [NetCidr.containsCidr]
      by_cases hfamily : a.family = b.family
      · by_cases hpfx : b.pfx < a.pfx
        · simp only [hfamily, hpfx, ne_eq, not_true_eq_false, decide_false, decide_true, Bool.or_true,
            if_true, Bool.not_true, Bool.and_false, Bool.false_and]
        · simp only [hfamily, hpfx, ne_eq, not_true_eq_false, decide_false, Bool.or_self,
            Bool.false_eq_true, if_false, BEq.rfl, Bool.not_false, Bool.and_self, Bool.true_and]
      · simp only [hfamily, ne_eq, not_false_eq_true, decide_true, Bool.true_or, if_true,
          beq_eq_false_iff_ne.mpr hfamily, Bool.false_and]
  · simp only [pure_bind, Bool.or_eq_true, Bool.and_eq_true, decide_eq_true_eq]

theorem not_isPoison_of_kind {v : CelValue} (h : v.kind ≠ .error ∧ v.kind ≠ .unknown) :
    v.isPoison = false := by
  cases v with
  | error _ => exact absurd rfl h.1
  | unknown _ => exact absurd rfl h.2
  | _ => rfl

/-- **Past the poison and the checks**, an operand that stands for something is held against the
block. -/
theorem celCidrContainsIp_eq {inet : InetPton} {a : NetCidr} {arg : CelValue}
    (hkind : arg.kind = .ip ∨ arg.kind = .string) {r : Option NetIp}
    (hr : resolvedIp inet arg = pure r) :
    celCidrContainsIp inet (.cidr a) arg
      = pure (r.elim (.error .invalidArgument) fun p => .bool (a.containsIp p)) := by
  have hpoison : arg.isPoison = false :=
    not_isPoison_of_kind ⟨fun h => by simp [h] at hkind, fun h => by simp [h] at hkind⟩
  have hchecks : ¬ ((CelValue.cidr a).kind ≠ .cidr ∨ (arg.kind ≠ .ip ∧ arg.kind ≠ .string)) := by
    rintro (h | h)
    exacts [h rfl, hkind.elim h.1 h.2]
  rw [celCidrContainsIp, unlessAbsorbed_of_not_poison rfl hpoison, if_neg hchecks, hr, pure_bind]
  cases r <;> rfl

theorem celCidrContainsCidr_eq {inet : InetPton} {a : NetCidr} {arg : CelValue}
    (hkind : arg.kind = .cidr ∨ arg.kind = .string) {r : Option NetCidr}
    (hr : resolvedCidr inet arg = pure r) :
    celCidrContainsCidr inet (.cidr a) arg
      = pure (r.elim (.error .invalidArgument) fun b => .bool (a.containsCidr b)) := by
  have hpoison : arg.isPoison = false :=
    not_isPoison_of_kind ⟨fun h => by simp [h] at hkind, fun h => by simp [h] at hkind⟩
  have hchecks : ¬ ((CelValue.cidr a).kind ≠ .cidr ∨ (arg.kind ≠ .cidr ∧ arg.kind ≠ .string)) := by
    rintro (h | h)
    exacts [h rfl, hkind.elim h.1 h.2]
  rw [celCidrContainsCidr, unlessAbsorbed_of_not_poison rfl hpoison, if_neg hchecks, hr, pure_bind]
  cases r <;> rfl

/-- A kernel with a result in the arena, on an operand of its kind and with memory to spare. -/
theorem granted_netKernelAt {α : Type} {want : CelKind} {arm : CelValue → Option α} {bytes : ℕ}
    {compute : α → Option CelValue} {cells : Slot → CelValue} {a : Slot} {x : α}
    (hpoison : (cells a).isPoison = false) (hkind : (cells a).kind = want) (hx : arm (cells a) = some x)
    (out : Slot) : ((netKernelAt want arm bytes compute out a).run cells).granted
      = .ok ((), Function.update cells out ((compute x).getD (.error .invalidArgument))) := by
  have hcomputes : Computes (netKernelAt want arm bytes compute · a) fun cells =>
      unlessAbsorbedUnary (cells a) <|
        if (cells a).kind ≠ want then return .error .typeMismatch
        else (arm (cells a)).elim (Prog.stop .wildRead) pure >>= fun x =>
          (compute x).elim (pure (.error .invalidArgument)) fun v =>
            Prog.alloc bytes >>= fun granted => pure (if granted then v else .error .overflow) := by
    refine computes_unlessAbsorbedUnary a <| .congr (.read (reads_loadKind a) fun _ =>
      .ite (computes_store _) <| .read (reads_payload arm a)
        (K := fun x _ => (compute x).elim (pure (.error .invalidArgument)) fun v =>
          Prog.alloc bytes >>= fun granted => pure (if granted then v else .error .overflow))
        fun x => ?_) fun cells => ?_
    · cases compute x with
      | none => exact computes_store _
      | some v =>
        refine .congr (.read (reads_lift _) fun granted => .ite (computes_store _) (computes_store _))
          fun cells => bind_congr fun granted => ?_
        split_ifs <;> rfl
    · rw [pure_bind]
  rw [hcomputes out cells]
  dsimp only
  rw [unlessAbsorbedUnary, absorb3vlUnary, if_neg (Bool.eq_false_iff.mp hpoison)]
  simp only [hkind, ne_eq, not_true_eq_false, if_false, hx, Option.elim_some, pure_bind]
  cases compute x <;> rfl

/-! ## Mapped addresses -/

/-- The address `::ffff:a.b.c.d`. -/
def mappedAddress (v4 : Vector UInt8 4) : Vector UInt8 16 :=
  (#v[(0 : UInt8), 0, 0, 0, 0, 0, 0, 0, 0, 0, 0xff, 0xff] ++ v4 : Vector UInt8 (12 + 4))

/-- **A text is an IPv4 address written as a mapped one**, in hexadecimal. -/
structure IsMappedText (inet : InetPton) (s : List UInt8) (v4 : Vector UInt8 4) : Prop where
  colon : 0x3A ∈ s
  noDot : 0x2E ∉ s
  noZone : 0x25 ∉ s
  length_le : s.length ≤ kNetIpMaxText
  notV4 : inet.v4 (cText s) = none
  mapped : inet.v6 (cText s) = some (mappedAddress v4)

theorem toList_mappedAddress (v4 : Vector UInt8 4) :
    (mappedAddress v4).toList = List.replicate 10 0 ++ [0xff, 0xff] ++ v4.toList :=
  Vector.toList_append

theorem isV4Mapped_mappedAddress (v4 : Vector UInt8 4) : isV4Mapped (mappedAddress v4) = true := by
  have hlen : (mappedAddress v4).toList.length = mappedBytes.length := by rw [Vector.length_toList]; rfl
  rw [isV4Mapped_iff, ← take_eq_take_iff (k := 12) hlen (by rw [Vector.length_toList]; omega),
    toList_mappedAddress, List.take_append_of_le_length (by simp)]
  rfl

theorem drop_mappedAddress (v4 : Vector UInt8 4) : (mappedAddress v4).drop 12 = v4 := by
  apply Vector.toList_inj.mp
  rw [Vector.toList_drop, toList_mappedAddress]
  exact List.drop_left' (by simp)

/-- **Such a text is read as the IPv4 address.** -/
theorem parseAddress_of_mapped {inet : InetPton} {s : List UInt8} {v4 : Vector UInt8 4}
    (h : IsMappedText inet s v4) : parseAddress inet s = some (setIpv4 v4) := by
  have hlength : ¬ (s.length = 0 ∨ kNetIpMaxText < s.length) :=
    not_or.mpr ⟨(List.length_pos_of_mem h.colon).ne', not_lt.mpr h.length_le⟩
  have hzone : ¬ s.contains 0x25 = true := by simpa using h.noZone
  have hcolon : ¬ (!s.contains 0x3A) = true := by simpa using h.colon
  have hdot : ¬ s.contains 0x2E = true := by simpa using h.noDot
  rw [parseAddress, if_neg hlength, if_neg hzone, tryParseV4, h.notV4]
  simp only
  rw [tryParseV6, if_neg hcolon, if_neg hdot, h.mapped]
  simp only [isV4Mapped_mappedAddress, if_true, drop_mappedAddress]

/-- The last slash is the one that no other follows. -/
theorem lastSlash_append (s : List UInt8) {digits : List UInt8} (h : 0x2F ∉ digits) :
    lastSlash (s ++ 0x2F :: digits) = some s.length := by
  have hnone : ∀ (l : List UInt8) (k : ℕ) (found : Option ℕ), 0x2F ∉ l →
      (l.zipIdx k).foldl (fun slash (c, k) => if c = 0x2F then some k else slash) found = found := by
    intro l
    induction l with
    | nil => exact fun _ _ _ => rfl
    | cons c l ih =>
      intro k found hl
      rw [List.mem_cons, not_or] at hl
      rw [List.zipIdx_cons, List.foldl_cons]
      dsimp only
      rw [if_neg (Ne.symm hl.1), ih _ _ hl.2]
  rw [lastSlash, List.zipIdx_append, List.foldl_append, List.zipIdx_cons, List.foldl_cons]
  dsimp only
  rw [if_pos rfl, hnone _ _ _ h, zero_add]

/-- A block is read as its address is, with the prefix that the address allows. -/
theorem parseCidr_append (inet : InetPton) (s : List UInt8) {digits : List UInt8} (h : 0x2F ∉ digits)
    {ip : NetIp} (hip : parseAddress inet s = some ip) :
    parseCidr inet (s ++ 0x2F :: digits) = (parsePrefix (if ip.family = 4 then 32 else 128) digits).map
      fun pfx => { family := ip.family, pfx, addr := ip.addr } := by
  have hdrop : (s ++ 0x2F :: digits).drop (s.length + 1) = digits := by
    rw [List.drop_append, List.drop_of_length_le (Nat.le_succ _), Nat.add_sub_cancel_left]
    rfl
  rw [parseCidr, lastSlash_append s h, Option.bind_eq_bind, Option.bind_some, List.take_left, hip,
    Option.bind_eq_bind, Option.bind_some, hdrop]
  cases parsePrefix (if ip.family = 4 then 32 else 128) digits <;> rfl

/-- …and so is the address of a block. -/
theorem parseCidr_of_mapped {inet : InetPton} {s digits : List UInt8} {v4 : Vector UInt8 4}
    (h : IsMappedText inet s v4) (hdigits : 0x2F ∉ digits) :
    parseCidr inet (s ++ 0x2F :: digits) = (parsePrefix 32 digits).map fun pfx =>
      { family := 4, pfx, addr := (setIpv4 v4).addr } := by
  have hfamily : (setIpv4 v4).family = 4 := rfl
  rw [parseCidr_append inet s hdigits (parseAddress_of_mapped h), hfamily, if_pos rfl]

/-! ## The laws -/

section Operands

variable {inet : InetPton} {cells : Slot → CelValue} {cidr arg : Slot} {a b : NetCidr} {s : List UInt8}

theorem run_containsIp_ip {p : NetIp} (ha : cells cidr = .cidr a) (hp : cells arg = .ip p) (out : Slot) :
    (celCidrContainsIpAt (parseAddress inet) out cidr arg).run cells
      = pure ((), Function.update cells out (.bool (a.containsIp p))) := by
  rw [computes_celCidrContainsIpAt inet cidr arg out cells]
  simp only [ha, hp]
  rw [celCidrContainsIp_eq (.inl rfl) rfl]
  rfl

theorem run_containsIp_string (ha : cells cidr = .cidr a) (hs : cells arg = .string s) (out : Slot) :
    (celCidrContainsIpAt (parseAddress inet) out cidr arg).run cells
      = pure ((), Function.update cells out
        ((parseAddress inet s).elim (.error .invalidArgument) fun p => .bool (a.containsIp p))) := by
  rw [computes_celCidrContainsIpAt inet cidr arg out cells]
  simp only [ha, hs]
  rw [celCidrContainsIp_eq (.inr rfl) rfl]
  rfl

theorem run_containsCidr_cidr (ha : cells cidr = .cidr a) (hb : cells arg = .cidr b) (out : Slot) :
    (celCidrContainsCidrAt (parseCidr inet) out cidr arg).run cells
      = pure ((), Function.update cells out (.bool (a.containsCidr b))) := by
  rw [computes_celCidrContainsCidrAt inet cidr arg out cells]
  simp only [ha, hb]
  rw [celCidrContainsCidr_eq (.inl rfl) rfl]
  rfl

theorem run_containsCidr_string (ha : cells cidr = .cidr a) (hs : cells arg = .string s) (out : Slot) :
    (celCidrContainsCidrAt (parseCidr inet) out cidr arg).run cells
      = pure ((), Function.update cells out
        ((parseCidr inet s).elim (.error .invalidArgument) fun b => .bool (a.containsCidr b))) := by
  rw [computes_celCidrContainsCidrAt inet cidr arg out cells]
  simp only [ha, hs]
  rw [celCidrContainsCidr_eq (.inr rfl) rfl]
  rfl

end Operands

/-- **The operations that take a text** take it for what is read of it, as `ip` and `cidr` do. -/
def TakesTextsAsRead (inet : InetPton) (a : NetCidr) : Prop :=
  ∀ (s : List UInt8) (cells : Slot → CelValue) (out cidr arg : Slot),
    cells cidr = .cidr a → cells arg = .string s →
    ((celIpParseAt inet out arg).run cells).granted = .ok ((), Function.update cells out
      ((parseAddress inet s).elim (.error .invalidArgument) .ip)) ∧
    ((celCidrParseAt inet out arg).run cells).granted = .ok ((), Function.update cells out
      ((parseCidr inet s).elim (.error .invalidArgument) .cidr)) ∧
    (celCidrContainsIpAt (parseAddress inet) out cidr arg).run cells
      = pure ((), Function.update cells out
        ((parseAddress inet s).elim (.error .invalidArgument) fun p => .bool (a.containsIp p))) ∧
    (celCidrContainsCidrAt (parseCidr inet) out cidr arg).run cells
      = pure ((), Function.update cells out
        ((parseCidr inet s).elim (.error .invalidArgument) fun b => .bool (a.containsCidr b)))

theorem takesTextsAsRead (inet : InetPton) (a : NetCidr) : TakesTextsAsRead inet a := by
  intro s cells out cidr arg ha hs
  have hpoison : (cells arg).isPoison = false := by rw [hs]; rfl
  have hkind : (cells arg).kind = .string := by rw [hs]; rfl
  have hstring : (cells arg).string? = some s := by rw [hs]; rfl
  refine ⟨?_, ?_, run_containsIp_string ha hs out, run_containsCidr_string ha hs out⟩
  · rw [celIpParseAt, granted_netKernelAt hpoison hkind hstring]
    cases parseAddress inet s <;> rfl
  · rw [celCidrParseAt, granted_netKernelAt hpoison hkind hstring]
    cases parseCidr inet s <;> rfl

/-- **The laws of blocks.** An address is in a block exactly when the families agree and the address has
the first bits of the block; one block contains another exactly when every address of that is in it; a
masked block is the same set, and masking it again does nothing. No address or block of the extension is
a mapped one, a text of a mapped address is read as the IPv4 address, and every operation on texts goes
by what is read. -/
theorem cidrContainment_laws {inet : InetPton} {a b : NetCidr} (ha : IsCidrValue inet a)
    (hb : IsCidrValue inet b) :
    (∀ (p : NetIp) (cells : Slot → CelValue) (out cidr arg : Slot),
      cells cidr = .cidr a → cells arg = .ip p →
      ∃ v, (celCidrContainsIpAt (parseAddress inet) out cidr arg).run cells
          = pure ((), Function.update cells out (.bool v)) ∧
        (v = true ↔ a.family = p.family ∧
          AgreeUpTo bitAt a.pfx.toNat a.addr.toList p.addr.toList)) ∧
    (∀ (cells : Slot → CelValue) (out cidr arg : Slot),
      cells cidr = .cidr a → cells arg = .cidr b →
      ∃ v, (celCidrContainsCidrAt (parseCidr inet) out cidr arg).run cells
          = pure ((), Function.update cells out (.bool v)) ∧
        (v = true ↔ b.block ⊆ a.block)) ∧
    (∀ (cells : Slot → CelValue) (out cidr : Slot), cells cidr = .cidr a →
      ((celCidrMaskedAt out cidr).run cells).granted
        = .ok ((), Function.update cells out (.cidr (maskedCidr a))) ∧
      ((celCidrIpAt out cidr).run cells).granted = .ok ((), Function.update cells out (.ip a.ip))) ∧
    maskedCidr (maskedCidr a) = maskedCidr a ∧ (maskedCidr a).block = a.block ∧
    (∀ p, (maskedCidr a).containsIp p = a.containsIp p) ∧
    (∀ p, IsIpValue inet p → p.IsFolded) ∧ a.ip.IsFolded ∧
    (∀ s v4, IsMappedText inet s v4 → parseAddress inet s = some (setIpv4 v4) ∧
      ∀ digits : List UInt8, 0x2F ∉ digits → parseCidr inet (s ++ 0x2F :: digits)
        = (parsePrefix 32 digits).map fun pfx => { family := 4, pfx, addr := (setIpv4 v4).addr }) ∧
    TakesTextsAsRead inet a := by
  have hwf := ha.wellFormed
  have hblock : (maskedCidr a).block = a.block := by
    have hwidth : width a.family ≤ 128 := by rw [width]; split_ifs <;> omega
    have hagree := agreeUpTo_maskBits a.addr (hwf.pfx_le.trans hwidth)
    exact Set.ext fun p => and_congr_right' (and_congr_right' ⟨hagree.symm.trans, hagree.trans⟩)
  refine ⟨fun p cells out cidr arg hcidr harg => ⟨_, run_containsIp_ip hcidr harg out, containsIp_iff hwf p⟩,
    fun cells out cidr arg hcidr harg =>
      ⟨_, run_containsCidr_cidr hcidr harg out, containsCidr_iff hwf hb.wellFormed⟩,
    fun cells out cidr hcidr => ?_, maskedCidr_maskedCidr a, hblock, containsIp_maskedCidr hwf,
    fun p hp => hp.isFolded, hwf.isFolded,
    fun s v4 hs => ⟨parseAddress_of_mapped hs, fun digits => parseCidr_of_mapped hs⟩,
    takesTextsAsRead inet a⟩
  have hpoison : (cells cidr).isPoison = false := by rw [hcidr]; rfl
  have hkind : (cells cidr).kind = .cidr := by rw [hcidr]; rfl
  have hcidr? : (cells cidr).cidr? = some a := by rw [hcidr]; rfl
  rw [celCidrMaskedAt, celCidrIpAt, granted_netKernelAt hpoison hkind hcidr?,
    granted_netKernelAt hpoison hkind hcidr?]
  exact ⟨rfl, rfl⟩

/-- The reader of two addresses. -/
def inetOfTen : InetPton where
  v4 s :=
    if s = [0x31, 0x30, 0x2E, 0x30, 0x2E, 0x30, 0x2E, 0x30] then some #v[10, 0, 0, 0]
    else if s = [0x31, 0x30, 0x2E, 0x31, 0x2E, 0x30, 0x2E, 0x30] then some #v[10, 1, 0, 0]
    else none
  v6 _ := none

/-- `10.0.0.0/8` and `10.1.0.0/16`. -/
theorem cidrContainment_laws_ten : ∃ v,
    (celCidrContainsCidrAt (parseCidr inetOfTen) 2 0 1).run (fun s => .cidr
        (if s = 0 then ⟨4, 8, #v[10, 0, 0, 0, 0, 0, 0, 0, 0, 0, 0, 0, 0, 0, 0, 0]⟩
          else ⟨4, 16, #v[10, 1, 0, 0, 0, 0, 0, 0, 0, 0, 0, 0, 0, 0, 0, 0]⟩))
      = pure ((), Function.update (fun s => .cidr
        (if s = 0 then ⟨4, 8, #v[10, 0, 0, 0, 0, 0, 0, 0, 0, 0, 0, 0, 0, 0, 0, 0]⟩
          else ⟨4, 16, #v[10, 1, 0, 0, 0, 0, 0, 0, 0, 0, 0, 0, 0, 0, 0, 0]⟩)) 2 (.bool v)) ∧
    (v = true ↔ NetCidr.block ⟨4, 16, #v[10, 1, 0, 0, 0, 0, 0, 0, 0, 0, 0, 0, 0, 0, 0, 0]⟩
      ⊆ NetCidr.block ⟨4, 8, #v[10, 0, 0, 0, 0, 0, 0, 0, 0, 0, 0, 0, 0, 0, 0, 0]⟩) :=
  (@cidrContainment_laws inetOfTen _ _
    (.parsed (s := [0x31, 0x30, 0x2E, 0x30, 0x2E, 0x30, 0x2E, 0x30, 0x2F, 0x38]) (by decide))
    (.parsed (s := [0x31, 0x30, 0x2E, 0x31, 0x2E, 0x30, 0x2E, 0x30, 0x2F, 0x31, 0x36]) (by decide))).2.1
    _ 2 0 1 rfl rfl

end CelWasm
