import CelWasm.Library.DecimalDigits
import CelWasm.Library.Pieces
import CelWasm.Runtime.NetCidr
import Mathlib.Data.List.TakeWhile

/-!
# Runtime/AddressTexts — the texts that are read as addresses

A string has a length, and the text that `inet_pton` reads ends at the first zero. `parse_address`
copies the one into the other, and looks at all of the string for a zone, a colon or a point, but never
for a zero. So a string is read as the address in front of its first zero, whatever follows it within
the length of an address; without a zero all of it is read.

    "1.2.3.4\0x"  ──▸  1.2.3.4
-/

namespace CelWasm

open CellProg

/-! ## The grammar -/

/-- A decimal octet. -/
def IsOctet (o : List UInt8) : Prop := (o ≠ [] ∧ ∀ b ∈ o, IsDigit b) ∧ o.length ≤ 3 ∧ denoted o ≤ 255

/-- Four octets between points. -/
def IsDotted (t : List UInt8) : Prop :=
  (t.splitOn 0x2E).length = 4 ∧ ∀ o ∈ t.splitOn 0x2E, IsOctet o

/-- A hexadecimal digit. -/
def IsHexDigit (b : UInt8) : Prop :=
  IsDigit b ∨ (0x61 ≤ b ∧ b ≤ 0x66) ∨ (0x41 ≤ b ∧ b ≤ 0x46)

/-- Four hexadecimal digits at most. -/
def IsGroup (g : List UInt8) : Prop := g ≠ [] ∧ g.length ≤ 4 ∧ ∀ b ∈ g, IsHexDigit b

/-- The groups between colons, none in an empty text. -/
def groups (t : List UInt8) : List (List UInt8) := if t = [] then [] else t.splitOn 0x3A

/-- Groups to either side of a double colon, at `i`: seven at most, as it stands for one at least. -/
def IsShortened (t : List UInt8) (i : ℕ) : Prop :=
  (t.drop i).take 2 = [0x3A, 0x3A] ∧
    (groups (t.take i)).length + (groups (t.drop (i + 2))).length ≤ 7 ∧
    ∀ g ∈ groups (t.take i) ++ groups (t.drop (i + 2)), IsGroup g

/-- Eight groups, or fewer with a double colon. -/
def IsColonHex (t : List UInt8) : Prop :=
  ((groups t).length = 8 ∧ ∀ g ∈ groups t, IsGroup g) ∨ ∃ i < t.length, IsShortened t i

instance : DecidablePred IsOctet := fun o =>
  letI := List.decidableBAll IsDigit o
  inferInstanceAs (Decidable (_ ∧ _))
instance : DecidablePred IsDotted := fun _ => inferInstanceAs (Decidable (_ ∧ _))
instance : DecidablePred IsHexDigit := fun _ => inferInstanceAs (Decidable (_ ∨ _))
instance : DecidablePred IsGroup := fun g =>
  letI := List.decidableBAll IsHexDigit g
  inferInstanceAs (Decidable (_ ∧ _))
instance (t : List UInt8) : DecidablePred (IsShortened t) := fun _ =>
  inferInstanceAs (Decidable (_ ∧ _))
instance : DecidablePred IsColonHex := fun _ => inferInstanceAs (Decidable (_ ∨ _))

/-- **The textual form of an address.** -/
def IsAddressText (t : List UInt8) : Prop := IsDotted t ∨ IsColonHex t

/-- **The textual form of a block**: an address and a decimal number of its bits. -/
def IsBlockText (t : List UInt8) : Prop :=
  ∃ address digits, t = address ++ 0x2F :: digits ∧ IsNumeral digits ∧
    (IsDotted address ∧ denoted digits ≤ 32 ∨ IsColonHex address ∧ denoted digits ≤ 128)

/-- **`inet_pton` as documented**, on texts that end in their zero. Of octets with leading zeros the
platforms differ, and points in an IPv6 address do not reach it. -/
structure InetPton.Documented (inet : InetPton) : Prop where
  isDotted {t : List UInt8} : (inet.v4 t).isSome → IsDotted t
  isSome_v4 {t : List UInt8} : IsDotted t → hasLeadingZeroOctet t = false → (inet.v4 t).isSome
  isSome_v6_iff {t : List UInt8} : 0x2E ∉ t → ((inet.v6 t).isSome ↔ IsColonHex t)

/-! ## The bytes of an address -/

section Bytes

variable {t : List UInt8} {b : UInt8}

theorem IsDotted.of_mem (h : IsDotted t) (hb : b ∈ t) : b = 0x2E ∨ IsDigit b := by
  rw [← @List.intercalate_splitOn _ t _ _ 0x2E] at hb
  obtain hb | ⟨o, ho, hb⟩ := mem_intercalate hb
  · exact .inl (List.mem_singleton.mp hb)
  · exact .inr ((h.2 o ho).1.2 b hb)

theorem IsDotted.point_mem (h : IsDotted t) : 0x2E ∈ t := by
  obtain ⟨hlength, -⟩ := h
  by_contra hnone
  have hone : [t] = t.splitOn 0x2E := by
    have hsplit := @List.splitOn_intercalate _ [t] _ _ 0x2E (by simpa using hnone) (by simp)
    simpa [List.intercalate] using hsplit.symm
  rw [← hone] at hlength
  exact absurd hlength (by simp)

theorem of_mem_groups (hg : ∀ g ∈ groups t, IsGroup g) (hb : b ∈ t) :
    b = 0x3A ∨ IsHexDigit b := by
  by_cases hnil : t = []
  · exact absurd hb (by simp [hnil])
  rw [groups, if_neg hnil] at hg
  rw [← @List.intercalate_splitOn _ t _ _ 0x3A] at hb
  obtain hb | ⟨g, hmem, hb⟩ := mem_intercalate hb
  · exact .inl (List.mem_singleton.mp hb)
  · exact .inr ((hg g hmem).2.2 b hb)

theorem IsColonHex.of_mem (h : IsColonHex t) (hb : b ∈ t) : b = 0x3A ∨ IsHexDigit b := by
  obtain ⟨-, hall⟩ | ⟨i, -, hcolons, -, hall⟩ := h
  · exact of_mem_groups hall hb
  · rw [← List.take_append_drop i t, ← List.take_append_drop 2 (t.drop i), hcolons,
      List.drop_drop, List.mem_append, List.mem_append] at hb
    obtain hb | hb | hb := hb
    · exact of_mem_groups (fun g hg => hall g (List.mem_append_left _ hg)) hb
    · simp only [List.mem_cons, List.not_mem_nil, or_false, or_self] at hb
      exact .inl hb
    · exact of_mem_groups (fun g hg => hall g (List.mem_append_right _ hg)) hb

/-- There is no zero in an address. -/
theorem IsAddressText.zero_notMem (h : IsAddressText t) : 0 ∉ t := by
  intro hmem
  obtain h | h := h
  · exact absurd (h.of_mem hmem) (by decide)
  · exact absurd (h.of_mem hmem) (by decide)

end Bytes

/-- A colon is in an address of groups. -/
theorem IsColonHex.colon_mem {t : List UInt8} (h : IsColonHex t) : 0x3A ∈ t := by
  obtain ⟨hlength, -⟩ | ⟨i, -, hcolons, -⟩ := h
  · by_contra hnone
    rw [groups] at hlength
    split_ifs at hlength
    have hsplit := @List.splitOn_intercalate _ [t] _ _ 0x3A (by simpa using hnone) (by simp)
    have hone : [t] = t.splitOn 0x3A := by simpa [List.intercalate] using hsplit.symm
    rw [← hone] at hlength
    exact absurd hlength (by simp)
  · have hmem : 0x3A ∈ (t.drop i).take 2 := by
      rw [hcolons]
      exact List.mem_cons_self
    exact List.mem_of_mem_drop (List.mem_of_mem_take hmem)

/-! ## What is read of a string -/

section Reading

variable {inet : InetPton} {s : List UInt8}

theorem cText_of_notMem (h : 0 ∉ s) : cText s = s := by
  rw [cText, List.takeWhile_eq_self_iff]
  intro b hb
  rw [bne_iff_ne]
  rintro rfl
  exact h hb

theorem mem_of_mem_cText {b : UInt8} (h : b ∈ cText s) : b ∈ s := List.takeWhile_subset _ h

/-- A leading zero is one in whatever begins with it. -/
theorem leadingZeroFrom_append {start : Bool} {t rest : List UInt8}
    (h : leadingZeroFrom start t = true) : leadingZeroFrom start (t ++ rest) = true := by
  induction t generalizing start with
  | nil => exact nomatch h
  | cons c t ih =>
    rw [leadingZeroFrom, Bool.or_eq_true] at h
    rw [List.cons_append, leadingZeroFrom, Bool.or_eq_true]
    refine h.imp (fun hhere => ?_) ih
    rcases t with _ | ⟨d, t⟩
    · simp at hhere
    · exact hhere

theorem hasLeadingZeroOctet_cText (h : hasLeadingZeroOctet s = false) :
    hasLeadingZeroOctet (cText s) = false := by
  rw [Bool.eq_false_iff] at h ⊢
  refine fun hfront => h ?_
  have happend := @leadingZeroFrom_append true (cText s) (s.dropWhile (· != 0)) hfront
  rwa [cText, List.takeWhile_append_dropWhile] at happend

/-- **What is in front of the first zero of a string is an address**, and nothing else of the string is
refused. With it comes the bound of a prefix. -/
inductive FrontIsAddress (inet : InetPton) (s : List UInt8) : ℕ → Prop
  | dotted (front : IsDotted (cText s)) (zeros : hasLeadingZeroOctet s = false) :
      FrontIsAddress inet s 32
  | colonHex {b16 : Vector UInt8 16} (front : IsColonHex (cText s)) (point : 0x2E ∉ s)
      (bytes : inet.v6 (cText s) = some b16) :
      FrontIsAddress inet s (if isV4Mapped b16 then 32 else 128)

/-- **A string is read as an address**: what is in front of its first zero is one, and it is short and
without a zone. -/
structure ReadsFront (inet : InetPton) (s : List UInt8) (bound : ℕ) : Prop where
  length_le : s.length ≤ kNetIpMaxText
  noZone : 0x25 ∉ s
  front : FrontIsAddress inet s bound

theorem FrontIsAddress.isAddressText {bound : ℕ} (h : FrontIsAddress inet s bound) :
    IsAddressText (cText s) := by
  obtain ⟨front, -⟩ | ⟨front, -, -⟩ := h
  · exact .inl front
  · exact .inr front

theorem FrontIsAddress.ne_nil {bound : ℕ} (h : FrontIsAddress inet s bound) : s ≠ [] := by
  rintro rfl
  obtain front | front := h.isAddressText
  · exact absurd front.point_mem List.not_mem_nil
  · exact absurd front.colon_mem List.not_mem_nil

/-- The most bits of a prefix behind an address. -/
def NetIp.bound (ip : NetIp) : ℕ := if ip.family = 4 then 32 else 128

section Documented

variable (hinet : inet.Documented)

include hinet

theorem readsFront_of_parseAddress {ip : NetIp} (h : parseAddress inet s = some ip) :
    ReadsFront inet s ip.bound := by
  rw [parseAddress] at h
  split_ifs at h with hlength hzone
  rw [not_or, not_lt] at hlength
  refine ⟨hlength.2, by simpa using hzone, ?_⟩
  cases hfour : inet.v4 (cText s) with
  | some v4 =>
    simp only [tryParseV4, hfour] at h
    split_ifs at h with hzeros
    obtain rfl := Option.some.inj h
    exact .dotted (hinet.isDotted (by simp [hfour])) (Bool.eq_false_iff.mpr hzeros)
  | none =>
    simp only [tryParseV4, hfour, tryParseV6] at h
    split_ifs at h with hcolon hpoint
    have hpoint' : 0x2E ∉ s := by simpa using hpoint
    cases hsix : inet.v6 (cText s) with
    | none => simp [hsix] at h
    | some b16 =>
      have hfront : IsColonHex (cText s) :=
        (hinet.isSome_v6_iff fun hmem => hpoint' (mem_of_mem_cText hmem)).mp (by simp [hsix])
      have hread := FrontIsAddress.colonHex hfront hpoint' hsix
      simp only [hsix] at h
      split_ifs at h with hmapped
      · obtain rfl := Option.some.inj h
        rwa [if_pos hmapped] at hread
      · obtain rfl := Option.some.inj h
        rwa [if_neg hmapped] at hread

theorem exists_parseAddress {bound : ℕ} (h : ReadsFront inet s bound) :
    ∃ ip, parseAddress inet s = some ip ∧ ip.bound = bound := by
  have hlength : ¬ (s.length = 0 ∨ kNetIpMaxText < s.length) :=
    not_or.mpr ⟨fun hzero => h.front.ne_nil (List.length_eq_zero_iff.mp hzero),
      not_lt.mpr h.length_le⟩
  have hzone : ¬ s.contains 0x25 = true := by simpa using h.noZone
  rw [parseAddress, if_neg hlength, if_neg hzone]
  obtain ⟨front, zeros⟩ | @⟨b16, front, point, bytes⟩ := h.front
  · obtain ⟨v4, hv4⟩ :=
      Option.isSome_iff_exists.mp (hinet.isSome_v4 front (hasLeadingZeroOctet_cText zeros))
    refine ⟨setIpv4 v4, ?_, rfl⟩
    simp only [tryParseV4, hv4, zeros, Bool.false_eq_true, if_false]
  · have hnone : inet.v4 (cText s) = none := by
      rw [Option.eq_none_iff_forall_not_mem]
      intro v4 hv4
      refine point (mem_of_mem_cText (IsDotted.point_mem (hinet.isDotted (t := cText s) ?_)))
      rw [Option.mem_def.mp hv4, Option.isSome_some]
    have hcolon : ¬ (!s.contains 0x3A) = true := by simpa using mem_of_mem_cText front.colon_mem
    have hpoint : ¬ s.contains 0x2E = true := by simpa using point
    simp only [tryParseV4, hnone, tryParseV6, if_neg hcolon, if_neg hpoint, bytes]
    split_ifs with hmapped
    · exact ⟨_, rfl, rfl⟩
    · exact ⟨_, rfl, rfl⟩

end Documented

end Reading

/-! ## Prefixes and blocks -/

/-- A step of the loop of `parse_prefix`. -/
def prefixStep (pfx : UInt32) (c : UInt8) : Option UInt32 :=
  if c < 0x30 ∨ 0x39 < c then none
  else
    let next := pfx * 10 + (c - 0x30).toUInt32
    if 128 < next then none else some next

theorem prefixStep_eq_some_iff {pfx next : UInt32} {c : UInt8} (hpfx : pfx.toNat ≤ 128) :
    prefixStep pfx c = some next ↔
      IsDigit c ∧ pfx.toNat * 10 + digitValue c ≤ 128 ∧
        next.toNat = pfx.toNat * 10 + digitValue c := by
  have hdigit : ¬ (c < 0x30 ∨ 0x39 < c) ↔ IsDigit c := by
    rw [not_or, UInt8.not_lt, UInt8.not_lt, IsDigit]
  rw [prefixStep]
  by_cases hc : IsDigit c
  · have hvalue : (c - 0x30).toUInt32.toNat = digitValue c := by
      rw [UInt8.toNat_toUInt32, UInt8.toNat_sub_of_le _ _ hc.1]
      rfl
    have hle : digitValue c < 256 := (Nat.sub_le _ _).trans_lt c.toNat_lt
    have hten : (10 : UInt32).toNat = 10 := rfl
    have hnext : (pfx * 10 + (c - 0x30).toUInt32).toNat = pfx.toNat * 10 + digitValue c := by
      rw [UInt32.toNat_add, UInt32.toNat_mul, hvalue, hten]
      omega
    have hover : 128 < pfx * 10 + (c - 0x30).toUInt32 ↔ 128 < pfx.toNat * 10 + digitValue c := by
      rw [UInt32.lt_iff_toNat_lt, hnext]
      rfl
    rw [if_neg (hdigit.mpr hc), and_iff_right hc, ← hnext, UInt32.toNat_inj]
    simp only [hover, hnext]
    split_ifs with hlarge
    · exact iff_of_false not_false fun h => absurd h.1 (not_le.mpr hlarge)
    · rw [Option.some.injEq, and_iff_right (not_lt.mp hlarge), eq_comm]
  · rw [if_pos (by rwa [← not_iff_not.mpr hdigit, not_not] at hc)]
    exact iff_of_false (Option.some_ne_none next).symm fun h => hc h.1

theorem foldlM_prefixStep_eq_some_iff {digits : List UInt8} {pfx last : UInt32}
    (hpfx : pfx.toNat ≤ 128) : digits.foldlM prefixStep pfx = some last ↔
      (∀ c ∈ digits, IsDigit c) ∧ pfx.toNat * 10 ^ digits.length + denoted digits ≤ 128 ∧
        last.toNat = pfx.toNat * 10 ^ digits.length + denoted digits := by
  induction digits generalizing pfx with
  | nil =>
    rw [List.foldlM_nil, List.length_nil, pow_zero, mul_one, denoted_nil, Nat.add_zero]
    change some pfx = some last ↔ _
    rw [Option.some.injEq, ← UInt32.toNat_inj, eq_comm]
    exact ⟨fun h => ⟨nofun, hpfx, h⟩, fun h => h.2.2⟩
  | cons c digits ih =>
    have hsplit : pfx.toNat * 10 ^ (c :: digits).length + denoted (c :: digits)
        = (pfx.toNat * 10 + digitValue c) * 10 ^ digits.length + denoted digits := by
      rw [denoted_cons, List.length_cons, pow_succ]
      ring
    have hpower : 1 ≤ 10 ^ digits.length := Nat.one_le_pow _ _ (by decide)
    have hgrow : pfx.toNat * 10 + digitValue c
        ≤ (pfx.toNat * 10 + digitValue c) * 10 ^ digits.length + denoted digits :=
      (Nat.le_mul_of_pos_right _ hpower).trans (Nat.le_add_right _ _)
    rw [List.foldlM_cons, hsplit, List.forall_mem_cons, Option.bind_eq_bind,
      Option.bind_eq_some_iff]
    constructor
    · rintro ⟨next, hstep, hrest⟩
      obtain ⟨hc, hle, hnext⟩ := (prefixStep_eq_some_iff hpfx).mp hstep
      rw [ih (hnext ▸ hle), hnext] at hrest
      exact ⟨⟨hc, hrest.1⟩, hrest.2⟩
    · rintro ⟨⟨hc, hdigits⟩, hle, hlast⟩
      have hfits : pfx.toNat * 10 + digitValue c ≤ 128 := hgrow.trans hle
      have hnat : (UInt32.ofNat (pfx.toNat * 10 + digitValue c)).toNat
          = pfx.toNat * 10 + digitValue c :=
        UInt32.toNat_ofNat_of_lt' (hfits.trans_lt (by decide))
      refine ⟨_, (prefixStep_eq_some_iff hpfx).mpr ⟨hc, hfits, hnat⟩, ?_⟩
      rw [ih (hnat.trans_le hfits), hnat]
      exact ⟨hdigits, hle, hlast⟩

/-- **A prefix is a decimal number** within its bound. -/
theorem exists_parsePrefix_iff {max : UInt32} {digits : List UInt8} (hmax : max.toNat ≤ 128) :
    (∃ pfx, parsePrefix max digits = some pfx) ↔ IsNumeral digits ∧ denoted digits ≤ max.toNat := by
  have hparse : parsePrefix max digits = if digits = [] then none else
      (digits.foldlM prefixStep 0).bind fun pfx => if max < pfx then none else some pfx := rfl
  rw [hparse]
  split_ifs with hnil
  · exact iff_of_false (fun ⟨_, h⟩ => nomatch h) fun h => h.1.1 hnil
  · have hfold := @foldlM_prefixStep_eq_some_iff digits 0
    have hzero : (0 : UInt32).toNat = 0 := rfl
    simp only [hzero, Nat.zero_mul, Nat.zero_add] at hfold
    constructor
    · rintro ⟨pfx, h⟩
      obtain ⟨last, hlast, hmax'⟩ := Option.bind_eq_some_iff.mp h
      obtain ⟨hdigits, -, hvalue⟩ := (hfold (by decide)).mp hlast
      split_ifs at hmax' with hover
      rw [UInt32.not_lt, UInt32.le_iff_toNat_le, hvalue] at hover
      exact ⟨⟨hnil, hdigits⟩, hover⟩
    · rintro ⟨⟨-, hdigits⟩, hle⟩
      have hnat : (UInt32.ofNat (denoted digits)).toNat = denoted digits :=
        UInt32.toNat_ofNat_of_lt' ((hle.trans hmax).trans_lt (by decide))
      refine ⟨UInt32.ofNat (denoted digits), Option.bind_eq_some_iff.mpr
        ⟨_, (hfold (by decide)).mpr ⟨hdigits, hle.trans hmax, hnat⟩, if_neg ?_⟩⟩
      rwa [UInt32.not_lt, UInt32.le_iff_toNat_le, hnat]

theorem slash_notMem_of_isNumeral {digits : List UInt8} (h : IsNumeral digits) : 0x2F ∉ digits :=
  fun hmem => absurd (h.2 _ hmem) (by decide)

/-- A list has its last occurrence. -/
theorem exists_last_of_mem {α : Type} {a : α} {l : List α} (h : a ∈ l) :
    ∃ front back, l = front ++ a :: back ∧ a ∉ back := by
  obtain ⟨front, back, hl, hfront⟩ := List.eq_append_cons_of_mem (List.mem_reverse.mpr h)
  refine ⟨back.reverse, front.reverse, ?_, by rwa [List.mem_reverse]⟩
  rw [← List.reverse_reverse l, hl]
  simp

theorem foldl_lastSlash_of_notMem : ∀ (s : List UInt8) (k : ℕ), 0x2F ∉ s →
    (s.zipIdx k).foldl (fun slash (c, k) => if c = 0x2F then some k else slash) none = none := by
  intro s
  induction s with
  | nil => exact fun _ _ => rfl
  | cons c s ih =>
    intro k hs
    rw [List.mem_cons, not_or] at hs
    rw [List.zipIdx_cons, List.foldl_cons]
    dsimp only
    rw [if_neg (Ne.symm hs.1), ih _ hs.2]

theorem lastSlash_of_notMem {s : List UInt8} (h : 0x2F ∉ s) : lastSlash s = none :=
  foldl_lastSlash_of_notMem s 0 h

/-- **A string is read as a block**: what is in front of its last slash is read as an address, and
what is behind it is a number within the bound. -/
theorem exists_parseCidr_iff {inet : InetPton} (hinet : inet.Documented) {s : List UInt8} :
    (∃ c, parseCidr inet s = some c) ↔ ∃ address digits bound, s = address ++ 0x2F :: digits ∧
      ReadsFront inet address bound ∧ IsNumeral digits ∧ denoted digits ≤ bound := by
  have hbound : ∀ ip : NetIp, (if ip.family = 4 then 32 else 128 : UInt32).toNat = ip.bound := by
    intro ip
    rw [NetIp.bound]
    split_ifs <;> rfl
  have hmax : ∀ ip : NetIp, ip.bound ≤ 128 := by
    intro ip
    rw [NetIp.bound]
    split_ifs <;> omega
  constructor
  · rintro ⟨c, h⟩
    by_cases hmem : 0x2F ∈ s
    · obtain ⟨address, digits, rfl, hlast⟩ := exists_last_of_mem hmem
      rcases hip : parseAddress inet address with _ | ip
      · rw [parseCidr, lastSlash_append _ hlast, Option.bind_eq_bind, Option.bind_some,
          List.take_left, hip] at h
        cases h
      · rw [parseCidr_append inet address hlast hip] at h
        obtain ⟨pfx, hpfx, -⟩ := Option.map_eq_some_iff.mp h
        have hprefix := (exists_parsePrefix_iff ((hbound ip).trans_le (hmax ip))).mp ⟨pfx, hpfx⟩
        rw [hbound] at hprefix
        exact ⟨address, digits, ip.bound, rfl, readsFront_of_parseAddress hinet hip, hprefix⟩
    · rw [parseCidr, lastSlash_of_notMem hmem] at h
      cases h
  · rintro ⟨address, digits, bound, rfl, hfront, hdigits, hle⟩
    obtain ⟨ip, hip, rfl⟩ := exists_parseAddress hinet hfront
    rw [parseCidr_append inet address (slash_notMem_of_isNumeral hdigits) hip]
    obtain ⟨pfx, hpfx⟩ := (exists_parsePrefix_iff ((hbound ip).trans_le (hmax ip))).mpr
      ⟨hdigits, (hbound ip).symm ▸ hle⟩
    rw [hpfx]
    exact ⟨_, rfl⟩

/-! ## The functions on texts -/

/-- `cel_isip_at_v`. -/
def celIsipAt (inet : InetPton) (out a : Slot) : SlotKernel Unit := do
  if ← absorb3vlUnaryAt out a then return
  if (← loadKind a) ≠ .string then
    poisonAt out .typeMismatch
    return
  let s ← payload CelValue.string? a
  store out (.bool (parseAddress inet s).isSome)

section Functions

variable {inet : InetPton} {s : List UInt8} {cells : Slot → CelValue} {arg : Slot}

theorem run_celIsipAt (hs : cells arg = .string s) (out : Slot) :
    (celIsipAt inet out arg).run cells
      = pure ((), Function.update cells out (.bool (parseAddress inet s).isSome)) := by
  have hcomputes : Computes (celIsipAt inet · arg) fun cells =>
      unlessAbsorbedUnary (cells arg) <|
        if (cells arg).kind ≠ .string then return .error .typeMismatch
        else (cells arg).string?.elim (Prog.stop .wildRead) pure >>= fun s =>
          return .bool (parseAddress inet s).isSome := by
    refine computes_unlessAbsorbedUnary arg <| .congr (.read (reads_loadKind arg) fun _ =>
      .ite (computes_store _) <| .read (reads_payload CelValue.string? arg)
        (K := fun s _ => pure (.bool (parseAddress inet s).isSome)) fun s => computes_store _)
      fun cells => ?_
    rw [pure_bind]
  rw [hcomputes out cells]
  simp only [hs]
  rfl

/-- **A function with a result in the arena accepts** what its parser reads. -/
theorem accepts_iff {α : Type} {bytes : ℕ} {parse : List UInt8 → Option α} {tag : α → CelValue}
    (htag : ∀ x, tag x ≠ .error .invalidArgument) (hs : cells arg = .string s) (out : Slot) :
    (∃ x, ((netKernelAt .string CelValue.string? bytes (fun s => (parse s).map tag) out arg).run
        cells).granted = .ok ((), Function.update cells out (tag x))) ↔ ∃ x, parse s = some x := by
  have hpoison : (cells arg).isPoison = false := by rw [hs]; rfl
  have hkind : (cells arg).kind = .string := by rw [hs]; rfl
  have hstring : (cells arg).string? = some s := by rw [hs]; rfl
  rw [granted_netKernelAt hpoison hkind hstring]
  rcases parse s with _ | x
  · refine iff_of_false ?_ (fun ⟨_, h⟩ => nomatch h)
    rintro ⟨x, h⟩
    have hcell := congrFun (Prod.mk.inj (Except.ok.inj h)).2 out
    rw [Function.update_self, Function.update_self] at hcell
    exact htag x hcell.symm
  · exact iff_of_true ⟨x, rfl⟩ ⟨x, rfl⟩

/-- A string with a zero is no address; a string without one is read whole. -/
theorem isAddressText_iff (hinet : inet.Documented) (h : ∃ ip, parseAddress inet s = some ip) :
    IsAddressText s ↔ 0 ∉ s := by
  obtain ⟨ip, hip⟩ := h
  constructor
  · exact IsAddressText.zero_notMem
  · intro hzero
    have hfront := (readsFront_of_parseAddress hinet hip).front.isAddressText
    rwa [cText_of_notMem hzero] at hfront

/-- **What an address is accepted of**, and all of it exactly where the string is not cut at a zero. -/
theorem address_whole_iff (hinet : inet.Documented) (s : List UInt8) :
    ((∃ ip, parseAddress inet s = some ip) → IsAddressText s) ↔
      ¬ (0 ∈ s ∧ ∃ bound, ReadsFront inet s bound) := by
  constructor
  · rintro h ⟨hzero, bound, hfront⟩
    obtain ⟨ip, hip, -⟩ := exists_parseAddress hinet hfront
    exact (h ⟨ip, hip⟩).zero_notMem hzero
  · rintro h ⟨ip, hip⟩
    refine (isAddressText_iff hinet ⟨ip, hip⟩).mpr fun hzero => ?_
    exact h ⟨hzero, ip.bound, readsFront_of_parseAddress hinet hip⟩

/-- …and a block. -/
theorem block_whole_iff (hinet : inet.Documented) (s : List UInt8) :
    ((∃ c, parseCidr inet s = some c) → IsBlockText s) ↔
      ¬ ∃ address digits bound, s = address ++ 0x2F :: digits ∧ 0 ∈ address ∧
        ReadsFront inet address bound ∧ IsNumeral digits ∧ denoted digits ≤ bound := by
  rw [exists_parseCidr_iff hinet]
  constructor
  · rintro h ⟨address, digits, bound, rfl, hzero, hfront, hdigits, hle⟩
    obtain ⟨address', digits', heq, hdigits', haddress⟩ :=
      h ⟨address, digits, bound, rfl, hfront, hdigits, hle⟩
    have htext : IsAddressText address' := haddress.imp And.left And.left
    -- neither of the two has a slash behind its last one
    have hlength := (lastSlash_append address (slash_notMem_of_isNumeral hdigits)).symm.trans
      (heq ▸ lastSlash_append address' (slash_notMem_of_isNumeral hdigits'))
    obtain ⟨rfl, -⟩ := List.append_inj heq (Option.some.inj hlength)
    exact htext.zero_notMem hzero
  · rintro h ⟨address, digits, bound, rfl, hfront, hdigits, hle⟩
    have hzero : 0 ∉ address := fun hzero =>
      h ⟨address, digits, bound, rfl, hzero, hfront, hdigits, hle⟩
    refine ⟨address, digits, rfl, hdigits, ?_⟩
    obtain ⟨front, -⟩ | ⟨front, -, -⟩ := hfront.front
    · rw [cText_of_notMem hzero] at front
      exact .inl ⟨front, hle⟩
    · rw [cText_of_notMem hzero] at front
      refine .inr ⟨front, hle.trans ?_⟩
      split_ifs <;> omega

end Functions

/-- **Addresses and blocks are read of whole strings** exactly where no address is cut out of one.
`ip`, `isIP` and `cidr` accept texts of their grammar only, of every string but those with a zero
behind an address, within the length of an address and with nothing that is refused of the whole. -/
theorem addressTexts_whole_iff {inet : InetPton} (hinet : inet.Documented) {s : List UInt8}
    {cells : Slot → CelValue} {arg : Slot} (hs : cells arg = .string s) (out : Slot) :
    (((∃ ip, ((celIpParseAt inet out arg).run cells).granted
        = .ok ((), Function.update cells out (.ip ip))) → IsAddressText s) ↔
      ¬ (0 ∈ s ∧ ∃ bound, ReadsFront inet s bound)) ∧
    (((celIsipAt inet out arg).run cells = pure ((), Function.update cells out (.bool true)) →
        IsAddressText s) ↔
      ¬ (0 ∈ s ∧ ∃ bound, ReadsFront inet s bound)) ∧
    (((∃ c, ((celCidrParseAt inet out arg).run cells).granted
        = .ok ((), Function.update cells out (.cidr c))) → IsBlockText s) ↔
      ¬ ∃ address digits bound, s = address ++ 0x2F :: digits ∧ 0 ∈ address ∧
        ReadsFront inet address bound ∧ IsNumeral digits ∧ denoted digits ≤ bound) := by
  have hisip : (celIsipAt inet out arg).run cells = pure ((), Function.update cells out (.bool true)) ↔
      ∃ ip, parseAddress inet s = some ip := by
    rw [run_celIsipAt hs, ← Option.isSome_iff_exists]
    constructor
    · intro h
      have hcell := congrFun (Prod.mk.inj (Prog.ret.inj h)).2 out
      rw [Function.update_self, Function.update_self] at hcell
      exact CelValue.bool.inj hcell
    · exact fun h => by rw [h]
  have hip := @accepts_iff s cells arg NetIp 20 (parseAddress inet) .ip (fun _ => nofun) hs out
  have hcidr := @accepts_iff s cells arg NetCidr 24 (parseCidr inet) .cidr (fun _ => nofun) hs out
  rw [celIpParseAt, celCidrParseAt, hip, hcidr, hisip]
  exact ⟨address_whole_iff hinet s, address_whole_iff hinet s, block_whole_iff hinet s⟩

/-! ## A reader as documented -/

/-- The number of a hexadecimal digit. -/
def hexValue (b : UInt8) : ℕ :=
  if b ≤ 0x39 then b.toNat - 0x30 else if b ≤ 0x46 then b.toNat - 0x37 else b.toNat - 0x57

/-- The two bytes of a group. -/
def groupBytes (g : List UInt8) : List UInt8 :=
  let value := g.foldl (fun value b => value * 16 + hexValue b) 0
  [UInt8.ofNat (value / 256), UInt8.ofNat value]

/-- The bytes of an address of groups, with zeros for a double colon. -/
def colonHexBytes (t : List UInt8) : List UInt8 :=
  match (List.range t.length).find? fun i => IsShortened t i with
  | none => (groups t).flatMap groupBytes
  | some i =>
    let front := (groups (t.take i)).flatMap groupBytes
    let back := (groups (t.drop (i + 2))).flatMap groupBytes
    front ++ List.replicate (16 - front.length - back.length) 0 ++ back

/-- `inet_pton`, by the grammar. -/
def grammarInet : InetPton where
  v4 t :=
    if IsDotted t then
      some (Vector.ofFn fun i => UInt8.ofNat (denoted ((t.splitOn 0x2E).getD i [])))
    else none
  v6 t := if IsColonHex t then some (Vector.ofFn fun i => (colonHexBytes t).getD i 0) else none

theorem documented_grammarInet : grammarInet.Documented where
  isDotted {t} h := by
    by_contra hneg
    simp [grammarInet, hneg] at h
  isSome_v4 h _ := by simp [grammarInet, h]
  isSome_v6_iff _ := by simp [grammarInet]

/-- `1.2.3.4`, a zero and `x`. -/
def cutAddress : List UInt8 := [0x31, 0x2E, 0x32, 0x2E, 0x33, 0x2E, 0x34, 0, 0x78]

theorem readsFront_cutAddress : ReadsFront grammarInet cutAddress 32 where
  length_le := by decide
  noZone := by decide
  front := .dotted (by decide) (by decide)

/-- `isIP('1.2.3.4\0x')` is true, and that is no address. -/
theorem isIp_cutAddress :
    (celIsipAt grammarInet 1 0).run (fun _ => .string cutAddress)
      = pure ((), Function.update (fun _ => .string cutAddress) 1 (.bool true)) ∧
    ¬ IsAddressText cutAddress := by
  have hzero : (0 : UInt8) ∈ cutAddress := by decide
  obtain ⟨ip, hip, -⟩ := exists_parseAddress documented_grammarInet readsFront_cutAddress
  refine ⟨?_, fun h => h.zero_notMem hzero⟩
  rw [run_celIsipAt rfl, hip]
  rfl

/-- The three functions on `1.2.3.4`. -/
theorem addressTexts_whole_iff_plain :
    ((∃ ip, ((celIpParseAt grammarInet 1 0).run
        fun _ => .string [0x31, 0x2E, 0x32, 0x2E, 0x33, 0x2E, 0x34]).granted
        = .ok ((), Function.update (fun _ => .string [0x31, 0x2E, 0x32, 0x2E, 0x33, 0x2E, 0x34]) 1
          (.ip ip))) → IsAddressText [0x31, 0x2E, 0x32, 0x2E, 0x33, 0x2E, 0x34]) ↔
      ¬ ((0 : UInt8) ∈ [0x31, 0x2E, 0x32, 0x2E, 0x33, 0x2E, 0x34] ∧
        ∃ bound, ReadsFront grammarInet [0x31, 0x2E, 0x32, 0x2E, 0x33, 0x2E, 0x34] bound) :=
  (@addressTexts_whole_iff grammarInet documented_grammarInet _
    (fun _ => .string [0x31, 0x2E, 0x32, 0x2E, 0x33, 0x2E, 0x34]) 0 rfl 1).1

end CelWasm
