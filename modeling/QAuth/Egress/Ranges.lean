import QAuth.Egress.AddressText

/-!
# Address ranges

A CIDR block holds the addresses that begin with its bits. `inRange` compares whole bytes and then
a masked one; here it is read bit by bit, and from it the kinds of addresses: which addresses are
public, and which are never dialled whatever an allowlist opens.
-/

namespace QAuth.Egress

/-! ### Bits -/

/-- A bit of an address, the first one first. -/
def bitAt (bytes : List ℕ) (i : ℕ) : Bool := (bytes.getD (i / 8) 0).testBit (7 - i % 8)

/-- An address begins with the bits of a block. -/
def AddressRange.Holds (r : AddressRange) (bytes : List ℕ) : Prop :=
  ∀ i < r.bits, bitAt bytes i = bitAt r.first i

theorem testBit_mask (rest k : ℕ) :
    ((0xff <<< (8 - rest)) &&& 0xff).testBit k = (decide (8 - rest ≤ k) && decide (k < 8)) := by
  have hff : ∀ k, (0xff : ℕ).testBit k = decide (k < 8) := fun k ↦ Nat.testBit_two_pow_sub_one 8 k
  rw [Nat.testBit_and, Nat.testBit_shiftLeft, hff, hff]
  by_cases hk : k < 8
  · simp only [hk, decide_true, Bool.and_true, ge_iff_le]
    rw [decide_eq_true (show k - (8 - rest) < 8 by omega), Bool.and_true]
  · simp [hk]

/-- Two bytes agree under a mask if and only if they agree on the bits that it keeps. -/
theorem and_mask_eq_iff {rest : ℕ} (hrest : rest < 8) (a b : ℕ) :
    a &&& ((0xff <<< (8 - rest)) &&& 0xff) = b &&& ((0xff <<< (8 - rest)) &&& 0xff) ↔
      ∀ j < rest, a.testBit (7 - j) = b.testBit (7 - j) := by
  constructor
  · intro h j hj
    have hbit : Nat.testBit _ (7 - j) = _ := congrArg (Nat.testBit · (7 - j)) h
    rw [Nat.testBit_and a, Nat.testBit_and b, testBit_mask] at hbit
    rw [decide_eq_true (show 8 - rest ≤ 7 - j by omega),
      decide_eq_true (show 7 - j < 8 by omega)] at hbit
    simpa using hbit
  · intro h
    refine Nat.eq_of_testBit_eq fun k ↦ ?_
    rw [Nat.testBit_and a, Nat.testBit_and b, testBit_mask]
    by_cases hk : 8 - rest ≤ k ∧ k < 8
    · have hbit := h (7 - k) (by omega)
      rw [show 7 - (7 - k) = k by omega] at hbit
      rw [hbit]
    · rcases not_and_or.mp hk with hk | hk <;> simp [hk]

theorem byte_eq_iff {a b : ℕ} (ha : a < 256) (hb : b < 256) :
    a = b ↔ ∀ j < 8, a.testBit (7 - j) = b.testBit (7 - j) := by
  constructor
  · rintro rfl j _
    rfl
  · intro h
    refine Nat.eq_of_testBit_eq fun k ↦ ?_
    by_cases hk : k < 8
    · have hbit := h (7 - k) (by omega)
      rwa [show 7 - (7 - k) = k by omega] at hbit
    · have hpow : 2 ^ 8 ≤ 2 ^ k := Nat.pow_le_pow_right (by decide) (by omega)
      rw [Nat.testBit_lt_two_pow (by omega), Nat.testBit_lt_two_pow (by omega)]

theorem getD_lt {bytes : List ℕ} (h : ∀ b ∈ bytes, b < 256) (i : ℕ) : bytes.getD i 0 < 256 := by
  rw [List.getD_eq_getElem?_getD]
  cases hi : bytes[i]? with
  | none => simp
  | some b => exact h b (List.mem_of_getElem? hi)

/-- The comparison of whole bytes and a masked one is a comparison of bits. -/
theorem inRange_iff {bytes first : List ℕ} {bits : ℕ} (hbytes : ∀ b ∈ bytes, b < 256)
    (hfirst : ∀ b ∈ first, b < 256) (hlong : bits / 8 ≤ bytes.length)
    (hlong' : bits / 8 ≤ first.length) :
    inRange bytes first bits = true ↔ (AddressRange.mk first bits).Holds bytes := by
  have hrest : bits % 8 < 8 := Nat.mod_lt _ (by decide)
  have hwhole : (List.range (bits / 8)).all (fun i ↦ bytes[i]? = first[i]?) = true ↔
      ∀ i < bits / 8, bytes.getD i 0 = first.getD i 0 := by
    simp only [List.all_eq_true, List.mem_range, decide_eq_true_eq, List.getD_eq_getElem?_getD]
    refine forall₂_congr fun i hi ↦ ?_
    rw [List.getElem?_eq_getElem (hi.trans_le hlong),
      List.getElem?_eq_getElem (hi.trans_le hlong'), Option.some.injEq, Option.getD_some,
      Option.getD_some]
  simp only [inRange, Bool.and_eq_true, hwhole, Bool.or_eq_true, decide_eq_true_eq,
    ← List.getD_eq_getElem?_getD, and_mask_eq_iff hrest]
  constructor
  · rintro ⟨hwhole, hpart⟩ i hi
    rcases Nat.lt_or_ge (i / 8) (bits / 8) with hlt | hge
    · rw [bitAt, bitAt, hwhole _ hlt]
    · have hsame : i / 8 = bits / 8 := by
        have hle : i / 8 ≤ bits / 8 := Nat.div_le_div_right (show i ≤ bits from hi.le)
        omega
      have hpart := hpart.resolve_left (by have hi' : i < bits := hi; omega) (i % 8)
        (by have hi' : i < bits := hi; omega)
      rw [bitAt, bitAt, hsame]
      exact hpart
  · intro h
    refine ⟨fun i hi ↦ ?_, ?_⟩
    · rw [byte_eq_iff (getD_lt hbytes i) (getD_lt hfirst i)]
      intro j hj
      have hbit := h (8 * i + j) (show 8 * i + j < bits by omega)
      rw [bitAt, bitAt, show (8 * i + j) / 8 = i by omega, show (8 * i + j) % 8 = j by omega] at hbit
      exact hbit
    · by_cases hzero : bits % 8 = 0
      · exact .inl hzero
      · refine .inr fun j hj ↦ ?_
        have hbit := h (8 * (bits / 8) + j) (show 8 * (bits / 8) + j < bits by omega)
        rw [bitAt, bitAt, show (8 * (bits / 8) + j) / 8 = bits / 8 by omega,
          show (8 * (bits / 8) + j) % 8 = j by omega] at hbit
        exact hbit

/-- A block within another one, by their bits. -/
def AddressRange.Within (r r' : AddressRange) : Prop :=
  r'.bits ≤ r.bits ∧ ∀ i < r'.bits, bitAt r.first i = bitAt r'.first i

instance (r r' : AddressRange) : Decidable (r.Within r') :=
  inferInstanceAs (Decidable (_ ∧ ∀ i < r'.bits, _))

theorem AddressRange.Holds.of_within {r r' : AddressRange} {bytes : List ℕ} (h : r.Holds bytes)
    (hwithin : r.Within r') : r'.Holds bytes := by
  intro i hi
  rw [h i (hi.trans_le hwithin.1), hwithin.2 i hi]

/-- Two blocks without a common address, by a bit in which they differ. -/
def AddressRange.Apart (r r' : AddressRange) : Prop :=
  ∃ i < min r.bits r'.bits, bitAt r.first i ≠ bitAt r'.first i

instance (r r' : AddressRange) : Decidable (r.Apart r') :=
  inferInstanceAs (Decidable (∃ i < min r.bits r'.bits, bitAt r.first i ≠ bitAt r'.first i))

theorem AddressRange.Holds.not_of_apart {r r' : AddressRange} {bytes : List ℕ} (h : r.Holds bytes)
    (hapart : r.Apart r') : ¬ r'.Holds bytes := by
  intro h'
  obtain ⟨i, hi, hne⟩ := hapart
  exact hne ((h i (hi.trans_le (min_le_left _ _))).symm.trans
    (h' i (hi.trans_le (min_le_right _ _))))

/-- A block is written in bytes, as many as it compares whole, of addresses of a length. -/
def AddressRange.Sized (length : ℕ) (r : AddressRange) : Prop :=
  (∀ b ∈ r.first, b < 256) ∧ r.bits / 8 ≤ length ∧ r.bits / 8 ≤ r.first.length

instance (length : ℕ) (r : AddressRange) : Decidable (r.Sized length) :=
  inferInstanceAs (Decidable (_ ∧ _))

def IsAddress (length : ℕ) (bytes : List ℕ) : Prop := bytes.length = length ∧ ∀ b ∈ bytes, b < 256

theorem AddressRange.Sized.inRange_iff {length : ℕ} {r : AddressRange} (hr : r.Sized length)
    {bytes : List ℕ} (h : IsAddress length bytes) :
    inRange bytes r.first r.bits = true ↔ r.Holds bytes :=
  Egress.inRange_iff h.2 hr.1 (h.1 ▸ hr.2.1) hr.2.2

/-! ### What may be dialled -/

/-- The IPv4 address that an IPv6 address carries. -/
inductive Carries (bytes : List ℕ) : List ℕ → Prop
  | mapped (h : (AddressRange.mk IPV4_MAPPED_PREFIX 96).Holds bytes) :
      Carries bytes ((bytes.drop 12).take 4)
  | nat64 (h : (AddressRange.mk NAT64_PREFIX 96).Holds bytes) :
      Carries bytes ((bytes.drop 12).take 4)
  | sixToFour (h : (AddressRange.mk SIX_TO_FOUR_PREFIX 16).Holds bytes) :
      Carries bytes ((bytes.drop 2).take 4)

/-- An IPv4 address outside of every special block. -/
def Public4 (bytes : List ℕ) : Prop := ∀ r ∈ IPV4_BLOCKED, ¬ r.1.Holds bytes

/-- `0.0.0.0/8`, `224.0.0.0/4` or a cloud metadata endpoint. -/
def Forbidden4 (bytes : List ℕ) : Prop :=
  (AddressRange.mk [0, 0, 0, 0] 8).Holds bytes ∨ (AddressRange.mk [224, 0, 0, 0] 4).Holds bytes ∨
    ∃ r ∈ METADATA_IPV4, r.Holds bytes

/-- A public unicast address. -/
inductive Public (bytes : List ℕ) : Prop
  | v4 (hlength : bytes.length = 4) (h : Public4 bytes)
  | v6 (hlength : bytes.length = 16) (hglobal : (AddressRange.mk [0x20] 3).Holds bytes)
      (hspecial : ∀ r ∈ IPV6_BLOCKED, ¬ r.1.Holds bytes) (hcarries : ∀ v4, ¬ Carries bytes v4)
  | carried {v4 : List ℕ} (hlength : bytes.length = 16) (hcarries : Carries bytes v4)
      (h : Public4 v4)

/-- An unspecified, multicast or cloud metadata address, or one that carries such an address. -/
inductive Forbidden (bytes : List ℕ) : Prop
  | v4 (hlength : bytes.length = 4) (h : Forbidden4 bytes)
  | unspecified (hlength : bytes.length = 16) (h : ∀ b ∈ bytes, b = 0)
  | multicast (hlength : bytes.length = 16) (h : (AddressRange.mk [0xff] 8).Holds bytes)
  | metadata {r : AddressRange} (hlength : bytes.length = 16) (hr : r ∈ METADATA_IPV6)
      (h : r.Holds bytes)
  | carried {v4 : List ℕ} (hlength : bytes.length = 16) (hcarries : Carries bytes v4)
      (h : Forbidden4 v4)

/-! ### The kinds of IPv4 addresses -/

theorem sized_ipv4 : ∀ r ∈ IPV4_BLOCKED, r.1.Sized 4 := by decide

theorem ipv4Kind_cases {bytes : List ℕ} (h : IsAddress 4 bytes) :
    (Public4 bytes ∧ ipv4Kind bytes = .publicUnicast) ∨
      ∃ r ∈ IPV4_BLOCKED, r.1.Holds bytes ∧ ipv4Kind bytes = r.2 := by
  rw [ipv4Kind]
  cases hfind : IPV4_BLOCKED.find? fun r ↦ inRange bytes r.1.first r.1.bits with
  | none =>
    refine .inl ⟨fun r hr hholds ↦ ?_, rfl⟩
    exact List.find?_eq_none.mp hfind r hr (((sized_ipv4 r hr).inRange_iff h).mpr hholds)
  | some r =>
    have hr := List.mem_of_find?_eq_some hfind
    have hholds : inRange bytes r.1.first r.1.bits = true :=
      (List.find?_eq_some_iff_append.mp hfind).1
    exact .inr ⟨r, hr, ((sized_ipv4 r hr).inRange_iff h).mp hholds, rfl⟩

theorem public4_of_kind {bytes : List ℕ} (h : IsAddress 4 bytes)
    (hkind : ipv4Kind bytes = .publicUnicast) : Public4 bytes := by
  have hnone : ∀ r ∈ IPV4_BLOCKED, r.2 ≠ .publicUnicast := by decide
  rcases ipv4Kind_cases h with ⟨hpublic, -⟩ | ⟨r, hr, -, heq⟩
  · exact hpublic
  · exact absurd (heq.symm.trans hkind) (hnone r hr)

theorem Public4.not_forbidden {bytes : List ℕ} (h : Public4 bytes) : ¬ Forbidden4 bytes := by
  have hmetadata : ∀ r ∈ METADATA_IPV4, ∃ r' ∈ IPV4_BLOCKED, r.Within r'.1 := by decide
  rintro (h' | h' | ⟨r, hr, h'⟩)
  · exact h (⟨[0, 0, 0, 0], 8⟩, .unspecified) (by decide) h'
  · exact h (⟨[224, 0, 0, 0], 4⟩, .multicast) (by decide) h'
  · obtain ⟨r', hr', hwithin⟩ := hmetadata r hr
    exact h r' hr' (h'.of_within hwithin)

theorem inMetadataRange_iff {length : ℕ} {ranges : List AddressRange}
    (hranges : ∀ r ∈ ranges, r.Sized length) {bytes : List ℕ} (h : IsAddress length bytes) :
    inMetadataRange bytes ranges = true ↔ ∃ r ∈ ranges, r.Holds bytes := by
  rw [inMetadataRange, List.any_eq_true]
  exact exists_congr fun r ↦ and_congr_right fun hr ↦ (hranges r hr).inRange_iff h

/-- What the kinds and the metadata ranges let through of the IPv4 addresses. -/
theorem not_forbidden4_of_kind {bytes : List ℕ} (h : IsAddress 4 bytes)
    (hunspecified : ipv4Kind bytes ≠ .unspecified) (hmulticast : ipv4Kind bytes ≠ .multicast)
    (hmetadata : inMetadataRange bytes METADATA_IPV4 = false) : ¬ Forbidden4 bytes := by
  have hzero : ∀ r ∈ IPV4_BLOCKED, r.2 = .unspecified ∨ r.1.Apart ⟨[0, 0, 0, 0], 8⟩ := by decide
  have hclass : ∀ r ∈ IPV4_BLOCKED, r.2 = .multicast ∨ r.1.Apart ⟨[224, 0, 0, 0], 4⟩ := by decide
  rcases ipv4Kind_cases h with ⟨hpublic, -⟩ | ⟨r, hr, hholds, heq⟩
  · exact hpublic.not_forbidden
  · rw [heq] at hunspecified hmulticast
    rintro (h' | h' | h')
    · exact hholds.not_of_apart ((hzero r hr).resolve_left hunspecified) h'
    · exact hholds.not_of_apart ((hclass r hr).resolve_left hmulticast) h'
    · rw [(inMetadataRange_iff (by decide) h).mpr h'] at hmetadata
      exact absurd hmetadata (by decide)

/-! ### The kinds of IPv6 addresses -/

theorem startsWith_iff {bytes first : List ℕ} (h : IsAddress 16 bytes)
    (hfirst : (AddressRange.mk first (first.length * 8)).Sized 16) :
    startsWith bytes first = true ↔ (AddressRange.mk first (first.length * 8)).Holds bytes :=
  hfirst.inRange_iff h

/-- The IPv4 address that is read is the one that is carried. -/
theorem embeddedIpv4_eq_some_iff {bytes v4 : List ℕ} (h : IsAddress 16 bytes) :
    embeddedIpv4 bytes = some v4 ↔ Carries bytes v4 := by
  have hmapped : startsWith bytes IPV4_MAPPED_PREFIX = true ↔ _ := startsWith_iff h (by decide)
  have hnat64 : startsWith bytes NAT64_PREFIX = true ↔ _ := startsWith_iff h (by decide)
  have hsix : startsWith bytes SIX_TO_FOUR_PREFIX = true ↔ _ := startsWith_iff h (by decide)
  have hlast : (startsWith bytes IPV4_MAPPED_PREFIX || startsWith bytes NAT64_PREFIX) = true ↔
      (AddressRange.mk IPV4_MAPPED_PREFIX 96).Holds bytes ∨
        (AddressRange.mk NAT64_PREFIX 96).Holds bytes := by
    rw [Bool.or_eq_true, hmapped, hnat64]
    rfl
  rw [embeddedIpv4]
  constructor
  · intro heq
    split_ifs at heq with hfirst hsecond
    · obtain rfl := Option.some.inj heq
      exact (hlast.mp hfirst).elim .mapped .nat64
    · obtain rfl := Option.some.inj heq
      exact .sixToFour (hsix.mp hsecond)
  · rintro (hholds | hholds | hholds)
    · rw [if_pos (hlast.mpr (.inl hholds))]
    · rw [if_pos (hlast.mpr (.inr hholds))]
    · rw [if_neg, if_pos (hsix.mpr hholds)]
      rw [hlast]
      exact not_or.mpr ⟨hholds.not_of_apart (by decide), hholds.not_of_apart (by decide)⟩

theorem Carries.isAddress {bytes v4 : List ℕ} (h : Carries bytes v4) (hbytes : IsAddress 16 bytes) :
    IsAddress 4 v4 := by
  have hsub : ∀ k, ∀ b ∈ (bytes.drop k).take 4, b < 256 := fun k b hb ↦
    hbytes.2 b (List.mem_of_mem_drop (List.mem_of_mem_take hb))
  cases h with
  | mapped | nat64 =>
    exact ⟨by rw [List.length_take, List.length_drop, hbytes.1]; rfl, hsub 12⟩
  | sixToFour => exact ⟨by rw [List.length_take, List.length_drop, hbytes.1]; rfl, hsub 2⟩

theorem Carries.unique {bytes v4 v4' : List ℕ} (h : IsAddress 16 bytes) (h4 : Carries bytes v4)
    (h4' : Carries bytes v4') : v4 = v4' :=
  Option.some.inj (((embeddedIpv4_eq_some_iff h).mpr h4).symm.trans
    ((embeddedIpv4_eq_some_iff h).mpr h4'))

theorem sized_ipv6 : ∀ r ∈ IPV6_BLOCKED, r.1.Sized 16 := by decide

theorem ipv6Kind_cases {bytes : List ℕ} (h : IsAddress 16 bytes) :
    ((∀ b ∈ bytes, b = 0) ∧ ipv6Kind bytes = .unspecified) ∨
      ((∀ b ∈ bytes.take 15, b = 0) ∧ bytes[15]? = some 1 ∧ ipv6Kind bytes = .loopback) ∨
      (¬ (∀ b ∈ bytes, b = 0) ∧
        ((∃ v4, Carries bytes v4 ∧ ipv6Kind bytes = ipv4Kind v4) ∨
          (∀ v4, ¬ Carries bytes v4) ∧
            ((∃ r ∈ IPV6_BLOCKED, r.1.Holds bytes ∧ ipv6Kind bytes = r.2) ∨
              (∀ r ∈ IPV6_BLOCKED, ¬ r.1.Holds bytes) ∧
                ((AddressRange.mk [0x20] 3).Holds bytes ∧ ipv6Kind bytes = .publicUnicast ∨
                  ipv6Kind bytes = .reserved)))) := by
  rw [ipv6Kind]
  by_cases hzero : (bytes.all (· = 0)) = true
  · rw [if_pos hzero]
    exact .inl ⟨by simpa using hzero, rfl⟩
  rw [if_neg hzero]
  by_cases hone : ((bytes.take 15).all (· = 0) && decide (bytes[15]? = some 1)) = true
  · rw [if_pos hone]
    rw [Bool.and_eq_true, decide_eq_true_eq] at hone
    exact .inr (.inl ⟨by simpa using hone.1, hone.2, rfl⟩)
  rw [if_neg hone]
  refine .inr (.inr ⟨by simpa using hzero, ?_⟩)
  cases hcarried : embeddedIpv4 bytes with
  | some v4 => exact .inl ⟨v4, (embeddedIpv4_eq_some_iff h).mp hcarried, rfl⟩
  | none =>
    refine .inr ⟨fun v4 hv4 ↦ ?_, ?_⟩
    · rw [(embeddedIpv4_eq_some_iff h).mpr hv4] at hcarried
      exact absurd hcarried (Option.some_ne_none _)
    · dsimp only
      cases hfind : IPV6_BLOCKED.find? fun r ↦ inRange bytes r.1.first r.1.bits with
      | some r =>
        have hr := List.mem_of_find?_eq_some hfind
        have hholds : inRange bytes r.1.first r.1.bits = true :=
          (List.find?_eq_some_iff_append.mp hfind).1
        exact .inl ⟨r, hr, ((sized_ipv6 r hr).inRange_iff h).mp hholds, rfl⟩
      | none =>
        refine .inr ⟨fun r hr hholds ↦ ?_, ?_⟩
        · exact List.find?_eq_none.mp hfind r hr (((sized_ipv6 r hr).inRange_iff h).mpr hholds)
        · have hsized : (AddressRange.mk [0x20] 3).Sized 16 := by decide
          dsimp only
          by_cases hglobal : inRange bytes [0x20] 3 = true
          · rw [if_pos hglobal]
            exact .inl ⟨(hsized.inRange_iff h).mp hglobal, rfl⟩
          · rw [if_neg hglobal]
            exact .inr rfl

theorem public_of_ipv6Kind {bytes : List ℕ} (h : IsAddress 16 bytes)
    (hkind : ipv6Kind bytes = .publicUnicast) : Public bytes := by
  have hnone : ∀ r ∈ IPV6_BLOCKED, r.2 ≠ .publicUnicast := by decide
  rcases ipv6Kind_cases h with ⟨-, heq⟩ | ⟨-, -, heq⟩ | ⟨-, hcases⟩
  · exact absurd (heq.symm.trans hkind) (by decide)
  · exact absurd (heq.symm.trans hkind) (by decide)
  rcases hcases with ⟨v4, hv4, heq⟩ | ⟨hcarries, hcases⟩
  · exact .carried h.1 hv4 (public4_of_kind (hv4.isAddress h) (heq.symm.trans hkind))
  rcases hcases with ⟨r, hr, -, heq⟩ | ⟨hspecial, ⟨hglobal, -⟩ | heq⟩
  · exact absurd (heq.symm.trans hkind) (hnone r hr)
  · exact .v6 h.1 hglobal hspecial hcarries
  · exact absurd (heq.symm.trans hkind) (by decide)

/-- An address that begins with zeros is in the block that does. -/
theorem holds_zeros {bytes : List ℕ} {k : ℕ} (h : ∀ b ∈ bytes.take k, b = 0) :
    (AddressRange.mk [] (8 * k)).Holds bytes := by
  intro i hi
  have hbyte : bytes.getD (i / 8) 0 = 0 := by
    rw [List.getD_eq_getElem?_getD]
    cases hb : bytes[i / 8]? with
    | none => rfl
    | some b =>
      have hlt : i / 8 < k := by
        have hi' : i < 8 * k := hi
        omega
      refine h b (List.mem_of_getElem? (i := i / 8) ?_)
      rw [List.getElem?_take_of_lt hlt, hb]
  rw [bitAt, hbyte, Nat.zero_testBit, bitAt]
  simp

/-- The blocks of addresses that carry an IPv4 address. -/
def CARRYING : List AddressRange :=
  [⟨IPV4_MAPPED_PREFIX, 96⟩, ⟨NAT64_PREFIX, 96⟩, ⟨SIX_TO_FOUR_PREFIX, 16⟩]

theorem Carries.not_holds {bytes v4 : List ℕ} (h : Carries bytes v4) {r : AddressRange}
    (hr : ∀ r' ∈ CARRYING, r.Apart r') : ¬ r.Holds bytes := by
  intro hholds
  cases h with
  | mapped h => exact hholds.not_of_apart (hr _ (by decide)) h
  | nat64 h => exact hholds.not_of_apart (hr _ (by decide)) h
  | sixToFour h => exact hholds.not_of_apart (hr _ (by decide)) h

/-- The blocks of IPv6 addresses that are forbidden for what they are themselves. -/
def FORBIDDEN_IPV6 : List AddressRange := ⟨[], 128⟩ :: ⟨[0xff], 8⟩ :: METADATA_IPV6

/-- An address that is forbidden for what it is itself carries no other. -/
theorem apart_carrying : ∀ r ∈ FORBIDDEN_IPV6, ∀ r' ∈ CARRYING, r.Apart r' := by decide +kernel

theorem Forbidden.cases_ipv6 {bytes : List ℕ} (hlength : bytes.length = 16) (h : Forbidden bytes) :
    (∃ r ∈ FORBIDDEN_IPV6, r.Holds bytes) ∨ ∃ v4, Carries bytes v4 ∧ Forbidden4 v4 := by
  cases h with
  | v4 hlength' => omega
  | unspecified _ hzero =>
    have hzeros : (AddressRange.mk [] (8 * 16)).Holds bytes :=
      holds_zeros fun b hb ↦ hzero b (List.mem_of_mem_take hb)
    exact .inl ⟨⟨[], 128⟩, by decide, hzeros⟩
  | multicast _ hholds => exact .inl ⟨⟨[0xff], 8⟩, by decide, hholds⟩
  | @metadata r _ hr hholds =>
    exact .inl ⟨r, List.mem_cons_of_mem _ (List.mem_cons_of_mem _ hr), hholds⟩
  | @carried v4 _ hcarries h => exact .inr ⟨v4, hcarries, h⟩

theorem Public.not_forbidden {bytes : List ℕ} (h : Public bytes) (hbytes : ∀ b ∈ bytes, b < 256) :
    ¬ Forbidden bytes := by
  intro hforbidden
  cases h with
  | v4 hlength h =>
    cases hforbidden with
    | v4 _ h' => exact h.not_forbidden h'
    | _ hlength' => omega
  | v6 hlength hglobal hspecial hcarries =>
    have hapart : ∀ r ∈ FORBIDDEN_IPV6, r.Apart ⟨[0x20], 3⟩ := by decide
    rcases hforbidden.cases_ipv6 hlength with ⟨r, hr, hholds⟩ | ⟨v4, hcarries', -⟩
    · exact hholds.not_of_apart (hapart r hr) hglobal
    · exact hcarries v4 hcarries'
  | carried hlength hcarries h =>
    rcases hforbidden.cases_ipv6 hlength with ⟨r, hr, hholds⟩ | ⟨v4', hcarries', h'⟩
    · exact hcarries.not_holds (apart_carrying r hr) hholds
    · obtain rfl := hcarries.unique ⟨hlength, hbytes⟩ hcarries'
      exact h.not_forbidden h'

theorem Carries.ipv6Kind_eq {bytes v4 : List ℕ} (h : Carries bytes v4)
    (hbytes : IsAddress 16 bytes) : ipv6Kind bytes = ipv4Kind v4 := by
  have hloopback : ∀ r' ∈ CARRYING, (AddressRange.mk [] (8 * 15)).Apart r' := by decide +kernel
  rcases ipv6Kind_cases hbytes with ⟨hzero, -⟩ | ⟨hzero, -, -⟩ | ⟨-, hcases⟩
  · exact absurd (holds_zeros fun b hb ↦ hzero b (List.mem_of_mem_take hb)) (h.not_holds hloopback)
  · exact absurd (holds_zeros hzero) (h.not_holds hloopback)
  rcases hcases with ⟨v4', h', heq⟩ | ⟨hnone, -⟩
  · rw [heq, h.unique hbytes h']
  · exact absurd h (hnone v4)

theorem ipv6Kind_of_multicast {bytes : List ℕ} (h : IsAddress 16 bytes)
    (hholds : (AddressRange.mk [0xff] 8).Holds bytes) : ipv6Kind bytes = .multicast := by
  have hclass : ∀ r ∈ IPV6_BLOCKED, r.2 = .multicast ∨ r.1.Apart ⟨[0xff], 8⟩ := by decide
  have hzeros : (AddressRange.mk [] (8 * 15)).Apart ⟨[0xff], 8⟩ := by decide
  rcases ipv6Kind_cases h with ⟨hzero, -⟩ | ⟨hzero, -, -⟩ | ⟨-, hcases⟩
  · exact absurd hholds ((holds_zeros fun b hb ↦ hzero b (List.mem_of_mem_take hb)).not_of_apart
      hzeros)
  · exact absurd hholds ((holds_zeros hzero).not_of_apart hzeros)
  rcases hcases with ⟨v4, hv4, -⟩ | ⟨-, ⟨r, hr, hholds', heq⟩ | ⟨hspecial, -⟩⟩
  · exact absurd hholds (hv4.not_holds (apart_carrying _ (by decide)))
  · rw [heq]
    exact (hclass r hr).resolve_right fun hapart ↦ hholds'.not_of_apart hapart hholds
  · exact absurd hholds (hspecial (⟨[0xff], 8⟩, .multicast) (by decide))

theorem ipv6Kind_of_zeros {bytes : List ℕ} (h : IsAddress 16 bytes)
    (hholds : (AddressRange.mk [] 128).Holds bytes) : ipv6Kind bytes = .unspecified := by
  have hzero : (bytes.all (· = 0)) = true := by
    rw [List.all_eq_true]
    intro b hb
    obtain ⟨k, hk, rfl⟩ := List.mem_iff_getElem.mp hb
    rw [decide_eq_true_eq, byte_eq_iff (h.2 _ hb) (by decide)]
    intro j hj
    have hbit := hholds (8 * k + j) (show 8 * k + j < 128 by rw [h.1] at hk; omega)
    rw [bitAt, bitAt, show (8 * k + j) / 8 = k by omega, show (8 * k + j) % 8 = j by omega,
      List.getD_eq_getElem?_getD, List.getElem?_eq_getElem hk, Option.getD_some] at hbit
    exact hbit
  rw [ipv6Kind, if_pos hzero]

/-- What the kinds and the metadata ranges let through of the IPv6 addresses. -/
theorem not_forbidden_of_ipv6Kind {bytes : List ℕ} (h : IsAddress 16 bytes)
    (hunspecified : ipv6Kind bytes ≠ .unspecified) (hmulticast : ipv6Kind bytes ≠ .multicast)
    (hmetadata : inMetadataRange bytes METADATA_IPV6 = false)
    (hembedded : ∀ v4, embeddedIpv4 bytes = some v4 → inMetadataRange v4 METADATA_IPV4 = false) :
    ¬ Forbidden bytes := by
  intro hforbidden
  rcases hforbidden.cases_ipv6 h.1 with ⟨r, hr, hholds⟩ | ⟨v4, hcarries, h4⟩
  · rcases List.mem_cons.mp hr with rfl | hr
    · exact hunspecified (ipv6Kind_of_zeros h hholds)
    rcases List.mem_cons.mp hr with rfl | hr
    · exact hmulticast (ipv6Kind_of_multicast h hholds)
    · rw [(inMetadataRange_iff (by decide) h).mpr ⟨r, hr, hholds⟩] at hmetadata
      exact absurd hmetadata (by decide)
  · rw [hcarries.ipv6Kind_eq h] at hunspecified hmulticast
    exact not_forbidden4_of_kind (hcarries.isAddress h) hunspecified hmulticast
      (hembedded v4 ((embeddedIpv4_eq_some_iff h).mpr hcarries)) h4

/-! ### Texts -/

theorem DottedQuad.isAddress {text : JsString} {bytes : List ℕ} (h : DottedQuad text bytes) :
    IsAddress 4 bytes :=
  ⟨h.facts.1, h.facts.2.1⟩

theorem isAddress_bytesOf {hextets : List ℕ} (hlength : hextets.length = 8)
    (hlt : ∀ n ∈ hextets, n < 65536) : IsAddress 16 (bytesOf hextets) := by
  refine ⟨?_, fun b hb ↦ ?_⟩
  · rw [bytesOf, List.length_flatMap]
    simp only [List.length_cons, List.length_nil, List.map_const', List.sum_replicate, hlength]
    rfl
  · obtain ⟨n, hn, hb⟩ := List.mem_flatMap.mp hb
    have hn := hlt n hn
    simp only [List.mem_cons, List.not_mem_nil, or_false] at hb
    omega

theorem isAddress_of_parseIpv6 {text : JsString} {bytes : List ℕ}
    (h : parseIpv6 text = some bytes) : IsAddress 16 bytes := by
  obtain ⟨hextets, htext, rfl⟩ := parseIpv6_eq_some_iff.mp h
  exact isAddress_bytesOf htext.facts.1 htext.facts.2.1

theorem public_of_kind {text : JsString} (h : addressKind text = .publicUnicast) :
    ∃ bytes, Denotes text bytes ∧ Public bytes ∧ ¬ Forbidden bytes := by
  rw [addressKind] at h
  cases h4 : parseIpv4 text with
  | some bytes =>
    rw [h4] at h
    have haddress := (parseIpv4_eq_some_iff.mp h4).isAddress
    have hpublic : Public bytes := .v4 haddress.1 (public4_of_kind haddress h)
    exact ⟨bytes, denotes_iff.mpr (.inl h4), hpublic, hpublic.not_forbidden haddress.2⟩
  | none =>
    cases h6 : parseIpv6 text with
    | some bytes =>
      rw [h4, h6] at h
      have haddress := isAddress_of_parseIpv6 h6
      have hpublic := public_of_ipv6Kind haddress h
      exact ⟨bytes, denotes_iff.mpr (.inr h6), hpublic, hpublic.not_forbidden haddress.2⟩
    | none =>
      rw [h4, h6] at h
      exact absurd h (by decide)

/-- A text that the kinds and the metadata ranges let through stands for an address that is not
forbidden. -/
theorem not_forbidden_of_kind {text : JsString} (hunspecified : addressKind text ≠ .unspecified)
    (hmulticast : addressKind text ≠ .multicast) (hinvalid : addressKind text ≠ .invalid)
    (hmetadata : isCloudMetadataAddress text = false) :
    ∃ bytes, Denotes text bytes ∧ ¬ Forbidden bytes := by
  rw [addressKind] at hunspecified hmulticast hinvalid
  rw [isCloudMetadataAddress] at hmetadata
  cases h4 : parseIpv4 text with
  | some bytes =>
    rw [h4] at hunspecified hmulticast hmetadata
    have haddress := (parseIpv4_eq_some_iff.mp h4).isAddress
    refine ⟨bytes, denotes_iff.mpr (.inl h4), fun hforbidden ↦ ?_⟩
    cases hforbidden with
    | v4 _ h => exact not_forbidden4_of_kind haddress hunspecified hmulticast hmetadata h
    | _ hlength =>
      rw [haddress.1] at hlength
      omega
  | none =>
    cases h6 : parseIpv6 text with
    | some bytes =>
      simp only [h4, h6, Bool.or_eq_false_iff] at hunspecified hmulticast hmetadata
      have haddress := isAddress_of_parseIpv6 h6
      refine ⟨bytes, denotes_iff.mpr (.inr h6), not_forbidden_of_ipv6Kind haddress hunspecified
        hmulticast hmetadata.1 fun v4 hv4 ↦ ?_⟩
      have hany := hmetadata.2
      rw [hv4] at hany
      exact hany
    | none =>
      simp only [h4, h6] at hinvalid
      exact absurd rfl hinvalid

end QAuth.Egress
