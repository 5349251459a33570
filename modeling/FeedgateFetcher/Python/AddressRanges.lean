import FeedgateFetcher.Python.Ipaddress

/-!
# Ranges of addresses

The predicates of `ipaddress` are memberships in networks, which are comparisons of
leading bits.  A range given by its first and its last address says the same in
terms of the order of the addresses.
-/

namespace FeedgateFetcher.Python

namespace IPAddress

/-! ## Scoped addresses -/

theorem parseOctet_digits {s : Text} {n : Nat} (h : parseOctet s = some n) :
    s.all isAsciiDigit := by
  unfold parseOctet at h
  split at h
  case isTrue => cases h
  case isFalse hcond =>
    simp only [Bool.or_eq_true, not_or] at hcond
    simpa using hcond.1.2

/-- The characters of an IPv4 address. -/
theorem parseV4_chars {s : Text} {ip : BitVec 32} (h : parseV4 s = some ip) :
    ∀ c ∈ s, c = '.' ∨ isAsciiDigit c := by
  intro c hc
  refine (Text.mem_split hc).imp_right fun ⟨w, hw, hcw⟩ ↦ ?_
  unfold parseV4 at h
  split at h
  case h_1 p q r t hsplit =>
    rw [hsplit] at hw
    obtain ⟨a, ha, h⟩ := Option.bind_eq_some_iff.mp h
    obtain ⟨b, hb, h⟩ := Option.bind_eq_some_iff.mp h
    obtain ⟨e, he, h⟩ := Option.bind_eq_some_iff.mp h
    obtain ⟨f, hf, -⟩ := Option.bind_eq_some_iff.mp h
    simp only [List.mem_cons, List.not_mem_nil, or_false] at hw
    rcases hw with rfl | rfl | rfl | rfl
    · exact List.all_eq_true.mp (parseOctet_digits ha) c hcw
    · exact List.all_eq_true.mp (parseOctet_digits hb) c hcw
    · exact List.all_eq_true.mp (parseOctet_digits he) c hcw
    · exact List.all_eq_true.mp (parseOctet_digits hf) c hcw
  case h_2 => cases h

theorem parseV4_eq_none {s : Text} {c : Char} (hc : c ∈ s) (hdot : c ≠ '.')
    (hdigit : isAsciiDigit c = false) : parseV4 s = none := by
  cases h : parseV4 s with
  | none => rfl
  | some ip =>
      rcases parseV4_chars h c hc with hc | hc
      · exact absurd hc hdot
      · rw [hdigit] at hc
        cases hc

/-- An IPv6 address has a colon. -/
theorem colon_mem_of_parseV6Int {s : Text} {n : Nat} (h : parseV6Int s = some n) : ':' ∈ s := by
  by_contra hcolon
  unfold parseV6Int at h
  rw [Text.split_of_notMem hcolon] at h
  cases h

/-- The address of a scoped one is the address before its zone. -/
theorem parse_partition {addr : Text} {ip : IPAddress} (h : parse addr = some ip) :
    parse (Text.partition '%' addr).1 = some ip := by
  unfold parse at h
  cases h4 : parseV4 addr with
  | some m =>
      have hzone : '%' ∉ addr := fun hmem ↦ by
        rcases parseV4_chars h4 '%' hmem with h | h
        · cases h
        · cases h
      rw [Text.partition_of_notMem hzone, parse, h4]
      rw [h4] at h
      exact h
  | none =>
      rw [h4] at h
      obtain ⟨m, hm, rfl⟩ := Option.map_eq_some_iff.mp h
      unfold parseV6 at hm
      split at hm
      case isTrue => cases hm
      case isFalse hslash =>
        dsimp only at hm
        split at hm
        case isTrue => cases hm
        case isFalse =>
          obtain ⟨n, hn, rfl⟩ := Option.map_eq_some_iff.mp hm
          have hcolon := colon_mem_of_parseV6Int hn
          have h6 : parseV6 (Text.partition '%' addr).1 = some (BitVec.ofNat 128 n) := by
            have hnoslash : '/' ∉ (Text.partition '%' addr).1 := fun hmem ↦
              hslash (List.contains_iff_mem.mpr ((Text.partition_fst_prefix '%' addr).subset hmem))
            have hagain := Text.partition_of_notMem (Text.notMem_partition_fst '%' addr)
            simp [parseV6, hnoslash, hagain, hn]
          rw [parse, parseV4_eq_none hcolon (by decide) (by decide), h6]
          rfl

/-! ## Networks -/

/-- The addresses from the first to the last. -/
structure AddressRange (w : Nat) where
  first : BitVec w
  last : BitVec w
deriving DecidableEq

section

variable {w len : Nat} {ip base : BitVec w} {nets : List (BitVec w × Nat)}

def AddressRange.Contains (r : AddressRange w) (ip : BitVec w) : Prop :=
  r.first.toNat ≤ ip.toNat ∧ ip.toNat ≤ r.last.toNat

instance (r : AddressRange w) (ip : BitVec w) : Decidable (r.Contains ip) :=
  inferInstanceAs (Decidable (_ ∧ _))

theorem inNetwork_iff :
    inNetwork ip base len ↔ ip.toNat / 2 ^ (w - len) = base.toNat / 2 ^ (w - len) := by
  rw [inNetwork, beq_iff_eq, ← BitVec.toNat_inj, BitVec.toNat_ushiftRight,
    BitVec.toNat_ushiftRight, Nat.shiftRight_eq_div_pow, Nat.shiftRight_eq_div_pow]

/-- A network is the range from its base to its broadcast address. -/
theorem inNetwork_iff_range (h : base.toNat % 2 ^ (w - len) = 0) :
    inNetwork ip base len ↔
      base.toNat ≤ ip.toNat ∧ ip.toNat ≤ base.toNat + (2 ^ (w - len) - 1) := by
  have hpos : 0 < 2 ^ (w - len) := Nat.two_pow_pos _
  rw [inNetwork_iff]
  generalize 2 ^ (w - len) = size at *
  obtain ⟨k, hk⟩ := Nat.dvd_of_mod_eq_zero h
  rw [hk, Nat.mul_div_cancel_left k hpos, Nat.div_eq_iff hpos, mul_comm size k]
  omega

/-- The range lies in the network. -/
def AddressRange.Within (r : AddressRange w) (n : BitVec w × Nat) : Prop :=
  n.1.toNat % 2 ^ (w - n.2) = 0 ∧ n.1.toNat ≤ r.first.toNat ∧
    r.last.toNat ≤ n.1.toNat + (2 ^ (w - n.2) - 1)

instance (r : AddressRange w) (n : BitVec w × Nat) : Decidable (r.Within n) :=
  inferInstanceAs (Decidable (_ ∧ _ ∧ _))

theorem AddressRange.Within.inNetwork {r : AddressRange w} {n : BitVec w × Nat}
    (h : r.Within n) (hip : r.Contains ip) : inNetwork ip n.1 n.2 := by
  obtain ⟨halign, hfirst, hlast⟩ := h
  rw [inNetwork_iff_range halign]
  exact ⟨hfirst.trans hip.1, hip.2.trans hlast⟩

/-- The range and the network have no address in common. -/
def AddressRange.Apart (r : AddressRange w) (n : BitVec w × Nat) : Prop :=
  n.1.toNat % 2 ^ (w - n.2) = 0 ∧
    (n.1.toNat + (2 ^ (w - n.2) - 1) < r.first.toNat ∨ r.last.toNat < n.1.toNat)

instance (r : AddressRange w) (n : BitVec w × Nat) : Decidable (r.Apart n) :=
  inferInstanceAs (Decidable (_ ∧ _))

theorem AddressRange.Apart.inNetwork_eq_false {r : AddressRange w} {n : BitVec w × Nat}
    (h : r.Apart n) (hip : r.Contains ip) : inNetwork ip n.1 n.2 = false := by
  rw [Bool.eq_false_iff, ne_eq, inNetwork_iff_range h.1]
  have hapart := h.2
  obtain ⟨hfirst, hlast⟩ := hip
  omega

theorem inAny_iff : inAny ip nets ↔ ∃ n ∈ nets, inNetwork ip n.1 n.2 := by
  rw [inAny, List.any_eq_true]

theorem AddressRange.inAny_of_within {r : AddressRange w} (h : ∃ n ∈ nets, r.Within n)
    (hip : r.Contains ip) : inAny ip nets := by
  obtain ⟨n, hn, hwithin⟩ := h
  exact inAny_iff.mpr ⟨n, hn, hwithin.inNetwork hip⟩

theorem AddressRange.inAny_eq_false {r : AddressRange w} (h : ∀ n ∈ nets, r.Apart n)
    (hip : r.Contains ip) : inAny ip nets = false := by
  rw [inAny, List.any_eq_false]
  intro n hn
  rw [(h n hn).inNetwork_eq_false hip]
  exact Bool.false_ne_true

end

/-! ## Mapped addresses -/

/-- The IPv4-mapped form of an address. -/
def mappedV4 (m : BitVec 32) : BitVec 128 := BitVec.ofNat 128 (0xFFFF * 2 ^ 32 + m.toNat)

theorem toNat_mappedV4 (m : BitVec 32) : (mappedV4 m).toNat = 0xFFFF * 2 ^ 32 + m.toNat := by
  have hm := m.isLt
  rw [mappedV4, BitVec.toNat_ofNat]
  omega

theorem ipv4Mapped_mappedV4 (m : BitVec 32) : ipv4Mapped (mappedV4 m) = some m := by
  have hm := m.isLt
  have hleading : mappedV4 m >>> 32 = BitVec.ofNat 128 0xFFFF := by
    refine BitVec.eq_of_toNat_eq ?_
    rw [BitVec.toNat_ushiftRight, Nat.shiftRight_eq_div_pow, toNat_mappedV4]
    show (0xFFFF * 2 ^ 32 + m.toNat) / 2 ^ 32 = 0xFFFF
    omega
  have hrest : (mappedV4 m).setWidth 32 = m := by
    refine BitVec.eq_of_toNat_eq ?_
    rw [BitVec.toNat_setWidth, toNat_mappedV4]
    omega
  rw [ipv4Mapped, if_pos hleading, hrest]

/-- The mapped addresses are those whose leading 96 bits say so. -/
theorem ipv4Mapped_eq_some_iff {ip : BitVec 128} {m : BitVec 32} :
    ipv4Mapped ip = some m ↔ ip = mappedV4 m := by
  constructor
  · intro h
    rw [ipv4Mapped, Option.ite_none_right_eq_some] at h
    obtain ⟨hleading, hrest⟩ := h
    have hnat := congrArg BitVec.toNat hleading
    rw [BitVec.toNat_ushiftRight, Nat.shiftRight_eq_div_pow] at hnat
    have hhigh : ip.toNat / 2 ^ 32 = 0xFFFF := hnat
    obtain rfl : ip.setWidth 32 = m := Option.some.inj hrest
    refine BitVec.eq_of_toNat_eq ?_
    rw [toNat_mappedV4, BitVec.toNat_setWidth]
    omega
  · rintro rfl
    exact ipv4Mapped_mappedV4 m

/-! ## Addresses that are not globally reachable -/

/-- The shared address space of carrier-grade NAT. -/
def sharedV4 : AddressRange 32 := ⟨quad 100 64 0 0, quad 100 127 255 255⟩

/-- The anycast address of the 6a44 relays, each of which is in the network of a provider. -/
def relayV4 : AddressRange 32 := ⟨quad 192 88 99 2, quad 192 88 99 2⟩

/-- The ranges of IPv4: this network, the private networks, the shared address space, the relays,
loopback, link-local, the protocol assignments but for the two that are anycast, the networks of
documentation and of benchmarks, multicast and the reserved block. -/
def notGlobalV4 : List (AddressRange 32) :=
  [⟨quad 0 0 0 0, quad 0 255 255 255⟩, ⟨quad 10 0 0 0, quad 10 255 255 255⟩,
    ⟨quad 172 16 0 0, quad 172 31 255 255⟩, ⟨quad 192 168 0 0, quad 192 168 255 255⟩, sharedV4,
    relayV4,
    ⟨quad 127 0 0 0, quad 127 255 255 255⟩, ⟨quad 169 254 0 0, quad 169 254 255 255⟩,
    ⟨quad 192 0 0 0, quad 192 0 0 8⟩, ⟨quad 192 0 0 11, quad 192 0 0 255⟩,
    ⟨quad 192 0 2 0, quad 192 0 2 255⟩, ⟨quad 198 18 0 0, quad 198 19 255 255⟩,
    ⟨quad 198 51 100 0, quad 198 51 100 255⟩, ⟨quad 203 0 113 0, quad 203 0 113 255⟩,
    ⟨quad 224 0 0 0, quad 239 255 255 255⟩, ⟨quad 240 0 0 0, quad 255 255 255 255⟩]

/-- The IPv6 address whose leading hextets are given and whose other bits are ones. -/
def hextetsLast (hs : List Nat) : BitVec 128 :=
  BitVec.ofNat 128 (joinHextets (hs ++ List.replicate (8 - hs.length) 0xFFFF))

/-- The site-local addresses, which have been given up for the unique local ones. -/
def siteLocalV6 : AddressRange 128 := ⟨hextets [0xFEC0], hextetsLast [0xFEFF]⟩

/-- The ranges of IPv6: the unspecified address, loopback, the unique local addresses, link-local,
site-local, multicast, the networks of local translation, of benchmarks and of documentation, and
the blocks outside the global unicast space that are reserved. -/
def notGlobalV6 : List (AddressRange 128) :=
  [⟨hextets [], hextets []⟩, ⟨hextets [0, 0, 0, 0, 0, 0, 0, 1], hextets [0, 0, 0, 0, 0, 0, 0, 1]⟩,
    ⟨hextets [0xFC00], hextetsLast [0xFDFF]⟩, ⟨hextets [0xFE80], hextetsLast [0xFEBF]⟩,
    siteLocalV6, ⟨hextets [0xFF00], hextetsLast [0xFFFF]⟩,
    ⟨hextets [0x64, 0xFF9B, 1], hextetsLast [0x64, 0xFF9B, 1]⟩,
    ⟨hextets [0x2001, 2, 0], hextetsLast [0x2001, 2, 0]⟩,
    ⟨hextets [0x2001, 0xDB8], hextetsLast [0x2001, 0xDB8]⟩,
    ⟨hextets [0x3FFF], hextetsLast [0x3FFF, 0xFFF]⟩, ⟨hextets [], hextetsLast [0x1FFF]⟩,
    ⟨hextets [0x4000], hextetsLast [0xFBFF]⟩, ⟨hextets [0xFE00], hextetsLast [0xFE7F]⟩]

/-- The address lies in one of the ranges.  The mapped form of an IPv4 address leads to this
address, and is no more reachable than it is. -/
def NotGlobal : IPAddress → Prop
  | .v4 ip => ∃ r ∈ notGlobalV4, r.Contains ip
  | .v6 ip => (∃ m, ip = mappedV4 m ∧ ∃ r ∈ notGlobalV4, r.Contains m) ∨
    (∀ m, ip ≠ mappedV4 m) ∧ ∃ r ∈ notGlobalV6, r.Contains ip

/-- The ranges of IPv4 that are not global and yet have none of the predicates. -/
def overlookedV4 : List (AddressRange 32) := [sharedV4, relayV4]

/-- The address is shared or that of the relays, in one form or the other, or it is site-local. -/
def IsOverlooked : IPAddress → Prop
  | .v4 ip => ∃ r ∈ overlookedV4, r.Contains ip
  | .v6 ip => (∃ m, ip = mappedV4 m ∧ ∃ r ∈ overlookedV4, r.Contains m) ∨ siteLocalV6.Contains ip

end IPAddress

end FeedgateFetcher.Python
