import FeedgateFetcher.Python.AddressRanges
import FeedgateFetcher.Ssrf

/-!
# Targets that are not public

`validate_public_url` against the ranges of addresses that are not globally
reachable.  The predicates of `ipaddress` that it asks for cover all of them but three:
the shared address space of carrier-grade NAT, which is neither private nor reserved for
that module, the anycast address of the 6a44 relays, which it does not know, and the
site-local addresses, which have a predicate of their own.
-/

namespace FeedgateFetcher

open Python IPAddress

/-! ## The blocked addresses -/

namespace Ssrf

section

variable {ip : BitVec 32} {r : AddressRange 32}

/-- A range that is private, away from the exceptions. -/
def IsPrivateV4 (r : AddressRange 32) : Prop :=
  (∃ n ∈ privateV4, r.Within n) ∧ ∀ n ∈ privateExceptionsV4, r.Apart n

instance (r : AddressRange 32) : Decidable (IsPrivateV4 r) := inferInstanceAs (Decidable (_ ∧ _))

theorem isPrivateV4_of_contains (hr : IsPrivateV4 r) (h : r.Contains ip) : isPrivateV4 ip := by
  rw [isPrivateV4, AddressRange.inAny_eq_false hr.2 h, AddressRange.inAny_of_within hr.1 h]
  rfl

/-- Of the ranges of IPv4, only the shared address space and the relays are let through. -/
theorem isBlockedIp_v4 (hr : r ∈ notGlobalV4) (h : r.Contains ip) :
    isBlockedIp (.v4 ip) ∨ ∃ r ∈ overlookedV4, r.Contains ip := by
  have hkinds : ∀ r ∈ notGlobalV4,
      IsPrivateV4 r ∨ r.Within (quad 224 0 0 0, 4) ∨ r ∈ overlookedV4 := by
    decide +kernel
  rcases hkinds r hr with hprivate | hmulticast | hoverlooked
  · exact .inl (by simp [isBlockedIp, isPrivate, classify, isPrivateV4_of_contains hprivate h])
  · exact .inl (by simp [isBlockedIp, isMulticast, classify, hmulticast.inNetwork h])
  · exact .inr ⟨r, hoverlooked, h⟩

/-- No predicate holds of an address of these ranges. -/
theorem not_isBlockedIp_of_overlookedV4 (hr : r ∈ overlookedV4) (h : r.Contains ip) :
    isBlockedIp (.v4 ip) = false := by
  have hapart : ∀ r ∈ overlookedV4, ∀ n ∈ privateV4, r.Apart n := by decide
  have hprivate : isPrivateV4 ip = false := by
    rw [isPrivateV4, AddressRange.inAny_eq_false (hapart r hr) h, Bool.false_and]
  have hnet : ∀ n, (∀ r ∈ overlookedV4, r.Apart n) → inNetwork ip n.1 n.2 = false := fun n hn ↦
    (hn r hr).inNetwork_eq_false h
  have hloopback : isLoopback (.v4 ip) = false := hnet (quad 127 0 0 0, 8) (by decide)
  have hlinkLocal : isLinkLocal (.v4 ip) = false := hnet (quad 169 254 0 0, 16) (by decide)
  have hreserved : isReserved (.v4 ip) = false := hnet (quad 240 0 0 0, 4) (by decide)
  have hmulticast : isMulticast (.v4 ip) = false := hnet (quad 224 0 0 0, 4) (by decide)
  have hnonzero : ∀ r ∈ overlookedV4, ¬r.Contains 0 := by decide
  have hunspecified : isUnspecified (.v4 ip) = false := by
    refine beq_eq_false_iff_ne.mpr ?_
    rintro rfl
    exact hnonzero r hr h
  simp [isBlockedIp, isPrivate, classify, hprivate, hloopback, hlinkLocal, hreserved, hmulticast,
    hunspecified]

/-- A mapped address is blocked exactly if its IPv4 address is. -/
theorem isBlockedIp_mapped (m : BitVec 32) :
    isBlockedIp (.v6 (mappedV4 m)) = isBlockedIp (.v4 m) := by
  have hmapped := ipv4Mapped_mappedV4 m
  have hone : isLoopback (.v6 (mappedV4 m)) = false := by
    refine beq_eq_false_iff_ne.mpr fun heq ↦ ?_
    have hnat : (mappedV4 m).toNat = 1 := congrArg BitVec.toNat heq
    rw [toNat_mappedV4] at hnat
    omega
  -- the loopback addresses of IPv4 are private
  have hloopback : isLoopback (.v4 m) → isPrivateV4 m := by
    intro h
    rw [isLoopback, inNetwork_iff_range (by decide)] at h
    exact isPrivateV4_of_contains (r := ⟨quad 127 0 0 0, quad 127 255 255 255⟩)
      (by decide +kernel) h
  simp only [isBlockedIp, isPrivate, isLinkLocal, isReserved, isMulticast, isUnspecified, classify,
    hmapped, hone]
  cases hprivate : isPrivateV4 m with
  | true => rfl
  | false =>
      rw [hprivate] at hloopback
      have hfalse : isLoopback (.v4 m) = false :=
        Bool.eq_false_iff.mpr fun h ↦ Bool.false_ne_true (hloopback h)
      rw [hfalse]

end

section

variable {ip : BitVec 128} {r : AddressRange 128}

/-- A range that is private, away from the exceptions. -/
def IsPrivateV6 (r : AddressRange 128) : Prop :=
  (∃ n ∈ privateV6, r.Within n) ∧ ∀ n ∈ privateExceptionsV6, r.Apart n

instance (r : AddressRange 128) : Decidable (IsPrivateV6 r) := inferInstanceAs (Decidable (_ ∧ _))

/-- The reserved blocks in terms of the leading hextet. -/
theorem inAny_reservedV6_iff :
    inAny ip reservedV6 ↔ ip.toNat / 2 ^ 112 < 0x2000 ∨
      (0x4000 ≤ ip.toNat / 2 ^ 112 ∧ ip.toNat / 2 ^ 112 < 0xFC00) ∨
      (0xFE00 ≤ ip.toNat / 2 ^ 112 ∧ ip.toNat / 2 ^ 112 < 0xFE80) := by
  have hlt := ip.isLt
  rw [inAny_iff]
  simp only [reservedV6, List.mem_cons, List.not_mem_nil, or_false, exists_eq_or_imp,
    exists_eq_left, inNetwork_iff]
  simp [hextets, joinHextets]
  omega

section

variable (hmapped : ipv4Mapped ip = none)

include hmapped

theorem isBlockedIp_reserved (h : inAny ip reservedV6) : isBlockedIp (.v6 ip) := by
  simp [isBlockedIp, isReserved, classify, hmapped, h]

/-- Of the ranges of IPv6, only the site-local addresses are let through. -/
theorem isBlockedIp_v6 (hr : r ∈ notGlobalV6) (h : r.Contains ip) :
    isBlockedIp (.v6 ip) ∨ siteLocalV6.Contains ip := by
  have hkinds : ∀ r ∈ notGlobalV6, IsPrivateV6 r ∨ r.Within (hextets [0xFE80], 10) ∨
      r.Within (hextets [0xFF00], 8) ∨ r = siteLocalV6 ∨ r ∈ notGlobalV6.drop 10 := by
    decide +kernel
  rcases hkinds r hr with hprivate | hlinkLocal | hmulticast | rfl | hreserved
  · have hip : isPrivateV6 ip := by
      rw [isPrivateV6, AddressRange.inAny_eq_false hprivate.2 h,
        AddressRange.inAny_of_within hprivate.1 h]
      rfl
    exact .inl (by simp [isBlockedIp, isPrivate, classify, hmapped, hip])
  · exact .inl (by simp [isBlockedIp, isLinkLocal, classify, hmapped, hlinkLocal.inNetwork h])
  · exact .inl (by simp [isBlockedIp, isMulticast, classify, hmapped, hmulticast.inNetwork h])
  · exact .inr h
  · -- the blocks are reserved in several networks each
    refine .inl (isBlockedIp_reserved hmapped (inAny_reservedV6_iff.mpr ?_))
    simp only [notGlobalV6, List.drop_succ_cons, List.drop_zero, List.mem_cons, List.not_mem_nil,
      or_false] at hreserved
    rcases hreserved with rfl | rfl | rfl
    · have hlast : ip.toNat ≤ 0x2000 * 2 ^ 112 - 1 := h.2
      omega
    · have hfirst : 0x4000 * 2 ^ 112 ≤ ip.toNat := h.1
      have hlast : ip.toNat ≤ 0xFC00 * 2 ^ 112 - 1 := h.2
      omega
    · have hfirst : 0xFE00 * 2 ^ 112 ≤ ip.toNat := h.1
      have hlast : ip.toNat ≤ 0xFE80 * 2 ^ 112 - 1 := h.2
      omega

end

/-- No predicate that is asked for holds of a site-local address. -/
theorem not_isBlockedIp_of_siteLocal (h : siteLocalV6.Contains ip) :
    isBlockedIp (.v6 ip) = false := by
  have hfirst : 0xFEC0 * 2 ^ 112 ≤ ip.toNat := h.1
  have hmapped : ipv4Mapped ip = none := by
    cases hm : ipv4Mapped ip with
    | none => rfl
    | some m =>
        have hlt := m.isLt
        rw [ipv4Mapped_eq_some_iff.mp hm, toNat_mappedV4] at hfirst
        omega
  have hprivate : isPrivateV6 ip = false := by
    rw [isPrivateV6, AddressRange.inAny_eq_false (r := siteLocalV6) (by decide +kernel) h,
      Bool.false_and]
  have hreserved : inAny ip reservedV6 = false :=
    AddressRange.inAny_eq_false (r := siteLocalV6) (by decide +kernel) h
  have hnet : ∀ n, siteLocalV6.Apart n → inNetwork ip n.1 n.2 = false := fun n hn ↦
    hn.inNetwork_eq_false h
  have hlinkLocal := hnet (hextets [0xFE80], 10) (by decide)
  have hmulticast := hnet (hextets [0xFF00], 8) (by decide)
  have hsmall : ∀ small : BitVec 128, small.toNat ≤ 1 → (ip == small) = false := by
    intro small hsmall
    refine beq_eq_false_iff_ne.mpr ?_
    rintro rfl
    omega
  have hone := hsmall 1 (by decide)
  have hzero := hsmall 0 (by decide)
  simp only [isBlockedIp, isPrivate, isLoopback, isLinkLocal, isReserved, isMulticast,
    isUnspecified, classify, hmapped, hprivate, hreserved, hlinkLocal, hmulticast, hone, hzero,
    Bool.or_self]

end

theorem isBlockedIp_of_notGlobal {ip : IPAddress} (h : NotGlobal ip) :
    isBlockedIp ip ∨ IsOverlooked ip := by
  cases ip with
  | v4 ip =>
      obtain ⟨r, hr, hcontains⟩ := h
      exact isBlockedIp_v4 hr hcontains
  | v6 ip =>
      rcases h with ⟨m, rfl, r, hr, hcontains⟩ | ⟨hplain, r, hr, hcontains⟩
      · rw [isBlockedIp_mapped]
        exact (isBlockedIp_v4 hr hcontains).imp_right fun hoverlooked ↦
          .inl ⟨m, rfl, hoverlooked⟩
      · have hmapped : ipv4Mapped ip = none :=
          Option.eq_none_iff_forall_ne_some.mpr fun m hm ↦ hplain m (ipv4Mapped_eq_some_iff.mp hm)
        exact (isBlockedIp_v6 hmapped hr hcontains).imp_right .inr

theorem notGlobal_of_isOverlooked {ip : IPAddress} (h : IsOverlooked ip) : NotGlobal ip := by
  have hsub : overlookedV4 ⊆ notGlobalV4 := by decide
  cases ip with
  | v4 ip =>
      obtain ⟨r, hr, hcontains⟩ := h
      exact ⟨r, hsub hr, hcontains⟩
  | v6 ip =>
      rcases h with ⟨m, rfl, r, hr, hcontains⟩ | hsite
      · exact .inl ⟨m, rfl, r, hsub hr, hcontains⟩
      · refine .inr ⟨fun m hm ↦ ?_, siteLocalV6, by decide, hsite⟩
        have hfirst : 0xFEC0 * 2 ^ 112 ≤ ip.toNat := hsite.1
        have hlt := m.isLt
        rw [hm, toNat_mappedV4] at hfirst
        omega

theorem not_isBlockedIp_of_isOverlooked {ip : IPAddress} (h : IsOverlooked ip) :
    ¬isBlockedIp ip := by
  cases ip with
  | v4 ip =>
      obtain ⟨r, hr, hcontains⟩ := h
      simp [not_isBlockedIp_of_overlookedV4 hr hcontains]
  | v6 ip =>
      rcases h with ⟨m, rfl, r, hr, hcontains⟩ | hsite
      · simp [isBlockedIp_mapped, not_isBlockedIp_of_overlookedV4 hr hcontains]
      · simp [not_isBlockedIp_of_siteLocal hsite]

/-! ## The accepted URLs -/

/-- The address that an address string stands for, be it scoped or not. -/
def Denotes (addr : Text) (ip : IPAddress) : Prop :=
  IPAddress.parse addr = some ip ∨ IPAddress.parse (unscoped addr) = some ip

/-- A scoped address stands for the address before its zone. -/
theorem denotes_iff {addr : Text} {ip : IPAddress} :
    Denotes addr ip ↔ IPAddress.parse (unscoped addr) = some ip := by
  refine ⟨fun h ↦ h.elim (fun hwhole ↦ ?_) id, .inr⟩
  exact parse_partition hwhole

/-- The loop lets a list of addresses through when it meets no blocked one. -/
theorem checkAddresses_isOk_iff (host : Text) (addrs : List Text) :
    (checkAddresses host addrs).isOk ↔
      ∀ addr ∈ addrs, ∀ ip, IPAddress.parse (unscoped addr) = some ip → ¬isBlockedIp ip := by
  induction addrs with
  | nil => simp [checkAddresses, Except.isOk, Except.toBool]
  | cons addr addrs ih =>
      rw [checkAddresses, List.forall_mem_cons]
      cases hparse : IPAddress.parse (unscoped addr) with
      | none => simp [ih]
      | some ip =>
          by_cases hblocked : isBlockedIp ip
          · simp [hblocked, Except.isOk, Except.toBool]
          · simp [hblocked, ih]

/-- The URLs that are let through. -/
theorem accepts_iff {resolver : Resolver} {url : Text} :
    accepts resolver url ↔ ∃ parts host, SplitResult.urlsplit url = .ok parts ∧
      Text.lower parts.scheme ∈ allowedSchemes ∧ parts.hostname = some host ∧
      ((∃ ip, IPAddress.parse host = some ip ∧ ¬isBlockedIp ip) ∨
        IPAddress.parse host = none ∧ ∃ addrs, resolver host = .ok addrs ∧
          ∀ addr ∈ addrs, ∀ ip, IPAddress.parse (unscoped addr) = some ip → ¬isBlockedIp ip) := by
  unfold accepts validatePublicUrl
  cases hsplit : SplitResult.urlsplit url with
  | error e => simp [Except.mapError, bind, Except.bind, Except.isOk, Except.toBool]
  | ok parts =>
      by_cases hscheme : Text.lower parts.scheme ∈ allowedSchemes
      case neg =>
        simp [hscheme, Except.mapError, bind, Except.bind, Except.isOk, Except.toBool, throw,
          throwThe, MonadExceptOf.throw]
      case pos =>
        cases hhost : parts.hostname with
        | none =>
            simp [hscheme, hhost, Except.mapError, bind, Except.bind, Except.isOk, Except.toBool,
              throw, throwThe, MonadExceptOf.throw]
        | some host =>
            cases hparse : IPAddress.parse host with
            | some ip =>
                cases hblocked : isBlockedIp ip <;>
                  simp [hscheme, hhost, hparse, hblocked, Except.mapError, bind, Except.bind,
                    Except.isOk, Except.toBool, throw, throwThe, MonadExceptOf.throw, pure,
                    Except.pure]
            | none =>
                cases hresolve : resolver host with
                | error exc =>
                    simp [hscheme, hhost, hparse, hresolve, Except.mapError, bind, Except.bind,
                      Except.isOk, Except.toBool]
                | ok addrs =>
                    have hloop := checkAddresses_isOk_iff host addrs
                    simp [hscheme, hhost, hparse, hresolve, Except.mapError, bind, Except.bind]
                    simpa using hloop

/-! ## Soundness -/

/-- Neither the IP literal of the URL nor an address that its name resolves to is outside the
globally reachable ones. -/
def TargetsPublic (resolver : Resolver) (url : Text) : Prop :=
  ∀ parts host, SplitResult.urlsplit url = .ok parts → parts.hostname = some host →
    (∀ ip, IPAddress.parse host = some ip → ¬NotGlobal ip) ∧
      (IPAddress.parse host = none → ∀ addrs, resolver host = .ok addrs →
        ∀ addr ∈ addrs, ∀ ip, Denotes addr ip → ¬NotGlobal ip)

/-- The host is an overlooked address, or a name that resolves to one and to no blocked address. -/
def TargetsOverlooked (resolver : Resolver) (url : Text) : Prop :=
  ∃ parts host, SplitResult.urlsplit url = .ok parts ∧
    Text.lower parts.scheme ∈ allowedSchemes ∧ parts.hostname = some host ∧
    ((∃ ip, IPAddress.parse host = some ip ∧ IsOverlooked ip) ∨
      IPAddress.parse host = none ∧ ∃ addrs, resolver host = .ok addrs ∧
        (∃ addr ∈ addrs, ∃ ip, Denotes addr ip ∧ IsOverlooked ip) ∧
        ∀ addr ∈ addrs, ∀ ip, Denotes addr ip → ¬isBlockedIp ip)

/-- What is let through is public, unless it is overlooked. -/
theorem targetsPublic_iff (resolver : Resolver) (url : Text) :
    (accepts resolver url → TargetsPublic resolver url) ↔ ¬TargetsOverlooked resolver url := by
  constructor
  · rintro h ⟨parts, host, hsplit, hscheme, hhost, hoverlooked⟩
    rcases hoverlooked with ⟨ip, hparse, hip⟩ |
      ⟨hparse, addrs, hresolve, ⟨addr, haddr, ip, hden, hip⟩, hfree⟩
    · have haccepts : accepts resolver url := accepts_iff.mpr
        ⟨parts, host, hsplit, hscheme, hhost,
          .inl ⟨ip, hparse, not_isBlockedIp_of_isOverlooked hip⟩⟩
      exact (h haccepts parts host hsplit hhost).1 ip hparse (notGlobal_of_isOverlooked hip)
    · have haccepts : accepts resolver url := accepts_iff.mpr
        ⟨parts, host, hsplit, hscheme, hhost,
          .inr ⟨hparse, addrs, hresolve, fun a ha i hi ↦ hfree a ha i (denotes_iff.mpr hi)⟩⟩
      exact (h haccepts parts host hsplit hhost).2 hparse addrs hresolve addr haddr ip hden
        (notGlobal_of_isOverlooked hip)
  · intro h haccepts parts host hsplit hhost
    obtain ⟨parts', host', hsplit', hscheme, hhost', hcases⟩ := accepts_iff.mp haccepts
    obtain rfl : parts = parts' := Except.ok.inj (hsplit.symm.trans hsplit')
    obtain rfl : host = host' := Option.some.inj (hhost.symm.trans hhost')
    constructor
    · intro ip hparse hglobal
      rcases hcases with ⟨ip', hparse', hfree⟩ | ⟨hnone, -⟩
      · obtain rfl : ip = ip' := Option.some.inj (hparse.symm.trans hparse')
        have hip := (isBlockedIp_of_notGlobal hglobal).resolve_left hfree
        exact h ⟨parts, host, hsplit, hscheme, hhost, .inl ⟨ip, hparse, hip⟩⟩
      · rw [hparse] at hnone
        cases hnone
    · intro hparse addrs hresolve addr haddr ip hden hglobal
      rcases hcases with ⟨ip', hparse', -⟩ | ⟨-, addrs', hresolve', hfree⟩
      · rw [hparse] at hparse'
        cases hparse'
      · obtain rfl : addrs = addrs' := Except.ok.inj (hresolve.symm.trans hresolve')
        have hip := (isBlockedIp_of_notGlobal hglobal).resolve_left
          (hfree addr haddr ip (denotes_iff.mp hden))
        exact h ⟨parts, host, hsplit, hscheme, hhost,
          .inr ⟨hparse, addrs, hresolve, ⟨addr, haddr, ip, hden, hip⟩,
            fun a ha i hi ↦ hfree a ha i (denotes_iff.mp hi)⟩⟩

/-- A shared address as the host, whatever the resolver does. -/
theorem shared_accepted :
    accepts (fun _ ↦ .ok []) "http://100.64.0.1/feed".toList ∧
      ¬TargetsPublic (fun _ ↦ .ok []) "http://100.64.0.1/feed".toList := by
  have hsplit : SplitResult.urlsplit "http://100.64.0.1/feed".toList =
      .ok ⟨"http".toList, "100.64.0.1".toList, "/feed".toList, [], []⟩ := by decide
  have hparse : IPAddress.parse "100.64.0.1".toList = some (.v4 (quad 100 64 0 1)) := by decide
  refine ⟨by decide, fun h ↦ ?_⟩
  exact (h _ "100.64.0.1".toList hsplit (by decide)).1 _ hparse
    (notGlobal_of_isOverlooked ⟨sharedV4, by decide, by decide⟩)

end Ssrf

end FeedgateFetcher
