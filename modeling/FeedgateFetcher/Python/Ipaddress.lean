import FeedgateFetcher.Python.Text

/-!
# `ipaddress`

Parsing and classification of IP addresses, as the `ipaddress` module of
CPython 3.12 does it from its patch release 8 on: the IPv4-mapped form of an address is
classified as this address.  The zone of a scoped IPv6 address is checked and
dropped, since no predicate reads it.
-/

namespace FeedgateFetcher.Python

open Text

/-- `IPv4Address` or `IPv6Address`. -/
inductive IPAddress where
  | v4 (ip : BitVec 32)
  | v6 (ip : BitVec 128)
deriving DecidableEq, Repr

namespace IPAddress

/-! ## Parsing -/

def isAsciiDigit (c : Char) : Bool := '0' ≤ c && c ≤ '9'

/-- `IPv4Address._parse_octet`. -/
def parseOctet (s : Text) : Option Nat :=
  if s.isEmpty || !s.all isAsciiDigit || 3 < s.length then none
  else if s != ['0'] && s.head? = some '0' then none
  else
    let n := ofDigits (s.map fun c ↦ c.toNat - '0'.toNat)
    if 255 < n then none else some n

/-- `IPv4Address(s)`. -/
def parseV4 (s : Text) : Option (BitVec 32) := do
  match split '.' s with
  | [a, b, c, d] =>
    let a ← parseOctet a
    let b ← parseOctet b
    let c ← parseOctet c
    let d ← parseOctet d
    some (BitVec.ofNat 32 (((a * 256 + b) * 256 + c) * 256 + d))
  | _ => none

def hexValue (c : Char) : Option Nat :=
  if isAsciiDigit c then some (c.toNat - '0'.toNat)
  else if 'a' ≤ c ∧ c ≤ 'f' then some (c.toNat - 'a'.toNat + 10)
  else if 'A' ≤ c ∧ c ≤ 'F' then some (c.toNat - 'A'.toNat + 10)
  else none

/-- `IPv6Address._parse_hextet`. -/
def parseHextet (s : Text) : Option Nat := do
  let ds ← s.mapM hexValue
  if s.isEmpty || 4 < s.length then none
  else some (ds.foldl (fun n d ↦ n * 16 + d) 0)

def joinHextets (hs : List Nat) : Nat := hs.foldl (fun n h ↦ n * 65536 + h) 0

/-- Write an IPv4-style last part as two hextets. -/
def expandV4Suffix (parts : List Text) : Option (List (Option Nat × Bool)) :=
  let hextet (s : Text) : Option Nat × Bool := (parseHextet s, s.isEmpty)
  match parts.getLast? with
  | none => some []
  | some l =>
    if l.contains '.' then
      (parseV4 l).map fun ip ↦ parts.dropLast.map hextet ++
        [(some (ip.toNat / 65536), false), (some (ip.toNat % 65536), false)]
    else some (parts.map hextet)

/-- `IPv6Address._ip_int_from_string`.  A part is carried as its value, `none`
where it is not a hextet, and whether it is empty. -/
def parseV6Int (s : Text) : Option Nat := do
  let texts := split ':' s
  if texts.length < 3 then none
  else
    let parts ← expandV4Suffix texts
    if 9 < parts.length then none
    else
      let inner := (List.range parts.length).filter fun i ↦
        1 ≤ i && i + 1 < parts.length && (parts[i]?.any fun p ↦ p.2)
      let headEmpty := parts.head?.any fun p ↦ p.2
      let lastEmpty := parts.getLast?.any fun p ↦ p.2
      match inner with
      | [] =>
        if parts.length ≠ 8 then none
        else
          let hs ← parts.mapM Prod.fst
          some (joinHextets hs)
      | [skip] =>
        let lo := parts.length - skip - 1
        if headEmpty && skip ≠ 1 then none
        else if lastEmpty && lo ≠ 1 then none
        else
          let hi' := if headEmpty then 0 else skip
          let lo' := if lastEmpty then 0 else lo
          if 8 < hi' + lo' + 1 then none
          else
            let hs ← (parts.take hi').mapM Prod.fst
            let ls ← (parts.drop (parts.length - lo')).mapM Prod.fst
            some (joinHextets (hs ++ List.replicate (8 - (hi' + lo')) 0 ++ ls))
      | _ => none

/-- `IPv6Address(s)`. -/
def parseV6 (s : Text) : Option (BitVec 128) :=
  if s.contains '/' then none
  else
    let (addr, zoned, zone) := partition '%' s
    if zoned && (zone.isEmpty || zone.contains '%') then none
    else (parseV6Int addr).map (BitVec.ofNat 128)

/-- `ipaddress.ip_address(s)`, with `none` for its `ValueError`. -/
def parse (s : Text) : Option IPAddress :=
  match parseV4 s with
  | some ip => some (.v4 ip)
  | none => (parseV6 s).map .v6

/-! ## Classification -/

/-- Membership in the network `base/len`. -/
def inNetwork {w : Nat} (ip base : BitVec w) (len : Nat) : Bool :=
  ip >>> (w - len) == base >>> (w - len)

/-- The dotted quad `a.b.c.d`. -/
def quad (a b c d : Nat) : BitVec 32 := BitVec.ofNat 32 (((a * 256 + b) * 256 + c) * 256 + d)

/-- The IPv6 address with the leading hextets `hs`, the rest being zero. -/
def hextets (hs : List Nat) : BitVec 128 :=
  BitVec.ofNat 128 (joinHextets (hs ++ List.replicate (8 - hs.length) 0))

def privateV4 : List (BitVec 32 × Nat) :=
  [(quad 0 0 0 0, 8), (quad 10 0 0 0, 8), (quad 127 0 0 0, 8), (quad 169 254 0 0, 16),
    (quad 172 16 0 0, 12), (quad 192 0 0 0, 24), (quad 192 0 0 170, 31), (quad 192 0 2 0, 24),
    (quad 192 168 0 0, 16), (quad 198 18 0 0, 15), (quad 198 51 100 0, 24),
    (quad 203 0 113 0, 24), (quad 240 0 0 0, 4), (quad 255 255 255 255, 32)]

def privateExceptionsV4 : List (BitVec 32 × Nat) := [(quad 192 0 0 9, 32), (quad 192 0 0 10, 32)]

def privateV6 : List (BitVec 128 × Nat) :=
  [(hextets [0, 0, 0, 0, 0, 0, 0, 1], 128), (hextets [], 128),
    (hextets [0, 0, 0, 0, 0, 0xFFFF], 96), (hextets [0x64, 0xFF9B, 1], 48), (hextets [0x100], 64),
    (hextets [0x2001], 23), (hextets [0x2001, 0xDB8], 32), (hextets [0x2002], 16),
    (hextets [0x3FFF], 20), (hextets [0xFC00], 7), (hextets [0xFE80], 10)]

def privateExceptionsV6 : List (BitVec 128 × Nat) :=
  [(hextets [0x2001, 1, 0, 0, 0, 0, 0, 1], 128), (hextets [0x2001, 1, 0, 0, 0, 0, 0, 2], 128),
    (hextets [0x2001, 3], 32), (hextets [0x2001, 4, 0x112], 48), (hextets [0x2001, 0x20], 28),
    (hextets [0x2001, 0x30], 28)]

def reservedV6 : List (BitVec 128 × Nat) :=
  [(hextets [], 8), (hextets [0x100], 8), (hextets [0x200], 7), (hextets [0x400], 6),
    (hextets [0x800], 5), (hextets [0x1000], 4), (hextets [0x4000], 3), (hextets [0x6000], 3),
    (hextets [0x8000], 3), (hextets [0xA000], 3), (hextets [0xC000], 3), (hextets [0xE000], 4),
    (hextets [0xF000], 5), (hextets [0xF800], 6), (hextets [0xFE00], 9)]

def inAny {w : Nat} (ip : BitVec w) (nets : List (BitVec w × Nat)) : Bool :=
  nets.any fun n ↦ inNetwork ip n.1 n.2

/-- `IPv6Address.ipv4_mapped`. -/
def ipv4Mapped (ip : BitVec 128) : Option (BitVec 32) :=
  if ip >>> 32 = BitVec.ofNat 128 0xFFFF then some (ip.setWidth 32) else none

/-- A predicate by its two versions; a mapped address defers to its IPv4 address. -/
def classify (v4 : BitVec 32 → Bool) (v6 : BitVec 128 → Bool) : IPAddress → Bool
  | .v4 ip => v4 ip
  | .v6 ip => match ipv4Mapped ip with
    | some m => v4 m
    | none => v6 ip

def isPrivateV4 (ip : BitVec 32) : Bool := inAny ip privateV4 && !inAny ip privateExceptionsV4

def isPrivateV6 (ip : BitVec 128) : Bool := inAny ip privateV6 && !inAny ip privateExceptionsV6

def isPrivate : IPAddress → Bool := classify isPrivateV4 isPrivateV6

def isLoopback : IPAddress → Bool
  | .v4 ip => inNetwork ip (quad 127 0 0 0) 8
  | .v6 ip => ip == 1

def isLinkLocal : IPAddress → Bool :=
  classify (inNetwork · (quad 169 254 0 0) 16) (inNetwork · (hextets [0xFE80]) 10)

def isReserved : IPAddress → Bool :=
  classify (inNetwork · (quad 240 0 0 0) 4) (inAny · reservedV6)

def isMulticast : IPAddress → Bool :=
  classify (inNetwork · (quad 224 0 0 0) 4) (inNetwork · (hextets [0xFF00]) 8)

def isUnspecified : IPAddress → Bool := classify (· == 0) (· == 0)

example : parse "169.254.169.254".toList = some (.v4 (quad 169 254 169 254)) := by decide

example : parse "fe80::1%lo0".toList = some (.v6 (hextets [0xFE80, 0, 0, 0, 0, 0, 0, 1])) := by
  decide

end IPAddress

end FeedgateFetcher.Python
