import Gzv2ray.Buf.Reader
import Gzv2ray.Lib.BigEndian

/-!
# Matching of IP addresses

A `GeoIPMatcher` holds networks, sorted by their addresses and masked after that,
and searches an address among those of its family.

* `GeoIPMatcher.init`: the matcher of a list of CIDRs;
* `GeoIPMatcher.matchIP`: whether an address matches.

The addresses of both families are searched in the same way (`matchNets`).
-/

namespace Gzv2ray.Router

/-- An address, and the length of a network in bits. -/
structure CIDR where
  ip : Bytes
  prefixBits : UInt32
  deriving DecidableEq

/-- The halves of an IPv6 address. -/
structure IPv6Halves where
  a : BitVec 64
  b : BitVec 64
  deriving DecidableEq

/-- The networks of each family, with their lengths: `ip4` and `prefix4`, `ip6` and
    `prefix6`. -/
structure GeoIPMatcher where
  reverseMatch : Bool := false
  nets4 : List (BitVec 32 × UInt8) := []
  nets6 : List (IPv6Halves × UInt8) := []

def normalize4 (ip : BitVec 32) (bits : UInt8) : BitVec 32 :=
  (ip >>> (32 - bits).toNat) <<< (32 - bits).toNat

def normalize6 (ip : IPv6Halves) (bits : UInt8) : IPv6Halves :=
  if bits ≤ 64 then ⟨(ip.a >>> (64 - bits).toNat) <<< (64 - bits).toNat, 0⟩
  else ⟨ip.a, (ip.b >>> (128 - bits).toNat) <<< (128 - bits).toNat⟩

def less4 (a b : BitVec 32) : Bool := a < b

def less6 (a b : IPv6Halves) : Bool := a.a < b.a || (a.a == b.a && a.b < b.b)

/-! ## The order of the networks -/

/-- Compares byte by byte, as far as both go. -/
def lessBytes : Bytes → Bytes → Option Bool
  | x :: xs, y :: ys => if x < y then some true else if x > y then some false else lessBytes xs ys
  | _, _ => none

def CIDR.less (ci cj : CIDR) : Bool :=
  if ci.ip.length < cj.ip.length then true
  else if ci.ip.length > cj.ip.length then false
  else (lessBytes ci.ip cj.ip).getD (ci.prefixBits < cj.prefixBits)

/-- The networks, in an order that none comes after one that it is less than. -/
def CIDR.sort (cidrs : List CIDR) : List CIDR := cidrs.insertionSort fun a b => ¬ b.less a

/-! ## Search -/

section

variable {α : Type} [DecidableEq α] (less : α → α → Bool) (normalize : α → UInt8 → α)
  (nets : List (α × UInt8)) (ip : α)

/-- The address is one of the network. -/
def isIn (net : α × UInt8) : Bool := normalize ip net.2 == net.1

/-- The network before some position has the address. -/
def lastMatches (l : ℕ) : Bool := 0 < l && nets[l - 1]?.any (isIn normalize ip)

/-- Searches from a position to another one. -/
def matchLoop : ℕ → ℕ → ℕ → Bool
  | 0, l, _ => lastMatches normalize nets ip l
  | fuel + 1, l, r =>
    if l < r then
      match nets[(l + r) / 2]? with
      | none => false
      | some net =>
        if less ip net.1 then matchLoop fuel l ((l + r) / 2)
        else if isIn normalize ip net then true
        else matchLoop fuel ((l + r) / 2 + 1) r
    else lastMatches normalize nets ip l

def matchNets : Bool :=
  match nets.head? with
  | none => false
  | some net =>
    if less ip net.1 then false else matchLoop less normalize nets ip nets.length 0 nets.length

end

/-- The number of four bytes. -/
def uint32 (b : Bytes) : BitVec 32 := .ofNat 32 (ofBigEndian b)

/-- The number of eight bytes. -/
def uint64 (b : Bytes) : BitVec 64 := .ofNat 64 (ofBigEndian b)

def halves (ip : Bytes) : IPv6Halves := ⟨uint64 (ip.take 8), uint64 (ip.drop 8)⟩

namespace GeoIPMatcher

variable (m : GeoIPMatcher)

def unexpectIPLength : Error := newError "app/router" "unexpect ip length: "

def init (cidrs : List CIDR) : Except Error GeoIPMatcher :=
  if cidrs.any fun cidr => cidr.ip.length ≠ 4 && cidr.ip.length ≠ 16 then .error unexpectIPLength
  else .ok { m with
    nets4 := ((CIDR.sort cidrs).filter fun cidr => cidr.ip.length = 4).map fun cidr =>
      (normalize4 (uint32 cidr.ip) cidr.prefixBits.toUInt8, cidr.prefixBits.toUInt8)
    nets6 := ((CIDR.sort cidrs).filter fun cidr => cidr.ip.length = 16).map fun cidr =>
      (normalize6 (halves cidr.ip) cidr.prefixBits.toUInt8, cidr.prefixBits.toUInt8) }

def match4 (ip : BitVec 32) : Bool := matchNets less4 normalize4 m.nets4 ip

def match6 (ip : IPv6Halves) : Bool := matchNets less6 normalize6 m.nets6 ip

def matchIP (ip : Bytes) : Bool :=
  if ip.length = 4 then if m.reverseMatch then !m.match4 (uint32 ip) else m.match4 (uint32 ip)
  else if ip.length = 16 then if m.reverseMatch then !m.match6 (halves ip) else m.match6 (halves ip)
  else false

end GeoIPMatcher

end Gzv2ray.Router
