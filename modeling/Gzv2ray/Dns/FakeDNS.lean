import Gzv2ray.Cache.Lru
import Gzv2ray.Lib.Ring
import Gzv2ray.Lib.Transition
import Gzv2ray.Net.Address

/-!
# Fake addresses for domains

A holder gives each domain an address of its network, and tells which domain an
address was given to. It tries one address after another, and remembers as many
pairs as its cache has room for.

* `Holder.initializePool`: the holder of a network, if it is larger than the cache;
* `Holder.getFakeIPForDomain`, `Holder.getDomainFromFakeDNS`: the two lookups.

The function `net.ParseCIDR` of the standard library is a parameter, and so is
`math.Log2`, as it rounds.
-/

namespace Gzv2ray.Dns

open Gzv2ray.Cache

/-! ## Networks -/

/-- The four bytes of an IPv4 address, also if it is mapped to an IPv6 address. -/
def to4 (ip : Bytes) : Option Bytes :=
  if ip.length = 4 then some ip
  else if h : ip.length = 16 then if Address.IsMapped ⟨ip, h⟩ then some (ip.drop 12) else none
  else none

/-- An address, and how many of its first bits are those of its network. -/
structure IPNet where
  ip : Bytes
  ones : ℕ
  length_ip : ip.length = 4 ∨ ip.length = 16
  ones_le : ones ≤ 8 * ip.length

namespace IPNet

variable (c : IPNet)

/-- The number of bits that the addresses of the network are free in. -/
def rooms : ℕ := 8 * c.ip.length - c.ones

/-- The number of addresses of the network. -/
def size : ℕ := 2 ^ c.rooms

/-- The first address of the network, as a number. -/
def base : ℕ := ofBigEndian c.ip / c.size * c.size

/-- The network, with its first address. -/
def network : IPNet where
  ip := bigEndian c.ip.length c.base
  ones := c.ones
  length_ip := by rw [length_bigEndian]; exact c.length_ip
  ones_le := by rw [length_bigEndian]; exact c.ones_le

/-- The address in sixteen bytes. -/
def ipaddr : Bytes :=
  if c.ip.length = 4 then List.replicate 10 0 ++ [0xff, 0xff] ++ c.ip else c.ip

/-- The address is as long as those of the network, and has their first bits. -/
def contains (ip : Bytes) : Bool :=
  let number := (to4 c.ip).getD c.ip
  let ip := (to4 ip).getD ip
  let rooms := 8 * number.length - if number.length < c.ip.length then c.ones - 96 else c.ones
  ip.length == number.length && ofBigEndian ip / 2 ^ rooms == ofBigEndian number / 2 ^ rooms

end IPNet

/-- The bytes of a number, without zeros in front. -/
def bigBytes (n : ℕ) : Bytes := if n = 0 then [] else bigEndian (n.log2 / 8 + 1) n

/-- The bytes of an IP address. -/
def addressIP : Address → Bytes
  | .ipv4 ip => ip.1
  | .ipv6 ip => ip.1
  | .domain _ => []

/-! ## The holder -/

/-- The values of the cache are addresses, which may be missing. -/
structure Holder where
  domainToIP : Lru Bytes (Option Address)
  nextIP : ℕ
  ipRange : IPNet

namespace Holder

def errParseCIDR : Error := .new (ascii "urable to parse CIDR for Fake DNS IP assignment")

def errLruSize : Error := .new (ascii "uRU size is bigger than subnet size")

/-- The method `initialize`. -/
def initializePool (parseCIDR : Bytes → Option IPNet) (log2 : ℤ → ℚ) (ipPoolCidr : Bytes)
    (lruSize : ℤ) : Except Error Holder :=
  match parseCIDR ipPoolCidr with
  | none => .error errParseCIDR
  | some c =>
    if c.rooms ≤ log2 lruSize then .error errLruSize
    else .ok {
      domainToIP := { capacity := lruSize }
      nextIP := ofBigEndian ((to4 c.ipaddr).getD c.ipaddr)
      ipRange := c.network }

/-- The number after the next one, back in the network if it leaves it. -/
def advance (fkdns : Holder) : ℕ :=
  if fkdns.ipRange.contains (bigBytes (fkdns.nextIP + 1)) then fkdns.nextIP + 1
  else ofBigEndian fkdns.ipRange.ip

/-- Tries one address after another, until one is not in the cache. -/
def probe : ℕ → Holder → Option (Option Address × Holder)
  | 0, _ => none
  | fuel + 1, fkdns =>
    let ip := ipAddress (bigBytes fkdns.nextIP)
    let (key, domainToIP) := fkdns.domainToIP.getKeyFromValue ip
    let fkdns := { fkdns with nextIP := fkdns.advance, domainToIP := domainToIP }
    if key.isNone then some (ip, fkdns) else probe fuel fkdns

/-- The addresses for a domain, where a call returns: it panics if the address in the
    cache is missing. -/
def getFakeIPForDomain (fuel : ℕ) (fkdns : Holder) (domain : Bytes) :
    Option (List (Option Address) × Holder) :=
  match fkdns.domainToIP.get domain with
  | (some (some ip), domainToIP) => some ([some ip], { fkdns with domainToIP })
  | (some none, _) => none
  | (none, domainToIP) => (probe fuel { fkdns with domainToIP }).map fun (ip, fkdns) =>
    ([ip], { fkdns with domainToIP := fkdns.domainToIP.put domain ip })

def getDomainFromFakeDNS (fkdns : Holder) (ip : Address) : Bytes × Holder :=
  if ip.family = .domain || !fkdns.ipRange.contains (addressIP ip) then ([], fkdns)
  else
    let (domain, domainToIP) := fkdns.domainToIP.getKeyFromValue (some ip)
    (domain.getD [], { fkdns with domainToIP })

end Holder

/-! ## Runs -/

/-- A call of one of the lookups. -/
inductive Call
  | getFakeIPForDomain (domain : Bytes)
  | getDomainFromFakeDNS (ip : Address)

/-- The runs from a holder, call by call. -/
def calls (start : Holder) : Lts Holder Call where
  init fkdns := fkdns = start
  step fkdns call fkdns' :=
    match call with
    | .getFakeIPForDomain domain =>
      ∃ fuel ips, fkdns.getFakeIPForDomain fuel domain = some (ips, fkdns')
    | .getDomainFromFakeDNS ip => fkdns' = (fkdns.getDomainFromFakeDNS ip).2

end Gzv2ray.Dns
