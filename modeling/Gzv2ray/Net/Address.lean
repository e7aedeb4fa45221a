import Gzv2ray.Buf.Reader
import Gzv2ray.Lib.BigEndian

/-!
# Addresses on the wire

An `Address` is written after or before a port, as its type, its length if it is
a domain, and its bytes. The format is that of an `AddressParser`, which the
protocols configure.

* `Address.canonical`: the address that is read back, a domain that is an IP
  address in disguise being read as that address;
* `AddressParser.new`: the parser that some options configure;
* `AddressParser.readAddressPort`, `AddressParser.writeAddressPort`: the format.

The function `net.ParseIP` of the standard library is a parameter.
-/

namespace Gzv2ray

/-! ## Addresses -/

/-- The bytes of an IPv4 address. -/
abbrev IPv4 := { b : Bytes // b.length = 4 }

/-- The bytes of an IPv6 address. -/
abbrev IPv6 := { b : Bytes // b.length = 16 }

inductive Address
  | ipv4 (ip : IPv4)
  | ipv6 (ip : IPv6)
  | domain (name : Bytes)
  deriving DecidableEq

inductive AddressFamily
  | ipv4
  | ipv6
  | domain
  deriving DecidableEq

namespace Address

def family : Address → AddressFamily
  | ipv4 _ => .ipv4
  | ipv6 _ => .ipv6
  | domain _ => .domain

/-- The address `a.b.c.d`. -/
def ofIPv4Bytes (a b c d : UInt8) : Address := .ipv4 ⟨[a, b, c, d], rfl⟩

/-- An IPv4 address that is mapped to an IPv6 address. -/
def IsMapped (ip : IPv6) : Prop :=
  ip.1.take 10 = List.replicate 10 0 ∧ ip.1.getD 10 0 = 0xff ∧ ip.1.getD 11 0 = 0xff

instance (ip : IPv6) : Decidable (IsMapped ip) := inferInstanceAs (Decidable (_ ∧ _))

/-- The address of sixteen bytes; a mapped IPv4 address is one of four bytes. -/
def ofIPv6 (ip : IPv6) : Address :=
  if IsMapped ip then .ipv4 ⟨ip.1.drop 12, by rw [List.length_drop, ip.2]⟩ else .ipv6 ip

end Address

def isAlphaNum (c : UInt8) : Bool :=
  (0x30 ≤ c && c ≤ 0x39) || (0x61 ≤ c && c ≤ 0x7a) || (0x41 ≤ c && c ≤ 0x5a)

/-- A digit, or an opening bracket. -/
def maybeIPPrefix (b : UInt8) : Bool := b == 0x5b || (0x30 ≤ b && b ≤ 0x39)

/-- A letter, a digit, a hyphen, a dot or an underscore. -/
def isDomainChar (c : UInt8) : Bool := isAlphaNum c || c == 0x2d || c == 0x2e || c == 0x5f

def isValidDomain (d : Bytes) : Bool := d.all isDomainChar

/-- The white space characters, in UTF-8. -/
def spaces : List Bytes :=
  [[0x09], [0x0a], [0x0b], [0x0c], [0x0d], [0x20], [0xc2, 0x85], [0xc2, 0xa0], [0xe1, 0x9a, 0x80],
    [0xe2, 0x80, 0x80], [0xe2, 0x80, 0x81], [0xe2, 0x80, 0x82], [0xe2, 0x80, 0x83],
    [0xe2, 0x80, 0x84], [0xe2, 0x80, 0x85], [0xe2, 0x80, 0x86], [0xe2, 0x80, 0x87],
    [0xe2, 0x80, 0x88], [0xe2, 0x80, 0x89], [0xe2, 0x80, 0x8a], [0xe2, 0x80, 0xa8],
    [0xe2, 0x80, 0xa9], [0xe2, 0x80, 0xaf], [0xe2, 0x81, 0x9f], [0xe3, 0x80, 0x80]]

/-- Drops the given characters from the front. -/
def trimLeft (chars : List Bytes) : ℕ → Bytes → Bytes
  | 0, s => s
  | fuel + 1, s =>
    match chars.find? (·.isPrefixOf s) with
    | none => s
    | some char => trimLeft chars fuel (s.drop char.length)

/-- Drops white space from both ends. -/
def trimSpace (s : Bytes) : Bytes :=
  let s := trimLeft spaces s.length s
  (trimLeft (spaces.map List.reverse) s.length s.reverse).reverse

section

variable (parseIP : Bytes → Option IPv6)

/-- The address that a string stands for. -/
def parseAddress (addr : Bytes) : Address :=
  let addr := if addr.head? == some 0x5b && addr.getLast? == some 0x5d then addr.tail.dropLast else addr
  let addr := if !addr.isEmpty && (!isAlphaNum (addr.headD 0) || !isAlphaNum (addr.getLastD 0)) then
    trimSpace addr else addr
  match parseIP addr with
  | some ip => Address.ofIPv6 ip
  | none => .domain addr

/-- The string is an IP address in disguise. -/
def isIPLiteral (name : Bytes) : Bool :=
  maybeIPPrefix (name.headD 0) && (parseAddress parseIP name).family != .domain

/-- The address that is read where the given one was written. -/
def Address.canonical : Address → Address
  | .ipv4 ip => .ipv4 ip
  | .ipv6 ip => ofIPv6 ip
  | .domain name => if isIPLiteral parseIP name then parseAddress parseIP name else .domain name

end

/-- The address of some bytes, if there are as many as an address has. -/
def ipAddress (ip : Bytes) : Option Address :=
  if h : ip.length = 4 then some (.ipv4 ⟨ip, h⟩)
  else if h : ip.length = 16 then some (.ofIPv6 ⟨ip, h⟩)
  else none

/-! ## Destinations -/

inductive Network
  | unknown
  | rawTCP
  | tcp
  | udp
  | unix
  deriving DecidableEq

/-- A destination. It may lack an address. -/
structure Destination where
  address : Option Address := none
  port : UInt16 := 0
  network : Network := .unknown
  deriving DecidableEq

/-! ## Parsers -/

def outOfBound : Error := .new (ascii "out of bound: ")

/-- `io.ReadFull` from the content of a buffer. -/
def readFullBytes (input : Bytes) (n : ℕ) : Except Error Bytes × Bytes :=
  if n ≤ input.length then (.ok (input.take n), input.drop n)
  else (.error (if input.isEmpty then .eof else .unexpectedEOF), [])

/-- Reads exactly as many bytes behind those in a buffer. -/
def readFullFrom {ι : Type} (readFull : ι → ℕ → Except Error Bytes × ι) (b : Bytes) (input : ι)
    (size : ℕ) : Except Error Bytes × ι :=
  if b.length + size > bufSize then (.error outOfBound, input)
  else
    match readFull input size with
    | (.ok p, input) => (.ok (b ++ p), input)
    | (.error e, input) => (.error e, input)

/-- The last bytes of a buffer. None of them is all of them. -/
def bytesFromEnd (b : Bytes) (n : ℕ) : Bytes := if n = 0 then b else b.drop (b.length - n)

/-- The format of addresses: the bytes of the families, and whether the port comes
    first. -/
structure AddressParser where
  addrTypeMap : UInt8 → Option AddressFamily := fun _ => none
  addrByteMap : AddressFamily → Option UInt8 := fun _ => none
  portFirst : Bool := false
  typeParser : Option (UInt8 → UInt8) := none

/-- An option of a parser. The bytes of the families are below 16. -/
inductive AddressOption
  | portThenAddress
  | addressFamilyByte (b : UInt8) (h : b < 16) (f : AddressFamily)
  | withAddressTypeParser (atp : UInt8 → UInt8)

namespace AddressOption

theorem one_lt : (1 : UInt8) < 16 := by decide

theorem two_lt : (2 : UInt8) < 16 := by decide

theorem three_lt : (3 : UInt8) < 16 := by decide

theorem four_lt : (4 : UInt8) < 16 := by decide

end AddressOption

def AddressOption.apply (p : AddressParser) : AddressOption → AddressParser
  | portThenAddress => { p with portFirst := true }
  | addressFamilyByte b _ f => { p with
      addrTypeMap := Function.update p.addrTypeMap b (some f)
      addrByteMap := Function.update p.addrByteMap f (some b) }
  | withAddressTypeParser atp => { p with typeParser := some atp }

namespace AddressParser

/-- The parser with the given options. -/
def new (options : List AddressOption) : AddressParser := options.foldl AddressOption.apply {}

variable (p : AddressParser)

/-- The type that a byte stands for. -/
def parseType (addrType : UInt8) : UInt8 :=
  match p.typeParser with
  | some typeParser => typeParser addrType
  | none => addrType

def unknownAddressType : Error := .new (ascii "unknown address type: ")

def unknownAddressFamily : Error := .new (ascii "unknown address family")

def invalidDomainName : Error := .new (ascii "invalid domain name: ")

def superLongDomain : Error := .new (ascii "Super long domain is not supported: ")

/-! ### Reading -/

section

variable (parseIP : Bytes → Option IPv6) {ι : Type} (readFull : ι → ℕ → Except Error Bytes × ι)

/-- The address of a domain that was read. -/
def domainAddress (name : Bytes) : Except Error Address :=
  if isIPLiteral parseIP name then .ok (parseAddress parseIP name)
  else if !isValidDomain name then .error invalidDomainName
  else .ok (.domain name)

/-- Reads an IP address of as many bytes. -/
def readIP (size : ℕ) (b : Bytes) (input : ι) : Except Error (Option Address × Bytes) × ι :=
  match readFullFrom readFull b input size with
  | (.ok b, input) => (.ok (ipAddress (bytesFromEnd b size), b), input)
  | (.error e, input) => (.error e, input)

/-- Reads a domain, after its length. -/
def readDomain (b : Bytes) (input : ι) : Except Error (Option Address × Bytes) × ι :=
  match readFullFrom readFull b input 1 with
  | (.error e, input) => (.error e, input)
  | (.ok b, input) =>
    let domainLength := (b.getLastD 0).toNat
    match readFullFrom readFull b input domainLength with
    | (.error e, input) => (.error e, input)
    | (.ok b, input) =>
      match domainAddress parseIP (bytesFromEnd b domainLength) with
      | .ok addr => (.ok (some addr, b), input)
      | .error e => (.error e, input)

/-- Reads an address, after its type. -/
def readAddress (b : Bytes) (input : ι) : Except Error (Option Address × Bytes) × ι :=
  match readFullFrom readFull b input 1 with
  | (.error e, input) => (.error e, input)
  | (.ok b, input) =>
    let addrType := p.parseType (b.getLastD 0)
    if addrType ≥ 16 then (.error unknownAddressType, input)
    else
      match p.addrTypeMap addrType with
      | none => (.error unknownAddressType, input)
      | some .ipv4 => readIP readFull 4 b input
      | some .ipv6 => readIP readFull 16 b input
      | some .domain => readDomain parseIP readFull b input

def readPort (b : Bytes) (input : ι) : Except Error (UInt16 × Bytes) × ι :=
  match readFullFrom readFull b input 2 with
  | (.ok b, input) => (.ok (UInt16.ofNat (ofBigEndian (bytesFromEnd b 2)), b), input)
  | (.error e, input) => (.error e, input)

/-- Reads an address and a port, and the bytes of both behind those in a buffer. -/
def readAddressPort (b : Bytes) (input : ι) : Except Error (Option Address × UInt16 × Bytes) × ι :=
  if p.portFirst then
    match readPort readFull b input with
    | (.error e, input) => (.error e, input)
    | (.ok (port, b), input) =>
      match p.readAddress parseIP readFull b input with
      | (.error e, input) => (.error e, input)
      | (.ok (addr, b), input) => (.ok (addr, port, b), input)
  else
    match p.readAddress parseIP readFull b input with
    | (.error e, input) => (.error e, input)
    | (.ok (addr, b), input) =>
      match readPort readFull b input with
      | (.error e, input) => (.error e, input)
      | (.ok (port, b), input) => (.ok (addr, port, b), input)

end

/-! ### Writing -/

/-- A domain that is too long to be written. -/
def isDomainTooLong (name : Bytes) : Bool := name.length > 256

def writeAddress (addr : Address) : Except Error Bytes :=
  match p.addrByteMap addr.family with
  | none => .error unknownAddressFamily
  | some tb =>
    match addr with
    | .ipv4 ip => .ok (tb :: ip.1)
    | .ipv6 ip => .ok (tb :: ip.1)
    | .domain name =>
      if isDomainTooLong name then .error superLongDomain
      else .ok (tb :: UInt8.ofNat name.length :: name)

def writePort (port : UInt16) : Bytes := bigEndian 2 port.toNat

def writeAddressPort (addr : Address) (port : UInt16) : Except Error Bytes :=
  match p.writeAddress addr with
  | .error e => .error e
  | .ok a => .ok (if p.portFirst then writePort port ++ a else a ++ writePort port)

end AddressParser

/-- The format of the protocols that write the port first. -/
def addrParser : AddressParser :=
  .new [.addressFamilyByte 1 AddressOption.one_lt .ipv4,
    .addressFamilyByte 2 AddressOption.two_lt .domain,
    .addressFamilyByte 3 AddressOption.three_lt .ipv6, .portThenAddress]

end Gzv2ray
