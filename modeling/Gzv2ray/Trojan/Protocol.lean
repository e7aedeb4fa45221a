import Gzv2ray.Net.AddressEncoding

/-!
# Packets of Trojan

A packet travels over a connection as its destination, the length of its payload,
a line break and the payload. The writer assembles a packet in one buffer; the
reader reads the payload into as many as it takes.

* `writePacket`: a packet as it is written, up to what the buffer takes;
* `PacketWriter.call`: the two calls of a writer;
* `readMultiBufferWithMetadata`: the reader.
-/

namespace Gzv2ray

namespace Trojan

def crlf : Bytes := [0x0d, 0x0a]

def addrParser : AddressParser :=
  .new [.addressFamilyByte 0x01 AddressOption.one_lt .ipv4,
    .addressFamilyByte 0x04 AddressOption.four_lt .ipv6,
    .addressFamilyByte 0x03 AddressOption.three_lt .domain]

def maxLength : ℕ := 8192

/-- What a call of a writer comes to: the bytes that it writes to the connection, and
    what it returns. -/
structure Written (α : Type) where
  bytes : Bytes
  result : Outcome α

/-! ## The writer -/

structure PacketWriter where
  target : Destination

/-- The buffer in which a packet is assembled, behind its address. Whatever does not
    fit is dropped. -/
def packetBuffer (address payload : Bytes) : Buffer :=
  let (buffer, _) := Buffer.new.write address
  let (buffer, _) := buffer.write (bigEndian 2 (UInt16.ofNat payload.length).toNat)
  let (buffer, _) := buffer.write crlf
  (buffer.write payload).1

/-- Writes a packet to the connection, which answers with an error or not. -/
def writePacket (answer : Option Error) (payload : Bytes) (dest : Destination) : Written ℕ :=
  match dest.address with
  | none => ⟨[], .panic⟩
  | some address =>
    match addrParser.writeAddressPort address dest.port with
    | .error e => ⟨[], .error e⟩
    | .ok b =>
      ⟨(packetBuffer b payload).bytes, match answer with
        | none => .ok payload.length
        | some e => .error e⟩

/-- The loop of both calls: every packet but the last has as many bytes as a packet
    may have. -/
def writeLoop (dest : Destination) : ℕ → (ℕ → Option Error) → MultiBuffer → Written Unit
  | 0, _, _ => ⟨[], .ok ()⟩
  | fuel + 1, answer, mb =>
    if MultiBuffer.isEmpty mb then ⟨[], .ok ()⟩
    else
      let (mb, b) := MultiBuffer.splitBytes mb maxLength
      match writePacket (answer 0) b dest with
      | ⟨out, .ok _⟩ =>
        let ⟨out', result⟩ := writeLoop dest fuel (fun k => answer (k + 1)) mb
        ⟨out ++ out', result⟩
      | ⟨out, .error e⟩ => ⟨out, .error e⟩
      | ⟨out, .panic⟩ => ⟨out, .panic⟩

namespace PacketWriter

/-- Every packet takes a byte at least. -/
def writeMultiBufferWithMetadata (answer : ℕ → Option Error) (mb : MultiBuffer)
    (dest : Destination) : Written Unit :=
  writeLoop dest (MultiBuffer.len mb + 1) answer mb

def writeMultiBuffer (w : PacketWriter) (answer : ℕ → Option Error) (mb : MultiBuffer) :
    Written Unit :=
  writeLoop w.target (MultiBuffer.len mb + 1) answer mb

end PacketWriter

/-! ## The reader -/

structure PacketPayload where
  target : Destination
  buffer : MultiBuffer

def failedToReadAddress : Error := newError "proxy/trojan" "failed to read address and port"

def failedToReadLength : Error := newError "proxy/trojan" "failed to read payload length"

def oversizePayload : Error := newError "proxy/trojan" "oversize payload"

def failedToReadCrlf : Error := newError "proxy/trojan" "failed to read crlf"

def failedToReadPayload : Error := newError "proxy/trojan" "failed to read payload"

/-- The loop of the reader: reads the bytes that remain, a buffer at a time. -/
def readPayload : ℕ → BufferedReader → ℕ → Except Error MultiBuffer × BufferedReader
  | 0, r, _ => (.ok [], r)
  | fuel + 1, r, remain =>
    if remain = 0 then (.ok [], r)
    else
      match readFullFrom BufferedReader.readFull [] r (min remain bufSize) with
      | (.error e, r) => (.error (failedToReadPayload.base e), r)
      | (.ok p, r) =>
        match readPayload fuel r (remain - p.length) with
        | (.ok mb, r) => (.ok ((Buffer.new.write p).1 :: mb), r)
        | (.error e, r) => (.error e, r)

/-- Reads what is behind an address: the length, the line break and the payload. -/
def readBody (r : BufferedReader) : Except Error MultiBuffer × BufferedReader :=
  match r.readFull 2 with
  | (.error e, r) => (.error (failedToReadLength.base e), r)
  | (.ok lengthBuf, r) =>
    let remain := ofBigEndian lengthBuf
    if remain > maxLength then (.error oversizePayload, r)
    else
      match r.readFull 2 with
      | (.error e, r) => (.error (failedToReadCrlf.base e), r)
      | (.ok _, r) => readPayload remain r remain

/-- Reads a packet with its destination. -/
def readMultiBufferWithMetadata (parseIP : Bytes → Option IPv6) (r : BufferedReader) :
    Except Error PacketPayload × BufferedReader :=
  match addrParser.readAddressPort parseIP BufferedReader.readFull [] r with
  | (.error e, r) => (.error (failedToReadAddress.base e), r)
  | (.ok (addr, port, _), r) =>
    match readBody r with
    | (.error e, r) => (.error e, r)
    | (.ok mb, r) => (.ok ⟨⟨addr, port, .udp⟩, mb⟩, r)

/-! ## Runs -/

/-- A call of the writer. -/
inductive Call
  | writeMultiBuffer (mb : MultiBuffer)
  | writeMultiBufferWithMetadata (mb : MultiBuffer) (dest : Destination)

/-- What a call does, given the answers of the connection. -/
def PacketWriter.call (w : PacketWriter) (answer : ℕ → Option Error) : Call → Written Unit
  | .writeMultiBuffer mb => w.writeMultiBuffer answer mb
  | .writeMultiBufferWithMetadata mb dest => writeMultiBufferWithMetadata answer mb dest

/-- The destination and the payload that a call is given. -/
def PacketWriter.given (w : PacketWriter) : Call → Destination × Bytes
  | .writeMultiBuffer mb => (w.target, MultiBuffer.bytes mb)
  | .writeMultiBufferWithMetadata mb dest => (dest, MultiBuffer.bytes mb)

/-- As many reads, one after another. -/
def readPackets (parseIP : Bytes → Option IPv6) :
    ℕ → BufferedReader → List (Except Error (Destination × Bytes))
  | 0, _ => []
  | n + 1, r =>
    match readMultiBufferWithMetadata parseIP r with
    | (.ok p, r) => .ok (p.target, MultiBuffer.bytes p.buffer) :: readPackets parseIP n r
    | (.error e, r) => .error e :: readPackets parseIP n r

end Trojan

end Gzv2ray
