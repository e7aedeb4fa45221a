import Gzv2ray.Crypto.Codec

/-!
# Writing an encrypted stream

`AuthenticationWriter` writes what it is given in chunks that fit in a `Buffer`:
in stream mode it cuts it, in packet mode every packet is a chunk, and one too
long is dropped. The empty `MultiBuffer` is written as a terminating chunk.

The writer also records what it sealed: the plaintexts of the chunks (`chunks`),
and all calls of the authenticator of the bodies (`seals`).
-/

namespace Gzv2ray

/-- The transfer type of a connection. -/
inductive TransferType
  | stream
  | packet
  deriving DecidableEq

/-- The chunk does not fit in a `Buffer`. -/
def sizeTooLargeError : Error := .new (ascii "size too large: ")

/-- There are too many buffers to be written. -/
def valueTooLargeError : Error := .new (ascii "value too large")

/-- The writer. -/
structure AuthenticationWriter (c : ChunkCodec) where
  transferType : TransferType
  st : CodecState := {}
  /-- The random bytes to come, for the padding. -/
  rand : ℕ → UInt8 := fun _ => 0
  /-- The plaintexts of the chunks sealed. -/
  chunks : List Bytes := []
  /-- The calls that seal of the authenticator of the bodies: how often it had been
      called before, and the plaintext. -/
  seals : List (Calls × Bytes) := []

namespace AuthenticationWriter

variable {c : ChunkCodec} (w : AuthenticationWriter c)

/-- What the authenticator of the bodies seals for a size. -/
def sizeSeals (c : ChunkCodec) (st : CodecState) (size : UInt16) : List (Calls × Bytes) :=
  match c.sizeParser with
  | .aeadOfBody => [(st.body, ChunkCodec.putUint16 (size - UInt16.ofNat c.auth.overhead))]
  | _ => []

/-- Seals a chunk: draws its padding, encodes its size and seals its body. -/
def seal_ (b : Bytes) : Outcome Bytes × AuthenticationWriter c :=
  let encryptedSize := b.length + c.auth.overhead
  let (paddingSize, st) := c.nextPaddingLen w.st
  if c.sizeBytes + encryptedSize + paddingSize.toNat > bufSize then
    (.error sizeTooLargeError, { w with st })
  else
    let size := UInt16.ofNat (encryptedSize + paddingSize.toNat)
    let seals := w.seals ++ sizeSeals c st size
    match c.encodeSize st size with
    | (.ok sizeBytes, st) =>
      match c.seal_ st b with
      | (.ok body, st') =>
        (.ok (sizeBytes ++ body ++ (List.range paddingSize.toNat).map w.rand), { w with
          st := st'
          rand := fun k => w.rand (paddingSize.toNat + k)
          chunks := w.chunks ++ [b]
          seals := seals ++ [(st.body, b)] })
      | (.error e, st) => (.error e, { w with st, seals })
    | (.error e, st) => (.error e, { w with st })
    | (.panic, st) => (.panic, { w with st })

/-- The most bytes of padding that are reckoned with. -/
def maxPadding (c : ChunkCodec) : ℕ := if c.padding then maxPaddingLen else 0

/-- The size of the pieces a stream is cut into. -/
def payloadSize (c : ChunkCodec) : ℕ := bufSize - c.auth.overhead - c.sizeBytes - maxPadding c

/-- The loop of `writeStream`: seals pieces until there are no bytes left. -/
def streamLoop : ℕ → AuthenticationWriter c → MultiBuffer → Outcome Bytes × AuthenticationWriter c
  | 0, w, _ => (.ok [], w)
  | fuel + 1, w, mb =>
    let (mb, rawBytes) := MultiBuffer.splitBytes mb (payloadSize c)
    match w.seal_ rawBytes with
    | (.ok eb, w) =>
      if MultiBuffer.isEmpty mb then (.ok eb, w)
      else
        match streamLoop fuel w mb with
        | (.ok out, w) => (.ok (eb ++ out), w)
        | r => r
    | r => r

/-- Writes in pieces. A piece takes at least a byte, which bounds the iterations. -/
def writeStream (mb : MultiBuffer) : Outcome Bytes × AuthenticationWriter c :=
  if mb.length + 10 > 64 * 1024 * 1024 then (.error valueTooLargeError, w)
  else streamLoop (MultiBuffer.len mb + 1) w mb

/-- The loop of `writePacket`: a packet that cannot be sealed is left out. -/
def packetLoop : AuthenticationWriter c → MultiBuffer → Outcome Bytes × AuthenticationWriter c
  | w, [] => (.ok [], w)
  | w, b :: mb =>
    if b.isEmpty then packetLoop w mb
    else
      match w.seal_ b.bytes with
      | (.ok eb, w) =>
        match packetLoop w mb with
        | (.ok out, w) => (.ok (eb ++ out), w)
        | r => r
      | (.error _, w) => packetLoop w mb
      | (.panic, w) => (.panic, w)

/-- Writes packet by packet. -/
def writePacket (mb : MultiBuffer) : Outcome Bytes × AuthenticationWriter c :=
  if mb.length + 1 > 64 * 1024 * 1024 then (.error valueTooLargeError, w)
  else packetLoop w mb

/-- The bytes that a write puts on the transport. The error of sealing an empty
    chunk is a panic. -/
def writeMultiBuffer (mb : MultiBuffer) : Outcome Bytes × AuthenticationWriter c :=
  if MultiBuffer.isEmpty mb then
    match w.seal_ [] with
    | (.error _, w) => (.panic, w)
    | r => r
  else
    match w.transferType with
    | .stream => w.writeStream mb
    | .packet => w.writePacket mb

/-- Writes one after the other: those that return an error put nothing on the
    transport. -/
def writes : AuthenticationWriter c → List MultiBuffer → Outcome Bytes × AuthenticationWriter c
  | w, [] => (.ok [], w)
  | w, mb :: mbs =>
    match w.writeMultiBuffer mb with
    | (.ok out, w) =>
      match writes w mbs with
      | (.ok out', w) => (.ok (out ++ out'), w)
      | r => r
    | (.error _, w) => writes w mbs
    | (.panic, w) => (.panic, w)

end AuthenticationWriter

end Gzv2ray
