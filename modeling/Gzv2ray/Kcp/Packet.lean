import Gzv2ray.Kcp.Segment
import Gzv2ray.Kcp.SimpleAuthenticator

/-!
# KCP packets

Segments as bytes, and the datagrams that carry them: a header, and the segments,
sealed under a nonce or as they are.

* `Segment.serialize`, `readSegment`: the codec. Each access of the parser to its
  bytes is one that may be out of range;
* `KCPPacketWriter.write`, `KCPPacketReader.read`: the datagrams. A datagram is written
  in a buffer, which may be too short for it.
-/

namespace Gzv2ray.Kcp

/-! ## Segments -/

namespace Segment

/-- The number of bytes of a segment. -/
def byteSize : Segment → ℕ
  | data seg => 2 + 1 + 1 + 4 + 4 + 4 + 2 + seg.payload.len
  | ack seg => 2 + 1 + 1 + 4 + 4 + 4 + 1 + seg.numberList.length * 4
  | cmdOnly _ => 2 + 1 + 1 + 4 + 4 + 4

def serialize : Segment → Bytes
  | data seg => bigEndian 2 seg.conv.toNat ++ [commandData, seg.option] ++
    bigEndian 4 seg.timestamp.toNat ++ bigEndian 4 seg.number.toNat ++
    bigEndian 4 seg.sendingNext.toNat ++ bigEndian 2 (seg.payload.len % 2 ^ 16) ++ seg.payload.bytes
  | ack seg => bigEndian 2 seg.conv.toNat ++ [commandACK, seg.option] ++
    bigEndian 4 seg.receivingWindow.toNat ++ bigEndian 4 seg.receivingNext.toNat ++
    bigEndian 4 seg.timestamp.toNat ++ [UInt8.ofNat seg.numberList.length] ++
    seg.numberList.flatMap fun number => bigEndian 4 number.toNat
  | cmdOnly seg => bigEndian 2 seg.conv.toNat ++ [seg.cmd, seg.option] ++
    bigEndian 4 seg.sendingNext.toNat ++ bigEndian 4 seg.receivingNext.toNat ++
    bigEndian 4 seg.peerRTO.toNat

/-- The bytes of a segment, in a buffer that is extended by as many. -/
def rawBytes (seg : Segment) : Outcome Bytes :=
  if seg.byteSize > bufSize then .panic else .ok seg.serialize

@[simp] theorem length_serialize (seg : Segment) : seg.serialize.length = seg.byteSize := by
  cases seg with
  | data seg =>
    simp only [serialize, byteSize, List.length_append, length_bigEndian, List.length_cons,
      List.length_nil, Buffer.len]
  | ack seg =>
    simp only [serialize, byteSize, List.length_append, length_bigEndian, List.length_cons,
      List.length_nil, List.length_flatMap, List.map_const', List.sum_replicate, smul_eq_mul]
  | cmdOnly seg =>
    simp only [serialize, byteSize, List.length_append, length_bigEndian, List.length_cons,
      List.length_nil]

end Segment

/-! ## Parsing -/

/-- `b[n:]` -/
def sliceFrom (n : ℕ) (b : Bytes) : Outcome Bytes := if n ≤ b.length then .ok (b.drop n) else .panic

/-- `b[0]` -/
def byteAt (b : Bytes) : Outcome UInt8 :=
  match b with
  | [] => .panic
  | x :: _ => .ok x

def getUint16 (b : Bytes) : Outcome UInt16 :=
  if 2 ≤ b.length then .ok (UInt16.ofNat (ofBigEndian (b.take 2))) else .panic

def getUint32 (b : Bytes) : Outcome UInt32 :=
  if 4 ≤ b.length then .ok (UInt32.ofNat (ofBigEndian (b.take 4))) else .panic

def DataSegment.parse (conv : UInt16) (opt : SegmentOption) (b : Bytes) :
    Outcome (Option (DataSegment × Bytes)) := do
  if b.length < 15 then pure none
  else
    let timestamp ← getUint32 b
    let b ← sliceFrom 4 b
    let number ← getUint32 b
    let b ← sliceFrom 4 b
    let sendingNext ← getUint32 b
    let b ← sliceFrom 4 b
    let dataLen ← getUint16 b
    let b ← sliceFrom 2 b
    if b.length < dataLen.toNat then pure none
    else
      let payload := (Buffer.new.write (b.take dataLen.toNat)).1
      pure (some ({ conv, option := opt, timestamp, number, sendingNext, payload },
        b.drop dataLen.toNat))

/-- The numbers of an acknowledgement. -/
def numbersLoop : ℕ → Bytes → Outcome (List UInt32 × Bytes)
  | 0, b => pure ([], b)
  | count + 1, b => do
    let number ← getUint32 b
    let b ← sliceFrom 4 b
    let (numbers, b) ← numbersLoop count b
    pure (number :: numbers, b)

def AckSegment.parse (conv : UInt16) (opt : SegmentOption) (b : Bytes) :
    Outcome (Option (AckSegment × Bytes)) := do
  if b.length < 13 then pure none
  else
    let receivingWindow ← getUint32 b
    let b ← sliceFrom 4 b
    let receivingNext ← getUint32 b
    let b ← sliceFrom 4 b
    let timestamp ← getUint32 b
    let b ← sliceFrom 4 b
    let count ← byteAt b
    let b ← sliceFrom 1 b
    if b.length < count.toNat * 4 then pure none
    else
      let (numberList, b) ← numbersLoop count.toNat b
      pure (some ({ conv, option := opt, receivingWindow, receivingNext, timestamp, numberList }, b))

def CmdOnlySegment.parse (conv : UInt16) (cmd : Command) (opt : SegmentOption) (b : Bytes) :
    Outcome (Option (CmdOnlySegment × Bytes)) := do
  if b.length < 12 then pure none
  else
    let sendingNext ← getUint32 b
    let b ← sliceFrom 4 b
    let receivingNext ← getUint32 b
    let b ← sliceFrom 4 b
    let peerRTO ← getUint32 b
    let b ← sliceFrom 4 b
    pure (some ({ conv, cmd, option := opt, sendingNext, receivingNext, peerRTO }, b))

/-- A segment and what follows it, if the bytes begin with one. -/
def readSegment (b : Bytes) : Outcome (Option (Segment × Bytes)) := do
  if b.length < 4 then pure none
  else
    let conv ← getUint16 b
    let b ← sliceFrom 2 b
    let cmd ← byteAt b
    let opt ← sliceFrom 1 b >>= byteAt
    let b ← sliceFrom 2 b
    if cmd = commandData then
      let seg ← DataSegment.parse conv opt b
      pure (seg.map fun (seg, b) => (.data seg, b))
    else if cmd = commandACK then
      let seg ← AckSegment.parse conv opt b
      pure (seg.map fun (seg, b) => (.ack seg, b))
    else
      let seg ← CmdOnlySegment.parse conv cmd opt b
      pure (seg.map fun (seg, b) => (.cmdOnly seg, b))

/-! ## Datagrams -/

/-- The header of the datagrams: the `n`-th one has so many bytes. -/
structure PacketHeader where
  size : ℕ
  serialize : ℕ → Bytes
  length_serialize : ∀ n, (serialize n).length = size

structure KCPPacketWriter where
  header : Option PacketHeader
  security : Option AEAD

namespace KCPPacketWriter

variable (w : KCPPacketWriter)

def headerSize : ℕ := w.header.elim 0 PacketHeader.size

def nonceSize : ℕ := w.security.elim 0 AEAD.nonceSize

/-- What a datagram has besides its segment, but for the nonce. -/
def overhead : ℕ := w.headerSize + w.security.elim 0 AEAD.overhead

/-- The `n`-th datagram, with the nonce drawn for it. What is sealed is written to the buffer,
    which has room for the padding of `SimpleAuthenticator` too (`datagram_fits`). -/
def write (n : ℕ) (nonce b : Bytes) : Outcome Bytes :=
  let header := w.header.elim [] (·.serialize n)
  match w.security with
  | some aead =>
    if header.length + aead.nonceSize + aead.overhead + b.length > bufSize then .panic
    else .ok (header ++ nonce ++ aead.seal_ nonce b [])
  | none =>
    if header.length > bufSize then .panic
    else .ok (header ++ b.take (bufSize - header.length))

end KCPPacketWriter

structure KCPPacketReader where
  security : Option AEAD
  header : Option PacketHeader

namespace KCPPacketReader

variable (r : KCPPacketReader)

/-- The segments that bytes begin with; nothing if there are more rounds than `fuel`. -/
def readLoop : ℕ → Bytes → Option (Outcome (List Segment))
  | 0, b => if b.isEmpty then some (.ok []) else none
  | fuel + 1, b =>
    if b.isEmpty then some (.ok [])
    else
      match readSegment b with
      | .ok none => some (.ok [])
      | .ok (some (seg, x)) => (readLoop fuel x).map fun out => out.bind fun segs => .ok (seg :: segs)
      | .error e => some (.error e)
      | .panic => some .panic

/-- What is left of a datagram without its header. -/
def stripHeader (b : Bytes) : Option Bytes :=
  match r.header with
  | none => some b
  | some header => if b.length ≤ header.size then none else some (b.drop header.size)

def read (fuel : ℕ) (b : Bytes) : Option (Outcome (List Segment)) :=
  match r.stripHeader b with
  | none => some (.ok [])
  | some b =>
    match r.security with
    | none => readLoop fuel b
    | some aead =>
      if b.length ≤ aead.nonceSize + aead.overhead then some (.ok [])
      else
        match aead.open_ (b.take aead.nonceSize) (b.drop aead.nonceSize) [] with
        | .ok out => readLoop fuel out
        | .error _ => some (.ok [])
        | .panic => some .panic

end KCPPacketReader

end Gzv2ray.Kcp
