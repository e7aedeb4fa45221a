import Gzv2ray.Crypto.Codec

/-!
# Reading an encrypted stream

`AuthenticationReader` reads a stream of chunks: the size of a chunk, then its
body, which is padded. It reads a first chunk whatever it takes, and then those
that are there already (the *soft* reads).

`ReadCall.events` records what became of the chunks met in a call, whatever the
call returned of it: the plaintext of a body, or why there is none.
-/

namespace Gzv2ray

/-- What a step of the reader comes to. -/
inductive ChunkEvent
  /-- The chunk is not all there. -/
  | soft
  /-- The terminating chunk. -/
  | eof
  /-- There is no size to be read. -/
  | ended (e : Error)
  /-- The size cannot be decoded. -/
  | badSize (e : Error)
  /-- Decoding the size panics. -/
  | panic
  /-- A body of the given size and padding: its plaintext, or else the error of
      reading or of opening it. -/
  | body (size padding : UInt16) (out : Outcome Bytes)
  deriving DecidableEq

namespace ChunkEvent

/-- What the step returns. The error of a body that is read in a `Buffer` is not
    returned. -/
def outcome : ChunkEvent → Outcome Unit
  | soft => .error .errSoft
  | eof => .error .eof
  | ended e => .error e
  | badSize e => .error e
  | panic => .panic
  | body _ _ (.ok _) => .ok ()
  | body size _ (.error e) => if size.toNat ≤ bufSize then .ok () else .error e
  | body _ _ .panic => .panic

/-- What the step appends to the buffers to be returned. -/
def append (mb : MultiBuffer) : ChunkEvent → MultiBuffer
  | body size _ (.ok plainText) =>
    if size.toNat ≤ bufSize then mb ++ [(Buffer.new.write plainText).1]
    else MultiBuffer.mergeBytes mb plainText
  | _ => mb

end ChunkEvent

/-- A call of `ReadMultiBuffer`: what it returns, and the chunks it met. -/
structure ReadCall where
  result : Outcome MultiBuffer
  events : List ChunkEvent
  deriving DecidableEq

/-- The bytes of a buffer up to the position `n`, counted from its end if `n` is
    negative; nothing if that is out of range. -/
def bytesTo (b : Bytes) (n : ℤ) : Option Bytes :=
  let n := if n < 0 then n + b.length else n
  if n < 0 then none else some (b.take n.toNat)

theorem bytesTo_of_nonneg (b : Bytes) {n : ℤ} (h : 0 ≤ n) : bytesTo b n = some (b.take n.toNat) := by
  have h' : ¬ n < 0 := not_lt.2 h
  simp [bytesTo, h']

theorem isPrefix_of_bytesTo {b cipherText : Bytes} {n : ℤ} (h : bytesTo b n = some cipherText) :
    cipherText <+: b := by
  unfold bytesTo at h
  dsimp only at h
  generalize (if n < 0 then n + (b.length : ℤ) else n) = m at h
  split at h
  · cases h
  · cases h; exact List.take_prefix _ _

/-- Opens a body of the given size and padding. -/
def ChunkCodec.openBody (c : ChunkCodec) (st : CodecState) (size padding : UInt16) (b : Bytes) :
    Outcome Bytes × CodecState :=
  if size.toNat ≤ bufSize then
    match bytesTo b ((size.toNat : ℤ) - padding.toNat) with
    | none => (.panic, st)
    | some cipherText => c.open_ st cipherText
  else c.open_ st (b.take (size - padding).toNat)

/-- The reader. -/
structure AuthenticationReader (c : ChunkCodec) where
  reader : BufferedReader
  st : CodecState := {}
  size : UInt16 := 0
  paddingLen : UInt16 := 0
  hasSize : Bool := false
  done : Bool := false
  /-- What the byte pool hands out next, fresh slices left aside: `Free` puts
      pointers in it, on which `Alloc` panics. -/
  pool : List Bool := []

namespace AuthenticationReader

variable {c : ChunkCodec} (r : AuthenticationReader c)

/-- The size and the padding of the next chunk, or why there are none. -/
def readSize : Except ChunkEvent (UInt16 × UInt16) × AuthenticationReader c :=
  if r.hasSize then (.ok (r.size, r.paddingLen), { r with hasSize := false })
  else
    match r.reader.readFull c.sizeBytes with
    | (.error e, reader) => (.error (.ended e), { r with reader })
    | (.ok b, reader) =>
      let (padding, st) := c.nextPaddingLen r.st
      match c.decodeSize st b with
      | (.ok size, st) => (.ok (size, padding), { r with reader, st })
      | (.error e, st) => (.error (.badSize e), { r with reader, st })
      | (.panic, st) => (.error .panic, { r with reader, st })

/-- Reads a body and opens it. -/
def readBuffer (size padding : UInt16) : Outcome Bytes × AuthenticationReader c :=
  match r.reader.readFull size.toNat with
  | (.error e, reader) => (.error e, { r with reader })
  | (.ok b, reader) =>
    let (out, st) := c.openBody r.st size padding b
    (out, { r with reader, st })

/-- Reads a body and opens it, in a `Buffer` or in a slice of the byte pool. -/
def readBody (size padding : UInt16) : Outcome Bytes × AuthenticationReader c :=
  if size.toNat ≤ bufSize then r.readBuffer size padding
  else
    match r.pool with
    | true :: pool => (.panic, { r with pool })
    | _ => { r with pool := r.pool.tail }.readBuffer size padding

/-- One step: a soft one reads only what is there. -/
def readInternal (soft : Bool) : ChunkEvent × AuthenticationReader c :=
  if soft ∧ r.reader.bufferedBytes < c.sizeBytes then (.soft, r)
  else if r.done then (.eof, r)
  else
    match r.readSize with
    | (.error event, r) => (event, r)
    | (.ok (size, padding), r) =>
      if size = UInt16.ofNat c.auth.overhead + padding then (.eof, { r with done := true })
      else if soft ∧ size.toNat > r.reader.bufferedBytes then
        (.soft, { r with size, paddingLen := padding, hasSize := true })
      else
        let (out, r) := r.readBody size padding
        (.body size padding out, r)

/-- The soft steps of a call, at most as many as given. -/
def readLoop : ℕ → AuthenticationReader c → MultiBuffer → ReadCall × AuthenticationReader c
  | 0, r, mb => (⟨.ok mb, []⟩, r)
  | n + 1, r, mb =>
    let (event, r) := r.readInternal true
    match event.outcome with
    | .ok _ =>
      let (call, r) := readLoop n r (event.append mb)
      ({ call with events := event :: call.events }, r)
    | .error e =>
      if e = .errSoft ∨ e.text = Error.eof.text then (⟨.ok mb, []⟩, r)
      else (⟨.error e, [event]⟩, r)
    | .panic => (⟨.panic, [event]⟩, r)

/-- Reads a chunk, and those that are there already, 16 in all at most. -/
def readMultiBuffer : ReadCall × AuthenticationReader c :=
  let (event, r) := r.readInternal false
  match event.outcome with
  | .ok _ =>
    let (call, r) := readLoop 15 r (event.append [])
    ({ call with events := event :: call.events }, r)
  | .error e => (⟨.error e, [event]⟩, r)
  | .panic => (⟨.panic, [event]⟩, r)

end AuthenticationReader

end Gzv2ray
