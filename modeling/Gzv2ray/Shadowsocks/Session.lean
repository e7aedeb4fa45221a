import Gzv2ray.Buf.Nested
import Gzv2ray.Crypto.AuthReader
import Gzv2ray.Crypto.AuthWriter
import Gzv2ray.Net.AddressDecoder
import Gzv2ray.Protocol.Drain
import Gzv2ray.Shadowsocks.Protocol
import Gzv2ray.Vmess.AuthID

/-!
# Sessions of Shadowsocks

A connection starts with the initial vector of its cipher. What follows is a stream
of chunks, sealed by an AEAD (`BodyReader`) or not encrypted at all, which starts
with the destination.

* `writeTCPRequest`, `writeTCPResponse`: the start of a session and of its answer;
* `readTCPSession`: reads a session on the server; one that is rejected is drained;
* `readTCPResponse`: reads the answer on the client.

The destination is read through a buffered reader that is handed on with what it
has left.
-/

namespace Gzv2ray.Shadowsocks

/-! ## Readers of bodies -/

/-- The chunks of a connection, whose sizes are sealed as their bodies are. -/
def AEADCipher.chunkCodec (c : AEADCipher) (pr : Primitives) (key iv : Bytes) : ChunkCodec where
  auth := c.createAuthenticator pr key iv
  sizeParser := .aeadOfBody
  padding := false
  shake _ := 0

/-- A reader of a connection: it decrypts, or it is the connection itself. -/
inductive BodyReader
  | decrypting (c : ChunkCodec) (r : AuthenticationReader c)
  | plain (r : BufferedReader)

namespace BodyReader

/-- The connection below. -/
def connection : BodyReader → BufferedReader
  | decrypting _ r => r.reader
  | plain r => r

def readMultiBuffer : MultiReader BodyReader
  | decrypting c r =>
    let (call, r) := r.readMultiBuffer
    (call.result, decrypting c r)
  | plain r =>
    let (out, r) := r.readBuffers
    (out, plain r)

end BodyReader

/-- `NewDecryptionReader`, with the slices that the byte pool hands out. -/
def Cipher.newDecryptionReader (pr : Primitives) (key iv : Bytes) (pool : List Bool)
    (reader : BufferedReader) : Cipher → BodyReader
  | aead c => .decrypting (c.chunkCodec pr key iv) { reader, pool }
  | none => .plain reader

/-! ## Writers of bodies -/

/-- A writer of a connection: it encrypts, or it is the connection itself. -/
inductive BodyWriter
  | encrypting (c : ChunkCodec) (w : AuthenticationWriter c)
  | plain

namespace BodyWriter

/-- The bytes that a write puts on the connection. -/
def writeMultiBuffer (mb : MultiBuffer) : BodyWriter → Outcome Bytes × BodyWriter
  | encrypting c w =>
    let (out, w) := w.writeMultiBuffer mb
    (out, encrypting c w)
  | plain => (.ok (MultiBuffer.bytes mb), plain)

/-- Writes one after the other: those that return an error put nothing on the connection. -/
def writes : BodyWriter → List MultiBuffer → Outcome Bytes × BodyWriter
  | w, [] => (.ok [], w)
  | w, mb :: mbs =>
    match w.writeMultiBuffer mb with
    | (.ok out, w) =>
      match writes w mbs with
      | (.ok out', w) => (.ok (out ++ out'), w)
      | r => r
    | (.error _, w) => writes w mbs
    | (.panic, w) => (.panic, w)

end BodyWriter

/-- `NewEncryptionWriter` -/
def Cipher.newEncryptionWriter (pr : Primitives) (key iv : Bytes) : Cipher → BodyWriter
  | aead c => .encrypting (c.chunkCodec pr key iv) { transferType := .stream }
  | none => .plain

/-! ## Initial vectors -/

/-- What a server is made of: its primitives, the code of the accounts that the dice are seeded
    with, the filter of initial vectors and the parser of addresses. -/
structure Setup (Φ : Type) where
  primitives : Primitives
  hmacSHA256 : (key message : Bytes) → Bytes
  check : Φ → Bytes → Bool × Φ
  parseIP : Bytes → Option IPv6

variable {Φ : Type} (setup : Setup Φ)

/-- `CheckIV`: without a filter, every vector is accepted. -/
def checkIV (filter : Option Φ) (iv : Bytes) : Option Error × Option Φ :=
  match filter with
  | none => (none, none)
  | some filter =>
    match setup.check filter iv with
    | (true, filter) => (none, some filter)
    | (false, filter) => (some (newError "IV is not unique"), some filter)

/-- The initial vector is read if the cipher has one. -/
def readIV (ivLen : ℕ) : Reading BufferedReader Bytes :=
  if 0 < ivLen then do
    Reading.readFullFrom BufferedReader.readInto ivLen
    Reading.bytesTo ivLen
  else pure []

/-! ## Reading sessions -/

/-- What comes of a session: it is opened, or it is rejected, with what is left of the connection. -/
inductive Session
  | opened (request : RequestHeader) (reader : NestedReader BodyReader)
  | rejected (e : Error) (connection : BufferedReader)
  | panicked
  | endless

/-- What is drawn for a session of an account. -/
def drainBehavior (dice : Dice) (account : MemoryAccount) : DrainBehavior :=
  dice.drainBehavior
    (Vmess.checksumIEEE (setup.hmacSHA256 (ascii "SSBSKDF") account.key)).toNat

/-- Drains the connection of what remains, less what is in the buffer. -/
def reject (readSizeRemain : ℤ) (buffer : Buffer) (connection : BufferedReader) (e : Error) :
    Session :=
  .rejected e (drainConnN connection (readSizeRemain - buffer.len)).2

/-- What is done with the destination that was read, or not. -/
def acceptRequest (filter : Option Φ) (iv : Bytes) (readSizeRemain : ℤ) :
    Outcome (Option Address × UInt16) × Buffer × NestedReader BodyReader → Session × Option Φ
  | (.panic, _, _) => (.panicked, filter)
  | (.error e, buffer, br) =>
    (reject readSizeRemain buffer br.reader.connection ((newError "failed to read address").base e),
      filter)
  | (.ok (none, _), buffer, br) =>
    (reject readSizeRemain buffer br.reader.connection (newError "invalid remote address."), filter)
  | (.ok (some address, port), buffer, br) =>
    match checkIV setup filter iv with
    | (some ivError, filter) =>
      (reject readSizeRemain buffer br.reader.connection ((newError "failed iv check").base ivError),
        filter)
    | (none, filter) =>
      (.opened { version, command := requestCommandTCP, address := some address, port } br, filter)

/-- What is read behind the initial vector. -/
def readRequest (filter : Option Φ) (iv : Bytes) (fuel : ℕ) (readSizeRemain : ℤ)
    (br : NestedReader BodyReader) : Session × Option Φ :=
  let out := addrParser.readAddressPortInto setup.parseIP
    (NestedReader.readInto BodyReader.readMultiBuffer fuel) (some .new) br
  match out.2.2.stuck with
  | some .panic => (.panicked, filter)
  | some .endless => (.endless, filter)
  | none => acceptRequest setup filter iv readSizeRemain out

/-- `ReadTCPSession`. -/
def readTCPSession (dice : Dice) (account : MemoryAccount) (filter : Option Φ) (fuel : ℕ)
    (pool : List Bool) (reader : BufferedReader) : Session × Option Φ :=
  let readSizeRemain : ℤ := (drainBehavior setup dice account).drainSize
  match readIV account.cipher.ivSize .new reader with
  | (.panic, _, _) => (.panicked, filter)
  | (.error e, buffer, reader) =>
    (reject readSizeRemain buffer reader ((newError "failed to read IV").base e), filter)
  | (.ok iv, buffer, reader) =>
    let r := account.cipher.newDecryptionReader setup.primitives account.key iv pool reader
    readRequest setup filter iv fuel (readSizeRemain - buffer.len) { reader := r }

/-! ## Answers, and writing -/

/-- `ReadTCPResponse`. -/
def readTCPResponse (account : MemoryAccount) (filter : Option Φ) (pool : List Bool)
    (reader : BufferedReader) : Except Error BodyReader × Option Φ :=
  match if 0 < account.cipher.ivSize then reader.readFull account.cipher.ivSize
    else (.ok [], reader) with
  | (.error e, _) => (.error ((newError "failed to read IV").base e), filter)
  | (.ok iv, reader) =>
    match checkIV setup filter iv with
    | (some ivError, filter) => (.error ((newError "failed iv check").base ivError), filter)
    | (none, filter) =>
      (.ok (account.cipher.newDecryptionReader setup.primitives account.key iv pool reader), filter)

/-- The initial vector that was drawn is marked and written, if the cipher has one. -/
def writeIV (account : MemoryAccount) (filter : Option Φ) (iv : Bytes) :
    Except Error Bytes × Option Φ :=
  if 0 < account.cipher.ivSize then
    match checkIV setup filter iv with
    | (some ivError, filter) =>
      (.error ((newError "failed to mark outgoing iv").base ivError), filter)
    | (none, filter) => (.ok iv, filter)
  else (.ok [], filter)

/-- The bytes of the destination, and the writer behind them. -/
def writeDestination (w : BodyWriter) (request : RequestHeader) : Bytes × Outcome BodyWriter :=
  match request.address with
  | none => ([], .panic)
  | some address =>
    match addrParser.writeAddressPort address request.port with
    | .error e => ([], .error ((newError "failed to write address").base e))
    | .ok b =>
      match w.writeMultiBuffer [(Buffer.new.write b).1] with
      | (.ok header, w) => (header, .ok w)
      | (.error e, _) => ([], .error ((newError "failed to write header").base e))
      | (.panic, _) => ([], .panic)

/-- `WriteTCPRequest`: the bytes that it puts on a connection that takes them. -/
def writeTCPRequest (account : MemoryAccount) (filter : Option Φ)
    (iv : { b : Bytes // b.length = account.cipher.ivSize }) (request : RequestHeader) :
    Bytes × Outcome BodyWriter × Option Φ :=
  match writeIV setup account filter iv with
  | (.error e, filter) => ([], .error e, filter)
  | (.ok out, filter) =>
    let w := account.cipher.newEncryptionWriter setup.primitives account.key iv
    let (header, w) := writeDestination w request
    (out ++ header, w, filter)

/-- `WriteTCPResponse`. -/
def writeTCPResponse (account : MemoryAccount) (filter : Option Φ)
    (iv : { b : Bytes // b.length = account.cipher.ivSize }) :
    Bytes × Outcome BodyWriter × Option Φ :=
  match writeIV setup account filter iv with
  | (.error e, filter) => ([], .error e, filter)
  | (.ok out, filter) =>
    (out, .ok (account.cipher.newEncryptionWriter setup.primitives account.key iv), filter)

end Gzv2ray.Shadowsocks
