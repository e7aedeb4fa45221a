import Gzv2ray.Net.AddressDecoder
import Gzv2ray.Protocol.Drain
import Gzv2ray.Protocol.Headers
import Gzv2ray.Vmess.AeadHeader
import Gzv2ray.Vmess.Auth

/-!
# The server of VMess

`decodeRequestHeader` decodes the header of a request, behind the sixteen bytes that
tell its user. It is sealed (`openVMessAEADHeader`), or encrypted by a stream cipher
if the user is one of the older kind.

On the way, the server remembers the session and taints what has been replayed. A
header that it rejects may be a probe: where that can be told, it drains the
connection (`drainConnection`). What is decoded records this (`Decoded.drained`).
-/

namespace Gzv2ray.Vmess

namespace Encoding

def newError (text : String) : Error := Gzv2ray.newError "proxy/vmess/encoding" text

def addrParser : AddressParser :=
  .new [.addressFamilyByte 0x01 AddressOption.one_lt .ipv4,
    .addressFamilyByte 0x02 AddressOption.two_lt .domain,
    .addressFamilyByte 0x03 AddressOption.three_lt .ipv6,
    .portThenAddress]

/-! ## The session -/

structure SessionID where
  user : Block
  key : Block
  nonce : Block
  deriving DecidableEq

/-- When the sessions expire, in nanoseconds. -/
structure SessionHistory where
  cache : SessionID → Option ℤ

/-- Adds a session, unless there is one that has not expired. The clock is read twice. -/
def SessionHistory.addIfNotExits (h : SessionHistory) (session : SessionID) (checked added : ℤ) :
    Bool × SessionHistory :=
  if (h.cache session).any fun expire => checked < expire then (false, h)
  else (true, ⟨Function.update h.cache session (some (added + 3 * 60 * 10 ^ 9))⟩)

structure ServerSession where
  requestBodyKey : Block := toBlock []
  requestBodyIV : Block := toBlock []
  responseHeader : UInt8 := 0
  isAEADRequest : Bool := false
  isAEADForced : Bool := false

/-- What a server keeps, with the session of a connection. -/
structure Server (F : Type) where
  validator : TimedUserValidator F
  sessionHistory : SessionHistory
  session : ServerSession

/-! ## The fields of a header -/

/-- The type of a number that has a name. -/
def securityTypeName : UInt8 → Option SecurityType
  | 0 => some .unknown
  | 1 => some .legacy
  | 2 => some .auto
  | 3 => some .aes128Gcm
  | 4 => some .chacha20Poly1305
  | 5 => some .none
  | 6 => some .zero
  | _ => none

def parseSecurityType (b : UInt8) : SecurityType :=
  match securityTypeName b with
  | some .unknown => .legacy
  | some st => st
  | none => .unknown

/-- The 38 bytes that a header starts with. -/
structure FixedFields where
  version : UInt8
  requestBodyIV : Block
  requestBodyKey : Block
  responseHeader : UInt8
  option : UInt8
  paddingLen : ℕ
  security : SecurityType
  command : RequestCommand

section

variable {ι : Type} (readFull : ReadFull ι)

def readFixedFields : Reading ι FixedFields := do
  Reading.readFullFrom readFull 38
  let version ← Reading.byte 0
  let requestBodyIV ← Reading.bytesRange 1 17
  let requestBodyKey ← Reading.bytesRange 17 33
  let responseHeader ← Reading.byte 33
  let option ← Reading.byte 34
  let b ← Reading.byte 35
  let command ← Reading.byte 37
  return {
    version
    requestBodyIV := toBlock requestBodyIV
    requestBodyKey := toBlock requestBodyKey
    responseHeader
    option
    paddingLen := (b >>> 4).toNat
    security := parseSecurityType (b &&& 0x0F)
    command }

/-- The destination, of which nothing is known if it cannot be read. -/
def readDestination (parseIP : Bytes → Option IPv6) (command : RequestCommand) :
    Reading ι (Option Address × UInt16) := fun b i =>
  if command = requestCommandMux then (.ok (some (.domain (ascii "v1.mux.cool")), 0), b, i)
  else if command = requestCommandTCP ∨ command = requestCommandUDP then
    match addrParser.readAddressPortInto parseIP readFull (some b) i with
    | (.error _, b, i) => (.ok (none, 0), b, i)
    | out => out
  else (.ok (none, 0), b, i)

def readPadding (paddingLen : ℕ) : Reading ι Unit :=
  if 0 < paddingLen then Reading.readFullFrom readFull paddingLen else pure ()

/-- Reads the checksum, and tells whether it is that of what comes before. -/
def verifyChecksum : Reading ι Bool := do
  let hashed ← Reading.bytesTo (-4)
  let expectedHash ← Reading.bytesFrom (-4)
  return (authenticate hashed).toNat = ofBigEndian expectedHash

end

/-! ## Behind the identifier -/

/-- Where the server drains the connection. -/
inductive DrainPoint
  /-- There is no user of the first bytes. -/
  | authID
  /-- The tag of a sealed length or header is wrong. -/
  | tag
  /-- A sealed header is cut short. -/
  | cut
  /-- The session is there already. -/
  | session
  | checksum
  deriving DecidableEq

/-- What the server decides on a header. -/
inductive Verdict
  | accepted (request : RequestHeader)
  | rejected (e : Error)
  | drained (point : DrainPoint) (e : Error)
  | panic

variable {F ι : Type}

/-- Taints the identifier of a header that is not sealed, and adds to the error whether this
    succeeded. -/
def Server.burn (s : Server F) (authID : Bytes) (ok failed : Error) : Error × Server F :=
  match s.validator.burnTaintFuse authID with
  | (.ok _, validator) => (ok, { s with validator })
  | (.error burnErr, validator) => (failed.base burnErr, { s with validator })

/-- The header is cut short. -/
def Server.rejectCut (s : Server F) (authID : Bytes) (text : String) (err : Error) :
    Verdict × Server F :=
  if s.session.isAEADRequest then (.rejected ((newError text).base err), s)
  else
    let (e, s) := s.burn authID (newError (text ++ ", userHash tainted"))
      (newError (text ++ ", failed to taint userHash"))
    (.rejected (e.base err), s)

def duplicatedText : String := "duplicated session id, possibly under replay attack"

def Server.rejectDuplicated (s : Server F) (authID : Bytes) : Verdict × Server F :=
  if s.session.isAEADRequest then
    (.rejected (newError (duplicatedText ++ ", but this is a AEAD request")), s)
  else
    let (e, s) := s.burn authID (newError (duplicatedText ++ ", userHash tainted"))
      (newError (duplicatedText ++ ", and failed to taint userHash"))
    (.drained .session e, s)

def Server.rejectChecksum (s : Server F) (authID : Bytes) : Verdict × Server F :=
  if s.session.isAEADRequest then
    (.rejected (newError "invalid auth, but this is a AEAD request"), s)
  else
    let (e, s) := s.burn authID (newError "invalid auth, legacy userHash tainted")
      (newError "invalid auth, can't taint legacy userHash")
    (.drained .checksum e, s)

/-- The last checks, of a header that is whole. -/
def checkRequest (request : RequestHeader) : Verdict :=
  if request.address = none then .rejected (newError "invalid remote address")
  else if request.security = .unknown ∨ request.security = .auto then
    .rejected (newError "unknown security type: ")
  else .accepted request

/-- What is read of the header behind its fixed fields. -/
def decodeRest (parseIP : Bytes → Option IPv6) (readFull : ReadFull ι) (fixed : FixedFields)
    (authID : Bytes) (s : Server F) (b : Buffer) (i : ι) : Verdict × Server F × Buffer × ι :=
  match readDestination readFull parseIP fixed.command b i with
  | (.panic, b, i) => (.panic, s, b, i)
  | (.error e, b, i) => (.rejected e, s, b, i)
  | (.ok (address, port), b, i) =>
    match readPadding readFull fixed.paddingLen b i with
    | (.panic, b, i) => (.panic, s, b, i)
    | (.error e, b, i) =>
      let (verdict, s) := s.rejectCut authID "failed to read padding" e
      (verdict, s, b, i)
    | (.ok _, b, i) =>
      match Reading.readFullFrom readFull 4 b i with
      | (.panic, b, i) => (.panic, s, b, i)
      | (.error e, b, i) =>
        let (verdict, s) := s.rejectCut authID "failed to read checksum" e
        (verdict, s, b, i)
      | (.ok _, b, i) =>
        match verifyChecksum b i with
        | (.ok true, b, i) => (checkRequest { fixed with address, port }, s, b, i)
        | (.ok false, b, i) =>
          let (verdict, s) := s.rejectChecksum authID
          (verdict, s, b, i)
        | (_, b, i) => (.panic, s, b, i)

/-- What is read behind the identifier: the fixed fields, by which the session is known, and then
    the rest. The clock is read twice. -/
def decodeFields (parseIP : Bytes → Option IPv6) (readFull : ReadFull ι) (user : MemoryUser)
    (authID : Bytes) (clock : ℤ × ℤ) (s : Server F) (i : ι) : Verdict × Server F × Buffer × ι :=
  match readFixedFields readFull .new i with
  | (.panic, b, i) => (.panic, s, b, i)
  | (.error e, b, i) => (.rejected ((newError "failed to read request header").base e), s, b, i)
  | (.ok fixed, b, i) =>
    let session := { s.session with
      requestBodyIV := fixed.requestBodyIV, requestBodyKey := fixed.requestBodyKey }
    match s.sessionHistory.addIfNotExits
      ⟨user.account.id.uuid, fixed.requestBodyKey, fixed.requestBodyIV⟩ clock.1 clock.2 with
    | (false, sessionHistory) =>
      let (verdict, s) := Server.rejectDuplicated { s with session, sessionHistory } authID
      (verdict, s, b, i)
    | (true, sessionHistory) =>
      let session := { session with responseHeader := fixed.responseHeader }
      decodeRest parseIP readFull fixed authID { s with session, sessionHistory } b i

/-! ## Requests -/

/-- What decoding comes to: the request with its user, what is left of the connection, and where
    it was drained, with what was left of it then. -/
structure Decoded (F : Type) where
  result : Outcome (MemoryUser × RequestHeader)
  server : Server F
  reader : BufferedReader
  drained : Option (DrainPoint × BufferedReader) := none

/-- `drainConnection`: reads as many bytes as remain, less those in the buffer. -/
def drainConnection (behavior : DrainBehavior) (readSizeRemain : ℤ) (buffer : Buffer)
    (reader : BufferedReader) (point : DrainPoint) (e : Error) (server : Server F) : Decoded F :=
  let readSizeRemain := readSizeRemain - buffer.len
  let text := toString behavior.baseDrainSize ++ " " ++ toString behavior.randDrainMax ++ " " ++
    toString behavior.randDrainRolled
  if 0 < readSizeRemain then
    match drainConnN reader readSizeRemain with
    | (some err, left) =>
      ⟨.error (((newError ("failed to drain connection DrainSize = " ++ text)).base err).base e),
        server, left, some (point, reader)⟩
    | (none, left) =>
      ⟨.error ((newError ("connection drained DrainSize = " ++ text)).base e), server, left,
        some (point, reader)⟩
  else ⟨.error e, server, reader, some (point, reader)⟩

/-- What follows from the decision on a header. -/
def finish (behavior : DrainBehavior) (readSizeRemain : ℤ) (user : MemoryUser) :
    Verdict × Server F × Buffer × BufferedReader → Decoded F
  | (.accepted request, server, _, reader) => ⟨.ok (user, request), server, reader, none⟩
  | (.rejected e, server, _, reader) => ⟨.error e, server, reader, none⟩
  | (.drained point e, server, buffer, reader) =>
    drainConnection behavior readSizeRemain buffer reader point e server
  | (.panic, server, _, reader) => ⟨.panic, server, reader, none⟩

/-- What a server is made of. -/
structure Setup (F : Type) where
  validator : Primitives
  filter : CuckooFilter F
  header : HeaderPrimitives
  parseIP : Bytes → Option IPv6

/-- What is drawn, and the times read, while a header is decoded. -/
structure Chances where
  dice : Dice
  /-- The seed, if the validator has none. -/
  seed : UInt64
  /-- The order of the decoders of users, and the times at which they are tried. -/
  order : List (Block × MemoryUser)
  clock : ℕ → ℤ
  session : ℤ × ℤ

/-- `GetBehaviorSeed`: a seed of zero is drawn anew. -/
def behaviorSeed (v : TimedUserValidator F) (drawn : UInt64) : UInt64 × TimedUserValidator F :=
  let seed := if v.behaviorSeed = 0 then drawn else v.behaviorSeed
  (seed, { v with behaviorFused := true, behaviorSeed := seed })

def hashTimestamp (pr : HeaderPrimitives) (t : ℤ) : Bytes :=
  pr.md5 (List.replicate 4 (bigEndian 8 (t % 2 ^ 64).toNat)).flatten

variable (setup : Setup F) (chances : Chances)

/-- The numbers drawn for the connection. -/
def Server.behavior (s : Server F) : DrainBehavior :=
  chances.dice.drainBehavior (toSigned 64 (behaviorSeed s.validator chances.seed).1.toNat)

def forcedText : String :=
  "invalid user: VMessAEAD is enforced and a non VMessAEAD connection is received. " ++
  "You can still disable this security feature with environment variable " ++
  "gzv2ray.vmess.aead.forced = false . " ++
  "You will not be able to enable legacy header workaround in the future."

/-- The header of a user of the older kind. -/
def decodeLegacy (behavior : DrainBehavior) (buffer : Buffer) (s : Server F)
    (reader : BufferedReader) : Decoded F :=
  match s.validator.get buffer.bytes with
  | (.error e, validator) =>
    drainConnection behavior behavior.drainSize buffer reader .authID
      ((newError "invalid user").base e) { s with validator }
  | (.ok (user, timestamp), validator) =>
    let s := { s with validator }
    if s.session.isAEADForced then
      drainConnection behavior behavior.drainSize buffer reader .authID (newError forcedText) s
    else
      let stream := setup.header.aesDecryptionStream user.account.id.cmdKey.1
        (hashTimestamp setup.header timestamp)
      let (verdict, s, b, decryptor) := decodeFields setup.parseIP CryptionReader.readInto user
        (toBlock buffer.bytes).1 chances.session s { stream, reader }
      finish behavior (behavior.drainSize - buffer.len) user (verdict, s, b, decryptor.reader)

/-- `io.ReadFull` of a `bytes.Reader`. -/
def readBytes : ReadFull Bytes := fun b n =>
  (b.take n, if n ≤ b.length then none else some (if b = [] then .eof else .unexpectedEOF), b.drop n)

/-- The header of a user whose identifier is sealed. -/
def decodeSealed (behavior : DrainBehavior) (buffer : Buffer) (user : MemoryUser) (s : Server F)
    (reader : BufferedReader) : Decoded F :=
  let authID := toBlock buffer.bytes
  let o := openVMessAEADHeader setup.header user.account.id.cmdKey authID reader
  match o.result with
  | .panic => ⟨.panic, s, o.reader, none⟩
  | .error e =>
    if o.shouldDrain then
      drainConnection behavior (behavior.drainSize - o.bytesRead) buffer o.reader .tag
        ((newError "AEAD read failed").base e) s
    else
      drainConnection behavior behavior.drainSize buffer o.reader .cut
        ((newError "AEAD read failed, drain skipped").base e) s
  | .ok aeadData =>
    let s := { s with session := { s.session with isAEADRequest := true } }
    let (verdict, s, b, _) := decodeFields setup.parseIP readBytes user authID.1 chances.session s
      aeadData
    finish behavior (behavior.drainSize - buffer.len) user (verdict, s, b, o.reader)

/-- `DecodeRequestHeader`. -/
def decodeRequestHeader (s : Server F) (reader : BufferedReader) : Decoded F :=
  let behavior := s.behavior chances
  let s := { s with validator := (behaviorSeed s.validator chances.seed).2 }
  match Reading.readFullFrom BufferedReader.readInto 16 .new reader with
  | (.panic, _, reader) => ⟨.panic, s, reader, none⟩
  | (.error e, _, reader) => ⟨.error ((newError "failed to read request header").base e), s, reader, none⟩
  | (.ok _, buffer, reader) =>
    match s.validator.getAEAD setup.validator setup.filter buffer.bytes chances.order chances.clock with
    | (.ok user, validator) =>
      decodeSealed setup chances behavior buffer user { s with validator } reader
    | (.error e, validator) =>
      let s := { s with validator }
      if e = errNotFound then decodeLegacy setup chances behavior buffer s reader
      else
        drainConnection behavior behavior.drainSize buffer reader .authID
          ((newError "invalid user").base e) s

end Encoding

end Gzv2ray.Vmess
