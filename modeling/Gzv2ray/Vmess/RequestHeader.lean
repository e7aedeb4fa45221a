import Gzv2ray.Vmess.ResponseHeader

/-!
# Headers of requests

A request starts with sixteen bytes that tell its user, and with its fields, which end with a
padding and a checksum. These are encrypted by a stream cipher behind the hash of an identifier,
or they are sealed behind an encrypted identifier of authentication and their sealed length.

* `createAuthID`, `sealVMessAEADHeader`: sealed headers, and what is drawn for them;
* `encodeRequestHeader`: what the client writes.

The encryption of a block, under the key derived from that of a user, is a parameter.
-/

namespace Gzv2ray.Vmess

namespace Encoding

/-- What requests are encrypted with besides, and the hash of an identifier. -/
structure RequestPrimitives extends ResponsePrimitives where
  hasher : Bytes → Bytes → Block
  encrypt : (key data : Block) → Block

/-- What is drawn for a request, and the times read: that of the hash of an identifier, which is
    drawn around now, and that of the identifier of authentication. -/
structure RequestChances where
  timestamp : ℤ
  alterID : ℕ
  padding : { b : Bytes // b.length < 16 }
  now : ℤ
  random : { b : Bytes // b.length = 4 }
  connectionNonce : { b : Bytes // b.length = 8 }

/-! ## Fields -/

def version : UInt8 := 1

/-- The number of a type. -/
def securityNumber : SecurityType → UInt8
  | .unknown => 0
  | .legacy => 1
  | .auto => 2
  | .aes128Gcm => 3
  | .chacha20Poly1305 => 4
  | .none => 5
  | .zero => 6

/-- The 38 bytes that a header starts with. One is reserved. -/
def startFields (c : ClientSession) (header : RequestHeader) (paddingLen : ℕ) : Bytes :=
  version :: (c.requestBodyIV.1 ++ c.requestBodyKey.1) ++ [c.responseHeader, header.option,
    UInt8.ofNat paddingLen <<< 4 ||| securityNumber header.security, 0, header.command]

/-- The address and the port of a request, unless it is one of a multiplexed connection. -/
def destinationFields (header : RequestHeader) : Outcome Bytes :=
  if header.command = requestCommandMux then .ok []
  else
    match header.address with
    | none => .panic
    | some address =>
      match addrParser.writeAddressPort address header.port with
      | .ok b => .ok b
      | .error e => .error ((newError "failed to writer address and port").base e)

def withChecksum (b : Bytes) : Bytes := b ++ bigEndian 4 (authenticate b).toNat

/-- The buffer that is filled: all of it fits. -/
def requestFields (c : ClientSession) (header : RequestHeader) (padding : Bytes) : Outcome Bytes :=
  (destinationFields header).map fun destination =>
    withChecksum (startFields c header padding.length ++ destination ++ padding)

/-! ## Sealed headers -/

section

variable (pr : RequestPrimitives)

/-- The time, random bytes and the checksum of both. -/
def authIDFields (time : ℤ) (random : Bytes) : Bytes :=
  let buf := bigEndian 8 (time % 2 ^ 64).toNat ++ random
  buf ++ bigEndian 4 (checksumIEEE buf).toNat

def createAuthID (cmdKey : Block) (time : ℤ) (random : Bytes) : Block :=
  pr.encrypt cmdKey (toBlock (authIDFields time random))

/-- Seals the length or the header, under the key and the nonce of their salts. -/
def sealPart (keySalt ivSalt : Bytes) (key authid : Block) (nonce plain : Bytes) : Bytes :=
  (pr.gcm (pr.kdf16 key.1 [keySalt, authid.1, nonce])).seal_
    ((pr.kdf key.1 [ivSalt, authid.1, nonce]).take 12) plain authid.1

def sealVMessAEADHeader (key : Block) (data : Bytes) (ch : RequestChances) : Bytes :=
  let authID := createAuthID pr key ch.now ch.random.1
  authID.1 ++
    sealPart pr kdfSaltConstVMessHeaderPayloadLengthAEADKey
      kdfSaltConstVMessHeaderPayloadLengthAEADIV key authID ch.connectionNonce.1
      (bigEndian 2 (UInt16.ofNat data.length).toNat) ++
    ch.connectionNonce.1 ++
    sealPart pr kdfSaltConstVMessHeaderPayloadAEADKey kdfSaltConstVMessHeaderPayloadAEADIV key
      authID ch.connectionNonce.1 data

/-! ## Requests -/

/-- `AnyValidID`: one of the other identifiers, if there are any. -/
def anyValidID (account : MemoryAccount) (roll : ℕ) : ID :=
  if account.alterIDs = [] then account.id
  else account.alterIDs.getD (roll % account.alterIDs.length) account.id

/-- The hash that tells a user of the older kind. -/
def userHash (account : MemoryAccount) (ch : RequestChances) : Block :=
  pr.hasher (anyValidID account ch.alterID).uuid.1 (bigEndian 8 (ch.timestamp % 2 ^ 64).toNat)

/-- `EncodeRequestHeader`: what is written, and whether there was an error. -/
def encodeRequestHeader (c : ClientSession) (account : MemoryAccount) (header : RequestHeader)
    (ch : RequestChances) : Bytes × Outcome Unit :=
  let hash := if c.isAEAD then [] else (userHash pr account ch).1
  match requestFields c header ch.padding.1 with
  | .panic => (hash, .panic)
  | .error e => (hash, .error e)
  | .ok buffer =>
    if c.isAEAD then (sealVMessAEADHeader pr account.id.cmdKey buffer ch, .ok ())
    else
      let aesStream := pr.aesEncryptionStream account.id.cmdKey.1
        (hashTimestamp pr.toHeaderPrimitives ch.timestamp)
      (hash ++ aesStream.xorKeyStream [] buffer, .ok ())

end

end Encoding

end Gzv2ray.Vmess
