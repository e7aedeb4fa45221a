import Gzv2ray.Crypto.Codec
import Gzv2ray.Protocol.Headers

/-!
# Packets of Shadowsocks

A packet is the initial vector of its cipher, the destination and the payload,
the latter two sealed in place if the cipher is an AEAD. It has to fit in one
buffer, which drops what does not, and which cannot be extended by the tag when
it is full.

* `Account.getCipher`: the ciphers;
* `encodeUDPPacket`, `decodeUDPPacket`: the codec of the packets.

The AEADs and the derivation of their keys are parameters (`Primitives`).
-/

namespace Gzv2ray

namespace Shadowsocks

def version : UInt8 := 1

def addrParser : AddressParser :=
  .new [.addressFamilyByte 0x01 AddressOption.one_lt .ipv4,
    .addressFamilyByte 0x04 AddressOption.four_lt .ipv6,
    .addressFamilyByte 0x03 AddressOption.three_lt .domain,
    .withAddressTypeParser fun b => b &&& 0x0F]

def newError (text : String) : Error := Gzv2ray.newError "proxy/shadowsocks" text

/-! ## Ciphers -/

/-- What the ciphers are made of. -/
structure Primitives where
  createAesGcm : (key : Bytes) → AEAD
  createChaCha20Poly1305 : (key : Bytes) → AEAD
  hkdfSHA1 : (secret salt : Bytes) → (size : ℕ) → Bytes

structure AEADCipher where
  keyBytes : ℕ
  ivBytes : ℕ
  aeadAuthCreator : Bytes → AEAD

inductive Cipher
  | aead (c : AEADCipher)
  | none

inductive CipherType
  | unknown
  | aes128Gcm
  | aes256Gcm
  | chacha20Poly1305
  | none
  deriving DecidableEq

/-- An account: its cipher and its key. -/
structure MemoryAccount where
  cipher : Cipher
  key : Bytes

variable (pr : Primitives)

/-- The cipher of a type. -/
def getCipher : CipherType → Except Error Cipher
  | .aes128Gcm => .ok (.aead ⟨16, 16, pr.createAesGcm⟩)
  | .aes256Gcm => .ok (.aead ⟨32, 32, pr.createAesGcm⟩)
  | .chacha20Poly1305 => .ok (.aead ⟨32, 32, pr.createChaCha20Poly1305⟩)
  | .none => .ok .none
  | .unknown => .error (newError "Unsupported cipher.")

namespace AEADCipher

variable (c : AEADCipher)

/-- The authenticator of a packet, whose key is derived from its initial vector. -/
def createAuthenticator (key iv : Bytes) : AEADAuthenticator where
  aead := c.aeadAuthCreator (pr.hkdfSHA1 key iv c.keyBytes)
  nonceGenerator := generateInitialAEADNonce

/-- Seals what follows the initial vector, in place. There has to be room for the
    tag. -/
def encodePacket (key : Bytes) (b : Buffer) : Outcome Buffer :=
  let iv := b.bytes.take c.ivBytes
  let auth := c.createAuthenticator pr key iv
  if b.stop + auth.overhead > bufSize then .panic
  else
    match (auth.seal_ {} (b.bytes.drop c.ivBytes)).1 with
    | .ok cipherText => .ok (.overwrite b.start (iv ++ cipherText))
    | .error e => .error e

def insufficientData : Error := newError "insufficient data: "

/-- Opens what follows the initial vector, in place, and drops the vector. -/
def decodePacket (key : Bytes) (b : Buffer) : Outcome Buffer :=
  if b.len ≤ c.ivBytes then .error insufficientData
  else
    let auth := c.createAuthenticator pr key (b.bytes.take c.ivBytes)
    match (auth.open_ {} (b.bytes.drop c.ivBytes)).1 with
    | .ok plainText => .ok (.overwrite (b.start + c.ivBytes) plainText)
    | .error e => .error e
    | .panic => .panic

end AEADCipher

namespace Cipher

def ivSize : Cipher → ℕ
  | aead c => c.ivBytes
  | none => 0

def encodePacket (key : Bytes) (b : Buffer) : Cipher → Outcome Buffer
  | aead c => c.encodePacket pr key b
  | none => .ok b

def decodePacket (key : Bytes) (b : Buffer) : Cipher → Outcome Buffer
  | aead c => c.decodePacket pr key b
  | none => .ok b

end Cipher

/-! ## Packets -/

/-- Encodes a packet. The initial vector is drawn at random. -/
def encodeUDPPacket (account : MemoryAccount) (iv : { b : Bytes // b.length = account.cipher.ivSize })
    (request : RequestHeader) (payload : Bytes) : Outcome Buffer :=
  let buffer := (Buffer.new.write iv).1
  match request.address with
  | none => .panic
  | some address =>
    match addrParser.writeAddressPort address request.port with
    | .error e => .error ((newError "failed to write address").base e)
    | .ok b =>
      let buffer := ((buffer.write b).1.write payload).1
      match account.cipher.encodePacket pr account.key buffer with
      | .ok buffer => .ok buffer
      | .error e => .error ((newError "failed to encrypt UDP payload").base e)
      | .panic => .panic

/-- Decodes a packet: the request, and what is left of the buffer. -/
def decodeUDPPacket (parseIP : Bytes → Option IPv6) (account : MemoryAccount) (payload : Buffer) :
    Outcome (RequestHeader × Buffer) :=
  match account.cipher.decodePacket pr account.key payload with
  | .panic => .panic
  | .error e => .error ((newError "failed to decrypt UDP payload").base e)
  | .ok payload =>
    match addrParser.readAddressPort parseIP Buffer.readFull [] (payload.maskFirst 0x0F) with
    | (.error e, _) => .error ((newError "failed to parse address").base e)
    | (.ok (address, port, _), payload) =>
      .ok ({ version, command := requestCommandUDP, address, port }, payload)

end Shadowsocks

end Gzv2ray
