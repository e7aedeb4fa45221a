import Gzv2ray.Crypto.Codec
import Gzv2ray.Crypto.CryptionReader
import Gzv2ray.Vmess.Validator

/-!
# Sealed headers

Behind the identifier of authentication, a sealed header is the sealed length of
the header, a nonce and the sealed header itself, both under keys derived from that
of the user, the identifier and the nonce.

`openVMessAEADHeader` opens one. It tells how many bytes it took, and, if it fails,
whether a tag was wrong or the connection came to its end
(`openVMessAEADHeader_spec`).
-/

namespace Gzv2ray.Vmess

/-- What headers are sealed and encrypted with, and what the keys are derived with. -/
structure HeaderPrimitives where
  sha256 : Bytes → Bytes
  hmac : (hash : Bytes → Bytes) → (key message : Bytes) → Bytes
  md5 : Bytes → Bytes
  gcm : (key : Bytes) → AEAD
  aesDecryptionStream : (key iv : Bytes) → StreamCipher

def kdfSaltConstVMessAEADKDF : Bytes := ascii "VMess AEAD KDF"

def kdfSaltConstVMessHeaderPayloadAEADKey : Bytes := ascii "VMess Header AEAD Key"

def kdfSaltConstVMessHeaderPayloadAEADIV : Bytes := ascii "VMess Header AEAD Nonce"

def kdfSaltConstVMessHeaderPayloadLengthAEADKey : Bytes := ascii "VMess Header AEAD Key_Length"

def kdfSaltConstVMessHeaderPayloadLengthAEADIV : Bytes := ascii "VMess Header AEAD Nonce_Length"

namespace HeaderPrimitives

variable (pr : HeaderPrimitives)

/-- The hash of a key under the codes of the path, each of which makes a hash of the one before. -/
def kdf (key : Bytes) (path : List Bytes) : Bytes :=
  path.foldl pr.hmac (pr.hmac pr.sha256 kdfSaltConstVMessAEADKDF) key

def kdf16 (key : Bytes) (path : List Bytes) : Bytes := (pr.kdf key path).take 16

/-- Opens the length or the header, under the key and the nonce of their salts. -/
def openSealed (keySalt ivSalt : Bytes) (key authid : Block) (nonce cipherText : Bytes) :
    Outcome Bytes :=
  (pr.gcm (pr.kdf16 key.1 [keySalt, authid.1, nonce])).open_
    ((pr.kdf key.1 [ivSalt, authid.1, nonce]).take 12) cipherText authid.1

end HeaderPrimitives

/-- What comes of a sealed header: the header, whether the connection is to be drained if there is
    none, how many bytes were read, and what is left. -/
structure OpenedHeader where
  result : Outcome Bytes
  shouldDrain : Bool
  bytesRead : ℕ
  reader : BufferedReader

variable (pr : HeaderPrimitives) (key authid : Block)

/-- The part behind the length. -/
def openPayload (nonce : Bytes) (length : UInt16) (bytesRead : ℕ) (data : BufferedReader) :
    OpenedHeader :=
  match data.readInto (length + 16).toNat with
  | (p, some e, data) => ⟨.error e, false, bytesRead + p.length, data⟩
  | (cipherText, none, data) =>
    let bytesRead := bytesRead + cipherText.length
    match pr.openSealed kdfSaltConstVMessHeaderPayloadAEADKey kdfSaltConstVMessHeaderPayloadAEADIV
      key authid nonce cipherText with
    | .ok payload => ⟨.ok payload, false, bytesRead, data⟩
    | .error e => ⟨.error e, true, bytesRead, data⟩
    | .panic => ⟨.panic, true, bytesRead, data⟩

def openVMessAEADHeader (data : BufferedReader) : OpenedHeader :=
  match data.readInto 18 with
  | (p, some e, data) => ⟨.error e, false, p.length, data⟩
  | (lengthEncrypted, none, data) =>
    let bytesRead := lengthEncrypted.length
    match data.readInto 8 with
    | (p, some e, data) => ⟨.error e, false, bytesRead + p.length, data⟩
    | (nonce, none, data) =>
      let bytesRead := bytesRead + nonce.length
      match pr.openSealed kdfSaltConstVMessHeaderPayloadLengthAEADKey
        kdfSaltConstVMessHeaderPayloadLengthAEADIV key authid nonce lengthEncrypted with
      | .panic => ⟨.panic, true, bytesRead, data⟩
      | .error e => ⟨.error e, true, bytesRead, data⟩
      | .ok length =>
        -- Reading a number from fewer than two bytes fails, which is a panic.
        if length.length < 2 then ⟨.panic, true, bytesRead, data⟩
        else openPayload pr key authid nonce (UInt16.ofNat (ofBigEndian (length.take 2))) bytesRead
          data

/-! ## What is read -/

/-- The bytes read are accounted for, and without a reason to drain, there are no more. -/
structure OpenedHeader.Accounts (o : OpenedHeader) (data : BufferedReader) (before : ℕ) : Prop where
  length : o.bytesRead + o.reader.bytes.length = before + data.bytes.length
  atEnd : ∀ e, o.result = .error e → o.shouldDrain = false → o.reader.bytes = []

/-- A read that is cut short, after others, is accounted for. -/
theorem readInto_cases (data : BufferedReader) (n : ℕ) :
    (∃ p e data', data.readInto n = (p, some e, data') ∧ data'.bytes = [] ∧
      p.length + data'.bytes.length = data.bytes.length) ∨
    ∃ p data', data.readInto n = (p, none, data') ∧
      p.length + data'.bytes.length = data.bytes.length := by
  obtain ⟨data', hbytes, -, hread⟩ := data.readInto_eq n
  have hlength : (data.bytes.take n).length + data'.bytes.length = data.bytes.length := by
    rw [hbytes, ← List.length_append, List.take_append_drop]
  rw [hread]
  split_ifs with hn
  · exact .inr ⟨_, data', rfl, hlength⟩
  · exact .inl ⟨_, _, data', rfl, by rw [hbytes, List.drop_of_length_le (by omega)], hlength⟩

theorem openPayload_accounts (nonce : Bytes) (length : UInt16) (before : ℕ) (data : BufferedReader) :
    (openPayload pr key authid nonce length before data).Accounts data before := by
  rw [openPayload]
  rcases readInto_cases data (length + 16).toNat with
    ⟨p, e, data', hread, hnil, hlength⟩ | ⟨p, data', hread, hlength⟩ <;> rw [hread] <;> dsimp only
  · exact ⟨by dsimp only; omega, fun _ _ _ => hnil⟩
  rcases pr.openSealed _ _ key authid nonce p with payload | e | -
  · exact ⟨by dsimp only; omega, by rintro e ⟨⟩⟩
  · exact ⟨by dsimp only; omega, fun _ _ h => absurd h (by simp)⟩
  · exact ⟨by dsimp only; omega, by rintro e ⟨⟩⟩

theorem openVMessAEADHeader_spec (data : BufferedReader) :
    (openVMessAEADHeader pr key authid data).Accounts data 0 := by
  rw [openVMessAEADHeader]
  rcases readInto_cases data 18 with
    ⟨p, e, data₁, hread, hnil, hlength⟩ | ⟨p, data₁, hread, hlength⟩ <;> rw [hread] <;> dsimp only
  · exact ⟨by dsimp only; omega, fun _ _ _ => hnil⟩
  rcases readInto_cases data₁ 8 with
    ⟨nonce, e, data₂, hread₂, hnil, hlength₂⟩ | ⟨nonce, data₂, hread₂, hlength₂⟩ <;>
    rw [hread₂] <;> dsimp only
  · exact ⟨by dsimp only; omega, fun _ _ _ => hnil⟩
  rcases pr.openSealed _ _ key authid nonce p with length | e | -
  · dsimp only
    split_ifs
    · exact ⟨by dsimp only; omega, by rintro e ⟨⟩⟩
    · obtain ⟨hbytes, hend⟩ := openPayload_accounts pr key authid nonce
        (UInt16.ofNat (ofBigEndian (length.take 2))) (p.length + nonce.length) data₂
      exact ⟨by omega, hend⟩
  · exact ⟨by dsimp only; omega, fun _ _ h => absurd h (by simp)⟩
  · exact ⟨by dsimp only; omega, by rintro e ⟨⟩⟩

end Gzv2ray.Vmess
