import Gzv2ray.Shadowsocks.RoundTrip
import Gzv2ray.Vmess.Commands
import Gzv2ray.Vmess.Server

/-!
# Headers of responses

A response starts with a byte that the client chose, its options and a command. This is
encrypted by a stream cipher, in front of the body, or it is sealed behind its sealed length,
under keys derived from those of the request.

* `encodeResponseHeader`: what the server writes, and the writer of the body;
* `decodeResponseHeader`: what the client reads, and the reader of the body;
* `decodeResponseHeader_encodeResponseHeader`: the client reads what the server writes, but a
  command that is too long, and its reader is where the writer of the server was.

The text of an address is a parameter.
-/

namespace Gzv2ray.Vmess

namespace Encoding

/-- What responses are encrypted with besides. -/
structure ResponsePrimitives extends HeaderPrimitives where
  aesEncryptionStream : (key iv : Bytes) → StreamCipher

def kdfSaltConstAEADRespHeaderLenKey : Bytes := ascii "AEAD Resp Header Len Key"

def kdfSaltConstAEADRespHeaderLenIV : Bytes := ascii "AEAD Resp Header Len IV"

def kdfSaltConstAEADRespHeaderPayloadKey : Bytes := ascii "AEAD Resp Header Key"

def kdfSaltConstAEADRespHeaderPayloadIV : Bytes := ascii "AEAD Resp Header IV"

structure ResponseHeader where
  option : UInt8
  command : Option CommandSwitchAccount := none
  deriving DecidableEq

/-! ## Keys -/

section

variable (pr : ResponsePrimitives)

/-- The key of a response, or its initial vector, from that of the request. -/
def responseBody (isAEAD : Bool) (request : Block) : Block :=
  if isAEAD then toBlock ((pr.sha256 request.1).take 16) else toBlock (pr.md5 request.1)

/-- The AEAD of a part of a header, and its nonce. -/
def responseAEAD (keySalt : Bytes) (key : Block) : AEAD := pr.gcm (pr.kdf16 key.1 [keySalt])

def responseNonce (ivSalt : Bytes) (iv : Block) : Bytes := (pr.kdf iv.1 [ivSalt]).take 12

structure ClientSession where
  isAEAD : Bool
  requestBodyKey : Block
  requestBodyIV : Block
  responseBodyKey : Block
  responseBodyIV : Block
  responseHeader : UInt8

def newClientSession (isAEAD : Bool) (randomBytes : { b : Bytes // b.length = 33 }) :
    ClientSession :=
  let requestBodyKey := toBlock (randomBytes.1.take 16)
  let requestBodyIV := toBlock ((randomBytes.1.take 32).drop 16)
  { isAEAD
    requestBodyKey
    requestBodyIV
    responseBodyKey := responseBody pr isAEAD requestBodyKey
    responseBodyIV := responseBody pr isAEAD requestBodyIV
    responseHeader := randomBytes.1.getD 32 0 }

end

/-! ## Encoding -/

/-- The fields of a header. There is a zero for no command, and for one that cannot be written. -/
def encodeFields (addressString : Address → Bytes) (responseHeader : UInt8)
    (header : ResponseHeader) : Bytes :=
  [responseHeader, header.option] ++
    match marshalCommand addressString header.command with
    | .ok command => command
    | .error _ => [0x00, 0x00]

def sealResponse (pr : ResponsePrimitives) (key iv : Block) (header : Bytes) : Bytes :=
  (responseAEAD pr kdfSaltConstAEADRespHeaderLenKey key).seal_
      (responseNonce pr kdfSaltConstAEADRespHeaderLenIV iv)
      (bigEndian 2 (UInt16.ofNat header.length).toNat) [] ++
    (responseAEAD pr kdfSaltConstAEADRespHeaderPayloadKey key).seal_
      (responseNonce pr kdfSaltConstAEADRespHeaderPayloadIV iv) header []

/-- `EncodeResponseHeader`: what is written, and the writer of an encrypted body. -/
def encodeResponseHeader (pr : ResponsePrimitives) (addressString : Address → Bytes)
    (s : ServerSession) (header : ResponseHeader) : Bytes × CryptionWriter :=
  let responseBodyKey := responseBody pr s.isAEADRequest s.requestBodyKey
  let responseBodyIV := responseBody pr s.isAEADRequest s.requestBodyIV
  let responseWriter : CryptionWriter :=
    { stream := pr.aesEncryptionStream responseBodyKey.1 responseBodyIV.1 }
  let fields := encodeFields addressString s.responseHeader header
  if s.isAEADRequest then (sealResponse pr responseBodyKey responseBodyIV fields, responseWriter)
  else responseWriter.write fields

/-! ## Decoding -/

/-- What is sealed behind the sealed length. -/
def openResponse (pr : ResponsePrimitives) (key iv : Block) (reader : BufferedReader) :
    Outcome Bytes × BufferedReader :=
  match reader.readFull 18 with
  | (.error e, reader) => (.error ((newError "Unable to Read Header Len").base e), reader)
  | (.ok encryptedLength, reader) =>
    match (responseAEAD pr kdfSaltConstAEADRespHeaderLenKey key).open_
      (responseNonce pr kdfSaltConstAEADRespHeaderLenIV iv) encryptedLength [] with
    | .panic => (.panic, reader)
    | .error e => (.error ((newError "Failed To Decrypt Length").base e), reader)
    | .ok length =>
      -- Reading a number from fewer than two bytes fails, which is a panic.
      if length.length < 2 then (.panic, reader)
      else
        match reader.readFull (ofBigEndian (length.take 2) + 16) with
        | (.error e, reader) => (.error ((newError "Unable to Read Header Data").base e), reader)
        | (.ok encryptedHeader, reader) =>
          match (responseAEAD pr kdfSaltConstAEADRespHeaderPayloadKey key).open_
            (responseNonce pr kdfSaltConstAEADRespHeaderPayloadIV iv) encryptedHeader [] with
          | .panic => (.panic, reader)
          | .error e => (.error ((newError "Failed To Decrypt Payload").base e), reader)
          | .ok header => (.ok header, reader)

section

variable {ι : Type} (readFull : ReadFull ι)

/-- The four bytes that the fields start with: that of the client, the options, the command and its
    length. -/
def readStart : Reading ι (UInt8 × UInt8 × UInt8 × UInt8) := do
  Reading.readFullFrom readFull 4
  let responseHeader ← Reading.byte 0
  let option ← Reading.byte 1
  let cmdID ← Reading.byte 2
  let dataLen ← Reading.byte 3
  return (responseHeader, option, cmdID, dataLen)

/-- A command that cannot be decoded is left out. -/
def readCommand (parseIP : Bytes → Option IPv6) (cmdID dataLen : UInt8) (i : ι) :
    Outcome (Option CommandSwitchAccount) × ι :=
  if cmdID = 0 then (.ok none, i)
  else
    match Reading.readFullFrom readFull dataLen.toNat .new i with
    | (.panic, _, i) => (.panic, i)
    | (.error e, _, i) => (.error ((newError "failed to read response command").base e), i)
    | (.ok _, buffer, i) =>
      match unmarshalCommand parseIP cmdID buffer.bytes with
      | .ok command => (.ok (some command), i)
      | .error _ => (.ok none, i)
      | .panic => (.panic, i)

def decodeResponseFields (parseIP : Bytes → Option IPv6) (expected : UInt8) (i : ι) :
    Outcome ResponseHeader × ι :=
  match readStart readFull .new i with
  | (.panic, _, i) => (.panic, i)
  | (.error e, _, i) => (.error ((newError "failed to read response header").base e), i)
  | (.ok (responseHeader, option, cmdID, dataLen), _, i) =>
    if responseHeader ≠ expected then (.error (newError ("unexpected response header. Expecting " ++
      toString expected ++ " but actually " ++ toString responseHeader)), i)
    else
      match readCommand readFull parseIP cmdID dataLen i with
      | (.ok command, i) => (.ok { option, command }, i)
      | (.error e, i) => (.error e, i)
      | (.panic, i) => (.panic, i)

end

/-- `DecodeResponseHeader`: the header with the reader of an encrypted body, and the connection. -/
def decodeResponseHeader (pr : ResponsePrimitives) (parseIP : Bytes → Option IPv6)
    (c : ClientSession) (reader : BufferedReader) :
    Outcome (ResponseHeader × CryptionReader) × BufferedReader :=
  let stream := pr.aesDecryptionStream c.responseBodyKey.1 c.responseBodyIV.1
  if c.isAEAD then
    match openResponse pr c.responseBodyKey c.responseBodyIV reader with
    | (.ok header, reader) =>
      match (decodeResponseFields readBytes parseIP c.responseHeader header).1 with
      | .ok header => (.ok (header, { stream, reader }), reader)
      | .error e => (.error e, reader)
      | .panic => (.panic, reader)
    | (.error e, reader) => (.error e, reader)
    | (.panic, reader) => (.panic, reader)
  else
    match decodeResponseFields CryptionReader.readInto parseIP c.responseHeader { stream, reader } with
    | (.ok header, responseReader) => (.ok (header, responseReader), responseReader.reader)
    | (.error e, responseReader) => (.error e, responseReader.reader)
    | (.panic, responseReader) => (.panic, responseReader.reader)

/-! ## What is read of what is written -/

/-- A command is left out if its length does not fit in a byte. -/
def shortCommand (addressString : Address → Bytes) (command : Option CommandSwitchAccount) :
    Option CommandSwitchAccount :=
  command.filter fun cmd => (switchAccountFields addressString cmd).length + 4 ≤ 255

/-- The command can be told from its fields: its host has a text that stands for it. -/
def IsReadable (addressString : Address → Bytes) (parseIP : Bytes → Option IPv6)
    (cmd : CommandSwitchAccount) : Prop :=
  cmd.level.toNat ≤ 255 ∧
    ∀ a, cmd.host = some a → addressString a ≠ [] ∧ parseAddress parseIP (addressString a) = a

section

variable {ι : Type} {readFull : ReadFull ι} {P : ι → Bytes → Prop} {addressString : Address → Bytes}
  {parseIP : Bytes → Option IPv6}

theorem length_encodeFields (expected : UInt8) (header : ResponseHeader) :
    (encodeFields addressString expected header).length < 2 ^ 16 := by
  rw [encodeFields, List.length_append]
  rcases hcmd : header.command with - | cmd
  · exact (by decide : 4 < 2 ^ 16)
  · rw [marshalCommand_some]
    have hlength := length_switchAccountFields addressString cmd
    split_ifs with hlong
    · exact (by decide : 4 < 2 ^ 16)
    · simp only [List.length_append, List.length_cons, List.length_nil, length_bigEndian]
      omega

theorem readBytes_serves : readBytes.Serves Eq := by
  rintro i a rest rfl
  refine ⟨rest, ?_, rfl⟩
  rw [readBytes, List.take_left, List.drop_left, if_pos (by simp)]

theorem readStart_serves (h : readFull.Serves P) {i : ι} {responseHeader option cmdID dataLen : UInt8}
    {rest : Bytes} (hi : P i ([responseHeader, option, cmdID, dataLen] ++ rest)) :
    ∃ b i', readStart readFull .new i = (.ok (responseHeader, option, cmdID, dataLen), b, i') ∧
      P i' rest := by
  obtain ⟨i', hread, hi'⟩ := Reading.readFullFrom_serves h (b := .new) hi
    (show 0 + 4 ≤ bufSize by decide)
  exact ⟨_, i', Reading.bind_of_ok hread, hi'⟩

theorem decodeResponseFields_of_start (h : readFull.Serves P) {expected option cmdID dataLen : UInt8}
    {i : ι} {rest : Bytes} (hi : P i ([expected, option, cmdID, dataLen] ++ rest)) :
    ∃ i', P i' rest ∧ decodeResponseFields readFull parseIP expected i =
      match readCommand readFull parseIP cmdID dataLen i' with
      | (.ok command, i) => (.ok { option, command }, i)
      | (.error e, i) => (.error e, i)
      | (.panic, i) => (.panic, i) := by
  obtain ⟨b, i', hstart, hi'⟩ := readStart_serves h hi
  refine ⟨i', hi', ?_⟩
  rw [decodeResponseFields, hstart]
  exact if_neg (not_not.2 rfl)

/-- What is written is short enough to be read into a buffer. -/
theorem readCommand_of_short (h : readFull.Serves P) {cmd : CommandSwitchAccount}
    (hshort : (hostStr addressString cmd).length + 27 ≤ 255)
    (hcmd : IsReadable addressString parseIP cmd) {i : ι} {rest : Bytes}
    (hi : P i ((bigEndian 4 (authenticate (switchAccountFields addressString cmd)).toNat ++
      switchAccountFields addressString cmd) ++ rest)) :
    ∃ i', readCommand readFull parseIP 1
      (UInt8.ofNat ((hostStr addressString cmd).length + 27)) i = (.ok (some cmd), i') ∧ P i' rest := by
  have hfields := length_switchAccountFields addressString cmd
  have hunmarshal := unmarshalCommand_fields addressString cmd (by omega) hcmd.1 hcmd.2
  have hlength : (bigEndian 4 (authenticate (switchAccountFields addressString cmd)).toNat ++
      switchAccountFields addressString cmd).length = (hostStr addressString cmd).length + 27 := by
    rw [List.length_append, length_bigEndian, hfields]
    omega
  generalize bigEndian 4 (authenticate (switchAccountFields addressString cmd)).toNat ++
    switchAccountFields addressString cmd = command at hi hlength hunmarshal
  have hfits : command.length ≤ bufSize := by
    rw [bufSize]
    omega
  obtain ⟨i', hread, hi'⟩ := Reading.readFullFrom_serves h (b := .new) hi
    (show 0 + command.length ≤ bufSize by omega)
  rw [hlength] at hread
  refine ⟨i', ?_, hi'⟩
  rw [readCommand, if_neg (by decide), UInt8.toNat_ofNat_of_lt' (show _ < 256 by omega), hread]
  dsimp only
  rw [Buffer.write_new command hfits, hunmarshal]

/-- A command that is short enough is read, and none otherwise. -/
theorem decodeResponseFields_encodeFields (h : readFull.Serves P) {expected : UInt8}
    {header : ResponseHeader} (hcmd : ∀ cmd, header.command = some cmd →
      IsReadable addressString parseIP cmd) {i : ι} {rest : Bytes}
    (hi : P i (encodeFields addressString expected header ++ rest)) :
    ∃ i', decodeResponseFields readFull parseIP expected i =
      (.ok { header with command := shortCommand addressString header.command }, i') ∧
      P i' rest := by
  obtain ⟨option, command⟩ := header
  have hnone : marshalCommand addressString command = .error ErrUnknownCommand ∨
      marshalCommand addressString command = .error ErrCommandTooLarge →
      shortCommand addressString command = none → ∃ i', decodeResponseFields readFull parseIP expected i =
        (.ok { option, command := shortCommand addressString command }, i') ∧ P i' rest := by
    intro hmarshal hshort
    have hfields : encodeFields addressString expected ⟨option, command⟩ =
        [expected, option, 0, 0] := by
      rcases hmarshal with hmarshal | hmarshal <;> rw [encodeFields, hmarshal] <;> rfl
    rw [hfields] at hi
    obtain ⟨i', hi', hdecode⟩ := decodeResponseFields_of_start h hi
    exact ⟨i', by rw [hdecode, hshort, readCommand, if_pos rfl], hi'⟩
  rcases command with - | cmd
  · exact hnone (.inl rfl) rfl
  have hmarshal := marshalCommand_some addressString cmd
  have hlength := length_switchAccountFields addressString cmd
  by_cases hlong : (hostStr addressString cmd).length + 27 > 255
  · rw [if_pos hlong] at hmarshal
    exact hnone (.inr hmarshal) (by rw [shortCommand, Option.filter_some, if_neg (by simp; omega)])
  · rw [if_neg hlong] at hmarshal
    rw [encodeFields, hmarshal] at hi
    have hi : P i ([expected, option, 1, UInt8.ofNat ((hostStr addressString cmd).length + 27)] ++
        ((bigEndian 4 (authenticate (switchAccountFields addressString cmd)).toNat ++
          switchAccountFields addressString cmd) ++ rest)) := hi
    obtain ⟨i', hi', hdecode⟩ := decodeResponseFields_of_start h hi
    obtain ⟨i'', hread, hi''⟩ := readCommand_of_short h (not_lt.1 hlong) (hcmd cmd rfl) hi'
    refine ⟨i'', ?_, hi''⟩
    rw [hdecode, hread, shortCommand, Option.filter_some, if_pos (by simp; omega)]

end

/-- What is sealed is opened, and what is encrypted is decrypted. -/
structure ResponsePrimitives.IsLawful (pr : ResponsePrimitives) : Prop where
  overhead (key) : (pr.gcm key).overhead = 16
  inverts (key) : (pr.gcm key).Inverts
  stream (key iv) : (pr.aesDecryptionStream key iv).Inverts (pr.aesEncryptionStream key iv)

section

variable {pr : ResponsePrimitives}

theorem openResponse_sealResponse (hpr : pr.IsLawful) (key iv : Block) {header body : Bytes}
    (hlength : header.length < 2 ^ 16) {conn : BufferedReader}
    (hconn : conn.bytes = sealResponse pr key iv header ++ body) :
    ∃ conn', openResponse pr key iv conn = (.ok header, conn') ∧ conn'.bytes = body ∧
      conn'.reader.err = conn.reader.err := by
  have hover (salt : Bytes) : (responseAEAD pr salt key).overhead = 16 := hpr.overhead _
  have hinverts (salt : Bytes) : (responseAEAD pr salt key).Inverts := hpr.inverts _
  have hsealed₁ := (responseAEAD pr kdfSaltConstAEADRespHeaderLenKey key).length_seal
    (responseNonce pr kdfSaltConstAEADRespHeaderLenIV iv)
    (bigEndian 2 (UInt16.ofNat header.length).toNat) []
  have hsealed₂ := (responseAEAD pr kdfSaltConstAEADRespHeaderPayloadKey key).length_seal
    (responseNonce pr kdfSaltConstAEADRespHeaderPayloadIV iv) header []
  rw [hover, length_bigEndian] at hsealed₁
  rw [hover] at hsealed₂
  rw [sealResponse, List.append_assoc] at hconn
  obtain ⟨conn₁, hread₁, hconn₁, herr₁⟩ := feeds_bufferedReader conn.reader.err conn _ 18 ⟨hconn, rfl⟩
    (by rw [List.length_append, hsealed₁]; exact Nat.le_add_right _ _)
  rw [List.take_left' hsealed₁] at hread₁
  rw [List.drop_left' hsealed₁] at hconn₁
  have hlen : (UInt16.ofNat header.length).toNat = header.length := UInt16.toNat_ofNat_of_lt' hlength
  obtain ⟨conn₂, hread₂, hconn₂, herr₂⟩ := feeds_bufferedReader conn.reader.err conn₁ _
    (header.length + 16) ⟨hconn₁, herr₁⟩
    (by rw [List.length_append, hsealed₂]; exact Nat.le_add_right _ _)
  rw [List.take_left' hsealed₂] at hread₂
  rw [List.drop_left' hsealed₂] at hconn₂
  refine ⟨conn₂, ?_, hconn₂, herr₂⟩
  have htake : (bigEndian 2 (UInt16.ofNat header.length).toNat).take 2 =
      bigEndian 2 (UInt16.ofNat header.length).toNat :=
    List.take_of_length_le (length_bigEndian _ _).le
  rw [openResponse, hread₁]
  dsimp only
  rw [hinverts]
  dsimp only
  rw [if_neg (by rw [length_bigEndian]; decide), htake, ofBigEndian_bigEndian (UInt16.toNat_lt _), hlen,
    hread₂]
  dsimp only
  rw [hinverts]

/-- What is encrypted behind the fields is decrypted behind them. -/
theorem decrypt_behind {decryption encryption : StreamCipher} (h : decryption.Inverts encryption)
    (fields plain : Bytes) :
    decryption.xorKeyStream (encryption.xorKeyStream [] fields)
      (encryption.xorKeyStream fields plain) = plain := by
  have hall := h (fields ++ plain)
  rw [encryption.xorKeyStream_append, decryption.xorKeyStream_append, h fields, List.nil_append,
    List.nil_append] at hall
  exact List.append_cancel_left hall

variable {addressString : Address → Bytes} {parseIP : Bytes → Option IPv6} {header : ResponseHeader}
  {conn : BufferedReader} {body : Bytes} {expected : UInt8}

/-- Encrypted fields are read through the stream cipher, which is then at the body. -/
theorem decodeResponseFields_encrypted {decryption encryption : StreamCipher}
    (hinverts : decryption.Inverts encryption)
    (hcmd : ∀ cmd, header.command = some cmd → IsReadable addressString parseIP cmd)
    (hconn : conn.bytes =
      encryption.xorKeyStream [] (encodeFields addressString expected header) ++ body) :
    ∃ r : CryptionReader,
      decodeResponseFields CryptionReader.readInto parseIP expected
          { stream := decryption, reader := conn } =
        (.ok { header with command := shortCommand addressString header.command }, r) ∧
      r.reader.bytes = body ∧ r.reader.reader.err = conn.reader.err ∧
      r.bytes = decryption.xorKeyStream
        (encryption.xorKeyStream [] (encodeFields addressString expected header)) body := by
  obtain ⟨r, hdecode, hr⟩ := decodeResponseFields_encodeFields
    (CryptionReader.readInto_serves decryption conn.bytes conn.reader.err) hcmd
    (CryptionReader.decrypts_start hinverts hconn)
  have hbody : r.reader.bytes = body := by
    rw [hconn] at hr
    exact hr.reader_bytes (StreamCipher.length_xorKeyStream _ _ _)
  exact ⟨r, hdecode, hbody, hr.err, hr.bytes⟩

/-- A client of the older kind reads the fields through the stream cipher. -/
theorem decodeResponseHeader_legacy {c : ClientSession} (hc : c.isAEAD ≠ true) {r : CryptionReader}
    (hdecode : decodeResponseFields CryptionReader.readInto parseIP c.responseHeader
      { stream := pr.aesDecryptionStream c.responseBodyKey.1 c.responseBodyIV.1, reader := conn } =
        (.ok header, r)) :
    decodeResponseHeader pr parseIP c conn = (.ok (header, r), r.reader) := by
  simp only [decodeResponseHeader, if_neg hc, hdecode]

/-- The sessions of a request, on its two ends. -/
structure Corresponds (s : ServerSession) (c : ClientSession) : Prop where
  requestBodyKey : s.requestBodyKey = c.requestBodyKey
  requestBodyIV : s.requestBodyIV = c.requestBodyIV
  responseHeader : s.responseHeader = c.responseHeader
  isAEAD : s.isAEADRequest = c.isAEAD

/-- The client reads the header and stops at the first byte of the body, which it decrypts where
    the server encrypted it. -/
theorem decodeResponseHeader_encodeResponseHeader (hpr : pr.IsLawful) (isAEAD : Bool)
    (randomBytes : { b : Bytes // b.length = 33 }) {s : ServerSession}
    (hs : Corresponds s (newClientSession pr isAEAD randomBytes))
    (hcmd : ∀ cmd, header.command = some cmd → IsReadable addressString parseIP cmd)
    (hconn : conn.bytes = (encodeResponseHeader pr addressString s header).1 ++ body) :
    ∃ r, decodeResponseHeader pr parseIP (newClientSession pr isAEAD randomBytes) conn =
        (.ok ({ header with command := shortCommand addressString header.command }, r), r.reader) ∧
      r.reader.bytes = body ∧ r.reader.reader.err = conn.reader.err ∧
      ∀ plain, ((encodeResponseHeader pr addressString s header).2.write plain).1 = body →
        r.bytes = plain := by
  obtain ⟨hkey, hiv, hexpected, haead⟩ := hs
  have hderived : (newClientSession pr isAEAD randomBytes).responseBodyKey =
      responseBody pr s.isAEADRequest s.requestBodyKey := by rw [hkey, haead]; rfl
  have hderived' : (newClientSession pr isAEAD randomBytes).responseBodyIV =
      responseBody pr s.isAEADRequest s.requestBodyIV := by rw [hiv, haead]; rfl
  rw [encodeResponseHeader] at hconn ⊢
  rw [decodeResponseHeader, hderived, hderived', ← hexpected, ← haead]
  generalize responseBody pr s.isAEADRequest s.requestBodyKey = key at hconn ⊢
  generalize responseBody pr s.isAEADRequest s.requestBodyIV = iv at hconn ⊢
  have hinverts := hpr.stream key.1 iv.1
  split_ifs at hconn ⊢ with hsealed
  · obtain ⟨conn', hopen, hbody, herr⟩ := openResponse_sealResponse hpr key iv
      (length_encodeFields s.responseHeader header) hconn
    obtain ⟨_, hdecode, -⟩ := decodeResponseFields_encodeFields readBytes_serves hcmd
      (List.append_nil (encodeFields addressString s.responseHeader header)).symm
    refine ⟨{ stream := pr.aesDecryptionStream key.1 iv.1, reader := conn' }, ?_, hbody, herr,
      fun plain hplain => ?_⟩
    · simp only [hopen, hdecode]
    · rw [CryptionReader.bytes, hbody, ← hplain]
      exact hinverts plain
  · obtain ⟨r, hdecode, hbody, herr, hbytes⟩ := decodeResponseFields_encrypted hinverts hcmd hconn
    refine ⟨r, ?_, hbody, herr, fun plain hplain => ?_⟩
    · simp only [hdecode]
    · rw [hbytes, ← hplain]
      exact decrypt_behind hinverts _ plain

end

/-! ## Two responses -/

/-- Keys that are those of the request, a stream cipher that changes nothing, and a tag of zeros. -/
def exampleResponsePrimitives : ResponsePrimitives where
  sha256 b := b
  hmac _ key message := key ++ message
  md5 b := b
  gcm _ := Shadowsocks.exampleAEAD
  aesDecryptionStream _ _ _ x := x
  aesEncryptionStream _ _ _ x := x

theorem xorKeyStream_id (past b : Bytes) :
    StreamCipher.xorKeyStream (fun _ x => x) past b = b := by
  induction b generalizing past with
  | nil => rfl
  | cons x b ih => exact congrArg (x :: ·) (ih _)

theorem exampleResponsePrimitives_isLawful : exampleResponsePrimitives.IsLawful where
  overhead _ := rfl
  inverts _ := Shadowsocks.exampleAEAD_isStandard.inverts
  stream _ _ _ := (xorKeyStream_id _ _).trans (xorKeyStream_id _ _)

/-- The text of an address that is a domain. -/
def exampleAddressString : Address → Bytes
  | .domain name => name
  | .ipv4 ip => ip.1
  | .ipv6 ip => ip.1

def exampleSwitchAccount (host : Address) : CommandSwitchAccount where
  host := some host
  port := 443
  id := toBlock []
  alterIds := 1
  validMin := 5

def exampleRandomBytes : { b : Bytes // b.length = 33 } := ⟨List.replicate 33 0, rfl⟩

/-- What a server writes to the client. -/
def exampleResponse (isAEAD : Bool) (header : ResponseHeader) : Bytes :=
  (encodeResponseHeader exampleResponsePrimitives exampleAddressString { isAEADRequest := isAEAD }
    header).1

def exampleConn (b : Bytes) : BufferedReader where
  reader := { segments := [MultiBuffer.mergeBytes [] b], err := .eof }

theorem exampleConn_bytes (b : Bytes) : (exampleConn b).bytes = b := by
  simp [exampleConn, BufferedReader.bytes, Source.bytes]

def exampleHeader : ResponseHeader where
  option := 0
  command := some (exampleSwitchAccount (.domain (ascii "a.b")))

/-- A sealed header whose command has a host. -/
theorem decodeResponseHeader_host :
    ∃ r, decodeResponseHeader exampleResponsePrimitives (fun _ => none)
        (newClientSession exampleResponsePrimitives true exampleRandomBytes)
        (exampleConn (exampleResponse true exampleHeader)) = (.ok (exampleHeader, r), r.reader) ∧
      r.reader.bytes = [] := by
  have hcmd : ∀ cmd, exampleHeader.command = some cmd →
      IsReadable exampleAddressString (fun _ => none) cmd := by
    rintro _ ⟨⟩
    refine ⟨by decide, ?_⟩
    rintro _ ⟨⟩
    exact ⟨by decide, by decide⟩
  have hshort : shortCommand exampleAddressString exampleHeader.command = exampleHeader.command := rfl
  have hconn : (exampleConn (exampleResponse true exampleHeader)).bytes =
      exampleResponse true exampleHeader ++ [] := by rw [exampleConn_bytes, List.append_nil]
  have hs : Corresponds { isAEADRequest := true }
      (newClientSession exampleResponsePrimitives true exampleRandomBytes) := ⟨rfl, rfl, rfl, rfl⟩
  obtain ⟨r, hdecode, hbody, -⟩ := decodeResponseHeader_encodeResponseHeader
    exampleResponsePrimitives_isLawful true exampleRandomBytes hs hcmd hconn
  rw [hshort] at hdecode
  exact ⟨r, hdecode, hbody⟩

/-- A domain without a name stands for its text, but the client takes it for no host. -/
theorem decodeResponseHeader_emptyHost :
    parseAddress (fun _ => none) (exampleAddressString (.domain [])) = .domain [] ∧
      ∃ r, decodeResponseHeader exampleResponsePrimitives (fun _ => none)
          (newClientSession exampleResponsePrimitives false exampleRandomBytes)
          (exampleConn (exampleResponse false ⟨0, some (exampleSwitchAccount (.domain []))⟩)) =
        (.ok (⟨0, some { exampleSwitchAccount (.domain []) with host := none }⟩, r), r.reader) := by
  refine ⟨by decide, ?_⟩
  -- The text is that of no host.
  have hconn : (exampleConn (exampleResponse false ⟨0, some (exampleSwitchAccount (.domain []))⟩)).bytes =
      StreamCipher.xorKeyStream (fun _ x => x) [] (encodeFields exampleAddressString 0
        ⟨0, some { exampleSwitchAccount (.domain []) with host := none }⟩) ++ [] := by
    rw [exampleConn_bytes, List.append_nil]
    rfl
  have hinverts : StreamCipher.Inverts (fun _ x => x) (fun _ x => x) :=
    exampleResponsePrimitives_isLawful.stream [] []
  have hcmd : ∀ cmd, some { exampleSwitchAccount (.domain []) with host := none } = some cmd →
      IsReadable exampleAddressString (fun _ => none) cmd := by
    rintro _ ⟨⟩
    exact ⟨by decide, by rintro _ ⟨⟩⟩
  obtain ⟨r, hdecode, -⟩ := decodeResponseFields_encrypted hinverts hcmd hconn
  exact ⟨r, decodeResponseHeader_legacy (by decide) hdecode⟩

end Encoding

end Gzv2ray.Vmess
