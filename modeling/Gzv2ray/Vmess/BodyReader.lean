import Gzv2ray.Crypto.Decryption
import Gzv2ray.Crypto.Delivery
import Gzv2ray.Vmess.Body

/-!
# Reading bodies

The reader of a body is chosen by the options and the security of the request, as its writer is
(`decodeBody`): it reads chunks, opens them, decrypts, or reads the connection as it is.

`decodeBody_encodeBody`: where the options and the security are supported, a body has a writer and
a reader, and the reader returns what is sent of any writes, however the transport is cut
(`Delivers`).
-/

namespace Gzv2ray.Vmess

namespace Encoding

/-- What bodies are sealed, encrypted, opened and decrypted with. -/
structure CodecPrimitives extends ResponsePrimitives where
  newChacha20Poly1305 : (key : Bytes) → AEAD
  shake128 : (seed : Bytes) → ℕ → UInt8

/-- Bodies are sealed with the AEAD of the headers. -/
def CodecPrimitives.body (pr : CodecPrimitives) : BodyPrimitives where
  newAesGcm := pr.gcm
  newChacha20Poly1305 := pr.newChacha20Poly1305
  md5 := pr.md5
  shake128 := pr.shake128
  aesEncryptionStream := pr.aesEncryptionStream

/-! ## Readers -/

/-- What a body is read through. -/
inductive BodyReader
  | chunkStream (c : ChunkCodec) (r : ChunkStreamReader c)
  | sealed (c : ChunkCodec) (r : AuthenticationReader c)
  | plain (r : BufferedReader)
  | decrypted (r : CryptionReader)

def BodyReader.readMultiBuffer : MultiReader BodyReader
  | .chunkStream c r =>
    let (out, r) := r.readMultiBuffer
    (out, .chunkStream c r)
  | .sealed c r =>
    let (call, r) := r.readMultiBuffer
    (call.result, .sealed c r)
  | .plain r =>
    let (out, r) := BufferedReader.readBuffers r
    (out, .plain r)
  | .decrypted r =>
    let (out, r) := CryptionReader.readBuffers r
    (out, .decrypted r)

section

variable (pr : CodecPrimitives)

/-- The reader of a body, with what the byte pool hands out. -/
def decodeBody (key iv : Block) (decryption : CryptionReader) (pool : List Bool)
    (reader : BufferedReader) (request : RequestHeader) : Outcome BodyReader :=
  let codec (auth : AEADAuthenticator) := bodyCodec pr.body auth iv request.option
  let sealed (auth : AEADAuthenticator) (reader : BufferedReader) : BodyReader :=
    .sealed (codec auth) { reader, pool }
  -- Plain sizes are not a generator of padding, which is asserted.
  if has request.option requestOptionGlobalPadding ∧
      ¬ has request.option requestOptionChunkMasking then .panic
  else
    match request.security with
    | .none =>
      if has request.option requestOptionChunkStream then
        if transferType request.command = .stream then
          .ok (.chunkStream (codec (withoutNonce noOpAuthenticator)) { reader })
        else .ok (sealed (withoutNonce noOpAuthenticator) reader)
      else .ok (.plain reader)
    | .legacy =>
      if has request.option requestOptionChunkStream then
        .ok (sealed (withoutNonce fnvAuthenticator) decryption.buffered)
      else .ok (.decrypted decryption)
    | .aes128Gcm => .ok (sealed (chunkAuthenticator (pr.gcm key.1) iv) reader)
    | .chacha20Poly1305 =>
      .ok (sealed (chunkAuthenticator
        (pr.newChacha20Poly1305 (generateChacha20Poly1305Key pr.body key.1)) iv) reader)
    | _ => .panic

/-- The server decrypts from the start. -/
def decodeRequestBody (s : ServerSession) (pool : List Bool) (reader : BufferedReader)
    (request : RequestHeader) : Outcome BodyReader :=
  decodeBody pr s.requestBodyKey s.requestBodyIV
    { stream := pr.aesDecryptionStream s.requestBodyKey.1 s.requestBodyIV.1, reader } pool reader
    request

/-- The client decrypts with the reader that the header has left. -/
def decodeResponseBody (c : ClientSession) (responseReader : CryptionReader) (pool : List Bool)
    (reader : BufferedReader) (request : RequestHeader) : Outcome BodyReader :=
  decodeBody pr c.responseBodyKey c.responseBodyIV responseReader pool reader request

end

/-! ## Writes -/

/-- What is encrypted if there is a stream cipher. -/
def encrypt (encryption : Option CryptionWriter) (b : Bytes) : Bytes :=
  match encryption with
  | none => b
  | some w => (w.write b).1

/-- The bytes that writes put on the connection. -/
def BodyWriter.writes (mbs : List MultiBuffer) : BodyWriter → Outcome Bytes
  | .chunkStream c => (c.parser.writes {} mbs).1
  | .sealed _ w encryption => (w.writes mbs).1.map (encrypt encryption)
  | .plain encryption => .ok (encrypt encryption (mbs.flatMap MultiBuffer.bytes))

/-- No packet is dropped: all fit in a buffer, with the padding that is drawn. -/
def BodyWriter.KeepsAll (mbs : List MultiBuffer) : BodyWriter → Prop
  | .sealed _ w _ => w.transferType = .packet → w.KeepsAll mbs
  | _ => True

/-! ## What is to be read -/

variable (request : RequestHeader) (mbs : List MultiBuffer)

/-- Whether a body is cut into chunks. -/
def isChunked : Bool :=
  has request.option requestOptionChunkStream || request.security = .aes128Gcm ||
    request.security = .chacha20Poly1305

/-- The chunks of a stream without security are not sealed. -/
def isSealed : Bool :=
  isChunked request && !(request.security = .none && transferType request.command = .stream)

/-- The writes whose content is to be read: chunks end at a write of no bytes, and a write of too many
    buffers returns an error where they are sealed. -/
def sent : List MultiBuffer :=
  if isSealed request then AuthenticationWriter.sent (transferType request.command) mbs
  else if isChunked request then upToEnd mbs
  else mbs

/-- How the reader is to end: where the chunks do, or with the transport. -/
def bodyError (err : Error) : Error := if isChunked request then endError mbs err else err

/-- The reader returns the bytes that are sent, in order, or their packets. -/
def BodyReader.Delivers (err : Error) (r : BodyReader) : Prop :=
  ∃ mb, Returns readMultiBuffer r mb (bodyError request mbs err) ∧
    (transferType request.command = .stream ∨ ¬ isChunked request →
      MultiBuffer.bytes mb = (sent request mbs).flatMap MultiBuffer.bytes) ∧
    (transferType request.command = .packet → isChunked request →
      mb.map Buffer.bytes = AuthenticationWriter.packets (sent request mbs))

/-! ## Bodies that are read -/

/-- What is sealed is opened, and what is encrypted is decrypted. -/
structure CodecPrimitives.IsLawful (pr : CodecPrimitives) : Prop where
  response : pr.toResponsePrimitives.IsLawful
  nonceSize_gcm (key) : (pr.gcm key).nonceSize = 12
  nonceSize_chacha20Poly1305 (key) : (pr.newChacha20Poly1305 key).nonceSize = 12
  inverts_chacha20Poly1305 (key) : (pr.newChacha20Poly1305 key).Inverts

theorem chunkAuthenticator_lawful {aead : AEAD} (hsize : aead.nonceSize = 12) (h : aead.Inverts)
    (iv : Block) : (chunkAuthenticator aead iv).Lawful where
  nonce k := length_generateChunkNonce iv (show aead.nonceSize ≤ 16 by omega) k
  inverts := h

theorem bodyCodec_lawful {pr : BodyPrimitives} {auth : AEADAuthenticator} (h : auth.Lawful) (iv : Block)
    (option : UInt8) : (bodyCodec pr auth iv option).Lawful where
  auth := h
  sizeParser _ hparser := by
    rw [bodyCodec] at hparser
    split_ifs at hparser

/-- A reader decrypts what a writer encrypts on a connection. -/
structure Connects (encryption : CryptionWriter) (decryption : CryptionReader) (reader : BufferedReader) :
    Prop where
  decrypts (plain) : (encryption.write plain).1 = reader.bytes → decryption.bytes = plain
  err : decryption.reader.reader.err = reader.reader.err

variable {request mbs}

section

variable {encryption : CryptionWriter} {c : ChunkCodec} {rand : ℕ → UInt8}

variable (request mbs encryption) in
/-- What is written through the one is returned by the others, which decode the same body. -/
def IsRead (w : BodyWriter)
    (decode : CryptionReader → List Bool → BufferedReader → BodyReader) : Prop :=
  ∃ out, w.writes mbs = .ok out ∧ ∀ decryption pool reader, reader.bytes = out →
    Connects encryption decryption reader → w.KeepsAll mbs →
      (decode decryption pool reader).Delivers request mbs reader.reader.err

theorem isChunked_of_isSealed (h : isSealed request = true) : isChunked request = true := by
  rw [isSealed, Bool.and_eq_true] at h
  exact h.1

theorem isRead_plain (h : isChunked request = false) :
    IsRead request mbs encryption (.plain none) fun _ _ reader => .plain reader := by
  refine ⟨_, rfl, fun _ _ reader hreader _ _ => ?_⟩
  obtain ⟨mb, hreturns, hmb⟩ := reader.returns
  refine ⟨mb, ?_, fun _ => ?_, fun _ hchunked => ?_⟩
  · rw [bodyError, h]
    exact hreturns.map (f := BodyReader.plain) fun _ => rfl
  · rw [hmb, hreader, sent, isSealed, h]
    rfl
  · rw [h] at hchunked
    cases hchunked

theorem isRead_decrypted (h : isChunked request = false) :
    IsRead request mbs encryption (.plain (some encryption)) fun decryption _ _ =>
      .decrypted decryption := by
  refine ⟨_, rfl, fun decryption _ reader hreader hconnects _ => ?_⟩
  obtain ⟨mb, hreturns, hmb⟩ := decryption.returns
  rw [hconnects.err] at hreturns
  refine ⟨mb, ?_, fun _ => ?_, fun _ hchunked => ?_⟩
  · rw [bodyError, h]
    exact hreturns.map (f := BodyReader.decrypted) fun _ => rfl
  · rw [hmb, hconnects.decrypts _ hreader.symm, sent, isSealed, h]
    rfl
  · rw [h] at hchunked
    cases hchunked

theorem isRead_chunkStream (hc : c.Lawful) (hchunked : isChunked request = true)
    (hplain : isSealed request = false) (hstream : transferType request.command = .stream)
    (hcapacity : ∀ mb ∈ mbs, 0 ≤ ChunkSizeParser.capacity mb) :
    IsRead request mbs encryption (.chunkStream c) fun _ _ reader => .chunkStream c { reader } := by
  have hwrites := ChunkSizeParser.writes_spec (ChunkCodec.parser_isInverse hc)
    (c.sizeBytes_le.2.trans (by decide)) hcapacity {}
  refine ⟨_, by rw [BodyWriter.writes, hwrites], fun _ _ reader hreader _ _ => ?_⟩
  obtain ⟨mb, hreturns, hmb⟩ := ChunkStreamReader.returns_writes hc hwrites hreader
  refine ⟨mb, ?_, fun _ => ?_, fun hpacket => ?_⟩
  · rw [bodyError, hchunked]
    exact hreturns.map (f := BodyReader.chunkStream c) fun _ => rfl
  · rw [hmb, sent, hplain, hchunked]
    rfl
  · rw [hstream] at hpacket
    cases hpacket

theorem delivers_of_isSent (hsealed : isSealed request = true) {r : AuthenticationReader c}
    {mb : MultiBuffer} {err : Error} (h : Returns AuthenticationReader.readBuffers r mb (endError mbs err))
    (hsent : AuthenticationWriter.IsSent (transferType request.command) mbs mb) :
    (BodyReader.sealed c r).Delivers request mbs err := by
  have hchunked := isChunked_of_isSealed hsealed
  refine ⟨mb, ?_, fun hstream => ?_, fun hpacket _ => ?_⟩
  · rw [bodyError, hchunked]
    exact h.map (f := BodyReader.sealed c) fun _ => rfl
  · have htype := hstream.resolve_right (not_not.2 hchunked)
    rw [sent, hsealed, htype]
    rw [htype] at hsent
    exact hsent
  · rw [sent, hsealed, hpacket]
    rw [hpacket] at hsent
    exact hsent

theorem isRead_sealed (hc : c.Lawful) (hsealed : isSealed request = true) :
    IsRead request mbs encryption
      (.sealed c { transferType := transferType request.command, rand } none) fun _ pool reader =>
        .sealed c { reader, pool } := by
  obtain ⟨out, w', hwrites, hreads⟩ := AuthenticationWriter.returns_writes hc
    { transferType := transferType request.command, rand } mbs
  refine ⟨out, by rw [BodyWriter.writes, hwrites]; rfl, fun _ pool reader hreader _ hkeeps => ?_⟩
  obtain ⟨mb, hreturns, hsent⟩ := hreads reader pool hreader hkeeps
  exact delivers_of_isSent hsealed hreturns hsent

theorem isRead_sealed_encrypted (hc : c.Lawful) (hsealed : isSealed request = true) :
    IsRead request mbs encryption
      (.sealed c { transferType := transferType request.command, rand } (some encryption))
      fun decryption pool _ => .sealed c { reader := decryption.buffered, pool } := by
  obtain ⟨out, w', hwrites, hreads⟩ := AuthenticationWriter.returns_writes hc
    { transferType := transferType request.command, rand } mbs
  refine ⟨_, by rw [BodyWriter.writes, hwrites]; rfl,
    fun decryption pool reader hreader hconnects hkeeps => ?_⟩
  have hbytes := decryption.bytes_buffered.trans (hconnects.decrypts out hreader.symm)
  obtain ⟨mb, hreturns, hsent⟩ := hreads decryption.buffered pool hbytes hkeeps
  rw [show decryption.buffered.reader.err = reader.reader.err from hconnects.err] at hreturns
  exact delivers_of_isSent hsealed hreturns hsent

end

/-! ## The choice of the codec -/

section

variable {pr : CodecPrimitives}

/-- There is a writer and a reader for the options and the security. -/
structure IsSupported (request : RequestHeader) : Prop where
  padding : has request.option requestOptionGlobalPadding = true →
    has request.option requestOptionChunkMasking = true
  security : request.security = .none ∨ request.security = .legacy ∨
    request.security = .aes128Gcm ∨ request.security = .chacha20Poly1305

variable (request) in
/-- Whether chunks are written that are not sealed. -/
def IsBare : Prop := isChunked request = true ∧ isSealed request = false

/-- What is written of a body is read, by the reader of the same body. -/
theorem decodeBody_encodeBody (hpr : pr.IsLawful) (h : IsSupported request) (key iv : Block)
    (encryption : CryptionWriter) (rand : ℕ → UInt8) :
    ∃ w decode, encodeBody pr.body key iv encryption rand request = .ok w ∧
      (∀ decryption pool reader, decodeBody pr key iv decryption pool reader request =
        .ok (decode decryption pool reader)) ∧
      ∀ mbs, (IsBare request → ∀ mb ∈ mbs, 0 ≤ ChunkSizeParser.capacity mb) →
        IsRead request mbs encryption w decode := by
  have hpadding : ¬ (has request.option requestOptionGlobalPadding ∧
      ¬ has request.option requestOptionChunkMasking) := fun hp => hp.2 (h.padding hp.1)
  obtain ⟨-, hsecurity⟩ := h
  simp only [encodeBody, decodeBody, if_neg hpadding]
  rcases hsecurity with hsecurity | hsecurity | hsecurity | hsecurity <;> simp only [hsecurity]
  · -- Without encryption the chunks of a stream are the only ones that are not sealed.
    by_cases hchunk : has request.option requestOptionChunkStream = true
    · by_cases htype : transferType request.command = .stream
      · have hbare : IsBare request := by simp [IsBare, isSealed, isChunked, hchunk, hsecurity, htype]
        simp only [if_pos hchunk, if_pos htype]
        exact ⟨_, _, rfl, fun _ _ _ => rfl, fun mbs hcapacity => isRead_chunkStream
          (bodyCodec_lawful (withoutNonce_lawful rfl noOpAuthenticator_inverts) _ _)
          hbare.1 hbare.2 htype (hcapacity hbare)⟩
      · have hsealed : isSealed request = true := by
          simp [isSealed, isChunked, hchunk, hsecurity, htype]
        simp only [if_pos hchunk, if_neg htype]
        exact ⟨_, _, rfl, fun _ _ _ => rfl, fun mbs _ => isRead_sealed
          (bodyCodec_lawful (withoutNonce_lawful rfl noOpAuthenticator_inverts) _ _) hsealed⟩
    · have hplain : isChunked request = false := by simp [isChunked, hchunk, hsecurity]
      simp only [if_neg hchunk]
      exact ⟨_, _, rfl, fun _ _ _ => rfl, fun mbs _ => isRead_plain hplain⟩
  · -- The legacy security encrypts in any case. Its chunks are encrypted after they are sealed.
    by_cases hchunk : has request.option requestOptionChunkStream = true
    · have hsealed : isSealed request = true := by simp [isSealed, isChunked, hchunk, hsecurity]
      simp only [if_pos hchunk]
      exact ⟨_, _, rfl, fun _ _ _ => rfl, fun mbs _ => isRead_sealed_encrypted
        (bodyCodec_lawful (withoutNonce_lawful rfl fnvAuthenticator_inverts) _ _) hsealed⟩
    · have hplain : isChunked request = false := by simp [isChunked, hchunk, hsecurity]
      simp only [if_neg hchunk]
      exact ⟨_, _, rfl, fun _ _ _ => rfl, fun mbs _ => isRead_decrypted hplain⟩
  · -- With an AEAD all is sealed in chunks, whether the option is set or not.
    have hsealed : isSealed request = true := by simp [isSealed, isChunked, hsecurity]
    exact ⟨_, _, rfl, fun _ _ _ => rfl, fun mbs _ => isRead_sealed (bodyCodec_lawful
      (chunkAuthenticator_lawful (hpr.nonceSize_gcm _) (hpr.response.inverts _) _) _ _) hsealed⟩
  · have hsealed : isSealed request = true := by simp [isSealed, isChunked, hsecurity]
    exact ⟨_, _, rfl, fun _ _ _ => rfl, fun mbs _ => isRead_sealed (bodyCodec_lawful
      (chunkAuthenticator_lawful (hpr.nonceSize_chacha20Poly1305 _)
        (hpr.inverts_chacha20Poly1305 _) _) _ _) hsealed⟩

end

end Encoding

end Gzv2ray.Vmess
