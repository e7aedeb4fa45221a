import Gzv2ray.Crypto.Integrity
import Gzv2ray.Crypto.StreamRoundTrip
import Gzv2ray.Vmess.ResponseHeader

/-!
# Bodies

The body of a request, or of a response, is written in chunks, or as it is. The options tell
which, and how the sizes of the chunks are written; the security tells how the chunks are sealed
(`encodeBody`).

* `generateChunkNonce`: the nonces of the chunks, which count on sixteen bits;
* `bodyNonces_nodup_iff`: they are all different in bodies of up to 65536 chunks only.
-/

namespace Gzv2ray.Vmess

namespace Encoding

/-! ## Options -/

def requestOptionChunkStream : UInt8 := 0x01

def requestOptionChunkMasking : UInt8 := 0x04

def requestOptionGlobalPadding : UInt8 := 0x08

/-- Whether a mask contains another one. -/
def has (b bb : UInt8) : Bool := b &&& bb != 0

/-- `RequestCommand.TransferType` -/
def transferType (command : RequestCommand) : TransferType :=
  if command = requestCommandUDP then .packet else .stream

/-! ## Nonces -/

/-- `GenerateChunkNonce`: a count on sixteen bits takes the place of the first two bytes. -/
def generateChunkNonce (nonce : Block) (size : ℕ) : BytesGenerator := fun k =>
  (ChunkCodec.putUint16 (UInt16.ofNat k) ++ nonce.1.drop 2).take size

/-- What bodies are sealed and encrypted with. -/
structure BodyPrimitives where
  newAesGcm : (key : Bytes) → AEAD
  newChacha20Poly1305 : (key : Bytes) → AEAD
  md5 : Bytes → Bytes
  shake128 : (seed : Bytes) → ℕ → UInt8
  aesEncryptionStream : (key iv : Bytes) → StreamCipher

variable (pr : BodyPrimitives)

def generateChacha20Poly1305Key (b : Bytes) : Bytes := pr.md5 b ++ pr.md5 (pr.md5 b)

/-- The authenticator of the chunks of an AEAD. -/
def chunkAuthenticator (aead : AEAD) (iv : Block) : AEADAuthenticator where
  aead
  nonceGenerator := generateChunkNonce iv aead.nonceSize
  additionalDataGenerator := some generateEmptyBytes

/-! ## Writers -/

/-- The codec of the chunks: the sizes are masked, and padded, as the options tell. -/
def bodyCodec (auth : AEADAuthenticator) (iv : Block) (option : UInt8) : ChunkCodec where
  auth
  sizeParser := if has option requestOptionChunkMasking then .shake else .plain
  padding := has option requestOptionGlobalPadding
  shake := pr.shake128 iv.1

/-- What a body is written through, and the stream cipher that this is encrypted with. -/
inductive BodyWriter
  | chunkStream (c : ChunkCodec)
  | sealed (c : ChunkCodec) (w : AuthenticationWriter c) (encryption : Option CryptionWriter)
  | plain (encryption : Option CryptionWriter)

/-- The writer of a body, with random bytes for its padding. -/
def encodeBody (key iv : Block) (encryption : CryptionWriter) (rand : ℕ → UInt8)
    (request : RequestHeader) : Outcome BodyWriter :=
  let codec (auth : AEADAuthenticator) := bodyCodec pr auth iv request.option
  let sealed (auth : AEADAuthenticator) (encryption : Option CryptionWriter) : BodyWriter :=
    .sealed (codec auth) { transferType := transferType request.command, rand } encryption
  -- Plain sizes are not a generator of padding, which is asserted.
  if has request.option requestOptionGlobalPadding ∧
      ¬ has request.option requestOptionChunkMasking then .panic
  else
    match request.security with
    | .none =>
      if has request.option requestOptionChunkStream then
        if transferType request.command = .stream then
          .ok (.chunkStream (codec (withoutNonce noOpAuthenticator)))
        else .ok (sealed (withoutNonce noOpAuthenticator) none)
      else .ok (.plain none)
    | .legacy =>
      if has request.option requestOptionChunkStream then
        .ok (sealed (withoutNonce fnvAuthenticator) (some encryption))
      else .ok (.plain (some encryption))
    | .aes128Gcm => .ok (sealed (chunkAuthenticator (pr.newAesGcm key.1) iv) none)
    | .chacha20Poly1305 =>
      .ok (sealed (chunkAuthenticator
        (pr.newChacha20Poly1305 (generateChacha20Poly1305Key pr key.1)) iv) none)
    | _ => .panic

/-- The client encrypts from the start. -/
def encodeRequestBody (c : ClientSession) (rand : ℕ → UInt8) (request : RequestHeader) :
    Outcome BodyWriter :=
  encodeBody pr c.requestBodyKey c.requestBodyIV
    { stream := pr.aesEncryptionStream c.requestBodyKey.1 c.requestBodyIV.1 } rand request

/-- The server encrypts with the writer that the header has left, and under the keys of the
    response. -/
def encodeResponseBody (responseBodyKey responseBodyIV : Block) (responseWriter : CryptionWriter)
    (rand : ℕ → UInt8) (request : RequestHeader) : Outcome BodyWriter :=
  encodeBody pr responseBodyKey responseBodyIV responseWriter rand request

/-! ## The nonces of a body -/

variable {pr}

theorem length_generateChunkNonce (nonce : Block) {size : ℕ} (hsize : size ≤ 16) (k : ℕ) :
    (generateChunkNonce nonce size k).length = size := by
  rw [generateChunkNonce, List.length_take, List.length_append, ChunkCodec.length_putUint16,
    List.length_drop, nonce.2]
  omega

/-- Nonces are the same where their counts are, on sixteen bits. -/
theorem generateChunkNonce_eq_iff (nonce : Block) {size : ℕ} (hsize : 2 ≤ size) (j k : ℕ) :
    generateChunkNonce nonce size j = generateChunkNonce nonce size k ↔
      j % 2 ^ 16 = k % 2 ^ 16 := by
  -- the count is read back from the first two bytes
  have hread : ∀ k, (ChunkCodec.uint16 (generateChunkNonce nonce size k)).toNat = k % 2 ^ 16 := by
    intro k
    obtain ⟨rest, hrest⟩ : ∃ rest, generateChunkNonce nonce size k =
        ChunkCodec.putUint16 (UInt16.ofNat k) ++ rest := by
      rw [generateChunkNonce, List.take_append, ChunkCodec.length_putUint16,
        List.take_of_length_le (by rw [ChunkCodec.length_putUint16]; exact hsize)]
      exact ⟨_, rfl⟩
    rw [hrest, ChunkCodec.uint16_putUint16]
    rfl
  refine ⟨fun h => ?_, fun h => ?_⟩
  · rw [← hread j, h, hread k]
  · have hcount : UInt16.ofNat j = UInt16.ofNat k := UInt16.toNat_inj.1 h
    rw [generateChunkNonce, generateChunkNonce, hcount]

/-- The nonces of the calls that seal the chunks of a body. -/
def bodyNonces {c : ChunkCodec} (w : AuthenticationWriter c) : List Bytes :=
  w.seals.map fun s => c.auth.nonceGenerator s.1.nonce

/-- Where all calls are recorded, their nonces are those that are generated first. -/
theorem bodyNonces_eq {c : ChunkCodec} {w : AuthenticationWriter c} (h : w.Recorded) :
    bodyNonces w = (List.range w.seals.length).map c.auth.nonceGenerator := by
  apply List.ext_getElem?
  intro i
  rw [bodyNonces, List.getElem?_map, List.getElem?_map]
  rcases Nat.lt_or_ge i w.seals.length with hlt | hge
  · have hcall : w.seals[i].1.nonce = i := h.calls i _ _ (List.getElem?_eq_getElem hlt)
    rw [List.getElem?_range hlt, List.getElem?_eq_getElem hlt, Option.map_some, Option.map_some,
      hcall]
  · rw [List.getElem?_eq_none hge, List.getElem?_eq_none (by rwa [List.length_range])]
    rfl

/-- As many chunk nonces are all different as there are counts. -/
theorem nodup_generateChunkNonce_iff (nonce : Block) {size : ℕ} (hsize : 2 ≤ size) (n : ℕ) :
    ((List.range n).map (generateChunkNonce nonce size)).Nodup ↔ n ≤ 2 ^ 16 := by
  refine ⟨fun h => ?_, fun h => ?_⟩
  · by_contra hn
    -- the count has come back to zero
    have h0 := List.inj_on_of_nodup_map h (List.mem_range.2 (by omega : 0 < n))
      (List.mem_range.2 (by omega : 2 ^ 16 < n))
      ((generateChunkNonce_eq_iff nonce hsize _ _).2 rfl)
    cases h0
  · refine List.Nodup.map_on (fun j hj k hk heq => ?_) List.nodup_range
    have hjk := (generateChunkNonce_eq_iff nonce hsize j k).1 heq
    rw [List.mem_range] at hj hk
    rwa [Nat.mod_eq_of_lt (by omega), Nat.mod_eq_of_lt (by omega)] at hjk

/-- What an AEAD body is written through: chunk nonces, one for every chunk. -/
theorem encodeBody_aead {key iv : Block} {encryption : CryptionWriter} {rand : ℕ → UInt8}
    {request : RequestHeader} {c : ChunkCodec} {w : AuthenticationWriter c}
    {e : Option CryptionWriter} (hgcm : ∀ key, (pr.newAesGcm key).nonceSize = 12)
    (hchacha : ∀ key, (pr.newChacha20Poly1305 key).nonceSize = 12)
    (hsecurity : request.security = .aes128Gcm ∨ request.security = .chacha20Poly1305)
    (h : encodeBody pr key iv encryption rand request = .ok (.sealed c w e)) :
    c.auth.nonceGenerator = generateChunkNonce iv 12 ∧ c.NonceSized ∧ c.callsPerSize = 0 ∧
      w = { transferType := transferType request.command, rand } := by
  have haead : ∀ aead : AEAD, aead.nonceSize = 12 →
      Outcome.ok (BodyWriter.sealed (bodyCodec pr (chunkAuthenticator aead iv) iv request.option)
        { transferType := transferType request.command, rand } none) = .ok (.sealed c w e) →
      c.auth.nonceGenerator = generateChunkNonce iv 12 ∧ c.NonceSized ∧ c.callsPerSize = 0 ∧
        w = { transferType := transferType request.command, rand } := by
    intro aead hsize heq
    injection heq with heq
    injection heq with hc hw _
    subst hc
    refine ⟨by rw [bodyCodec, chunkAuthenticator, hsize], fun k => ?_, ?_, (eq_of_heq hw).symm⟩
    · rw [bodyCodec, chunkAuthenticator, hsize]
      exact length_generateChunkNonce iv (by decide) k
    · rw [ChunkCodec.callsPerSize, bodyCodec]
      dsimp only
      split <;> first | rfl | (split at * <;> simp_all)
  rw [encodeBody] at h
  dsimp only at h
  split at h
  · cases h
  · rcases hsecurity with hs | hs
    · rw [hs] at h
      exact haead _ (hgcm _) h
    · rw [hs] at h
      exact haead _ (hchacha _) h

theorem nodup_bodyNonces_iff {c : ChunkCodec} {iv : Block}
    (hnonces : c.auth.nonceGenerator = generateChunkNonce iv 12) (hsized : c.NonceSized)
    (hcalls : c.callsPerSize = 0) (transferType : TransferType) (rand : ℕ → UInt8)
    (mbs : List MultiBuffer) {w : AuthenticationWriter c} (hw : w = { transferType, rand }) :
    (bodyNonces (w.writes mbs).2).Nodup ↔ (w.writes mbs).2.chunks.length ≤ 2 ^ 16 := by
  subst hw
  have hrec := AuthenticationWriter.recorded_writes hsized transferType rand mbs
  have hlen := hrec.length
  rw [hcalls, Nat.zero_add, Nat.one_mul] at hlen
  rw [bodyNonces_eq hrec, hnonces, nodup_generateChunkNonce_iff iv (by decide), hlen]

/-- The nonces of the chunks of a body are all different exactly when there are at most 65536
    chunks: they count on sixteen bits. -/
theorem bodyNonces_nodup_iff (client : ClientSession) (responseBodyKey responseBodyIV : Block)
    (responseWriter : CryptionWriter) (rand : ℕ → UInt8) (request : RequestHeader)
    {c : ChunkCodec} {w : AuthenticationWriter c} {e : Option CryptionWriter}
    (mbs : List MultiBuffer) (hgcm : ∀ key, (pr.newAesGcm key).nonceSize = 12)
    (hchacha : ∀ key, (pr.newChacha20Poly1305 key).nonceSize = 12)
    (hsecurity : request.security = .aes128Gcm ∨ request.security = .chacha20Poly1305)
    (h : encodeRequestBody pr client rand request = .ok (.sealed c w e) ∨
      encodeResponseBody pr responseBodyKey responseBodyIV responseWriter rand request =
        .ok (.sealed c w e)) :
    (bodyNonces (w.writes mbs).2).Nodup ↔ (w.writes mbs).2.chunks.length ≤ 2 ^ 16 := by
  rcases h with h | h
  · obtain ⟨hnonces, hsized, hcalls, hw⟩ := encodeBody_aead hgcm hchacha hsecurity h
    exact nodup_bodyNonces_iff hnonces hsized hcalls _ _ mbs hw
  · obtain ⟨hnonces, hsized, hcalls, hw⟩ := encodeBody_aead hgcm hchacha hsecurity h
    exact nodup_bodyNonces_iff hnonces hsized hcalls _ _ mbs hw

/-! ## A long body -/

section

open AuthenticationWriter

variable {c : ChunkCodec}

/-- What is not longer than a piece is written as a chunk. -/
theorem chunks_writeMultiBuffer (h : c.Lawful) {w : AuthenticationWriter c}
    (hstream : w.transferType = .stream) {mb : MultiBuffer}
    (hshort : (MultiBuffer.bytes mb).length ≤ payloadSize c) (hfew : mb.length < 2 ^ 20) :
    ∃ out w', w.writeMultiBuffer mb = (.ok out, w') ∧ w'.transferType = .stream ∧
      w'.chunks = w.chunks ++ [MultiBuffer.bytes mb] := by
  obtain ⟨out, w', hseal, htype⟩ := w.seal_ok h hshort
  have hchunks : w'.chunks = w.chunks ++ [MultiBuffer.bytes mb] := by
    rcases w.seal_spec h (MultiBuffer.bytes mb) with
      ⟨-, hs⟩ | ⟨-, _, _, _, _, _, w₁, -, -, -, -, -, hs, -, -, hc⟩
    · rw [hs] at hseal
      cases hseal
    · rw [hs] at hseal
      cases hseal
      exact hc
  refine ⟨out, w', ?_, htype.trans hstream, hchunks⟩
  unfold writeMultiBuffer
  split
  · rename_i hempty
    rw [(MultiBuffer.isEmpty_iff mb).1 hempty] at hseal
    rw [hseal]
  · rw [hstream]
    dsimp only
    have hrest : MultiBuffer.isEmpty (MultiBuffer.splitBytes mb (payloadSize c)).1 := by
      rw [MultiBuffer.isEmpty_iff, MultiBuffer.splitBytes_fst_bytes, List.drop_eq_nil_of_le hshort]
    have hpiece := MultiBuffer.splitBytes_snd mb (payloadSize c)
    rw [List.take_of_length_le hshort] at hpiece
    rw [writeStream, if_neg (by omega), streamLoop]
    generalize MultiBuffer.splitBytes mb (payloadSize c) = t at hrest hpiece ⊢
    obtain ⟨rest, piece⟩ := t
    dsimp only at hrest hpiece ⊢
    rw [hpiece, hseal]
    dsimp only
    rw [if_pos hrest]

theorem chunks_writes (h : c.Lawful) (mbs : List MultiBuffer) (w : AuthenticationWriter c)
    (hstream : w.transferType = .stream)
    (hmbs : ∀ mb ∈ mbs, (MultiBuffer.bytes mb).length ≤ payloadSize c ∧ mb.length < 2 ^ 20) :
    (w.writes mbs).2.chunks = w.chunks ++ mbs.map MultiBuffer.bytes := by
  induction mbs generalizing w with
  | nil => rw [writes, List.map_nil, List.append_nil]
  | cons mb mbs ih =>
    obtain ⟨out, w', hw, hstream', hchunks⟩ := chunks_writeMultiBuffer h hstream
      (hmbs mb List.mem_cons_self).1 (hmbs mb List.mem_cons_self).2
    have hrest := ih w' hstream' fun mb hmb => hmbs mb (List.mem_cons_of_mem _ hmb)
    rw [writes, hw]
    dsimp only
    rw [hchunks] at hrest
    generalize w'.writes mbs = t at hrest ⊢
    obtain ⟨out', w''⟩ := t
    rw [List.map_cons, List.append_cons, ← hrest]
    rcases out' with out' | e | - <;> rfl

end

def exampleBodyPrimitives : BodyPrimitives where
  newAesGcm _ := Shadowsocks.exampleAEAD
  newChacha20Poly1305 _ := Shadowsocks.exampleAEAD
  md5 b := b
  shake128 _ _ := 0
  aesEncryptionStream _ _ _ x := x

/-- A TCP request with plain sizes. -/
def exampleBodyRequest : RequestHeader where
  command := requestCommandTCP
  option := requestOptionChunkStream
  security := .aes128Gcm

def exampleBodyCodec : ChunkCodec :=
  bodyCodec exampleBodyPrimitives (chunkAuthenticator Shadowsocks.exampleAEAD (toBlock []))
    (toBlock []) requestOptionChunkStream

theorem exampleBodyCodec_isLawful : exampleBodyCodec.Lawful where
  auth := ⟨fun k => length_generateChunkNonce _ (by decide) k,
    Shadowsocks.exampleAEAD_isStandard.inverts⟩
  sizeParser _ h := by cases h

def exampleBodyWriter : AuthenticationWriter exampleBodyCodec where
  transferType := .stream

def exampleBodySession : ClientSession :=
  newClientSession exampleResponsePrimitives true exampleRandomBytes

def exampleByte : MultiBuffer := [(Buffer.new.write [1]).1]

theorem encodeRequestBody_example :
    encodeRequestBody exampleBodyPrimitives exampleBodySession (fun _ => 0) exampleBodyRequest =
      .ok (.sealed exampleBodyCodec exampleBodyWriter none) := rfl

/-- A write in a body of the example. -/
theorem bodyNonces_nodup_iff_write :
    (bodyNonces (exampleBodyWriter.writes [exampleByte]).2).Nodup ↔
      (exampleBodyWriter.writes [exampleByte]).2.chunks.length ≤ 2 ^ 16 :=
  bodyNonces_nodup_iff exampleBodySession (toBlock []) (toBlock [])
    { stream := fun _ x => x } (fun _ => 0) exampleBodyRequest _ (fun _ => rfl) (fun _ => rfl)
    (.inl rfl) (.inl encodeRequestBody_example)

/-- The last of 65537 writes of a byte is sealed under the nonce of the first. -/
theorem bodyNonces_repeat :
    ∃ c w e, encodeRequestBody exampleBodyPrimitives exampleBodySession (fun _ => 0)
        exampleBodyRequest = .ok (.sealed c w e) ∧
      ¬ (bodyNonces (w.writes (List.replicate (2 ^ 16 + 1) exampleByte)).2).Nodup := by
  refine ⟨_, _, _, encodeRequestBody_example, ?_⟩
  have hchunks := chunks_writes exampleBodyCodec_isLawful
    (List.replicate (2 ^ 16 + 1) exampleByte) exampleBodyWriter rfl (by
      intro mb hmb
      rw [List.eq_of_mem_replicate hmb]
      exact ⟨by decide, by decide⟩)
  have hnodup := nodup_bodyNonces_iff
    (show exampleBodyCodec.auth.nonceGenerator = generateChunkNonce (toBlock []) 12 from rfl)
    (fun k => length_generateChunkNonce _ (by decide) k) rfl .stream (fun _ => 0)
    (List.replicate (2 ^ 16 + 1) exampleByte) (w := exampleBodyWriter) rfl
  rw [hnodup, hchunks, List.length_append, List.length_map, List.length_replicate]
  decide

end Encoding

end Gzv2ray.Vmess
