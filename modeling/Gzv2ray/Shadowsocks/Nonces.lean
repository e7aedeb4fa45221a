import Gzv2ray.Crypto.Nonces
import Gzv2ray.Shadowsocks.SessionRoundTrip
import Gzv2ray.Vmess.Body

/-!
# Nonces of Shadowsocks

The two ends of a connection seal and open the sizes of the chunks and their bodies with one
authenticator, whose nonces count from zero on 96 bits. Whatever is written, and whatever is read
and comes of it, they use the nonces in order (`CountUp`): none is used twice before all are used.

* `BodyWriter.nonces`, `BodyReader.nonces`: the nonces that are used by the writes to a
  connection, and by the reads from one.
-/

namespace Gzv2ray.Shadowsocks

/-- Nonces in the order of their use: they count from zero, and are all different up to as many
    as there are. -/
structure CountUp (nonces : List Bytes) : Prop where
  counter : nonces = (List.range nonces.length).map fun k => littleEndian 12 (k % 2 ^ (8 * 12))
  nodup : (nonces.take (2 ^ (8 * 12))).Nodup

theorem CountUp.of_generated {nonces : List Bytes}
    (h : nonces = (List.range nonces.length).map generateInitialAEADNonce) : CountUp nonces where
  counter := by
    have hcount : generateInitialAEADNonce = fun k => littleEndian 12 (k % 2 ^ (8 * 12)) := by
      funext k
      rw [generateInitialAEADNonce_eq, littleEndian_mod]
    rwa [hcount] at h
  nodup := by
    rw [h, ← List.map_take, List.take_range]
    refine (nodup_generateIncreasingNonce_iff _ _).2 ?_
    rw [List.length_replicate]
    exact min_le_left _ _

theorem CountUp.nil : CountUp [] := .of_generated rfl

/-! ## Writers -/

/-- The nonces that writes have sealed with. -/
def BodyWriter.nonces : BodyWriter → List Bytes
  | encrypting _ w => Vmess.Encoding.bodyNonces w
  | plain => []

variable (pr : Primitives)

/-- The nonces of a connection are of the size that its AEAD asks for, or no size is sealed. -/
theorem AEADCipher.nonceSized_or_panic (c : AEADCipher) (key iv : Bytes) :
    (c.chunkCodec pr key iv).NonceSized ∨
      ∀ st size, ((c.chunkCodec pr key iv).encodeSize st size).1 = .panic := by
  have hlen : ∀ k, ((c.chunkCodec pr key iv).auth.nonceGenerator k).length = 12 :=
    length_generateIncreasingNonce _
  by_cases hsize : (c.chunkCodec pr key iv).auth.aead.nonceSize = 12
  · exact .inl fun k => (hlen k).trans hsize.symm
  · refine .inr fun st size => ?_
    have hne : ((c.chunkCodec pr key iv).auth.nonceGenerator st.body.nonce).length ≠
        (c.chunkCodec pr key iv).auth.aead.nonceSize := by
      rw [hlen]
      exact Ne.symm hsize
    show (ChunkCodec.encodeSealed (c.chunkCodec pr key iv).auth st.body size).1 = .panic
    rw [ChunkCodec.encodeSealed, AEADAuthenticator.seal_, if_pos hne]

theorem countUp_writes (cipher : Cipher) (key iv : Bytes) (mbs : List MultiBuffer) :
    CountUp ((cipher.newEncryptionWriter pr key iv).writes mbs).2.nonces := by
  cases cipher with
  | none =>
    rw [Cipher.newEncryptionWriter, BodyWriter.writes_plain]
    exact .nil
  | aead c =>
    rw [Cipher.newEncryptionWriter, BodyWriter.writes_encrypting, BodyWriter.nonces]
    rcases c.nonceSized_or_panic pr key iv with hsized | hpanic
    · have hnonces := Vmess.Encoding.bodyNonces_eq
        (AuthenticationWriter.recorded_writes hsized .stream (fun _ => 0) mbs)
      refine .of_generated (hnonces.trans ?_)
      rw [Vmess.Encoding.bodyNonces, List.length_map]
      rfl
    · have hnone := AuthenticationWriter.writes_of_seal (P := fun w => w.seals = [])
        (fun w b hw => (w.seals_seal_of_panic hpanic b).trans hw)
        ({ transferType := .stream } : AuthenticationWriter (c.chunkCodec pr key iv)) mbs rfl
      rw [Vmess.Encoding.bodyNonces, hnone]
      exact .nil

/-! ## Readers -/

namespace BodyReader

/-- The nonces that a read opens with. -/
def readNonces : BodyReader → List Bytes
  | decrypting c r => r.readMultiBufferOpens.map fun k => c.auth.nonceGenerator k.nonce
  | plain _ => []

/-- The nonces that reads open with, whatever they return. -/
def nonces : ℕ → BodyReader → List Bytes
  | 0, _ => []
  | n + 1, r => r.readNonces ++ nonces n r.readMultiBuffer.2

theorem nonces_plain (n : ℕ) (r : BufferedReader) : nonces n (.plain r) = [] := by
  induction n generalizing r with
  | zero => rfl
  | succ n ih => exact ih r.readBuffers.2

/-- The reads of a reader that decrypts draw the nonces in order. -/
theorem nonces_decrypting {c : ChunkCodec} (n : ℕ) (r : AuthenticationReader c) :
    ∃ k' l, Draws r.st.body k' l ∧
      nonces n (.decrypting c r) = l.map fun k => c.auth.nonceGenerator k.nonce := by
  induction n generalizing r with
  | zero => exact ⟨r.st.body, [], .nil rfl, rfl⟩
  | succ n ih =>
    obtain ⟨k', l, hl, hnonces⟩ := ih r.readMultiBuffer.2
    refine ⟨k', _, r.readMultiBuffer_draws.append hl, ?_⟩
    rw [List.map_append, ← hnonces]
    rfl

end BodyReader

theorem countUp_reads (cipher : Cipher) (key iv : Bytes) (pool : List Bool)
    (reader : BufferedReader) (n : ℕ) :
    CountUp ((cipher.newDecryptionReader pr key iv pool reader).nonces n) := by
  cases cipher with
  | none =>
    rw [Cipher.newDecryptionReader, BodyReader.nonces_plain]
    exact .nil
  | aead c =>
    obtain ⟨k', l, hl, hnonces⟩ := BodyReader.nonces_decrypting n
      ({ reader, pool } : AuthenticationReader (c.chunkCodec pr key iv))
    rw [Cipher.newDecryptionReader, hnonces]
    refine .of_generated ?_
    rw [List.length_map]
    exact hl.generated _

/-- Nonces count on from the one that they start from, modulo the number of nonces there are, and
    as many are all different. Both ends of a connection use the nonces that count from zero, in
    order. -/
theorem nonces_count :
    (∀ start : Bytes,
      (∀ k, generateIncreasingNonce start k =
        littleEndian start.length ((ofLittleEndian start + (k + 1)) % 2 ^ (8 * start.length))) ∧
      ((List.range (2 ^ (8 * start.length))).map (generateIncreasingNonce start)).Nodup) ∧
    ∀ (pr : Primitives) (cipher : Cipher) (key iv : Bytes),
      (∀ mbs, CountUp ((cipher.newEncryptionWriter pr key iv).writes mbs).2.nonces) ∧
      ∀ pool reader n, CountUp ((cipher.newDecryptionReader pr key iv pool reader).nonces n) := by
  refine ⟨fun start => ⟨fun k => ?_, (nodup_generateIncreasingNonce_iff start _).2 le_rfl⟩,
    fun pr cipher key iv => ⟨countUp_writes pr cipher key iv, countUp_reads pr cipher key iv⟩⟩
  rw [littleEndian_mod, generateIncreasingNonce_eq]

end Gzv2ray.Shadowsocks
