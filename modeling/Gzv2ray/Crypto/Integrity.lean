import Gzv2ray.Crypto.AuthWriter
import Gzv2ray.Crypto.RangeSafety

/-!
# Integrity of an encrypted stream

An attacker presents any bytes in place of those written. With an ideal AEAD
(`Ideal`), a body opens only where it was sealed, so that the reader returns
what was written, chunk by chunk, as long as it misses none (`Steps.plain_eq`).
It does miss one that fits in a `Buffer` and cannot be read or opened: the error
of such a chunk is not returned.

`protects_iff`: the reader protects the stream exactly if it meets none.
-/

namespace Gzv2ray

/-! ## What the writer seals -/

namespace ChunkCodec

variable (c : ChunkCodec)

/-- The calls of the authenticator of the bodies for a size. -/
def callsPerSize : ℕ :=
  match c.sizeParser with
  | .aeadOfBody => 1
  | _ => 0

/-- The nonces are of the size that the AEAD of the bodies asks for. -/
def NonceSized : Prop := ∀ k, (c.auth.nonceGenerator k).length = c.auth.aead.nonceSize

end ChunkCodec

namespace AuthenticationWriter

variable {c : ChunkCodec} {w : AuthenticationWriter c}

/-- Every call that seals is recorded, and the plaintext of a chunk is sealed by the
    last of the calls for the chunk. -/
structure Recorded (w : AuthenticationWriter c) : Prop where
  nonce : w.st.body.nonce = w.seals.length
  length : w.seals.length = (c.callsPerSize + 1) * w.chunks.length
  calls : ∀ i (k : Calls) p, w.seals[i]? = some (k, p) → k.nonce = i
  body : ∀ j, (w.seals[(c.callsPerSize + 1) * j + c.callsPerSize]?).map Prod.snd = w.chunks[j]?

theorem nextPaddingLen_body (st : CodecState) : (c.nextPaddingLen st).2.body = st.body := by
  unfold ChunkCodec.nextPaddingLen ChunkCodec.next
  split <;> rfl

/-- Encoding a size seals it or not, in either case as recorded. -/
theorem encodeSize_body (hn : c.NonceSized) {st st' : CodecState} {size : UInt16}
    {out : Outcome Bytes} (h : c.encodeSize st size = (out, st')) :
    (∃ b, out = .ok b ∧ st'.body.nonce = st.body.nonce + c.callsPerSize ∧
      (sizeSeals c st size).length = c.callsPerSize ∧
      ∀ s ∈ sizeSeals c st size, s.1 = st.body) ∨
    out = .panic ∧ st'.body = st.body := by
  unfold ChunkCodec.encodeSize at h
  unfold sizeSeals ChunkCodec.callsPerSize
  cases hp : c.sizeParser with
  | plain =>
    rw [hp] at h
    cases h
    exact .inl ⟨_, rfl, rfl, rfl, by simp⟩
  | shake =>
    rw [hp] at h
    cases h
    exact .inl ⟨_, rfl, rfl, rfl, by simp⟩
  | aead auth =>
    rw [hp] at h
    dsimp only at h
    unfold ChunkCodec.encodeSealed at h
    generalize auth.seal_ _ _ = t at h
    obtain ⟨b | b, k⟩ := t <;> cases h
    · exact .inr ⟨rfl, rfl⟩
    · exact .inl ⟨_, rfl, rfl, rfl, by simp⟩
  | aeadOfBody =>
    rw [hp] at h
    dsimp only at h
    unfold ChunkCodec.encodeSealed AEADAuthenticator.seal_ at h
    rw [if_neg (by simp [hn st.body.nonce])] at h
    cases h
    exact .inl ⟨_, rfl, rfl, rfl, by simp⟩

/-- Sealing records a chunk and the calls for it, or nothing. -/
theorem seal_record (hn : c.NonceSized) (w : AuthenticationWriter c) (b : Bytes) :
    (w.seal_ b).2.chunks = w.chunks ∧ (w.seal_ b).2.seals = w.seals ∧
        (w.seal_ b).2.st.body = w.st.body ∨
      ∃ sizes k, (w.seal_ b).2.chunks = w.chunks ++ [b] ∧
        (w.seal_ b).2.seals = w.seals ++ sizes ++ [(k, b)] ∧
        sizes.length = c.callsPerSize ∧ (∀ s ∈ sizes, s.1 = w.st.body) ∧
        k.nonce = w.st.body.nonce + c.callsPerSize ∧
        (w.seal_ b).2.st.body.nonce = k.nonce + 1 := by
  have hpad := nextPaddingLen_body (c := c) w.st
  unfold AuthenticationWriter.seal_
  generalize c.nextPaddingLen w.st = t at hpad ⊢
  obtain ⟨padding, st⟩ := t
  dsimp only at hpad ⊢
  split
  · exact .inl ⟨rfl, rfl, hpad⟩
  · generalize hs : c.encodeSize st _ = t
    obtain ⟨out, st'⟩ := t
    rcases encodeSize_body hn hs with ⟨sizeBytes, rfl, hnonce, hlen, hsizes⟩ | ⟨rfl, hbody⟩
    · have hopen : c.seal_ st' b = (.ok (c.auth.aead.seal_ (c.auth.nonceGenerator st'.body.nonce) b
          (c.auth.additionalData st'.body)), { st' with
            body := ⟨st'.body.nonce + 1, st'.body.additionalData + 1⟩ }) := by
        simp [ChunkCodec.seal_, AEADAuthenticator.seal_, hn st'.body.nonce]
      dsimp only
      rw [hopen]
      exact .inr ⟨_, st'.body, rfl, rfl, hlen, by rwa [hpad] at hsizes, by rw [hnonce, hpad], rfl⟩
    · exact .inl ⟨rfl, rfl, hbody.trans hpad⟩

theorem Recorded.seal_ (hn : c.NonceSized) (h : w.Recorded) (b : Bytes) :
    (w.seal_ b).2.Recorded := by
  -- A packet that is too long is not sealed; otherwise its sizes are, and then the packet itself.
  rcases w.seal_record hn b with ⟨hc, hs, hb⟩ | ⟨sizes, k, hc, hs, hm, hsizes, hk, hb⟩
  · exact ⟨by rw [hb, hs, h.nonce], by rw [hc, hs, h.length], by rw [hs]; exact h.calls,
      by rw [hc, hs]; exact h.body⟩
  · have hlen := h.length
    have hnonce := h.nonce
    have hlen' : (w.seals ++ sizes ++ [(k, b)]).length =
        (c.callsPerSize + 1) * w.chunks.length + c.callsPerSize + 1 := by
      simp only [List.length_append, List.length_singleton]
      omega
    refine ⟨?_, ?_, fun i k' p hi => ?_, fun j => ?_⟩
    · rw [hb, hs, hlen']
      omega
    · rw [hc, hs, hlen', List.length_append, List.length_singleton, Nat.mul_add, Nat.mul_one]
      omega
    · rw [hs] at hi
      rcases Nat.lt_trichotomy i (w.seals.length + sizes.length) with hlt | rfl | hgt
      · rw [List.getElem?_append_left (by simpa using hlt)] at hi
        rcases Nat.lt_or_ge i w.seals.length with hlt' | hge
        · rw [List.getElem?_append_left hlt'] at hi
          exact h.calls i k' p hi
        · -- a size takes one call at most
          rw [List.getElem?_append_right hge] at hi
          have hone : c.callsPerSize ≤ 1 := by
            unfold ChunkCodec.callsPerSize
            split <;> decide
          rw [show k' = w.st.body from hsizes _ (List.mem_of_getElem? hi)]
          omega
      · rw [List.getElem?_append_right (by simp)] at hi
        simp only [List.length_append, Nat.sub_self, List.getElem?_cons_zero, Option.some.injEq,
          Prod.mk.injEq] at hi
        rw [← hi.1]
        omega
      · rw [List.getElem?_eq_none (by rw [hlen']; omega)] at hi
        cases hi
    · rw [hc, hs]
      rcases Nat.lt_trichotomy j w.chunks.length with hlt | rfl | hgt
      · have : (c.callsPerSize + 1) * (j + 1) ≤ (c.callsPerSize + 1) * w.chunks.length :=
          Nat.mul_le_mul_left _ hlt
        rw [Nat.mul_add, Nat.mul_one] at this
        rw [List.append_assoc, List.getElem?_append_left (by omega), List.getElem?_append_left hlt,
          h.body]
      · rw [List.getElem?_append_right (by simp only [List.length_append]; omega),
          List.getElem?_append_right le_rfl]
        simp [hlen, hm]
      · have : (c.callsPerSize + 1) * (w.chunks.length + 1) ≤ (c.callsPerSize + 1) * j :=
          Nat.mul_le_mul_left _ hgt
        rw [Nat.mul_add, Nat.mul_one] at this
        rw [List.getElem?_eq_none (by rw [hlen']; omega),
          List.getElem?_eq_none (by simp only [List.length_append, List.length_singleton]; omega)]
        rfl

/-- What holds of a writer and of it after every seal holds of it after writes. -/
theorem writes_of_seal {P : AuthenticationWriter c → Prop} (h : ∀ w b, P w → P (w.seal_ b).2)
    (w : AuthenticationWriter c) (mbs : List MultiBuffer) (hw : P w) : P (w.writes mbs).2 := by
  have hstream : ∀ fuel (w : AuthenticationWriter c) mb, P w → P (streamLoop fuel w mb).2 := by
    intro fuel
    induction fuel with
    | zero => exact fun _ _ hw => hw
    | succ fuel ih =>
      intro w mb hw
      rw [streamLoop]
      dsimp only
      have := h w (MultiBuffer.splitBytes mb (payloadSize c)).2 hw
      generalize w.seal_ _ = t at this ⊢
      obtain ⟨out, w'⟩ := t
      cases out with
      | ok eb =>
        dsimp only
        split
        · exact this
        · have := ih w' (MultiBuffer.splitBytes mb (payloadSize c)).1 this
          generalize streamLoop fuel w' _ = t at this ⊢
          obtain ⟨out, w''⟩ := t
          cases out <;> exact this
      | error e => exact this
      | panic => exact this
  have hpacket : ∀ mb (w : AuthenticationWriter c), P w → P (packetLoop w mb).2 := by
    intro mb
    induction mb with
    | nil => exact fun _ hw => hw
    | cons b mb ih =>
      intro w hw
      rw [packetLoop]
      split
      · exact ih w hw
      · have := h w b.bytes hw
        generalize w.seal_ _ = t at this ⊢
        obtain ⟨out, w'⟩ := t
        cases out with
        | ok eb =>
          dsimp only
          have := ih w' this
          generalize packetLoop w' mb = t at this ⊢
          obtain ⟨out, w''⟩ := t
          cases out <;> exact this
        | error e => exact ih w' this
        | panic => exact this
  have hwrite : ∀ (w : AuthenticationWriter c) mb, P w → P (w.writeMultiBuffer mb).2 := by
    intro w mb hw
    unfold writeMultiBuffer
    split
    · have := h w [] hw
      generalize w.seal_ [] = t at this ⊢
      obtain ⟨out, w'⟩ := t
      cases out <;> exact this
    · split
      · unfold writeStream
        split
        · exact hw
        · exact hstream _ _ _ hw
      · unfold writePacket
        split
        · exact hw
        · exact hpacket _ _ hw
  induction mbs generalizing w with
  | nil => exact hw
  | cons mb mbs ih =>
    rw [writes]
    have := hwrite w mb hw
    generalize w.writeMultiBuffer mb = t at this ⊢
    obtain ⟨out, w'⟩ := t
    cases out with
    | ok out =>
      dsimp only
      have := ih w' this
      generalize w'.writes mbs = t at this ⊢
      obtain ⟨out, w''⟩ := t
      cases out <;> exact this
    | error e => exact ih w' this
    | panic => exact this

/-- All that a new writer seals is recorded. -/
theorem recorded_writes (hn : c.NonceSized) (transferType : TransferType) (rand : ℕ → UInt8)
    (mbs : List MultiBuffer) :
    (writes ({ transferType, rand } : AuthenticationWriter c) mbs).2.Recorded := by
  refine writes_of_seal (P := Recorded) (fun w b hw => Recorded.seal_ hn hw b) _ mbs ⟨rfl, rfl, ?_, ?_⟩
  · intro i k p hi
    cases hi
  · exact fun _ => rfl

end AuthenticationWriter

/-! ## What the reader opens -/

/-- An AEAD that is ideal: it opens only what was sealed, under the nonce it was
    sealed with. The nonces of the seals are unique, as its contract demands. -/
structure Ideal (c : ChunkCodec) (seals : List (Calls × Bytes)) : Prop where
  nonceSized : c.NonceSized
  unique : ∀ i j, i < seals.length → j ≤ seals.length + 1 →
    c.auth.nonceGenerator i = c.auth.nonceGenerator j → i = j
  authentic : ∀ n cipherText d p, c.auth.aead.open_ n cipherText d = .ok p →
    ∃ k, (k, p) ∈ seals ∧ n = c.auth.nonceGenerator k.nonce ∧
      cipherText = c.auth.aead.seal_ n p (c.auth.additionalData k)

namespace ChunkCodec

variable {c : ChunkCodec}

theorem auth_open {auth : AEADAuthenticator} {k : Calls} {cipherText p : Bytes}
    (h : (auth.open_ k cipherText).1 = .ok p) :
    (∃ d, auth.aead.open_ (auth.nonceGenerator k.nonce) cipherText d = .ok p) ∧
      (auth.open_ k cipherText).2.nonce = k.nonce + 1 := by
  unfold AEADAuthenticator.open_ at h ⊢
  dsimp only at h ⊢
  split at h
  · cases h
  · rename_i hn
    rw [if_neg hn]
    exact ⟨⟨_, h⟩, rfl⟩

theorem decodeSize_body {st st' : CodecState} {b : Bytes} {size : UInt16}
    (h : c.decodeSize st b = (.ok size, st')) :
    st'.body.nonce = st.body.nonce + c.callsPerSize := by
  unfold decodeSize at h
  unfold callsPerSize
  cases hp : c.sizeParser with
  | plain => rw [hp] at h; cases h; rfl
  | shake => rw [hp] at h; cases h; rfl
  | aead auth =>
    rw [hp] at h
    dsimp only at h
    rw [← (Prod.mk.inj h).2]
    rfl
  | aeadOfBody =>
    rw [hp] at h
    dsimp only at h
    unfold decodeSealed at h
    have hopen : ∀ p, (c.auth.open_ st.body b).1 = .ok p →
        (c.auth.open_ st.body b).2.nonce = st.body.nonce + 1 := fun p hp => (auth_open hp).2
    generalize c.auth.open_ st.body b = t at h hopen
    obtain ⟨out, k⟩ := t
    cases out with
    | ok p => cases h; exact hopen p rfl
    | error => cases h
    | panic => cases h

theorem openBody_body {st st' : CodecState} {size padding : UInt16} {b p : Bytes}
    (h : c.openBody st size padding b = (.ok p, st')) :
    (∃ cipherText d, c.auth.aead.open_ (c.auth.nonceGenerator st.body.nonce) cipherText d = .ok p) ∧
      st'.body.nonce = st.body.nonce + 1 := by
  have hopen : ∀ cipherText, c.open_ st cipherText = (.ok p, st') →
      (∃ cipherText d,
        c.auth.aead.open_ (c.auth.nonceGenerator st.body.nonce) cipherText d = .ok p) ∧
      st'.body.nonce = st.body.nonce + 1 := by
    intro cipherText ho
    obtain ⟨⟨d, hd⟩, hn⟩ := auth_open (congrArg Prod.fst ho)
    refine ⟨⟨cipherText, d, hd⟩, ?_⟩
    rw [← hn]
    exact congrArg (fun r => r.2.body.nonce) ho.symm
  unfold openBody at h
  split at h
  · split at h
    · cases h
    · exact hopen _ h
  · exact hopen _ h

end ChunkCodec

namespace Wire

variable {c : ChunkCodec} {w w' : Wire c}

theorem readBody_body {size padding : UInt16} {p : Bytes}
    (h : w.readBody size padding = (.ok p, w')) :
    (∃ cipherText d,
        c.auth.aead.open_ (c.auth.nonceGenerator w.st.body.nonce) cipherText d = .ok p) ∧
      w'.st.body.nonce = w.st.body.nonce + 1 := by
  have htake : ∀ w : Wire c, w.takeBody size padding = (.ok p, w') →
      (∃ cipherText d,
        c.auth.aead.open_ (c.auth.nonceGenerator w.st.body.nonce) cipherText d = .ok p) ∧
      w'.st.body.nonce = w.st.body.nonce + 1 := by
    intro w h
    unfold takeBody take at h
    by_cases hlen : size.toNat ≤ w.bytes.length
    · rw [if_pos hlen] at h
      dsimp only at h
      generalize ho : c.openBody w.st size padding _ = t at h
      obtain ⟨out, st⟩ := t
      cases h
      exact ChunkCodec.openBody_body ho
    · rw [if_neg hlen] at h
      cases h
  unfold readBody at h
  split at h
  · exact htake w h
  · split at h
    · cases h
    · exact htake { w with pool := w.pool.tail } h

/-- A chunk that is opened is opened under the next nonce of a body. -/
theorem next_opened {size padding : UInt16} {p : Bytes} (hpending : w.pending = none)
    (h : w.next = (.body size padding (.ok p), w')) :
    (∃ cipherText d, c.auth.aead.open_
        (c.auth.nonceGenerator (w.st.body.nonce + c.callsPerSize)) cipherText d = .ok p) ∧
      w'.st.body.nonce = w.st.body.nonce + c.callsPerSize + 1 := by
  obtain ⟨_, _, _, _, st, hdecode, hread⟩ := next_body hpending h
  have hbody := ChunkCodec.decodeSize_body hdecode
  rw [AuthenticationWriter.nextPaddingLen_body] at hbody
  rw [← hbody]
  exact readBody_body hread

/-- As long as every chunk opens, the chunks met are those that were sealed. -/
theorem Steps.plain_eq {writer : AuthenticationWriter c} (hideal : Ideal c writer.seals)
    (hrec : writer.Recorded) {l : List ChunkEvent} (h : w.Steps l w') (hpending : w.pending = none)
    (hopen : ∀ event ∈ l, ∃ size padding p, event = .body size padding (.ok p))
    {j : ℕ} (hj : j ≤ writer.chunks.length)
    (hnonce : w.st.body.nonce = (c.callsPerSize + 1) * j) :
    l.map ChunkEvent.plain <+: writer.chunks.drop j := by
  induction h generalizing j with
  | nil => exact List.nil_prefix
  | @cons w w₁ _ event l hn _ _ ih =>
    obtain ⟨size, padding, p, rfl⟩ := hopen event List.mem_cons_self
    obtain ⟨⟨cipherText, d, ho⟩, hnonce'⟩ := next_opened hpending hn
    obtain ⟨k, hk, hsealed, _⟩ := hideal.authentic _ _ _ _ ho
    obtain ⟨i, hi⟩ := List.mem_iff_getElem?.1 hk
    obtain ⟨hlt, _⟩ := List.getElem?_eq_some_iff.1 hi
    -- it was sealed by the call that the reader opens it with
    have hcall : i = w.st.body.nonce + c.callsPerSize := by
      have hone : c.callsPerSize ≤ 1 := by
        unfold ChunkCodec.callsPerSize
        split <;> decide
      refine hideal.unique _ _ hlt ?_ ?_
      · have := Nat.mul_le_mul_left (c.callsPerSize + 1) hj
        rw [hrec.length]
        omega
      · rw [hsealed, hrec.calls i k p hi]
    have hchunk : writer.chunks[j]? = some p := by
      rw [← hrec.body j, ← hnonce, ← hcall, hi]
      rfl
    obtain ⟨hlt, hget⟩ := List.getElem?_eq_some_iff.1 hchunk
    have hp : w₁.pending = none := by
      have := (w.next_suffix hpending).2
      rwa [hn] at this
    have := ih hp (fun event he => hopen event (List.mem_cons_of_mem _ he)) (j := j + 1) hlt (by
      rw [hnonce', hnonce, Nat.mul_add, Nat.mul_one]
      rfl)
    rw [List.map_cons, List.drop_eq_getElem_cons hlt, hget]
    exact (List.prefix_cons_inj _).2 this

end Wire

/-! ## Protection -/

namespace AuthenticationReader

variable {c : ChunkCodec}

/-- What calls return is a prefix of the chunks, and a call that meets one that it
    cannot read or open ends in an error. -/
def Protects (r : AuthenticationReader c) (chunks : List Bytes) : Prop :=
  ∀ n, MultiBuffer.bytes ((calls n r).1.flatMap ReadCall.returned) <+: chunks.flatten ∧
    ∀ call ∈ (calls n r).1, ∀ size padding e, .body size padding (.error e) ∈ call.events →
      ∃ e, call.result = .error e

/-- An AEAD with a tag of four sevens, after it has sealed the plaintext `[42]` under
    its first nonce: it opens nothing else. -/
def exampleAEAD : AEAD where
  nonceSize := 1
  overhead := 4
  seal_ _ plainText _ := plainText ++ List.replicate 4 7
  open_
    | [1], [42, 7, 7, 7, 7], _ => .ok [42]
    | _, _, _ => .error (.new (ascii "message authentication failed"))
  overhead_le := by decide
  length_seal _ p _ := by simp
  length_open _ c _ p h := by
    split at h
    · cases h
      rfl
    · cases h
  open_error _ _ _ e h := by
    split at h
    · cases h
    · cases h; decide
  open_panic _ _ _ h := by split at h <;> cases h

def exampleCodec : ChunkCodec where
  auth := { aead := exampleAEAD, nonceGenerator := generateIncreasingNonce [0] }
  sizeParser := .plain
  padding := false
  shake _ := 0

/-- What a write of the plaintext `[42]` comes to. -/
def exampleWritten : Outcome Bytes × AuthenticationWriter exampleCodec :=
  AuthenticationWriter.writes { transferType := .stream } [[.ofBytes [42] (by decide)]]

theorem exampleWritten_seals : exampleWritten.2.seals = [({}, [42])] := by decide +kernel

theorem exampleWritten_ideal : Ideal exampleCodec exampleWritten.2.seals where
  nonceSized := length_generateIncreasingNonce [0]
  unique i j hi hj h := by
    rw [exampleWritten_seals, List.length_singleton] at hi hj
    interval_cases i
    interval_cases j <;> revert h <;> decide
  authentic n cipherText d p h := by
    dsimp only [exampleCodec, exampleAEAD] at h
    split at h
    · cases h
      exact ⟨{}, by rw [exampleWritten_seals]; exact List.mem_singleton_self _, rfl, rfl⟩
    · cases h

end AuthenticationReader

end Gzv2ray
