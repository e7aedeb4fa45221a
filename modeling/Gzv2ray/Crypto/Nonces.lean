import Gzv2ray.Crypto.Integrity
import Gzv2ray.Lib.LittleEndian

/-!
# Nonces that count

Every nonce of `GenerateIncreasingNonce` is the one before, incremented: a carry runs through its
bytes up to the first that does not become zero. Read as a little-endian number it counts, modulo
the number of nonces there are, so that all of these come before the first one comes back.

* `generateIncreasingNonce_eq`, `nodup_generateIncreasingNonce`: the nonces count;
* `readMultiBufferOpens`: the calls of the authenticator of the bodies that open in a call of the
  reader, whatever it returns. They draw the nonces in order (`readMultiBuffer_draws`).
-/

namespace Gzv2ray

/-! ## The counter -/

/-- The carry of the last of the numbers of a byte is handed on. -/
theorem increment_littleEndian (k v : ℕ) :
    increment (littleEndian k v) = littleEndian k (v + 1) := by
  induction k generalizing v with
  | zero => rfl
  | succ k ih =>
    have hadd : UInt8.ofNat (v % 256) + 1 = UInt8.ofNat ((v + 1) % 256) := by
      rw [← UInt8.toNat_inj]
      simp
    rw [littleEndian, littleEndian, increment, hadd, ih]
    split
    · rename_i hne
      have hlast : (v + 1) % 256 ≠ 0 := fun h => hne (by rw [h]; rfl)
      rw [show (v + 1) / 256 = v / 256 by omega]
    · rename_i heq
      have hlast : (v + 1) % 256 = 0 := by
        rw [not_not, ← UInt8.toNat_inj] at heq
        simpa using heq
      rw [hlast, show (v + 1) / 256 = v / 256 + 1 by omega]
      rfl

theorem iterate_increment_littleEndian (n k v : ℕ) :
    increment^[n] (littleEndian k v) = littleEndian k (v + n) := by
  induction n with
  | zero => rfl
  | succ n ih => rw [Function.iterate_succ_apply', ih, increment_littleEndian, add_assoc]

/-- The nonces count on from the one that they start from. -/
theorem generateIncreasingNonce_eq (nonce : Bytes) (k : ℕ) :
    generateIncreasingNonce nonce k = littleEndian nonce.length (ofLittleEndian nonce + (k + 1)) := by
  rw [← iterate_increment_littleEndian, littleEndian_ofLittleEndian, generateIncreasingNonce]

/-- As many nonces are all different as there are. -/
theorem nodup_generateIncreasingNonce_iff (nonce : Bytes) (n : ℕ) :
    ((List.range n).map (generateIncreasingNonce nonce)).Nodup ↔ n ≤ 2 ^ (8 * nonce.length) := by
  rw [← nodup_littleEndian_iff nonce.length (ofLittleEndian nonce + 1) n]
  have hcount : generateIncreasingNonce nonce =
      fun i => littleEndian nonce.length (ofLittleEndian nonce + 1 + i) := by
    funext i
    rw [generateIncreasingNonce_eq, add_assoc, add_comm 1 i]
  rw [hcount]

/-- The nonces of a connection count from zero. -/
theorem generateInitialAEADNonce_eq (k : ℕ) : generateInitialAEADNonce k = littleEndian 12 k := by
  have hstart : ofLittleEndian (List.replicate 12 0xFF) + (k + 1) = k + 2 ^ (8 * 12) := by
    have : ofLittleEndian (List.replicate 12 0xFF) + 1 = 2 ^ (8 * 12) := by decide
    omega
  rw [generateInitialAEADNonce, generateIncreasingNonce_eq, hstart]
  exact (littleEndian_eq_iff 12 _ _).2 (Nat.add_mod_right k _)

/-! ## Draws -/

/-- Calls `l` that lead from `k` to `k'` draw the next nonces, in order. -/
structure Draws (k k' : Calls) (l : List Calls) : Prop where
  nonces : l.map Calls.nonce = List.range' k.nonce l.length
  count : k'.nonce = k.nonce + l.length

namespace Draws

variable {k k' k'' : Calls} {l l' : List Calls}

theorem nil (h : k'.nonce = k.nonce) : Draws k k' [] := ⟨rfl, h⟩

theorem singleton (h : k'.nonce = k.nonce + 1) : Draws k k' [k] := ⟨rfl, h⟩

theorem append (h : Draws k k' l) (h' : Draws k' k'' l') : Draws k k'' (l ++ l') where
  nonces := by
    rw [List.map_append, h.nonces, h'.nonces, h.count, List.range'_append_1, List.length_append]
  count := by rw [h'.count, h.count, List.length_append, add_assoc]

/-- From the first nonce on, calls draw the nonces that are generated first. -/
theorem generated (h : Draws {} k' l) (generator : BytesGenerator) :
    l.map (fun k => generator k.nonce) = (List.range l.length).map generator := by
  have hmap : l.map (fun k => generator k.nonce) = (l.map Calls.nonce).map generator := by
    rw [List.map_map]
    rfl
  rw [hmap, h.nonces, List.range_eq_range']

end Draws

/-! ## What the writer seals -/

/-- A writer that cannot seal sizes seals nothing. -/
theorem AuthenticationWriter.seals_seal_of_panic {c : ChunkCodec}
    (hpanic : ∀ st size, (c.encodeSize st size).1 = .panic) (w : AuthenticationWriter c) (b : Bytes) :
    (w.seal_ b).2.seals = w.seals := by
  unfold AuthenticationWriter.seal_
  dsimp only
  split
  · rfl
  · have := hpanic (c.nextPaddingLen w.st).2
      (UInt16.ofNat (b.length + c.auth.overhead + (c.nextPaddingLen w.st).1.toNat))
    generalize c.encodeSize _ _ = t at this ⊢
    obtain ⟨out, st⟩ := t
    cases this
    rfl

/-! ## What the codec opens -/

theorem AEADAuthenticator.nonce_open (v : AEADAuthenticator) (k : Calls) (b : Bytes) :
    (v.open_ k b).2.nonce = k.nonce + 1 := by
  unfold AEADAuthenticator.open_
  dsimp only
  split <;> rfl

namespace ChunkCodec

variable (c : ChunkCodec)

/-- The call of the authenticator of the bodies that opens a size, if it does. -/
def sizeOpens (st : CodecState) : List Calls :=
  match c.sizeParser with
  | .aeadOfBody => [st.body]
  | _ => []

/-- The call that opens a body, unless its bytes are out of range. -/
def bodyOpens (st : CodecState) (size padding : UInt16) (b : Bytes) : List Calls :=
  if size.toNat ≤ bufSize then
    match bytesTo b ((size.toNat : ℤ) - padding.toNat) with
    | none => []
    | some _ => [st.body]
  else [st.body]

theorem nonce_decodeSealed (auth : AEADAuthenticator) (k : Calls) (b : Bytes) :
    (decodeSealed auth k b).2.nonce = k.nonce + 1 := by
  rw [← auth.nonce_open k b]
  unfold decodeSealed
  generalize auth.open_ k b = t
  obtain ⟨out, k'⟩ := t
  cases out <;> rfl

theorem decodeSize_draws (st : CodecState) (b : Bytes) :
    Draws st.body (c.decodeSize st b).2.body (c.sizeOpens st) := by
  unfold decodeSize sizeOpens
  cases c.sizeParser with
  | plain => exact .nil rfl
  | shake => exact .nil rfl
  | aead auth => exact .nil rfl
  | aeadOfBody => exact .singleton (nonce_decodeSealed c.auth st.body b)

theorem openBody_draws (st : CodecState) (size padding : UInt16) (b : Bytes) :
    Draws st.body (c.openBody st size padding b).2.body (bodyOpens st size padding b) := by
  unfold openBody bodyOpens
  split
  · generalize bytesTo b _ = cipherText
    cases cipherText with
    | none => exact .nil rfl
    | some cipherText => exact .singleton (c.auth.nonce_open st.body _)
  · exact .singleton (c.auth.nonce_open st.body _)

end ChunkCodec

/-! ## What the reader opens -/

namespace AuthenticationReader

variable {c : ChunkCodec} (r : AuthenticationReader c)

/-- The calls of `readSize`. -/
def readSizeOpens : List Calls :=
  if r.hasSize then []
  else
    match r.reader.readFull c.sizeBytes with
    | (.error _, _) => []
    | (.ok _, _) => c.sizeOpens (c.nextPaddingLen r.st).2

/-- The calls of `readBuffer`. -/
def readBufferOpens (size padding : UInt16) : List Calls :=
  match r.reader.readFull size.toNat with
  | (.error _, _) => []
  | (.ok b, _) => ChunkCodec.bodyOpens r.st size padding b

/-- The calls of `readBody`. -/
def readBodyOpens (size padding : UInt16) : List Calls :=
  if size.toNat ≤ bufSize then r.readBufferOpens size padding
  else
    match r.pool with
    | true :: _ => []
    | _ => r.readBufferOpens size padding

/-- The calls of a step for the body behind a size that was read. -/
def sizedOpens (soft : Bool) (size padding : UInt16) : List Calls :=
  if size = UInt16.ofNat c.auth.overhead + padding then []
  else if soft ∧ size.toNat > r.reader.bufferedBytes then []
  else r.readBodyOpens size padding

/-- The calls of a step. -/
def readInternalOpens (soft : Bool) : List Calls :=
  if soft ∧ r.reader.bufferedBytes < c.sizeBytes then []
  else if r.done then []
  else
    match r.readSize with
    | (.error _, _) => r.readSizeOpens
    | (.ok (size, padding), r') => r.readSizeOpens ++ r'.sizedOpens soft size padding

/-- The calls of the soft steps. -/
def readLoopOpens : ℕ → AuthenticationReader c → List Calls
  | 0, _ => []
  | n + 1, r =>
    let (event, r') := r.readInternal true
    match event.outcome with
    | .ok _ => r.readInternalOpens true ++ readLoopOpens n r'
    | _ => r.readInternalOpens true

/-- The calls of the authenticator of the bodies that open in a call of the reader. -/
def readMultiBufferOpens : List Calls :=
  let (event, r') := r.readInternal false
  match event.outcome with
  | .ok _ => r.readInternalOpens false ++ readLoopOpens 15 r'
  | _ => r.readInternalOpens false

theorem readSize_draws : Draws r.st.body r.readSize.2.st.body r.readSizeOpens := by
  unfold readSize readSizeOpens
  split
  · exact .nil rfl
  · generalize r.reader.readFull c.sizeBytes = t
    obtain ⟨read, reader⟩ := t
    cases read with
    | error e => exact .nil rfl
    | ok b =>
      dsimp only
      have hdraws := c.decodeSize_draws (c.nextPaddingLen r.st).2 b
      rw [AuthenticationWriter.nextPaddingLen_body] at hdraws
      generalize c.decodeSize (c.nextPaddingLen r.st).2 b = t at hdraws ⊢
      obtain ⟨out, st⟩ := t
      cases out <;> exact hdraws

theorem readBuffer_draws (size padding : UInt16) :
    Draws r.st.body (r.readBuffer size padding).2.st.body (r.readBufferOpens size padding) := by
  unfold readBuffer readBufferOpens
  generalize r.reader.readFull size.toNat = t
  obtain ⟨read, reader⟩ := t
  cases read with
  | error e => exact .nil rfl
  | ok b => exact c.openBody_draws r.st size padding b

theorem readBody_draws (size padding : UInt16) :
    Draws r.st.body (r.readBody size padding).2.st.body (r.readBodyOpens size padding) := by
  unfold readBody readBodyOpens
  split
  · exact r.readBuffer_draws size padding
  · generalize r.pool = slices
    rcases slices with _ | ⟨_ | _, pool⟩
    · exact { r with pool := [] }.readBuffer_draws size padding
    · exact { r with pool }.readBuffer_draws size padding
    · exact .nil rfl

theorem readInternal_draws (soft : Bool) :
    Draws r.st.body (r.readInternal soft).2.st.body (r.readInternalOpens soft) := by
  unfold readInternal readInternalOpens
  split
  · exact .nil rfl
  · split
    · exact .nil rfl
    · have hsize := r.readSize_draws
      generalize r.readSize = t at hsize ⊢
      obtain ⟨read, r'⟩ := t
      cases read with
      | error event => exact hsize
      | ok sizes =>
        obtain ⟨size, padding⟩ := sizes
        refine hsize.append ?_
        unfold sizedOpens
        dsimp only
        split
        · exact .nil rfl
        · split
          · exact .nil rfl
          · exact r'.readBody_draws size padding

theorem readLoop_draws (n : ℕ) (r : AuthenticationReader c) (mb : MultiBuffer) :
    Draws r.st.body (readLoop n r mb).2.st.body (readLoopOpens n r) := by
  induction n generalizing r mb with
  | zero => exact .nil rfl
  | succ n ih =>
    rw [readLoop, readLoopOpens]
    have hstep := r.readInternal_draws true
    generalize r.readInternal true = t at hstep ⊢
    obtain ⟨event, r'⟩ := t
    dsimp only
    cases event.outcome with
    | ok _ => exact hstep.append (ih r' _)
    | error e =>
      dsimp only
      split <;> exact hstep
    | panic => exact hstep

/-- The calls of the reader draw the nonces in order. -/
theorem readMultiBuffer_draws :
    Draws r.st.body r.readMultiBuffer.2.st.body r.readMultiBufferOpens := by
  unfold readMultiBuffer readMultiBufferOpens
  have hstep := r.readInternal_draws false
  generalize r.readInternal false = t at hstep ⊢
  obtain ⟨event, r'⟩ := t
  dsimp only
  cases event.outcome with
  | ok _ => exact hstep.append (readLoop_draws 15 r' _)
  | error e => exact hstep
  | panic => exact hstep

end AuthenticationReader

end Gzv2ray
