import Gzv2ray.Buf.Reader
import Gzv2ray.Lib.BigEndian

/-!
# Authenticators, size parsers and masks

What the two ends of an encrypted stream share: the authenticator of the chunk
bodies (`AEADAuthenticator`), the codec of the chunk sizes (`SizeParser`) and the
padding lengths. All of them draw from counters and streams: a `CodecState` says
how far, and an end whose state differs from that of its peer reads garbage.

* `AEAD`: an AEAD, with the part of the contract of `cipher.AEAD` about lengths;
* `ChunkCodec.decodeSize_encodeSize`, `open_seal`: what an end encodes, its peer
  decodes, and their states stay equal.
-/

namespace Gzv2ray

/-! ## Generators -/

/-- The bytes a generator returns at each of its calls. -/
abbrev BytesGenerator := ℕ → Bytes

def generateEmptyBytes : BytesGenerator := fun _ => []

def generateStaticBytes (content : Bytes) : BytesGenerator := fun _ => content

/-- The number above, in little-endian order, wrapping around. -/
def increment : Bytes → Bytes
  | [] => []
  | b :: c => if b + 1 ≠ 0 then (b + 1) :: c else 0 :: increment c

def generateIncreasingNonce (nonce : Bytes) : BytesGenerator := fun k => increment^[k + 1] nonce

def generateInitialAEADNonce : BytesGenerator := generateIncreasingNonce (List.replicate 12 0xFF)

@[simp] theorem length_increment (nonce : Bytes) : (increment nonce).length = nonce.length := by
  induction nonce with
  | nil => rfl
  | cons b nonce ih =>
    rw [increment]
    split
    · rfl
    · simp [ih]

theorem length_generateIncreasingNonce (nonce : Bytes) (k : ℕ) :
    (generateIncreasingNonce nonce k).length = nonce.length := by
  rw [generateIncreasingNonce]
  induction k with
  | zero => exact length_increment _
  | succ k ih => rw [Function.iterate_succ_apply', length_increment, ih]

/-! ## Authenticators -/

/-- An AEAD. Opening what is too short to hold a tag may panic; the error of a
    failure is none of those that the readers look for. -/
structure AEAD where
  nonceSize : ℕ
  overhead : ℕ
  seal_ : (nonce plainText additionalData : Bytes) → Bytes
  open_ : (nonce cipherText additionalData : Bytes) → Outcome Bytes
  overhead_le : overhead ≤ 16
  length_seal : ∀ n p a, (seal_ n p a).length = p.length + overhead
  length_open : ∀ n c a p, open_ n c a = .ok p → p.length + overhead = c.length
  open_error : ∀ n c a e, open_ n c a = .error e → e ≠ .errSoft ∧ e.text ≠ Error.eof.text
  open_panic : ∀ n c a, open_ n c a = .panic → c.length < overhead

/-- Opening under the nonce and the additional data of the sealing inverts it. -/
def AEAD.Inverts (a : AEAD) : Prop := ∀ n p d, a.open_ n (a.seal_ n p d) d = .ok p

/-- An AEAD with the generators of its nonces and of its additional data. -/
structure AEADAuthenticator where
  aead : AEAD
  nonceGenerator : BytesGenerator
  additionalDataGenerator : Option BytesGenerator := none

/-- How often the generators of an authenticator were called. -/
structure Calls where
  nonce : ℕ := 0
  additionalData : ℕ := 0
  deriving DecidableEq

namespace AEADAuthenticator

variable (v : AEADAuthenticator)

def overhead : ℕ := v.aead.overhead

/-- The additional data of the next call. -/
def additionalData (k : Calls) : Bytes :=
  match v.additionalDataGenerator with
  | none => []
  | some generator => generator k.additionalData

/-- The nonce drawn is not of the size the AEAD asks for. -/
def nonceSizeError : Error := .new (ascii "invalid AEAD nonce size: ")

def open_ (k : Calls) (cipherText : Bytes) : Outcome Bytes × Calls :=
  let iv := v.nonceGenerator k.nonce
  if iv.length ≠ v.aead.nonceSize then (.error nonceSizeError, { k with nonce := k.nonce + 1 })
  else (v.aead.open_ iv cipherText (v.additionalData k), ⟨k.nonce + 1, k.additionalData + 1⟩)

def seal_ (k : Calls) (plainText : Bytes) : Except Error Bytes × Calls :=
  let iv := v.nonceGenerator k.nonce
  if iv.length ≠ v.aead.nonceSize then (.error nonceSizeError, { k with nonce := k.nonce + 1 })
  else (.ok (v.aead.seal_ iv plainText (v.additionalData k)), ⟨k.nonce + 1, k.additionalData + 1⟩)

/-- The nonces are of the size that the AEAD asks for, and opening inverts sealing. -/
structure Lawful : Prop where
  nonce : ∀ k, (v.nonceGenerator k).length = v.aead.nonceSize
  inverts : v.aead.Inverts

variable {v}

theorem Lawful.seal_ (h : v.Lawful) (k : Calls) (p : Bytes) :
    v.seal_ k p = (.ok (v.aead.seal_ (v.nonceGenerator k.nonce) p (v.additionalData k)),
      ⟨k.nonce + 1, k.additionalData + 1⟩) := by
  simp [AEADAuthenticator.seal_, h.nonce]

/-- What was sealed is opened, by an authenticator called as often. -/
theorem Lawful.open_seal (h : v.Lawful) (k : Calls) (p : Bytes) :
    v.open_ k (v.aead.seal_ (v.nonceGenerator k.nonce) p (v.additionalData k)) =
      (.ok p, ⟨k.nonce + 1, k.additionalData + 1⟩) := by
  simp [AEADAuthenticator.open_, h.nonce, h.inverts _ _ _]

theorem open_cases (k : Calls) (c : Bytes) :
    (v.open_ k c).1 = .error nonceSizeError ∨
      ∃ n a, (v.open_ k c).1 = v.aead.open_ n c a := by
  unfold open_
  dsimp only
  split
  · exact .inl rfl
  · exact .inr ⟨_, _, rfl⟩

theorem length_open {k : Calls} {c p : Bytes} (h : (v.open_ k c).1 = .ok p) :
    p.length + v.overhead = c.length := by
  rcases v.open_cases k c with h' | ⟨n, a, h'⟩
  · rw [h'] at h; cases h
  · exact v.aead.length_open n c a p (h' ▸ h)

theorem open_error {k : Calls} {c : Bytes} {e : Error} (h : (v.open_ k c).1 = .error e) :
    e ≠ .errSoft ∧ e.text ≠ Error.eof.text := by
  rcases v.open_cases k c with h' | ⟨n, a, h'⟩
  · rw [h'] at h; cases h; decide
  · exact v.aead.open_error n c a e (h' ▸ h)

theorem open_panic {k : Calls} {c : Bytes} (h : (v.open_ k c).1 = .panic) :
    c.length < v.overhead := by
  rcases v.open_cases k c with h' | ⟨n, a, h'⟩
  · rw [h'] at h; cases h
  · exact v.aead.open_panic n c a (h' ▸ h)

end AEADAuthenticator

/-! ## Chunks -/

/-- The codec of the sizes: in plain, under the Shake mask, or sealed by an
    authenticator, which may be the one of the bodies. -/
inductive SizeParser
  | plain
  | shake
  | aead (auth : AEADAuthenticator)
  | aeadOfBody

/-- What both ends agree on: the authenticator of the bodies, the codec of the
    sizes, whether there is padding, and the output of Shake. -/
structure ChunkCodec where
  auth : AEADAuthenticator
  sizeParser : SizeParser
  padding : Bool
  shake : ℕ → UInt8

/-- How far an end has drawn: the bytes read from Shake, and the calls of the
    authenticators of the sizes and of the bodies. -/
structure CodecState where
  shake : ℕ := 0
  size : Calls := {}
  body : Calls := {}
  deriving DecidableEq

/-- The most bytes of padding, and one. -/
def maxPaddingLen : ℕ := 64

namespace ChunkCodec

variable (c : ChunkCodec)

/-- The number read from two bytes. -/
def uint16 (b : Bytes) : UInt16 := UInt16.ofNat (ofBigEndian (b.take 2))

/-- A number on two bytes. -/
def putUint16 (n : UInt16) : Bytes := bigEndian 2 n.toNat

/-- The next two bytes of the Shake output, as a number. -/
def next (st : CodecState) : UInt16 × CodecState :=
  (uint16 [c.shake st.shake, c.shake (st.shake + 1)], { st with shake := st.shake + 2 })

def nextPaddingLen (st : CodecState) : UInt16 × CodecState :=
  if c.padding then
    let (mask, st) := c.next st
    (mask % 64, st)
  else (0, st)

/-- The size of an encoded size. -/
def sizeBytes : ℕ :=
  match c.sizeParser with
  | .plain | .shake => 2
  | .aead auth => 2 + auth.overhead
  | .aeadOfBody => 2 + c.auth.overhead

/-- Opens a size sealed by an authenticator. -/
def decodeSealed (auth : AEADAuthenticator) (k : Calls) (b : Bytes) : Outcome UInt16 × Calls :=
  match auth.open_ k b with
  | (.ok b, k) => (.ok (uint16 b + UInt16.ofNat auth.overhead), k)
  | (.error e, k) => (.error e, k)
  | (.panic, k) => (.panic, k)

/-- Seals a size; a failure of the authenticator is a panic. -/
def encodeSealed (auth : AEADAuthenticator) (k : Calls) (size : UInt16) : Outcome Bytes × Calls :=
  match auth.seal_ k (putUint16 (size - UInt16.ofNat auth.overhead)) with
  | (.ok b, k) => (.ok b, k)
  | (.error _, k) => (.panic, k)

def decodeSize (st : CodecState) (b : Bytes) : Outcome UInt16 × CodecState :=
  match c.sizeParser with
  | .plain => (.ok (uint16 b), st)
  | .shake =>
    let (mask, st) := c.next st
    (.ok (mask ^^^ uint16 b), st)
  | .aead auth =>
    let (out, size) := decodeSealed auth st.size b
    (out, { st with size })
  | .aeadOfBody =>
    let (out, body) := decodeSealed c.auth st.body b
    (out, { st with body })

def encodeSize (st : CodecState) (size : UInt16) : Outcome Bytes × CodecState :=
  match c.sizeParser with
  | .plain => (.ok (putUint16 size), st)
  | .shake =>
    let (mask, st) := c.next st
    (.ok (putUint16 (mask ^^^ size)), st)
  | .aead auth =>
    let (out, size) := encodeSealed auth st.size size
    (out, { st with size })
  | .aeadOfBody =>
    let (out, body) := encodeSealed c.auth st.body size
    (out, { st with body })

/-- Opens a chunk body. -/
def open_ (st : CodecState) (cipherText : Bytes) : Outcome Bytes × CodecState :=
  let (out, body) := c.auth.open_ st.body cipherText
  (out, { st with body })

/-- Seals a chunk body. -/
def seal_ (st : CodecState) (plainText : Bytes) : Except Error Bytes × CodecState :=
  let (out, body) := c.auth.seal_ st.body plainText
  (out, { st with body })

/-- All authenticators are lawful. -/
structure Lawful : Prop where
  auth : c.auth.Lawful
  sizeParser : ∀ auth, c.sizeParser = .aead auth → auth.Lawful

/-! ## What one end encodes, the other decodes -/

@[simp] theorem length_putUint16 (n : UInt16) : (putUint16 n).length = 2 := length_bigEndian _ _

@[simp] theorem uint16_putUint16 (n : UInt16) (rest : Bytes) :
    uint16 (putUint16 n ++ rest) = n := by
  rw [uint16, List.take_left' (length_putUint16 n), putUint16,
    ofBigEndian_bigEndian (by have := n.toNat_lt; simpa using this), UInt16.ofNat_toNat]

@[simp] theorem uint16_putUint16' (n : UInt16) : uint16 (putUint16 n) = n := by
  simpa using uint16_putUint16 n []

/-- The length of padding drawn is below the bound. -/
theorem nextPaddingLen_lt (st : CodecState) : (c.nextPaddingLen st).1.toNat < maxPaddingLen := by
  unfold nextPaddingLen maxPaddingLen
  split
  · simp only [UInt16.toNat_mod]
    exact Nat.mod_lt _ (by decide)
  · exact Nat.zero_lt_succ _

theorem sizeBytes_le : 2 ≤ c.sizeBytes ∧ c.sizeBytes ≤ 18 := by
  unfold sizeBytes
  split
  all_goals try omega
  · have := AEAD.overhead_le; grind [AEADAuthenticator.overhead]
  · have := c.auth.aead.overhead_le; grind [AEADAuthenticator.overhead]

theorem overhead_le : c.auth.overhead ≤ 16 := c.auth.aead.overhead_le

theorem decodeSealed_encodeSealed {auth : AEADAuthenticator} (h : auth.Lawful) (k : Calls)
    (size : UInt16) :
    ∃ b k', encodeSealed auth k size = (.ok b, k') ∧ b.length = 2 + auth.overhead ∧
      decodeSealed auth k b = (.ok size, k') := by
  refine ⟨_, _, by rw [encodeSealed, h.seal_], ?_, ?_⟩
  · rw [auth.aead.length_seal, length_putUint16]; rfl
  · rw [decodeSealed, h.open_seal]
    simp

/-- The error of a size that cannot be decoded is none that the readers look for. -/
theorem decodeSize_error {st : CodecState} {b : Bytes} {e : Error}
    (h : (c.decodeSize st b).1 = .error e) : e ≠ .errSoft ∧ e.text ≠ Error.eof.text := by
  have hsealed : ∀ (auth : AEADAuthenticator) (k : Calls),
      (decodeSealed auth k b).1 = .error e → e ≠ .errSoft ∧ e.text ≠ Error.eof.text := by
    intro auth k hk
    unfold decodeSealed at hk
    cases ho : auth.open_ k b with
    | mk out k' =>
      rw [ho] at hk
      cases out with
      | ok p => cases hk
      | error e' =>
        cases hk
        exact AEADAuthenticator.open_error (by rw [ho])
      | panic => cases hk
  unfold decodeSize at h
  split at h
  · cases h
  · cases h
  · exact hsealed _ _ h
  · exact hsealed _ _ h

/-- Decoding as many bytes as a size takes does not panic. -/
theorem decodeSize_ne_panic {st : CodecState} {b : Bytes} (hlen : b.length = c.sizeBytes) :
    (c.decodeSize st b).1 ≠ .panic := by
  have hsealed : ∀ (auth : AEADAuthenticator) (k : Calls), b.length = 2 + auth.overhead →
      (decodeSealed auth k b).1 ≠ .panic := by
    intro auth k hb hk
    unfold decodeSealed at hk
    cases ho : auth.open_ k b with
    | mk out k' =>
      rw [ho] at hk
      cases out with
      | ok p => cases hk
      | error e' => cases hk
      | panic =>
        have := AEADAuthenticator.open_panic (v := auth) (k := k) (c := b) (by rw [ho])
        omega
  unfold sizeBytes at hlen
  unfold decodeSize
  cases hp : c.sizeParser with
  | plain => simp
  | shake => simp
  | aead auth => rw [hp] at hlen; exact hsealed _ _ hlen
  | aeadOfBody => rw [hp] at hlen; exact hsealed _ _ hlen

theorem open_error {st : CodecState} {b : Bytes} {e : Error} (h : (c.open_ st b).1 = .error e) :
    e ≠ .errSoft ∧ e.text ≠ Error.eof.text :=
  AEADAuthenticator.open_error (v := c.auth) (k := st.body) (c := b) h

/-- A size encoded by an end is decoded by the other, in the same state. -/
theorem decodeSize_encodeSize (h : c.Lawful) (st : CodecState) (size : UInt16) :
    ∃ b st', c.encodeSize st size = (.ok b, st') ∧ b.length = c.sizeBytes ∧
      c.decodeSize st b = (.ok size, st') := by
  unfold encodeSize decodeSize sizeBytes
  cases hp : c.sizeParser with
  | plain => exact ⟨_, _, rfl, by simp, by simp⟩
  | shake =>
    refine ⟨_, _, rfl, by simp, ?_⟩
    simp [next, ← UInt16.xor_assoc]
  | aead auth =>
    obtain ⟨b, k', he, hl, hd⟩ := decodeSealed_encodeSealed (h.sizeParser auth hp) st.size size
    exact ⟨b, _, by simp only [he]; rfl, hl, by simp only [hd]⟩
  | aeadOfBody =>
    obtain ⟨b, k', he, hl, hd⟩ := decodeSealed_encodeSealed h.auth st.body size
    exact ⟨b, _, by simp only [he]; rfl, hl, by simp only [hd]⟩

/-- A body sealed by an end is opened by the other, in the same state. -/
theorem open_seal (h : c.Lawful) (st : CodecState) (p : Bytes) :
    ∃ b st', c.seal_ st p = (.ok b, st') ∧ b.length = p.length + c.auth.overhead ∧
      c.open_ st b = (.ok p, st') := by
  unfold seal_ open_
  rw [h.auth.seal_]
  exact ⟨_, _, rfl, c.auth.aead.length_seal _ _ _, by rw [h.auth.open_seal]⟩

end ChunkCodec

end Gzv2ray
