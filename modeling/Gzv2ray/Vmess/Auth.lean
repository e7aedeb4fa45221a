import Gzv2ray.Crypto.Codec

/-!
# The authenticators of VMess

`FnvAuthenticator` keeps a checksum before the plaintext, `NoOpAuthenticator`
nothing. Both satisfy the contract of an `AEAD`: opening inverts sealing, and
`FnvAuthenticator` panics on what is too short for a checksum.
-/

namespace Gzv2ray.Vmess

/-- The FNV-1a hash, on 32 bits. -/
def authenticate (b : Bytes) : UInt32 :=
  b.foldl (fun hash byte => (hash ^^^ byte.toUInt32) * 16777619) 2166136261

/-- The checksum does not match. -/
def invalidAuthentication : Error := .new (ascii "invalid authentication")

/-- Opens what `FnvAuthenticator` sealed. -/
def fnvOpen (cipherText : Bytes) : Outcome Bytes :=
  if cipherText.length < 4 then .panic
  else if ofBigEndian (cipherText.take 4) ≠ (authenticate (cipherText.drop 4)).toNat then
    .error invalidAuthentication
  else .ok (cipherText.drop 4)

/-- The four bytes of a checksum are an overhead as authenticators have it. -/
theorem fnvOverhead_le : 4 ≤ 16 := by decide

def fnvAuthenticator : AEAD where
  nonceSize := 0
  overhead := 4
  seal_ _ plainText _ := bigEndian 4 (authenticate plainText).toNat ++ plainText
  open_ _ cipherText _ := fnvOpen cipherText
  overhead_le := fnvOverhead_le
  length_seal _ p _ := by simp [Nat.add_comm]
  length_open _ c _ p h := by
    unfold fnvOpen at h
    split at h
    · cases h
    · split at h
      · cases h
      · cases h
        rw [List.length_drop]
        omega
  open_error _ c _ e h := by
    unfold fnvOpen at h
    split at h
    · cases h
    · split at h
      · cases h; decide
      · cases h
  open_panic _ c _ h := by
    unfold fnvOpen at h
    split at h
    · assumption
    · split at h <;> cases h

def noOpAuthenticator : AEAD where
  nonceSize := 0
  overhead := 0
  seal_ _ plainText _ := plainText
  open_ _ cipherText _ := .ok cipherText
  overhead_le := by decide
  length_seal _ _ _ := rfl
  length_open _ _ _ _ h := by cases h; rfl
  open_error _ _ _ _ h := by cases h
  open_panic _ _ _ h := by cases h

theorem fnvAuthenticator_inverts : fnvAuthenticator.Inverts := by
  intro n p d
  have h : ofBigEndian (bigEndian 4 (authenticate p).toNat) = (authenticate p).toNat :=
    ofBigEndian_bigEndian (authenticate p).toNat_lt
  have htake : (bigEndian 4 (authenticate p).toNat ++ p).take 4 =
      bigEndian 4 (authenticate p).toNat := List.take_left' (length_bigEndian _ _)
  have hdrop : (bigEndian 4 (authenticate p).toNat ++ p).drop 4 = p :=
    List.drop_left' (length_bigEndian _ _)
  simp [fnvAuthenticator, fnvOpen, htake, hdrop, h]

theorem noOpAuthenticator_inverts : noOpAuthenticator.Inverts := fun _ _ _ => rfl

/-- An AEAD that uses no nonce, with no additional data. -/
def withoutNonce (aead : AEAD) : AEADAuthenticator where
  aead
  nonceGenerator := generateEmptyBytes
  additionalDataGenerator := some generateEmptyBytes

theorem withoutNonce_lawful {aead : AEAD} (hsize : aead.nonceSize = 0) (h : aead.Inverts) :
    (withoutNonce aead).Lawful :=
  ⟨fun _ => hsize.symm, h⟩

end Gzv2ray.Vmess
