import Gzv2ray.Crypto.Codec

/-!
# The legacy authenticator of KCP

`SimpleAuthenticator` keeps a checksum and the length before the plaintext, and adds
to each byte the one four places before it. Adding a byte to another one twice leaves
it as it was, so that doing the same from the end to the start undoes it
(`foldl_reverse_foldl_xorStep`), also of the first bytes alone (`take_foldl_xorStep`).

* `simpleAuthenticator`: the AEAD;
* `simpleAuthenticator_opens`: it opens what it sealed, if the length fits two bytes.
-/

namespace Gzv2ray.Kcp

/-! ## Adding bytes to later ones -/

/-- `x[i] ^= x[i-4]` -/
def xorStep (x : Bytes) (i : ℕ) : Bytes := x.modify i (· ^^^ x.getD (i - 4) 0)

/-- `i` from 4 to the end. -/
def xorfwd (x : Bytes) : Bytes := (List.range' 4 (x.length - 4)).foldl xorStep x

/-- `i` from the end to 4. -/
def xorbkd (x : Bytes) : Bytes := (List.range' 4 (x.length - 4)).reverse.foldl xorStep x

@[simp] theorem length_xorStep (x : Bytes) (i : ℕ) : (xorStep x i).length = x.length :=
  List.length_modify ..

@[simp] theorem length_foldl_xorStep (x : Bytes) (l : List ℕ) : (l.foldl xorStep x).length = x.length := by
  induction l generalizing x with
  | nil => rfl
  | cons i l ih => rw [List.foldl_cons, ih, length_xorStep]

theorem length_xorfwd (x : Bytes) : (xorfwd x).length = x.length := length_foldl_xorStep x _

theorem length_xorbkd (x : Bytes) : (xorbkd x).length = x.length := length_foldl_xorStep x _

/-- A step twice is none. -/
theorem xorStep_xorStep (x : Bytes) {i : ℕ} (hi : 4 ≤ i) : xorStep (xorStep x i) i = x := by
  have hget : (xorStep x i).getD (i - 4) 0 = x.getD (i - 4) 0 := by
    rw [xorStep, List.getD_eq_getElem?_getD, List.getElem?_modify_ne _ _ (by omega),
      List.getD_eq_getElem?_getD]
  have hxor : ((· ^^^ x.getD (i - 4) 0) ∘ (· ^^^ x.getD (i - 4) 0) : UInt8 → UInt8) = id := by
    funext b
    rw [Function.comp_apply, UInt8.xor_assoc, UInt8.xor_self, UInt8.xor_zero]
    rfl
  rw [xorStep, hget, xorStep, List.modify_modify_eq, hxor, List.modify_id]

/-- Steps in the other order undo each other. -/
theorem foldl_reverse_foldl_xorStep (x : Bytes) {l : List ℕ} (hl : ∀ i ∈ l, 4 ≤ i) :
    l.reverse.foldl xorStep (l.foldl xorStep x) = x := by
  induction l generalizing x with
  | nil => rfl
  | cons i l ih =>
    rw [List.reverse_cons, List.foldl_append, List.foldl_cons (l := l),
      ih _ fun j hj => hl j (List.mem_cons_of_mem _ hj)]
    exact xorStep_xorStep x (hl i List.mem_cons_self)

/-- A step on the first bytes depends on these only. -/
theorem take_xorStep (x : Bytes) (n i : ℕ) : (xorStep x i).take n = xorStep (x.take n) i := by
  rw [xorStep, xorStep, List.take_modify]
  rcases Nat.lt_or_ge i n with hlt | hge
  · rw [List.getD_eq_getElem?_getD, List.getD_eq_getElem?_getD, List.getElem?_take_of_lt (by omega)]
  · have hlen : (x.take n).length ≤ i := (List.length_take_le n x).trans hge
    rw [List.modify_eq_self hlen, List.modify_eq_self hlen]

theorem take_foldl_xorStep (x : Bytes) (n : ℕ) (l : List ℕ) :
    (l.foldl xorStep x).take n = l.foldl xorStep (x.take n) := by
  induction l generalizing x with
  | nil => rfl
  | cons i l ih => rw [List.foldl_cons, List.foldl_cons, ih, take_xorStep]

/-! ## The authenticator -/

/-- The bytes that are missing to a multiple of four, as zeros. -/
def pad (dst : Bytes) : Bytes :=
  let xtra := 4 - dst.length % 4
  if xtra ≠ 4 then dst ++ List.replicate xtra 0 else dst

/-- The FNV-1a hash, on 32 bits. -/
def fnvHash (b : Bytes) : UInt32 :=
  b.foldl (fun hash byte => (hash ^^^ byte.toUInt32) * 16777619) 2166136261

namespace SimpleAuthenticator

/-- The length and the plaintext, after their checksum. -/
def prepend (plain : Bytes) : Bytes :=
  let dst := bigEndian 2 (plain.length % 2 ^ 16) ++ plain
  bigEndian 4 (fnvHash dst).toNat ++ dst

/-- Does what `f` does to the bytes as padded. -/
def padded (f : Bytes → Bytes) (dst : Bytes) : Bytes := (f (pad dst)).take dst.length

def seal_ (plain : Bytes) : Bytes := padded xorfwd (prepend plain)

def invalidAuth : Error := newError "transport/internet/kcp" "invalid auth"

def open_ (cipherText : Bytes) : Outcome Bytes :=
  if cipherText.length < 6 then .panic
  else
    let dst := padded xorbkd cipherText
    if ofBigEndian (dst.take 4) ≠ (fnvHash (dst.drop 4)).toNat then .error invalidAuth
    else if dst.length - 6 ≠ ofBigEndian ((dst.drop 4).take 2) then .error invalidAuth
    else .ok (dst.drop 6)

theorem length_padded {f : Bytes → Bytes} (hf : ∀ x, (f x).length = x.length) (dst : Bytes) :
    (padded f dst).length = dst.length := by
  rw [padded, List.length_take, hf, pad]
  split
  · rw [List.length_append, min_eq_left (Nat.le_add_right _ _)]
  · rw [min_self]

@[simp] theorem length_prepend (plain : Bytes) : (prepend plain).length = plain.length + 6 := by
  simp only [prepend, List.length_append, length_bigEndian]
  omega

theorem padded_xorbkd_xorfwd (dst : Bytes) : padded xorbkd (padded xorfwd dst) = dst := by
  have hlen := length_padded length_xorfwd dst
  have hpad (x : Bytes) (hx : x.length = dst.length) :
      (pad x).length = (pad dst).length ∧ (pad x).take dst.length = x := by
    rw [pad, pad, hx]
    split
    · rw [List.length_append, List.length_append, hx, List.take_left' hx]
      exact ⟨rfl, rfl⟩
    · exact ⟨hx, List.take_of_length_le hx.le⟩
  rw [padded, hlen, xorbkd, take_foldl_xorStep, (hpad _ hlen).1, (hpad _ hlen).2, padded, xorfwd,
    take_foldl_xorStep, (hpad dst rfl).2]
  exact foldl_reverse_foldl_xorStep _ fun i hi => (List.mem_range'_1.1 hi).1

theorem length_seal (plain : Bytes) : (seal_ plain).length = plain.length + 6 := by
  rw [seal_, length_padded length_xorfwd, length_prepend]

end SimpleAuthenticator

theorem simpleOverhead_le : 6 ≤ 16 := by decide

def simpleAuthenticator : AEAD where
  nonceSize := 0
  overhead := 6
  seal_ _ plainText _ := SimpleAuthenticator.seal_ plainText
  open_ _ cipherText _ := SimpleAuthenticator.open_ cipherText
  overhead_le := simpleOverhead_le
  length_seal _ p _ := SimpleAuthenticator.length_seal p
  length_open _ c _ p h := by
    unfold SimpleAuthenticator.open_ at h
    split at h
    · cases h
    · dsimp only at h
      split at h
      · cases h
      · split at h
        · cases h
        · cases h
          rw [List.length_drop, SimpleAuthenticator.length_padded length_xorbkd]
          omega
  open_error _ c _ e h := by
    unfold SimpleAuthenticator.open_ at h
    split at h
    · cases h
    · dsimp only at h
      split at h
      · cases h; decide
      · split at h
        · cases h; decide
        · cases h
  open_panic _ c _ h := by
    unfold SimpleAuthenticator.open_ at h
    split at h
    · assumption
    · dsimp only at h
      split at h
      · cases h
      · split at h <;> cases h

namespace SimpleAuthenticator

theorem open_seal {plain : Bytes} (h : plain.length < 2 ^ 16) : open_ (seal_ plain) = .ok plain := by
  have hhash (b : Bytes) : ofBigEndian (bigEndian 4 (fnvHash b).toNat) = (fnvHash b).toNat :=
    ofBigEndian_bigEndian (fnvHash b).toNat_lt
  have hlength : ofBigEndian (bigEndian 2 (plain.length % 2 ^ 16)) = plain.length := by
    rw [Nat.mod_eq_of_lt h, ofBigEndian_bigEndian (by omega)]
  have hprepend : (prepend plain).drop 6 = plain := by
    rw [prepend, ← List.append_assoc, List.drop_left' (by simp)]
  rw [open_, length_seal, if_neg (by omega)]
  dsimp only
  rw [seal_, padded_xorbkd_xorfwd, hprepend, length_prepend, prepend, List.take_left' (length_bigEndian ..),
    List.drop_left' (length_bigEndian ..), hhash, if_neg (not_not.2 rfl),
    List.take_left' (length_bigEndian ..), hlength, if_neg (by omega)]

end SimpleAuthenticator

theorem simpleAuthenticator_seal (nonce plain data : Bytes) :
    simpleAuthenticator.seal_ nonce plain data = SimpleAuthenticator.seal_ plain := rfl

theorem simpleAuthenticator_open (nonce cipherText data : Bytes) :
    simpleAuthenticator.open_ nonce cipherText data = SimpleAuthenticator.open_ cipherText := rfl

/-- Opening inverts sealing, if the length of the plaintext fits two bytes. -/
theorem simpleAuthenticator_opens {plain : Bytes} (h : plain.length < 2 ^ 16) (nonce data : Bytes) :
    simpleAuthenticator.open_ nonce (simpleAuthenticator.seal_ nonce plain data) data = .ok plain := by
  rw [simpleAuthenticator_seal, simpleAuthenticator_open, SimpleAuthenticator.open_seal h]

end Gzv2ray.Kcp
