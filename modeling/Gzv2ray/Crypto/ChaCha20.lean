import Gzv2ray.Crypto.CryptionReader
import Gzv2ray.Lib.CounterStream
import Gzv2ray.Lib.LittleEndian

/-!
# ChaCha20

The stream keeps the block that it is using, and how much of it has been used. A call uses what
is left of the block, then whole blocks, then the beginning of one.

* `chaCha20Block`: the block of a state;
* `ChaCha20Stream.xorKeyStream`: a call;
* `xorKeyStream_calls`: any calls, one after the other, are one exclusive or with the key stream,
  so that the same stream deciphers what is cut in another way;
* `byteAt_period`: the blocks of the key stream differ by the counter. It has one word and is not
  carried into the next one, so that the key stream comes back after `2 ^ 32` blocks.
-/

namespace Gzv2ray

namespace ChaCha20

/-- The state: constants, the key, a counter and the nonce. -/
abbrev State := Vector UInt32 16

def rotateLeft (x n : UInt32) : UInt32 := (x <<< n) ||| (x >>> (32 - n))

/-- A quarter of a round, on four of the words. -/
def quarterRound (a b c d : Fin 16) (x : State) : State :=
  let x := x.set a (x[a] + x[b])
  let x := x.set d (rotateLeft (x[d] ^^^ x[a]) 16)
  let x := x.set c (x[c] + x[d])
  let x := x.set b (rotateLeft (x[b] ^^^ x[c]) 12)
  let x := x.set a (x[a] + x[b])
  let x := x.set d (rotateLeft (x[d] ^^^ x[a]) 8)
  let x := x.set c (x[c] + x[d])
  x.set b (rotateLeft (x[b] ^^^ x[c]) 7)

/-- A round on the columns, and one on the diagonals. -/
def doubleRound (x : State) : State :=
  let x := quarterRound 3 7 11 15 (quarterRound 2 6 10 14 (quarterRound 1 5 9 13 (quarterRound 0 4 8 12 x)))
  quarterRound 3 4 9 14 (quarterRound 2 7 8 13 (quarterRound 1 6 11 12 (quarterRound 0 5 10 15 x)))

def blockSize : ℕ := 64

/-- `ChaCha20Block`. Rounds are made two at a time. -/
def chaCha20Block (rounds : ℕ) (s : State) : Bytes :=
  let x := doubleRound^[(rounds + 1) / 2] s
  (List.finRange 16).flatMap fun i => littleEndian 4 (s[i] + x[i]).toNat

theorem length_chaCha20Block (rounds : ℕ) (s : State) : (chaCha20Block rounds s).length = blockSize := by
  rw [chaCha20Block, List.length_flatMap]
  simp only [length_littleEndian]
  rfl

/-- A block of the key of the bytes 0 to 31. -/
example : (chaCha20Block 20 #v[0x61707865, 0x3320646e, 0x79622d32, 0x6b206574, 0x03020100, 0x07060504,
    0x0b0a0908, 0x0f0e0d0c, 0x13121110, 0x17161514, 0x1b1a1918, 0x1f1e1d1c, 0x00000001, 0x09000000,
    0x4a000000, 0x00000000]).take 8 = [0x10, 0xf1, 0xe7, 0xe4, 0xd1, 0x3b, 0x59, 0x15] := by
  decide +kernel

/-- The state of the next block. -/
def nextState (s : State) : State := s.set 12 (s[12] + 1)

/-- The key stream. -/
def keyStream (rounds : ℕ) : BlockGenerator State where
  size := blockSize
  size_pos := by decide
  next := nextState
  block := chaCha20Block rounds
  length_block := length_chaCha20Block rounds

end ChaCha20

open ChaCha20

/-- A stream, in the middle of a block. -/
structure ChaCha20Stream where
  state : State
  block : Bytes
  offset : ℕ
  rounds : ℕ
  offset_lt : offset < blockSize

namespace ChaCha20Stream

/-- `NewChaCha20Stream`. It panics unless the key has 32 bytes (it may go up to the capacity of its
    slice) and the nonce 8 or 12. -/
def new (key nonce : Bytes) (rounds : ℕ) : Option ChaCha20Stream :=
  let word (b : Bytes) (i : ℕ) : UInt32 := UInt32.ofNat (ofLittleEndian ((b.drop (4 * i)).take 4))
  if key.length < 32 then none
  else
    let words (counter n0 n1 n2 : UInt32) : State :=
      #v[0x61707865, 0x3320646e, 0x79622d32, 0x6b206574, word key 0, word key 1, word key 2, word key 3,
        word key 4, word key 5, word key 6, word key 7, counter, n0, n1, n2]
    let start (state : State) : Option ChaCha20Stream :=
      some ⟨state, chaCha20Block rounds state, 0, rounds, by decide⟩
    if nonce.length = 8 then start (words 0 0 (word nonce 0) (word nonce 1))
    else if nonce.length = 12 then start (words 0 (word nonce 0) (word nonce 1) (word nonce 2))
    else none

/-- The stream after some bytes of its block have been used. -/
def advance (s : ChaCha20Stream) (o : ℕ) : ChaCha20Stream :=
  if h : o < blockSize then ⟨s.state, s.block, o, s.rounds, h⟩
  else ⟨nextState s.state, chaCha20Block s.rounds (nextState s.state), 0, s.rounds, by decide⟩

/-- `XORKeyStream`: what is put into the destination, which has room for it. -/
def xorKeyStream (s : ChaCha20Stream) (src : Bytes) : Bytes × ChaCha20Stream :=
  if src = [] then ([], s)
  else
    let gap := blockSize - s.offset
    let part := src.take gap
    let dst := List.zipWith (· ^^^ ·) part (s.block.drop s.offset)
    let (rest, s') := (s.advance (s.offset + part.length)).xorKeyStream (src.drop gap)
    (dst ++ rest, s')
termination_by src.length
decreasing_by
  have hpos := List.length_pos_iff.2 ‹src ≠ []›
  have hoffset := s.offset_lt
  rw [List.length_drop]
  omega

/-- Calls, one after the other. -/
def calls : ChaCha20Stream → List Bytes → List Bytes
  | _, [] => []
  | s, src :: srcs =>
    let (dst, s) := s.xorKeyStream src
    dst :: s.calls srcs

/-! ## The key stream that is used -/

/-- The stream of a state, after some bytes. -/
structure IsAt (s : ChaCha20Stream) (state : State) (rounds n : ℕ) : Prop where
  state : s.state = (keyStream rounds).stateAt state (n / blockSize)
  block : s.block = chaCha20Block rounds s.state
  offset : s.offset = n % blockSize
  rounds : s.rounds = rounds

theorem isAt_new {key nonce : Bytes} {rounds : ℕ} {s : ChaCha20Stream} (h : new key nonce rounds = some s) :
    s.IsAt s.state rounds 0 := by
  rw [new] at h
  dsimp only at h
  split_ifs at h
  all_goals
    obtain rfl := Option.some.inj h
    exact ⟨rfl, rfl, rfl, rfl⟩

theorem IsAt.advance {s : ChaCha20Stream} {state : State} {rounds n : ℕ} (h : s.IsAt state rounds n) {k : ℕ}
    (hk : s.offset + k ≤ blockSize) : (s.advance (s.offset + k)).IsAt state rounds (n + k) := by
  have hn := Nat.div_add_mod n blockSize
  rw [← h.offset] at hn
  rw [ChaCha20Stream.advance]
  have hpos : 0 < blockSize := by decide
  split_ifs with hlt
  · -- the block goes on
    have hsum : n + k = (s.offset + k) + blockSize * (n / blockSize) := by omega
    refine ⟨?_, h.block, ?_, h.rounds⟩
    · rw [hsum, Nat.add_mul_div_left _ _ hpos, Nat.div_eq_of_lt hlt, Nat.zero_add]
      exact h.state
    · rw [hsum, Nat.add_mul_mod_self_left, Nat.mod_eq_of_lt hlt]
  · -- the block has been used up
    have hsum : n + k = blockSize * (n / blockSize + 1) := by
      rw [Nat.mul_add]
      omega
    refine ⟨?_, by rw [h.rounds], ?_, h.rounds⟩
    · rw [hsum, Nat.mul_div_cancel_left _ hpos, BlockGenerator.stateAt, Function.iterate_succ_apply',
        ← BlockGenerator.stateAt, ← h.state]
      rfl
    · rw [hsum, Nat.mul_mod_right]

/-- A call goes on where the stream is. -/
theorem xorKeyStream_eq {s : ChaCha20Stream} {state : State} {rounds n : ℕ} (h : s.IsAt state rounds n)
    (src : Bytes) : (s.xorKeyStream src).1 = (keyStream rounds).xorFrom state n src ∧
      (s.xorKeyStream src).2.IsAt state rounds (n + src.length) := by
  induction hlength : src.length using Nat.strong_induction_on generalizing s n src with
  | h length ih =>
    subst hlength
    rw [xorKeyStream]
    split_ifs with hsrc
    · rw [hsrc]
      exact ⟨rfl, h⟩
    · have hpos := List.length_pos_iff.2 hsrc
      have hoffset := s.offset_lt
      have hgap : s.offset + (src.take (blockSize - s.offset)).length ≤ blockSize := by
        rw [List.length_take]
        omega
      obtain ⟨hdst, hnext⟩ := ih _ (by rw [List.length_drop]; omega) (h.advance hgap)
        (src.drop (blockSize - s.offset)) rfl
      -- the part of the block is that of the key stream at this place
      have hn : n = n / blockSize * blockSize + s.offset := by
        rw [h.offset, Nat.mul_comm]
        exact (Nat.div_add_mod n blockSize).symm
      have hpart : List.zipWith (· ^^^ ·) (src.take (blockSize - s.offset)) (s.block.drop s.offset) =
          (keyStream rounds).xorFrom state n (src.take (blockSize - s.offset)) := by
        have hblock := (keyStream rounds).xorFrom_block state (k := n / blockSize) hgap
        rw [h.block, h.state]
        exact hblock.symm.trans (congrArg (fun i => (keyStream rounds).xorFrom state i _) hn.symm)
      dsimp only
      refine ⟨?_, ?_⟩
      · rw [hpart, hdst, ← BlockGenerator.xorFrom_append, List.take_append_drop]
      · have hall : n + (src.take (blockSize - s.offset)).length + (src.drop (blockSize - s.offset)).length =
            n + src.length := by
          rw [Nat.add_assoc, ← List.length_append, List.take_append_drop]
        rw [← hall]
        exact hnext

theorem calls_eq {s : ChaCha20Stream} {state : State} {rounds n : ℕ} (h : s.IsAt state rounds n)
    (srcs : List Bytes) : (s.calls srcs).flatten = (keyStream rounds).xorFrom state n srcs.flatten ∧
      (s.calls srcs).map List.length = srcs.map List.length := by
  induction srcs generalizing s n with
  | nil => exact ⟨rfl, rfl⟩
  | cons src srcs ih =>
    obtain ⟨hdst, hnext⟩ := xorKeyStream_eq h src
    obtain ⟨hrest, hlengths⟩ := ih hnext
    rw [calls, List.flatten_cons, List.map_cons, List.map_cons, List.flatten_cons,
      BlockGenerator.xorFrom_append, hrest, hlengths, hdst, BlockGenerator.length_xorFrom]
    exact ⟨rfl, rfl⟩

end ChaCha20Stream

/-! ## The counter -/

/-- The state of a block: its counter counts the blocks, on 32 bits. -/
theorem ChaCha20.stateAt_eq (rounds : ℕ) (state : State) (k : ℕ) :
    (keyStream rounds).stateAt state k = state.set 12 (state[12] + UInt32.ofNat k) := by
  induction k with
  | zero =>
    refine Vector.ext fun i hi => ?_
    rw [Vector.getElem_set]
    split_ifs with hcounter
    · subst hcounter
      exact (UInt32.add_zero _).symm
    · rfl
  | succ k ih =>
    rw [BlockGenerator.stateAt, Function.iterate_succ_apply', ← BlockGenerator.stateAt, ih]
    change nextState _ = _
    rw [nextState, Vector.getElem_set_self, Vector.set_set, UInt32.ofNat_add, UInt32.add_assoc]
    rfl

/-- The key stream comes back after `2 ^ 32` blocks. -/
theorem ChaCha20.byteAt_period (rounds : ℕ) (state : State) (i : ℕ) :
    (keyStream rounds).byteAt state (i + 2 ^ 32 * blockSize) = (keyStream rounds).byteAt state i := by
  rw [BlockGenerator.byteAt, BlockGenerator.byteAt, stateAt_eq, stateAt_eq]
  change (chaCha20Block rounds (state.set 12 (state[12] + UInt32.ofNat ((i + 2 ^ 32 * blockSize) / blockSize)))).getD
    ((i + 2 ^ 32 * blockSize) % blockSize) 0 =
    (chaCha20Block rounds (state.set 12 (state[12] + UInt32.ofNat (i / blockSize)))).getD (i % blockSize) 0
  have hzero : UInt32.ofNat (2 ^ 32) = 0 := rfl
  rw [Nat.add_mul_div_right _ _ (by decide), Nat.add_mul_mod_self_right, UInt32.ofNat_add, hzero,
    UInt32.add_zero]

/-- The stream, as what becomes of a byte after others. -/
def ChaCha20Stream.cipher (s : ChaCha20Stream) : StreamCipher := fun past x =>
  x ^^^ (keyStream s.rounds).byteAt s.state past.length

namespace ChaCha20Stream

theorem cipher_xorKeyStream (s : ChaCha20Stream) (past b : Bytes) :
    s.cipher.xorKeyStream past b = (keyStream s.rounds).xorFrom s.state past.length b := by
  induction b generalizing past with
  | nil => rfl
  | cons x b ih =>
    rw [StreamCipher.xorKeyStream, ih, List.length_append, List.length_singleton]
    rfl

/-- The stream of a key and a nonce deciphers what another one of the same has enciphered. -/
theorem cipher_inverts (s : ChaCha20Stream) : s.cipher.Inverts s.cipher := by
  intro b
  rw [cipher_xorKeyStream, cipher_xorKeyStream, BlockGenerator.xorFrom_xorFrom]

/-- Calls of a new stream, one after the other, are one exclusive or with the key stream: that of
    the stream cipher that readers and writers take. Each block of it is that of the counter, which
    comes back after 32 bits; and what has been enciphered is deciphered by a stream of the same key
    and nonce, in whatever pieces it is given to it. -/
theorem xorKeyStream_calls {key nonce : Bytes} {rounds : ℕ} {s : ChaCha20Stream}
    (h : new key nonce rounds = some s) (srcs : List Bytes) :
    (s.calls srcs).map List.length = srcs.map List.length ∧
    (s.calls srcs).flatten = s.cipher.xorKeyStream [] srcs.flatten ∧
    (∀ i x, srcs.flatten[i]? = some x → (s.calls srcs).flatten[i]? = some (x ^^^
      (chaCha20Block rounds (s.state.set 12 (UInt32.ofNat (i / blockSize)))).getD (i % blockSize) 0)) ∧
    ∀ srcs' : List Bytes, srcs'.flatten = (s.calls srcs).flatten →
      (s.calls srcs').flatten = srcs.flatten := by
  have hat := isAt_new h
  have hrounds := hat.rounds
  obtain ⟨hflatten, hlengths⟩ := calls_eq hat srcs
  have hcounter : s.state[12] = 0 := by
    rw [new] at h
    dsimp only at h
    split_ifs at h
    all_goals
      obtain rfl := Option.some.inj h
      rfl
  refine ⟨hlengths, ?_, fun i x hx => ?_, fun srcs' hsrcs' => ?_⟩
  · rw [hflatten, cipher_xorKeyStream, hrounds]
    rfl
  · rw [hflatten, BlockGenerator.getElem?_xorFrom, hx, Option.map_some, Nat.zero_add,
      BlockGenerator.byteAt, stateAt_eq, hcounter, UInt32.zero_add]
    rfl
  · rw [(calls_eq hat srcs').1, hsrcs', hflatten, BlockGenerator.xorFrom_xorFrom]

/-- Zeros, in two pieces. -/
def exampleSources : List Bytes := [[0, 0], [0]]

theorem xorKeyStream_calls_example :
    ∃ s, new (List.replicate 32 0) (List.replicate 12 0) 20 = some s ∧
    (s.calls exampleSources).map List.length = exampleSources.map List.length ∧
    (s.calls exampleSources).flatten = s.cipher.xorKeyStream [] exampleSources.flatten ∧
    (∀ i x, exampleSources.flatten[i]? = some x → (s.calls exampleSources).flatten[i]? = some (x ^^^
      (chaCha20Block 20 (s.state.set 12 (UInt32.ofNat (i / blockSize)))).getD (i % blockSize) 0)) ∧
    ∀ srcs' : List Bytes, srcs'.flatten = (s.calls exampleSources).flatten →
      (s.calls srcs').flatten = exampleSources.flatten := by
  have hnew : new (List.replicate 32 0) (List.replicate 12 0) 20 = some _ := rfl
  exact ⟨_, hnew, xorKeyStream_calls hnew _⟩

end ChaCha20Stream

end Gzv2ray
