import Gzv2ray.Buf.Buffer
import Mathlib.Tactic

/-!
# Hashes of strings

`memhashFallback` hashes the bytes of a string with a seed. On eight bytes it loses nothing, as
each of its steps can be taken back: each hash is that of eight bytes (`memhashFallback_unhash`).
-/

namespace Gzv2ray.Strmatcher

def m1 : UInt64 := 16877499708836156737
def m2 : UInt64 := 2820277070424839065
def m3 : UInt64 := 9497967016996688599
def m4 : UInt64 := 15839092249703872147

def hashkey : Fin 4 → UInt64 := fun _ => 1

def rotl31 (x : UInt64) : UInt64 := (x <<< 31) ||| (x >>> (64 - 31))

def readUnaligned32 (p : Bytes) : UInt32 :=
  (p.getD 0 0).toUInt32 ||| (p.getD 1 0).toUInt32 <<< 8 ||| (p.getD 2 0).toUInt32 <<< 16 |||
    (p.getD 3 0).toUInt32 <<< 24

def readUnaligned64 (p : Bytes) : UInt64 :=
  (p.getD 0 0).toUInt64 ||| (p.getD 1 0).toUInt64 <<< 8 ||| (p.getD 2 0).toUInt64 <<< 16 |||
    (p.getD 3 0).toUInt64 <<< 24 ||| (p.getD 4 0).toUInt64 <<< 32 |||
    (p.getD 5 0).toUInt64 <<< 40 ||| (p.getD 6 0).toUInt64 <<< 48 |||
    (p.getD 7 0).toUInt64 <<< 56

/-- The hash takes in some bits. -/
def mix (h x : UInt64) : UInt64 := rotl31 ((h ^^^ x) * m1) * m2

/-- The cases of up to 32 bytes. -/
def memhashTail (h : UInt64) (p : Bytes) : UInt64 :=
  let s := p.length
  if s = 0 then h
  else if s < 4 then
    let h := h ^^^ (p.getD 0 0).toUInt64
    let h := h ^^^ (p.getD (s >>> 1) 0).toUInt64 <<< 8
    mix h ((p.getD (s - 1) 0).toUInt64 <<< 16)
  else if s ≤ 8 then
    let h := h ^^^ (readUnaligned32 p).toUInt64
    mix h ((readUnaligned32 (p.drop (s - 4))).toUInt64 <<< 32)
  else if s ≤ 16 then
    let h := mix h (readUnaligned64 p)
    mix h (readUnaligned64 (p.drop (s - 8)))
  else
    let h := mix h (readUnaligned64 p)
    let h := mix h (readUnaligned64 (p.drop 8))
    let h := mix h (readUnaligned64 (p.drop (s - 16)))
    mix h (readUnaligned64 (p.drop (s - 8)))

/-- The loop over more than 32 bytes, with what it leaves to the other cases. -/
def memhashLanes (v1 v2 v3 v4 : UInt64) (p : Bytes) : UInt64 × Bytes :=
  if 32 ≤ p.length then
    memhashLanes
      (rotl31 ((v1 ^^^ readUnaligned64 p) * m1) * m2)
      (rotl31 ((v2 ^^^ readUnaligned64 (p.drop 8)) * m2) * m3)
      (rotl31 ((v3 ^^^ readUnaligned64 (p.drop 16)) * m3) * m4)
      (rotl31 ((v4 ^^^ readUnaligned64 (p.drop 24)) * m4) * m1)
      (p.drop 32)
  else (v1 ^^^ v2 ^^^ v3 ^^^ v4, p)
termination_by p.length
decreasing_by simp only [List.length_drop]; omega

def memhashFallback (p : Bytes) (seed : UInt64) : UInt64 :=
  let h := seed + .ofNat p.length * hashkey 0
  let h :=
    if p.length ≤ 32 then memhashTail h p
    else
      let (h, p) := memhashLanes h (seed * hashkey 1) (seed * hashkey 2) (seed * hashkey 3) p
      memhashTail h p
  let h := h ^^^ (h >>> 29)
  let h := h * m3
  h ^^^ (h >>> 32)

def strhashFallback (s : Bytes) (seed : UInt64) : UInt64 := memhashFallback s seed

/-! ## Steps that are taken back -/

theorem rotl31_eq (y : UInt64) : rotl31 ((y >>> 31) ||| (y <<< 33)) = y := by
  rw [rotl31, ← UInt64.toBitVec_inj]
  ext i hi
  simp
  grind

theorem xor_shiftRight_29 (y : UInt64) : (y ^^^ (y >>> 29) ^^^ (y >>> 58)) ^^^
    ((y ^^^ (y >>> 29) ^^^ (y >>> 58)) >>> 29) = y := by
  rw [← UInt64.toBitVec_inj]
  ext i hi
  have hlast : y.toBitVec.getLsbD (58 + (29 + i)) = false := BitVec.getLsbD_of_ge _ _ (by omega)
  have hsame : 29 + (29 + i) = 58 + i := by omega
  simp [hlast, hsame]

theorem xor_shiftRight_32 (y : UInt64) :
    (y ^^^ (y >>> 32)) ^^^ ((y ^^^ (y >>> 32)) >>> 32) = y := by
  rw [← UInt64.toBitVec_inj]
  ext i hi
  have hlast : y.toBitVec.getLsbD (32 + (32 + i)) = false := BitVec.getLsbD_of_ge _ _ (by omega)
  simp [hlast]

/-- A word, the least significant byte first. -/
def bytes32 (x : UInt32) : Bytes :=
  [x.toUInt8, (x >>> 8).toUInt8, (x >>> 16).toUInt8, (x >>> 24).toUInt8]

theorem readUnaligned32_bytes32 (x : UInt32) (p : Bytes) :
    readUnaligned32 (bytes32 x ++ p) = x := by
  rw [readUnaligned32, bytes32, ← UInt32.toBitVec_inj]
  ext i hi
  simp [-UInt32.toUInt32_toUInt8, UInt8.toBitVec_toUInt32, UInt32.toBitVec_toUInt8]
  grind

theorem xor_halves (w : UInt64) :
    w.toUInt32.toUInt64 ^^^ (w >>> 32).toUInt32.toUInt64 <<< 32 = w := by
  rw [← UInt64.toBitVec_inj]
  ext i
  simp [-UInt64.toUInt64_toUInt32]
  grind

/-- A multiplication is taken back, as the factor is odd. -/
theorem mul_mul_cancel {m n : UInt64} (h : n * m = 1) (x : UInt64) : x * n * m = x := by
  rw [UInt64.mul_assoc, h, UInt64.mul_one]

theorem memhashTail_bytes32 (h : UInt64) (x y : UInt32) :
    memhashTail h (bytes32 x ++ bytes32 y) = mix h (x.toUInt64 ^^^ y.toUInt64 <<< 32) := by
  have hdrop : (bytes32 x ++ bytes32 y).drop 4 = bytes32 y ++ [] := rfl
  have hlength : (bytes32 x ++ bytes32 y).length = 8 := rfl
  simp only [memhashTail, hlength]
  rw [if_neg (by decide), if_neg (by decide), if_pos le_rfl, hdrop, readUnaligned32_bytes32,
    readUnaligned32_bytes32, mix, mix, UInt64.xor_assoc]

/-- The bits that make a hash of another one. -/
def unmix (h k : UInt64) : UInt64 :=
  let h₁ := k * 7334314220784947369
  h ^^^ ((h₁ >>> 31) ||| (h₁ <<< 33)) * 14759540311803787969

theorem mix_unmix (h k : UInt64) : mix h (unmix h k) = k := by
  let h₁ := k * 7334314220784947369
  let h₂ := ((h₁ >>> 31) ||| (h₁ <<< 33)) * 14759540311803787969
  calc rotl31 ((h ^^^ (h ^^^ h₂)) * m1) * m2
      = rotl31 (h₂ * m1) * m2 := by rw [← UInt64.xor_assoc, UInt64.xor_self, UInt64.zero_xor]
    _ = h₁ * m2 := by rw [mul_mul_cancel (by decide), rotl31_eq]
    _ = k := mul_mul_cancel (by decide) k

/-- Eight bytes with a hash. -/
def unhash (k : UInt64) : Bytes :=
  let h := (k ^^^ (k >>> 32)) * 4028866683949957351
  let w := unmix 8 (h ^^^ (h >>> 29) ^^^ (h >>> 58))
  bytes32 w.toUInt32 ++ bytes32 (w >>> 32).toUInt32

/-- Each hash is that of eight bytes. -/
theorem memhashFallback_unhash (k : UInt64) : memhashFallback (unhash k) 0 = k := by
  let h := (k ^^^ (k >>> 32)) * 4028866683949957351
  have htail : memhashTail 8 (unhash k) = h ^^^ (h >>> 29) ^^^ (h >>> 58) := by
    rw [unhash, memhashTail_bytes32, xor_halves, mix_unmix]
  have hlength : (unhash k).length = 8 := rfl
  have hseed : (0 : UInt64) + .ofNat 8 * hashkey 0 = 8 := by decide
  simp only [memhashFallback, hlength, hseed]
  rw [if_pos (by decide), htail, xor_shiftRight_29, mul_mul_cancel (by decide), xor_shiftRight_32]

end Gzv2ray.Strmatcher
