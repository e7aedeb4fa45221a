import Gzv2ray.Buf.BufferedReader

/-!
# Taking lists of buffers apart

What is split off a list of buffers, and what is left of it, are its content; what is merged into
one is behind its content; what is copied from one is the start of its content.

* `mergeMulti`, `copy`: merging the buffers of two lists, and copying without taking;
* `conserves_iff`: all of this holds for any size that is not negative, unless the number of bytes
  taken wraps around, at the first buffer that the size does not have room for;
* `splitAtMost_eq`: it does not for sizes that leave room for a buffer, for which `splitAtMost` is
  `splitSize`.
-/

namespace Gzv2ray

namespace MultiBuffer

/-- Moves the buffers of `src` behind those of `dest`: both lists afterwards. -/
def mergeMulti (dest src : MultiBuffer) : MultiBuffer × MultiBuffer := (dest ++ src, [])

/-- The bytes that are written to the start of an array of `n` bytes. -/
def copy : MultiBuffer → ℕ → Bytes
  | [], _ => []
  | bb :: mb, n =>
    let out := bb.bytes.take n
    if out.length < bb.len then out else out ++ copy mb (n - out.length)

/-- No byte is lost or moved, and no more of them are taken than asked for. -/
structure Conserves (mb : MultiBuffer) (size : Int32) : Prop where
  splitBytes (n : ℕ) : (splitBytes mb n).2 ++ bytes (splitBytes mb n).1 = bytes mb ∧
    (splitBytes mb n).2.length = min n (len mb)
  splitSize : ∃ rest taken, splitAtMost mb size = .ok (rest, taken) ∧
    bytes taken ++ bytes rest = bytes mb ∧ (len taken : ℤ) ≤ size.toInt
  splitFirst : bytes (splitFirst mb).2.toList ++ bytes (splitFirst mb).1 = bytes mb
  mergeBytes (b : Bytes) : bytes (mergeBytes mb b) = bytes mb ++ b
  mergeMulti (src : MultiBuffer) :
    bytes (mergeMulti mb src).1 = bytes mb ++ bytes src ∧ (mergeMulti mb src).2 = []
  copy (n : ℕ) : copy mb n = (bytes mb).take n

/-- The number of bytes taken stays below that at which it wraps around. -/
def Fits (mb : MultiBuffer) (size : Int32) : Prop :=
  ∀ n, (len (mb.take n) : ℤ) ≤ size.toInt → len (mb.take (n + 1)) < 2 ^ 31

theorem copy_eq (mb : MultiBuffer) (n : ℕ) : copy mb n = (bytes mb).take n := by
  induction mb generalizing n with
  | nil => rw [copy, bytes_nil, List.take_nil]
  | cons bb mb ih =>
    rw [copy, bytes_cons, List.take_append, List.length_take]
    split
    · rename_i hcut
      rw [Buffer.len] at hcut
      rw [show n - bb.bytes.length = 0 by omega, List.take_zero, List.append_nil]
    · rename_i hcut
      rw [Buffer.len] at hcut
      rw [ih, show min n bb.bytes.length = bb.bytes.length by omega]

theorem splitFirst_bytes (mb : MultiBuffer) :
    bytes (splitFirst mb).2.toList ++ bytes (splitFirst mb).1 = bytes mb := by
  cases mb with
  | nil => rfl
  | cons b mb => rw [splitFirst, Option.toList, bytes_cons, bytes_nil, List.append_nil, bytes_cons]

/-! ## Splitting by size -/

theorem toInt_ofNat {n : ℕ} (h : n < 2 ^ 31) : (Int32.ofNat n).toInt = n := by
  rw [Int32.toInt_ofNat', Int32.size]
  exact Int.bmod_eq_of_le (by omega) (by omega)

/-- A number of bytes that wraps around is negative. -/
theorem toInt_ofNat_neg {n : ℕ} (h : 2 ^ 31 ≤ n) (h' : n < 2 ^ 32) : (Int32.ofNat n).toInt < 0 := by
  rw [Int32.toInt_ofNat', Int32.size, Int.bmod_def]
  split <;> omega

@[simp] theorem len_nil : len [] = 0 := rfl

@[simp] theorem len_cons (b : Buffer) (mb : MultiBuffer) : len (b :: mb) = b.len + len mb := rfl

/-- The loop, with the number of bytes taken before. It takes no more bytes than the size exactly if
    this number does not wrap around. -/
theorem splitAtMostLoop_len_iff {size : Int32} (total : ℕ) (htotal : (total : ℤ) ≤ size.toInt)
    (mb : MultiBuffer) :
    ((total + len (splitAtMostLoop size (.ofNat total) mb).2 : ℕ) : ℤ) ≤ size.toInt ↔
      ∀ n, ((total + len (mb.take n) : ℕ) : ℤ) ≤ size.toInt → total + len (mb.take (n + 1)) < 2 ^ 31 := by
  have hsize := size.toInt_lt
  induction mb generalizing total with
  | nil =>
    rw [splitAtMostLoop]
    refine iff_of_true htotal fun n _ => ?_
    rw [List.take_nil, len_nil]
    omega
  | cons b mb ih =>
    have hb := b.len_le
    rw [← Buffer.len, bufSize] at hb
    rw [splitAtMostLoop, ← Int32.ofNat_add]
    by_cases hwrap : total + b.len < 2 ^ 31
    · have hexact := toInt_ofNat hwrap
      by_cases hroom : Int32.ofNat (total + b.len) > size
      · -- the loop stops in front of the buffer
        rw [if_pos hroom]
        have hlt : size.toInt < (total + b.len : ℕ) := hexact ▸ Int32.lt_iff_toInt_lt.1 hroom
        refine iff_of_true htotal fun n hn => ?_
        rcases n with - | n
        · simpa using hwrap
        · rw [List.take_succ_cons, len_cons] at hn
          push_cast at hlt hn
          omega
      · rw [if_neg hroom]
        have hle : ((total + b.len : ℕ) : ℤ) ≤ size.toInt := by
          rw [← hexact]
          exact not_lt.1 fun h => hroom (Int32.lt_iff_toInt_lt.2 h)
        have hiff := ih (total + b.len) hle
        dsimp only
        rw [len_cons, ← add_assoc]
        refine hiff.trans ⟨?_, ?_⟩
        · rintro h (- | n) hn
          · simpa using hwrap
          · rw [List.take_succ_cons, len_cons, ← add_assoc] at hn ⊢
            exact h n hn
        · intro h n hn
          have hnext := h (n + 1)
          rw [List.take_succ_cons, List.take_succ_cons, len_cons, len_cons, ← add_assoc,
            ← add_assoc] at hnext
          exact hnext hn
    · -- the number wraps around, and the buffer is taken
      have hneg := toInt_ofNat_neg (not_lt.1 hwrap) (show total + b.len < 2 ^ 32 by omega)
      rw [if_neg fun h => absurd (Int32.lt_iff_toInt_lt.1 h) (by omega)]
      dsimp only
      rw [len_cons]
      refine iff_of_false (by push_cast; omega) fun h => ?_
      have hfirst := h 0 (by simpa using htotal)
      rw [List.take_succ_cons, List.take_zero, len_cons, len_nil] at hfirst
      omega

/-- Only the first buffer is cut, and only if the size is not negative. -/
theorem splitAtMost_iff (mb : MultiBuffer) (size : Int32) :
    (∃ rest taken, splitAtMost mb size = .ok (rest, taken) ∧ bytes taken ++ bytes rest = bytes mb ∧
      (len taken : ℤ) ≤ size.toInt) ↔ 0 ≤ size.toInt ∧ Fits mb size := by
  have hsize := size.toInt_lt
  rcases mb with - | ⟨b, mb⟩
  · have hfits : Fits [] size := fun n _ => by simp
    rw [and_iff_left hfits]
    constructor
    · rintro ⟨rest, taken, hsplit, -, hle⟩
      obtain ⟨rfl, rfl⟩ := Prod.mk.inj (Outcome.ok.inj hsplit)
      exact hle
    · exact fun h => ⟨[], [], rfl, rfl, h⟩
  have hb := b.len_le
  rw [← Buffer.len, bufSize] at hb
  have hexact : (Int32.ofNat b.len).toInt = b.len := toInt_ofNat (by omega)
  rw [splitAtMost]
  -- The first buffer is cut, which panics at a negative size, or whole buffers are counted.
  by_cases hcut : Int32.ofNat b.len > size
  · rw [if_pos hcut]
    have hlong : size.toInt < b.len := hexact ▸ Int32.lt_iff_toInt_lt.1 hcut
    by_cases hneg : size < 0
    · rw [if_pos hneg]
      have hlt : size.toInt < 0 := Int32.lt_iff_toInt_lt.1 hneg
      refine iff_of_false ?_ fun h => absurd h.1 (by omega)
      rintro ⟨rest, taken, hsplit, -⟩
      cases hsplit
    · rw [if_neg hneg]
      have hpos : 0 ≤ size.toInt := not_lt.1 fun h => hneg (Int32.lt_iff_toInt_lt.2 h)
      have hle := splitSize_len (b :: mb) size.toInt.toNat
      rw [← len_eq] at hle
      refine iff_of_true ⟨(splitSize (b :: mb) size.toInt.toNat).1,
        (splitSize (b :: mb) size.toInt.toNat).2, rfl, splitSize_bytes _ _, by omega⟩ ⟨hpos, ?_⟩
      rintro (- | n) hn
      · rw [List.take_succ_cons, List.take_zero, len_cons, len_nil]
        omega
      · rw [List.take_succ_cons, len_cons] at hn
        push_cast at hn
        omega
  · rw [if_neg hcut]
    have hpos : (0 : ℤ) ≤ size.toInt := by
      have hle : (b.len : ℤ) ≤ size.toInt :=
        hexact ▸ not_lt.1 fun h => hcut (Int32.lt_iff_toInt_lt.2 h)
      omega
    have hiff := splitAtMostLoop_len_iff 0 hpos (b :: mb)
    simp only [Nat.zero_add] at hiff
    rw [and_iff_right hpos, Fits, ← hiff]
    constructor
    · rintro ⟨rest, taken, hsplit, -, hle⟩
      have htaken := congrArg Prod.snd (Outcome.ok.inj hsplit)
      exact htaken ▸ hle
    · exact fun h => ⟨(splitAtMostLoop size 0 (b :: mb)).1, (splitAtMostLoop size 0 (b :: mb)).2, rfl,
        splitAtMostLoop_bytes size 0 _, h⟩

/-- The content is kept for any size that is not negative, unless the number of bytes taken wraps
    around. -/
theorem conserves_iff (mb : MultiBuffer) (size : Int32) :
    Conserves mb size ↔ 0 ≤ size.toInt ∧ Fits mb size := by
  rw [← splitAtMost_iff]
  refine ⟨fun h => h.splitSize, fun h => ⟨fun n => ?_, h, splitFirst_bytes mb, mergeBytes_bytes mb,
    fun src => ⟨bytes_append mb src, rfl⟩, copy_eq mb⟩⟩
  rw [splitBytes_snd, splitBytes_fst_bytes, List.take_append_drop, List.length_take, len_eq]
  exact ⟨rfl, rfl⟩

/-- Of 2 GiB, all are taken, although one byte less was asked for. -/
theorem not_conserves_wrapping : ¬ Conserves (fullBuffers (2 ^ 20)) (2 ^ 31 - 1) := by
  intro h
  have hsize : (2 ^ 31 - 1 : Int32).toInt = 2 ^ 31 - 1 := by decide
  obtain ⟨-, hfits⟩ := (splitAtMost_iff _ _).1 h.splitSize
  have htake (n : ℕ) (hn : n ≤ 2 ^ 20) :
      len ((fullBuffers (2 ^ 20)).take n) = n * bufSize := by
    rw [fullBuffers, List.take_replicate, Nat.min_eq_left hn]
    exact len_fullBuffers n
  have hlt := hfits (2 ^ 20 - 1)
  rw [hsize, htake _ (by decide), htake _ (by decide)] at hlt
  exact absurd (hlt (by decide)) (by decide)

/-! ## Sizes that leave room for a buffer -/

theorem splitAtMostLoop_eq {size : Int32} (total : ℕ) (htotal : (total : ℤ) ≤ size.toInt)
    (mb : MultiBuffer) (h : size.toInt + bufSize < 2 ^ 31) :
    splitAtMostLoop size (.ofNat total) mb = splitSizeLoop mb (size.toInt.toNat - total) := by
  induction mb generalizing total with
  | nil => rfl
  | cons b mb ih =>
    have hb := b.len_le
    rw [← Buffer.len] at hb
    have hexact : (Int32.ofNat (total + b.len)).toInt = (total + b.len : ℕ) := toInt_ofNat (by omega)
    rw [splitAtMostLoop, splitSizeLoop, ← Int32.ofNat_add]
    by_cases hroom : Int32.ofNat (total + b.len) > size
    · have hlt := Int32.lt_iff_toInt_lt.1 hroom
      rw [if_pos hroom, if_neg (by omega)]
    · have hle := not_lt.1 fun h => hroom (Int32.lt_iff_toInt_lt.2 h)
      rw [if_neg hroom, if_pos (by omega), ih _ (by omega), Nat.sub_add_eq]

/-- For such a size, numbers of bytes are as good as natural numbers. -/
theorem splitAtMost_eq {size : Int32} (hpos : 0 ≤ size.toInt) (h : size.toInt + bufSize < 2 ^ 31)
    (mb : MultiBuffer) : splitAtMost mb size = .ok (splitSize mb size.toInt.toNat) := by
  rcases mb with - | ⟨b, mb⟩
  · rfl
  have hb := b.len_le
  rw [← Buffer.len, bufSize] at hb
  have hexact : (Int32.ofNat b.len).toInt = b.len := toInt_ofNat (by omega)
  rw [splitAtMost]
  by_cases hcut : Int32.ofNat b.len > size
  · have hneg : ¬ size < 0 := fun hneg => absurd (Int32.lt_iff_toInt_lt.1 hneg) (not_lt.2 hpos)
    rw [if_pos hcut, if_neg hneg]
  · have hle := not_lt.1 fun h => hcut (Int32.lt_iff_toInt_lt.2 h)
    rw [if_neg hcut, splitSize, dif_neg (by omega)]
    exact congrArg Outcome.ok (splitAtMostLoop_eq 0 hpos (b :: mb) h)

end MultiBuffer

end Gzv2ray
