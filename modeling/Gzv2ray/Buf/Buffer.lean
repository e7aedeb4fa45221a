import Mathlib.Data.List.Basic
import Mathlib.Tactic

/-!
# Buffers

The recyclable buffers of `common/buf`. A `Buffer` is a window on a byte array
of fixed capacity: the offset at which its content starts, and the content. The
bytes of the array outside the window are never read through the buffer and
are left out; what is kept is that the window fits the array, as a field.

A `MultiBuffer` is a list of buffers, of which only the concatenated content
(`MultiBuffer.bytes`) matters to a reader. The operations splitting one are
shown to split its content (`splitBytes_spec`, `splitSize_bytes`).
-/

namespace Gzv2ray

/-- A string of bytes, as in Go: no encoding is assumed. -/
abbrev Bytes := List UInt8

/-- `int32(n)` -/
@[irreducible] def int32 (n : ℕ) : ℤ := (n : ℤ).bmod (2 ^ 32)

theorem int32_of_lt {n : ℕ} (h : n < 2 ^ 31) : int32 n = n := by
  unfold int32
  exact Int.bmod_eq_of_le (by omega) (by omega)

/-- The least length that wraps around. -/
theorem int32_eq_neg : int32 (2 ^ 31) = -2 ^ 31 := by
  unfold int32
  decide

/-- The size of a regular buffer. -/
def bufSize : ℕ := 2048

/-- A buffer: its content `bytes` starts at the offset `start` of an array of
    `bufSize` bytes, in which it fits. -/
structure Buffer where
  start : ℕ
  bytes : Bytes
  fits : start + bytes.length ≤ bufSize
  deriving DecidableEq

namespace Buffer

/-- An empty buffer, with all its capacity ahead. -/
def new : Buffer := ⟨0, [], Nat.zero_le _⟩

instance : Inhabited Buffer := ⟨new⟩

/-- The offset of the end of the content. -/
def stop (b : Buffer) : ℕ := b.start + b.bytes.length

/-- The length of the content. -/
def len (b : Buffer) : ℕ := b.bytes.length

/-- The buffer has no content. -/
def isEmpty (b : Buffer) : Bool := b.bytes.isEmpty

/-- The buffer has no more room to grow. -/
def isFull (b : Buffer) : Bool := b.stop == bufSize

/-- A fresh buffer holding `l`. -/
def ofBytes (l : Bytes) (h : l.length ≤ bufSize) : Buffer := ⟨0, l, by simpa using h⟩

/-- Appends as much of `data` as there is room for; returns how much that was. -/
def write (b : Buffer) (data : Bytes) : Buffer × ℕ :=
  let n := min (bufSize - b.stop) data.length
  (⟨b.start, b.bytes ++ data.take n, by
    have := b.fits
    simp only [stop, List.length_append, List.length_take, n]
    omega⟩, n)

/-- Takes up to `n` bytes from the front. A buffer read to its end is cleared,
    so that its whole capacity is available again. -/
def read (b : Buffer) (n : ℕ) : Buffer × Bytes :=
  if h : b.len ≤ n then (new, b.bytes)
  else (⟨b.start + n, b.bytes.drop n, by
    have := b.fits
    simp only [len, List.length_drop] at *
    omega⟩, b.bytes.take n)

/-- Leaves the first `n` bytes of the content out. -/
def advance (b : Buffer) (n : ℕ) : Buffer :=
  ⟨b.start + min n b.len, b.bytes.drop n, by
    have := b.fits
    simp only [len, List.length_drop]
    omega⟩

/-- The buffer whose content, at the given offset, is overwritten, as far as there is
    room. -/
def overwrite (start : ℕ) (l : Bytes) : Buffer :=
  ⟨min start bufSize, l.take (bufSize - start), by rw [List.length_take]; omega⟩

/-- Masks the first byte. -/
def maskFirst (b : Buffer) (mask : UInt8) : Buffer :=
  ⟨b.start, b.bytes.modifyHead (· &&& mask), by rw [List.length_modifyHead]; exact b.fits⟩

theorem len_le (b : Buffer) : b.bytes.length ≤ bufSize :=
  le_trans (Nat.le_add_left _ _) b.fits

@[simp] theorem new_bytes : new.bytes = [] := rfl

@[simp] theorem ofBytes_bytes (l : Bytes) (h : l.length ≤ bufSize) : (ofBytes l h).bytes = l := rfl

@[simp] theorem isEmpty_iff (b : Buffer) : b.isEmpty = true ↔ b.bytes = [] := by
  simp [isEmpty]

@[simp] theorem isEmpty_eq_false_iff (b : Buffer) : b.isEmpty = false ↔ b.bytes ≠ [] := by
  simp [isEmpty]

/-- A read takes the first bytes of the content. -/
@[simp] theorem read_snd (b : Buffer) (n : ℕ) : (b.read n).2 = b.bytes.take n := by
  unfold read
  split
  · rename_i h
    rw [List.take_of_length_le h]
  · rfl

/-- A read leaves the rest of the content. -/
@[simp] theorem read_fst_bytes (b : Buffer) (n : ℕ) : (b.read n).1.bytes = b.bytes.drop n := by
  unfold read
  split
  · rename_i h
    rw [List.drop_of_length_le h, new_bytes]
  · rfl

/-- A fresh buffer takes all of what fits. -/
theorem write_new (l : Bytes) (h : l.length ≤ bufSize) : (new.write l).1.bytes = l := by
  simp [write, stop, new, Nat.min_eq_right h]

theorem write_new_eq (l : Bytes) (h : l.length ≤ bufSize) : (new.write l).1 = ofBytes l h := by
  rw [ofBytes, Buffer.mk.injEq]
  exact ⟨rfl, write_new l h⟩

/-- A write from the start of a buffer takes what fits. -/
theorem write_take {b : Buffer} (hb : b.start = 0) {l : Bytes} (hl : b.bytes = l.take bufSize)
    (data : Bytes) :
    (b.write data).1.start = 0 ∧ (b.write data).1.bytes = (l ++ data).take bufSize := by
  refine ⟨hb, ?_⟩
  have hstop : b.stop = (l.take bufSize).length := by rw [stop, hb, hl, Nat.zero_add]
  rw [write]
  dsimp only
  rw [hstop, hl, List.take_append, ← List.take_eq_take_min, List.length_take]
  congr 2
  omega

theorem overwrite_bytes {start : ℕ} {l : Bytes} (h : start + l.length ≤ bufSize) :
    (overwrite start l).bytes = l :=
  List.take_of_length_le (by omega)

end Buffer

/-- A list of buffers. -/
abbrev MultiBuffer := List Buffer

namespace MultiBuffer

/-- The concatenated content. -/
def bytes (mb : MultiBuffer) : Bytes := mb.flatMap Buffer.bytes

/-- The total number of bytes. -/
def len (mb : MultiBuffer) : ℕ := (mb.map Buffer.len).sum

/-- The list has no content: all its buffers are empty. -/
def isEmpty (mb : MultiBuffer) : Bool := mb.all Buffer.isEmpty

@[simp] theorem bytes_nil : bytes [] = [] := rfl

@[simp] theorem bytes_cons (b : Buffer) (mb : MultiBuffer) :
    bytes (b :: mb) = b.bytes ++ bytes mb := rfl

@[simp] theorem bytes_append (mb mb' : MultiBuffer) :
    bytes (mb ++ mb') = bytes mb ++ bytes mb' := List.flatMap_append

theorem len_eq (mb : MultiBuffer) : len mb = (bytes mb).length := by
  induction mb with
  | nil => rfl
  | cons b mb ih => simp [len, Buffer.len, ← ih]

@[simp] theorem isEmpty_iff (mb : MultiBuffer) : isEmpty mb = true ↔ bytes mb = [] := by
  simp [isEmpty, bytes]

@[simp] theorem isEmpty_eq_false_iff (mb : MultiBuffer) : isEmpty mb = false ↔ bytes mb ≠ [] := by
  rw [ne_eq, ← isEmpty_iff, Bool.not_eq_true]

/-! ## Merging -/

/-- As many new buffers as it takes to hold `src`. -/
def fillBuffers : ℕ → Bytes → MultiBuffer
  | 0, _ => []
  | fuel + 1, src =>
    if src.isEmpty then []
    else
      let (b, n) := Buffer.new.write src
      b :: fillBuffers fuel (src.drop n)

/-- Appends bytes, first to the last buffer, then in new ones. -/
def mergeBytes (dest : MultiBuffer) (src : Bytes) : MultiBuffer :=
  match dest.getLast? with
  | none => fillBuffers src.length src
  | some last =>
    if last.isFull then dest ++ fillBuffers src.length src
    else
      let (b, n) := last.write src
      dest.dropLast ++ b :: fillBuffers (src.drop n).length (src.drop n)

theorem fillBuffers_bytes (fuel : ℕ) (src : Bytes) (h : src.length ≤ fuel) :
    bytes (fillBuffers fuel src) = src := by
  induction fuel generalizing src with
  | zero => rw [List.length_eq_zero_iff.1 (Nat.le_zero.1 h)]; rfl
  | succ fuel ih =>
    rw [fillBuffers]
    split
    · rename_i he
      rw [List.isEmpty_iff.1 he, bytes_nil]
    · rename_i he
      have hpos : 0 < src.length := List.length_pos_iff.2 fun h => he (by simp [h])
      dsimp only
      rw [bytes_cons, ih]
      · simp [Buffer.write, Buffer.new]
      · simp only [Buffer.write, Buffer.new, Buffer.stop, List.length_drop, List.length_nil, bufSize]
        omega

/-- Merging appends the bytes. -/
@[simp] theorem mergeBytes_bytes (dest : MultiBuffer) (src : Bytes) :
    bytes (mergeBytes dest src) = bytes dest ++ src := by
  unfold mergeBytes
  cases hl : dest.getLast? with
  | none =>
    rw [List.getLast?_eq_none_iff.1 hl]
    simpa using fillBuffers_bytes _ src le_rfl
  | some last =>
    have hdest : bytes dest = bytes dest.dropLast ++ last.bytes := by
      conv_lhs => rw [← List.dropLast_append_getLast? last hl]
      simp
    dsimp only
    split
    · rw [bytes_append, fillBuffers_bytes _ _ le_rfl]
    · rw [bytes_append, bytes_cons, fillBuffers_bytes _ _ le_rfl, hdest]
      simp [Buffer.write]

/-! ## Splitting -/

/-- Splits up to `n` bytes off the front: the rest, and the bytes. The loop
    stops at the first buffer with content left. -/
def splitBytes : MultiBuffer → ℕ → MultiBuffer × Bytes
  | [], _ => ([], [])
  | b :: mb, n =>
    let (b', out) := b.read n
    if b'.isEmpty then
      let (mb', out') := splitBytes mb (n - out.length)
      (mb', out ++ out')
    else (b' :: mb, out)

/-- Splits the first buffer off. -/
def splitFirst : MultiBuffer → MultiBuffer × Option Buffer
  | [] => ([], none)
  | b :: mb => (mb, some b)

/-- The whole buffers at the front totalling at most `n` bytes, after the rest. -/
def splitSizeLoop : MultiBuffer → ℕ → MultiBuffer × MultiBuffer
  | [], _ => ([], [])
  | b :: mb, n =>
    if b.len ≤ n then
      let (rest, taken) := splitSizeLoop mb (n - b.len)
      (rest, b :: taken)
    else (b :: mb, [])

/-- Splits at most `n` bytes off the front, as buffers: the rest, and the
    buffers. A first buffer longer than `n` is cut, others are not. -/
def splitSize : MultiBuffer → ℕ → MultiBuffer × MultiBuffer
  | [], _ => ([], [])
  | b :: mb, n =>
    if h : n < b.len then
      (⟨b.start + n, b.bytes.drop n, by
        have := b.fits
        simp only [Buffer.len, List.length_drop] at *
        omega⟩ :: mb,
      [Buffer.ofBytes (b.bytes.take n) (by
        have := b.len_le
        simp only [List.length_take]
        omega)])
    else splitSizeLoop (b :: mb) n

/-- `splitBytes` takes the first bytes of the content and leaves the others. -/
theorem splitBytes_spec (mb : MultiBuffer) (n : ℕ) :
    (splitBytes mb n).2 = (bytes mb).take n ∧ bytes (splitBytes mb n).1 = (bytes mb).drop n := by
  induction mb generalizing n with
  | nil => simp [splitBytes]
  | cons b mb ih =>
    simp only [splitBytes, Buffer.read_snd]
    split
    · rename_i h
      rw [Buffer.isEmpty_iff, Buffer.read_fst_bytes] at h
      have hle : b.bytes.length ≤ n := List.drop_eq_nil_iff.1 h
      obtain ⟨h₁, h₂⟩ := ih (n - b.bytes.length)
      simp only [bytes_cons, List.take_append, List.drop_append, List.take_of_length_le hle,
        List.drop_of_length_le hle, List.nil_append, h₁, h₂, and_self]
    · rename_i h
      rw [Buffer.isEmpty_iff, Buffer.read_fst_bytes, List.drop_eq_nil_iff, not_le] at h
      simp [List.take_append, List.drop_append, Nat.sub_eq_zero_of_le h.le]

@[simp] theorem splitBytes_snd (mb : MultiBuffer) (n : ℕ) :
    (splitBytes mb n).2 = (bytes mb).take n := (splitBytes_spec mb n).1

@[simp] theorem splitBytes_fst_bytes (mb : MultiBuffer) (n : ℕ) :
    bytes (splitBytes mb n).1 = (bytes mb).drop n := (splitBytes_spec mb n).2

theorem splitSizeLoop_bytes (mb : MultiBuffer) (n : ℕ) :
    bytes (splitSizeLoop mb n).2 ++ bytes (splitSizeLoop mb n).1 = bytes mb := by
  induction mb generalizing n with
  | nil => rfl
  | cons b mb ih =>
    simp only [splitSizeLoop]
    split
    · simp [ih]
    · simp

/-- `splitSize` neither loses nor reorders content. -/
theorem splitSize_bytes (mb : MultiBuffer) (n : ℕ) :
    bytes (splitSize mb n).2 ++ bytes (splitSize mb n).1 = bytes mb := by
  cases mb with
  | nil => rfl
  | cons b mb =>
    simp only [splitSize]
    split
    · simp [← List.append_assoc]
    · exact splitSizeLoop_bytes _ _

theorem splitSizeLoop_len (mb : MultiBuffer) (n : ℕ) :
    (bytes (splitSizeLoop mb n).2).length ≤ n := by
  induction mb generalizing n with
  | nil => simp [splitSizeLoop]
  | cons b mb ih =>
    simp only [splitSizeLoop]
    split
    · rename_i h
      have := ih (n - b.len)
      simp only [bytes_cons, List.length_append]
      simp only [Buffer.len] at *
      omega
    · simp

/-- `splitSize` takes at most the size asked for. -/
theorem splitSize_len (mb : MultiBuffer) (n : ℕ) : (bytes (splitSize mb n).2).length ≤ n := by
  cases mb with
  | nil => simp [splitSize]
  | cons b mb =>
    simp only [splitSize]
    split
    · simp
    · exact splitSizeLoop_len _ _

end MultiBuffer

/-! ## Full buffers -/

/-- So many full buffers. -/
def fullBuffers (n : ℕ) : MultiBuffer :=
  List.replicate n (.ofBytes (List.replicate bufSize 0) (List.length_replicate ..).le)

theorem len_fullBuffers (n : ℕ) : MultiBuffer.len (fullBuffers n) = n * bufSize := by
  rw [fullBuffers, MultiBuffer.len, List.map_replicate, List.sum_replicate, smul_eq_mul, Buffer.len,
    Buffer.ofBytes_bytes, List.length_replicate]

theorem isEmpty_fullBuffers {n : ℕ} (hn : 0 < n) :
    MultiBuffer.isEmpty (fullBuffers n) = false := by
  rw [MultiBuffer.isEmpty_eq_false_iff, ← List.length_pos_iff, ← MultiBuffer.len_eq, len_fullBuffers]
  exact Nat.mul_pos hn (by decide)

end Gzv2ray
