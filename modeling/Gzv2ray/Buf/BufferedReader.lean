import Gzv2ray.Buf.CopyErrors
import Gzv2ray.Lib.Transition

/-!
# Buffered readers, over any reader

A `BufferedReader` over a reader that may return data, an error, or both at once. Its operations
share what is left of the data of a read.

`bufferedReader_reach_iff`: what was returned and what is left are all that the reader returned, in
order, as long as neither `read` nor `readByte` meets data together with an error, and `readByte`
meets no read without data and without an error.
-/

namespace Gzv2ray

/-! ## Splitting, by numbers of 32 bits -/

namespace MultiBuffer

/-- The loop of `splitAtMost`, with the number of bytes taken. -/
def splitAtMostLoop (size : Int32) : Int32 → MultiBuffer → MultiBuffer × MultiBuffer
  | _, [] => ([], [])
  | totalBytes, b :: mb =>
    if totalBytes + Int32.ofNat b.len > size then (b :: mb, [])
    else
      let (rest, taken) := splitAtMostLoop size (totalBytes + Int32.ofNat b.len) mb
      (rest, b :: taken)

/-- Splits off buffers of at most `size` bytes: the rest, and the buffers. The first buffer is cut
    if it is longer. A new buffer cannot be extended by a negative number. -/
def splitAtMost (mb : MultiBuffer) (size : Int32) : Outcome (MultiBuffer × MultiBuffer) :=
  match mb with
  | [] => .ok ([], [])
  | b :: mb =>
    if Int32.ofNat b.len > size then
      if size < 0 then .panic else .ok (splitSize (b :: mb) size.toInt.toNat)
    else .ok (splitAtMostLoop size 0 (b :: mb))

theorem splitAtMostLoop_bytes (size totalBytes : Int32) (mb : MultiBuffer) :
    bytes (splitAtMostLoop size totalBytes mb).2 ++ bytes (splitAtMostLoop size totalBytes mb).1 =
      bytes mb := by
  induction mb generalizing totalBytes with
  | nil => rfl
  | cons b mb ih =>
    rw [splitAtMostLoop]
    split
    · rfl
    · dsimp only
      rw [bytes_cons, bytes_cons, List.append_assoc, ih]

theorem splitAtMost_bytes {mb rest taken : MultiBuffer} {size : Int32}
    (h : splitAtMost mb size = .ok (rest, taken)) : bytes taken ++ bytes rest = bytes mb := by
  rcases mb with - | ⟨b, mb⟩
  · obtain ⟨rfl, rfl⟩ := Prod.mk.inj (Outcome.ok.inj h)
    rfl
  · rw [splitAtMost] at h
    split at h
    · split at h
      · cases h
      · have hsplit := splitSize_bytes (b :: mb) size.toInt.toNat
        rwa [Outcome.ok.inj h] at hsplit
    · have hsplit := splitAtMostLoop_bytes size 0 (b :: mb)
      rwa [Outcome.ok.inj h] at hsplit

/-- A list without content is let go. -/
def orNil (mb : MultiBuffer) : MultiBuffer := if isEmpty mb then [] else mb

@[simp] theorem bytes_orNil (mb : MultiBuffer) : bytes (orNil mb) = bytes mb := by
  rw [orNil]
  split
  · rename_i hempty
    rw [(isEmpty_iff mb).1 hempty, bytes_nil]
  · rfl

end MultiBuffer

/-! ## The reader -/

/-- What is left of the data of a read, and how many reads there were. -/
structure LeftoverReader where
  buffer : MultiBuffer
  calls : ℕ

namespace LeftoverReader

variable (reads : ℕ → MultiBuffer × Option Error) (r : LeftoverReader)

/-- Reads into a slice of `n` bytes. -/
def read (n : ℕ) : (Bytes × Option Error) × LeftoverReader :=
  if !MultiBuffer.isEmpty r.buffer then
    let (buffer, out) := MultiBuffer.splitBytes r.buffer n
    ((out, none), { r with buffer := MultiBuffer.orNil buffer })
  else
    match reads r.calls with
    | (_, some err) => (([], some err), { r with calls := r.calls + 1 })
    | (mb, none) =>
      let (mb, out) := MultiBuffer.splitBytes mb n
      ((out, none), ⟨if !MultiBuffer.isEmpty mb then mb else r.buffer, r.calls + 1⟩)

/-- A byte. It is zero if none was read. -/
def readByte : (UInt8 × Option Error) × LeftoverReader :=
  let ((out, err), r) := r.read reads 1
  ((out.headD 0, err), r)

def readMultiBuffer : (MultiBuffer × Option Error) × LeftoverReader :=
  if !MultiBuffer.isEmpty r.buffer then ((r.buffer, none), { r with buffer := [] })
  else (reads r.calls, { r with calls := r.calls + 1 })

/-- The second half of `readAtMost`. -/
def takeAtMost (size : Int32) : Outcome MultiBuffer × LeftoverReader :=
  match MultiBuffer.splitAtMost r.buffer size with
  | .ok (rb, mb) => (.ok mb, { r with buffer := MultiBuffer.orNil rb })
  | .error err => (.error err, r)
  | .panic => (.panic, r)

def readAtMost (size : Int32) : Outcome MultiBuffer × LeftoverReader :=
  if MultiBuffer.isEmpty r.buffer then
    match reads r.calls with
    | (mb, some err) =>
      if MultiBuffer.isEmpty mb then (.error err, { r with calls := r.calls + 1 })
      -- the error is left out, as there are data
      else takeAtMost ⟨mb, r.calls + 1⟩ size
    | (mb, none) => takeAtMost ⟨mb, r.calls + 1⟩ size
  else r.takeAtMost size

/-- A writer: its answers to what is left, and to the data of each read. -/
structure Answers where
  leftover : Option Error
  data : ℕ → Option Error

variable (write : Answers)

/-- A copy from the `n`-th read on: what the writer is given, the number of bytes, the error, and the
    reads made. The fuel bounds their number. -/
def copyLoop : ℕ → ℕ → Option (Bytes × ℤ × CopyError × ℕ)
  | 0, _ => none
  | fuel + 1, n =>
    let mb := (reads n).1
    match if MultiBuffer.isEmpty mb then none else write.data n with
    | some werr => some (MultiBuffer.bytes mb, int32 (MultiBuffer.len mb), .write werr, n + 1)
    | none =>
      match (reads n).2 with
      | some err => some (MultiBuffer.bytes mb, int32 (MultiBuffer.len mb), .read err, n + 1)
      | none =>
        (copyLoop fuel (n + 1)).map fun c =>
          (MultiBuffer.bytes mb ++ c.1, int32 (MultiBuffer.len mb) + c.2.1, c.2.2)

/-- Writes all to a writer, which takes what it is given, and lets go of it even if it fails. No
    error here has another one inside. -/
def writeTo (fuel : ℕ) : Option ((Bytes × ℤ × CopyOutcome) × LeftoverReader) :=
  match if r.buffer.isEmpty then none else write.leftover with
  | some err =>
    some ((MultiBuffer.bytes r.buffer, 0, .error (.write err)), { r with buffer := [] })
  | none =>
    (copyLoop reads write fuel r.calls).map fun c =>
      ((MultiBuffer.bytes r.buffer ++ c.1, int32 (MultiBuffer.len r.buffer) + c.2.1,
        copyOutcome c.2.2.1), ⟨[], c.2.2.2⟩)

end LeftoverReader

/-! ## Calls -/

inductive ReaderCall
  | read (n : ℕ)
  | readByte
  | readMultiBuffer
  | readAtMost (size : Int32)
  | writeTo (write : LeftoverReader.Answers) (fuel : ℕ)

namespace LeftoverReader

/-- The bytes that are returned. A panic returns nothing. -/
def bytesOf : Outcome MultiBuffer → Bytes
  | .ok mb => MultiBuffer.bytes mb
  | _ => []

/-- The bytes that a call returns, or hands to a writer, and the reader afterwards. -/
def perform (reads : ℕ → MultiBuffer × Option Error) (r : LeftoverReader) :
    ReaderCall → Option (Bytes × LeftoverReader)
  | .read n => some ((r.read reads n).1.1, (r.read reads n).2)
  | .readByte =>
    let ((c, err), r) := r.readByte reads
    some (if err.isNone then [c] else [], r)
  | .readMultiBuffer =>
    some (MultiBuffer.bytes (r.readMultiBuffer reads).1.1, (r.readMultiBuffer reads).2)
  | .readAtMost size => some (bytesOf (r.readAtMost reads size).1, (r.readAtMost reads size).2)
  | .writeTo write fuel => (r.writeTo reads write fuel).map fun c => (c.1.1, c.2)

/-- A call that loses nothing: `read` does not meet data together with an error, and `readByte` meets
    either data or an error. -/
def Keeps (reads : ℕ → MultiBuffer × Option Error) (r : LeftoverReader) : ReaderCall → Prop
  | .read _ => MultiBuffer.isEmpty r.buffer →
      (reads r.calls).2 ≠ none → MultiBuffer.isEmpty (reads r.calls).1
  | .readByte => MultiBuffer.isEmpty r.buffer →
      ((reads r.calls).2 ≠ none ↔ MultiBuffer.isEmpty (reads r.calls).1)
  | .readMultiBuffer => True
  | .readAtMost _ => True
  | .writeTo _ _ => True

end LeftoverReader

/-- A reader, and all bytes that were returned. -/
structure ReaderHistory where
  reader : LeftoverReader
  returned : Bytes

section

variable (reads : ℕ → MultiBuffer × Option Error) (left : MultiBuffer)

/-- Any calls, one after the other. -/
def readerCalls : Lts ReaderHistory ReaderCall where
  init s := s = ⟨⟨left, 0⟩, []⟩
  step s call t := ∃ out, s.reader.perform reads call = some (out, t.reader) ∧
    t.returned = s.returned ++ out

/-- What was left in the beginning, and then the bytes of so many reads. -/
def delivered (n : ℕ) : Bytes :=
  MultiBuffer.bytes left ++ (List.range n).flatMap fun k => MultiBuffer.bytes (reads k).1

/-- What was returned, and then what is left, is what the reader delivered. -/
def ReaderHistory.IsExact (s : ReaderHistory) : Prop :=
  s.returned ++ MultiBuffer.bytes s.reader.buffer = delivered reads left s.reader.calls

end

/-! ## What a call returns -/

section

variable {reads : ℕ → MultiBuffer × Option Error} {left : MultiBuffer}

theorem delivered_succ (n : ℕ) : delivered reads left (n + 1) =
    delivered reads left n ++ MultiBuffer.bytes (reads n).1 := by
  rw [delivered, delivered, List.range_succ, List.flatMap_append, List.flatMap_singleton,
    List.append_assoc]

namespace LeftoverReader

variable {r : LeftoverReader} {ret : Bytes}

theorem read_isExact_iff
    (h : ret ++ MultiBuffer.bytes r.buffer = delivered reads left r.calls) (n : ℕ) :
    ret ++ (r.read reads n).1.1 ++ MultiBuffer.bytes (r.read reads n).2.buffer =
        delivered reads left (r.read reads n).2.calls ↔ r.Keeps reads (.read n) := by
  rw [read, Keeps]
  by_cases hempty : MultiBuffer.isEmpty r.buffer
  · have hnil := (MultiBuffer.isEmpty_iff r.buffer).1 hempty
    rw [hnil, List.append_nil] at h
    rw [hempty, if_neg (by simp)]
    rcases hread : reads r.calls with ⟨mb, - | err⟩
    · refine iff_of_true ?_ fun _ hne => absurd rfl hne
      dsimp only
      have hbuffer : MultiBuffer.bytes (if !MultiBuffer.isEmpty (MultiBuffer.splitBytes mb n).1 then
          (MultiBuffer.splitBytes mb n).1 else r.buffer) = (MultiBuffer.bytes mb).drop n := by
        rw [← MultiBuffer.splitBytes_fst_bytes]
        split
        · rfl
        · rename_i hrest
          rw [Bool.not_eq_true, Bool.not_eq_false'] at hrest
          rw [hnil, (MultiBuffer.isEmpty_iff _).1 hrest]
      rw [hbuffer, MultiBuffer.splitBytes_snd, List.append_assoc, List.take_append_drop,
        delivered_succ, hread, h]
    · dsimp only
      rw [hnil, List.append_nil, List.append_nil, delivered_succ, hread, ← h,
        List.self_eq_append_right]
      simp
  · rw [if_pos (by simpa using hempty)]
    refine iff_of_true ?_ fun hempty' => absurd hempty' hempty
    dsimp only
    rw [MultiBuffer.bytes_orNil, MultiBuffer.splitBytes_snd, MultiBuffer.splitBytes_fst_bytes,
      List.append_assoc, List.take_append_drop, h]

theorem read_leftover (hempty : ¬ MultiBuffer.isEmpty r.buffer) (n : ℕ) :
    (r.read reads n).1 = ((MultiBuffer.bytes r.buffer).take n, none) := by
  rw [read, if_pos (by simpa using hempty), ← MultiBuffer.splitBytes_snd]

theorem read_data {mb : MultiBuffer} (hempty : MultiBuffer.isEmpty r.buffer)
    (hread : reads r.calls = (mb, none)) (n : ℕ) :
    (r.read reads n).1 = ((MultiBuffer.bytes mb).take n, none) := by
  rw [read, if_neg (by simpa using hempty), hread, ← MultiBuffer.splitBytes_snd]

theorem read_error {mb : MultiBuffer} {err : Error} (hempty : MultiBuffer.isEmpty r.buffer)
    (hread : reads r.calls = (mb, some err)) (n : ℕ) : (r.read reads n).1 = ([], some err) := by
  rw [read, if_neg (by simpa using hempty), hread]

theorem perform_readByte : r.perform reads .readByte =
    some (if (r.read reads 1).1.2.isNone then [(r.read reads 1).1.1.headD 0] else [],
      (r.read reads 1).2) := rfl

/-- A byte is returned as it was read if one was read, and made up if there were neither data nor an
    error. -/
theorem readByte_isExact_iff
    (h : ret ++ MultiBuffer.bytes r.buffer = delivered reads left r.calls) {out : Bytes}
    {r' : LeftoverReader} (hperform : r.perform reads .readByte = some (out, r')) :
    ret ++ out ++ MultiBuffer.bytes r'.buffer = delivered reads left r'.calls ↔
      r.Keeps reads .readByte := by
  have hexact := read_isExact_iff h 1
  have hone {b : Bytes} (hb : b ≠ []) : [(b.take 1).headD 0] = b.take 1 := by
    obtain ⟨c, b, rfl⟩ := List.exists_cons_of_ne_nil hb
    rfl
  rw [perform_readByte] at hperform
  obtain ⟨rfl, rfl⟩ := Prod.mk.inj (Option.some.inj hperform)
  rw [Keeps] at hexact
  rw [Keeps]
  by_cases hempty : MultiBuffer.isEmpty r.buffer
  · rcases hread : reads r.calls with ⟨mb, - | err⟩
    · rw [hread] at hexact
      rw [read_data hempty hread] at hexact ⊢
      have hkept := hexact.2 fun _ hne => absurd rfl hne
      by_cases hmb : MultiBuffer.isEmpty mb
      · -- a byte more is returned than there is
        refine iff_of_false (fun heq => ?_) fun hkeeps => (hkeeps hempty).2 hmb rfl
        have hlen := congrArg List.length (heq.trans hkept.symm)
        rw [(MultiBuffer.isEmpty_iff mb).1 hmb] at hlen
        simp at hlen
      · refine iff_of_true ?_ fun _ => iff_of_false (fun hne => hne rfl) hmb
        have hne : MultiBuffer.bytes mb ≠ [] := fun hnil => hmb ((MultiBuffer.isEmpty_iff mb).2 hnil)
        simp only [Option.isNone_none, if_true, hone hne]
        exact hkept
    · rw [hread] at hexact
      rw [read_error hempty hread] at hexact ⊢
      have hsome : some err ≠ none := Option.some_ne_none err
      refine Iff.trans hexact ⟨fun hkeeps _ => ?_, fun hkeeps _ _ => (hkeeps hempty).1 hsome⟩
      exact iff_of_true hsome (hkeeps hempty hsome)
  · have hne : MultiBuffer.bytes r.buffer ≠ [] := fun hnil =>
      hempty ((MultiBuffer.isEmpty_iff _).2 hnil)
    rw [read_leftover hempty] at hexact ⊢
    refine iff_of_true ?_ fun hempty' => absurd hempty' hempty
    simp only [Option.isNone_none, if_true, hone hne]
    exact hexact.2 fun hempty' => absurd hempty' hempty

theorem readMultiBuffer_isExact
    (h : ret ++ MultiBuffer.bytes r.buffer = delivered reads left r.calls) :
    ret ++ MultiBuffer.bytes (r.readMultiBuffer reads).1.1 ++
        MultiBuffer.bytes (r.readMultiBuffer reads).2.buffer =
      delivered reads left (r.readMultiBuffer reads).2.calls := by
  rw [readMultiBuffer]
  by_cases hempty : MultiBuffer.isEmpty r.buffer
  · rw [if_neg (by simpa using hempty)]
    have hnil := (MultiBuffer.isEmpty_iff r.buffer).1 hempty
    dsimp only
    rw [hnil, List.append_nil] at h ⊢
    rw [delivered_succ, h]
  · rw [if_pos (by simpa using hempty)]
    dsimp only
    rw [MultiBuffer.bytes_nil, List.append_nil, h]

/-- What is taken is returned, and nothing is at a panic. -/
theorem takeAtMost_spec (r : LeftoverReader) (size : Int32) :
    bytesOf (r.takeAtMost size).1 ++ MultiBuffer.bytes (r.takeAtMost size).2.buffer =
      MultiBuffer.bytes r.buffer ∧ (r.takeAtMost size).2.calls = r.calls := by
  rw [takeAtMost]
  rcases hsplit : MultiBuffer.splitAtMost r.buffer size with ⟨rb, mb⟩ | err | -
  · dsimp only [bytesOf]
    rw [MultiBuffer.bytes_orNil]
    exact ⟨MultiBuffer.splitAtMost_bytes hsplit, rfl⟩
  · exact ⟨rfl, rfl⟩
  · exact ⟨rfl, rfl⟩

theorem readAtMost_isExact
    (h : ret ++ MultiBuffer.bytes r.buffer = delivered reads left r.calls) (size : Int32) :
    ret ++ bytesOf (r.readAtMost reads size).1 ++
        MultiBuffer.bytes (r.readAtMost reads size).2.buffer =
      delivered reads left (r.readAtMost reads size).2.calls := by
  rw [readAtMost]
  by_cases hempty : MultiBuffer.isEmpty r.buffer
  · rw [if_pos hempty]
    have hnil := (MultiBuffer.isEmpty_iff r.buffer).1 hempty
    rw [hnil, List.append_nil] at h
    -- the data of a read are left before any are taken
    have htake (mb : MultiBuffer) (hread : (reads r.calls).1 = mb) :
        ret ++ bytesOf (takeAtMost ⟨mb, r.calls + 1⟩ size).1 ++
            MultiBuffer.bytes (takeAtMost ⟨mb, r.calls + 1⟩ size).2.buffer =
          delivered reads left (takeAtMost ⟨mb, r.calls + 1⟩ size).2.calls := by
      obtain ⟨hbytes, hcalls⟩ := takeAtMost_spec ⟨mb, r.calls + 1⟩ size
      rw [List.append_assoc, hbytes, hcalls, delivered_succ, hread, h]
    rcases hread : reads r.calls with ⟨mb, - | err⟩
    · exact htake mb (by rw [hread])
    · dsimp only
      split
      · rename_i hmb
        dsimp only [bytesOf]
        rw [delivered_succ, hread, (MultiBuffer.isEmpty_iff mb).1 hmb, hnil, h, List.append_nil]
      · exact htake mb (by rw [hread])
  · rw [if_neg hempty]
    obtain ⟨hbytes, hcalls⟩ := takeAtMost_spec r size
    rw [List.append_assoc, hbytes, hcalls, h]

/-- A copy hands over the data of all reads that it makes. -/
theorem copyLoop_spec {write : Answers} {fuel n : ℕ} {c : Bytes × ℤ × CopyError × ℕ}
    (h : copyLoop reads write fuel n = some c) :
    delivered reads left n ++ c.1 = delivered reads left c.2.2.2 := by
  induction fuel generalizing n c with
  | zero => cases h
  | succ fuel ih =>
    rw [copyLoop] at h
    split at h
    · obtain rfl := Option.some.inj h
      exact (delivered_succ n).symm
    · split at h
      · obtain rfl := Option.some.inj h
        exact (delivered_succ n).symm
      · obtain ⟨⟨out, size, e, m⟩, hloop, rfl⟩ := Option.map_eq_some_iff.1 h
        have hrest : delivered reads left (n + 1) ++ out = delivered reads left m := ih hloop
        rw [delivered_succ, List.append_assoc] at hrest
        exact hrest

theorem writeTo_isExact
    (h : ret ++ MultiBuffer.bytes r.buffer = delivered reads left r.calls) {write : Answers}
    {fuel : ℕ} {c : (Bytes × ℤ × CopyOutcome) × LeftoverReader}
    (hwrite : r.writeTo reads write fuel = some c) :
    ret ++ c.1.1 ++ MultiBuffer.bytes c.2.buffer = delivered reads left c.2.calls := by
  rw [writeTo] at hwrite
  split at hwrite
  · obtain rfl := Option.some.inj hwrite
    exact (List.append_nil _).trans h
  · obtain ⟨⟨out, size, e, m⟩, hloop, rfl⟩ := Option.map_eq_some_iff.1 hwrite
    have hcopy : delivered reads left r.calls ++ out = delivered reads left m := copyLoop_spec hloop
    rw [← h, List.append_assoc] at hcopy
    exact (List.append_nil _).trans hcopy

/-- A call returns the next bytes, exactly if it keeps those of the reader. -/
theorem perform_isExact_iff
    (h : ret ++ MultiBuffer.bytes r.buffer = delivered reads left r.calls) {call : ReaderCall}
    {out : Bytes} {r' : LeftoverReader} (hperform : r.perform reads call = some (out, r')) :
    ret ++ out ++ MultiBuffer.bytes r'.buffer = delivered reads left r'.calls ↔
      r.Keeps reads call := by
  rcases call with n | - | - | size | ⟨write, fuel⟩
  · obtain ⟨rfl, rfl⟩ := Prod.mk.inj (Option.some.inj hperform)
    exact read_isExact_iff h n
  · exact readByte_isExact_iff h hperform
  · obtain ⟨rfl, rfl⟩ := Prod.mk.inj (Option.some.inj hperform)
    exact iff_of_true (readMultiBuffer_isExact h) trivial
  · obtain ⟨rfl, rfl⟩ := Prod.mk.inj (Option.some.inj hperform)
    exact iff_of_true (readAtMost_isExact h size) trivial
  · obtain ⟨c, hwrite, hc⟩ := Option.map_eq_some_iff.1 hperform
    obtain ⟨rfl, rfl⟩ := Prod.mk.inj hc
    exact iff_of_true (writeTo_isExact h hwrite) trivial

end LeftoverReader

/-! ## Runs -/

theorem ReaderHistory.isExact_iff {s t : ReaderHistory} {call : ReaderCall} (hs : s.IsExact reads left)
    (h : (readerCalls reads left).step s call t) :
    t.IsExact reads left ↔ s.reader.Keeps reads call := by
  obtain ⟨out, hperform, hreturned⟩ := h
  rw [IsExact, hreturned]
  exact LeftoverReader.perform_isExact_iff hs hperform

end

/-- The runs in which nothing is lost, repeated or made up are those in which no call of `read` meets
    data together with an error, and calls of `readByte` meet either data or an error. -/
theorem bufferedReader_reach_iff (reads : ℕ → MultiBuffer × Option Error) (left : MultiBuffer)
    (s : ReaderHistory) : (readerCalls reads left).Reach (ReaderHistory.IsExact reads left) s ↔
      ((readerCalls reads left).restrict fun s call => s.reader.Keeps reads call).Reach
        (fun _ => True) s := by
  constructor
  · intro h
    induction h with
    | init hinit _ => exact .init hinit trivial
    | step hr hstep hexact ih =>
      exact ih.step ⟨(ReaderHistory.isExact_iff hr.within hstep).1 hexact, hstep⟩ trivial
  · intro h
    induction h with
    | init hinit _ =>
      refine .init hinit ?_
      obtain rfl := hinit
      exact (List.append_nil _).symm
    | step _ hstep _ ih =>
      exact ih.step hstep.2 ((ReaderHistory.isExact_iff ih.within hstep.2).2 hstep.1)

/-- Data that come together with an error are lost: the end of the stream is read, and nothing is
    left. -/
theorem not_bufferedReader_isExact :
    ∃ s, (readerCalls (fun _ => ([.ofBytes [1] (by decide)], some .eof)) []).Reach
        (fun _ => True) s ∧
      ¬ s.IsExact (fun _ => ([.ofBytes [1] (by decide)], some .eof)) [] := by
  refine ⟨⟨⟨[], 1⟩, []⟩, (Lts.Reach.init rfl trivial).step (a := .read 1) ⟨[], rfl, rfl⟩ trivial, ?_⟩
  rw [ReaderHistory.IsExact]
  decide

/-! ## Transports -/

/-- The reads of a transport, which returns either data or an error. -/
def Source.reads (s : Source) (k : ℕ) : MultiBuffer × Option Error :=
  match s.segments[k]? with
  | some mb => (mb, none)
  | none => ([], some s.err)

/-- The transport after some reads. -/
def Source.after (s : Source) (k : ℕ) : Source := { s with segments := s.segments.drop k }

theorem Source.after_readMultiBuffer (s : Source) (k : ℕ) : (s.after k).readMultiBuffer =
    match s.reads k with
    | (mb, none) => (.ok mb, s.after (k + 1))
    | (_, some err) => (.error err, s.after (k + 1)) := by
  rw [readMultiBuffer, reads, after, after]
  rcases hget : s.segments[k]? with - | mb
  · have hlen := List.getElem?_eq_none_iff.1 hget
    rw [List.drop_of_length_le hlen, List.drop_of_length_le (hlen.trans (Nat.le_succ k))]
  · obtain ⟨hlt, hmb⟩ := List.getElem?_eq_some_iff.1 hget
    rw [List.drop_eq_getElem_cons hlt, hmb]

/-- Over a transport, the reader is the one that returns either data or an error. -/
theorem LeftoverReader.read_source (r : LeftoverReader) (s : Source) (n : ℕ) :
    let b := BufferedReader.read ⟨r.buffer, s.after r.calls⟩ n
    let t := r.read s.reads n
    b.1 = (match t.1.2 with
      | none => .ok t.1.1
      | some err => .error err) ∧
    MultiBuffer.bytes b.2.buffer = MultiBuffer.bytes t.2.buffer ∧
    b.2.reader = s.after t.2.calls := by
  dsimp only
  rw [BufferedReader.read, read]
  by_cases hempty : MultiBuffer.isEmpty r.buffer
  · rw [if_neg (by simpa using hempty), if_neg (by simpa using hempty), s.after_readMultiBuffer]
    rcases hread : s.reads r.calls with ⟨mb, - | err⟩
    · refine ⟨rfl, ?_, rfl⟩
      dsimp only
      split
      · rfl
      · rename_i hrest
        rw [Bool.not_eq_true, Bool.not_eq_false'] at hrest
        rw [(MultiBuffer.isEmpty_iff _).1 hempty, (MultiBuffer.isEmpty_iff _).1 hrest]
    · exact ⟨rfl, rfl, rfl⟩
  · rw [if_pos (by simpa using hempty), if_pos (by simpa using hempty)]
    exact ⟨rfl, (MultiBuffer.bytes_orNil _).symm, rfl⟩

end Gzv2ray
