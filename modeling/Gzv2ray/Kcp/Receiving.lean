import Gzv2ray.Kcp.Config
import Gzv2ray.Kcp.Segment
import Mathlib.Data.List.AList

/-!
# The receiving side of a KCP connection

The window of the segments received ahead of the reader (`ReceivingWindow`),
the list of the numbers to acknowledge (`AckList`), and the worker handing the
segments to the reader in the order of their numbers (`ReceivingWorker`).

* `ReceivingWindow.Drains`: what a read takes out of the window, segment by
  segment, in the order of the numbers;
* `ReceivingWorker.processSegment_get`, `processSegment_numbers`: a segment
  received changes the window at its number only, and its number is due an
  acknowledgement only if the window holds it;
* `AckList.mem_flush`: an acknowledgement lists numbers of the list only.
-/

namespace Gzv2ray.Kcp

/-- The segments received ahead of the reader, by number. -/
structure ReceivingWindow where
  cache : AList fun _ : UInt32 => DataSegment := ∅

namespace ReceivingWindow

variable (w : ReceivingWindow)

def get (id : UInt32) : Option DataSegment := w.cache.lookup id

def has (id : UInt32) : Bool := (w.get id).isSome

/-- Adds a segment, unless there is one of that number already. -/
def set (id : UInt32) (value : DataSegment) : ReceivingWindow × Bool :=
  if w.has id then (w, false) else (⟨w.cache.insert id value⟩, true)

/-- Takes the segment of a number out. -/
def remove (id : UInt32) : ReceivingWindow × Option DataSegment :=
  match w.get id with
  | none => (w, none)
  | some seg => (⟨w.cache.erase id⟩, some seg)

@[simp] theorem get_empty (id : UInt32) : ({} : ReceivingWindow).get id = none :=
  AList.lookup_empty id

/-- The window after adding a segment: the segment is there if its number was free. -/
theorem get_set (id n : UInt32) (value : DataSegment) :
    (w.set id value).1.get n = if n = id ∧ w.get id = none then some value else w.get n := by
  unfold set has get
  cases h : w.cache.lookup id with
  | some seg => simp
  | none =>
    by_cases hn : n = id
    · subst hn; simp
    · simp [hn, AList.lookup_insert_ne hn]

theorem get_erase_ne {id n : UInt32} (h : n ≠ id) :
    (⟨w.cache.erase id⟩ : ReceivingWindow).get n = w.get n :=
  AList.lookup_erase_ne h

theorem get_erase_self (id : UInt32) : (⟨w.cache.erase id⟩ : ReceivingWindow).get id = none :=
  AList.lookup_erase _ _

/-- What a read takes out of the window from the number `next` on: the segments
    of the consecutive numbers `next`, `next + 1`, and so on, up to `next'`. -/
inductive Drains : ReceivingWindow → UInt32 → MultiBuffer → ReceivingWindow → UInt32 → Prop
  | nil (w : ReceivingWindow) (next : UInt32) : Drains w next [] w next
  | cons {w w' : ReceivingWindow} {next next' : UInt32} {seg : DataSegment} {mb : MultiBuffer} :
      w.get next = some seg → Drains ⟨w.cache.erase next⟩ (next + 1) mb w' next' →
      Drains w next (seg.payload :: mb) w' next'

/-- Reading invents no segment. -/
theorem Drains.get_of_get {w w' : ReceivingWindow} {next next' : UInt32} {mb : MultiBuffer}
    (h : Drains w next mb w' next') {n : UInt32} {seg : DataSegment} (hn : w'.get n = some seg) :
    w.get n = some seg := by
  induction h with
  | nil => exact hn
  | @cons w w' next _ _ _ hseg _ ih =>
    have := ih hn
    by_cases hne : n = next
    · rw [hne, get_erase_self] at this; cases this
    · rwa [get_erase_ne w hne] at this

end ReceivingWindow

/-! ## Acknowledgements -/

/-- The numbers to acknowledge, each with the timestamp of its segment and the
    time of its next acknowledgement, in three parallel lists. -/
structure AckList where
  timestamps : List UInt32 := []
  numbers : List UInt32 := []
  nextFlush : List UInt32 := []
  dirty : Bool := false

namespace AckList

variable (l : AckList)

def add (number timestamp : UInt32) : AckList where
  timestamps := l.timestamps ++ [timestamp]
  numbers := l.numbers ++ [number]
  nextFlush := l.nextFlush ++ [0]
  dirty := true

/-- The entries whose number is at least `una`. -/
def clearLoop (una : UInt32) : (numbers timestamps nextFlush : List UInt32) →
    List UInt32 × List UInt32 × List UInt32
  | n :: ns, t :: ts, f :: fs =>
    let (ns', ts', fs') := clearLoop una ns ts fs
    if n < una then (ns', ts', fs') else (n :: ns', t :: ts', f :: fs')
  | _, _, _ => ([], [], [])

/-- Drops the entries numbered below `una`. -/
def clear (una : UInt32) : AckList :=
  let (numbers, timestamps, nextFlush) := clearLoop una l.numbers l.timestamps l.nextFlush
  { timestamps, numbers, nextFlush, dirty := l.dirty || numbers.length < l.numbers.length }

/-- The most entries not due that are remembered to complete an acknowledgement. -/
def flushCandidatesCap : ℕ := 128

/-- The state of a flush. -/
structure Flushing where
  nextFlush : List UInt32 := []
  flushCandidates : List UInt32 := []
  seg : AckSegment := {}
  written : List AckSegment := []
  dirty : Bool

/-- Puts the due entries into acknowledgements, writing those that are full. -/
def flushLoop (write : AckSegment → AckSegment) (current rto : UInt32) :
    (numbers timestamps nextFlush : List UInt32) → Flushing → Flushing
  | n :: ns, t :: ts, f :: fs, st =>
    if f > current then
      flushLoop write current rto ns ts fs { st with
        nextFlush := st.nextFlush ++ [f]
        flushCandidates := if st.flushCandidates.length < flushCandidatesCap then
          st.flushCandidates ++ [n] else st.flushCandidates }
    else
      let seg := (st.seg.putNumber n).putTimestamp t
      let timeout := if rto / 2 < 20 then 20 else rto / 2
      let st := { st with nextFlush := st.nextFlush ++ [current + timeout] }
      if seg.isFull then
        flushLoop write current rto ns ts fs { st with
          seg := {}, written := st.written ++ [write seg], dirty := false }
      else flushLoop write current rto ns ts fs { st with seg }
  | _, _, _, st => st

/-- Completes an acknowledgement with numbers that are not due. -/
def fill (seg : AckSegment) : List UInt32 → AckSegment
  | [] => seg
  | n :: ns => if seg.isFull then seg else fill (seg.putNumber n) ns

/-- Writes the due acknowledgements; `write` fills in the fields known to the worker. -/
def flush (write : AckSegment → AckSegment) (current rto : UInt32) : AckList × List AckSegment :=
  let st := flushLoop write current rto l.numbers l.timestamps l.nextFlush { dirty := l.dirty }
  if st.dirty || !st.seg.isEmpty then
    ({ l with nextFlush := st.nextFlush, dirty := false },
      st.written ++ [write (fill st.seg st.flushCandidates)])
  else ({ l with nextFlush := st.nextFlush, dirty := st.dirty }, st.written)

theorem clearLoop_subset (una : UInt32) (ns ts fs : List UInt32) : (clearLoop una ns ts fs).1 ⊆ ns := by
  induction ns generalizing ts fs with
  | nil => cases ts <;> cases fs <;> simp [clearLoop]
  | cons n ns ih =>
    cases ts with
    | nil => simp [clearLoop]
    | cons t ts =>
      cases fs with
      | nil => simp [clearLoop]
      | cons f fs =>
        rw [clearLoop]
        dsimp only
        split
        · exact List.subset_cons_of_subset _ (ih ts fs)
        · exact List.cons_subset_cons _ (ih ts fs)

theorem numbers_clear_subset (una : UInt32) : (l.clear una).numbers ⊆ l.numbers :=
  clearLoop_subset una _ _ _

@[simp] theorem numbers_add (number timestamp : UInt32) :
    (l.add number timestamp).numbers = l.numbers ++ [number] := rfl

@[simp] theorem numbers_flush (write : AckSegment → AckSegment) (current rto : UInt32) :
    (l.flush write current rto).1.numbers = l.numbers := by
  unfold flush
  dsimp only
  split <;> rfl

theorem fill_subset (seg : AckSegment) (l : List UInt32) :
    (fill seg l).numberList ⊆ seg.numberList ++ l := by
  induction l generalizing seg with
  | nil => simp [fill]
  | cons n ns ih =>
    rw [fill]
    split
    · exact List.subset_append_left _ _
    · simpa using ih (seg.putNumber n)

section Flush

variable {w : AckSegment → AckSegment} (hw : ∀ seg, (w seg).numberList = seg.numberList)
  {P : UInt32 → Prop} (current rto : UInt32)
include hw

/-- The numbers a flush handles: those of the acknowledgement being filled, of
    those written, and of the candidates to complete them. -/
structure Flushing.All (w : AckSegment → AckSegment) (P : UInt32 → Prop) (st : Flushing) :
    Prop where
  candidates : ∀ n ∈ st.flushCandidates, P n
  seg : ∀ n ∈ st.seg.numberList, P n
  written : ∀ seg ∈ st.written, seg ∈ Set.range w ∧ ∀ n ∈ seg.numberList, P n

/-- A flush handles numbers of the list only. -/
theorem flushLoop_all (ns ts fs : List UInt32) (st : Flushing) (hns : ∀ n ∈ ns, P n)
    (hst : st.All w P) : (flushLoop w current rto ns ts fs st).All w P := by
  induction ns, ts, fs, st using flushLoop.induct w current rto with
  | case1 n ns t ts f fs st hf ih =>
    rw [flushLoop, if_pos hf]
    refine ih (fun n hn => hns n (List.mem_cons_of_mem _ hn)) ⟨?_, hst.seg, hst.written⟩
    dsimp only
    split
    · simpa [or_imp, forall_and] using ⟨hst.candidates, hns n List.mem_cons_self⟩
    · exact hst.candidates
  | case2 n ns t ts f fs st hf seg timeout st' hfull ih =>
    rw [flushLoop, if_neg hf]
    dsimp only
    rw [if_pos hfull]
    refine ih (fun n hn => hns n (List.mem_cons_of_mem _ hn)) ⟨hst.candidates, by simp, ?_⟩
    intro seg' hseg'
    rcases List.mem_append.1 hseg' with h | h
    · exact hst.written _ h
    · rw [List.mem_singleton.1 h, hw]
      refine ⟨Set.mem_range_self _, ?_⟩
      simpa [seg, or_imp, forall_and] using ⟨hst.seg, hns n List.mem_cons_self⟩
  | case3 n ns t ts f fs st hf seg timeout st' hfull ih =>
    rw [flushLoop, if_neg hf]
    dsimp only
    rw [if_neg hfull]
    refine ih (fun n hn => hns n (List.mem_cons_of_mem _ hn)) ⟨hst.candidates, ?_, hst.written⟩
    simpa [seg, or_imp, forall_and] using ⟨hst.seg, hns n List.mem_cons_self⟩
  | case4 ns ts fs st h =>
    rw [flushLoop]
    · exact hst
    · exact h

/-- An acknowledgement is written with numbers of the list only. -/
theorem mem_flush {seg : AckSegment} (hseg : seg ∈ (l.flush w current rto).2) :
    seg ∈ Set.range w ∧ ∀ n ∈ seg.numberList, n ∈ l.numbers := by
  have h := flushLoop_all hw (P := (· ∈ l.numbers)) current rto l.numbers l.timestamps l.nextFlush
    { dirty := l.dirty } (fun _ h => h) ⟨by simp, by simp, by simp⟩
  unfold flush at hseg
  dsimp only at hseg
  split at hseg
  · rcases List.mem_append.1 hseg with hseg | hseg
    · exact h.written _ hseg
    · rw [List.mem_singleton.1 hseg, hw]
      refine ⟨Set.mem_range_self _, fun n hn => ?_⟩
      rcases List.mem_append.1 (fill_subset _ _ hn) with hn | hn
      · exact h.seg _ hn
      · exact h.candidates _ hn
  · exact h.written _ hseg

end Flush

end AckList

/-! ## The worker -/

/-- The worker of the receiving direction. -/
structure ReceivingWorker where
  leftOver : Option MultiBuffer := none
  window : ReceivingWindow := {}
  acklist : AckList := {}
  nextNumber : UInt32 := 0
  windowSize : UInt32

namespace ReceivingWorker

/-- The worker of a new connection. -/
def new (config : Config) : ReceivingWorker where
  windowSize := config.getReceivingInFlightSize

variable (w : ReceivingWorker)

def release : ReceivingWorker := { w with leftOver := none }

/-- The peer has had everything below `number` acknowledged. -/
def processSendingNext (number : UInt32) : ReceivingWorker :=
  { w with acklist := w.acklist.clear number }

/-- Processes a data segment: one out of the window is ignored. -/
def processSegment (seg : DataSegment) : ReceivingWorker :=
  if seg.number - w.nextNumber ≥ w.windowSize then w
  else { w with
    acklist := (w.acklist.clear seg.sendingNext).add seg.number seg.timestamp
    window := (w.window.set seg.number seg).1 }

/-- Takes the segments of consecutive numbers out of the window, from `next` on. -/
def readLoop : ℕ → ReceivingWindow → UInt32 → ReceivingWindow × UInt32 × MultiBuffer
  | 0, window, next => (window, next, [])
  | fuel + 1, window, next =>
    match window.remove next with
    | (_, none) => (window, next, [])
    | (window', some seg) =>
      let (window'', next', mb) := readLoop fuel window' (next + 1)
      (window'', next', seg.payload :: mb)

/-- Hands the reader what is left over from its last read, or else the segments
    it can have. The loop takes out at most as many segments as there are. -/
def readMultiBuffer : ReceivingWorker × MultiBuffer :=
  match w.leftOver with
  | some mb => ({ w with leftOver := none }, mb)
  | none =>
    let (window, nextNumber, mb) := readLoop w.window.cache.entries.length w.window w.nextNumber
    ({ w with window, nextNumber }, mb)

/-- Hands the reader at most `n` bytes. -/
def read (n : ℕ) : ReceivingWorker × Bytes :=
  let (w, mb) := w.readMultiBuffer
  if MultiBuffer.isEmpty mb then (w, [])
  else
    let (mb', out) := MultiBuffer.splitBytes mb n
    (if MultiBuffer.isEmpty mb' then w else { w with leftOver := some mb' }, out)

def isDataAvailable : Bool := w.window.has w.nextNumber

/-- Fills in the fields of an acknowledgement on its way out; `closing` tells
    whether the connection is ready to close. -/
def write (conv : UInt16) (closing : Bool) (seg : AckSegment) : AckSegment :=
  { seg with
    conv
    receivingNext := w.nextNumber
    receivingWindow := w.nextNumber + w.windowSize
    option := if closing then segmentOptionClose else 0 }

/-- Writes the due acknowledgements. -/
def flush (conv : UInt16) (closing : Bool) (rto current : UInt32) :
    ReceivingWorker × List AckSegment :=
  let (acklist, written) := w.acklist.flush (w.write conv closing) current rto
  ({ w with acklist }, written)

/-! ## What the worker does -/

/-- A segment received is added at its number, if it is in the window of the
    numbers expected and not there yet; the rest of the window is unchanged. -/
theorem processSegment_get (seg : DataSegment) (n : UInt32) :
    (w.processSegment seg).window.get n =
      if n = seg.number ∧ w.window.get n = none ∧ seg.number - w.nextNumber < w.windowSize then
        some seg else w.window.get n := by
  unfold processSegment
  split
  · rename_i h
    rw [if_neg fun hc => absurd hc.2.2 (by simpa using h)]
  · rename_i h
    rw [ge_iff_le, UInt32.not_le] at h
    dsimp only
    rw [ReceivingWindow.get_set]
    by_cases hn : n = seg.number
    · subst hn; simp [h]
    · simp [hn]

/-- A number due an acknowledgement was due one before, or is in the window. -/
theorem processSegment_numbers (seg : DataSegment) {n : UInt32}
    (hn : n ∈ (w.processSegment seg).acklist.numbers) :
    n ∈ w.acklist.numbers ∨
      n = seg.number ∧ ((w.processSegment seg).window.get n).isSome := by
  have hget := w.processSegment_get seg n
  unfold processSegment at hn hget ⊢
  split at hn
  · exact .inl hn
  · rename_i h
    rw [if_neg h] at hget ⊢
    rcases List.mem_append.1 hn with hn | hn
    · exact .inl (AckList.numbers_clear_subset _ _ hn)
    · rw [List.mem_singleton] at hn
      rw [ge_iff_le, UInt32.not_le] at h
      refine .inr ⟨hn, ?_⟩
      rw [hget]
      cases hw : w.window.get n with
      | some seg' => simp
      | none => simp [hn, h]

theorem processSegment_frame (seg : DataSegment) :
    (w.processSegment seg).nextNumber = w.nextNumber ∧
      (w.processSegment seg).leftOver = w.leftOver ∧
      (w.processSegment seg).windowSize = w.windowSize := by
  unfold processSegment
  split <;> exact ⟨rfl, rfl, rfl⟩

theorem readLoop_drains (fuel : ℕ) (window : ReceivingWindow) (next : UInt32) :
    window.Drains next (readLoop fuel window next).2.2 (readLoop fuel window next).1
      (readLoop fuel window next).2.1 := by
  induction fuel generalizing window next with
  | zero => exact .nil _ _
  | succ fuel ih =>
    rw [readLoop, ReceivingWindow.remove]
    cases h : window.get next with
    | none => exact .nil _ _
    | some seg => exact .cons h (ih _ _)

/-- What a read does: it hands over what was left over, or else drains the window. -/
theorem readMultiBuffer_cases :
    (∃ mb, w.leftOver = some mb ∧ w.readMultiBuffer = ({ w with leftOver := none }, mb)) ∨
      ∃ window next mb, w.leftOver = none ∧ w.window.Drains w.nextNumber mb window next ∧
        w.readMultiBuffer = ({ w with window, nextNumber := next }, mb) := by
  unfold readMultiBuffer
  cases h : w.leftOver with
  | some mb => exact .inl ⟨mb, rfl, rfl⟩
  | none => exact .inr ⟨_, _, _, rfl, readLoop_drains _ _ _, rfl⟩

theorem readMultiBuffer_leftOver : w.readMultiBuffer.1.leftOver = none := by
  rcases w.readMultiBuffer_cases with ⟨mb, _, h⟩ | ⟨_, _, _, hl, _, h⟩
  · rw [h]
  · rw [h]; exact hl

/-- A bounded read is a read of which the rest is left over. -/
theorem read_spec (n : ℕ) :
    ∃ rest, (w.read n).1 = { w.readMultiBuffer.1 with leftOver := rest } ∧
      (w.read n).2 ++ (rest.elim [] MultiBuffer.bytes) = MultiBuffer.bytes w.readMultiBuffer.2 := by
  have hnone := w.readMultiBuffer_leftOver
  unfold read
  generalize w.readMultiBuffer = r at hnone ⊢
  obtain ⟨w', mb⟩ := r
  dsimp only at hnone ⊢
  split
  · rename_i he
    exact ⟨none, by rw [← hnone], by simpa using ((MultiBuffer.isEmpty_iff mb).1 he).symm⟩
  · dsimp only
    split
    · rename_i he
      rw [MultiBuffer.isEmpty_iff] at he
      refine ⟨none, by rw [← hnone], ?_⟩
      have := List.take_append_drop n (MultiBuffer.bytes mb)
      rw [← MultiBuffer.splitBytes_fst_bytes, he] at this
      simpa using this
    · exact ⟨some _, rfl, by simp⟩

end ReceivingWorker

end Gzv2ray.Kcp
