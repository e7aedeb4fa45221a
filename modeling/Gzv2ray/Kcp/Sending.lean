import Gzv2ray.Kcp.Config
import Gzv2ray.Kcp.Segment

/-!
# The sending side of a KCP connection

The window of the segments pushed and not yet acknowledged (`SendingWindow`),
and the worker numbering, flushing and acknowledging them (`SendingWorker`).

No operation changes the number or the payload of a segment of the window
(`SendingWindow.ids`). What an operation other than a push can do to it is said
once, by `SendingWorker.Retains`: it keeps the segments whose number is not in
a given set, the numbers acknowledged to the worker.
-/

namespace Gzv2ray.Kcp

/-- The window of the segments not yet acknowledged, in the order they were pushed. -/
structure SendingWindow where
  cache : List DataSegment := []
  totalInFlightSize : UInt32 := 0

namespace SendingWindow

variable (sw : SendingWindow)

def len : UInt32 := UInt32.ofNat sw.cache.length

def isEmpty : Bool := sw.cache.isEmpty

def push (number : UInt32) (b : Buffer) : SendingWindow :=
  { sw with cache := sw.cache ++ [{ number, payload := b }] }

/-- The number of the first segment; the source asks for it only when there is one. -/
def firstNumber : Option UInt32 := sw.cache.head?.map (·.number)

/-- Drops the segments numbered below `una` from the front. -/
def clear (una : UInt32) : SendingWindow :=
  { sw with cache := sw.cache.dropWhile fun seg => decide (seg.number < una) }

def fastAckLoop (number rto : UInt32) : List DataSegment → List DataSegment
  | [] => []
  | seg :: rest =>
    if number = seg.number ∨ number - seg.number > 0x7FFFFFFF then seg :: rest
    else
      (if seg.transmit > 0 ∧ seg.timeout > rto / 3 then
        { seg with timeout := seg.timeout - rto / 3 } else seg) :: fastAckLoop number rto rest

/-- Brings the retransmission of the segments before an acknowledged one forward. -/
def handleFastAck (number rto : UInt32) : SendingWindow :=
  { sw with cache := fastAckLoop number rto sw.cache }

/-- The state of a flush: the window so far, and what was counted and written. -/
structure Flushed where
  cache : List DataSegment
  totalInFlightSize : UInt32
  lost : UInt32
  inFlightSize : UInt32
  written : List DataSegment

/-- Writes the due segments, in order, until `maxInFlightSize` of them are
    written; `write` fills in the fields known to the worker. -/
def flushLoop (write : DataSegment → DataSegment) (current rto maxInFlightSize : UInt32) :
    List DataSegment → (total lost inFlight : UInt32) → Flushed
  | [], total, lost, inFlight => ⟨[], total, lost, inFlight, []⟩
  | seg :: rest, total, lost, inFlight =>
    if current - seg.timeout ≥ 0x7FFFFFFF then
      let r := flushLoop write current rto maxInFlightSize rest total lost inFlight
      { r with cache := seg :: r.cache }
    else
      let total := if seg.transmit = 0 then total + 1 else total
      let lost := if seg.transmit = 0 then lost else lost + 1
      let seg := write { seg with
        timeout := current + rto, timestamp := current, transmit := seg.transmit + 1 }
      if inFlight + 1 < maxInFlightSize then
        let r := flushLoop write current rto maxInFlightSize rest total lost (inFlight + 1)
        { r with cache := seg :: r.cache, written := seg :: r.written }
      else ⟨seg :: rest, total, lost, inFlight + 1, [seg]⟩

/-- A flush: the window, the segments written, and the loss rate to report, if any. -/
def flush (write : DataSegment → DataSegment) (current rto maxInFlightSize : UInt32) :
    SendingWindow × List DataSegment × Option UInt32 :=
  let r := flushLoop write current rto maxInFlightSize sw.cache sw.totalInFlightSize 0 0
  (⟨r.cache, r.totalInFlightSize⟩, r.written,
    if r.inFlightSize > 0 ∧ r.totalInFlightSize ≠ 0 then
      some (r.lost * 100 / r.totalInFlightSize) else none)

/-- The window without the segment numbered `number`, if it holds one before
    any larger number. -/
def removeLoop (number : UInt32) : List DataSegment → Option (List DataSegment)
  | [] => none
  | seg :: rest =>
    if seg.number > number then none
    else if seg.number = number then some rest
    else (removeLoop number rest).map (seg :: ·)

/-- Removes the segment numbered `number`; tells whether there was one. -/
def remove (number : UInt32) : SendingWindow × Bool :=
  match removeLoop number sw.cache with
  | none => (sw, false)
  | some cache => (⟨cache,
      if sw.totalInFlightSize > 0 then sw.totalInFlightSize - 1 else sw.totalInFlightSize⟩, true)

end SendingWindow

/-! ## What the window keeps -/


namespace SendingWindow

variable (sw : SendingWindow)

/-- The numbers and payloads of the window, in order. -/
def ids : List (UInt32 × Bytes) := sw.cache.map DataSegment.id

@[simp] theorem ids_push (number : UInt32) (b : Buffer) :
    (sw.push number b).ids = sw.ids ++ [(number, b.bytes)] := by
  simp [push, ids, DataSegment.id]

theorem ids_clear_subset (una : UInt32) : (sw.clear una).ids ⊆ sw.ids :=
  List.map_subset _ (List.dropWhile_suffix _).subset

/-- Clearing drops no segment numbered `una` or above. -/
theorem mem_ids_clear (una : UInt32) {p : UInt32 × Bytes} (hp : p ∈ sw.ids) :
    p ∈ (sw.clear una).ids ∨ p.1 < una := by
  obtain ⟨seg, hseg, rfl⟩ := List.mem_map.1 hp
  rw [← List.takeWhile_append_dropWhile (p := fun seg : DataSegment => decide (seg.number < una))
    (l := sw.cache), List.mem_append] at hseg
  rcases hseg with hseg | hseg
  · exact .inr (of_decide_eq_true (List.all_eq_true.1 List.all_takeWhile seg hseg))
  · exact .inl (List.mem_map_of_mem hseg)

theorem map_id_fastAckLoop (number rto : UInt32) (l : List DataSegment) :
    (fastAckLoop number rto l).map DataSegment.id = l.map DataSegment.id := by
  induction l with
  | nil => rfl
  | cons seg rest ih =>
    rw [fastAckLoop]
    split
    · rfl
    · rw [List.map_cons, List.map_cons, ih]
      split <;> rfl

@[simp] theorem ids_handleFastAck (number rto : UInt32) : (sw.handleFastAck number rto).ids = sw.ids :=
  map_id_fastAckLoop number rto _

/-- A flush writes what `write` makes of segments. -/
theorem mem_range_of_mem_flushLoop {write : DataSegment → DataSegment}
    (current rto maxInFlightSize : UInt32) (l : List DataSegment) (total lost inFlight : UInt32)
    {seg : DataSegment}
    (hseg : seg ∈ (flushLoop write current rto maxInFlightSize l total lost inFlight).written) :
    seg ∈ Set.range write := by
  induction l generalizing total lost inFlight with
  | nil => exact absurd hseg List.not_mem_nil
  | cons seg' rest ih =>
    rw [flushLoop] at hseg
    split at hseg
    · exact ih _ _ _ hseg
    · dsimp only at hseg
      split at hseg
      · rcases List.mem_cons.1 hseg with rfl | hseg
        · exact Set.mem_range_self _
        · exact ih _ _ _ hseg
      · rw [List.mem_singleton.1 hseg]
        exact Set.mem_range_self _

/-- The first segment of the window is written, if it is due. -/
theorem exists_mem_flushLoop {write : DataSegment → DataSegment} {seg : DataSegment} {current : UInt32}
    (hwrite : ∀ seg, (write seg).payload = seg.payload) (hdue : current - seg.timeout < 0x7FFFFFFF)
    (rest : List DataSegment) (rto maxInFlightSize total lost inFlight : UInt32) :
    ∃ seg' ∈ (flushLoop write current rto maxInFlightSize (seg :: rest) total lost inFlight).written,
      seg'.payload = seg.payload := by
  rw [flushLoop, if_neg (UInt32.not_le.2 hdue)]
  dsimp only
  split
  · exact ⟨_, List.mem_cons_self, hwrite _⟩
  · exact ⟨_, List.mem_cons_self, hwrite _⟩

section Flush

variable {write : DataSegment → DataSegment} (hw : ∀ seg, (write seg).id = seg.id)
  (current rto maxInFlightSize : UInt32)
include hw

/-- A flush changes no number and no payload. -/
theorem map_id_flushLoop (l : List DataSegment) (total lost inFlight : UInt32) :
    (flushLoop write current rto maxInFlightSize l total lost inFlight).cache.map DataSegment.id =
      l.map DataSegment.id := by
  induction l generalizing total lost inFlight with
  | nil => rfl
  | cons seg rest ih =>
    rw [flushLoop]
    split
    · rw [List.map_cons, List.map_cons, ih]
    · dsimp only
      split
      · rw [List.map_cons, List.map_cons, ih, hw]; rfl
      · rw [List.map_cons, List.map_cons, hw]; rfl

/-- A flush writes segments of the window only. -/
theorem id_mem_of_mem_flushLoop (l : List DataSegment) (total lost inFlight : UInt32)
    {seg : DataSegment}
    (hseg : seg ∈ (flushLoop write current rto maxInFlightSize l total lost inFlight).written) :
    seg.id ∈ l.map DataSegment.id := by
  induction l generalizing total lost inFlight with
  | nil => exact absurd hseg List.not_mem_nil
  | cons seg' rest ih =>
    rw [flushLoop] at hseg
    split at hseg
    · exact List.mem_cons_of_mem _ (ih _ _ _ hseg)
    · dsimp only at hseg
      split at hseg
      · rcases List.mem_cons.1 hseg with rfl | hseg
        · rw [hw]; exact List.mem_cons_self
        · exact List.mem_cons_of_mem _ (ih _ _ _ hseg)
      · rw [List.mem_singleton.1 hseg, hw]; exact List.mem_cons_self

theorem ids_flush : (sw.flush write current rto maxInFlightSize).1.ids = sw.ids :=
  map_id_flushLoop hw _ _ _ _ _ _ _

theorem id_mem_ids_of_mem_flush {seg : DataSegment}
    (hseg : seg ∈ (sw.flush write current rto maxInFlightSize).2.1) : seg.id ∈ sw.ids :=
  id_mem_of_mem_flushLoop hw _ _ _ _ _ _ _ hseg

end Flush

theorem removeLoop_subset (number : UInt32) {l l' : List DataSegment}
    (h : removeLoop number l = some l') : l' ⊆ l := by
  induction l generalizing l' with
  | nil => exact absurd h (by simp [removeLoop])
  | cons seg rest ih =>
    rw [removeLoop] at h
    split at h
    · cases h
    · split at h
      · cases h; exact List.subset_cons_self _ _
      · obtain ⟨l'', h'', rfl⟩ := Option.map_eq_some_iff.1 h
        exact List.cons_subset_cons _ (ih h'')

theorem mem_removeLoop (number : UInt32) {l l' : List DataSegment}
    (h : removeLoop number l = some l') {seg : DataSegment} (hseg : seg ∈ l) :
    seg ∈ l' ∨ seg.number = number := by
  induction l generalizing l' with
  | nil => exact absurd hseg List.not_mem_nil
  | cons seg' rest ih =>
    rw [removeLoop] at h
    split at h
    · cases h
    · split at h
      · rename_i heq
        cases h
        rcases List.mem_cons.1 hseg with rfl | hseg
        · exact .inr heq
        · exact .inl hseg
      · obtain ⟨l'', h'', rfl⟩ := Option.map_eq_some_iff.1 h
        rcases List.mem_cons.1 hseg with rfl | hseg
        · exact .inl List.mem_cons_self
        · exact (ih h'' hseg).imp_left (List.mem_cons_of_mem _)

theorem ids_remove_subset (number : UInt32) : (sw.remove number).1.ids ⊆ sw.ids := by
  unfold remove
  split
  · exact List.Subset.refl _
  · rename_i h
    exact List.map_subset _ (removeLoop_subset number h)

/-- Removing a number drops no segment of another number. -/
theorem mem_ids_remove (number : UInt32) {p : UInt32 × Bytes} (hp : p ∈ sw.ids) :
    p ∈ (sw.remove number).1.ids ∨ p.1 = number := by
  unfold remove
  split
  · exact .inl hp
  · rename_i h
    obtain ⟨seg, hseg, rfl⟩ := List.mem_map.1 hp
    exact (mem_removeLoop number h hseg).imp_left fun h => List.mem_map_of_mem h

end SendingWindow

/-! ## The worker -/

/-- The worker of the sending direction. -/
structure SendingWorker where
  window : SendingWindow := {}
  firstUnacknowledged : UInt32 := 0
  nextNumber : UInt32 := 0
  remoteNextNumber : UInt32 := 32
  controlWindow : UInt32
  fastResend : UInt32 := 2
  windowSize : UInt32
  firstUnacknowledgedUpdated : Bool := false
  closed : Bool := false

namespace SendingWorker

/-- The worker of a new connection. -/
def new (config : Config) : SendingWorker where
  controlWindow := config.getSendingInFlightSize
  windowSize := config.getSendingBufferSize

variable (w : SendingWorker)

def release : SendingWorker := { w with window := { w.window with cache := [] }, closed := true }

def findFirstUnacknowledged : SendingWorker :=
  let first := w.window.firstNumber.getD w.nextNumber
  { w with
    firstUnacknowledged := first
    firstUnacknowledgedUpdated := w.firstUnacknowledgedUpdated || w.firstUnacknowledged != first }

/-- The peer has received everything below `nextNumber`. -/
def processReceivingNext (nextNumber : UInt32) : SendingWorker :=
  { w with window := w.window.clear nextNumber }.findFirstUnacknowledged

/-- The peer has received the segment numbered `number`. -/
def processAck (number : UInt32) : SendingWorker × Bool :=
  if number - w.firstUnacknowledged > 0x7FFFFFFF ∨ number - w.nextNumber < 0x7FFFFFFF then
    (w, false)
  else
    let (window, removed) := w.window.remove number
    if removed then ({ w with window }.findFirstUnacknowledged, true)
    else ({ w with window }, false)

/-- Processes the numbers of an acknowledgement; keeps the largest, and whether
    it was removed. -/
def ackLoop (w : SendingWorker) (maxack : UInt32) (maxackRemoved : Bool) :
    List UInt32 → SendingWorker × UInt32 × Bool
  | [] => (w, maxack, maxackRemoved)
  | number :: rest =>
    let (w, removed) := w.processAck number
    if maxack < number then ackLoop w number removed rest
    else ackLoop w maxack maxackRemoved rest

/-- Processes an acknowledgement received at `current`. -/
def processSegment (current : UInt32) (seg : AckSegment) (rto : UInt32)
    (roundTrip : RoundTripInfo) : SendingWorker × RoundTripInfo :=
  if w.closed then (w, roundTrip)
  else
    let w := if w.remoteNextNumber < seg.receivingWindow then
      { w with remoteNextNumber := seg.receivingWindow } else w
    let w := w.processReceivingNext seg.receivingNext
    if seg.isEmpty then (w, roundTrip)
    else
      let (w, maxack, maxackRemoved) := w.ackLoop 0 false seg.numberList
      if maxackRemoved then
        ({ w with window := w.window.handleFastAck maxack rto },
          if current - seg.timestamp < 10000 then
            roundTrip.update (current - seg.timestamp) current else roundTrip)
      else (w, roundTrip)

/-- Takes a payload into the window, unless the worker is closed or the window full. -/
def push (b : Buffer) : SendingWorker × Bool :=
  if w.closed then (w, false)
  else if w.window.len > w.windowSize then (w, false)
  else ({ w with window := w.window.push w.nextNumber b, nextNumber := w.nextNumber + 1 }, true)

/-- Fills in the fields of a segment on its way out; `closing` tells whether the
    connection is ready to close. -/
def write (conv : UInt16) (closing : Bool) (seg : DataSegment) : DataSegment :=
  { seg with
    conv
    sendingNext := w.firstUnacknowledged
    option := if closing then segmentOptionClose else 0 }

/-- Adapts the congestion window to the loss rate observed. -/
def onPacketLoss (config : Config) (rto lossRate : UInt32) : SendingWorker :=
  if !config.congestion || rto == 0 then w
  else
    let cw := if lossRate ≥ 15 then 3 * w.controlWindow / 4
      else if lossRate ≤ 5 then w.controlWindow + w.controlWindow / 4
      else w.controlWindow
    let cw := if cw < 16 then 16 else cw
    let cw := if cw > 2 * config.getSendingInFlightSize then 2 * config.getSendingInFlightSize
      else cw
    { w with controlWindow := cw }

/-- The number of segments a flush may write. -/
def cwnd (config : Config) : UInt32 :=
  let cwnd := config.getSendingInFlightSize
  let cwnd := if cwnd > w.remoteNextNumber - w.firstUnacknowledged then
    w.remoteNextNumber - w.firstUnacknowledged else cwnd
  let cwnd := if config.congestion && cwnd > w.controlWindow then w.controlWindow else cwnd
  cwnd * 20

/-- Flushes the window: the worker, the segments written, and whether a ping is due. -/
def flush (config : Config) (conv : UInt16) (closing : Bool) (rto current : UInt32) :
    SendingWorker × List DataSegment × Bool :=
  if w.closed then (w, [], false)
  else if w.window.isEmpty then
    ({ w with firstUnacknowledgedUpdated := false }, [], w.firstUnacknowledgedUpdated)
  else
    let (window, written, rate) :=
      w.window.flush (w.write conv closing) current rto (w.cwnd config)
    let w := { w with window, firstUnacknowledgedUpdated := false }
    (match rate with
      | some rate => w.onPacketLoss config rto rate
      | none => w, written, false)

/-- Drops the window. -/
def closeWrite : SendingWorker := { w with window := w.window.clear 0xFFFFFFFF }

/-! ## What the worker keeps -/

/-- From `w` to `w'`, the window loses nothing but segments whose number is in
    `gone`, and gets none; the next number stays the same. -/
structure Retains (gone : Set UInt32) (w w' : SendingWorker) : Prop where
  nextNumber : w'.nextNumber = w.nextNumber
  subset : w'.window.ids ⊆ w.window.ids
  mem_or : ∀ p ∈ w.window.ids, p ∈ w'.window.ids ∨ p.1 ∈ gone

namespace Retains

variable {w w' w'' : SendingWorker} {gone gone' : Set UInt32}

theorem of_ids (hn : w'.nextNumber = w.nextNumber) (hids : w'.window.ids = w.window.ids) :
    Retains gone w w' :=
  ⟨hn, fun _ h => hids ▸ h, fun _ h => .inl (hids ▸ h)⟩

theorem refl (w : SendingWorker) : Retains gone w w := of_ids rfl rfl

theorem mono (h : Retains gone w w') (hg : gone ⊆ gone') : Retains gone' w w' :=
  ⟨h.nextNumber, h.subset, fun p hp => (h.mem_or p hp).imp_right fun h => hg h⟩

theorem trans (h : Retains gone w w') (h' : Retains gone w' w'') : Retains gone w w'' :=
  ⟨h'.nextNumber.trans h.nextNumber, List.Subset.trans h'.subset h.subset, fun p hp =>
    (h.mem_or p hp).elim (h'.mem_or p) .inr⟩

end Retains

theorem processReceivingNext_retains (nextNumber : UInt32) :
    Retains {n | n < nextNumber} w (w.processReceivingNext nextNumber) :=
  ⟨rfl, w.window.ids_clear_subset nextNumber, fun _ hp => w.window.mem_ids_clear nextNumber hp⟩

theorem processAck_retains (number : UInt32) : Retains {number} w (w.processAck number).1 := by
  unfold processAck
  split
  · exact .refl w
  · dsimp only
    split
    all_goals exact ⟨rfl, w.window.ids_remove_subset number, fun _ hp => w.window.mem_ids_remove number hp⟩

theorem ackLoop_retains (maxack : UInt32) (removed : Bool) (l : List UInt32) :
    Retains {n | n ∈ l} w (w.ackLoop maxack removed l).1 := by
  induction l generalizing w maxack removed with
  | nil => exact .refl w
  | cons number rest ih =>
    have h : Retains {n | n ∈ number :: rest} w (w.processAck number).1 :=
      (w.processAck_retains number).mono fun n hn => List.mem_cons.2 (.inl hn)
    rw [ackLoop]
    dsimp only
    split
    all_goals exact h.trans ((ih _ _ _).mono fun n hn => List.mem_cons_of_mem _ hn)

/-- An acknowledgement removes only the numbers it tells were received. -/
theorem processSegment_retains (current : UInt32) (seg : AckSegment) (rto : UInt32)
    (roundTrip : RoundTripInfo) :
    Retains seg.acked w (w.processSegment current seg rto roundTrip).1 := by
  have key : ∀ w : SendingWorker, Retains seg.acked w (w.processReceivingNext seg.receivingNext) ∧
      Retains seg.acked w
        ((w.processReceivingNext seg.receivingNext).ackLoop 0 false seg.numberList).1 := fun w => by
    have h : Retains seg.acked w (w.processReceivingNext seg.receivingNext) :=
      (w.processReceivingNext_retains seg.receivingNext).mono fun n hn => .inl hn
    exact ⟨h, h.trans ((ackLoop_retains _ _ _ _).mono fun n hn => .inr hn)⟩
  unfold processSegment
  split
  · exact .refl w
  · dsimp only
    generalize hw : (if w.remoteNextNumber < seg.receivingWindow then
      { w with remoteNextNumber := seg.receivingWindow } else w) = w₀
    have h₀ : Retains seg.acked w w₀ := by
      rw [← hw]
      split <;> exact .of_ids rfl rfl
    split
    · exact h₀.trans (key w₀).1
    · have h₁ := h₀.trans (key w₀).2
      split
      · exact h₁.trans (.of_ids rfl (SendingWindow.ids_handleFastAck _ _ _))
      · exact h₁

/-- A payload refused changes nothing. -/
theorem push_false {b : Buffer} (h : (w.push b).2 = false) : (w.push b).1 = w := by
  unfold push at h ⊢
  split
  · rfl
  · split
    · rfl
    · rename_i h₁ h₂
      rw [if_neg h₁, if_neg h₂] at h
      cases h

/-- A payload accepted takes the next number. -/
theorem push_true {b : Buffer} (h : (w.push b).2 = true) :
    (w.push b).1.nextNumber = w.nextNumber + 1 ∧
      (w.push b).1.window.ids = w.window.ids ++ [(w.nextNumber, b.bytes)] := by
  unfold push at h ⊢
  split at h
  · cases h
  · split at h
    · cases h
    · rename_i h₁ h₂
      rw [if_neg h₁, if_neg h₂]
      exact ⟨rfl, SendingWindow.ids_push _ _ _⟩

@[simp] theorem write_id (conv : UInt16) (closing : Bool) (seg : DataSegment) :
    (w.write conv closing seg).id = seg.id := rfl

theorem onPacketLoss_retains (gone : Set UInt32) (config : Config) (rto lossRate : UInt32) :
    Retains gone w (w.onPacketLoss config rto lossRate) := by
  unfold onPacketLoss
  split
  · exact .refl w
  · exact .of_ids rfl rfl

/-- A flush keeps the window, and writes segments of it. -/
theorem flush_retains (config : Config) (conv : UInt16) (closing : Bool) (rto current : UInt32) :
    Retains ∅ w (w.flush config conv closing rto current).1 ∧
      ∀ seg ∈ (w.flush config conv closing rto current).2.1, seg.id ∈ w.window.ids := by
  unfold flush
  split
  · exact ⟨.refl w, by simp⟩
  · split
    · exact ⟨.of_ids rfl rfl, by simp⟩
    · have hw : ∀ seg, (w.write conv closing seg).id = seg.id := fun _ => rfl
      have hids : Retains ∅ w { w with
          window := (w.window.flush (w.write conv closing) current rto (w.cwnd config)).1
          firstUnacknowledgedUpdated := false } :=
        .of_ids rfl (w.window.ids_flush hw current rto (w.cwnd config))
      refine ⟨?_, fun seg hseg => w.window.id_mem_ids_of_mem_flush hw _ _ _ hseg⟩
      dsimp only
      split
      · exact hids.trans (onPacketLoss_retains _ _ _ _ _)
      · exact hids

/-- A flush writes the first segment of the window, if it is due. -/
theorem exists_mem_flush {seg : DataSegment} {rest : List DataSegment} {current : UInt32}
    (hclosed : w.closed = false) (hcache : w.window.cache = seg :: rest)
    (hdue : current - seg.timeout < 0x7FFFFFFF) (config : Config) (conv : UInt16) (closing : Bool)
    (rto : UInt32) :
    ∃ seg' ∈ (w.flush config conv closing rto current).2.1, seg'.payload = seg.payload := by
  have hempty : w.window.isEmpty = false := by
    rw [SendingWindow.isEmpty, hcache]
    rfl
  have hwrite (seg : DataSegment) : (w.write conv closing seg).payload = seg.payload := rfl
  rw [flush, hclosed, hempty, SendingWindow.flush, hcache]
  exact SendingWindow.exists_mem_flushLoop hwrite hdue rest rto (w.cwnd config)
    w.window.totalInFlightSize 0 0

/-- Unless the connection is closing, no segment written announces it. -/
theorem option_of_mem_flush {config : Config} {conv : UInt16} {rto current : UInt32} {seg : DataSegment}
    (hseg : seg ∈ (w.flush config conv false rto current).2.1) : seg.option = 0 := by
  unfold flush at hseg
  split at hseg
  · exact absurd hseg List.not_mem_nil
  · split at hseg
    · exact absurd hseg List.not_mem_nil
    · obtain ⟨seg', rfl⟩ := SendingWindow.mem_range_of_mem_flushLoop _ _ _ _ _ _ _ hseg
      rfl

end SendingWorker

end Gzv2ray.Kcp
