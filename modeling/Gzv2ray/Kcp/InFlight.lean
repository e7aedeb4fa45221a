import Gzv2ray.Kcp.Sending
import Gzv2ray.Lib.Transition

/-!
# What a sending window counts as in flight

Runs of the operations of a `SendingWindow`, with the number of times each of its segments
was transmitted kept beside it (`Tracked`). The window does not keep it: its own counts of
transmissions start again after `2 ^ 32` of them.

* `Tracked.inFlight`: how many segments of the window were transmitted;
* `inFlight_accounted`: `totalInFlightSize` is this number, in the runs that drop no transmitted
  segment by `clear`, and no other by `remove`.

A flush counts a segment that it transmits for the first time and `remove` discounts the one it
finds, transmitted or not; `clear` discounts nothing.
-/

namespace Gzv2ray.Kcp

/-- What writes the segments of a flush: it fills in fields other than these. -/
structure SegmentWriter where
  write : DataSegment → DataSegment
  number_write : ∀ seg, (write seg).number = seg.number
  transmit_write : ∀ seg, (write seg).transmit = seg.transmit

/-- The worker writes the segments of its window. -/
def SendingWorker.writer (w : SendingWorker) (conv : UInt16) (closing : Bool) : SegmentWriter where
  write := w.write conv closing
  number_write _ := rfl
  transmit_write _ := rfl

inductive WindowOperation
  | push (number : UInt32) (b : Buffer)
  | flush (writer : SegmentWriter) (current rto maxInFlightSize : UInt32)
  | remove (number : UInt32)
  | clear (una : UInt32)
  | handleFastAck (number rto : UInt32)

def SendingWindow.step (sw : SendingWindow) : WindowOperation → SendingWindow
  | .push number b => sw.push number b
  | .flush writer current rto maxInFlightSize =>
    (sw.flush writer.write current rto maxInFlightSize).1
  | .remove number => (sw.remove number).1
  | .clear una => sw.clear una
  | .handleFastAck number rto => sw.handleFastAck number rto

/-- A window, and how often each of its segments was transmitted. -/
structure Tracked where
  window : SendingWindow := {}
  sent : List ℕ := []

/-- The counts after a flush from `l` to `l'`: the segments it transmits are those
    whose own count it moves. -/
def recount : List DataSegment → List DataSegment → List ℕ → List ℕ
  | seg :: l, seg' :: l', n :: sent =>
    (if seg'.transmit = seg.transmit then n else n + 1) :: recount l l' sent
  | _, _, _ => []

/-- How many counts are of segments transmitted at least once. -/
def started (sent : List ℕ) : ℕ := sent.countP fun n => decide (0 < n)

namespace Tracked

variable (t : Tracked)

/-- How many segments `clear` drops. -/
def cleared (una : UInt32) : ℕ :=
  t.window.cache.findIdx fun seg => !decide (seg.number < una)

/-- Where the segment that `remove` takes is. -/
def removed (number : UInt32) : ℕ :=
  t.window.cache.findIdx fun seg => decide (seg.number = number)

def step (op : WindowOperation) : Tracked where
  window := t.window.step op
  sent := match op with
    | .push _ _ => t.sent ++ [0]
    | .flush .. => recount t.window.cache (t.window.step op).cache t.sent
    | .remove number =>
      if (t.window.remove number).2 then t.sent.eraseIdx (t.removed number) else t.sent
    | .clear una => t.sent.drop (t.cleared una)
    | .handleFastAck _ _ => t.sent

/-- The number of segments transmitted at least once. -/
def inFlight : ℕ := started t.sent

/-- The window counts the segments in flight. -/
def Accounted : Prop := t.window.totalInFlightSize.toNat = t.inFlight

/-- No transmitted segment is cleared, and none is removed that was not transmitted while others
    are in flight; there are fewer than `2 ^ 32` segments, and none that has been transmitted
    a multiple of `2 ^ 32` times is flushed. -/
def Permits : WindowOperation → Prop
  | .push _ _ => t.sent.length + 1 < 2 ^ 32
  | .flush .. => ∀ n ∈ t.sent, 2 ^ 32 ∣ n → n = 0
  | .remove number => (t.window.remove number).2 = true →
      t.sent[t.removed number]? = some 0 → t.inFlight = 0
  | .clear una => ∀ n ∈ t.sent.take (t.cleared una), n = 0
  | .handleFastAck _ _ => True

end Tracked

/-- The runs of a window, from the empty one. -/
def trackedRuns : Lts Tracked WindowOperation where
  init t := t = {}
  step t op t' := t' = t.step op

/-! ## Removal -/

namespace SendingWindow

/-- A segment is removed from its place. -/
theorem removeLoop_eq {number : UInt32} {l l' : List DataSegment}
    (h : removeLoop number l = some l') :
    l.findIdx (fun seg => decide (seg.number = number)) < l.length ∧
      l' = l.eraseIdx (l.findIdx fun seg => decide (seg.number = number)) := by
  induction l generalizing l' with
  | nil => exact absurd h (by simp [removeLoop])
  | cons seg rest ih =>
    rw [removeLoop] at h
    split at h
    · cases h
    · split at h
      · rename_i heq
        cases h
        rw [List.findIdx_cons, decide_eq_true heq]
        exact ⟨Nat.succ_pos _, rfl⟩
      · rename_i hne
        obtain ⟨l'', h'', rfl⟩ := Option.map_eq_some_iff.1 h
        obtain ⟨hlt, rfl⟩ := ih h''
        rw [List.findIdx_cons, decide_eq_false hne]
        exact ⟨Nat.succ_lt_succ hlt, rfl⟩

theorem remove_cases (sw : SendingWindow) (number : UInt32) :
    sw.remove number = (sw, false) ∨
      sw.cache.findIdx (fun seg => decide (seg.number = number)) < sw.cache.length ∧
        sw.remove number =
          (⟨sw.cache.eraseIdx (sw.cache.findIdx fun seg => decide (seg.number = number)),
            if sw.totalInFlightSize > 0 then sw.totalInFlightSize - 1
            else sw.totalInFlightSize⟩, true) := by
  rcases h : removeLoop number sw.cache with - | cache
  · exact .inl (by rw [remove, h])
  · obtain ⟨hlt, rfl⟩ := removeLoop_eq h
    exact .inr ⟨hlt, by rw [remove, h]⟩

end SendingWindow

/-! ## Flushes -/

/-- The count of transmissions that a segment keeps itself. -/
def transmissions (l : List DataSegment) : List UInt32 := l.map (·.transmit)

theorem recount_self {l : List DataSegment} {sent : List ℕ} (h : l.length = sent.length) :
    recount l l sent = sent := by
  induction l generalizing sent with
  | nil => rw [List.eq_nil_of_length_eq_zero h.symm]; rfl
  | cons seg l ih =>
    rcases sent with - | ⟨n, sent⟩
    · cases h
    · rw [recount, if_pos rfl, ih (Nat.succ.inj h)]

@[simp] theorem started_cons (n : ℕ) (sent : List ℕ) :
    started (n :: sent) = started sent + if 0 < n then 1 else 0 := by
  simp [started, List.countP_cons]

theorem recount_transmitted {seg seg' : DataSegment} (h : seg'.transmit = seg.transmit + 1)
    (l l' : List DataSegment) (n : ℕ) (sent : List ℕ) :
    recount (seg :: l) (seg' :: l') (n :: sent) = (n + 1) :: recount l l' sent := by
  rw [recount, if_neg (by simp [h])]

/-- A segment that is not at a multiple of `2 ^ 32` transmissions knows whether it was transmitted. -/
theorem ofNat_eq_zero_iff {n : ℕ} (h : 2 ^ 32 ∣ n → n = 0) : UInt32.ofNat n = 0 ↔ n = 0 := by
  refine ⟨fun h0 => h ?_, fun h0 => by rw [h0]; rfl⟩
  have := congrArg UInt32.toNat h0
  rw [UInt32.toNat_ofNat'] at this
  exact Nat.dvd_of_mod_eq_zero this

/-- A flush moves the counts it keeps and the counts of the segments by the same steps, and what
    the window counts by the number of first transmissions. -/
theorem flushLoop_recount {writer : SegmentWriter} {current rto maxInFlightSize : UInt32}
    {l : List DataSegment} {total lost inFlight : UInt32} {sent : List ℕ} {r : SendingWindow.Flushed}
    (hr : SendingWindow.flushLoop writer.write current rto maxInFlightSize l total lost inFlight = r)
    (haligned : transmissions l = sent.map UInt32.ofNat)
    (hsent : ∀ n ∈ sent, 2 ^ 32 ∣ n → n = 0) :
    transmissions r.cache = (recount l r.cache sent).map UInt32.ofNat ∧
      r.totalInFlightSize + UInt32.ofNat (started sent) =
        total + UInt32.ofNat (started (recount l r.cache sent)) := by
  induction l generalizing total lost inFlight sent r with
  | nil =>
    obtain rfl := List.map_eq_nil_iff.1 haligned.symm
    subst hr
    exact ⟨rfl, rfl⟩
  | cons seg rest ih =>
    rcases sent with - | ⟨n, sent⟩
    · cases haligned
    have ⟨hseg, hrest⟩ : seg.transmit = UInt32.ofNat n ∧ transmissions rest = sent.map UInt32.ofNat :=
      List.cons.inj haligned
    have hn := ofNat_eq_zero_iff (hsent n List.mem_cons_self)
    have htail := fun n h => hsent n (List.mem_cons_of_mem _ h)
    have hlength : rest.length = sent.length := by
      simpa [transmissions] using congrArg List.length hrest
    rw [SendingWindow.flushLoop] at hr
    split at hr
    · -- The segment is not due.
      dsimp only at hr
      obtain ⟨hcache, htotal⟩ := ih rfl hrest htail
      subst hr
      rw [recount, if_pos rfl, started_cons, started_cons, UInt32.ofNat_add, UInt32.ofNat_add]
      refine ⟨congrArg₂ List.cons hseg hcache, ?_⟩
      dsimp only
      rw [← UInt32.add_assoc, ← UInt32.add_assoc, htotal]
    · -- It is transmitted, for the first time if its count is zero.
      generalize hseg' : writer.write { seg with
        timeout := current + rto, timestamp := current, transmit := seg.transmit + 1 } = seg' at hr
      have hmoved : seg'.transmit = seg.transmit + 1 := by rw [← hseg', writer.transmit_write]
      have hcount : seg'.transmit = UInt32.ofNat (n + 1) := by
        rw [hmoved, hseg, UInt32.ofNat_add]
        rfl
      have hfirst : (if seg.transmit = 0 then total + 1 else total) +
          UInt32.ofNat (if 0 < n then 1 else 0) = total + 1 := by
        rw [hseg]
        rcases n with - | n
        · rw [if_pos (hn.2 rfl), if_neg (lt_irrefl 0)]
          exact UInt32.add_zero _
        · rw [if_neg fun h => Nat.succ_ne_zero _ (hn.1 h), if_pos n.succ_pos]
          rfl
      dsimp only at hr
      split at hr
      · obtain ⟨hcache, htotal⟩ := ih rfl hrest htail
        subst hr
        rw [recount_transmitted hmoved, started_cons, started_cons, if_pos n.succ_pos,
          UInt32.ofNat_add, UInt32.ofNat_add]
        refine ⟨congrArg₂ List.cons hcount hcache, ?_⟩
        grind
      · subst hr
        rw [recount_transmitted hmoved, recount_self hlength, started_cons, started_cons,
          if_pos n.succ_pos, UInt32.ofNat_add, UInt32.ofNat_add]
        refine ⟨congrArg₂ List.cons hcount hrest, ?_⟩
        grind

/-! ## Runs -/

theorem transmissions_fastAckLoop (number rto : UInt32) (l : List DataSegment) :
    transmissions (SendingWindow.fastAckLoop number rto l) = transmissions l := by
  induction l with
  | nil => rfl
  | cons seg rest ih =>
    rw [SendingWindow.fastAckLoop]
    split
    · rfl
    · refine congrArg₂ List.cons ?_ ih
      split <;> rfl

theorem length_recount_le (l l' : List DataSegment) (sent : List ℕ) :
    (recount l l' sent).length ≤ sent.length := by
  induction l generalizing l' sent with
  | nil => exact Nat.zero_le _
  | cons seg l ih =>
    rcases l' with - | ⟨seg', l'⟩
    · exact Nat.zero_le _
    · rcases sent with - | ⟨n, sent⟩
      · exact Nat.zero_le _
      · exact Nat.succ_le_succ (ih l' sent)

namespace Tracked

/-- The counts are those of the segments, and there are fewer than `2 ^ 32` of them; the window
    counts the segments in flight. -/
structure IsAccounted (t : Tracked) : Prop where
  aligned : transmissions t.window.cache = t.sent.map UInt32.ofNat
  length_lt : t.sent.length < 2 ^ 32
  accounted : t.Accounted

variable {t : Tracked}

theorem started_append (sent sent' : List ℕ) :
    started (sent ++ sent') = started sent + started sent' := List.countP_append

theorem started_eq_zero {sent : List ℕ} : started sent = 0 ↔ ∀ n ∈ sent, n = 0 := by
  simp [started, List.countP_eq_zero]

theorem started_le_length (sent : List ℕ) : started sent ≤ sent.length := List.countP_le_length

/-- Clearing keeps the account exactly if it drops no transmitted segment. -/
theorem accounted_clear_iff (h : t.Accounted) (una : UInt32) :
    (t.step (.clear una)).Accounted ↔ t.Permits (.clear una) := by
  have hsplit : started (t.sent.take (t.cleared una)) + started (t.sent.drop (t.cleared una)) =
      started t.sent := by
    rw [← started_append, List.take_append_drop]
  have h' : t.window.totalInFlightSize.toNat = started t.sent := h
  change t.window.totalInFlightSize.toNat = started (t.sent.drop (t.cleared una)) ↔
    ∀ n ∈ t.sent.take (t.cleared una), n = 0
  rw [← started_eq_zero]
  omega

theorem started_eraseIdx {sent : List ℕ} {i : ℕ} (h : i < sent.length) :
    started sent = started (sent.eraseIdx i) + if 0 < sent[i] then 1 else 0 := by
  rw [← started_cons]
  exact (List.getElem_cons_eraseIdx_perm h).symm.countP_eq _

theorem length_cache (h : t.IsAccounted) : t.window.cache.length = t.sent.length := by
  simpa [transmissions] using congrArg List.length h.aligned

theorem toNat_pred (n : UInt32) : (if n > 0 then n - 1 else n).toNat = n.toNat - 1 := by
  split
  · rename_i h
    exact UInt32.toNat_sub_of_le _ _ (UInt32.le_iff_toNat_le.2 (UInt32.lt_iff_toNat_lt.1 h))
  · rename_i h
    have := UInt32.lt_iff_toNat_lt.not.1 h
    rw [UInt32.toNat_zero] at this
    omega

/-- Removing keeps the account exactly if the segment removed was transmitted, or none is in
    flight. -/
theorem accounted_remove_iff (h : t.IsAccounted) (number : UInt32) :
    (t.step (.remove number)).Accounted ↔ t.Permits (.remove number) := by
  have h' : t.window.totalInFlightSize.toNat = started t.sent := h.accounted
  simp only [Accounted, inFlight, step, SendingWindow.step, Permits]
  rcases t.window.remove_cases number with hremove | ⟨hlt, hremove⟩
  · simp [hremove, h']
  · rw [length_cache h] at hlt
    have hsent := started_eraseIdx hlt
    rw [hremove, if_pos rfl, removed, List.getElem?_eq_getElem hlt]
    simp only [Option.some.injEq, forall_const]
    rw [toNat_pred, h', hsent]
    split <;> omega

/-- A permitted operation keeps the account. -/
theorem IsAccounted.step (h : t.IsAccounted) {op : WindowOperation} (hop : t.Permits op) :
    (t.step op).IsAccounted := by
  have haccounted : t.window.totalInFlightSize.toNat = started t.sent := h.accounted
  rcases op with ⟨number, b⟩ | ⟨writer, current, rto, maxInFlightSize⟩ | number | una | ⟨number, rto⟩
  case push =>
    refine ⟨?_, ?_, ?_⟩
    · change transmissions (t.window.cache ++ [_]) = (t.sent ++ [0]).map UInt32.ofNat
      rw [transmissions, List.map_append, List.map_append, ← h.aligned]
      rfl
    · change (t.sent ++ [0]).length < 2 ^ 32
      rw [List.length_append]
      exact hop
    · change _ = started (t.sent ++ [0])
      rw [started_append]
      exact haccounted
  case flush =>
    have hflush : SendingWindow.flushLoop writer.write current rto maxInFlightSize t.window.cache
      t.window.totalInFlightSize 0 0 = _ := rfl
    obtain ⟨hcache, htotal⟩ := flushLoop_recount hflush h.aligned hop
    have hlength := (length_recount_le t.window.cache
      (t.window.step (.flush writer current rto maxInFlightSize)).cache t.sent).trans_lt h.length_lt
    refine ⟨hcache, hlength, ?_⟩
    -- The first transmissions are added to a sum that stays below `2 ^ 32`.
    have htotal' : (t.window.step (.flush writer current rto maxInFlightSize)).totalInFlightSize =
        UInt32.ofNat (started (recount t.window.cache
          (t.window.step (.flush writer current rto maxInFlightSize)).cache t.sent)) := by
      have hcount : t.window.totalInFlightSize = UInt32.ofNat (started t.sent) := by
        rw [← haccounted, UInt32.ofNat_toNat]
      refine (UInt32.add_left_inj (UInt32.ofNat (started t.sent))).1 (htotal.trans ?_)
      rw [UInt32.add_comm]
      exact congrArg _ hcount
    exact (congrArg UInt32.toNat htotal').trans
      (UInt32.toNat_ofNat_of_lt' ((started_le_length _).trans_lt hlength))
  case remove =>
    have hkept := (accounted_remove_iff h number).2 hop
    rcases t.window.remove_cases number with hremove | ⟨hlt, hremove⟩
    · have hsame : t.step (.remove number) = t := by
        simp [Tracked.step, SendingWindow.step, hremove]
      rwa [hsame]
    · have hstep : (t.step (.remove number)).sent = t.sent.eraseIdx (t.removed number) := by
        simp [Tracked.step, hremove]
      have hcache : (t.step (.remove number)).window.cache =
          t.window.cache.eraseIdx (t.removed number) := by
        simp only [Tracked.step, SendingWindow.step, hremove]
        rfl
      refine ⟨?_, ?_, hkept⟩
      · rw [hstep, hcache, ← List.eraseIdx_map, ← h.aligned, transmissions, transmissions,
          List.eraseIdx_map]
      · rw [hstep]
        exact (List.length_eraseIdx_le _ _).trans_lt h.length_lt
  case clear =>
    refine ⟨?_, ?_, (accounted_clear_iff h.accounted una).2 hop⟩
    · change transmissions (t.window.cache.dropWhile _) = (t.sent.drop _).map UInt32.ofNat
      rw [List.dropWhile_eq_drop_findIdx_not, transmissions, List.map_drop, List.map_drop, ← h.aligned]
      rfl
    · change (t.sent.drop _).length < 2 ^ 32
      rw [List.length_drop]
      exact (Nat.sub_le _ _).trans_lt h.length_lt
  case handleFastAck =>
    exact ⟨(transmissions_fastAckLoop _ _ _).trans h.aligned, h.length_lt, h.accounted⟩

end Tracked

/-- In every run that clears no transmitted segment, and removes no other while some are in
    flight, `totalInFlightSize` is the number of segments in flight. -/
theorem inFlight_accounted {t : Tracked}
    (h : (trackedRuns.restrict Tracked.Permits).Reach (fun _ => True) t) :
    t.window.totalInFlightSize.toNat = t.inFlight := by
  suffices t.IsAccounted from this.accounted
  refine h.invariant ?_ ?_
  · rintro _ rfl -
    exact ⟨rfl, by decide, rfl⟩
  · rintro t op _ - ht ⟨hop, rfl⟩ -
    exact ht.step hop

/-- A segment is pushed, transmitted and acknowledged by its number. -/
theorem inFlight_accounted_example :
    let writer := (SendingWorker.new {}).writer 0 false
    (((({} : Tracked).step (.push 0 (.ofBytes [7] (by decide)))).step (.flush writer 0 0 1)).step
      (.remove 0)).window.totalInFlightSize.toNat = 0 := by
  intro writer
  refine inFlight_accounted (.step (.step (.step (.init rfl trivial) ⟨?_, rfl⟩ trivial) ⟨?_, rfl⟩
    trivial) ⟨?_, rfl⟩ trivial)
  · change ([] : List ℕ).length + 1 < 2 ^ 32
    decide
  · simp [Tracked.Permits, Tracked.step]
  · change _ → _ → _
    decide

/-- A segment that is transmitted and then cleared is counted on: the window is empty. -/
theorem inFlight_unaccounted :
    let writer := (SendingWorker.new {}).writer 0 false
    let t := ((({} : Tracked).step (.push 0 (.ofBytes [7] (by decide)))).step
      (.flush writer 0 0 1)).step (.clear 1)
    trackedRuns.Reach (fun _ => True) t ∧ t.window.cache = [] ∧
      t.window.totalInFlightSize.toNat = 1 ∧ t.inFlight = 0 := by
  intro writer
  exact ⟨.step (.step (.step (.init rfl trivial) rfl trivial) rfl trivial) rfl trivial,
    by decide, by decide, by decide⟩

end Gzv2ray.Kcp
