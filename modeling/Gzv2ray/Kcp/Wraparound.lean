import Gzv2ray.Kcp.Receiving
import Gzv2ray.Kcp.Sending
import Gzv2ray.Lib.SerialNumber

/-!
# Numbers that wrap around

The workers compare numbers of segments as they are, where they clear what comes
before a number and where they look for the segment of a number. Each of these is
right, in the order that wraps around, under a condition that it is shown to need:

* `processReceivingNext_iff`, `processAck_iff`: on a window of consecutive numbers;
* `AckList.clear_iff`: on any list of numbers to acknowledge.

In a window that wraps around none of them removes what it should
(`not_modular_wrapping`).
-/

namespace Gzv2ray.Kcp

open SerialNumber

/-- The window holds consecutive numbers, from the first one that is not acknowledged to
    the one before the next. -/
structure SendingWorker.IsConsecutive (w : SendingWorker) : Prop where
  numbers : SerialNumber.IsConsecutive DataSegment.number w.firstUnacknowledged w.window.cache
  next : w.nextNumber = w.firstUnacknowledged + UInt32.ofNat w.window.cache.length

namespace SendingWindow

variable {number : UInt32}

theorem removeLoop_eq_none {l : List DataSegment} (h : ∀ seg ∈ l, seg.number ≠ number) :
    removeLoop number l = none := by
  induction l with
  | nil => rfl
  | cons seg l ih =>
    rw [removeLoop, ih fun seg hseg => h seg (List.mem_cons_of_mem _ hseg),
      if_neg (h seg List.mem_cons_self)]
    split <;> rfl

/-- A segment is found after smaller numbers only. -/
theorem removeLoop_append {l l' : List DataSegment} {seg : DataSegment}
    (h : ∀ seg ∈ l, seg.number < number) (hseg : seg.number = number) :
    removeLoop number (l ++ seg :: l') = some (l ++ l') := by
  induction l with
  | nil => rw [List.nil_append, removeLoop, if_neg (by rw [hseg]; exact UInt32.lt_irrefl _), if_pos hseg]; rfl
  | cons seg' l ih =>
    have hlt := h seg' List.mem_cons_self
    rw [List.cons_append, removeLoop, if_neg (UInt32.not_lt.2 (UInt32.le_of_lt hlt)),
      if_neg (UInt32.ne_of_lt hlt), ih fun seg hseg => h seg (List.mem_cons_of_mem _ hseg)]
    rfl

end SendingWindow

namespace SendingWorker

variable {w : SendingWorker}

theorem processAck_window (number : UInt32) :
    (w.processAck number).1.window = if number - w.firstUnacknowledged > 0x7FFFFFFF ∨
      number - w.nextNumber < 0x7FFFFFFF then w.window else (w.window.remove number).1 := by
  unfold processAck
  split
  · rfl
  · dsimp only
    split <;> rfl

/-- The processing of what the peer received removes what precedes it exactly if the
    comparison with the window does not wrap around. -/
theorem processReceivingNext_iff (h : w.IsConsecutive) (una : UInt32) :
    (w.processReceivingNext una).window.cache =
        w.window.cache.filter (fun seg => ¬ Precedes seg.number una) ↔
      Compares w.firstUnacknowledged una w.window.cache.length :=
  dropWhile_eq_iff h.numbers una

/-- An acknowledgement removes its segment exactly if it is not below the first number. -/
theorem processAck_iff (h : w.IsConsecutive) (number : UInt32) :
    (w.processAck number).1.window.cache = w.window.cache.filter (fun seg => seg.number ≠ number) ↔
      (∀ seg ∈ w.window.cache, seg.number ≠ number) ∨ w.firstUnacknowledged ≤ number := by
  have hnumber (i : ℕ) (seg : DataSegment) (hi : w.window.cache[i]? = some seg) :
      seg.number.toNat = (w.firstUnacknowledged.toNat + i) % 2 ^ 32 ∧ i < w.window.cache.length :=
    ⟨h.numbers.getElem i seg hi, (List.getElem?_eq_some_iff.1 hi).1⟩
  have hlen := h.numbers.length_le
  have hfirst := w.firstUnacknowledged.toNat_lt
  by_cases hout : ∀ seg ∈ w.window.cache, seg.number ≠ number
  · refine iff_of_true ?_ (.inl hout)
    have hremove : (w.window.remove number).1 = w.window := by
      rw [SendingWindow.remove, SendingWindow.removeLoop_eq_none hout]
    rw [processAck_window, hremove, ite_self]
    exact (List.filter_eq_self.2 fun seg hseg => decide_eq_true (hout seg hseg)).symm
  · rw [or_iff_right hout]
    push Not at hout
    obtain ⟨seg, hseg, rfl⟩ := hout
    obtain ⟨i, hi⟩ := List.mem_iff_getElem?.1 hseg
    obtain ⟨hnum, hilt⟩ := hnumber i seg hi
    -- the number is one of those that are looked for
    have hguard : ¬ (seg.number - w.firstUnacknowledged > 0x7FFFFFFF ∨
        seg.number - w.nextNumber < 0x7FFFFFFF) := by
      rw [gt_iff_lt, UInt32.lt_iff_toNat_lt, UInt32.lt_iff_toNat_lt, UInt32.toNat_sub, UInt32.toNat_sub,
        h.next, UInt32.toNat_add, UInt32.toNat_ofNat', hnum]
      change ¬ (2147483647 < _ ∨ _ < 2147483647)
      omega
    rw [processAck_window, if_neg hguard, SendingWindow.remove, UInt32.le_iff_toNat_le]
    constructor
    · intro heq
      by_contra hlt
      -- the search stops at the first segment
      have hnone : SendingWindow.removeLoop seg.number w.window.cache = none := by
        cases hcache : w.window.cache with
        | nil => rfl
        | cons x rest =>
          have hx := (hnumber 0 x (by rw [hcache]; rfl)).1
          rw [SendingWindow.removeLoop, if_pos]
          rw [gt_iff_lt, UInt32.lt_iff_toNat_lt]
          omega
      rw [hnone] at heq
      have hmem := heq ▸ hseg
      rw [List.mem_filter, decide_eq_true_iff] at hmem
      exact hmem.2 rfl
    · intro hle
      have hbefore (x) (hx : x ∈ w.window.cache.take i) : x.number < seg.number := by
        obtain ⟨j, hj⟩ := List.mem_iff_getElem?.1 hx
        have hjlt := (List.getElem?_eq_some_iff.1 hj).1
        rw [List.length_take] at hjlt
        rw [List.getElem?_take_of_lt (by omega)] at hj
        have hx := (hnumber j x hj).1
        rw [UInt32.lt_iff_toNat_lt]
        omega
      have hafter (x) (hx : x ∈ w.window.cache.drop (i + 1)) : x.number ≠ seg.number := by
        obtain ⟨j, hj⟩ := List.mem_iff_getElem?.1 hx
        rw [List.getElem?_drop] at hj
        obtain ⟨hx, hjlt⟩ := hnumber _ x hj
        rw [ne_eq, ← UInt32.toNat_inj]
        omega
      have hsplit : w.window.cache = w.window.cache.take i ++ seg :: w.window.cache.drop (i + 1) := by
        rw [← (List.getElem?_eq_some_iff.1 hi).2, List.getElem_cons_drop, List.take_append_drop]
      have hremove : SendingWindow.removeLoop seg.number
          (w.window.cache.take i ++ seg :: w.window.cache.drop (i + 1)) = some _ :=
        SendingWindow.removeLoop_append hbefore rfl
      rw [← hsplit] at hremove
      rw [hremove]
      conv_rhs => rw [hsplit]
      rw [List.filter_append, List.filter_cons_of_neg (by simp),
        List.filter_eq_self.2 fun x hx => decide_eq_true (UInt32.ne_of_lt (hbefore x hx)),
        List.filter_eq_self.2 fun x hx => decide_eq_true (hafter x hx)]

end SendingWorker

namespace AckList

variable (l : AckList)

/-- The numbers with their timestamps and times. -/
def entries : List (UInt32 × UInt32 × UInt32) := l.numbers.zip (l.timestamps.zip l.nextFlush)

theorem clearLoop_zip (una : UInt32) (ns ts fs : List UInt32) :
    (clearLoop una ns ts fs).1.zip ((clearLoop una ns ts fs).2.1.zip (clearLoop una ns ts fs).2.2) =
      (ns.zip (ts.zip fs)).filter fun e => ¬ e.1 < una := by
  induction ns generalizing ts fs with
  | nil => cases ts <;> cases fs <;> rfl
  | cons n ns ih =>
    cases ts with
    | nil => rfl
    | cons t ts =>
      cases fs with
      | nil => rfl
      | cons f fs =>
        rw [clearLoop, List.zip_cons_cons, List.zip_cons_cons, List.filter_cons, ← ih]
        dsimp only
        by_cases h : n < una
        · rw [if_pos h, if_neg (by simpa using h)]
        · rw [if_neg h, if_pos (by simpa using h)]
          rfl

theorem entries_clear (una : UInt32) : (l.clear una).entries = l.entries.filter fun e => ¬ e.1 < una :=
  clearLoop_zip una _ _ _

/-- A list of numbers to acknowledge is cleared of those that precede another one exactly if
    its comparisons with them do not wrap around. -/
theorem clear_iff (una : UInt32) :
    (l.clear una).entries = l.entries.filter (fun e => ¬ Precedes e.1 una) ↔
      ∀ e ∈ l.entries, e.1 < una ↔ Precedes e.1 una := by
  rw [entries_clear]
  constructor
  · intro heq e he
    have hmem : e ∈ l.entries.filter (fun e => ¬ e.1 < una) ↔
        e ∈ l.entries.filter (fun e => ¬ Precedes e.1 una) := by rw [heq]
    rw [List.mem_filter, List.mem_filter, decide_eq_true_iff, decide_eq_true_iff] at hmem
    simpa [he] using not_congr hmem
  · intro h
    exact List.filter_congr fun e he => decide_eq_decide.2 (not_congr (h e he))

end AckList

/-- What each comparison of numbers needs to be right in the order that wraps around. -/
theorem modular_iff {w : SendingWorker} (h : w.IsConsecutive) (l : AckList) (una number : UInt32) :
    ((w.processReceivingNext una).window.cache =
        w.window.cache.filter (fun seg => ¬ Precedes seg.number una) ↔
      Compares w.firstUnacknowledged una w.window.cache.length) ∧
    ((w.processAck number).1.window.cache = w.window.cache.filter (fun seg => seg.number ≠ number) ↔
      (∀ seg ∈ w.window.cache, seg.number ≠ number) ∨ w.firstUnacknowledged ≤ number) ∧
    ((l.clear una).entries = l.entries.filter (fun e => ¬ Precedes e.1 una) ↔
      ∀ e ∈ l.entries, e.1 < una ↔ Precedes e.1 una) :=
  ⟨w.processReceivingNext_iff h una, w.processAck_iff h number, l.clear_iff una⟩

/-- A worker that holds two empty payloads, numbered from `first` on. -/
def exampleWorker (first : UInt32) : SendingWorker where
  window := { cache := [{ number := first, payload := .new }, { number := first + 1, payload := .new }] }
  firstUnacknowledged := first
  nextNumber := first + 2
  controlWindow := 0
  windowSize := 2

theorem exampleWorker_isConsecutive (first : UInt32) : (exampleWorker first).IsConsecutive := by
  have hlen : (exampleWorker first).window.cache.length ≤ 2 ^ 31 := Nat.le_of_ble_eq_true rfl
  refine ⟨⟨fun i seg hi => ?_, hlen⟩, rfl⟩
  rcases i with _ | _ | i
  · cases hi
    exact (Nat.mod_eq_of_lt first.toNat_lt).symm
  · cases hi
    exact UInt32.toNat_add first 1
  · cases hi

/-- The numbers 5 and 6, of which the first one is acknowledged. -/
theorem modular_iff_example :
    (((exampleWorker 5).processReceivingNext 6).window.cache =
        (exampleWorker 5).window.cache.filter (fun seg => ¬ Precedes seg.number 6) ↔
      Compares 5 6 2) ∧
    (((exampleWorker 5).processAck 6).1.window.cache =
        (exampleWorker 5).window.cache.filter (fun seg => seg.number ≠ 6) ↔
      (∀ seg ∈ (exampleWorker 5).window.cache, seg.number ≠ 6) ∨ (5 : UInt32) ≤ 6) ∧
    ((({} : AckList).clear 6).entries = ({} : AckList).entries.filter (fun e => ¬ Precedes e.1 6) ↔
      ∀ e ∈ ({} : AckList).entries, e.1 < 6 ↔ Precedes e.1 6) :=
  modular_iff (exampleWorker_isConsecutive 5) {} 6 6

/-- With the last number and 0 received, the window is cleared of neither, and 0 is not removed
    from it; the last number is still to be acknowledged, with 0 acknowledged before. -/
theorem not_modular_wrapping :
    (exampleWorker 0xFFFFFFFF).IsConsecutive ∧
    ((exampleWorker 0xFFFFFFFF).processReceivingNext 1).window.cache ≠
      (exampleWorker 0xFFFFFFFF).window.cache.filter (fun seg => ¬ Precedes seg.number 1) ∧
    ((exampleWorker 0xFFFFFFFF).processAck 0).1.window.cache ≠
      (exampleWorker 0xFFFFFFFF).window.cache.filter (fun seg => seg.number ≠ 0) ∧
    ((({} : AckList).add 0xFFFFFFFF 0).clear 1).entries ≠
      (({} : AckList).add 0xFFFFFFFF 0).entries.filter (fun e => ¬ Precedes e.1 1) :=
  ⟨exampleWorker_isConsecutive _, by decide, by decide, by decide⟩

end Gzv2ray.Kcp
