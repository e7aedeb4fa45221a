import Gzv2ray.Kcp.Network

/-!
# Delivery over KCP

What the writer at one end of a conversation pushed and what the reader at the
other end was handed, in every run.

* `Delivers`: the payload under a number is the one pushed under it, wherever it
  is: in the sender's window, in a segment in flight, in the receiver's window,
  or in what was handed to the reader;
* `returned_prefix_pushed`: the reader is handed a prefix of what was pushed;
* `Accounts`: whatever the receiver tells it received, it accepted, and what the
  sender has dropped was accepted;
* `pushed_held_or_accepted`: no segment is lost.
-/

namespace Gzv2ray.Kcp

open Connection (Action)

/-! ## What an action does to the sending side -/

/-- The numbers that an action tells the sending worker were received. -/
def Connection.Action.acked : Action → Set UInt32
  | .processAck seg _ => seg.acked
  | .processReceivingNext seg => {n | n < seg.receivingNext}
  | .closeWrite | .release => Set.univ
  | _ => ∅

namespace Endpoint

variable (e : Endpoint) (a : Action)

/-- An action pushes a payload, or else at most drops the numbers acknowledged. -/
theorem step_sending :
    (∃ b : Buffer, (e.step a).pushed = e.pushed ++ [b.bytes] ∧
      (e.step a).conn.sendingWorker.nextNumber = e.conn.sendingWorker.nextNumber + 1 ∧
      (e.step a).conn.sendingWorker.window.ids =
        e.conn.sendingWorker.window.ids ++ [(e.conn.sendingWorker.nextNumber, b.bytes)]) ∨
    ((e.step a).pushed = e.pushed ∧
      e.conn.sendingWorker.Retains a.acked (e.step a).conn.sendingWorker) := by
  cases a
  case push b =>
    rw [step_conn, Connection.step]
    unfold step
    dsimp only
    cases h : (e.conn.sendingWorker.push b).2 with
    | true => exact .inl ⟨b, rfl, e.conn.sendingWorker.push_true h⟩
    | false => exact .inr ⟨rfl, by rw [e.conn.sendingWorker.push_false h]; exact .refl _⟩
  case flushSending => exact .inr ⟨rfl, (e.conn.sendingWorker.flush_retains _ _ _ _ _).1⟩
  case processAck => exact .inr ⟨rfl, e.conn.sendingWorker.processSegment_retains _ _ _ _⟩
  case processReceivingNext => exact .inr ⟨rfl, e.conn.sendingWorker.processReceivingNext_retains _⟩
  case closeWrite =>
    exact .inr ⟨rfl, rfl, e.conn.sendingWorker.window.ids_clear_subset _, fun _ _ => .inr trivial⟩
  case release => exact .inr ⟨rfl, rfl, List.nil_subset _, fun _ _ => .inr trivial⟩
  all_goals exact .inr ⟨rfl, .refl _⟩

/-- The data written was in the window. -/
theorem step_data {seg : DataSegment} (h : .data seg ∈ (e.conn.step a).2.map Segment.wire) :
    seg.id ∈ e.conn.sendingWorker.window.ids := by
  cases a
  case flushSending current =>
    obtain ⟨seg', hseg', heq⟩ := List.mem_map.1 h
    obtain ⟨seg'', hseg'', rfl⟩ := List.mem_map.1 hseg'
    cases heq
    exact (e.conn.sendingWorker.flush_retains _ _ _ _ _).2 seg'' hseg''
  all_goals simp [Connection.step, Segment.wire] at h

/-! ## What an action does to the receiving side -/

/-- The bytes taken out of the window and not yet handed to the reader. -/
def leftOver : Bytes := e.conn.receivingWorker.leftOver.elim [] MultiBuffer.bytes

/-- An action receives a segment, or drains the window (if only of nothing), or
    releases the workers. -/
theorem step_receiving :
    (∃ seg, a = .processData seg ∧
      (e.step a).conn.receivingWorker = e.conn.receivingWorker.processSegment seg ∧
      (e.step a).returned = e.returned) ∨
    (∃ mb, e.conn.receivingWorker.window.Drains e.conn.receivingWorker.nextNumber mb
        (e.step a).conn.receivingWorker.window (e.step a).conn.receivingWorker.nextNumber ∧
      (e.step a).returned ++ (e.step a).leftOver =
        e.returned ++ e.leftOver ++ MultiBuffer.bytes mb ∧
      (e.step a).conn.receivingWorker.acklist.numbers ⊆ e.conn.receivingWorker.acklist.numbers) ∨
    (e.step a).released = true := by
  have hdrain : ∀ r, r = e.conn.receivingWorker.readMultiBuffer → ∃ mb,
      e.conn.receivingWorker.window.Drains e.conn.receivingWorker.nextNumber mb
        r.1.window r.1.nextNumber ∧
      MultiBuffer.bytes r.2 = e.leftOver ++ MultiBuffer.bytes mb ∧ r.1.leftOver = none ∧
      r.1.acklist = e.conn.receivingWorker.acklist := by
    rintro r rfl
    rcases e.conn.receivingWorker.readMultiBuffer_cases with ⟨mb, hl, hr⟩ | ⟨w, n, mb, hl, hd, hr⟩
    · rw [hr]
      exact ⟨[], .nil _ _, by simp [leftOver, hl], rfl, rfl⟩
    · rw [hr]
      exact ⟨mb, hd, by simp [leftOver, hl], hl, rfl⟩
  have hstay : ∀ l : AckList, l.numbers ⊆ e.conn.receivingWorker.acklist.numbers →
      ∃ mb, e.conn.receivingWorker.window.Drains e.conn.receivingWorker.nextNumber mb
          e.conn.receivingWorker.window e.conn.receivingWorker.nextNumber ∧
        e.returned ++ e.leftOver = e.returned ++ e.leftOver ++ MultiBuffer.bytes mb ∧
        l.numbers ⊆ e.conn.receivingWorker.acklist.numbers :=
    fun l hl => ⟨[], .nil _ _, by simp, hl⟩
  cases a
  case processData seg => exact .inl ⟨seg, rfl, rfl, rfl⟩
  case readMultiBuffer =>
    obtain ⟨mb, hd, hb, hl, ha⟩ := hdrain _ rfl
    refine .inr (.inl ⟨mb, hd, ?_, ?_⟩)
    · simp [step, Connection.step, leftOver, hl] at hb ⊢
      exact hb
    · simp [step, Connection.step, ha]
  case read n =>
    obtain ⟨mb, hd, hb, hl, ha⟩ := hdrain _ rfl
    obtain ⟨rest, hw, hr⟩ := e.conn.receivingWorker.read_spec n
    refine .inr (.inl ⟨mb, ?_, ?_, ?_⟩)
    · simpa [Connection.step, hw] using hd
    · rw [List.append_assoc, ← hb, ← hr]
      simp [step, Connection.step, leftOver, hw]
    · simp [Connection.step, hw, ha]
  case flushReceiving =>
    refine .inr (.inl (hstay _ ?_))
    simp [Connection.step, ReceivingWorker.flush]
  case processSendingNext => exact .inr (.inl (hstay _ (AckList.numbers_clear_subset _ _)))
  case push b =>
    refine .inr (.inl ?_)
    unfold step
    dsimp only
    split <;> exact hstay _ (List.Subset.refl _)
  case release => exact .inr (.inr rfl)
  all_goals exact .inr (.inl (hstay _ (List.Subset.refl _)))

end Endpoint

/-! ## In-order delivery -/

/-- Everything known of a number is the payload pushed under it by `a`: in its
    window, in the segments `sent`, in the window of `b`, and in what the reader
    of `b` was handed. -/
structure Delivers (a b : Endpoint) (sent : List Segment) : Prop where
  next : a.conn.sendingWorker.nextNumber.toNat = a.pushed.length
  held : ∀ p ∈ a.conn.sendingWorker.window.ids, a.pushed[p.1.toNat]? = some p.2
  sent : ∀ seg, .data seg ∈ sent → a.pushed[seg.number.toNat]? = some seg.payload.bytes
  cached : ∀ n seg, b.conn.receivingWorker.window.get n = some seg →
    a.pushed[n.toNat]? = some seg.payload.bytes
  read : b.conn.receivingWorker.nextNumber.toNat ≤ a.pushed.length
  returned : b.returned ++ b.leftOver =
    (a.pushed.take b.conn.receivingWorker.nextNumber.toNat).flatten

/-- Draining the window of the payloads pushed hands over the next ones. -/
theorem ReceivingWindow.Drains.flatten {w w' : ReceivingWindow} {next next' : UInt32}
    {mb : MultiBuffer} (h : w.Drains next mb w' next') {pushed : List Bytes}
    (hlen : pushed.length < 2 ^ 32)
    (hw : ∀ n seg, w.get n = some seg → pushed[n.toNat]? = some seg.payload.bytes)
    (hnext : next.toNat ≤ pushed.length) :
    next.toNat ≤ next'.toNat ∧ next'.toNat ≤ pushed.length ∧
      (pushed.take next.toNat).flatten ++ MultiBuffer.bytes mb =
        (pushed.take next'.toNat).flatten := by
  induction h with
  | nil => exact ⟨le_rfl, hnext, by simp⟩
  | @cons w w' next next' seg mb hseg hd ih =>
    have hget := hw _ _ hseg
    obtain ⟨hlt, hval⟩ := List.getElem?_eq_some_iff.1 hget
    have hsucc : (next + 1).toNat = next.toNat + 1 := by
      rw [UInt32.toNat_add]
      exact Nat.mod_eq_of_lt (by simpa using by omega)
    obtain ⟨h₁, h₂, h₃⟩ := ih (fun n seg' hn => by
      by_cases hne : n = next
      · rw [hne, get_erase_self] at hn; cases hn
      · exact hw n seg' (by rwa [get_erase_ne w hne] at hn)) (by omega)
    refine ⟨by omega, h₂, ?_⟩
    rw [← h₃, hsucc, List.take_add_one, hget]
    simp

namespace Delivers

variable {a b : Endpoint} {sent : List Segment}

theorem new (conv : UInt16) (config config' : Config) (overhead overhead' : UInt32) :
    Delivers { conn := .new conv config overhead } { conn := .new conv config' overhead' } [] :=
  ⟨rfl, by simp [Connection.new, SendingWorker.new, SendingWindow.ids], by simp,
    by simp [Connection.new, ReceivingWorker.new], Nat.zero_le _, rfl⟩

/-- An action of the sender keeps what is known of the numbers. -/
theorem send (h : Delivers a b sent) (act : Action)
    (hlen : (a.step act).pushed.length < 2 ^ 32) :
    Delivers (a.step act) b (sent ++ (a.conn.step act).2.map Segment.wire) := by
  have hsent : ∀ seg, .data seg ∈ sent ++ (a.conn.step act).2.map Segment.wire →
      a.pushed[seg.number.toNat]? = some seg.payload.bytes := fun seg hseg =>
    (List.mem_append.1 hseg).elim (h.sent seg) fun hseg => h.held _ (a.step_data act hseg)
  rcases a.step_sending act with ⟨buf, hp, hn, hids⟩ | ⟨hp, hr⟩
  · rw [hp, List.length_append, List.length_singleton] at hlen
    have hgrow : ∀ (n : ℕ) v, a.pushed[n]? = some v → (a.pushed ++ [buf.bytes])[n]? = some v :=
      fun n v hv => by
        obtain ⟨hlt, _⟩ := List.getElem?_eq_some_iff.1 hv
        rwa [List.getElem?_append_left hlt]
    refine ⟨?_, fun p hmem => ?_, fun seg hseg => ?_, fun n seg hn => ?_, ?_, ?_⟩
    · rw [hp, hn, UInt32.toNat_add, h.next, List.length_append, List.length_singleton]
      exact Nat.mod_eq_of_lt hlen
    · rw [hids, List.mem_append] at hmem
      rw [hp]
      rcases hmem with hmem | hmem
      · exact hgrow _ _ (h.held p hmem)
      · rw [List.mem_singleton.1 hmem, h.next]
        simp
    · rw [hp]; exact hgrow _ _ (hsent seg hseg)
    · rw [hp]; exact hgrow _ _ (h.cached n seg hn)
    · rw [hp, List.length_append]; exact Nat.le_add_right_of_le h.read
    · rw [hp, List.take_append_of_le_length h.read]; exact h.returned
  · refine ⟨?_, fun p hmem => ?_, fun seg hseg => ?_, fun n seg hn => ?_, ?_, ?_⟩
    · rw [hp, hr.nextNumber]; exact h.next
    · rw [hp]; exact h.held p (hr.subset hmem)
    · rw [hp]; exact hsent seg hseg
    · rw [hp]; exact h.cached n seg hn
    · rw [hp]; exact h.read
    · rw [hp]; exact h.returned

/-- An action of the receiver hands over the next payloads, if any. -/
theorem receive (h : Delivers a b sent) {act : Action} {pings : List UInt32}
    (hact : b.conn.Allowed sent pings act) (hlen : a.pushed.length < 2 ^ 32)
    (hrel : (b.step act).released = false) : Delivers a (b.step act) sent := by
  rcases b.step_receiving act with ⟨seg, rfl, hw, hret⟩ | ⟨mb, hd, hret, _⟩ | hr
  · obtain ⟨hn, hl, _⟩ := b.conn.receivingWorker.processSegment_frame seg
    refine ⟨h.next, h.held, h.sent, fun n seg' hseg' => ?_, ?_, ?_⟩
    · rw [hw, ReceivingWorker.processSegment_get] at hseg'
      split at hseg'
      · rename_i hc
        cases hseg'
        rw [hc.1]
        exact h.sent seg hact
      · exact h.cached n seg' hseg'
    · rw [hw, hn]; exact h.read
    · rw [Endpoint.leftOver, hw, hn, hl, hret]; exact h.returned
  · obtain ⟨_, hle, hflat⟩ := hd.flatten hlen h.cached h.read
    refine ⟨h.next, h.held, h.sent, fun n seg hseg => ?_, hle, ?_⟩
    · exact h.cached n seg (hd.get_of_get hseg)
    · rw [hret, h.returned, hflat]
  · rw [hr] at hrel; cases hrel

end Delivers

/-- Neither end was terminated or released. -/
def Network.Alive (s : Network) : Prop :=
  ∀ i, (s.endpoint i).conn.state ≠ .terminated ∧ (s.endpoint i).released = false

/-- Both ends are active, and were not released. -/
def Network.Active (s : Network) : Prop :=
  ∀ i, (s.endpoint i).conn.state = .active ∧ (s.endpoint i).released = false

instance : DecidablePred Network.Active := fun s =>
  inferInstanceAs (Decidable (∀ i, (s.endpoint i).conn.state = .active ∧ _))

theorem Network.Active.alive {s : Network} (h : s.Active) : s.Alive :=
  fun i => ⟨by simp [(h i).1], (h i).2⟩

/-- The number of segments pushed by an end plus the window of the other one. -/
def Network.span (s : Network) (i : Bool) : ℕ :=
  (s.endpoint i).pushed.length + (s.endpoint !i).conn.receivingWorker.windowSize.toNat

theorem Delivers.reach {conv : UInt16} {config : Bool → Config} {overhead : Bool → UInt32}
    {s : Network} {i : Bool} {C : Network → Prop}
    (hC : ∀ s, C s → (s.endpoint !i).released = false ∧ s.span i < 2 ^ 32)
    (h : (network conv config overhead).Reach C s) :
    Delivers (s.endpoint i) (s.endpoint !i) (s.sent i) := by
  refine Lts.Reach.invariant (I := fun s => Delivers (s.endpoint i) (s.endpoint !i) (s.sent i))
    (fun s hs _ => ?_) (fun s l s' _ h hl hs' => ?_) h
  · rw [(hs i).1, (hs i).2, (hs !i).1]
    exact .new ..
  · obtain ⟨j, act⟩ := l
    obtain ⟨hen, rfl⟩ := hl
    obtain ⟨hrel, hspan⟩ := hC _ hs'
    have hlen := Nat.lt_of_le_of_lt (Nat.le_add_right _ _) hspan
    rcases Bool.eq_or_eq_not j i with rfl | rfl
    · rw [Network.act_endpoint_self] at hlen
      rw [Network.act_endpoint_self, Network.act_endpoint_not, Network.act_sent_self]
      exact h.send act hlen
    · have hself := s.act_endpoint_not (!i) act
      have hsent := s.act_sent_not (!i) act
      rw [Bool.not_not] at hself hsent
      rw [hself] at hlen
      rw [Network.act_endpoint_self] at hrel
      rw [hself, hsent, Network.act_endpoint_self]
      rw [Network.Enabled, Bool.not_not] at hen
      exact h.receive hen hlen hrel

section Example

/-! ### A conversation

One end writes three bytes, of which the other reads two; the acknowledgement
is not received yet. -/

/-- The payload written. -/
def examplePayload : Buffer := .ofBytes [10, 20, 30] (by decide)

/-- The segment that carries it. -/
def exampleSegment : DataSegment := { conv := 7, payload := examplePayload }

/-- The two new connections. -/
def exampleStart : Network where
  endpoint _ := { conn := .new 7 {} 0 }
  sent _ := []

def examplePushed : Network := exampleStart.act false (.push examplePayload)
def exampleFlushed : Network := examplePushed.act false (.flushSending 0)
def exampleReceived : Network := exampleFlushed.act true (.processData exampleSegment)
def exampleAcked : Network := exampleReceived.act true (.flushReceiving 5)
def exampleRead : Network := exampleAcked.act true (.read 2)

theorem exampleRead_reach :
    (network 7 (fun _ => {}) (fun _ => 0)).Reach (fun s => s.Active ∧ s.span false < 2 ^ 32)
      exampleRead := by
  have h₀ : (network 7 (fun _ => {}) (fun _ => 0)).Reach
      (fun s => s.Active ∧ s.span false < 2 ^ 32) exampleStart :=
    .init (fun i => ⟨rfl, rfl⟩) (by decide)
  have h₁ := h₀.step (a := (false, Action.push examplePayload)) (t := examplePushed)
    ⟨trivial, rfl⟩ (by decide)
  have h₂ := h₁.step (a := (false, Action.flushSending 0)) (t := exampleFlushed)
    ⟨trivial, rfl⟩ (by decide)
  have h₃ := h₂.step (a := (true, Action.processData exampleSegment)) (t := exampleReceived)
    ⟨show Segment.data exampleSegment ∈ exampleFlushed.sent false by decide, rfl⟩ (by decide)
  have h₄ := h₃.step (a := (true, Action.flushReceiving 5)) (t := exampleAcked)
    ⟨trivial, rfl⟩ (by decide)
  exact h₄.step (a := (true, Action.read 2)) ⟨trivial, rfl⟩ (by decide)

end Example

/-- In every run of a conversation in which the numbers do not wrap around, the
    bytes handed to the reader at one end are a prefix of those pushed at the
    other. -/
theorem returned_prefix_pushed (conv : UInt16) (config : Bool → Config) (overhead : Bool → UInt32)
    (i : Bool) (s : Network)
    (h : (network conv config overhead).Reach (fun s => s.Alive ∧ s.span i < 2 ^ 32) s) :
    (s.endpoint !i).returned <+: (s.endpoint i).pushed.flatten := by
  have hd := Delivers.reach (i := i) (fun s hs => ⟨(hs.1 !i).2, hs.2⟩) h
  have htake := (List.take_prefix (s.endpoint !i).conn.receivingWorker.nextNumber.toNat
    (s.endpoint i).pushed).flatten
  rw [← hd.returned] at htake
  exact (List.prefix_append _ _).trans htake

theorem exampleRead_returned :
    (exampleRead.endpoint true).returned = [10, 20] ∧
      (exampleRead.endpoint true).returned <+: (exampleRead.endpoint false).pushed.flatten :=
  ⟨by decide, returned_prefix_pushed 7 (fun _ => {}) (fun _ => 0) false exampleRead
    (exampleRead_reach.mono fun _ h => ⟨h.1.alive, h.2⟩)⟩

/-! ## No loss -/

/-- The numbers that a segment tells were received. -/
def Segment.told : Segment → Set UInt32
  | .data _ => ∅
  | .ack seg => seg.acked
  | .cmdOnly seg => {n | n < seg.receivingNext}

namespace Endpoint

variable (e : Endpoint)

/-- The segment numbered `n` was accepted: it is in the window, or was handed to
    the reader. -/
def Accepted (n : UInt32) : Prop :=
  n < e.conn.receivingWorker.nextNumber ∨ (e.conn.receivingWorker.window.get n).isSome

/-- What a segment written tells: numbers due an acknowledgement, and those below
    the next number to be received, as it is or as a ping has read it. -/
theorem step_told {received : List Segment} {act : Action}
    (hact : e.conn.Allowed received e.pings act) {seg : Segment}
    (hseg : seg ∈ (e.conn.step act).2.map Segment.wire) {n : UInt32} (hn : n ∈ seg.told) :
    n ∈ e.conn.receivingWorker.acklist.numbers ∨
      n < e.conn.receivingWorker.nextNumber ∨ ∃ m ∈ e.pings, n < m := by
  cases act
  case ping next cmd current =>
    rw [Connection.step, List.map_singleton, List.mem_singleton] at hseg
    subst hseg
    exact .inr (.inr ⟨next, hact, hn⟩)
  case flushReceiving current =>
    obtain ⟨seg', hseg', rfl⟩ := List.mem_map.1 hseg
    obtain ⟨ack, hack, rfl⟩ := List.mem_map.1 hseg'
    obtain ⟨⟨ack', rfl⟩, hnumbers⟩ := AckList.mem_flush _
      (w := e.conn.receivingWorker.write e.conn.conv e.conn.closing) (fun _ => rfl) _ _ hack
    exact hn.elim (fun h => .inr (.inl h)) fun h => .inl (hnumbers n h)
  case flushSending current =>
    obtain ⟨seg', hseg', rfl⟩ := List.mem_map.1 hseg
    obtain ⟨data, _, rfl⟩ := List.mem_map.1 hseg'
    exact absurd hn id
  all_goals exact absurd hseg (by simp [Connection.step])

/-- A ping reads the next number to be received. -/
theorem mem_pings_step {act : Action} {m : UInt32} (hm : m ∈ (e.step act).pings) :
    m ∈ e.pings ∨ m = e.conn.receivingWorker.nextNumber := by
  cases act
  case beginPing => simpa [step] using hm
  case push b =>
    unfold step at hm
    dsimp only at hm
    split at hm <;> exact .inl hm
  all_goals exact .inl hm

end Endpoint

/-- What `b` tells `a` it received, in the segments `sent` or in those to come, it
    accepted; and what `a` does not hold any more was accepted. -/
structure Accounts (a b : Endpoint) (sent : List Segment) : Prop where
  held : ∀ n v, a.pushed[n.toNat]? = some v →
    (n, v) ∈ a.conn.sendingWorker.window.ids ∨ b.Accepted n
  due : ∀ n ∈ b.conn.receivingWorker.acklist.numbers, b.Accepted n
  told : ∀ seg ∈ sent, ∀ n ∈ seg.told, b.Accepted n
  pings : ∀ m ∈ b.pings, m ≤ b.conn.receivingWorker.nextNumber

/-- Draining the window hands the segments over. -/
theorem ReceivingWindow.Drains.accepted {w w' : ReceivingWindow} {next next' : UInt32}
    {mb : MultiBuffer} (h : w.Drains next mb w' next')
    (hw : ∀ n seg, w.get n = some seg → n.toNat + 1 < 2 ^ 32) :
    next ≤ next' ∧ ∀ n, (w.get n).isSome → n < next' ∨ (w'.get n).isSome := by
  induction h with
  | nil => exact ⟨UInt32.le_refl _, fun n hn => .inr hn⟩
  | @cons w w' next next' seg mb hseg hd ih =>
    have hlt := hw _ _ hseg
    have hsucc : (next + 1).toNat = next.toNat + 1 := by
      rw [UInt32.toNat_add]
      exact Nat.mod_eq_of_lt (by simpa using hlt)
    obtain ⟨hle, hacc⟩ := ih fun n seg' hn => by
      by_cases hne : n = next
      · rw [hne]; exact hlt
      · exact hw n seg' (by rwa [get_erase_ne w hne] at hn)
    rw [UInt32.le_iff_toNat_le, hsucc] at hle
    refine ⟨UInt32.le_iff_toNat_le.2 (by omega), fun n hn => ?_⟩
    by_cases hne : n = next
    · rw [hne]; exact .inl (UInt32.lt_iff_toNat_lt.2 (by omega))
    · exact hacc n (by rwa [get_erase_ne w hne])

namespace Accounts

variable {a b : Endpoint} {sent sent' : List Segment}

theorem new (conv : UInt16) (config config' : Config) (overhead overhead' : UInt32) :
    Accounts { conn := .new conv config overhead } { conn := .new conv config' overhead' } [] :=
  ⟨by simp, by simp [Connection.new, ReceivingWorker.new], by simp, by simp⟩

/-- An action of the sender drops accepted segments only. -/
theorem send (h : Accounts a b sent) (hd : Delivers a b sent') {act : Action}
    (hact : ∀ p ∈ a.conn.sendingWorker.window.ids, p.1 ∈ act.acked → b.Accepted p.1) :
    Accounts (a.step act) b sent := by
  refine ⟨fun n v hv => ?_, h.due, h.told, h.pings⟩
  rcases a.step_sending act with ⟨buf, hp, _, hids⟩ | ⟨hp, hr⟩
  · rw [hp] at hv
    rw [hids]
    rcases Nat.lt_or_ge n.toNat a.pushed.length with hlt | hge
    · rw [List.getElem?_append_left hlt] at hv
      exact (h.held n v hv).imp_left (List.mem_append_left _)
    · have hn : n.toNat = a.pushed.length := by
        obtain ⟨hlt, _⟩ := List.getElem?_eq_some_iff.1 hv
        rw [List.length_append, List.length_singleton] at hlt
        omega
      rw [hn, List.getElem?_concat_length] at hv
      cases hv
      rw [UInt32.toNat_inj.1 (hn.trans hd.next.symm)]
      exact .inl (List.mem_append_right _ (List.mem_singleton_self _))
  · rw [hp] at hv
    rcases h.held n v hv with hmem | hacc
    · exact (hr.mem_or _ hmem).imp_right (hact _ hmem)
    · exact .inr hacc

/-- An action of the receiver withdraws no acceptance, and tells of accepted
    segments only. -/
theorem receive (h : Accounts a b sent) (hd : Delivers a b sent')
    (hlen : a.pushed.length < 2 ^ 32) {act : Action} {received : List Segment}
    (hact : b.conn.Allowed received b.pings act) (hrel : (b.step act).released = false) :
    Accounts a (b.step act) (sent ++ (b.conn.step act).2.map Segment.wire) := by
  have hle : b.conn.receivingWorker.nextNumber ≤ (b.step act).conn.receivingWorker.nextNumber ∧
      (∀ n, b.Accepted n → (b.step act).Accepted n) ∧
      ∀ n ∈ (b.step act).conn.receivingWorker.acklist.numbers, (b.step act).Accepted n := by
    rcases b.step_receiving act with ⟨seg, rfl, hw, _⟩ | ⟨mb, hdr, _, hsub⟩ | hr
    · obtain ⟨hn, _, _⟩ := b.conn.receivingWorker.processSegment_frame seg
      have hmono : ∀ n, b.Accepted n → (b.step (.processData seg)).Accepted n := fun n hn' => by
        unfold Endpoint.Accepted at hn' ⊢
        rw [hw, hn, ReceivingWorker.processSegment_get]
        exact hn'.imp_right fun hs => by split <;> simp [hs]
      refine ⟨by rw [hw, hn]; exact UInt32.le_refl _, hmono, fun n hmem => ?_⟩
      rw [hw] at hmem
      rcases b.conn.receivingWorker.processSegment_numbers seg hmem with hmem | ⟨_, hs⟩
      · exact hmono n (h.due n hmem)
      · exact .inr (by rw [hw]; exact hs)
    · obtain ⟨hle, hacc⟩ := hdr.accepted fun n seg hseg => by
        obtain ⟨hlt, _⟩ := List.getElem?_eq_some_iff.1 (hd.cached n seg hseg)
        omega
      have hmono : ∀ n, b.Accepted n → (b.step act).Accepted n := fun n hn =>
        hn.elim (fun hn => .inl (UInt32.lt_of_lt_of_le hn hle)) (hacc n)
      exact ⟨hle, hmono, fun n hn => hmono n (h.due n (hsub hn))⟩
    · rw [hr] at hrel; cases hrel
  obtain ⟨hnext, hmono, hdue⟩ := hle
  refine ⟨fun n v hv => (h.held n v hv).imp_right (hmono n), hdue, fun seg hseg n hn => ?_,
    fun m hm => ?_⟩
  · rcases List.mem_append.1 hseg with hseg | hseg
    · exact hmono n (h.told seg hseg n hn)
    · rcases b.step_told hact hseg hn with hn | hn | ⟨m, hm, hn⟩
      · exact hmono n (h.due n hn)
      · exact hmono n (.inl hn)
      · exact hmono n (.inl (UInt32.lt_of_lt_of_le hn (h.pings m hm)))
  · rcases b.mem_pings_step hm with hm | rfl
    · exact UInt32.le_trans (h.pings m hm) hnext
    · exact hnext

end Accounts

/-- An active end is told only of numbers that were received. -/
theorem Accounts.accepted_of_acked {a b : Endpoint} {sent : List Segment} (h : Accounts a b sent)
    {act : Action} (hact : a.conn.Allowed sent a.pings act) (hstate : a.conn.state = .active)
    (hrel : (a.step act).released = false) {n : UInt32} (hn : n ∈ act.acked) : b.Accepted n := by
  cases act
  case processAck seg _ => exact h.told _ hact n hn
  case processReceivingNext seg => exact h.told _ hact n hn
  case closeWrite => exact absurd hstate hact
  case release => cases hrel
  all_goals exact absurd hn id

theorem Accounts.reach {conv : UInt16} {config : Bool → Config} {overhead : Bool → UInt32}
    {s : Network} {i : Bool}
    (h : (network conv config overhead).Reach (fun s => s.Active ∧ s.span i < 2 ^ 32) s) :
    Accounts (s.endpoint i) (s.endpoint !i) (s.sent !i) := by
  induction h with
  | init hs _ =>
    rw [(hs i).1, (hs !i).1, (hs !i).2]
    exact .new ..
  | @step s s' l hr hl hC hacc =>
    have hdel := Delivers.reach (i := i) (fun s hs => ⟨(hs.1 !i).2, hs.2⟩) hr
    obtain ⟨hactive, hspan⟩ := hr.within
    obtain ⟨j, act⟩ := l
    obtain ⟨hen, rfl⟩ := hl
    rcases Bool.eq_or_eq_not j i with rfl | rfl
    · have hrel := (hC.1 j).2
      rw [Network.act_endpoint_self] at hrel
      rw [Network.act_endpoint_self, Network.act_endpoint_not, Network.act_sent_not]
      exact hacc.send hdel fun p _ hn => hacc.accepted_of_acked hen (hactive j).1 hrel hn
    · have hself := s.act_endpoint_not (!i) act
      have hrel := (hC.1 !i).2
      rw [Bool.not_not] at hself
      rw [Network.act_endpoint_self] at hrel
      rw [hself, Network.act_endpoint_self, Network.act_sent_self]
      exact hacc.receive hdel (Nat.lt_of_le_of_lt (Nat.le_add_right _ _) hspan) hen hrel

/-- In every run of a conversation between two active ends in which the numbers
    do not wrap around, every segment pushed is held by the sender or was
    accepted by the receiver: its payload is in the window of the receiver, or
    among those handed to the reader. What the receiver has told was received
    was accepted, and no action of the sender drops anything else. -/
theorem pushed_held_or_accepted (conv : UInt16) (config : Bool → Config)
    (overhead : Bool → UInt32) (i : Bool) (s : Network)
    (h : (network conv config overhead).Reach (fun s => s.Active ∧ s.span i < 2 ^ 32) s) :
    let a := s.endpoint i
    let b := s.endpoint !i
    (∀ (k : ℕ) (payload : Bytes), a.pushed[k]? = some payload →
      (UInt32.ofNat k, payload) ∈ a.conn.sendingWorker.window.ids ∨
      (∃ seg, b.conn.receivingWorker.window.get (UInt32.ofNat k) = some seg ∧
        seg.payload.bytes = payload) ∨
      k < b.conn.receivingWorker.nextNumber.toNat) ∧
    b.returned ++ b.leftOver =
      (a.pushed.take b.conn.receivingWorker.nextNumber.toNat).flatten ∧
    (∀ seg ∈ s.sent !i, ∀ n ∈ seg.told, b.Accepted n) ∧
    ∀ act, s.Enabled i act → act ≠ .release → ∀ p ∈ a.conn.sendingWorker.window.ids,
      p ∈ (a.step act).conn.sendingWorker.window.ids ∨ b.Accepted p.1 := by
  have hacc := Accounts.reach h
  have hdel := Delivers.reach (i := i) (fun s hs => ⟨(hs.1 !i).2, hs.2⟩) h
  obtain ⟨hactive, hspan⟩ := h.within
  refine ⟨fun k payload hk => ?_, hdel.returned, hacc.told, fun act hen hne p hp => ?_⟩
  · obtain ⟨hlt, _⟩ := List.getElem?_eq_some_iff.1 hk
    have hk' : (UInt32.ofNat k).toNat = k := UInt32.toNat_ofNat_of_lt'
      (lt_trans hlt (Nat.lt_of_le_of_lt (Nat.le_add_right _ _) hspan))
    rcases hacc.held (UInt32.ofNat k) payload (by rwa [hk']) with hmem | hlt' | hget
    · exact .inl hmem
    · exact .inr (.inr (by rwa [UInt32.lt_iff_toNat_lt, hk'] at hlt'))
    · obtain ⟨seg, hseg⟩ := Option.isSome_iff_exists.1 hget
      have hpay := hdel.cached _ seg hseg
      rw [hk', hk] at hpay
      exact .inr (.inl ⟨seg, hseg, (Option.some.inj hpay).symm⟩)
  · have hrel : ((s.endpoint i).step act).released = false := by
      have hold := (hactive i).2
      cases act
      case release => exact absurd rfl hne
      case push b =>
        unfold Endpoint.step
        dsimp only
        split <;> exact hold
      all_goals exact hold
    rcases (s.endpoint i).step_sending act with ⟨_, _, _, hids⟩ | ⟨_, hr⟩
    · rw [hids]; exact .inl (List.mem_append_left _ hp)
    · exact (hr.mem_or p hp).imp_right fun hn =>
        hacc.accepted_of_acked hen (hactive i).1 hrel hn

theorem exampleRead_accepted :
    (exampleRead.sent true).length = 1 ∧
      ∀ seg ∈ exampleRead.sent true, ∀ n ∈ seg.told, (exampleRead.endpoint true).Accepted n :=
  ⟨by decide, (pushed_held_or_accepted 7 (fun _ => {}) (fun _ => 0) false exampleRead
    exampleRead_reach).2.2.1⟩

end Gzv2ray.Kcp
