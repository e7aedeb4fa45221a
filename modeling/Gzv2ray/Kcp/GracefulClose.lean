import Gzv2ray.Kcp.Closing
import Gzv2ray.Kcp.Delivery

/-!
# Nothing is lost in closing a KCP connection

A connection is terminating only once its window is empty, so that all payloads
pushed were accepted by the other end. The reader, though, looks at the state after
it took what there was: what came in between is not taken any more.

* `Session.Ordered`: what is known of a session, whatever it does;
* `eof_after_all`: where no termination is processed at that point with a segment
  available, the end of the file is reported after all bytes pushed;
* `eof_before_all`: otherwise it can be reported before them.
-/

namespace Gzv2ray.Kcp

open Connection (Action)

/-! ## What a read leaves -/

namespace ReceivingWorker

variable (w : ReceivingWorker)

/-- A read that is long enough stops at a number that is not there. -/
theorem readLoop_get {fuel : ℕ} {window : ReceivingWindow} (next : UInt32)
    (h : window.cache.entries.length ≤ fuel) :
    (readLoop fuel window next).1.get (readLoop fuel window next).2.1 = none := by
  induction fuel generalizing window next with
  | zero =>
    rw [readLoop, ReceivingWindow.get, AList.lookup_eq_none, AList.mem_keys, AList.keys,
      List.length_eq_zero_iff.1 (Nat.le_zero.1 h)]
    exact List.not_mem_nil
  | succ fuel ih =>
    rw [readLoop, ReceivingWindow.remove]
    cases hget : window.get next with
    | none => exact hget
    | some seg =>
      refine ih _ ?_
      have hmem : next ∈ window.cache.entries.keys := by
        rw [← AList.keys, ← AList.mem_keys, ← AList.lookup_isSome, ← ReceivingWindow.get, hget]
        rfl
      have hkeys := congrArg List.length (List.keys_kerase (a := next) (l := window.cache.entries))
      rw [List.length_erase_of_mem hmem] at hkeys
      simp only [List.keys, List.length_map] at hkeys
      change (window.cache.entries.kerase next).length ≤ fuel
      omega

/-- After a read that takes nothing, there is nothing to take. -/
theorem isDataAvailable_of_readMultiBuffer
    (hleft : ∀ mb, w.leftOver = some mb → MultiBuffer.isEmpty mb = false)
    (h : MultiBuffer.isEmpty w.readMultiBuffer.2 = true) :
    w.readMultiBuffer.1.isDataAvailable = false := by
  unfold readMultiBuffer at h ⊢
  cases hl : w.leftOver with
  | some mb =>
    rw [hl] at h
    exact absurd h (by rw [hleft mb hl]; exact Bool.false_ne_true)
  | none =>
    dsimp only
    rw [isDataAvailable, ReceivingWindow.has, readLoop_get _ le_rfl]
    rfl

/-- What is left over is not empty. -/
theorem read_leftOver {n : ℕ} {mb : MultiBuffer} (h : (w.read n).1.leftOver = some mb) :
    MultiBuffer.isEmpty mb = false := by
  have hnone := w.readMultiBuffer_leftOver
  unfold read at h
  generalize w.readMultiBuffer = r at h hnone
  obtain ⟨w', taken⟩ := r
  dsimp only at h hnone
  split at h
  · rw [hnone] at h
    cases h
  · dsimp only at h
    split at h
    · rw [hnone] at h
      cases h
    · rename_i hrest
      cases h
      exact Bool.eq_false_of_not_eq_true hrest

end ReceivingWorker

/-! ## What an action does to the state -/

theorem Endpoint.step_state (e : Endpoint) {a : Action} (h : ∀ state current, a ≠ .storeState state current) :
    (e.step a).conn.state = e.conn.state := by
  rw [step_conn]
  cases a
  case storeState state current => exact absurd rfl (h state current)
  all_goals rfl

/-! ## What is known of a session -/

theorem Endpoint.step_released (e : Endpoint) {a : Action} (h : a ≠ .release) :
    (e.step a).released = e.released := by
  cases a
  case release => exact absurd rfl h
  case push b =>
    unfold step
    dsimp only
    split <;> rfl
  all_goals rfl

/-- Only a ping writes a termination. -/
theorem Endpoint.terminates_step (e : Endpoint) {a : Action} {seg : Segment}
    (hseg : seg ∈ (e.conn.step a).2.map Segment.wire) (h : seg.Terminates) :
    ∃ next current, a = .ping next commandTerminate current := by
  cases a
  case ping next cmd current =>
    rw [Connection.step, List.map_singleton, List.mem_singleton] at hseg
    rw [hseg] at h
    exact ⟨next, current, congrArg (Action.ping next · current) h⟩
  case flushSending current =>
    obtain ⟨_, hseg', rfl⟩ := List.mem_map.1 hseg
    obtain ⟨_, -, rfl⟩ := List.mem_map.1 hseg'
    exact absurd h id
  case flushReceiving current =>
    obtain ⟨_, hseg', rfl⟩ := List.mem_map.1 hseg
    obtain ⟨_, -, rfl⟩ := List.mem_map.1 hseg'
    exact absurd h id
  all_goals exact absurd hseg List.not_mem_nil

/-- Unless the end is closing, no segment that it writes announces it. -/
theorem Endpoint.option_step (e : Endpoint) {a : Action} (h : e.conn.closing = false) {seg : Segment}
    (hseg : seg ∈ (e.conn.step a).2.map Segment.wire) : seg.option = 0 := by
  cases a
  case ping next cmd current =>
    rw [Connection.step, List.map_singleton, List.mem_singleton] at hseg
    rw [hseg]
    change (if e.conn.closing then segmentOptionClose else 0) = 0
    rw [h]
    rfl
  case flushSending current =>
    rw [Connection.step, h] at hseg
    obtain ⟨_, hseg', rfl⟩ := List.mem_map.1 hseg
    obtain ⟨_, hdata, rfl⟩ := List.mem_map.1 hseg'
    have hoption := SendingWorker.option_of_mem_flush _ hdata
    exact hoption
  case flushReceiving current =>
    rw [Connection.step, h] at hseg
    obtain ⟨_, hseg', rfl⟩ := List.mem_map.1 hseg
    obtain ⟨_, hack, rfl⟩ := List.mem_map.1 hseg'
    obtain ⟨⟨_, rfl⟩, -⟩ := AckList.mem_flush _
      (w := e.conn.receivingWorker.write e.conn.conv false) (fun _ => rfl) _ _ hack
    rfl
  all_goals exact absurd hseg List.not_mem_nil

theorem Endpoint.step_returned (e : Endpoint) (a : Action) : e.returned <+: (e.step a).returned := by
  cases a
  case push b =>
    unfold step
    dsimp only
    split <;> exact List.prefix_rfl
  case readMultiBuffer => exact List.prefix_append _ _
  case read n => exact List.prefix_append _ _
  all_goals exact List.prefix_rfl

namespace Session

/-- What is known of a session: the payloads are delivered and accounted for, the writer
    is terminating only with an empty window, and the reader is not closed. -/
structure Ordered (s : Session) : Prop where
  delivers : Delivers s.sender s.receiver (s.net.sent false)
  accounts : Accounts s.sender s.receiver (s.net.sent true)
  released : s.sender.released = false ∧ s.receiver.released = false
  sender : s.sender.conn.state = .active ∨ s.closed = true ∧ (s.sender.conn.state = .readyToClose ∨
    s.sender.conn.state = .terminating ∧ s.sender.conn.sendingWorker.window.ids = [])
  receiver : s.receiver.conn.state = .active ∨ s.receiver.conn.state = .peerClosed ∨
    s.receiver.conn.state = .peerTerminating
  quiet : ∀ seg ∈ s.net.sent true, ¬ seg.Announces ∧ ¬ seg.Terminates
  terminates : ∀ seg ∈ s.net.sent false, seg.Terminates → s.sender.conn.state = .terminating
  peerTerminating : s.receiver.conn.state = .peerTerminating → s.sender.conn.state = .terminating
  leftOver : ∀ mb, s.receiver.conn.receivingWorker.leftOver = some mb → MultiBuffer.isEmpty mb = false
  took : s.reading = .took → s.receiver.conn.receivingWorker.leftOver = none ∧
    (s.receiver.conn.state = .peerTerminating →
      s.receiver.conn.receivingWorker.isDataAvailable = false)
  eof : s.eof = true → s.sender.conn.state = .terminating ∧
    s.sender.pushed.flatten <+: s.receiver.returned

variable {s : Session}

theorem Ordered.new {net : Network} {conv : UInt16} {config config' : Config} {overhead overhead' : UInt32}
    (hsender : net.endpoint false = { conn := .new conv config overhead })
    (hreceiver : net.endpoint true = { conn := .new conv config' overhead' })
    (hsent : net.sent false = []) (hsent' : net.sent true = []) : Ordered { net } := by
  have hreleased : (net.endpoint false).released = false ∧ (net.endpoint true).released = false := by
    rw [hsender, hreceiver]
    exact ⟨rfl, rfl⟩
  have hstate : (net.endpoint false).conn.state = .active ∧ (net.endpoint true).conn.state = .active := by
    rw [hsender, hreceiver]
    exact ⟨rfl, rfl⟩
  refine ⟨?_, ?_, hreleased, .inl hstate.1, .inl hstate.2, ?_, ?_, fun h => ?_, fun mb h => ?_, fun h => ?_,
    fun h => ?_⟩
  · rw [Session.sender, Session.receiver, hsender, hreceiver, hsent]
    exact .new ..
  · rw [Session.sender, Session.receiver, hsender, hreceiver, hsent']
    exact .new ..
  · rw [hsent']
    exact fun _ h => absurd h List.not_mem_nil
  · rw [hsent]
    exact fun _ h => absurd h List.not_mem_nil
  · cases hstate.2.symm.trans h
  · rw [Session.receiver, hreceiver] at h
    cases h
  · cases h
  · cases h

/-- Once the writer is terminating, all that it pushed was accepted. -/
theorem Ordered.accepted (h : s.Ordered) (hs : s.sender.conn.state = .terminating) {n : UInt32}
    (hn : n.toNat < s.sender.pushed.length) : s.receiver.Accepted n := by
  have hwindow : s.sender.conn.sendingWorker.window.ids = [] := by
    rcases h.sender with h | ⟨-, h | h⟩
    · rw [hs] at h
      cases h
    · rw [hs] at h
      cases h
    · exact h.2
  rcases h.accounts.held n _ (List.getElem?_eq_getElem hn) with hmem | hacc
  · rw [hwindow] at hmem
    exact absurd hmem List.not_mem_nil
  · exact hacc

/-- Once the writer is terminating and no segment is available, all of them were read. -/
theorem Ordered.read_all (h : s.Ordered) (hs : s.sender.conn.state = .terminating)
    (havail : s.receiver.conn.receivingWorker.isDataAvailable = false)
    (hleft : s.receiver.conn.receivingWorker.leftOver = none) :
    s.receiver.returned = s.sender.pushed.flatten := by
  have hreturned := h.delivers.returned
  rw [Endpoint.leftOver, hleft, Option.elim_none, List.append_nil] at hreturned
  rw [hreturned, List.take_of_length_le]
  by_contra hlt
  rcases h.accepted hs (not_le.1 hlt) with hn | hn
  · exact absurd hn (UInt32.lt_irrefl _)
  · rw [ReceivingWorker.isDataAvailable, ReceivingWindow.has] at havail
    rw [havail] at hn
    cases hn

/-- The writer can enter one state only, with nothing left to be acknowledged. -/
theorem Ordered.enters_sender (h : s.Ordered) {state : State} (hs : s.Enters false state) :
    state = .terminating ∧ s.closed = true ∧ s.sender.conn.sendingWorker.window.ids = [] := by
  have hannounced : ¬ s.Announced false := fun ⟨seg, hseg, ha⟩ => (h.quiet seg hseg).1 ha
  have htold : ¬ s.Told false := fun ⟨seg, hseg, ht⟩ => (h.quiet seg hseg).2 ht
  cases state
  case peerClosed => exact absurd hs hannounced
  case terminating =>
    obtain ⟨⟨-, hclosed⟩, hempty | ha | ht⟩ := hs
    · exact ⟨rfl, hclosed, List.map_eq_nil_iff.2 (List.isEmpty_iff.1 hempty)⟩
    · exact absurd ha hannounced
    · exact absurd ht htold
  case peerTerminating => exact absurd hs htold
  case terminated => exact absurd hs.2 htold
  all_goals exact absurd hs id

theorem Ordered.enters_receiver (h : s.Ordered) {state : State} (hs : s.Enters true state) :
    state = .peerClosed ∨ state = .peerTerminating ∧ s.sender.conn.state = .terminating := by
  cases state
  case peerClosed => exact .inl rfl
  case peerTerminating =>
    obtain ⟨seg, hseg, ht⟩ := hs
    exact .inr ⟨rfl, h.terminates seg hseg ht⟩
  case terminating => exact absurd hs.1.1 (by decide)
  case terminated => exact absurd hs.1.1 (by decide)
  all_goals exact absurd hs id

/-! ## The writer -/

/-- Once terminating, the writer drops nothing and pushes nothing. -/
theorem ids_step {a : Action} (ha : s.Permits false a) (hclosed : s.closed = true)
    (hids : s.sender.conn.sendingWorker.window.ids = []) :
    (s.sender.step a).conn.sendingWorker.window.ids = [] ∧ (s.sender.step a).pushed = s.sender.pushed := by
  rcases s.sender.step_sending a with ⟨b, hpushed, -⟩ | ⟨hpushed, hr⟩
  · cases a
    case push b =>
      cases hclosed.symm.trans ha.2
    all_goals exact absurd hpushed (by simp [Endpoint.step])
  · exact ⟨List.subset_nil.1 (hids ▸ hr.subset), hpushed⟩

section

variable {a : Action} (h : s.Ordered) (ha : s.Permits false a)
include h ha

/-- What an action makes of the state of the writer. -/
theorem Ordered.sender_step :
    (s.sender.step a).conn.state = s.sender.conn.state ∨
      (s.sender.step a).conn.state = .terminating ∧ s.closed = true ∧
        s.sender.conn.sendingWorker.window.ids = [] := by
  cases a
  case storeState state current =>
    obtain ⟨rfl, hrest⟩ := h.enters_sender ha
    exact .inr ⟨rfl, hrest⟩
  all_goals exact .inl (Endpoint.step_state _ (by intro _ _ h; cases h))

/-- What the writer drops was accepted. -/
theorem Ordered.dropped (hen : s.net.Enabled false a) :
    ∀ p ∈ s.sender.conn.sendingWorker.window.ids, p.1 ∈ a.acked → s.receiver.Accepted p.1 := by
  intro p hp hacked
  cases a
  case processAck seg _ => exact h.accounts.told _ hen _ hacked
  case processReceivingNext seg => exact h.accounts.told _ hen _ hacked
  case closeWrite =>
    rcases h.sender with hs | ⟨-, hs | ⟨-, hids⟩⟩
    · exact absurd hs ha.1
    · exact absurd hs ha.2
    · rw [hids] at hp
      exact absurd hp List.not_mem_nil
  case release =>
    rcases h.sender with hs | ⟨-, hs | ⟨hs, -⟩⟩ <;> cases hs.symm.trans ha
  all_goals exact absurd hacked id

theorem Ordered.send (hen : s.net.Enabled false a)
    (hlen : (s.sender.step a).pushed.length < 2 ^ 32) : Ordered { s with net := s.net.act false a } := by
  have hterm : s.sender.conn.state = .terminating → (s.sender.step a).conn.state = .terminating := by
    intro hs
    rcases h.sender_step ha with heq | ⟨heq, -⟩
    · exact heq.trans hs
    · exact heq
  have hsender : s.sender.conn.state = .terminating →
      s.closed = true ∧ s.sender.conn.sendingWorker.window.ids = [] := by
    intro hs
    rcases h.sender with hs' | ⟨hclosed, hs' | ⟨-, hids⟩⟩
    · cases hs.symm.trans hs'
    · cases hs.symm.trans hs'
    · exact ⟨hclosed, hids⟩
  have hrelease : a ≠ .release := by
    rintro rfl
    rcases h.sender with hs | ⟨-, hs | ⟨hs, -⟩⟩ <;> cases hs.symm.trans ha
  refine ⟨h.delivers.send a hlen, h.accounts.send h.delivers (h.dropped ha hen),
    ⟨(Endpoint.step_released _ hrelease).trans h.released.1, h.released.2⟩,
    ?_, h.receiver, h.quiet, fun seg hseg ht => ?_, fun hs => hterm (h.peerTerminating hs), h.leftOver,
    h.took, fun heof => ?_⟩
  · rcases h.sender_step ha with heq | ⟨heq, hclosed, hids⟩
    · rcases h.sender with hs | ⟨hclosed, hs | ⟨hs, hids⟩⟩
      · exact .inl (heq.trans hs)
      · exact .inr ⟨hclosed, .inl (heq.trans hs)⟩
      · exact .inr ⟨hclosed, .inr ⟨heq.trans hs, (ids_step ha hclosed hids).1⟩⟩
    · exact .inr ⟨hclosed, .inr ⟨heq, (ids_step ha hclosed hids).1⟩⟩
  · rcases List.mem_append.1 hseg with hseg | hseg
    · exact hterm (h.terminates seg hseg ht)
    · obtain ⟨next, current, rfl⟩ := s.sender.terminates_step hseg ht
      rcases ha rfl with hs | hs
      · exact hs
      · rcases h.sender with hs' | ⟨-, hs' | ⟨hs', -⟩⟩ <;> cases hs.symm.trans hs'
  · obtain ⟨hs, hread⟩ := h.eof heof
    obtain ⟨hclosed, hids⟩ := hsender hs
    refine ⟨hterm hs, ?_⟩
    change (s.sender.step a).pushed.flatten <+: s.receiver.returned
    rwa [(ids_step ha hclosed hids).2]

end

/-! ## The reader -/

/-- What an action of the reader makes of a session, but for what it makes of its own state. -/
structure Ordered.Received (s : Session) (a : Action) : Prop where
  delivers : Delivers s.sender (s.receiver.step a) (s.net.sent false)
  accounts : Accounts s.sender (s.receiver.step a)
    (s.net.sent true ++ (s.receiver.conn.step a).2.map Segment.wire)
  released : (s.receiver.step a).released = false
  quiet : ∀ seg ∈ s.net.sent true ++ (s.receiver.conn.step a).2.map Segment.wire,
    ¬ seg.Announces ∧ ¬ seg.Terminates
  eof : s.eof = true → s.sender.conn.state = .terminating ∧
    s.sender.pushed.flatten <+: (s.receiver.step a).returned

/-- The reader never closes its connection. -/
theorem Ordered.not_closed (h : s.Ordered) :
    s.receiver.conn.state ≠ .terminating ∧ s.receiver.conn.state ≠ .terminated ∧
      s.receiver.conn.closing = false ∧ s.receiver.conn.readClosed = false := by
  rw [Connection.closing, Connection.readClosed]
  rcases h.receiver with hs | hs | hs <;> rw [hs] <;> decide

theorem Ordered.received (h : s.Ordered) {a : Action} (hen : s.net.Enabled true a)
    (hping : ∀ next current, a ≠ .ping next commandTerminate current) (hrelease : a ≠ .release)
    (hlen : s.sender.pushed.length < 2 ^ 32) : Ordered.Received s a := by
  have hreleased : (s.receiver.step a).released = false :=
    (Endpoint.step_released _ hrelease).trans h.released.2
  refine ⟨h.delivers.receive hen hlen hreleased, h.accounts.receive h.delivers hlen hen hreleased,
    hreleased, fun seg hseg => ?_, fun heof => ?_⟩
  · rcases List.mem_append.1 hseg with hseg | hseg
    · exact h.quiet seg hseg
    · refine ⟨fun ha => ?_, fun ht => ?_⟩
      · rw [Segment.Announces, s.receiver.option_step h.not_closed.2.2.1 hseg] at ha
        exact absurd ha (by decide)
      · obtain ⟨next, current, rfl⟩ := s.receiver.terminates_step hseg ht
        exact hping next current rfl
  · exact ⟨(h.eof heof).1, (h.eof heof).2.trans (s.receiver.step_returned a)⟩

/-- A segment that was pushed is not added to a window that has all of them. -/
theorem Ordered.not_available (h : s.Ordered) {seg : DataSegment}
    (hseg : Segment.data seg ∈ s.net.sent false) (hs : s.sender.conn.state = .terminating)
    (havail : s.receiver.conn.receivingWorker.isDataAvailable = false) :
    (s.receiver.conn.receivingWorker.processSegment seg).isDataAvailable = false := by
  rw [ReceivingWorker.isDataAvailable, ReceivingWindow.has] at havail ⊢
  rw [(s.receiver.conn.receivingWorker.processSegment_frame seg).1,
    ReceivingWorker.processSegment_get, if_neg]
  · exact havail
  · rintro ⟨hnext, hnone, -⟩
    obtain ⟨hlt, -⟩ := List.getElem?_eq_some_iff.1 (h.delivers.sent seg hseg)
    rcases h.accepted hs (hnext ▸ hlt) with hn | hn
    · exact absurd hn (UInt32.lt_irrefl _)
    · rw [hnone] at hn
      cases hn

/-- Only a read, or the release of the workers, changes what is left over. -/
theorem step_leftOver {a : Action} (ha : s.Permits true a) (hrelease : a ≠ .release) :
    (s.receiver.step a).conn.receivingWorker.leftOver = s.receiver.conn.receivingWorker.leftOver := by
  rw [Endpoint.step_conn]
  cases a
  case processData seg => exact (s.receiver.conn.receivingWorker.processSegment_frame seg).2.1
  case readMultiBuffer => exact absurd ha id
  case read => exact absurd ha id
  case release => exact absurd rfl hrelease
  all_goals rfl

/-- An action of the reader keeps what is known, if it does not enter `peerTerminating`
    with a segment available that was not there when it took nothing. -/
theorem Ordered.receive (h : s.Ordered) {a : Action} (ha : s.Permits true a)
    (hen : s.net.Enabled true a) (hlen : s.sender.pushed.length < 2 ^ 32)
    (hcareful : ∀ current, a = .storeState .peerTerminating current → s.reading = .took →
      s.receiver.conn.receivingWorker.isDataAvailable = false) :
    Ordered { s with net := s.net.act true a } := by
  have hrelease : a ≠ .release := by
    rintro rfl
    exact h.not_closed.2.1 ha
  have hr : Ordered.Received s a := by
    refine h.received hen ?_ hrelease hlen
    rintro next current rfl
    exact (ha rfl).elim h.not_closed.1 h.not_closed.2.1
  have hstate : (s.receiver.step a).conn.state = s.receiver.conn.state ∨
      (s.receiver.step a).conn.state = .peerClosed ∨
        (s.receiver.step a).conn.state = .peerTerminating ∧ s.sender.conn.state = .terminating ∧
          (s.reading = .took → s.receiver.conn.receivingWorker.isDataAvailable = false) := by
    cases a
    case storeState state current =>
      rcases h.enters_receiver ha with rfl | ⟨rfl, hs⟩
      · exact .inr (.inl rfl)
      · exact .inr (.inr ⟨rfl, hs, hcareful current rfl⟩)
    all_goals exact .inl (Endpoint.step_state _ (by intro _ _ h; cases h))
  have havail (hs : s.sender.conn.state = .terminating)
      (hold : s.receiver.conn.receivingWorker.isDataAvailable = false) :
      (s.receiver.step a).conn.receivingWorker.isDataAvailable = false := by
    rw [Endpoint.step_conn]
    cases a
    case processData seg => exact h.not_available hen hs hold
    case readMultiBuffer => exact absurd ha id
    case read => exact absurd ha id
    all_goals exact hold
  have hleft := step_leftOver ha hrelease
  refine ⟨hr.delivers, hr.accounts, ⟨h.released.1, hr.released⟩, h.sender, ?_, hr.quiet, h.terminates,
    fun hs => ?_, fun mb hmb => h.leftOver mb (hleft.symm.trans hmb),
    fun hreading => ⟨hleft.trans (h.took hreading).1, fun hs => ?_⟩, hr.eof⟩
  · rcases hstate with hstate | hstate | ⟨hstate, -⟩
    · exact h.receiver.imp hstate.trans (Or.imp hstate.trans hstate.trans)
    · exact .inr (.inl hstate)
    · exact .inr (.inr hstate)
  · rcases hstate with hstate | hstate | ⟨-, hterm, -⟩
    · exact h.peerTerminating (hstate.symm.trans hs)
    · cases hstate.symm.trans hs
    · exact hterm
  · rcases hstate with hstate | hstate | ⟨-, hterm, hold⟩
    · have hold := hstate.symm.trans hs
      exact havail (h.peerTerminating hold) ((h.took hreading).2 hold)
    · cases hstate.symm.trans hs
    · exact havail hterm (hold hreading)

/-- Taking what there is keeps what is known. -/
theorem Ordered.take (h : s.Ordered) (hlen : s.sender.pushed.length < 2 ^ 32) :
    (s.step .take).Ordered := by
  have hr : Ordered.Received s .readMultiBuffer :=
    h.received trivial (by intro _ _ h; cases h) (by intro h; cases h) hlen
  have hnone := s.receiver.conn.receivingWorker.readMultiBuffer_leftOver
  refine ⟨hr.delivers, hr.accounts, ⟨h.released.1, hr.released⟩, h.sender, h.receiver, hr.quiet,
    h.terminates, h.peerTerminating, fun mb hmb => ?_, fun hreading => ⟨hnone, fun _ => ?_⟩, hr.eof⟩
  · cases hnone.symm.trans hmb
  · have hempty : MultiBuffer.isEmpty s.receiver.conn.receivingWorker.readMultiBuffer.2 = true := by
      by_contra hne
      rw [step, if_neg hne] at hreading
      cases hreading
    exact s.receiver.conn.receivingWorker.isDataAvailable_of_readMultiBuffer h.leftOver hempty

theorem Ordered.takeBytes (h : s.Ordered) (n : ℕ) (hlen : s.sender.pushed.length < 2 ^ 32) :
    (s.step (.takeBytes n)).Ordered := by
  have hr : Ordered.Received s (.read n) :=
    h.received trivial (by intro _ _ h; cases h) (by intro h; cases h) hlen
  refine ⟨hr.delivers, hr.accounts, ⟨h.released.1, hr.released⟩, h.sender, h.receiver, hr.quiet,
    h.terminates, h.peerTerminating, fun mb hmb => ReceivingWorker.read_leftOver _ hmb,
    fun hreading => ?_, hr.eof⟩
  cases hreading

/-- Looking at the state again keeps what is known. -/
theorem Ordered.lookAgain (h : s.Ordered) (hs : s.reading = .took) : (s.step .lookAgain).Ordered := by
  refine ⟨h.delivers, h.accounts, h.released, h.sender, h.receiver, h.quiet, h.terminates,
    h.peerTerminating, h.leftOver, fun hreading => (by cases hreading), fun heof => ?_⟩
  rcases Bool.or_eq_true_iff.1 heof with heof | hstate
  · exact h.eof heof
  · obtain ⟨hleft, havail⟩ := h.took hs
    have hpeer := eq_of_beq hstate
    have hterm := h.peerTerminating hpeer
    refine ⟨hterm, ?_⟩
    change s.sender.pushed.flatten <+: s.receiver.returned
    rw [h.read_all hterm (havail hpeer) hleft]

/-- Closing the connection keeps what is known. -/
theorem Ordered.close (h : s.Ordered) (current : UInt32) (hactive : s.sender.conn.state = .active)
    (hlen : s.sender.pushed.length < 2 ^ 32) : (s.step (.close current)).Ordered := by
  have hne : s.sender.conn.state ≠ .terminating := by rw [hactive]; decide
  have haccounts : Accounts (s.sender.step (.storeState .readyToClose current)) s.receiver
      (s.net.sent true) := h.accounts.send h.delivers fun _ _ hn => absurd hn id
  refine ⟨h.delivers.send (.storeState .readyToClose current) hlen, haccounts, h.released,
    .inr ⟨rfl, .inl rfl⟩, h.receiver, h.quiet, fun seg hseg ht => ?_, fun hs => ?_, h.leftOver, h.took,
    fun heof => ?_⟩
  · rcases List.mem_append.1 hseg with hseg | hseg
    · exact absurd (h.terminates seg hseg ht) hne
    · exact absurd hseg List.not_mem_nil
  · exact absurd (h.peerTerminating hs) hne
  · exact absurd (h.eof heof).1 hne

/-- Going on to take something keeps what is known. -/
theorem Ordered.goOn (h : s.Ordered) {reading : Reading} (hreading : reading ≠ .took) :
    Ordered { s with reading } :=
  ⟨h.delivers, h.accounts, h.released, h.sender, h.receiver, h.quiet, h.terminates, h.peerTerminating,
    h.leftOver, fun h => absurd h hreading, h.eof⟩

/-- A termination is not processed between the taking of nothing and the second look at
    the state, with a segment available by then. -/
def Careful (s : Session) : Event → Prop
  | .act true (.storeState .peerTerminating _) => s.reading = .took →
      s.receiver.conn.receivingWorker.isDataAvailable = false
  | _ => True

theorem careful_of_reading {s : Session} (h : s.reading ≠ .took) {e : Event} : s.Careful e := by
  unfold Careful
  split
  · exact fun hs => absurd hs h
  · trivial

theorem Ordered.step (h : s.Ordered) {e : Event} (he : s.Enabled e) (hcareful : s.Careful e)
    (hlen : s.sender.pushed.length < 2 ^ 32) (hlen' : (s.step e).sender.pushed.length < 2 ^ 32) :
    (s.step e).Ordered := by
  cases e
  case act i a =>
    cases i
    case false => exact h.send he.1 he.2 hlen'
    case true =>
      refine h.receive he.1 he.2 hlen ?_
      rintro current rfl
      exact hcareful
  case close current => exact h.close current he.2 hlen
  case readMultiBuffer =>
    rw [Session.step, h.not_closed.2.2.2]
    exact h.goOn (by decide)
  case read n =>
    rw [Session.step, h.not_closed.2.2.2]
    exact h.goOn (by intro h; cases h)
  case take => exact h.take hlen
  case lookAgain => exact h.lookAgain he
  case takeBytes n => exact h.takeBytes n hlen

end Session

/-- What is known of a session holds in every run without careless terminations. -/
theorem Session.Ordered.reach {conv : UInt16} {config : Bool → Config} {overhead : Bool → UInt32}
    {s : Session}
    (h : ((closing conv config overhead).restrict Session.Careful).Reach
      (fun s => s.net.span false < 2 ^ 32) s) : s.Ordered := by
  have hpushed {s : Session} (hs : s.net.span false < 2 ^ 32) : s.sender.pushed.length < 2 ^ 32 :=
    Nat.lt_of_le_of_lt (Nat.le_add_right _ _) hs
  refine Lts.Reach.invariant (fun s hs _ => ?_) (fun s e s' hC h hs hC' => ?_) h
  · obtain ⟨hinit, hs⟩ := hs
    rw [hs]
    exact .new (hinit false).1 (hinit true).1 (hinit false).2 (hinit true).2
  · obtain ⟨hcareful, hen, rfl⟩ := hs
    exact h.step hen hcareful (hpushed hC) (hpushed hC')

/-- In every run of a session in which the numbers do not wrap around and no termination is
    processed carelessly, the end of the file is reported to the reader only after it was
    handed all bytes that the writer pushed. -/
theorem eof_after_all (conv : UInt16) (config : Bool → Config) (overhead : Bool → UInt32) (s : Session)
    (h : ((closing conv config overhead).restrict Session.Careful).Reach
      (fun s => s.net.span false < 2 ^ 32) s) (heof : s.eof = true) :
    s.receiver.returned = s.sender.pushed.flatten := by
  have hs := Session.Ordered.reach h
  have htake := (List.take_prefix s.receiver.conn.receivingWorker.nextNumber.toNat s.sender.pushed).flatten
  rw [← hs.delivers.returned] at htake
  exact antisymm ((List.prefix_append _ _).trans htake) (hs.eof heof).2

section Example

/-! ### A conversation that is closed

The payload is sent and acknowledged, the connection closed, and the termination sent
and processed. The reader takes what there is after that, or has done so before it. -/

/-- The acknowledgement of the payload. -/
def exampleAck : AckSegment where
  conv := 7
  receivingWindow := 776
  timestamp := 0
  numberList := [0]

def exampleRemoved : Network := exampleAcked.act false (.processAck exampleAck 10)
def exampleClosed : Network := exampleRemoved.act false (.storeState .readyToClose 20)
def exampleTerminating : Network := exampleClosed.act false (.storeState .terminating 30)
def examplePinging : Network := exampleTerminating.act false .beginPing
def examplePinged : Network := examplePinging.act false (.ping 0 commandTerminate 30)
def exampleTold : Network := examplePinged.act true (.storeState .peerTerminating 40)

/-- The conversation, while the reader stands wherever it does. -/
theorem exampleTold_reach {m : Lts Session Session.Event} {reading : Reading}
    (hstep : ∀ s e, s.reading = reading → s.Enabled e → m.step s e (s.step e))
    (h : m.Reach (fun s => s.net.span false < 2 ^ 32) { net := exampleStart, reading }) :
    m.Reach (fun s => s.net.span false < 2 ^ 32) { net := exampleTold, closed := true, reading } := by
  have h₁ : m.Reach _ { net := examplePushed, reading } :=
    h.step (hstep _ (.act false (.push examplePayload)) rfl
      ⟨⟨rfl, rfl⟩, trivial⟩) (show examplePushed.span false < 2 ^ 32 by decide)
  have h₂ : m.Reach _ { net := exampleFlushed, reading } :=
    h₁.step (hstep _ (.act false (.flushSending 0)) rfl
      ⟨trivial, trivial⟩) (show exampleFlushed.span false < 2 ^ 32 by decide)
  have h₃ : m.Reach _ { net := exampleReceived, reading } :=
    h₂.step (hstep _ (.act true (.processData exampleSegment)) rfl
      ⟨trivial, show Segment.data exampleSegment ∈ exampleFlushed.sent false by decide⟩)
      (show exampleReceived.span false < 2 ^ 32 by decide)
  have h₄ : m.Reach _ { net := exampleAcked, reading } :=
    h₃.step (hstep _ (.act true (.flushReceiving 5)) rfl
      ⟨trivial, trivial⟩) (show exampleAcked.span false < 2 ^ 32 by decide)
  have h₅ : m.Reach _ { net := exampleRemoved, reading } :=
    h₄.step (hstep _ (.act false (.processAck exampleAck 10)) rfl
      ⟨trivial, show Segment.ack exampleAck ∈ exampleAcked.sent true by decide⟩)
      (show exampleRemoved.span false < 2 ^ 32 by decide)
  have h₆ : m.Reach _ { net := exampleClosed, closed := true, reading } :=
    h₅.step (hstep _ (.close 20) rfl
      ⟨rfl, show (exampleRemoved.endpoint false).conn.state = .active by decide⟩)
      (show exampleClosed.span false < 2 ^ 32 by decide)
  have h₇ : m.Reach _ { net := exampleTerminating, closed := true, reading } :=
    h₆.step (hstep _ (.act false (.storeState .terminating 30)) rfl
      ⟨⟨⟨rfl, rfl⟩, .inl (show (exampleClosed.endpoint false).conn.sendingWorker.window.isEmpty = true
      by decide)⟩, show State.terminating ≠ .active by decide⟩) (show exampleTerminating.span false < 2 ^ 32 by decide)
  have h₈ : m.Reach _ { net := examplePinging, closed := true, reading } :=
    h₇.step (hstep _ (.act false .beginPing) rfl
      ⟨trivial, trivial⟩) (show examplePinging.span false < 2 ^ 32 by decide)
  have h₉ : m.Reach _ { net := examplePinged, closed := true, reading } :=
    h₈.step (hstep _ (.act false (.ping 0 commandTerminate 30)) rfl
      ⟨fun _ => .inl rfl, show 0 ∈ (examplePinging.endpoint false).pings by decide⟩)
      (show examplePinged.span false < 2 ^ 32 by decide)
  exact h₉.step (hstep _ (.act true (.storeState .peerTerminating 40)) rfl
      ⟨⟨_, List.mem_append_right _ (List.mem_singleton_self _), rfl⟩,
      show State.peerTerminating ≠ .active by decide⟩) (show exampleTold.span false < 2 ^ 32 by decide)

def exampleTaken : Network := exampleTold.act true .readMultiBuffer
def exampleTakenAgain : Network := exampleTaken.act true .readMultiBuffer

/-- A reader that begins to read after that is handed the payload, then the end of the file. -/
theorem eof_after_all_example :
    (exampleTakenAgain.endpoint false).pushed = [[10, 20, 30]] ∧
      (exampleTakenAgain.endpoint true).returned = (exampleTakenAgain.endpoint false).pushed.flatten := by
  let m := (closing 7 (fun _ => {}) fun _ => 0).restrict Session.Careful
  have h : m.Reach (fun s => s.net.span false < 2 ^ 32) { net := exampleStart } :=
    .init ⟨fun _ => ⟨rfl, rfl⟩, rfl⟩ (show exampleStart.span false < 2 ^ 32 by decide)
  have h₀ := exampleTold_reach (m := m)
    (fun s e hs he => ⟨Session.careful_of_reading (by rw [hs]; decide), he, rfl⟩) h
  have h₁ : m.Reach _ { net := exampleTold, closed := true, reading := .taking } :=
    h₀.step (a := Session.Event.readMultiBuffer) ⟨trivial, rfl, rfl⟩
      (show exampleTold.span false < 2 ^ 32 by decide)
  have h₂ : m.Reach _ { net := exampleTaken, closed := true } :=
    h₁.step (a := Session.Event.take) ⟨trivial, rfl, rfl⟩
      (show exampleTaken.span false < 2 ^ 32 by decide)
  have h₃ : m.Reach _ { net := exampleTaken, closed := true, reading := .taking } :=
    h₂.step (a := Session.Event.readMultiBuffer) ⟨trivial, rfl, rfl⟩
      (show exampleTaken.span false < 2 ^ 32 by decide)
  have h₄ : m.Reach _ { net := exampleTakenAgain, closed := true, reading := .took } :=
    h₃.step (a := Session.Event.take) ⟨trivial, rfl, rfl⟩
      (show exampleTakenAgain.span false < 2 ^ 32 by decide)
  have h₅ : m.Reach _ { net := exampleTakenAgain, closed := true, eof := true } :=
    h₄.step (a := Session.Event.lookAgain) ⟨trivial, rfl, rfl⟩
      (show exampleTakenAgain.span false < 2 ^ 32 by decide)
  exact ⟨by decide, eof_after_all _ _ _ _ h₅ rfl⟩

/-- A reader that has taken nothing before that is told of the end of the file at once. -/
theorem eof_before_all :
    ∃ s, (closing 7 (fun _ => {}) fun _ => 0).Reach (fun s => s.net.span false < 2 ^ 32) s ∧
      s.eof = true ∧ s.sender.pushed = [[10, 20, 30]] ∧ s.receiver.returned = [] := by
  let m := closing 7 (fun _ => {}) fun _ => 0
  have h : m.Reach (fun s => s.net.span false < 2 ^ 32) { net := exampleStart } :=
    .init ⟨fun _ => ⟨rfl, rfl⟩, rfl⟩ (show exampleStart.span false < 2 ^ 32 by decide)
  have h₁ : m.Reach _ { net := exampleStart, reading := .taking } :=
    h.step (a := Session.Event.readMultiBuffer) ⟨rfl, rfl⟩ (show exampleStart.span false < 2 ^ 32 by decide)
  have htaken : exampleStart.act true .readMultiBuffer = exampleStart := by
    rw [Network.act, exampleStart]
    congr 1 <;> funext i <;> cases i <;> rfl
  have h₂ : m.Reach (fun s => s.net.span false < 2 ^ 32) { net := exampleStart, reading := .took } := by
    rw [← htaken]
    exact h₁.step (a := Session.Event.take) ⟨rfl, rfl⟩
      (show (exampleStart.act true .readMultiBuffer).span false < 2 ^ 32 by decide)
  have h₃ := exampleTold_reach (m := m) (fun s e _ he => ⟨he, rfl⟩) h₂
  have h₄ : m.Reach _ { net := exampleTold, closed := true, eof := true } :=
    h₃.step (a := Session.Event.lookAgain) ⟨rfl, rfl⟩ (show exampleTold.span false < 2 ^ 32 by decide)
  exact ⟨_, h₄, rfl, show (exampleTold.endpoint false).pushed = _ by decide,
    show (exampleTold.endpoint true).returned = [] by decide⟩

end Example

end Gzv2ray.Kcp
