import Gzv2ray.Kcp.Connection
import Gzv2ray.Lib.Transition

/-!
# Two KCP connections over a network

The two ends of a conversation, and every segment each of them ever wrote. A
segment written can be received at any later time, any number of times, in any
order, or never: the network loses, duplicates, delays and reorders.

An end also records what was exchanged with the programs at both ends: the
payloads taken from the writer, and the bytes handed to the reader.

* `network`: the transition system, whose steps are the actions of the two
  connections;
* `Network.Performs`: an operation is a sequence of actions of one end. All the
  operations of the source are (`input_performs`, `Performs.flush`, …), so that
  what holds of the runs of `network` holds of any interleaving of them.
-/

namespace Gzv2ray.Kcp

open Connection (Action)

/-- One end of a conversation. -/
structure Endpoint where
  conn : Connection
  /-- The numbers read by the pings that were begun. -/
  pings : List UInt32 := []
  /-- The payloads taken from the writer. -/
  pushed : List Bytes := []
  /-- The bytes handed to the reader. -/
  returned : Bytes := []
  /-- The workers were released. -/
  released : Bool := false

/-- The end after an action, recording what was exchanged. -/
def Endpoint.step (e : Endpoint) (a : Action) : Endpoint :=
  let e' := { e with conn := (e.conn.step a).1 }
  match a with
  | .push b =>
    if (e.conn.sendingWorker.push b).2 then { e' with pushed := e.pushed ++ [b.bytes] } else e'
  | .beginPing => { e' with pings := e.pings ++ [e.conn.receivingWorker.nextNumber] }
  | .readMultiBuffer =>
    { e' with returned := e.returned ++ MultiBuffer.bytes e.conn.receivingWorker.readMultiBuffer.2 }
  | .read n => { e' with returned := e.returned ++ (e.conn.receivingWorker.read n).2 }
  | .release => { e' with released := true }
  | _ => e'

@[simp] theorem Endpoint.step_conn (e : Endpoint) (a : Action) :
    (e.step a).conn = (e.conn.step a).1 := by
  unfold Endpoint.step
  cases a <;> dsimp only
  split <;> rfl

/-- The two ends, and the segments each of them wrote. -/
structure Network where
  endpoint : Bool → Endpoint
  sent : Bool → List Segment

namespace Network

variable (s : Network) (i : Bool)

/-- The network after an action of the end `i`. -/
def act (a : Action) : Network where
  endpoint := Function.update s.endpoint i ((s.endpoint i).step a)
  sent := Function.update s.sent i
    (s.sent i ++ ((s.endpoint i).conn.step a).2.map Segment.wire)

/-- The end `i` can take the action `a`. -/
def Enabled (a : Action) : Prop :=
  (s.endpoint i).conn.Allowed (s.sent !i) (s.endpoint i).pings a

@[simp] theorem act_endpoint_self (a : Action) :
    (s.act i a).endpoint i = (s.endpoint i).step a := Function.update_self ..

@[simp] theorem act_endpoint_not (a : Action) :
    (s.act i a).endpoint (!i) = s.endpoint !i := Function.update_of_ne (by simp) ..

@[simp] theorem act_sent_self (a : Action) :
    (s.act i a).sent i = s.sent i ++ ((s.endpoint i).conn.step a).2.map Segment.wire :=
  Function.update_self ..

@[simp] theorem act_sent_not (a : Action) : (s.act i a).sent (!i) = s.sent !i :=
  Function.update_of_ne (by simp) ..

end Network

/-- The transition system of a conversation between two new connections. -/
def network (conv : UInt16) (config : Bool → Config) (overhead : Bool → UInt32) :
    Lts Network (Bool × Action) where
  init s := ∀ i, s.endpoint i = { conn := .new conv (config i) (overhead i) } ∧ s.sent i = []
  step s a s' := s.Enabled a.1 a.2 ∧ s' = s.act a.1 a.2

/-! ## Operations are sequences of actions -/

namespace Network

variable {conv : UInt16} {config : Bool → Config} {overhead : Bool → UInt32} {s : Network}
  {i : Bool} {c c' : Connection} {out out' : List Segment}

/-- By a sequence of actions, the end `i` of a network in the state `s` gets to
    the connection `c`, writing the segments `out`. -/
def Performs (conv : UInt16) (config : Bool → Config) (overhead : Bool → UInt32) (s : Network)
    (i : Bool) (c : Connection) (out : List Segment) : Prop :=
  ∃ (l : List Action) (s' : Network), (network conv config overhead).Exec s (l.map (i, ·)) s' ∧
    (s'.endpoint i).conn = c ∧ s'.sent i = s.sent i ++ out.map Segment.wire ∧
    s'.sent (!i) = s.sent !i

theorem Performs.refl : Performs conv config overhead s i (s.endpoint i).conn [] :=
  ⟨[], s, .nil s, rfl, by simp, rfl⟩

/-- An action is performed, if it is allowed. -/
theorem Performs.action (a : Action) (h : s.Enabled i a) :
    Performs conv config overhead s i ((s.endpoint i).conn.step a).1
      ((s.endpoint i).conn.step a).2 :=
  ⟨[a], s.act i a, .single ⟨h, rfl⟩, by simp, by simp, by simp⟩

/-- Operations are performed one after the other. -/
theorem Performs.trans (h : Performs conv config overhead s i c out)
    (h' : ∀ s', (s'.endpoint i).conn = c → s'.sent (!i) = s.sent (!i) →
      Performs conv config overhead s' i c' out') :
    Performs conv config overhead s i c' (out ++ out') := by
  obtain ⟨l, s', he, hc, ho, hn⟩ := h
  obtain ⟨l', s'', he', hc', ho', hn'⟩ := h' s' hc hn
  exact ⟨l ++ l', s'', by simpa using he.append he', hc', by simp [ho, ho'], hn'.trans hn⟩

/-- An action is performed after others, if it is allowed then. -/
theorem Performs.next (h : Performs conv config overhead s i c out) (a : Action)
    (ha : ∀ pings, c.Allowed (s.sent !i) pings a) :
    Performs conv config overhead s i (c.step a).1 (out ++ (c.step a).2) :=
  h.trans fun s' hc hn => by
    subst hc
    exact .action a (by rw [Enabled, hn]; exact ha _)

theorem Performs.silent (h : Performs conv config overhead s i c out) (a : Action)
    (hout : (c.step a).2 = []) (ha : ∀ pings, c.Allowed (s.sent !i) pings a) :
    Performs conv config overhead s i (c.step a).1 out := by
  simpa [hout] using h.next a ha

theorem Performs.setState (h : Performs conv config overhead s i c out) {state : State}
    (hs : state ≠ .active) (current : UInt32) :
    Performs conv config overhead s i (c.setState state current) out := by
  have hstore := h.silent (.storeState state current) rfl fun _ => hs
  cases state
  case active => exact absurd rfl hs
  case readyToClose => exact hstore
  all_goals exact hstore.silent .closeWrite rfl fun _ => by simp [Connection.Allowed, Connection.step]

/-- Closing a connection is performed. -/
theorem Performs.close (h : Performs conv config overhead s i c out) (current : UInt32) :
    Performs conv config overhead s i (c.close current).1 out := by
  unfold Connection.close
  split <;> dsimp only
  all_goals first | exact h | exact h.setState (by decide) current

theorem Performs.handleOption (h : Performs conv config overhead s i c out) (opt : SegmentOption)
    (current : UInt32) : Performs conv config overhead s i (c.handleOption opt current) out := by
  unfold Connection.handleOption Connection.onPeerClosed
  split
  · split
    all_goals first | exact h | exact h.setState (by decide) current
  · exact h

theorem Performs.handleTerminate (h : Performs conv config overhead s i c out) (cmd : Command)
    (current : UInt32) : Performs conv config overhead s i (c.handleTerminate cmd current) out := by
  unfold Connection.handleTerminate
  split
  · split
    all_goals first | exact h | exact h.setState (by decide) current
  · exact h

/-- Processing a segment received is performed. -/
theorem Performs.inputSegment (h : Performs conv config overhead s i c out) (current : UInt32)
    {seg : Segment} (hseg : seg ∈ s.sent !i) :
    Performs conv config overhead s i (c.inputSegment current seg) out := by
  cases seg with
  | data seg =>
    exact (h.handleOption seg.option current).silent (.processData seg) rfl fun _ => hseg
  | ack seg =>
    exact (h.handleOption seg.option current).silent (.processAck seg current) rfl fun _ => hseg
  | cmdOnly seg =>
    have h₀ := (h.handleOption seg.option current).handleTerminate seg.cmd current
    have h₁ := h₀.silent (.processReceivingNext seg) rfl fun _ => hseg
    have h₂ := h₁.silent (.processSendingNext seg) rfl fun _ => hseg
    exact h₂.silent (.updatePeerRTO seg current) rfl fun _ => hseg

theorem Performs.inputLoop (h : Performs conv config overhead s i c out) (current : UInt32)
    {segs : List Segment} (hsegs : segs ⊆ s.sent !i) :
    Performs conv config overhead s i (Connection.inputLoop current c segs) out := by
  induction segs generalizing c with
  | nil => exact h
  | cons seg segs ih =>
    rw [List.cons_subset] at hsegs
    rw [Connection.inputLoop]
    split
    · exact ih (h.inputSegment current hsegs.1) hsegs.2
    · exact h

/-- Processing a packet of segments received is a sequence of actions. -/
theorem input_performs (current : UInt32) {segs : List Segment} (hsegs : segs ⊆ s.sent !i) :
    Performs conv config overhead s i ((s.endpoint i).conn.input current segs) [] :=
  (Performs.refl.silent (.noteIncoming current) rfl fun _ => trivial).inputLoop current hsegs

/-- Writing a command is performed, in two actions. -/
theorem Performs.sendPing (h : Performs conv config overhead s i c out) (current : UInt32)
    (cmd : Command) :
    Performs conv config overhead s i (c.sendPing current cmd).1
      (out ++ (c.sendPing current cmd).2) :=
  h.trans fun s' hc _ => by
    subst hc
    refine ⟨[.beginPing, .ping (s'.endpoint i).conn.receivingWorker.nextNumber cmd current],
      (s'.act i .beginPing).act i _, .cons ⟨trivial, rfl⟩ (.single ⟨?_, rfl⟩), ?_, ?_, ?_⟩
    · simp [Enabled, Connection.Allowed, Endpoint.step]
    · simp [Connection.step, Connection.sendPing]
    · simp [Connection.step, Connection.sendPing]
    · simp

theorem Performs.flushWorkers (h : Performs conv config overhead s i c out) (current : UInt32) :
    Performs conv config overhead s i (c.flushWorkers current).1
      (out ++ (c.flushWorkers current).2) := by
  have hacks := h.next (.flushReceiving current) fun _ => trivial
  have hdata := hacks.next (.flushSending current) fun _ => trivial
  unfold Connection.flushWorkers
  dsimp only [Connection.step] at hdata ⊢
  split
  · have hping := hdata.sendPing current commandPing
    split
    · simpa using hping.sendPing current commandPing
    · simpa using hping
  · split
    · simpa using hdata.sendPing current commandPing
    · simpa using hdata

theorem Performs.flushIdle (h : Performs conv config overhead s i c out) (current : UInt32) :
    Performs conv config overhead s i (c.flushIdle current) out := by
  have hclose : Performs conv config overhead s i
      (if c.state = .active ∧ current - c.lastIncomingTime ≥ 30000 then (c.close current).1 else c)
      out := by
    split
    · exact h.close current
    · exact h
  unfold Connection.flushIdle
  dsimp only
  generalize (if c.state = .active ∧ current - c.lastIncomingTime ≥ 30000 then
    (c.close current).1 else c) = c' at hclose ⊢
  split
  · exact hclose.setState (by decide) current
  · exact hclose

theorem Performs.flushTimeout (h : Performs conv config overhead s i c out) (current : UInt32) :
    Performs conv config overhead s i (c.flushTimeout current) out := by
  have hterm : Performs conv config overhead s i
      (if c.state = .peerTerminating ∧ current - c.stateBeginTime > 4000 then
        c.setState .terminating current else c) out := by
    split
    · exact h.setState (by decide) current
    · exact h
  unfold Connection.flushTimeout
  dsimp only
  generalize (if c.state = .peerTerminating ∧ current - c.stateBeginTime > 4000 then
    c.setState .terminating current else c) = c' at hterm ⊢
  split
  · exact hterm.setState (by decide) current
  · exact hterm

/-- The periodic update is a sequence of actions. -/
theorem Performs.flush (h : Performs conv config overhead s i c out) (current : UInt32) :
    Performs conv config overhead s i (c.flush current).1 (out ++ (c.flush current).2) := by
  have hidle := h.flushIdle current
  unfold Connection.flush
  split
  · simpa using h
  · dsimp only
    generalize c.flushIdle current = c' at hidle ⊢
    split
    · have hping := hidle.sendPing current commandTerminate
      generalize c'.sendPing current commandTerminate = r at hping ⊢
      obtain ⟨c'', pings⟩ := r
      dsimp only at hping ⊢
      split
      · exact hping.setState (by decide) current
      · exact hping
    · exact (hidle.flushTimeout current).flushWorkers current

/-- An iteration of the write loop is a sequence of actions. -/
theorem writeIteration_performs (b : Buffer) :
    Performs conv config overhead s i ((s.endpoint i).conn.writeIteration b).1 [] := by
  unfold Connection.writeIteration
  split
  · exact Performs.refl.silent (.push b) rfl fun _ => trivial
  · exact .refl

/-- An iteration of `ReadMultiBuffer` is a sequence of actions. -/
theorem readMultiBufferIteration_performs :
    Performs conv config overhead s i (s.endpoint i).conn.readMultiBufferIteration.1 [] := by
  have hread : Performs conv config overhead s i
      ((s.endpoint i).conn.step .readMultiBuffer).1 [] :=
    Performs.refl.silent .readMultiBuffer rfl fun _ => trivial
  unfold Connection.readMultiBufferIteration
  split
  · exact .refl
  · dsimp only
    split
    all_goals exact hread

/-- An iteration of `Read` is a sequence of actions. -/
theorem readIteration_performs (n : ℕ) :
    Performs conv config overhead s i ((s.endpoint i).conn.readIteration n).1 [] := by
  unfold Connection.readIteration
  split
  · exact .refl
  · exact Performs.refl.silent (.read n) rfl fun _ => trivial

end Network

end Gzv2ray.Kcp
