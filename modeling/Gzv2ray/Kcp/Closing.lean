import Gzv2ray.Kcp.Network

/-!
# Closing a KCP connection

A conversation one end of which writes and then closes its connection, and the
other end of which only reads. No time-out fires.

* `Session`: the two ends, and where the reading program stands: it looks at the
  state, takes what there is, and looks at the state again;
* `closing`: the transition system. The state of a connection is loaded and stored
  in separate steps, so that what allows a store is stated of what stays true in
  between (`Session.Enters`).
-/

namespace Gzv2ray.Kcp

open Connection (Action)

/-- Where a program stands that reads a connection. -/
inductive Reading
  /-- It has yet to look at the state. -/
  | start
  /-- In `ReadMultiBuffer`, it has yet to take what there is. -/
  | taking
  /-- In `ReadMultiBuffer`, it took nothing, and has yet to look at the state again. -/
  | took
  /-- In `Read`, it has yet to take at most `n` bytes. -/
  | reading (n : ℕ)
  deriving DecidableEq

namespace Segment

def option : Segment → SegmentOption
  | data seg => seg.option
  | ack seg => seg.option
  | cmdOnly seg => seg.option

/-- The segment announces that its writer is closing. -/
def Announces (seg : Segment) : Prop := seg.option &&& segmentOptionClose = segmentOptionClose

/-- The segment is a termination. -/
def Terminates : Segment → Prop
  | cmdOnly seg => seg.cmd = commandTerminate
  | _ => False

end Segment

/-- A conversation, in which the end `false` writes and the end `true` reads. -/
structure Session where
  net : Network
  /-- The writer has closed its connection. -/
  closed : Bool := false
  reading : Reading := .start
  /-- The end of the file was reported to the reader. -/
  eof : Bool := false

namespace Session

variable (s : Session)

abbrev sender : Endpoint := s.net.endpoint false

abbrev receiver : Endpoint := s.net.endpoint true

/-- What happens in a session. -/
inductive Event
  /-- An end takes an action that is neither a read nor the closing by its program. -/
  | act (i : Bool) (a : Action)
  /-- The writer closes its connection. -/
  | close (current : UInt32)
  /-- `ReadMultiBuffer` looks at the state. -/
  | readMultiBuffer
  /-- It takes what there is. -/
  | take
  /-- Having taken nothing, it looks at the state again. -/
  | lookAgain
  /-- `Read` looks at the state. -/
  | read (n : ℕ)
  /-- It takes some bytes. -/
  | takeBytes (n : ℕ)

/-- An end closed its connection itself. -/
def ClosedBy (i : Bool) : Prop := i = false ∧ s.closed = true

/-- An end was sent a segment announcing that the other one is closing. -/
def Announced (i : Bool) : Prop := ∃ seg ∈ s.net.sent !i, seg.Announces

/-- An end was sent a termination. -/
def Told (i : Bool) : Prop := ∃ seg ∈ s.net.sent !i, seg.Terminates

/-- The states an end can enter without a time-out: those of `OnPeerClosed`, of the
    processing of a termination, and of a flush that finds the window empty. -/
def Enters (i : Bool) : State → Prop
  | .active | .readyToClose => False
  | .peerClosed => s.Announced i
  | .peerTerminating => s.Told i
  | .terminating => s.ClosedBy i ∧
      ((s.net.endpoint i).conn.sendingWorker.window.isEmpty = true ∨ s.Announced i ∨ s.Told i)
  | .terminated => s.ClosedBy i ∧ s.Told i

/-- The actions of an end: only the writer pushes, until it closes; terminations are
    written once terminating; the window is dropped on entering any state but
    `readyToClose`; the reads are events of their own. -/
def Permits (i : Bool) : Action → Prop
  | .push _ => i = false ∧ s.closed = false
  | .ping _ cmd _ => cmd = commandTerminate →
      (s.net.endpoint i).conn.state = .terminating ∨ (s.net.endpoint i).conn.state = .terminated
  | .storeState state _ => s.Enters i state
  | .closeWrite =>
    (s.net.endpoint i).conn.state ≠ .active ∧ (s.net.endpoint i).conn.state ≠ .readyToClose
  | .release => (s.net.endpoint i).conn.state = .terminated
  | .readMultiBuffer | .read _ => False
  | _ => True

/-- When an event can happen. -/
def Enabled : Event → Prop
  | .act i a => s.Permits i a ∧ s.net.Enabled i a
  | .close _ => s.closed = false ∧ s.sender.conn.state = .active
  | .readMultiBuffer | .read _ => s.reading = .start
  | .take => s.reading = .taking
  | .lookAgain => s.reading = .took
  | .takeBytes n => s.reading = .reading n

/-- What an event does. -/
def step : Event → Session
  | .act i a => { s with net := s.net.act i a }
  | .close current =>
    { s with net := s.net.act false (.storeState .readyToClose current), closed := true }
  | .readMultiBuffer =>
    if s.receiver.conn.readClosed then { s with eof := true } else { s with reading := .taking }
  | .take => { s with
      net := s.net.act true .readMultiBuffer
      reading := if MultiBuffer.isEmpty s.receiver.conn.receivingWorker.readMultiBuffer.2 then .took
        else .start }
  | .lookAgain =>
    { s with reading := .start, eof := s.eof || s.receiver.conn.state == .peerTerminating }
  | .read n =>
    if s.receiver.conn.readClosed then { s with eof := true } else { s with reading := .reading n }
  | .takeBytes n => { s with net := s.net.act true (.read n), reading := .start }

end Session

/-- The transition system of a session between two new connections. -/
def closing (conv : UInt16) (config : Bool → Config) (overhead : Bool → UInt32) :
    Lts Session Session.Event where
  init s := (network conv config overhead).init s.net ∧ s = { net := s.net }
  step s e s' := s.Enabled e ∧ s' = s.step e

end Gzv2ray.Kcp
