import Gzv2ray.Kcp.Receiving
import Gzv2ray.Kcp.Sending

/-!
# KCP connections

A connection is a state, the two workers, and the round trip estimator. Its
operations (`input`, `flush`, `close`, the reads and the writes) run in several
goroutines; what they do atomically, each under one lock, are the *actions* of
`Connection.step`. A ping reads the number it announces before it is written,
so that it is two actions.

The operations of the source are defined here as the source writes them;
`Gzv2ray.Kcp.Network` shows that they are sequences of actions.
-/

namespace Gzv2ray.Kcp

/-- The state of a connection. -/
inductive State
  | active
  | readyToClose
  | peerClosed
  | terminating
  | peerTerminating
  | terminated
  deriving DecidableEq

/-- The bytes of a data segment besides its payload. -/
def dataSegmentOverhead : UInt32 := 18

/-- A connection. -/
structure Connection where
  conv : UInt16
  config : Config
  state : State := .active
  stateBeginTime : UInt32 := 0
  lastIncomingTime : UInt32 := 0
  lastPingTime : UInt32 := 0
  mss : UInt32
  roundTrip : RoundTripInfo
  receivingWorker : ReceivingWorker
  sendingWorker : SendingWorker

namespace Connection

/-- A new connection, over a packet writer with the given overhead. -/
def new (conv : UInt16) (config : Config) (overhead : UInt32) : Connection where
  conv
  config
  mss := config.getMTUValue - overhead - dataSegmentOverhead
  roundTrip := { rto := 100, minRtt := config.getTTIValue }
  receivingWorker := .new config
  sendingWorker := .new config

variable (c : Connection)

/-- The connection announces that it is closing. -/
def closing : Bool := c.state == .readyToClose

/-! ## Actions -/

/-- What a connection does atomically. -/
inductive Action
  /-- The sending worker takes a payload. -/
  | push (b : Buffer)
  /-- The sending worker flushes its window. -/
  | flushSending (current : UInt32)
  /-- The receiving worker flushes its acknowledgements. -/
  | flushReceiving (current : UInt32)
  /-- A ping begins, reading the next number to be received. -/
  | beginPing
  /-- A ping that has read `next` is written. -/
  | ping (next : UInt32) (cmd : Command) (current : UInt32)
  /-- The receiving worker processes a data segment. -/
  | processData (seg : DataSegment)
  /-- The sending worker processes an acknowledgement. -/
  | processAck (seg : AckSegment) (current : UInt32)
  /-- The sending worker processes what a command tells was received. -/
  | processReceivingNext (seg : CmdOnlySegment)
  /-- The receiving worker processes what a command tells was acknowledged. -/
  | processSendingNext (seg : CmdOnlySegment)
  /-- The timeout announced by a command is adopted. -/
  | updatePeerRTO (seg : CmdOnlySegment) (current : UInt32)
  /-- The time of the last segment is noted. -/
  | noteIncoming (current : UInt32)
  /-- The state is stored. -/
  | storeState (state : State) (current : UInt32)
  /-- The sending worker drops its window. -/
  | closeWrite
  /-- The workers are released. -/
  | release
  /-- The reader takes all it can have. -/
  | readMultiBuffer
  /-- The reader takes at most `n` bytes. -/
  | read (n : ℕ)

/-- The ping that has read `next`. -/
def pingSegment (next : UInt32) (cmd : Command) : CmdOnlySegment where
  conv := c.conv
  cmd
  receivingNext := next
  sendingNext := c.sendingWorker.firstUnacknowledged
  peerRTO := c.roundTrip.timeout
  option := if c.closing then segmentOptionClose else 0

/-- What an action does: the connection after it, and the segments it writes. -/
def step : Action → Connection × List Segment
  | .push b => ({ c with sendingWorker := (c.sendingWorker.push b).1 }, [])
  | .flushSending current =>
    let (sendingWorker, written, _) :=
      c.sendingWorker.flush c.config c.conv c.closing c.roundTrip.timeout current
    ({ c with sendingWorker }, written.map .data)
  | .flushReceiving current =>
    let (receivingWorker, written) :=
      c.receivingWorker.flush c.conv c.closing c.roundTrip.timeout current
    ({ c with receivingWorker }, written.map .ack)
  | .beginPing => (c, [])
  | .ping next cmd current => ({ c with lastPingTime := current }, [.cmdOnly (c.pingSegment next cmd)])
  | .processData seg => ({ c with receivingWorker := c.receivingWorker.processSegment seg }, [])
  | .processAck seg current =>
    let (sendingWorker, roundTrip) :=
      c.sendingWorker.processSegment current seg c.roundTrip.timeout c.roundTrip
    ({ c with sendingWorker, roundTrip }, [])
  | .processReceivingNext seg =>
    ({ c with sendingWorker := c.sendingWorker.processReceivingNext seg.receivingNext }, [])
  | .processSendingNext seg =>
    ({ c with receivingWorker := c.receivingWorker.processSendingNext seg.sendingNext }, [])
  | .updatePeerRTO seg current =>
    ({ c with roundTrip := c.roundTrip.updatePeerRTO seg.peerRTO current }, [])
  | .noteIncoming current => ({ c with lastIncomingTime := current }, [])
  | .storeState state current => ({ c with state, stateBeginTime := current }, [])
  | .closeWrite => ({ c with sendingWorker := c.sendingWorker.closeWrite }, [])
  | .release => ({ c with
      sendingWorker := c.sendingWorker.release, receivingWorker := c.receivingWorker.release }, [])
  | .readMultiBuffer => ({ c with receivingWorker := c.receivingWorker.readMultiBuffer.1 }, [])
  | .read n => ({ c with receivingWorker := (c.receivingWorker.read n).1 }, [])

/-- When an action can be taken, by a connection that was delivered `received`
    and began the pings `pings`: what is processed was received, a state stored
    is not the initial one, and the window is dropped only once another state
    was stored. -/
def Allowed (received : List Segment) (pings : List UInt32) : Action → Prop
  | .ping next _ _ => next ∈ pings
  | .processData seg => .data seg ∈ received
  | .processAck seg _ => .ack seg ∈ received
  | .processReceivingNext seg | .processSendingNext seg | .updatePeerRTO seg _ =>
    .cmdOnly seg ∈ received
  | .storeState state _ => state ≠ .active
  | .closeWrite => c.state ≠ .active
  | _ => True

/-! ## Operations -/

/-- Enters a state. In all of them but `readyToClose` nothing is sent any more. -/
def setState (state : State) (current : UInt32) : Connection :=
  let c := { c with state, stateBeginTime := current }
  match state with
  | .peerClosed | .terminating | .peerTerminating | .terminated =>
    { c with sendingWorker := c.sendingWorker.closeWrite }
  | .active | .readyToClose => c

/-- Closes the connection, unless it is closed already; tells whether it did. -/
def close (current : UInt32) : Connection × Bool :=
  match c.state with
  | .readyToClose | .terminating | .terminated => (c, false)
  | .active => (c.setState .readyToClose current, true)
  | .peerClosed => (c.setState .terminating current, true)
  | .peerTerminating => (c.setState .terminated current, true)

def onPeerClosed (current : UInt32) : Connection :=
  match c.state with
  | .readyToClose => c.setState .terminating current
  | .active => c.setState .peerClosed current
  | _ => c

def handleOption (opt : SegmentOption) (current : UInt32) : Connection :=
  if opt &&& segmentOptionClose = segmentOptionClose then c.onPeerClosed current else c

/-- The change of state on a command. -/
def handleTerminate (cmd : Command) (current : UInt32) : Connection :=
  if cmd = commandTerminate then
    match c.state with
    | .active | .peerClosed => c.setState .peerTerminating current
    | .readyToClose => c.setState .terminating current
    | .terminating => c.setState .terminated current
    | .peerTerminating | .terminated => c
  else c

/-- Processes one segment. -/
def inputSegment (current : UInt32) : Segment → Connection
  | .data seg =>
    let c := c.handleOption seg.option current
    { c with receivingWorker := c.receivingWorker.processSegment seg }
  | .ack seg =>
    let c := c.handleOption seg.option current
    let (sendingWorker, roundTrip) :=
      c.sendingWorker.processSegment current seg c.roundTrip.timeout c.roundTrip
    { c with sendingWorker, roundTrip }
  | .cmdOnly seg =>
    let c := (c.handleOption seg.option current).handleTerminate seg.cmd current
    { c with
      sendingWorker := c.sendingWorker.processReceivingNext seg.receivingNext
      receivingWorker := c.receivingWorker.processSendingNext seg.sendingNext
      roundTrip := c.roundTrip.updatePeerRTO seg.peerRTO current }

/-- Processes segments until one of another conversation. -/
def inputLoop (current : UInt32) : Connection → List Segment → Connection
  | c, [] => c
  | c, seg :: segs =>
    if seg.conversation = c.conv then inputLoop current (c.inputSegment current seg) segs else c

/-- Processes the segments of a packet received at `current`. -/
def input (current : UInt32) (segs : List Segment) : Connection :=
  inputLoop current { c with lastIncomingTime := current } segs

/-- Writes a command. -/
def sendPing (current : UInt32) (cmd : Command) : Connection × List Segment :=
  ({ c with lastPingTime := current },
    [.cmdOnly (c.pingSegment c.receivingWorker.nextNumber cmd)])

/-- Writes what is due: acknowledgements, then data, then a ping. -/
def flushWorkers (current : UInt32) : Connection × List Segment :=
  let (receivingWorker, acks) :=
    c.receivingWorker.flush c.conv c.closing c.roundTrip.timeout current
  let c := { c with receivingWorker }
  let (sendingWorker, segs, updated) :=
    c.sendingWorker.flush c.config c.conv c.closing c.roundTrip.timeout current
  let c := { c with sendingWorker }
  let (c, pings) := if updated then c.sendPing current commandPing else (c, [])
  let (c, pings') :=
    if current - c.lastPingTime ≥ 3000 then c.sendPing current commandPing else (c, [])
  (c, acks.map .ack ++ segs.map .data ++ pings ++ pings')

/-- The changes of state a flush at `current` makes before it writes. -/
def flushIdle (current : UInt32) : Connection :=
  let c := if c.state = .active ∧ current - c.lastIncomingTime ≥ 30000 then (c.close current).1 else c
  if c.state = .readyToClose ∧ c.sendingWorker.window.isEmpty then c.setState .terminating current
  else c

/-- The changes of state a flush at `current` makes on a time-out. -/
def flushTimeout (current : UInt32) : Connection :=
  let c := if c.state = .peerTerminating ∧ current - c.stateBeginTime > 4000 then
    c.setState .terminating current else c
  if c.state = .readyToClose ∧ current - c.stateBeginTime > 15000 then
    c.setState .terminating current else c

/-- The periodic update. -/
def flush (current : UInt32) : Connection × List Segment :=
  if c.state = .terminated then (c, [])
  else
    let c := c.flushIdle current
    if c.state = .terminating then
      let (c, pings) := c.sendPing current commandTerminate
      (if current - c.stateBeginTime > 8000 then c.setState .terminated current else c, pings)
    else (c.flushTimeout current).flushWorkers current

/-- One iteration of the write loop: pushes a payload if the connection is
    active; tells whether it was taken, and nothing if the connection is closed. -/
def writeIteration (b : Buffer) : Connection × Option Bool :=
  if c.state = .active then
    let (sendingWorker, ok) := c.sendingWorker.push b
    ({ c with sendingWorker }, some ok)
  else (c, none)

/-- Once closed locally, a connection is not read any more. -/
def readClosed : Bool :=
  c.state == .readyToClose || c.state == .terminating || c.state == .terminated

/-- One iteration of the loop of `ReadMultiBuffer`: nothing on an end of file. -/
def readMultiBufferIteration : Connection × Option MultiBuffer :=
  if c.readClosed then (c, none)
  else
    let (receivingWorker, mb) := c.receivingWorker.readMultiBuffer
    let c := { c with receivingWorker }
    if mb.isEmpty && c.state == .peerTerminating then (c, none) else (c, some mb)

/-- One iteration of the loop of `Read`: nothing on an end of file. -/
def readIteration (n : ℕ) : Connection × Option Bytes :=
  if c.readClosed then (c, none)
  else
    let (receivingWorker, out) := c.receivingWorker.read n
    ({ c with receivingWorker }, some out)

end Connection

end Gzv2ray.Kcp
