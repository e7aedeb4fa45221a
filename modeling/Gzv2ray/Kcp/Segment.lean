import Gzv2ray.Buf.Buffer
import Mathlib.Data.Set.Basic

/-!
# KCP segments

The three kinds of segments a KCP connection exchanges: data, selective
acknowledgements, and commands (pings and terminations). They are kept as
structures: the network of `Gzv2ray.Kcp.Network` carries segments.
-/

namespace Gzv2ray.Kcp

/-- A segment option; bit `0` announces that the sender is closing. -/
abbrev SegmentOption := UInt8

def segmentOptionClose : SegmentOption := 1

/-- A command. -/
abbrev Command := UInt8

def commandACK : Command := 0
def commandData : Command := 1
def commandTerminate : Command := 2
def commandPing : Command := 3

/-- The most numbers an acknowledgement carries. -/
def ackNumberLimit : ℕ := 128

/-- A data segment. The fields `timeout` and `transmit` are the sender's own
    and do not travel. -/
structure DataSegment where
  conv : UInt16 := 0
  option : SegmentOption := 0
  timestamp : UInt32 := 0
  number : UInt32 := 0
  sendingNext : UInt32 := 0
  payload : Buffer
  timeout : UInt32 := 0
  transmit : UInt32 := 0
  deriving DecidableEq

namespace DataSegment

/-- What identifies a segment: its number and its payload. -/
def id (seg : DataSegment) : UInt32 × Bytes := (seg.number, seg.payload.bytes)

/-- What the peer makes of a segment: the sender's own fields are left behind,
    and the payload is in a buffer of the peer. -/
def wire (seg : DataSegment) : DataSegment :=
  { seg with payload := .ofBytes seg.payload.bytes seg.payload.len_le, timeout := 0, transmit := 0 }

@[simp] theorem wire_id (seg : DataSegment) : seg.wire.id = seg.id := rfl

end DataSegment

/-- An acknowledgement. -/
structure AckSegment where
  conv : UInt16 := 0
  option : SegmentOption := 0
  receivingWindow : UInt32 := 0
  receivingNext : UInt32 := 0
  timestamp : UInt32 := 0
  numberList : List UInt32 := []
  deriving DecidableEq

namespace AckSegment

/-- The later of the timestamps, in wrap-around order. -/
def putTimestamp (s : AckSegment) (timestamp : UInt32) : AckSegment :=
  if timestamp - s.timestamp < 0x7FFFFFFF then { s with timestamp } else s

def putNumber (s : AckSegment) (number : UInt32) : AckSegment :=
  { s with numberList := s.numberList ++ [number] }

def isFull (s : AckSegment) : Bool := s.numberList.length == ackNumberLimit

def isEmpty (s : AckSegment) : Bool := s.numberList.isEmpty

/-- The numbers the acknowledgement tells were received. -/
def acked (s : AckSegment) : Set UInt32 := {n | n < s.receivingNext ∨ n ∈ s.numberList}

@[simp] theorem putTimestamp_numberList (s : AckSegment) (t : UInt32) :
    (s.putTimestamp t).numberList = s.numberList := by
  unfold putTimestamp
  split <;> rfl

@[simp] theorem putNumber_numberList (s : AckSegment) (n : UInt32) :
    (s.putNumber n).numberList = s.numberList ++ [n] := rfl

end AckSegment

/-- A ping, a termination, or any other command. -/
structure CmdOnlySegment where
  conv : UInt16 := 0
  cmd : Command := 0
  option : SegmentOption := 0
  sendingNext : UInt32 := 0
  receivingNext : UInt32 := 0
  peerRTO : UInt32 := 0
  deriving DecidableEq

/-- A segment. -/
inductive Segment
  | data (seg : DataSegment)
  | ack (seg : AckSegment)
  | cmdOnly (seg : CmdOnlySegment)
  deriving DecidableEq

namespace Segment

/-- What the peer makes of a segment. -/
def wire : Segment → Segment
  | data seg => data seg.wire
  | seg => seg

/-- The conversation a segment belongs to. -/
def conversation : Segment → UInt16
  | data seg => seg.conv
  | ack seg => seg.conv
  | cmdOnly seg => seg.conv

end Segment

end Gzv2ray.Kcp
