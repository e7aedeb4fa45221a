import Gzv2ray.Mux.Frame
import Gzv2ray.Mux.Reader

/-!
# The workers of a multiplexed connection

Both ends of a multiplexed connection have a worker that reads the frames of the
link one after another: `ServerWorker.handleFrame`, an iteration of the loop of the
server, and `ClientWorker.handleFrame`, one of the loop of the client. It copies the
data of a frame to the writer of its session, or else discards them.

The writers of the sessions may do anything: their answers during a frame are
given by an `Env`. The table of the sessions is also changed by others, between the
frames (see `Gzv2ray.Mux.Sync`).
-/

namespace Gzv2ray

namespace Mux

/-- A worker. -/
structure Worker where
  /-- The reader of the link. -/
  reader : BufferedReader
  /-- The metadata of the last frame. -/
  metadata : FrameMetadata := {}
  sessions : UInt16 → Option TransferType := fun _ => none
  /-- The sessions that the peer was told to close. -/
  closing : List UInt16 := []

/-- What the others do during a frame: whether a request is dispatched, and what the
    writer of the session answers to its calls. -/
structure Env where
  dispatched : Bool
  write : ℕ → Option Error

def failedToDispatch : Error := .new (ascii "failed to dispatch request")

def failedToReadMetadata : Error := .new (ascii "failed to read metadata")

def failedToProcessData : Error := .new (ascii "failed to process data")

def unknownStatus : Error := .new (ascii "unknown status: ")

end Mux

/-- The error that an error of a copy wraps. -/
def CopyError.inner : CopyError → Error
  | read e => e
  | write e => e

def CopyOutcome.toOutcome : CopyOutcome → Outcome Unit
  | ok => .ok ()
  | error e => .error e.inner
  | panic => .panic

namespace Mux

namespace Worker

variable (env : Env) (w : Worker)

/-- The frame has data. -/
def hasData : Bool := has w.metadata.option optionData

/-- Copies what is left of the data to a writer. The fuel is that of the whole data. -/
def copyFrom (fuel : ℕ) (write : ℕ → Option Error) (rr : PayloadReader) :
    CopyOutcome × PayloadReader :=
  copy PayloadReader.readMultiBuffer fuel write rr

/-- Reads the data as those of a stream, and discards them. -/
def discardData : Outcome Unit × Worker :=
  let rr := PayloadReader.new .stream w.reader
  let (out, rr) := copyFrom rr.fuel discard rr
  (out.toOutcome, { w with reader := rr.reader })

/-- Closes a session. -/
def closeSession : Worker := { w with sessions := Function.update w.sessions w.metadata.sessionID none }

/-- Tells the peer to close a session. -/
def notifyClosing : Worker := { w with closing := w.closing ++ [w.metadata.sessionID] }

def handleStatusKeepAlive : Outcome Unit × Worker :=
  if w.hasData then w.discardData else (.ok (), w)

def handleStatusEnd : Outcome Unit × Worker :=
  let w := if (w.sessions w.metadata.sessionID).isSome then w.closeSession else w
  if w.hasData then w.discardData else (.ok (), w)

/-- After an error of the writer, the session is closed and the data left are
    discarded. -/
def keepCopied (fuel : ℕ) : CopyOutcome × PayloadReader → Outcome Unit × Worker
  | (.error (.write _), rr) =>
    let (drained, rr) := copyFrom fuel discard rr
    (drained.toOutcome, { w.notifyClosing.closeSession with reader := rr.reader })
  | (out, rr) => (out.toOutcome, { w with reader := rr.reader })

def handleStatusKeep : Outcome Unit × Worker :=
  if !w.hasData then (.ok (), w)
  else
    match w.sessions w.metadata.sessionID with
    | none => w.notifyClosing.discardData
    | some transferType =>
      let rr := PayloadReader.new transferType w.reader
      w.keepCopied rr.fuel (copyFrom rr.fuel env.write rr)

end Worker

namespace ServerWorker

variable (env : Env) (w : Worker)

/-- The transfer type of a new session. -/
def transferType (f : FrameMetadata) : TransferType :=
  if f.target.network = .udp then .packet else .stream

/-- After any error, the session is closed and the data left are discarded. -/
def newCopied (fuel : ℕ) : CopyOutcome × PayloadReader → Outcome Unit × Worker
  | (.error _, rr) =>
    match Worker.copyFrom fuel discard rr with
    | (.panic, rr) => (.panic, { w with reader := rr.reader })
    | (_, rr) => (.ok (), { w.closeSession with reader := rr.reader })
  | (out, rr) => (out.toOutcome, { w with reader := rr.reader })

def handleStatusNew : Outcome Unit × Worker :=
  if !env.dispatched then
    if w.hasData then
      match w.discardData with
      | (.panic, w) => (.panic, w)
      | (_, w) => (.error failedToDispatch, w)
    else (.error failedToDispatch, w)
  else
    let s := transferType w.metadata
    let added := { w with sessions := Function.update w.sessions w.metadata.sessionID (some s) }
    if !w.hasData then (.ok (), added)
    else
      let rr := PayloadReader.new s w.reader
      newCopied added rr.fuel (Worker.copyFrom rr.fuel env.write rr)

/-- Handles a frame, by its status. -/
def handleStatus : Outcome Unit × Worker :=
  if w.metadata.sessionStatus = sessionStatusKeepAlive then w.handleStatusKeepAlive
  else if w.metadata.sessionStatus = sessionStatusEnd then w.handleStatusEnd
  else if w.metadata.sessionStatus = sessionStatusNew then handleStatusNew env w
  else if w.metadata.sessionStatus = sessionStatusKeep then w.handleStatusKeep env
  else (.error unknownStatus, w)

/-- Handles the next frame. The loop ends with an error. -/
def handleFrame (parseIP : Bytes → Option IPv6) : Outcome Unit × Worker :=
  match ({} : FrameMetadata).unmarshal parseIP w.reader with
  | (.error _, reader) => (.error failedToReadMetadata, { w with reader })
  | (.ok metadata, reader) =>
    match handleStatus env { w with metadata, reader } with
    | (.error _, w) => (.error failedToProcessData, w)
    | (out, w) => (out, w)

end ServerWorker

namespace ClientWorker

variable (env : Env) (w : Worker)

def handleStatusNew : Outcome Unit × Worker :=
  if w.hasData then w.discardData else (.ok (), w)

/-- Handles a frame, by its status, if it is known. -/
def handleStatus : Option (Outcome Unit × Worker) :=
  if w.metadata.sessionStatus = sessionStatusKeepAlive then some w.handleStatusKeepAlive
  else if w.metadata.sessionStatus = sessionStatusEnd then some w.handleStatusEnd
  else if w.metadata.sessionStatus = sessionStatusNew then some (handleStatusNew w)
  else if w.metadata.sessionStatus = sessionStatusKeep then some (w.handleStatusKeep env)
  else none

/-- Handles the next frame. The loop goes on unless there are no metadata or their
    status is unknown; it reads them into those of the frame before. -/
def handleFrame (parseIP : Bytes → Option IPv6) : Outcome Unit × Worker :=
  match w.metadata.unmarshal parseIP w.reader with
  | (.error e, reader) =>
    match copyOutcome (.read e) with
    | .panic => (.panic, { w with reader })
    | _ => (.error e, { w with reader })
  | (.ok metadata, reader) =>
    match handleStatus env { w with metadata, reader } with
    | none => (.error unknownStatus, { w with metadata, reader })
    | some (.error _, w) => (.ok (), w)
    | some (out, w) => (out, w)

end ClientWorker

end Mux

end Gzv2ray
