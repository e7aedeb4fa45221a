import Gzv2ray.Buf.Reader
import Gzv2ray.Lib.Transition

/-!
# Pipes

A pipe between writers and readers, which share it under a lock, and wait for each other
without it.

* `Pipe`: what is shared, with the sections that are run under the lock;
* `PipeCall`: where a call to the pipe stands;
* `piping`: the transition system of any number of calls, each section under the lock being
  one step. Besides the calls it records which writes were accepted, and what was read.
-/

namespace Gzv2ray.Transport

/-- The state of a pipe. -/
inductive PipeState
  | open_
  | closed
  | errord
  deriving DecidableEq

structure PipeOption where
  /-- The most bytes for the pipe not to be full, if not negative. -/
  limit : ℤ := -1
  discardOverflow : Bool := false

def PipeOption.isFull (o : PipeOption) (curSize : ℤ) : Bool := o.limit ≥ 0 && curSize > o.limit

/-- A pipe. A notifier holds a signal or not. -/
structure Pipe where
  data : Option MultiBuffer := none
  readSignal : Bool := false
  writeSignal : Bool := false
  done : Bool := false
  option : PipeOption
  state : PipeState := .open_

def errBufferFull : Error := .new (ascii "buffer full")
def errSlowDown : Error := .new (ascii "slow down")

/-! ## Under the lock -/

namespace Pipe

variable (p : Pipe)

/-- The buffers that are pending, none for `nil`. -/
def pending : MultiBuffer := p.data.getD []

/-- The size of what is pending, as the sum of sizes that it is computed as. -/
def len : ℤ := int32 (MultiBuffer.len p.pending)

def getState (forRead : Bool) : Option Error :=
  match p.state with
  | .open_ => if !forRead && p.option.isFull p.len then some errBufferFull else none
  | .closed =>
    if !forRead then some .closedPipe
    else if !MultiBuffer.isEmpty p.pending then none
    else some .eof
  | .errord => some .closedPipe

def readMultiBufferInternal : Pipe × Except Error (Option MultiBuffer) :=
  match p.getState true with
  | some err => (p, .error err)
  | none => ({ p with data := none }, .ok p.data)

def writeMultiBufferInternal (mb : MultiBuffer) : Pipe × Option Error :=
  match p.getState false with
  | some err => (p, some err)
  | none =>
    match p.data with
    | none => ({ p with data := some mb }, none)
    | some data => ({ p with data := some (data ++ mb) }, some errSlowDown)

def close : Pipe :=
  if p.state = .closed ∨ p.state = .errord then p else { p with state := .closed, done := true }

/-- What is pending is dropped. -/
def interrupt : Pipe :=
  if p.state = .closed ∨ p.state = .errord then p
  else { p with
    state := .errord
    data := if MultiBuffer.isEmpty p.pending then p.data else none
    done := true }

end Pipe

/-! ## Calls -/

/-- What a call returns. -/
inductive PipeResult
  | written (err : Option Error)
  | read (out : Except Error MultiBuffer)

/-- Where a call stands. -/
inductive PipeCall
  /-- It has not begun. -/
  | idle
  /-- `WriteMultiBuffer` is about to take the lock. -/
  | writing (mb : MultiBuffer)
  /-- It waits for a reader, or for the end. -/
  | waitingWrite (mb : MultiBuffer)
  /-- `ReadMultiBuffer` is about to take the lock; or `ReadMultiBufferTimeout`, which has a timer. -/
  | reading (timer : Bool)
  /-- It waits for a writer, or for the end. -/
  | waitingRead (timer : Bool)
  /-- It is about to signal the readers, and to return. -/
  | signalRead (err : Option Error)
  /-- It is about to signal the writers, and to return. -/
  | signalWrite (out : Except Error MultiBuffer)
  | returned (result : PipeResult)

def errReadTimeout : Error := .new (ascii "IO timeout")

/-- A pipe and the calls to it. -/
structure PipeSystem where
  pipe : Pipe
  calls : ℕ → PipeCall := fun _ => .idle
  /-- What each write was to write. -/
  begun : ℕ → Option MultiBuffer := fun _ => none
  /-- The writes whose data the pipe took, in this order. -/
  accepted : List (ℕ × MultiBuffer) := []
  /-- The bytes that were read. -/
  delivered : Bytes := []

/-- A step of a call, or of the program. -/
inductive PipeEvent
  | writeMultiBuffer (i : ℕ) (mb : MultiBuffer)
  | readMultiBuffer (i : ℕ) (timer : Bool)
  /-- The call runs its section under the lock. -/
  | lock (i : ℕ)
  /-- It sends its signal. -/
  | signal (i : ℕ)
  /-- It receives the signal it waits for. -/
  | wake (i : ℕ)
  /-- It sees that the pipe is done. -/
  | done (i : ℕ)
  /-- Its timer fires. -/
  | timeout (i : ℕ)
  | close
  | interrupt

namespace PipeSystem

variable (s : PipeSystem)

/-- The call is somewhere else. -/
def goto (i : ℕ) (call : PipeCall) : PipeSystem := { s with calls := Function.update s.calls i call }

/-- The section of a write under the lock, and what is done about its outcome. -/
def lockWrite (i : ℕ) (mb : MultiBuffer) : PipeSystem :=
  let (pipe, err) := s.pipe.writeMultiBufferInternal mb
  let s' := { s with pipe }
  match err with
  | none => { s' with accepted := s.accepted ++ [(i, mb)] }.goto i (.signalRead none)
  | some err =>
    if err = errSlowDown then { s' with accepted := s.accepted ++ [(i, mb)] }.goto i (.signalRead none)
    else if err = errBufferFull ∧ s.pipe.option.discardOverflow = true then
      s'.goto i (.returned (.written none))
    else if err ≠ errBufferFull then s'.goto i (.signalRead (some err))
    else s'.goto i (.waitingWrite mb)

/-- The section of a read under the lock, and what is done about its outcome. -/
def lockRead (i : ℕ) (timer : Bool) : PipeSystem :=
  let (pipe, out) := s.pipe.readMultiBufferInternal
  let s' := { s with pipe }
  match out with
  | .error err => s'.goto i (.signalWrite (.error err))
  | .ok (some data) =>
    { s' with delivered := s.delivered ++ MultiBuffer.bytes data }.goto i (.signalWrite (.ok data))
  | .ok none => s'.goto i (.waitingRead timer)

/-- When an event can happen. -/
def Enabled : PipeEvent → Prop
  | .writeMultiBuffer i _ => s.calls i = .idle
  | .readMultiBuffer i _ => s.calls i = .idle
  | .lock i => (∃ mb, s.calls i = .writing mb) ∨ ∃ timer, s.calls i = .reading timer
  | .signal i => (∃ err, s.calls i = .signalRead err) ∨ ∃ out, s.calls i = .signalWrite out
  | .wake i => (∃ mb, s.calls i = .waitingWrite mb ∧ s.pipe.writeSignal = true) ∨
      ∃ timer, s.calls i = .waitingRead timer ∧ s.pipe.readSignal = true
  | .done i => ((∃ mb, s.calls i = .waitingWrite mb) ∨ ∃ timer, s.calls i = .waitingRead timer) ∧
      s.pipe.done = true
  | .timeout i => s.calls i = .waitingRead true
  | .close => True
  | .interrupt => True

/-- What an event does. -/
def step : PipeEvent → PipeSystem
  | .writeMultiBuffer i mb =>
    { s with begun := Function.update s.begun i (some mb) }.goto i
      (if MultiBuffer.isEmpty mb then .returned (.written none) else .writing mb)
  | .readMultiBuffer i timer => s.goto i (.reading timer)
  | .lock i =>
    match s.calls i with
    | .writing mb => s.lockWrite i mb
    | .reading timer => s.lockRead i timer
    | _ => s
  | .signal i =>
    match s.calls i with
    | .signalRead err =>
      { s with pipe := { s.pipe with readSignal := true } }.goto i (.returned (.written err))
    | .signalWrite out =>
      { s with pipe := { s.pipe with writeSignal := true } }.goto i (.returned (.read out))
    | _ => s
  | .wake i =>
    match s.calls i with
    | .waitingWrite mb => { s with pipe := { s.pipe with writeSignal := false } }.goto i (.writing mb)
    | .waitingRead timer => { s with pipe := { s.pipe with readSignal := false } }.goto i (.reading timer)
    | _ => s
  | .done i =>
    match s.calls i with
    | .waitingWrite _ => s.goto i (.returned (.written (some .closedPipe)))
    | .waitingRead timer => s.goto i (.reading timer)
    | _ => s
  | .timeout i => s.goto i (.returned (.read (.error errReadTimeout)))
  | .close => { s with pipe := s.pipe.close }
  | .interrupt => { s with pipe := s.pipe.interrupt }

end PipeSystem

/-- The transition system of the calls to a new pipe. -/
def piping (option : PipeOption) : Lts PipeSystem PipeEvent where
  init s := s = { pipe := { option } }
  step s e s' := s.Enabled e ∧ s' = s.step e

end Gzv2ray.Transport
