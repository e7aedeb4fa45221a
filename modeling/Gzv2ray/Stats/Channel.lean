import Gzv2ray.Buf.Reader
import Gzv2ray.Lib.Transition

/-!
# Channels of statistics

A `Channel` hands what is published to all its subscribers, each of which has a channel of Go. Its
goroutine, which `Start` starts, takes the messages in and sends them on; once the channel is
closed, it removes the subscribers and closes their channels.

* `Chan`: a channel of Go;
* `Channel.step`: the steps of the calls, of the goroutines and of the subscribers;
* `Failure`: the panics of Go, for a message sent to a closed channel or a channel closed twice.
-/

namespace Gzv2ray.Stats

/-! ## Channels of Go -/

/-- A channel: the messages in its buffer, or how many goroutines wait for one. -/
structure Chan where
  buffer : List ℕ := []
  receivers : ℕ := 0
  closed : Bool := false
  deriving DecidableEq

namespace Chan

variable (c : Chan)

/-- A message can be sent at once. -/
def ready (size : ℕ) : Bool := 0 < c.receivers || c.buffer.length < size

def send (message : ℕ) : Chan :=
  if 0 < c.receivers then { c with receivers := c.receivers - 1 }
  else { c with buffer := c.buffer ++ [message] }

/-- A goroutine receives a message or waits for one. -/
def receive : Chan :=
  match c.buffer with
  | _ :: buffer => { c with buffer }
  | [] => if c.closed then c else { c with receivers := c.receivers + 1 }

def close : Chan := { c with receivers := 0, closed := true }

@[simp] theorem send_closed (message : ℕ) : (c.send message).closed = c.closed := by
  rw [send]
  split <;> rfl

@[simp] theorem receive_closed : c.receive.closed = c.closed := by
  rw [receive]
  split
  · rfl
  · split <;> rfl

end Chan

/-! ## The channel -/

/-- Where a goroutine that `Start` started is. -/
inductive LoopPhase
  | idle
  /-- It waits for a message, or for the signal that it has read to be closed. -/
  | selecting (closed : Option ℕ)
  | received (pub : ℕ)
  /-- It has a message to send to these subscribers. -/
  | broadcasting (pub : ℕ) (subs : List ℕ)
  | ended
  /-- It has these subscribers to remove, -/
  | removing (subs : List ℕ)
  /-- one of which is removed and not closed yet. -/
  | closing (sub : ℕ) (subs : List ℕ)
  | returned
  deriving DecidableEq

/-- A panic of Go. -/
inductive Failure
  | sendOnClosed (sub : ℕ)
  | closeOfClosed (sub : ℕ)
  | closeOfClosedSignal (closed : ℕ)
  deriving DecidableEq

/-- A channel, with the channels of subscribers, the signals, the contexts and the goroutines that
    there are. A message is known by a number, and so are the others. -/
structure Channel where
  blocking : Bool
  bufferSize : ℕ
  subsLimit : ℕ
  /-- The messages in the buffer of the channel itself. -/
  channel : List ℕ := []
  subscribers : List ℕ := []
  closed : Option ℕ := none
  /-- How many signals were made, and which are closed. -/
  signals : ℕ := 0
  signalClosed : ℕ → Bool := fun _ => false
  /-- How many subscribers there were. -/
  subscribed : ℕ := 0
  chans : ℕ → Chan := fun _ => {}
  /-- The messages whose contexts are done. -/
  done : ℕ → Bool := fun _ => false
  /-- The messages that goroutines publish, -/
  publishers : List ℕ := []
  /-- and those that they broadcast, each to a subscriber. -/
  broadcasts : List (ℕ × ℕ) := []
  loops : List LoopPhase := []
  failure : Option Failure := none

/-- A step of a goroutine of `Start`. -/
inductive LoopAction
  /-- It reads the signal, and then receives a message or the signal, -/
  | select
  | receivePub
  | handOver (pub : ℕ)
  | receiveClosed
  /-- retrieves the subscribers, -/
  | retrieve
  /-- sends to the next one, or not since the context is done, -/
  | broadcast
  | skip
  /-- or removes it, and closes it. -/
  | remove
  | closeSub

/-- What may happen next. -/
inductive ChannelAction
  | subscribe
  | unsubscribe (sub : ℕ)
  | publish (pub : ℕ)
  | start
  | close
  /-- The context of a message is done. -/
  | cancel (pub : ℕ)
  /-- A subscriber receives. -/
  | receive (sub : ℕ)
  /-- A message that is published goes into the buffer, or nowhere since its context is done. -/
  | enqueue (pub : ℕ)
  | giveUp (pub : ℕ)
  | loop (g : ℕ) (a : LoopAction)
  /-- A goroutine of a broadcast sends, or not since the context is done. -/
  | deliver (pub sub : ℕ)
  | drop (pub sub : ℕ)

namespace LoopPhase

/-- With a message for these subscribers. -/
def toBroadcast (pub : ℕ) : List ℕ → LoopPhase
  | [] => idle
  | sub :: subs => broadcasting pub (sub :: subs)

/-- With these subscribers to be removed. -/
def toRemove : List ℕ → LoopPhase
  | [] => returned
  | sub :: subs => removing (sub :: subs)

end LoopPhase

namespace Channel

variable (s : Channel)

def running : Bool :=
  match s.closed with
  | none => false
  | some closed => !s.signalClosed closed

def setLoop (g : ℕ) (p : LoopPhase) : Channel := { s with loops := s.loops.set g p }

/-- A message is sent to a subscriber, if that can be done at once. -/
def send (pub sub : ℕ) : Option Channel :=
  if (s.chans sub).closed then some { s with failure := some (.sendOnClosed sub) }
  else if (s.chans sub).ready s.bufferSize then
    some { s with chans := Function.update s.chans sub ((s.chans sub).send pub) }
  else none

def subscribe : Channel :=
  if 0 < s.subsLimit ∧ s.subsLimit ≤ s.subscribers.length then s
  else { s with subscribers := s.subscribers ++ [s.subscribed], subscribed := s.subscribed + 1 }

/-- A subscriber is in the list once at most. -/
def unsubscribe (sub : ℕ) : Channel := { s with subscribers := s.subscribers.erase sub }

/-- A message is published by the caller, or a goroutine if the caller is not to wait. -/
def publish (pub : ℕ) : Channel :=
  match s.closed with
  | some closed =>
    if s.signalClosed closed then s else { s with publishers := pub :: s.publishers }
  | none => { s with publishers := pub :: s.publishers }

def start : Channel :=
  if s.running then s
  else { s with closed := some s.signals, signals := s.signals + 1, loops := s.loops ++ [.idle] }

def close : Channel :=
  match s.closed with
  | none => s
  | some closed =>
    if s.running then
      if s.signalClosed closed then { s with failure := some (.closeOfClosedSignal closed) }
      else { s with signalClosed := Function.update s.signalClosed closed true }
    else s

/-- A broadcast to the next subscriber. If it is not to wait, a goroutine does. -/
def broadcast (pub sub : ℕ) : Option Channel :=
  match s.send pub sub with
  | some s => some s
  | none => if s.blocking then none else some { s with broadcasts := (pub, sub) :: s.broadcasts }

def closeSub (sub : ℕ) : Channel :=
  if (s.chans sub).closed then { s with failure := some (.closeOfClosed sub) }
  else { s with chans := Function.update s.chans sub (s.chans sub).close }

/-- A step of a goroutine of `Start`, from where it is. -/
def loopStep (g : ℕ) (p : LoopPhase) : LoopAction → Option Channel
  | .select =>
    match p with
    | .idle => some (s.setLoop g (.selecting s.closed))
    | _ => none
  | .receivePub =>
    match p, s.channel with
    | .selecting _, pub :: channel => some ({ s with channel }.setLoop g (.received pub))
    | _, _ => none
  | .handOver pub =>
    match p, s.channel with
    | .selecting _, [] =>
      if pub ∈ s.publishers then
        some ({ s with publishers := s.publishers.erase pub }.setLoop g (.received pub))
      else none
    | _, _ => none
  | .receiveClosed =>
    match p with
    | .selecting (some closed) => if s.signalClosed closed then some (s.setLoop g .ended) else none
    | _ => none
  | .retrieve =>
    match p with
    | .received pub => some (s.setLoop g (.toBroadcast pub s.subscribers))
    | .ended => some (s.setLoop g (.toRemove s.subscribers))
    | _ => none
  | .broadcast =>
    match p with
    | .broadcasting pub (sub :: subs) =>
      (s.broadcast pub sub).map fun s => s.setLoop g (.toBroadcast pub subs)
    | _ => none
  | .skip =>
    match p with
    | .broadcasting pub (_ :: subs) =>
      if s.blocking ∧ s.done pub then some (s.setLoop g (.toBroadcast pub subs)) else none
    | _ => none
  | .remove =>
    match p with
    | .removing (sub :: subs) => some ((s.unsubscribe sub).setLoop g (.closing sub subs))
    | _ => none
  | .closeSub =>
    match p with
    | .closing sub subs => some ((s.closeSub sub).setLoop g (.toRemove subs))
    | _ => none

/-- What an action does, if it can be taken. -/
def act : ChannelAction → Option Channel
  | .subscribe => some s.subscribe
  | .unsubscribe sub => some (s.unsubscribe sub)
  | .publish pub => some (s.publish pub)
  | .start => some s.start
  | .close => some s.close
  | .cancel pub => some { s with done := Function.update s.done pub true }
  | .receive sub =>
    if sub < s.subscribed then
      some { s with chans := Function.update s.chans sub (s.chans sub).receive }
    else none
  | .enqueue pub =>
    if pub ∈ s.publishers ∧ s.channel.length < s.bufferSize then
      some { s with channel := s.channel ++ [pub], publishers := s.publishers.erase pub }
    else none
  | .giveUp pub =>
    if pub ∈ s.publishers ∧ s.done pub then
      some { s with publishers := s.publishers.erase pub }
    else none
  | .loop g a =>
    match s.loops[g]? with
    | none => none
    | some p => s.loopStep g p a
  | .deliver pub sub =>
    if (pub, sub) ∈ s.broadcasts then
      (s.send pub sub).map fun s => { s with broadcasts := s.broadcasts.erase (pub, sub) }
    else none
  | .drop pub sub =>
    if (pub, sub) ∈ s.broadcasts ∧ s.done pub then
      some { s with broadcasts := s.broadcasts.erase (pub, sub) }
    else none

/-- The steps. A panic ends the program. -/
def step (a : ChannelAction) : Option Channel := if s.failure.isSome then none else s.act a

/-- The runs of a new channel. -/
def lts : Lts Channel ChannelAction where
  init s := ∃ blocking bufferSize subsLimit, s = { blocking, bufferSize, subsLimit }
  step s a t := s.step a = some t

end Channel

end Gzv2ray.Stats
