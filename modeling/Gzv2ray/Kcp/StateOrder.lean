import Gzv2ray.Kcp.Closing

/-!
# The order of the states of a connection

Runs of the operations that change the state of a connection, each of them a step that makes its
changes one after the other (`Connection.stages`). The clock is read anew for each change.

* `Connection.perform_flush`, `perform_input`: with one reading of the clock, the steps are the
  operations of the connection;
* `state_rises`: every change of state goes up in the order of the states, and nothing is pushed
  once the connection is not active.
-/

namespace Gzv2ray.Kcp

/-- The place of a state in the order that a connection goes through them. -/
def State.rank : State → ℕ
  | .active => 0
  | .readyToClose | .peerClosed => 1
  | .peerTerminating => 2
  | .terminating => 3
  | .terminated => 4

instance : LT State := ⟨fun s t => s.rank < t.rank⟩

instance (s t : State) : Decidable (s < t) := inferInstanceAs (Decidable (s.rank < t.rank))

theorem State.lt_trans {s t u : State} (h : s < t) (h' : t < u) : s < u := Nat.lt_trans h h'

theorem State.not_terminated_lt (s : State) : ¬ State.terminated < s := by
  cases s <;> decide

namespace Connection

/-- The readings of the clock in a flush: at its start, and where it may enter a state. -/
structure FlushTimes where
  current : UInt32
  inactive : UInt32
  emptied : UInt32
  terminated : UInt32
  peerExpired : UInt32
  expired : UInt32

/-- What happens to a connection at once. -/
inductive Operation
  | close (current : UInt32)
  | onPeerClosed (current : UInt32)
  /-- A segment received at `current`; the clock is read again for its option and its command. -/
  | input (current option command : UInt32) (seg : Segment)
  | flush (times : FlushTimes)
  /-- An iteration of the write loop. -/
  | write (b : Buffer)
  /-- The time of a packet received is noted. -/
  | noteIncoming (current : UInt32)
  /-- The goroutine that `terminated` starts. -/
  | terminate
  | readMultiBuffer
  | read (n : ℕ)

variable (c : Connection)

/-! ## Steps -/

/-- What a segment does besides its changes of state. -/
def processSegment (current : UInt32) : Segment → Connection
  | .data seg => { c with receivingWorker := c.receivingWorker.processSegment seg }
  | .ack seg =>
    let (sendingWorker, roundTrip) :=
      c.sendingWorker.processSegment current seg c.roundTrip.timeout c.roundTrip
    { c with sendingWorker, roundTrip }
  | .cmdOnly seg => { c with
      sendingWorker := c.sendingWorker.processReceivingNext seg.receivingNext
      receivingWorker := c.receivingWorker.processSendingNext seg.sendingNext
      roundTrip := c.roundTrip.updatePeerRTO seg.peerRTO current }

/-- The change of state that the command of a segment makes. -/
def processCommand (current : UInt32) : Segment → Connection
  | .cmdOnly seg => c.handleTerminate seg.cmd current
  | _ => c

/-- A connection without incoming segments is closed. -/
def flushInactive (times : FlushTimes) : Connection :=
  if c.state = .active ∧ times.current - c.lastIncomingTime ≥ 30000 then (c.close times.inactive).1
  else c

/-- A closed connection with nothing left to send terminates. -/
def flushEmptied (times : FlushTimes) : Connection :=
  if c.state = .readyToClose ∧ c.sendingWorker.window.isEmpty then
    c.setState .terminating times.emptied else c

/-- A terminating connection tells the peer so, and is terminated after a while. -/
def flushTerminating (times : FlushTimes) : Connection :=
  let c := (c.sendPing times.current commandTerminate).1
  if times.current - c.stateBeginTime > 8000 then c.setState .terminated times.terminated else c

def flushPeerExpired (times : FlushTimes) : Connection :=
  if c.state = .peerTerminating ∧ times.current - c.stateBeginTime > 4000 then
    c.setState .terminating times.peerExpired else c

def flushExpired (times : FlushTimes) : Connection :=
  if c.state = .readyToClose ∧ times.current - c.stateBeginTime > 15000 then
    c.setState .terminating times.expired else c

/-- The connection after each of the changes that an operation makes, one after the other. -/
def stages : Operation → List Connection
  | .close current => [(c.close current).1]
  | .onPeerClosed current => [c.onPeerClosed current]
  | .input current option command seg =>
    let c₁ := c.handleOption seg.option option
    let c₂ := c₁.processCommand command seg
    [c₁, c₂, c₂.processSegment current seg]
  | .flush times =>
    if c.state = .terminated then []
    else
      let c₁ := c.flushInactive times
      let c₂ := c₁.flushEmptied times
      if c₂.state = .terminating then [c₁, c₂, c₂.flushTerminating times]
      else
        let c₃ := c₂.flushPeerExpired times
        let c₄ := c₃.flushExpired times
        [c₁, c₂, c₃, c₄, (c₄.flushWorkers times.current).1]
  | .write b => [(c.writeIteration b).1]
  | .noteIncoming current => [(c.step (.noteIncoming current)).1]
  | .terminate => [(c.step .release).1]
  | .readMultiBuffer => [c.readMultiBufferIteration.1]
  | .read n => [(c.readIteration n).1]

/-- An operation as one step. -/
def perform (op : Operation) : Connection := (c.stages op).getLastD c

theorem perform_flush (current : UInt32) :
    c.perform (.flush ⟨current, current, current, current, current, current⟩) =
      (c.flush current).1 := by
  rw [perform, stages, flush]
  split
  · rfl
  · have hidle : c.flushIdle current =
        (c.flushInactive ⟨current, current, current, current, current, current⟩).flushEmptied
          ⟨current, current, current, current, current, current⟩ := rfl
    dsimp only
    rw [hidle]
    split
    · rfl
    · rfl

theorem perform_input (current : UInt32) (seg : Segment) :
    c.perform (.input current current current seg) = c.inputSegment current seg := by
  cases seg <;> rfl

/-! ## Order -/

/-- The state stays, or a later one is entered. -/
def Rises (c c' : Connection) : Prop := c'.state = c.state ∨ c.state < c'.state

theorem Rises.trans {c c' c'' : Connection} (h : Rises c c') (h' : Rises c' c'') : Rises c c'' := by
  rcases h with h | h
  · rwa [Rises, ← h]
  · rcases h' with h' | h'
    · exact .inr (h' ▸ h)
    · exact .inr (State.lt_trans h h')

/-- A change that is made under a condition. -/
theorem Rises.ite {p : Prop} [Decidable p] {c c' : Connection} (h : p → Rises c c') :
    Rises c (if p then c' else c) := by
  split
  · rename_i hp
    exact h hp
  · exact .inl rfl

@[simp] theorem setState_state (state : State) (current : UInt32) :
    (c.setState state current).state = state := by
  cases state <;> rfl

theorem setState_rises {state : State} (h : c.state < state) (current : UInt32) :
    Rises c (c.setState state current) :=
  .inr (by rwa [setState_state])

theorem close_rises (current : UInt32) : Rises c (c.close current).1 := by
  unfold close
  split
  case h_1 | h_2 | h_3 => exact .inl rfl
  all_goals
    rename_i h
    exact c.setState_rises (by rw [h]; decide) current

theorem onPeerClosed_rises (current : UInt32) : Rises c (c.onPeerClosed current) := by
  unfold onPeerClosed
  split
  case h_3 => exact .inl rfl
  all_goals
    rename_i h
    exact c.setState_rises (by rw [h]; decide) current

theorem handleOption_rises (opt : SegmentOption) (current : UInt32) :
    Rises c (c.handleOption opt current) :=
  .ite fun _ => c.onPeerClosed_rises current

theorem handleTerminate_rises (cmd : Command) (current : UInt32) :
    Rises c (c.handleTerminate cmd current) := by
  unfold handleTerminate
  split
  · split
    case h_5 | h_6 => exact .inl rfl
    all_goals
      rename_i h
      exact c.setState_rises (by rw [h]; decide) current
  · exact .inl rfl

theorem processCommand_rises (current : UInt32) (seg : Segment) :
    Rises c (c.processCommand current seg) := by
  cases seg with
  | cmdOnly seg => exact c.handleTerminate_rises _ _
  | data | ack => exact .inl rfl

theorem processSegment_state (current : UInt32) (seg : Segment) :
    (c.processSegment current seg).state = c.state := by
  cases seg <;> rfl

theorem flushInactive_rises (times : FlushTimes) : Rises c (c.flushInactive times) :=
  .ite fun _ => c.close_rises _

theorem flushEmptied_rises (times : FlushTimes) : Rises c (c.flushEmptied times) :=
  .ite fun h => c.setState_rises (by rw [h.1]; decide) _

theorem flushTerminating_rises (times : FlushTimes) (h : c.state = .terminating) :
    Rises c (c.flushTerminating times) := by
  unfold flushTerminating
  dsimp only
  split
  · exact .inr (by rw [setState_state, h]; decide)
  · exact .inl rfl

theorem flushPeerExpired_rises (times : FlushTimes) : Rises c (c.flushPeerExpired times) :=
  .ite fun h => c.setState_rises (by rw [h.1]; decide) _

theorem flushExpired_rises (times : FlushTimes) : Rises c (c.flushExpired times) :=
  .ite fun h => c.setState_rises (by rw [h.1]; decide) _

theorem flushWorkers_state (current : UInt32) : (c.flushWorkers current).1.state = c.state := by
  unfold flushWorkers
  dsimp only
  split
  · split <;> rfl
  · split <;> rfl

theorem writeIteration_state (b : Buffer) : (c.writeIteration b).1.state = c.state := by
  unfold writeIteration
  split <;> rfl

theorem readMultiBufferIteration_state : c.readMultiBufferIteration.1.state = c.state := by
  unfold readMultiBufferIteration
  split
  · rfl
  · dsimp only
    split <;> rfl

theorem readIteration_state (n : ℕ) : (c.readIteration n).1.state = c.state := by
  unfold readIteration
  split <;> rfl

/-- Each change that an operation makes keeps the state, or enters a later one. -/
theorem stages_rise (op : Operation) : List.IsChain Rises (c :: c.stages op) := by
  have single {c' : Connection} (h : Rises c c') : List.IsChain Rises [c, c'] := by simpa using h
  rcases op with current | current | ⟨current, option, command, seg⟩ | times | b | current | - | - | n
  case close => exact single (c.close_rises current)
  case onPeerClosed => exact single (c.onPeerClosed_rises current)
  case input =>
    rw [stages]
    simp only [List.isChain_cons_cons, List.isChain_singleton, and_true]
    exact ⟨c.handleOption_rises _ _, processCommand_rises _ _ _, .inl (processSegment_state _ _ _)⟩
  case flush =>
    rw [stages]
    split
    · exact List.isChain_singleton _
    · dsimp only
      split
      · rename_i h
        simp only [List.isChain_cons_cons, List.isChain_singleton, and_true]
        exact ⟨c.flushInactive_rises _, flushEmptied_rises _ _, flushTerminating_rises _ _ h⟩
      · simp only [List.isChain_cons_cons, List.isChain_singleton, and_true]
        exact ⟨c.flushInactive_rises _, flushEmptied_rises _ _, flushPeerExpired_rises _ _,
          flushExpired_rises _ _, .inl (flushWorkers_state _ _)⟩
  case write => exact single (.inl (c.writeIteration_state b))
  case noteIncoming => exact single (.inl rfl)
  case terminate => exact single (.inl rfl)
  case readMultiBuffer => exact single (.inl c.readMultiBufferIteration_state)
  case read => exact single (.inl (c.readIteration_state n))

/-- What holds from each stage to the next holds from the first to the last. -/
theorem getLastD_of_isChain {R : Connection → Connection → Prop} (hrefl : ∀ c, R c c)
    (htrans : ∀ {c c' c''}, R c c' → R c' c'' → R c c'') {l : List Connection}
    (h : List.IsChain R (c :: l)) : R c (l.getLastD c) := by
  induction l generalizing c with
  | nil => exact hrefl c
  | cons c' l ih =>
    rw [List.isChain_cons_cons] at h
    rw [List.getLastD_cons]
    exact htrans h.1 (ih c' h.2)

theorem perform_rises (op : Operation) : Rises c (c.perform op) :=
  getLastD_of_isChain c (R := Rises) (fun _ => .inl rfl) Rises.trans (c.stages_rise op)

/-! ## Pushes -/

/-- Nothing is pushed into the sending window. -/
def PushesNothing (c c' : Connection) : Prop :=
  c.sendingWorker.Retains Set.univ c'.sendingWorker

theorem PushesNothing.of_eq {c c' : Connection} (h : c'.sendingWorker = c.sendingWorker) :
    PushesNothing c c' := by
  rw [PushesNothing, h]
  exact .refl _

theorem PushesNothing.trans {c c' c'' : Connection} (h : PushesNothing c c')
    (h' : PushesNothing c' c'') : PushesNothing c c'' :=
  SendingWorker.Retains.trans h h'

theorem PushesNothing.ite {p : Prop} [Decidable p] {c c' : Connection} (h : PushesNothing c c') :
    PushesNothing c (if p then c' else c) := by
  split
  · exact h
  · exact .of_eq rfl

theorem setState_pushesNothing (state : State) (current : UInt32) :
    PushesNothing c (c.setState state current) := by
  have hclose : c.sendingWorker.Retains Set.univ c.sendingWorker.closeWrite :=
    ⟨rfl, c.sendingWorker.window.ids_clear_subset _, fun _ _ => .inr trivial⟩
  cases state
  case active | readyToClose => exact .of_eq rfl
  all_goals exact hclose

theorem close_pushesNothing (current : UInt32) : PushesNothing c (c.close current).1 := by
  unfold close
  split
  case h_1 | h_2 | h_3 => exact .of_eq rfl
  all_goals exact c.setState_pushesNothing _ _

theorem onPeerClosed_pushesNothing (current : UInt32) :
    PushesNothing c (c.onPeerClosed current) := by
  unfold onPeerClosed
  split
  case h_3 => exact .of_eq rfl
  all_goals exact c.setState_pushesNothing _ _

theorem handleOption_pushesNothing (opt : SegmentOption) (current : UInt32) :
    PushesNothing c (c.handleOption opt current) :=
  .ite (c.onPeerClosed_pushesNothing current)

theorem processCommand_pushesNothing (current : UInt32) (seg : Segment) :
    PushesNothing c (c.processCommand current seg) := by
  cases seg with
  | data | ack => exact .of_eq rfl
  | cmdOnly seg =>
    rw [processCommand, handleTerminate]
    split
    · split
      case h_5 | h_6 => exact .of_eq rfl
      all_goals exact c.setState_pushesNothing _ _
    · exact .of_eq rfl

theorem processSegment_pushesNothing (current : UInt32) (seg : Segment) :
    PushesNothing c (c.processSegment current seg) := by
  cases seg with
  | data seg => exact .of_eq rfl
  | ack seg => exact (c.sendingWorker.processSegment_retains _ _ _ _).mono (Set.subset_univ _)
  | cmdOnly seg => exact (c.sendingWorker.processReceivingNext_retains _).mono (Set.subset_univ _)

theorem flushInactive_pushesNothing (times : FlushTimes) :
    PushesNothing c (c.flushInactive times) :=
  .ite (c.close_pushesNothing _)

theorem flushEmptied_pushesNothing (times : FlushTimes) :
    PushesNothing c (c.flushEmptied times) :=
  .ite (c.setState_pushesNothing _ _)

theorem flushTerminating_pushesNothing (times : FlushTimes) :
    PushesNothing c (c.flushTerminating times) := by
  unfold flushTerminating
  dsimp only
  split
  · have hping : PushesNothing c (c.sendPing times.current commandTerminate).1 := .of_eq rfl
    exact hping.trans (setState_pushesNothing _ _ _)
  · exact .of_eq rfl

theorem flushPeerExpired_pushesNothing (times : FlushTimes) :
    PushesNothing c (c.flushPeerExpired times) :=
  .ite (c.setState_pushesNothing _ _)

theorem flushExpired_pushesNothing (times : FlushTimes) :
    PushesNothing c (c.flushExpired times) :=
  .ite (c.setState_pushesNothing _ _)

theorem flushWorkers_pushesNothing (current : UInt32) :
    PushesNothing c (c.flushWorkers current).1 := by
  have hflush := ((c.sendingWorker.flush_retains c.config c.conv c.closing c.roundTrip.timeout
    current).1).mono (Set.subset_univ _)
  unfold flushWorkers
  dsimp only
  split
  · split
    · exact hflush
    · exact hflush
  · split
    · exact hflush
    · exact hflush

/-- Only the write loop pushes, and only if the connection is active. -/
theorem stages_pushNothing (h : c.state ≠ .active) (op : Operation) :
    List.IsChain PushesNothing (c :: c.stages op) := by
  have single {c' : Connection} (h : PushesNothing c c') : List.IsChain PushesNothing [c, c'] := by
    simpa using h
  rcases op with current | current | ⟨current, option, command, seg⟩ | times | b | current | - | - | n
  case close => exact single (c.close_pushesNothing current)
  case onPeerClosed => exact single (c.onPeerClosed_pushesNothing current)
  case input =>
    rw [stages]
    simp only [List.isChain_cons_cons, List.isChain_singleton, and_true]
    exact ⟨c.handleOption_pushesNothing _ _, processCommand_pushesNothing _ _ _,
      processSegment_pushesNothing _ _ _⟩
  case flush =>
    rw [stages]
    split
    · exact List.isChain_singleton _
    · dsimp only
      split
      · simp only [List.isChain_cons_cons, List.isChain_singleton, and_true]
        exact ⟨c.flushInactive_pushesNothing _, flushEmptied_pushesNothing _ _,
          flushTerminating_pushesNothing _ _⟩
      · simp only [List.isChain_cons_cons, List.isChain_singleton, and_true]
        exact ⟨c.flushInactive_pushesNothing _, flushEmptied_pushesNothing _ _,
          flushPeerExpired_pushesNothing _ _, flushExpired_pushesNothing _ _,
          flushWorkers_pushesNothing _ _⟩
  case write =>
    refine single (.of_eq ?_)
    rw [writeIteration, if_neg h]
  case noteIncoming => exact single (.of_eq rfl)
  case terminate =>
    exact single ⟨rfl, List.nil_subset _, fun _ _ => .inr trivial⟩
  case readMultiBuffer =>
    refine single (.of_eq ?_)
    unfold readMultiBufferIteration
    split
    · rfl
    · dsimp only
      split <;> rfl
  case read =>
    refine single (.of_eq ?_)
    unfold readIteration
    split <;> rfl

theorem perform_pushesNothing (h : c.state ≠ .active) (op : Operation) :
    PushesNothing c (c.perform op) :=
  getLastD_of_isChain c (R := PushesNothing) (fun _ => .of_eq rfl) PushesNothing.trans
    (c.stages_pushNothing h op)

end Connection

/-! ## Runs -/

open Connection

/-- The runs of a connection. -/
def connectionRuns : Lts Connection Operation where
  init c := ∃ conv config overhead, c = .new conv config overhead
  step c op c' := c' = c.perform op

/-- In every run, each change of state enters a later one, `terminated` is never left, and
    nothing is pushed into the window once the connection is not active. -/
theorem state_rises {c c' : Connection} {ops : List Operation} (h : connectionRuns.Exec c ops c') :
    (c'.state = c.state ∨ c.state < c'.state) ∧
      (∀ op, List.IsChain (fun c c' => c'.state = c.state ∨ c.state < c'.state)
        (c' :: c'.stages op)) ∧
      (c.state = .terminated → c'.state = .terminated) ∧
      (c.state ≠ .active →
        (∀ b, c'.writeIteration b = (c', none)) ∧
        c'.sendingWorker.nextNumber = c.sendingWorker.nextNumber ∧
        c'.sendingWorker.window.ids ⊆ c.sendingWorker.window.ids) := by
  have hrises : Rises c c' := by
    refine h.preserves (I := Rises c) ?_ (.inl rfl)
    rintro c₁ op _ hc rfl
    exact hc.trans (perform_rises c₁ op)
  refine ⟨hrises, c'.stages_rise, fun hterminated => ?_, fun hactive => ?_⟩
  · rcases hrises with hstate | hlt
    · rw [hstate, hterminated]
    · exact absurd (hterminated ▸ hlt) (State.not_terminated_lt _)
  · -- Once it is not active, the connection stays so, and each step pushes nothing.
    have hlater {c c' : Connection} (hc : c.state ≠ .active) (h : Rises c c') :
        c'.state ≠ .active := by
      rcases h with hstate | hlt
      · rwa [hstate]
      · intro h'
        rw [h'] at hlt
        exact absurd hlt (Nat.not_lt_zero _)
    have hsilent : c'.state ≠ .active ∧ PushesNothing c c' := by
      refine h.preserves (I := fun c' => c'.state ≠ .active ∧ PushesNothing c c') ?_
        ⟨hactive, .of_eq rfl⟩
      rintro c₁ op _ ⟨hc₁, hpushes⟩ rfl
      exact ⟨hlater hc₁ (perform_rises _ op), hpushes.trans (perform_pushesNothing _ hc₁ op)⟩
    refine ⟨fun b => ?_, hsilent.2.nextNumber, hsilent.2.subset⟩
    rw [writeIteration, if_neg hsilent.1]

/-- A connection that is closed while nothing is in its window, and flushed until it is
    terminated. -/
theorem state_rises_example :
    let c := new 7 {} 0
    let flush (t : UInt32) : Operation := .flush ⟨t, t, t, t, t, t⟩
    let c' := ((c.perform (.close 10)).perform (flush 20)).perform (flush 9000)
    c'.state = .terminated ∧ c'.sendingWorker.nextNumber = c.sendingWorker.nextNumber := by
  intro c flush c'
  have hclosed : (c.perform (.close 10)).state ≠ .active := by decide
  refine ⟨by decide, ?_⟩
  exact ((state_rises (.cons (a := flush 20) rfl (.cons (a := flush 9000) rfl (.nil _)))).2.2.2
    hclosed).2.1

end Gzv2ray.Kcp
