import Gzv2ray.Transport.Pipe

/-!
# The order of pipes

In every run of the calls to a pipe, the bytes read and those pending are the data of the
writes that were accepted, in this order, but for what an interrupt drops.

* `PipeSystem.Account`: the invariant, of what is shared and of each call
  (`Account.step`);
* `pipe_lawful`: what follows from it of any reachable state, and the bound on what is
  pending, as long as its size does not overflow;
* `pending_exceeds`: a run in which it is not.
-/

namespace Gzv2ray.Transport

/-! ## Sections under the lock -/

theorem PipeOption.isFull_of_le {o : PipeOption} {n : ℤ} (h : n ≤ o.limit) : o.isFull n = false := by
  rw [isFull, decide_eq_false (Int.not_lt.2 h), Bool.and_false]

namespace Pipe

variable {p : Pipe}

theorem getState_write_eq_none (h : p.getState false = none) :
    p.state = .open_ ∧ p.option.isFull p.len = false := by
  rw [getState] at h
  cases hstate : p.state with
  | open_ =>
    rw [hstate] at h
    cases hfull : p.option.isFull p.len with
    | true => simp [hfull] at h
    | false => exact ⟨rfl, rfl⟩
  | closed => simp [hstate] at h
  | errord => simp [hstate] at h

/-- A write to a pipe that is open and not full takes place. -/
theorem writeMultiBufferInternal_of_open (hstate : p.state = .open_) (hfull : p.option.isFull p.len = false)
    (mb : MultiBuffer) : (p.writeMultiBufferInternal mb).1 = { p with data := some (p.pending ++ mb) } ∧
      ((p.writeMultiBufferInternal mb).2 = none ∨ (p.writeMultiBufferInternal mb).2 = some errSlowDown) := by
  have hget : p.getState false = none := by
    rw [getState, hstate]
    dsimp only
    rw [hfull]
    rfl
  rw [writeMultiBufferInternal, hget, pending]
  cases p.data with
  | none => exact ⟨rfl, .inl rfl⟩
  | some data => exact ⟨rfl, .inr rfl⟩

/-- Any other write is refused. -/
theorem writeMultiBufferInternal_cases (p : Pipe) (mb : MultiBuffer) :
    (p.state = .open_ ∧ p.option.isFull p.len = false) ∨
    ((p.writeMultiBufferInternal mb).1 = p ∧
      ((p.writeMultiBufferInternal mb).2 = some errBufferFull ∨
        (p.writeMultiBufferInternal mb).2 = some .closedPipe)) := by
  rw [writeMultiBufferInternal]
  cases hget : p.getState false with
  | none => exact .inl (getState_write_eq_none hget)
  | some err =>
    refine .inr ⟨rfl, ?_⟩
    rw [getState] at hget
    cases hstate : p.state with
    | open_ =>
      cases hfull : p.option.isFull p.len <;> simp [hstate, hfull] at hget
      exact .inl (by rw [← hget])
    | closed =>
      simp only [hstate, Bool.not_false, if_true, Option.some.injEq] at hget
      exact .inr (by rw [← hget])
    | errord =>
      simp only [hstate, Option.some.injEq] at hget
      exact .inr (by rw [← hget])

/-- A read takes all that is pending, unless it is refused. -/
theorem readMultiBufferInternal_cases (p : Pipe) :
    (p.state ≠ .errord ∧ p.readMultiBufferInternal = ({ p with data := none }, .ok p.data)) ∨
    ∃ err, p.readMultiBufferInternal = (p, .error err) ∧
      (err = .eof → p.state = .closed ∧ MultiBuffer.bytes p.pending = []) := by
  rw [readMultiBufferInternal]
  cases hget : p.getState true with
  | none =>
    refine .inl ⟨fun hstate => ?_, rfl⟩
    simp [getState, hstate] at hget
  | some err =>
    refine .inr ⟨err, rfl, ?_⟩
    rintro rfl
    rw [getState] at hget
    cases hstate : p.state with
    | open_ => simp [hstate] at hget
    | closed =>
      cases hempty : MultiBuffer.isEmpty p.pending with
      | true => exact ⟨rfl, (MultiBuffer.isEmpty_iff _).1 hempty⟩
      | false => simp [hstate, hempty] at hget
    | errord => simp [hstate] at hget

/-- Once closed, what is pending can be read, and the end of the file is seen after it. -/
theorem readMultiBufferInternal_closed (h : p.state = .closed) :
    (p.readMultiBufferInternal).2 =
      if MultiBuffer.isEmpty p.pending then .error .eof else .ok p.data := by
  rw [readMultiBufferInternal, getState, h]
  cases MultiBuffer.isEmpty p.pending <;> rfl

end Pipe

namespace PipeSystem

variable {s : PipeSystem} {i : ℕ} {call : PipeCall}

@[simp] theorem goto_pipe : (s.goto i call).pipe = s.pipe := rfl
@[simp] theorem goto_begun : (s.goto i call).begun = s.begun := rfl
@[simp] theorem goto_accepted : (s.goto i call).accepted = s.accepted := rfl
@[simp] theorem goto_delivered : (s.goto i call).delivered = s.delivered := rfl
@[simp] theorem goto_calls_self : (s.goto i call).calls i = call := Function.update_self ..
@[simp] theorem goto_calls_of_ne {j : ℕ} (h : j ≠ i) : (s.goto i call).calls j = s.calls j :=
  Function.update_of_ne h ..

/-- The section of a write that takes place. -/
theorem lockWrite_of_open (hstate : s.pipe.state = .open_) (hfull : s.pipe.option.isFull s.pipe.len = false)
    (i : ℕ) (mb : MultiBuffer) : s.lockWrite i mb = PipeSystem.goto { s with
      pipe := { s.pipe with data := some (s.pipe.pending ++ mb) }
      accepted := s.accepted ++ [(i, mb)] } i (.signalRead none) := by
  rw [lockWrite]
  obtain ⟨hp, herr | herr⟩ := Pipe.writeMultiBufferInternal_of_open hstate hfull mb
  · dsimp only
    rw [herr, hp]
  · dsimp only
    rw [herr, hp]
    exact if_pos rfl

/-- What the section of a write does. -/
theorem lockWrite_cases (s : PipeSystem) (i : ℕ) (mb : MultiBuffer) :
    (s.pipe.state = .open_ ∧ s.pipe.option.isFull s.pipe.len = false ∧
      s.lockWrite i mb = PipeSystem.goto { s with
        pipe := { s.pipe with data := some (s.pipe.pending ++ mb) }
        accepted := s.accepted ++ [(i, mb)] } i (.signalRead none)) ∨
    (s.pipe.option.discardOverflow = true ∧ s.lockWrite i mb = s.goto i (.returned (.written none))) ∨
    s.lockWrite i mb = s.goto i (.signalRead (some .closedPipe)) ∨
    s.lockWrite i mb = s.goto i (.waitingWrite mb) := by
  have hslow : errBufferFull ≠ errSlowDown := by decide
  have hclosed : Error.closedPipe ≠ errSlowDown ∧ Error.closedPipe ≠ errBufferFull := by decide
  rcases s.pipe.writeMultiBufferInternal_cases mb with ⟨hstate, hfull⟩ | ⟨hp, herr⟩
  · exact .inl ⟨hstate, hfull, lockWrite_of_open hstate hfull i mb⟩
  rw [lockWrite]
  rcases herr with herr | herr
  · dsimp only
    rw [herr, hp]
    dsimp only
    rw [if_neg hslow]
    by_cases hdiscard : s.pipe.option.discardOverflow = true
    · rw [if_pos ⟨rfl, hdiscard⟩]
      exact .inr (.inl ⟨hdiscard, rfl⟩)
    · rw [if_neg fun h => hdiscard h.2, if_neg (not_not.2 rfl)]
      exact .inr (.inr (.inr rfl))
  · dsimp only
    rw [herr, hp]
    dsimp only
    rw [if_neg hclosed.1, if_neg fun h => hclosed.2 h.1, if_pos hclosed.2]
    exact .inr (.inr (.inl rfl))

/-- What the section of a read does. -/
theorem lockRead_cases (s : PipeSystem) (i : ℕ) (timer : Bool) :
    (∃ data, s.pipe.state ≠ .errord ∧ s.pipe.data = some data ∧
      s.lockRead i timer = PipeSystem.goto { s with
        pipe := { s.pipe with data := none }
        delivered := s.delivered ++ MultiBuffer.bytes data } i (.signalWrite (.ok data))) ∨
    (∃ err, (err = .eof → s.pipe.state = .closed ∧ MultiBuffer.bytes s.pipe.pending = []) ∧
      s.lockRead i timer = s.goto i (.signalWrite (.error err))) ∨
    s.lockRead i timer = s.goto i (.waitingRead timer) := by
  rw [lockRead]
  rcases s.pipe.readMultiBufferInternal_cases with ⟨hstate, hread⟩ | ⟨err, hread, heof⟩
  · rw [hread]
    cases hdata : s.pipe.data with
    | none =>
      refine .inr (.inr ?_)
      dsimp only
      rw [← hdata]
    | some data => exact .inl ⟨data, hstate, rfl, rfl⟩
  · rw [hread]
    exact .inr (.inl ⟨err, heof, rfl⟩)

/-! ## The invariant -/

/-- The bytes that are pending. -/
abbrev pendingBytes (s : PipeSystem) : Bytes := MultiBuffer.bytes s.pipe.pending

/-- The data of the writes accepted was read or is pending, in this order, but for that of the
    last ones, if an interrupt dropped it. -/
def Fifo (s : PipeSystem) : Prop :=
  ∃ taken rest gone, s.accepted.map Prod.snd = taken ++ rest ++ gone ∧
    s.delivered = taken.flatMap MultiBuffer.bytes ∧
    s.pendingBytes = rest.flatMap MultiBuffer.bytes ∧
    (gone = [] ∨ s.pipe.state = .errord ∧ s.pendingBytes = [])

/-- The pipe is at its end: it is closed, and everything was read. -/
def AtEnd (s : PipeSystem) : Prop := s.pipe.state = .closed ∧ s.pendingBytes = []

/-- The data of the call `i` was accepted. -/
def Accepts (s : PipeSystem) (i : ℕ) : Prop := i ∈ s.accepted.map Prod.fst

/-- A write that succeeded was accepted, unless there was nothing to write, or it was discarded. -/
def Succeeds (s : PipeSystem) (i : ℕ) : Prop :=
  ∃ mb, s.begun i = some mb ∧
    ((i, mb) ∈ s.accepted ∨ MultiBuffer.bytes mb = [] ∨ s.pipe.option.discardOverflow = true)

/-- What is known of a call from where it stands. -/
def Consistent (s : PipeSystem) (i : ℕ) : PipeCall → Prop
  | .idle => ¬ s.Accepts i
  | .writing mb => s.begun i = some mb ∧ ¬ s.Accepts i
  | .waitingWrite mb => s.begun i = some mb ∧ ¬ s.Accepts i
  | .reading _ => True
  | .waitingRead _ => True
  | .signalRead none => s.Succeeds i
  | .signalRead (some _) => ¬ s.Accepts i
  | .signalWrite out => out = .error .eof → s.AtEnd
  | .returned (.written none) => s.Succeeds i
  | .returned (.written (some _)) => ¬ s.Accepts i
  | .returned (.read out) => out = .error .eof → s.AtEnd

/-- What is known of the pipe and of its calls. -/
structure Account (s : PipeSystem) : Prop where
  fifo : s.Fifo
  calls : ∀ i, s.Consistent i (s.calls i)
  nodup : (s.accepted.map Prod.fst).Nodup

/-- From `s` to `t`, nothing happens but to the call `i`, and to what is shared: the writes that
    are accepted are of this call, and the end stays the end. -/
structure Steps (i : ℕ) (s t : PipeSystem) : Prop where
  calls : ∀ j ≠ i, t.calls j = s.calls j
  begun : ∀ j ≠ i, t.begun j = s.begun j
  accepted : ∃ l, t.accepted = s.accepted ++ l ∧ ∀ w ∈ l, w.1 = i
  option : t.pipe.option = s.pipe.option
  atEnd : s.AtEnd → t.AtEnd

variable {t : PipeSystem}

/-- What is known of the other calls stays so. -/
theorem Steps.consistent (h : Steps i s t) {j : ℕ} (hj : j ≠ i) {call : PipeCall}
    (hcall : s.Consistent j call) : t.Consistent j call := by
  obtain ⟨l, haccepted, hl⟩ := h.accepted
  have haccepts : ¬ s.Accepts j → ¬ t.Accepts j := by
    intro hnot ht
    rw [Accepts, haccepted, List.map_append, List.mem_append] at ht
    rcases ht with ht | ht
    · exact hnot ht
    · obtain ⟨w, hw, rfl⟩ := List.mem_map.1 ht
      exact hj (hl w hw)
  have hsucceeds : s.Succeeds j → t.Succeeds j := by
    rintro ⟨mb, hmb, hor⟩
    refine ⟨mb, by rw [h.begun j hj, hmb], ?_⟩
    rw [haccepted, h.option]
    exact hor.imp_left (List.mem_append_left l)
  cases call with
  | idle => exact haccepts hcall
  | writing mb => exact ⟨by rw [h.begun j hj, hcall.1], haccepts hcall.2⟩
  | waitingWrite mb => exact ⟨by rw [h.begun j hj, hcall.1], haccepts hcall.2⟩
  | reading timer => trivial
  | waitingRead timer => trivial
  | signalRead err =>
    cases err with
    | none => exact hsucceeds hcall
    | some err => exact haccepts hcall
  | signalWrite out => exact fun hout => h.atEnd (hcall hout)
  | returned result =>
    cases result with
    | written err =>
      cases err with
      | none => exact hsucceeds hcall
      | some err => exact haccepts hcall
    | read out => exact fun hout => h.atEnd (hcall hout)

theorem Account.of_steps (hs : s.Account) (h : Steps i s t) (hfifo : t.Fifo)
    (hcall : t.Consistent i (t.calls i)) (hnodup : (t.accepted.map Prod.fst).Nodup) : t.Account := by
  refine ⟨hfifo, fun j => ?_, hnodup⟩
  by_cases hj : j = i
  · subst hj
    exact hcall
  · rw [h.calls j hj]
    exact h.consistent hj (hs.calls j)

/-- A step of a call that leaves the data alone. -/
theorem Account.goto (hs : s.Account) {pipe : Pipe} {begun : ℕ → Option MultiBuffer}
    (hdata : pipe.data = s.pipe.data) (hstate : pipe.state = s.pipe.state)
    (hoption : pipe.option = s.pipe.option) (hbegun : ∀ j ≠ i, begun j = s.begun j)
    (hcall : PipeSystem.Consistent { s with pipe, begun } i call) :
    (PipeSystem.goto { s with pipe, begun } i call).Account := by
  have hpending : pipe.pending = s.pipe.pending := by rw [Pipe.pending, Pipe.pending, hdata]
  refine hs.of_steps (i := i) ⟨fun j hj => goto_calls_of_ne hj, hbegun, ⟨[], by simp, by simp⟩, hoption,
    fun hend => ?_⟩ ?_ ?_ hs.nodup
  · exact ⟨hstate.trans hend.1, by rw [pendingBytes, goto_pipe, hpending]; exact hend.2⟩
  · obtain ⟨taken, rest, gone, haccepted, hdelivered, hrest, hgone⟩ := hs.fifo
    refine ⟨taken, rest, gone, haccepted, hdelivered, ?_, ?_⟩
    · rw [pendingBytes, goto_pipe, hpending]
      exact hrest
    · rw [pendingBytes, goto_pipe, hpending, hstate]
      exact hgone
  · rw [goto_calls_self]
    exact hcall

/-- The data of a write is appended to what is pending. -/
theorem Account.accept (hs : s.Account) {mb : MultiBuffer} (hstate : s.pipe.state = .open_)
    (hcall : s.begun i = some mb ∧ ¬ s.Accepts i) :
    (PipeSystem.goto { s with
      pipe := { s.pipe with data := some (s.pipe.pending ++ mb) }
      accepted := s.accepted ++ [(i, mb)] } i (.signalRead none)).Account := by
  refine hs.of_steps (i := i) ⟨fun j hj => goto_calls_of_ne hj, fun _ _ => rfl,
    ⟨[(i, mb)], rfl, by simp⟩, rfl, fun hend => ?_⟩ ?_ ?_ ?_
  · cases hend.1.symm.trans hstate
  · obtain ⟨taken, rest, gone, haccepted, hdelivered, hrest, hgone⟩ := hs.fifo
    -- nothing was dropped while the pipe was open
    obtain rfl : gone = [] := hgone.resolve_right fun h => by cases h.1.symm.trans hstate
    refine ⟨taken, rest ++ [mb], [], ?_, hdelivered, ?_, .inl rfl⟩
    · rw [goto_accepted, List.map_append, haccepted]
      simp
    · change MultiBuffer.bytes (s.pipe.pending ++ mb) = _
      rw [MultiBuffer.bytes_append, List.flatMap_append, List.flatMap_singleton, ← hrest]
  · rw [goto_calls_self]
    exact ⟨mb, hcall.1, .inl (List.mem_append_right _ (List.mem_singleton_self _))⟩
  · rw [goto_accepted, List.map_append, List.nodup_append]
    refine ⟨hs.nodup, by simp, fun a ha b hb => ?_⟩
    rw [List.map_singleton, List.mem_singleton] at hb
    rintro rfl
    subst hb
    exact hcall.2 ha

/-- All that is pending is read. -/
theorem Account.take (hs : s.Account) {data : MultiBuffer} (hdata : s.pipe.data = some data) :
    (PipeSystem.goto { s with
      pipe := { s.pipe with data := none }
      delivered := s.delivered ++ MultiBuffer.bytes data } i (.signalWrite (.ok data))).Account := by
  refine hs.of_steps (i := i) ⟨fun j hj => goto_calls_of_ne hj, fun _ _ => rfl, ⟨[], by simp, by simp⟩,
    rfl, fun hend => ⟨hend.1, rfl⟩⟩ ?_ ?_ hs.nodup
  · obtain ⟨taken, rest, gone, haccepted, hdelivered, hrest, hgone⟩ := hs.fifo
    rw [pendingBytes, Pipe.pending, hdata, Option.getD_some] at hrest
    refine ⟨taken ++ rest, [], gone, ?_, ?_, rfl, hgone.imp_right fun h => ⟨h.1, rfl⟩⟩
    · rw [List.append_nil]
      exact haccepted
    · rw [List.flatMap_append, ← hdelivered, ← hrest]
      rfl
  · rw [goto_calls_self]
    exact fun hout => by cases hout

/-- The program closes the pipe, or interrupts it, while it is open. -/
theorem Account.endWith (hs : s.Account) (hstate : s.pipe.state = .open_) {pipe : Pipe}
    (hoption : pipe.option = s.pipe.option)
    (hend : pipe.pending = s.pipe.pending ∨ pipe.state = .errord ∧ MultiBuffer.bytes pipe.pending = []) :
    PipeSystem.Account { s with pipe } := by
  have hsteps (i : ℕ) : Steps (i + 1) s { s with pipe } := ⟨fun _ _ => rfl, fun _ _ => rfl,
    ⟨[], by simp, by simp⟩, hoption, fun hend => by cases hend.1.symm.trans hstate⟩
  refine ⟨?_, fun j => (hsteps j).consistent (Nat.ne_of_lt (Nat.lt_succ_self j)) (hs.calls j), hs.nodup⟩
  obtain ⟨taken, rest, gone, haccepted, hdelivered, hrest, hgone⟩ := hs.fifo
  obtain rfl : gone = [] := hgone.resolve_right fun h => by cases h.1.symm.trans hstate
  rcases hend with hpending | ⟨hstate', hpending⟩
  · refine ⟨taken, rest, [], haccepted, hdelivered, ?_, .inl rfl⟩
    rw [pendingBytes, hpending]
    exact hrest
  · -- what was pending is gone
    refine ⟨taken, [], rest, ?_, hdelivered, hpending, .inr ⟨hstate', hpending⟩⟩
    rw [haccepted]
    simp

/-! ## Steps -/

theorem Account.lockWrite (hs : s.Account) {mb : MultiBuffer} (hcall : s.begun i = some mb ∧ ¬ s.Accepts i) :
    (s.lockWrite i mb).Account := by
  have hgoto {call : PipeCall} (h : s.Consistent i call) : (s.goto i call).Account :=
    hs.goto rfl rfl rfl (fun _ _ => rfl) h
  rcases s.lockWrite_cases i mb with ⟨hstate, -, heq⟩ | ⟨hdiscard, heq⟩ | heq | heq
  · rw [heq]
    exact hs.accept hstate hcall
  · rw [heq]
    exact hgoto ⟨mb, hcall.1, .inr (.inr hdiscard)⟩
  · rw [heq]
    exact hgoto hcall.2
  · rw [heq]
    exact hgoto hcall

theorem Account.lockRead (hs : s.Account) (timer : Bool) : (s.lockRead i timer).Account := by
  rcases s.lockRead_cases i timer with ⟨data, -, hdata, heq⟩ | ⟨err, heof, heq⟩ | heq
  · rw [heq]
    exact hs.take hdata
  · rw [heq]
    refine hs.goto rfl rfl rfl (fun _ _ => rfl) fun hout => ?_
    cases hout
    exact heof rfl
  · rw [heq]
    exact hs.goto rfl rfl rfl (fun _ _ => rfl) trivial

theorem Account.step (hs : s.Account) {e : PipeEvent} (he : s.Enabled e) : (s.step e).Account := by
  -- The pipe itself changes under its lock and when it is ended; any other step only moves a call.
  cases e with
  | writeMultiBuffer i mb =>
    have hidle : ¬ s.Accepts i := by
      have h := hs.calls i
      rwa [show s.calls i = .idle from he] at h
    rw [PipeSystem.step]
    refine hs.goto rfl rfl rfl (fun j hj => Function.update_of_ne hj _ _) ?_
    split_ifs with hempty
    · exact ⟨mb, Function.update_self .., .inr (.inl ((MultiBuffer.isEmpty_iff mb).1 hempty))⟩
    · exact ⟨Function.update_self .., hidle⟩
  | readMultiBuffer i timer => exact hs.goto rfl rfl rfl (fun _ _ => rfl) trivial
  | lock i =>
    have h := hs.calls i
    rcases he with ⟨mb, hcall⟩ | ⟨timer, hcall⟩
    · rw [hcall] at h
      rw [PipeSystem.step, hcall]
      exact hs.lockWrite h
    · rw [PipeSystem.step, hcall]
      exact hs.lockRead timer
  | signal i =>
    have h := hs.calls i
    rcases he with ⟨err, hcall⟩ | ⟨out, hcall⟩
    · rw [hcall] at h
      rw [PipeSystem.step, hcall]
      refine hs.goto rfl rfl rfl (fun _ _ => rfl) ?_
      cases err with
      | none => exact h
      | some err => exact h
    · rw [hcall] at h
      rw [PipeSystem.step, hcall]
      exact hs.goto rfl rfl rfl (fun _ _ => rfl) h
  | wake i =>
    have h := hs.calls i
    rcases he with ⟨mb, hcall, -⟩ | ⟨timer, hcall, -⟩
    · rw [hcall] at h
      rw [PipeSystem.step, hcall]
      exact hs.goto rfl rfl rfl (fun _ _ => rfl) h
    · rw [PipeSystem.step, hcall]
      exact hs.goto rfl rfl rfl (fun _ _ => rfl) trivial
  | done i =>
    have h := hs.calls i
    rcases he.1 with ⟨mb, hcall⟩ | ⟨timer, hcall⟩
    · rw [hcall] at h
      rw [PipeSystem.step, hcall]
      exact hs.goto rfl rfl rfl (fun _ _ => rfl) h.2
    · rw [PipeSystem.step, hcall]
      exact hs.goto rfl rfl rfl (fun _ _ => rfl) trivial
  | timeout i => exact hs.goto rfl rfl rfl (fun _ _ => rfl) fun hout => by cases hout
  | close =>
    rw [PipeSystem.step, Pipe.close]
    split_ifs with hstate
    · exact hs
    · exact hs.endWith (by cases h : s.pipe.state <;> simp_all) rfl (.inl rfl)
  | interrupt =>
    rw [PipeSystem.step, Pipe.interrupt]
    split_ifs with hstate hempty
    · exact hs
    · exact hs.endWith (by cases h : s.pipe.state <;> simp_all) rfl (.inl rfl)
    · exact hs.endWith (by cases h : s.pipe.state <;> simp_all) rfl (.inr ⟨rfl, rfl⟩)

/-! ## The law -/

/-- What the users of a pipe rely on. -/
structure Lawful (s : PipeSystem) : Prop where
  /-- What was read and what is pending is the data of the writes accepted, in this order, but for
      that of the last ones if an interrupt dropped it. -/
  fifo : ∃ kept gone, s.accepted.map Prod.snd = kept ++ gone ∧
    s.delivered ++ s.pendingBytes = kept.flatMap MultiBuffer.bytes ∧
    (gone = [] ∨ s.pipe.state = .errord)
  /-- Each write is accepted once. -/
  once : (s.accepted.map Prod.fst).Nodup
  /-- Once closed, what is pending can be read. -/
  readable : s.pipe.state = .closed → s.pendingBytes ≠ [] →
    ∃ data, s.pipe.readMultiBufferInternal.2 = .ok (some data) ∧ MultiBuffer.bytes data = s.pendingBytes
  /-- Only then does the reader see the end of the file. -/
  eof : s.pipe.state = .closed → s.pendingBytes = [] → s.pipe.readMultiBufferInternal.2 = .error .eof
  eof_after_all : ∀ i, s.calls i = .returned (.read (.error .eof)) → s.pipe.state = .closed ∧
    s.delivered = (s.accepted.map Prod.snd).flatMap MultiBuffer.bytes
  /-- A write that succeeds was accepted, unless there was nothing to write, or it was discarded. -/
  written : ∀ i, s.calls i = .returned (.written none) → s.Succeeds i
  /-- No data of a write that fails was accepted. -/
  refused : ∀ i err, s.calls i = .returned (.written (some err)) → ¬ s.Accepts i

theorem Account.lawful (h : s.Account) : s.Lawful where
  fifo := by
    obtain ⟨taken, rest, gone, haccepted, hdelivered, hrest, hgone⟩ := h.fifo
    refine ⟨taken ++ rest, gone, haccepted, ?_, hgone.imp_right And.left⟩
    rw [hdelivered, hrest, List.flatMap_append]
  once := h.nodup
  readable hstate hpending := by
    have hempty : MultiBuffer.isEmpty s.pipe.pending = false :=
      (MultiBuffer.isEmpty_eq_false_iff _).2 hpending
    rw [Pipe.readMultiBufferInternal_closed hstate, hempty]
    cases hdata : s.pipe.data with
    | none =>
      rw [Pipe.pending, hdata] at hempty
      cases hempty
    | some data =>
      refine ⟨data, rfl, ?_⟩
      rw [pendingBytes, Pipe.pending, hdata]
      rfl
  eof hstate hpending := by
    rw [Pipe.readMultiBufferInternal_closed hstate, (MultiBuffer.isEmpty_iff _).2 hpending]
    rfl
  eof_after_all i hcall := by
    have hend := h.calls i
    rw [hcall] at hend
    obtain ⟨hstate, hpending⟩ := hend rfl
    obtain ⟨taken, rest, gone, haccepted, hdelivered, hrest, hgone⟩ := h.fifo
    obtain rfl : gone = [] := hgone.resolve_right fun h => by cases h.1.symm.trans hstate
    refine ⟨hstate, ?_⟩
    rw [haccepted, List.append_nil, List.flatMap_append, ← hrest, hpending, hdelivered, List.append_nil]
  written i hcall := by
    have h := h.calls i
    rwa [hcall] at h
  refused i err hcall := by
    have h := h.calls i
    rwa [hcall] at h

/-! ## The bound -/

/-- What is pending exceeds the limit by the data of one write at most. -/
def Bounded (s : PipeSystem) : Prop :=
  0 ≤ s.pipe.option.limit → s.pendingBytes = [] ∨
    ∃ w ∈ s.accepted, (s.pendingBytes.length : ℤ) ≤ s.pipe.option.limit + (MultiBuffer.bytes w.2).length

/-- When a write takes the lock of a pipe with a limit, fewer than `2 ^ 31` bytes are pending. -/
def Small (s : PipeSystem) : PipeEvent → Prop
  | .lock i => ∀ mb, s.calls i = .writing mb → 0 ≤ s.pipe.option.limit → s.pendingBytes.length < 2 ^ 31
  | _ => True

theorem Bounded.of_pending (hs : s.Bounded) (hoption : t.pipe.option = s.pipe.option)
    (haccepted : s.accepted ⊆ t.accepted)
    (hpending : t.pendingBytes = s.pendingBytes ∨ t.pendingBytes = []) : t.Bounded := by
  intro hlimit
  rw [hoption] at hlimit ⊢
  rcases hpending with hpending | hpending
  · rw [hpending]
    exact (hs hlimit).imp_right fun ⟨w, hw, hle⟩ => ⟨w, haccepted hw, hle⟩
  · exact .inl hpending

/-- The bound stays where nothing is accepted and the buffers pending stay. -/
theorem Bounded.of_same (hs : s.Bounded) (hoption : t.pipe.option = s.pipe.option)
    (haccepted : t.accepted = s.accepted) (hpending : t.pendingBytes = s.pendingBytes) :
    t.Bounded :=
  hs.of_pending hoption (haccepted ▸ List.Subset.refl _) (.inl hpending)

theorem Bounded.lockWrite (hs : s.Bounded) (mb : MultiBuffer)
    (hsmall : 0 ≤ s.pipe.option.limit → s.pendingBytes.length < 2 ^ 31) : (s.lockWrite i mb).Bounded := by
  have hgoto {call : PipeCall} : (s.goto i call).Bounded :=
    hs.of_same rfl rfl rfl
  rcases s.lockWrite_cases i mb with ⟨-, hfull, heq⟩ | ⟨-, heq⟩ | heq | heq
  · rw [heq]
    intro hlimit
    have hlimit' : 0 ≤ s.pipe.option.limit := hlimit
    have hlen : s.pipe.len = (MultiBuffer.bytes s.pipe.pending).length := by
      rw [Pipe.len, MultiBuffer.len_eq]
      exact int32_of_lt (hsmall hlimit')
    have hle : s.pipe.len ≤ s.pipe.option.limit := by
      rw [PipeOption.isFull, decide_eq_true hlimit', Bool.true_and, decide_eq_false_iff_not] at hfull
      exact Int.not_lt.1 hfull
    refine .inr ⟨(i, mb), List.mem_append_right _ (List.mem_singleton_self _), ?_⟩
    change ((MultiBuffer.bytes (s.pipe.pending ++ mb)).length : ℤ) ≤ s.pipe.option.limit + _
    rw [MultiBuffer.bytes_append, List.length_append]
    push_cast
    omega
  · rw [heq]
    exact hgoto
  · rw [heq]
    exact hgoto
  · rw [heq]
    exact hgoto

theorem Bounded.step (hs : s.Bounded) {e : PipeEvent} (he : s.Enabled e) (hsmall : s.Small e) :
    (s.step e).Bounded := by
  cases e with
  | writeMultiBuffer i mb => exact hs.of_same rfl rfl rfl
  | readMultiBuffer i timer => exact hs.of_same rfl rfl rfl
  | lock i =>
    rcases he with ⟨mb, hcall⟩ | ⟨timer, hcall⟩
    · rw [PipeSystem.step, hcall]
      exact hs.lockWrite mb (hsmall mb hcall)
    · rw [PipeSystem.step, hcall]
      rcases s.lockRead_cases i timer with ⟨data, -, -, heq⟩ | ⟨err, -, heq⟩ | heq
      · dsimp only
        rw [heq]
        exact hs.of_pending rfl (List.Subset.refl _) (.inr rfl)
      · dsimp only
        rw [heq]
        exact hs.of_same rfl rfl rfl
      · dsimp only
        rw [heq]
        exact hs.of_same rfl rfl rfl
  | signal i =>
    rcases he with ⟨err, hcall⟩ | ⟨out, hcall⟩
    all_goals
      rw [PipeSystem.step, hcall]
      exact hs.of_same rfl rfl rfl
  | wake i =>
    rcases he with ⟨mb, hcall, -⟩ | ⟨timer, hcall, -⟩
    all_goals
      rw [PipeSystem.step, hcall]
      exact hs.of_same rfl rfl rfl
  | done i =>
    rcases he.1 with ⟨mb, hcall⟩ | ⟨timer, hcall⟩
    all_goals
      rw [PipeSystem.step, hcall]
      exact hs.of_same rfl rfl rfl
  | timeout i => exact hs.of_same rfl rfl rfl
  | close =>
    rw [PipeSystem.step, Pipe.close]
    split_ifs
    · exact hs
    · exact hs.of_same rfl rfl rfl
  | interrupt =>
    rw [PipeSystem.step, Pipe.interrupt]
    split_ifs
    · exact hs
    · exact hs.of_same rfl rfl rfl
    · exact hs.of_pending rfl (List.Subset.refl _) (.inr rfl)

end PipeSystem

/-- A pipe is lawful in every state of every run. Its bound holds in the runs in which fewer than
    `2 ^ 31` bytes are pending whenever a write takes the lock. -/
theorem pipe_lawful (option : PipeOption) :
    (∀ s, (piping option).Reach (fun _ => True) s → s.Lawful) ∧
    ∀ s, ((piping option).restrict PipeSystem.Small).Reach (fun _ => True) s → s.Lawful ∧ s.Bounded := by
  have hinit : PipeSystem.Account { pipe := { option } } :=
    ⟨⟨[], [], [], rfl, rfl, rfl, .inl rfl⟩, fun i => (List.not_mem_nil : i ∉ []), List.nodup_nil⟩
  refine ⟨fun s h => PipeSystem.Account.lawful ?_, fun s h => ?_⟩
  · refine h.invariant (fun s hs _ => ?_) fun s e t _ hs hstep _ => ?_
    · rw [show s = _ from hs]
      exact hinit
    · rw [hstep.2]
      exact hs.step hstep.1
  · have hboth : s.Account ∧ s.Bounded := by
      induction h with
      | init hs _ =>
        rw [show _ = _ from hs]
        exact ⟨hinit, fun _ => .inl rfl⟩
      | step _ hstep _ ih =>
        rw [hstep.2.2]
        exact ⟨ih.1.step hstep.2.1, ih.2.step hstep.2.1 hstep.1⟩
    exact ⟨hboth.1.lawful, hboth.2⟩

/-! ## A run that exceeds the bound -/

/-- A write to a pipe that is not full takes place. -/
theorem exists_write {option : PipeOption} {s : PipeSystem}
    (hs : (piping option).Reach (fun _ => True) s) {i : ℕ} (hidle : s.calls i = .idle) {mb : MultiBuffer}
    (hmb : MultiBuffer.isEmpty mb = false) (hstate : s.pipe.state = .open_)
    (hfull : s.pipe.option.isFull s.pipe.len = false) :
    ∃ t, (piping option).Reach (fun _ => True) t ∧ t.pipe = { s.pipe with data := some (s.pipe.pending ++ mb) } ∧
      t.accepted = s.accepted ++ [(i, mb)] ∧ ∀ j ≠ i, t.calls j = s.calls j := by
  set s₁ := s.step (.writeMultiBuffer i mb) with hs₁
  have hreach : (piping option).Reach (fun _ => True) s₁ :=
    hs.step (a := .writeMultiBuffer i mb) ⟨hidle, rfl⟩ trivial
  have hcall : s₁.calls i = .writing mb := by
    rw [hs₁, PipeSystem.step, PipeSystem.goto_calls_self, hmb]
    rfl
  have hlock : s₁.step (.lock i) = s₁.lockWrite i mb := by
    rw [PipeSystem.step, hcall]
  have hstep : s₁.step (.lock i) = PipeSystem.goto { s₁ with
      pipe := { s₁.pipe with data := some (s₁.pipe.pending ++ mb) }
      accepted := s₁.accepted ++ [(i, mb)] } i (.signalRead none) :=
    hlock.trans (PipeSystem.lockWrite_of_open (s := s₁) hstate hfull i mb)
  refine ⟨s₁.step (.lock i), hreach.step (a := .lock i) ⟨.inl ⟨mb, hcall⟩, rfl⟩ trivial, ?_⟩
  rw [hstep]
  refine ⟨rfl, rfl, fun j hj => ?_⟩
  rw [PipeSystem.goto_calls_of_ne hj]
  exact PipeSystem.goto_calls_of_ne hj

/-- After a write of `2 ^ 31` bytes to a pipe with the limit zero, another write takes place: what is
    pending exceeds the limit and either of the writes. -/
theorem pending_exceeds :
    ∃ s, (piping { limit := 0 }).Reach (fun _ => True) s ∧
      s.accepted = [(0, fullBuffers (2 ^ 20)), (1, fullBuffers 1)] ∧
      s.pendingBytes.length = 2 ^ 31 + 2048 ∧ ¬ s.Bounded := by
  obtain ⟨s, hs, hpipe, haccepted, hcalls⟩ := exists_write (i := 0)
    (.init rfl trivial : (piping { limit := 0 }).Reach (fun _ => True) { pipe := { option := { limit := 0 } } })
    rfl (isEmpty_fullBuffers (Nat.two_pow_pos 20)) rfl
    (PipeOption.isFull_of_le (int32_of_lt (Nat.two_pow_pos 31)).le)
  have hlen : s.pipe.len = -2 ^ 31 := by
    rw [hpipe, Pipe.len, Pipe.pending, Option.getD_some, Pipe.pending]
    change int32 (MultiBuffer.len (fullBuffers (2 ^ 20))) = _
    rw [len_fullBuffers]
    exact int32_eq_neg
  have hlimit : s.pipe.option.limit = 0 := by rw [hpipe]
  obtain ⟨t, ht, htpipe, htaccepted, -⟩ := exists_write hs (i := 1) (hcalls 1 (by decide))
    (isEmpty_fullBuffers Nat.one_pos) (by rw [hpipe]) (PipeOption.isFull_of_le (by rw [hlen, hlimit]; decide))
  have hpending : t.pendingBytes.length = 2 ^ 31 + 2048 := by
    rw [PipeSystem.pendingBytes, htpipe, hpipe, ← MultiBuffer.len_eq]
    change MultiBuffer.len (fullBuffers (2 ^ 20) ++ fullBuffers 1) = _
    rw [MultiBuffer.len_eq, MultiBuffer.bytes_append, List.length_append, ← MultiBuffer.len_eq,
      ← MultiBuffer.len_eq, len_fullBuffers, len_fullBuffers]
    rfl
  have hws : t.accepted = [(0, fullBuffers (2 ^ 20)), (1, fullBuffers 1)] := by rw [htaccepted, haccepted]; rfl
  refine ⟨t, ht, hws, hpending, fun hbounded => ?_⟩
  have hlimit' : t.pipe.option.limit = 0 := by rw [htpipe]; exact hlimit
  rcases hbounded hlimit'.ge with hempty | ⟨w, hw, hle⟩
  · rw [hempty] at hpending
    cases hpending
  · rw [hws, List.mem_cons, List.mem_singleton] at hw
    rw [hpending, hlimit', ← MultiBuffer.len_eq] at hle
    rcases hw with rfl | rfl
    · rw [len_fullBuffers] at hle
      exact absurd hle (by decide)
    · rw [len_fullBuffers] at hle
      exact absurd hle (by decide)

end Gzv2ray.Transport
