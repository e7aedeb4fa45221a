import Gzv2ray.Buf.Reader
import Gzv2ray.Lib.Transition

/-!
# Running tasks

`Run` starts all tasks, each for a token of a semaphore, and then acquires as many tokens again
unless a task fails or the context ends. A task gives its token back only if it has succeeded.

* `TaskRun.step`: the steps of `Run`, of its goroutines and of the context;
* `TaskRun.Inv`: the invariant, which counts the tokens;
* `TaskRun.Lawful`, `running_lawful`: nil is returned only after all tasks have succeeded, and
  `Run` returns once all tasks have.
-/

namespace Gzv2ray.Task

/-! ## Tasks -/

/-- A task: a function, or one that `OnSuccess` makes of two. -/
inductive TaskFunc
  | func
  | onSuccess (f g : TaskFunc)
  deriving DecidableEq

namespace TaskFunc

/-- What is left to do when the function that a task is in returns: the rest of the task, or
    to return from it. -/
def resume (err : Option Error) : TaskFunc → TaskFunc ⊕ Option Error
  | func => .inr err
  | onSuccess f g =>
    match f.resume err with
    | .inl f => .inl (.onSuccess f g)
    | .inr (some err) => .inr (some err)
    | .inr none => .inl g

/-- The number of functions left. -/
def size : TaskFunc → ℕ
  | func => 1
  | onSuccess f g => f.size + g.size

theorem size_pos (f : TaskFunc) : 0 < f.size := by
  induction f with
  | func => exact Nat.one_pos
  | onSuccess f g hf hg => exact Nat.add_pos_left hf _

theorem size_resume {err : Option Error} {f f' : TaskFunc} (h : f.resume err = .inl f') :
    f'.size < f.size := by
  induction f generalizing f' with
  | func => cases h
  | onSuccess f g ihf ihg =>
    rw [resume] at h
    split at h
    · rename_i f'' hf
      cases h
      exact Nat.add_lt_add_right (ihf hf) _
    · cases h
    · cases h
      exact Nat.lt_add_of_pos_left f.size_pos

/-- A task returns nil only if the function it is in does, and another one's error otherwise. -/
theorem resume_eq_inr {err result : Option Error} {f : TaskFunc} (h : f.resume err = .inr result) :
    result = err := by
  induction f generalizing result with
  | func => exact (Sum.inr.inj h).symm
  | onSuccess f g ihf ihg =>
    rw [resume] at h
    split at h
    · cases h
    · rename_i err' hf
      cases h
      exact ihf hf
    · cases h

end TaskFunc

/-! ## Steps -/

/-- Where the goroutine of a task is. -/
inductive TaskPhase
  | notStarted
  | running (f : TaskFunc)
  /-- The task has returned, and its result is not told yet. -/
  | returned (err : Option Error)
  | ended (err : Option Error)
  deriving DecidableEq

/-- Where `Run` is. -/
inductive RunPhase
  /-- To start the task of an index. -/
  | spawning (i : ℕ)
  /-- To acquire a token, after so many others. -/
  | waiting (i : ℕ)
  /-- It has returned, after so many tokens. -/
  | finished (i : ℕ) (err : Option Error)
  deriving DecidableEq

structure TaskRun where
  tasks : List TaskFunc
  /-- The number of tokens in the semaphore. -/
  token : ℕ
  done : Option Error := none
  /-- The error of the context, once it is done. -/
  ctx : Option Error := none
  phase : RunPhase
  goroutine : ℕ → TaskPhase := fun _ => .notStarted

/-- What may happen next. -/
inductive RunAction
  /-- A token is acquired and a task is started. -/
  | spawn
  /-- The function that a task is in returns. -/
  | returns (i : ℕ) (err : Option Error)
  /-- A goroutine tells the result of its task. -/
  | report (i : ℕ)
  /-- The context is done. -/
  | cancel (err : Error)
  /-- `Run` receives an error of a task, the end of the context or a token. -/
  | receiveDone
  | receiveCtx
  | receiveToken

/-- The tasks started. -/
def RunPhase.spawned (n : ℕ) : RunPhase → ℕ
  | spawning i => i
  | _ => n

/-- The tokens acquired after that. -/
def RunPhase.acquired : RunPhase → ℕ
  | spawning _ => 0
  | waiting i => i
  | finished i _ => i

/-- What a goroutine has left to do, of its task. -/
def TaskPhase.work (f : Option TaskFunc) : TaskPhase → ℕ
  | notStarted => f.elim 0 fun f => f.size + 1
  | running f => f.size + 1
  | returned _ => 1
  | ended _ => 0

/-- What `Run` has left to do. -/
def RunPhase.work (n : ℕ) : RunPhase → ℕ
  | spawning i => (n - i) + (n + 1)
  | waiting i => n - i
  | finished _ _ => 0

namespace TaskRun

/-- The head of the second loop. -/
def wait (n i : ℕ) : RunPhase := if i < n then .waiting i else .finished i none

/-- The head of the first loop. -/
def spawn (n i : ℕ) : RunPhase := if i < n then .spawning i else wait n 0

def start (tasks : List TaskFunc) : TaskRun where
  tasks
  token := tasks.length
  phase := spawn tasks.length 0

variable (r : TaskRun)

def n : ℕ := r.tasks.length

def setTask (i : ℕ) (p : TaskPhase) : TaskRun :=
  { r with goroutine := Function.update r.goroutine i p }

def step : RunAction → Option TaskRun
  | .spawn =>
    match r.phase with
    | .spawning i =>
      match r.tasks[i]? with
      | some f =>
        if 0 < r.token then
          some { r.setTask i (.running f) with token := r.token - 1, phase := spawn r.n (i + 1) }
        else none
      | none => none
    | _ => none
  | .returns i err =>
    match r.goroutine i with
    | .running f =>
      match f.resume err with
      | .inl f => some (r.setTask i (.running f))
      | .inr err => some (r.setTask i (.returned err))
    | _ => none
  | .report i =>
    match r.goroutine i with
    | .returned none =>
      if r.token < r.n then some { r.setTask i (.ended none) with token := r.token + 1 } else none
    | .returned (some err) =>
      some { r.setTask i (.ended (some err)) with done := r.done.or (some err) }
    | _ => none
  | .cancel err => if r.ctx = none then some { r with ctx := some err } else none
  | .receiveDone =>
    match r.phase, r.done with
    | .waiting i, some err => some { r with phase := .finished i (some err), done := none }
    | _, _ => none
  | .receiveCtx =>
    match r.phase, r.ctx with
    | .waiting i, some err => some { r with phase := .finished i (some err) }
    | _, _ => none
  | .receiveToken =>
    match r.phase with
    | .waiting i =>
      if 0 < r.token then some { r with token := r.token - 1, phase := wait r.n (i + 1) } else none
    | _ => none

end TaskRun

/-- The runs of some tasks. -/
def running (tasks : List TaskFunc) : Lts TaskRun RunAction where
  init r := r = .start tasks
  step r a r' := r.step a = some r'

namespace TaskRun

variable {r r' : TaskRun} {a : RunAction}

/-- All that a step can do. -/
inductive Moves (r : TaskRun) : RunAction → TaskRun → Prop
  | spawn {i : ℕ} {f : TaskFunc} (h : r.phase = .spawning i) (hf : r.tasks[i]? = some f)
    (htoken : 0 < r.token) :
    Moves r .spawn
      { r.setTask i (.running f) with token := r.token - 1, phase := TaskRun.spawn r.n (i + 1) }
  | resumes {i : ℕ} {f f' : TaskFunc} (err : Option Error) (h : r.goroutine i = .running f)
    (hsize : f'.size < f.size) : Moves r (.returns i err) (r.setTask i (.running f'))
  | returns {i : ℕ} {f : TaskFunc} (err : Option Error) (h : r.goroutine i = .running f) :
    Moves r (.returns i err) (r.setTask i (.returned err))
  | signal {i : ℕ} (h : r.goroutine i = .returned none) (htoken : r.token < r.n) :
    Moves r (.report i) { r.setTask i (.ended none) with token := r.token + 1 }
  | fail {i : ℕ} {err : Error} (h : r.goroutine i = .returned (some err)) :
    Moves r (.report i) { r.setTask i (.ended (some err)) with done := r.done.or (some err) }
  | cancel (err : Error) (h : r.ctx = none) : Moves r (.cancel err) { r with ctx := some err }
  | receiveDone {i : ℕ} {err : Error} (h : r.phase = .waiting i) (hdone : r.done = some err) :
    Moves r .receiveDone { r with phase := .finished i (some err), done := none }
  | receiveCtx {i : ℕ} {err : Error} (h : r.phase = .waiting i) (hctx : r.ctx = some err) :
    Moves r .receiveCtx { r with phase := .finished i (some err) }
  | receiveToken {i : ℕ} (h : r.phase = .waiting i) (htoken : 0 < r.token) :
    Moves r .receiveToken { r with token := r.token - 1, phase := wait r.n (i + 1) }

theorem moves_of_step (h : r.step a = some r') : Moves r a r' := by
  -- Of the branches of a step, those that cannot be taken are no steps.
  cases a with
  | spawn =>
    dsimp only [step] at h
    split at h
    · rename_i i hphase
      split at h
      · rename_i f hf
        split at h
        · cases h
          exact .spawn hphase hf ‹_›
        · cases h
      · cases h
    · cases h
  | returns i err =>
    dsimp only [step] at h
    split at h
    · rename_i f hf
      split at h
      · rename_i f' hresume
        cases h
        exact .resumes err hf (TaskFunc.size_resume hresume)
      · rename_i result hresume
        cases h
        rw [TaskFunc.resume_eq_inr hresume]
        exact .returns err hf
    · cases h
  | report i =>
    dsimp only [step] at h
    split at h
    · rename_i hreturned
      split at h
      · cases h
        exact .signal hreturned ‹_›
      · cases h
    · rename_i err hreturned
      cases h
      exact .fail hreturned
    · cases h
  | cancel err =>
    dsimp only [step] at h
    split at h
    · cases h
      exact .cancel err ‹_›
    · cases h
  | receiveDone =>
    dsimp only [step] at h
    split at h
    · rename_i i err hphase hdone
      cases h
      exact .receiveDone hphase hdone
    · cases h
  | receiveCtx =>
    dsimp only [step] at h
    split at h
    · rename_i i err hphase hctx
      cases h
      exact .receiveCtx hphase hctx
    · cases h
  | receiveToken =>
    dsimp only [step] at h
    split at h
    · rename_i i hphase
      split at h
      · cases h
        exact .receiveToken hphase ‹_›
      · cases h
    · cases h

/-! ## The invariant -/

/-- The number of tasks that have succeeded and given their token back. -/
def succeeded (r : TaskRun) : ℕ := ((Finset.range r.n).filter (r.goroutine · = .ended none)).card

/-- The tokens are those of the tasks that were not started yet and of those that have
    succeeded, but those acquired again. -/
structure Inv (r : TaskRun) : Prop where
  token : r.token + r.phase.acquired + r.phase.spawned r.n = r.n + r.succeeded
  started : ∀ i, i < r.phase.spawned r.n ↔ r.goroutine i ≠ .notStarted
  spawning : ∀ i, r.phase = .spawning i → i < r.n
  waiting : ∀ i, r.phase = .waiting i → i < r.n
  nil : ∀ i, r.phase = .finished i none → i = r.n
  err : ∀ i err, r.phase = .finished i (some err) →
    r.ctx = some err ∨ ∃ j, r.goroutine j = .ended (some err)
  done : ∀ err, r.done = some err → ∃ j, r.goroutine j = .ended (some err)
  failed : ∀ j err, r.goroutine j = .ended (some err) →
    r.done ≠ none ∨ ∃ i err, r.phase = .finished i (some err)

theorem setTask_self (i : ℕ) (p : TaskPhase) : (r.setTask i p).goroutine i = p :=
  Function.update_self ..

theorem setTask_of_ne {i j : ℕ} (h : j ≠ i) (p : TaskPhase) :
    (r.setTask i p).goroutine j = r.goroutine j :=
  Function.update_of_ne h ..

/-- The tasks that have ended stay so. -/
theorem ended_setTask {i j : ℕ} {err : Option Error} (p : TaskPhase)
    (hi : ∀ err, r.goroutine i ≠ .ended err) (hj : r.goroutine j = .ended err) :
    (r.setTask i p).goroutine j = .ended err := by
  rw [setTask_of_ne _, hj]
  rintro rfl
  exact hi err hj

/-- A task that goes on does not change the number of those that have succeeded. -/
theorem succeeded_setTask {i : ℕ} {p : TaskPhase} (hi : r.goroutine i ≠ .ended none)
    (hp : p ≠ .ended none) : (r.setTask i p).succeeded = r.succeeded := by
  unfold succeeded
  congr 1
  refine Finset.filter_congr fun j _ => ?_
  by_cases hj : j = i
  · rw [hj, setTask_self]
    exact iff_of_false hp hi
  · rw [setTask_of_ne hj]

/-- One more task has succeeded. -/
theorem succeeded_setTask_ended {i : ℕ} (hlt : i < r.n) (hi : r.goroutine i ≠ .ended none) :
    (r.setTask i (.ended none)).succeeded = r.succeeded + 1 := by
  have hinsert : (Finset.range r.n).filter ((r.setTask i (.ended none)).goroutine · = .ended none) =
      insert i ((Finset.range r.n).filter (r.goroutine · = .ended none)) := by
    ext j
    rw [Finset.mem_insert, Finset.mem_filter, Finset.mem_filter, Finset.mem_range]
    by_cases hj : j = i
    · rw [hj, setTask_self]
      exact iff_of_true ⟨hlt, rfl⟩ (.inl rfl)
    · rw [setTask_of_ne hj, or_iff_right hj]
  unfold succeeded
  rw [show (r.setTask i (.ended none)).n = r.n from rfl, hinsert, Finset.card_insert_of_notMem]
  exact fun h => hi (Finset.mem_filter.1 h).2

theorem succeeded_le (r : TaskRun) : r.succeeded ≤ r.n := by
  have := Finset.card_filter_le (Finset.range r.n) (r.goroutine · = .ended none)
  rwa [Finset.card_range] at this

theorem succeeded_lt {i : ℕ} (hlt : i < r.n) (hi : r.goroutine i ≠ .ended none) :
    r.succeeded < r.n := by
  rw [← Nat.succ_le_iff, Nat.succ_eq_add_one, ← succeeded_setTask_ended hlt hi]
  exact succeeded_le _

/-- All tasks have succeeded. -/
theorem eq_ended_of_succeeded_eq (h : r.succeeded = r.n) {i : ℕ} (hlt : i < r.n) :
    r.goroutine i = .ended none := by
  by_contra hi
  exact (succeeded_lt hlt hi).ne h

@[simp] theorem spawned_wait (n i : ℕ) : (wait n i).spawned n = n := by
  unfold wait
  split <;> rfl

theorem spawned_spawn {n i : ℕ} (h : i ≤ n) : (spawn n i).spawned n = i := by
  unfold spawn
  split
  · rfl
  · rw [spawned_wait]
    omega

theorem acquired_wait (n i : ℕ) : (wait n i).acquired = i := by
  unfold wait
  split <;> rfl

theorem acquired_spawn (n i : ℕ) : (spawn n i).acquired = 0 := by
  unfold spawn
  split
  · rfl
  · exact acquired_wait n 0

theorem Inv.spawned_le (h : r.Inv) : r.phase.spawned r.n ≤ r.n := by
  cases hphase : r.phase with
  | spawning i => exact (h.spawning i hphase).le
  | waiting i => exact le_rfl
  | finished i err => exact le_rfl

/-- A task that is not started is none that runs. -/
theorem Inv.lt (h : r.Inv) {i : ℕ} (hi : r.goroutine i ≠ .notStarted) : i < r.n :=
  lt_of_lt_of_le ((h.started i).2 hi) h.spawned_le

/-- The tasks that are started stay so. -/
theorem Inv.started_setTask (h : r.Inv) {i : ℕ} {p : TaskPhase}
    (hstarted : r.goroutine i ≠ .notStarted) (hp : p ≠ .notStarted) (j : ℕ) :
    j < r.phase.spawned r.n ↔ (r.setTask i p).goroutine j ≠ .notStarted := by
  refine (h.started j).trans ?_
  by_cases hj : j = i
  · rw [hj, setTask_self]
    exact iff_of_true hstarted hp
  · rw [setTask_of_ne hj]

/-- What stays when a task goes on: neither did it end before nor does it now. -/
theorem Inv.setTask (h : r.Inv) {i : ℕ} {p : TaskPhase} (hstarted : r.goroutine i ≠ .notStarted)
    (hended : ∀ err, r.goroutine i ≠ .ended err) (hp : p ≠ .notStarted) (hp' : ∀ err, p ≠ .ended err) :
    (r.setTask i p).Inv := by
  have hiff (err : Option Error) (j : ℕ) :
      (r.setTask i p).goroutine j = .ended err ↔ r.goroutine j = .ended err := by
    by_cases hj : j = i
    · rw [hj, setTask_self]
      exact iff_of_false (hp' err) (hended err)
    · rw [setTask_of_ne hj]
  refine ⟨?_, h.started_setTask hstarted hp, h.spawning, h.waiting, h.nil, ?_, ?_, ?_⟩
  · rw [succeeded_setTask (hended none) (hp' none)]
    exact h.token
  · intro k err hphase
    simp only [hiff]
    exact h.err k err hphase
  · intro err hdone
    simp only [hiff]
    exact h.done err hdone
  · intro j err hj
    exact h.failed j err ((hiff _ j).1 hj)

theorem wait_eq_waiting {n i j : ℕ} (h : wait n i = .waiting j) : j < n := by
  unfold wait at h
  split at h
  · cases h
    assumption
  · cases h

theorem wait_eq_finished {n i j : ℕ} {err : Option Error} (hi : i ≤ n) (h : wait n i = .finished j err) :
    j = n ∧ err = none := by
  unfold wait at h
  split at h
  · cases h
  · cases h
    exact ⟨by omega, rfl⟩

theorem wait_ne_spawning (n i j : ℕ) : wait n i ≠ .spawning j := by
  unfold wait
  split
  · exact nofun
  · exact nofun

theorem spawn_eq_spawning {n i j : ℕ} (h : spawn n i = .spawning j) : j < n := by
  unfold spawn at h
  split at h
  · cases h
    assumption
  · exact absurd h (wait_ne_spawning n 0 j)

theorem spawn_eq_waiting {n i j : ℕ} (h : spawn n i = .waiting j) : j < n := by
  unfold spawn at h
  split at h
  · cases h
  · exact wait_eq_waiting h

theorem spawn_eq_finished {n i j : ℕ} {err : Option Error} (h : spawn n i = .finished j err) :
    j = n ∧ err = none := by
  unfold spawn at h
  split at h
  · cases h
  · exact wait_eq_finished (Nat.zero_le n) h

theorem inv_start (tasks : List TaskFunc) : (start tasks).Inv where
  token := by
    have hspawned := spawned_spawn (Nat.zero_le tasks.length)
    have hsucceeded : (start tasks).succeeded = 0 := by
      rw [succeeded, Finset.card_eq_zero, Finset.filter_eq_empty_iff]
      exact fun _ _ => nofun
    rw [hsucceeded]
    change tasks.length + (spawn tasks.length 0).acquired + (spawn tasks.length 0).spawned tasks.length = _
    rw [hspawned, acquired_spawn]
    rfl
  started i := by
    have hspawned := spawned_spawn (Nat.zero_le tasks.length)
    change i < (spawn tasks.length 0).spawned tasks.length ↔ _
    rw [hspawned]
    exact iff_of_false (Nat.not_lt_zero i) fun h => h rfl
  spawning i := spawn_eq_spawning
  waiting i := spawn_eq_waiting
  nil i h := (spawn_eq_finished h).1
  err i err h := by cases (spawn_eq_finished h).2
  done := nofun
  failed := nofun

/-- While `Run` has not returned, no error was received. -/
theorem Inv.done_ne_none (h : r.Inv) {j : ℕ} {err : Error} (hj : r.goroutine j = .ended (some err))
    (hphase : ∀ i err, r.phase ≠ .finished i (some err)) : r.done ≠ none :=
  (h.failed j err hj).resolve_right fun ⟨i, err, h⟩ => hphase i err h

/-- A task that is started takes its token along. -/
theorem Inv.spawnTask (h : r.Inv) {i : ℕ} (hphase : r.phase = .spawning i) (f : TaskFunc)
    (htoken : 0 < r.token) :
    Inv { r.setTask i (.running f) with
      token := r.token - 1, phase := TaskRun.spawn r.n (i + 1) } := by
  have hlt := h.spawning i hphase
  have htokens := h.token
  have hstarted := h.started
  simp only [hphase, RunPhase.acquired, RunPhase.spawned] at htokens hstarted
  have hnot : r.goroutine i = .notStarted := by
    by_contra hi
    exact lt_irrefl i ((hstarted i).2 hi)
  have hsucceeded : (r.setTask i (.running f)).succeeded = r.succeeded :=
    succeeded_setTask (by rw [hnot]; nofun) nofun
  refine ⟨?_, fun j => ?_, fun j => spawn_eq_spawning, fun j => spawn_eq_waiting,
    fun j hj => (spawn_eq_finished hj).1, fun j err hj => ?_, fun err hdone => ?_, fun j err hj => ?_⟩
  · change r.token - 1 + (TaskRun.spawn r.n (i + 1)).acquired +
      (TaskRun.spawn r.n (i + 1)).spawned r.n = r.n + (r.setTask i (.running f)).succeeded
    rw [acquired_spawn, spawned_spawn hlt, hsucceeded]
    omega
  · change j < (TaskRun.spawn r.n (i + 1)).spawned r.n ↔ (r.setTask i (.running f)).goroutine j ≠ _
    rw [spawned_spawn hlt]
    by_cases hj : j = i
    · rw [hj, setTask_self]
      exact iff_of_true (Nat.lt_succ_self i) nofun
    · rw [setTask_of_ne hj, ← hstarted j]
      omega
  · cases (spawn_eq_finished hj).2
  · obtain ⟨j, hj⟩ := h.done err hdone
    exact ⟨j, ended_setTask _ (by rw [hnot]; nofun) hj⟩
  · by_cases hji : j = i
    · rw [hji] at hj
      cases (setTask_self i _).symm.trans hj
    · -- `Run` is still in its first loop, and has received nothing
      refine .inl (h.done_ne_none ((setTask_of_ne hji _).symm.trans hj) ?_)
      rw [hphase]
      exact nofun

theorem not_ended_of_returned {i : ℕ} {result : Option Error} (hi : r.goroutine i = .returned result)
    (err : Option Error) : r.goroutine i ≠ .ended err := by
  rw [hi]
  nofun

theorem started_of_returned {i : ℕ} {result : Option Error} (hi : r.goroutine i = .returned result) :
    r.goroutine i ≠ .notStarted := by
  rw [hi]
  nofun

/-- The token of a task that succeeds counts for it. -/
theorem Inv.signal (h : r.Inv) {i : ℕ} (hi : r.goroutine i = .returned none) :
    Inv { r.setTask i (.ended none) with token := r.token + 1 } := by
  have hnotEnded := not_ended_of_returned hi
  have hstarted := started_of_returned hi
  have hold {j : ℕ} {err : Error} (hj : (r.setTask i (.ended none)).goroutine j = .ended (some err)) :
      r.goroutine j = .ended (some err) := by
    by_cases hji : j = i
    · rw [hji] at hj
      cases (setTask_self i _).symm.trans hj
    · exact (setTask_of_ne hji _).symm.trans hj
  refine ⟨?_, fun j => ?_, h.spawning, h.waiting, h.nil, fun j err hj => ?_, fun err hdone => ?_,
    fun j err hj => h.failed j err (hold hj)⟩
  · have hsucceeded := succeeded_setTask_ended (h.lt hstarted) (hnotEnded none)
    have htokens := h.token
    change r.token + 1 + r.phase.acquired + r.phase.spawned r.n =
      r.n + (r.setTask i (.ended none)).succeeded
    omega
  · exact h.started_setTask hstarted (p := .ended _) nofun j
  · exact (h.err j err hj).imp_right fun ⟨k, hk⟩ => ⟨k, ended_setTask _ hnotEnded hk⟩
  · obtain ⟨k, hk⟩ := h.done err hdone
    exact ⟨k, ended_setTask _ hnotEnded hk⟩

/-- A task that fails keeps its token, and its error is the one told unless there is one. -/
theorem Inv.fail (h : r.Inv) {i : ℕ} {err : Error} (hi : r.goroutine i = .returned (some err)) :
    Inv { r.setTask i (.ended (some err)) with done := r.done.or (some err) } := by
  have hnotEnded := not_ended_of_returned hi
  refine ⟨?_, fun j => ?_, h.spawning, h.waiting, h.nil, fun j err' hj => ?_, fun err' hdone => ?_,
    fun j err' _ => .inl ?_⟩
  · change r.token + r.phase.acquired + r.phase.spawned r.n =
      r.n + (r.setTask i (.ended (some err))).succeeded
    rw [succeeded_setTask (hnotEnded none) (p := .ended (some err)) nofun]
    exact h.token
  · exact h.started_setTask (started_of_returned hi) (p := .ended _) nofun j
  · exact (h.err j err' hj).imp_right fun ⟨k, hk⟩ => ⟨k, ended_setTask _ hnotEnded hk⟩
  · change r.done.or (some err) = some err' at hdone
    cases hold : r.done with
    | none =>
      rw [hold] at hdone
      cases hdone
      exact ⟨i, setTask_self i _⟩
    | some _ =>
      rw [hold] at hdone
      cases hdone
      obtain ⟨k, hk⟩ := h.done _ hold
      exact ⟨k, ended_setTask _ hnotEnded hk⟩
  · change r.done.or (some err) ≠ none
    cases r.done <;> nofun

/-- `Run` returns an error of the context or of a task; what is left of those told is one of a
    task. -/
theorem Inv.finish (h : r.Inv) {i : ℕ} {err : Error} {done : Option Error}
    (hphase : r.phase = .waiting i)
    (herr : r.ctx = some err ∨ ∃ j, r.goroutine j = .ended (some err))
    (hdone : ∀ err, done = some err → ∃ j, r.goroutine j = .ended (some err)) :
    Inv { r with phase := .finished i (some err), done } := by
  have htokens := h.token
  have hstarted := h.started
  simp only [hphase, RunPhase.acquired, RunPhase.spawned] at htokens hstarted
  refine ⟨htokens, hstarted, nofun, nofun, nofun, ?_, hdone, fun j err' _ => .inr ⟨i, err, rfl⟩⟩
  intro j err' hj
  cases hj
  exact herr

/-- A token that is acquired again is one of a task that has succeeded. -/
theorem Inv.acquire (h : r.Inv) {i : ℕ} (hphase : r.phase = .waiting i) (htoken : 0 < r.token) :
    Inv { r with token := r.token - 1, phase := wait r.n (i + 1) } := by
  have hlt := h.waiting i hphase
  have htokens := h.token
  have hstarted := h.started
  simp only [hphase, RunPhase.acquired, RunPhase.spawned] at htokens hstarted
  refine ⟨?_, fun j => ?_, fun j hj => ?_, fun j => wait_eq_waiting, fun j hj => (wait_eq_finished hlt hj).1,
    fun j err hj => ?_, h.done, fun j err hj => .inl (h.done_ne_none hj ?_)⟩
  · change r.token - 1 + (wait r.n (i + 1)).acquired + (wait r.n (i + 1)).spawned r.n = _
    rw [acquired_wait, spawned_wait]
    change _ = r.n + r.succeeded
    omega
  · change j < (wait r.n (i + 1)).spawned r.n ↔ _
    rw [spawned_wait]
    exact hstarted j
  · exact absurd hj (wait_ne_spawning _ _ _)
  · cases (wait_eq_finished hlt hj).2
  · rw [hphase]
    exact nofun

/-- Every step keeps the invariant. -/
theorem Moves.inv (h : r.Inv) (hm : Moves r a r') : r'.Inv := by
  cases hm with
  | @spawn i f hphase _ htoken => exact h.spawnTask hphase f htoken
  | resumes err hi _ => exact h.setTask (by rw [hi]; nofun) (by rw [hi]; nofun) nofun nofun
  | returns err hi => exact h.setTask (by rw [hi]; nofun) (by rw [hi]; nofun) nofun nofun
  | signal hi _ => exact h.signal hi
  | fail hi => exact h.fail hi
  | cancel err hctx =>
    refine ⟨h.token, h.started, h.spawning, h.waiting, h.nil, fun i err' hphase => ?_, h.done, h.failed⟩
    refine .inr ((h.err i err' hphase).resolve_left ?_)
    rw [hctx]
    exact nofun
  | receiveDone hphase hdone => exact h.finish hphase (.inr (h.done _ hdone)) nofun
  | receiveCtx hphase hctx => exact h.finish hphase (.inl hctx) h.done
  | receiveToken hphase htoken => exact h.acquire hphase htoken

/-! ## `Run` returns -/

/-- How many steps are left at most, but the end of the context. -/
def work (r : TaskRun) : ℕ :=
  r.phase.work r.n + ∑ i ∈ Finset.range r.n, (r.goroutine i).work r.tasks[i]?

theorem sum_setTask_le {i : ℕ} {p : TaskPhase}
    (h : p.work r.tasks[i]? ≤ (r.goroutine i).work r.tasks[i]?) (j : ℕ) :
    ((r.setTask i p).goroutine j).work r.tasks[j]? ≤ (r.goroutine j).work r.tasks[j]? := by
  by_cases hj : j = i
  · rw [hj, setTask_self]
    exact h
  · rw [setTask_of_ne hj]

/-- A task that goes on has less left to do. -/
theorem sum_setTask_lt {i : ℕ} {p : TaskPhase} (hlt : i < r.n)
    (h : p.work r.tasks[i]? < (r.goroutine i).work r.tasks[i]?) :
    ∑ j ∈ Finset.range r.n, ((r.setTask i p).goroutine j).work r.tasks[j]? <
      ∑ j ∈ Finset.range r.n, (r.goroutine j).work r.tasks[j]? := by
  refine Finset.sum_lt_sum (fun j _ => sum_setTask_le h.le j) ⟨i, Finset.mem_range.2 hlt, ?_⟩
  rw [setTask_self]
  exact h

theorem work_wait_lt {n i : ℕ} (h : i < n) : (wait n (i + 1)).work n < (RunPhase.waiting i).work n := by
  unfold wait
  split
  · simp only [RunPhase.work]
    omega
  · simp only [RunPhase.work]
    omega

theorem work_spawn_lt {n i : ℕ} (h : i < n) :
    (spawn n (i + 1)).work n < (RunPhase.spawning i).work n := by
  unfold spawn
  split
  · simp only [RunPhase.work]
    omega
  · unfold wait
    split
    · simp only [RunPhase.work]
      omega
    · simp only [RunPhase.work]
      omega

/-- All steps but one get the tasks and `Run` further. -/
theorem Moves.work_lt (h : r.Inv) (hm : Moves r a r') (ha : ∀ err, a ≠ .cancel err) :
    r'.work < r.work := by
  -- Spawning a task moves work from `Run` to the task; all else only uses it up.
  cases hm with
  | spawn hphase hf htoken =>
    rename_i i f
    have hlt := h.spawning i hphase
    have hnot : r.goroutine i = .notStarted := by
      by_contra hi
      have := (h.started i).2 hi
      rw [hphase] at this
      exact lt_irrefl i this
    refine Nat.add_lt_add_of_lt_of_le ?_ (Finset.sum_le_sum fun j _ => sum_setTask_le ?_ j)
    · rw [hphase]
      exact work_spawn_lt hlt
    · rw [hnot, hf]
      exact le_rfl
  | resumes err hi hsize =>
    refine Nat.add_lt_add_left (sum_setTask_lt (h.lt (by rw [hi]; nofun)) ?_) _
    rw [hi]
    exact Nat.succ_lt_succ hsize
  | returns err hi =>
    refine Nat.add_lt_add_left (sum_setTask_lt (h.lt (by rw [hi]; nofun)) ?_) _
    rw [hi]
    exact Nat.succ_lt_succ (TaskFunc.size_pos _)
  | signal hi htoken =>
    refine Nat.add_lt_add_left (sum_setTask_lt (h.lt (by rw [hi]; nofun)) ?_) _
    rw [hi]
    exact Nat.one_pos
  | fail hi =>
    refine Nat.add_lt_add_left (sum_setTask_lt (h.lt (by rw [hi]; nofun)) ?_) _
    rw [hi]
    exact Nat.one_pos
  | cancel err hctx => exact absurd rfl (ha err)
  | receiveDone hphase hdone =>
    refine Nat.add_lt_add_right ?_ _
    rw [hphase]
    exact Nat.sub_pos_of_lt (h.waiting _ hphase)
  | receiveCtx hphase hctx =>
    refine Nat.add_lt_add_right ?_ _
    rw [hphase]
    exact Nat.sub_pos_of_lt (h.waiting _ hphase)
  | receiveToken hphase htoken =>
    refine Nat.add_lt_add_right ?_ _
    rw [hphase]
    exact work_wait_lt (h.waiting _ hphase)

/-- A token is there for a task that is to be started, and room for one that is given back. -/
theorem Inv.token_pos (h : r.Inv) {i : ℕ} (hphase : r.phase = .spawning i) : 0 < r.token := by
  have hlt := h.spawning i hphase
  have htokens := h.token
  rw [hphase] at htokens
  simp only [RunPhase.acquired, RunPhase.spawned] at htokens
  omega

/-- A task that has not ended is not among those that have succeeded. -/
theorem Inv.succeeded_lt_spawned (h : r.Inv) {i : ℕ} (hi : r.goroutine i = .returned none) :
    r.succeeded < r.phase.spawned r.n := by
  have hsubset : (Finset.range r.n).filter (r.goroutine · = .ended none) ⊆
      (Finset.range (r.phase.spawned r.n)).erase i := by
    intro j hj
    have hended := (Finset.mem_filter.1 hj).2
    refine Finset.mem_erase.2 ⟨?_, Finset.mem_range.2 ((h.started j).2 (by rw [hended]; nofun))⟩
    rintro rfl
    rw [hi] at hended
    cases hended
  have hmem : i ∈ Finset.range (r.phase.spawned r.n) :=
    Finset.mem_range.2 ((h.started i).2 (by rw [hi]; nofun))
  have hcard := (Finset.card_le_card hsubset).trans_lt (Finset.card_erase_lt_of_mem hmem)
  rwa [Finset.card_range] at hcard

theorem Inv.token_lt (h : r.Inv) {i : ℕ} (hi : r.goroutine i = .returned none) : r.token < r.n := by
  have hsucceeded := h.succeeded_lt_spawned hi
  have htokens := h.token
  omega

/-- When all tasks have ended, there is an error to receive or a token. -/
theorem Inv.receives (h : r.Inv) {i : ℕ} (hphase : r.phase = .waiting i)
    (hended : ∀ j < r.n, ∃ err, r.goroutine j = .ended err) : r.done ≠ none ∨ 0 < r.token := by
  by_cases hfailed : ∃ j err, r.goroutine j = .ended (some err)
  · obtain ⟨j, err, hj⟩ := hfailed
    refine .inl (h.done_ne_none hj ?_)
    rw [hphase]
    exact nofun
  · push Not at hfailed
    have hall : (Finset.range r.n).filter (r.goroutine · = .ended none) = Finset.range r.n := by
      refine Finset.filter_true_of_mem fun j hj => ?_
      obtain ⟨err, hj⟩ := hended j (Finset.mem_range.1 hj)
      cases err with
      | none => exact hj
      | some err => exact absurd hj (hfailed j err)
    have hsucceeded : r.succeeded = r.n := by rw [succeeded, hall, Finset.card_range]
    have hlt := h.waiting i hphase
    have htokens := h.token
    rw [hphase] at htokens
    simp only [RunPhase.acquired, RunPhase.spawned] at htokens
    exact .inr (by omega)

/-- A step of `Run` or of a goroutine outside of its task. -/
def IsOwn : RunAction → Prop
  | .returns _ _ => False
  | .cancel _ => False
  | _ => True

/-- As long as `Run` has not returned, it goes on, or some task is running. -/
theorem Inv.proceeds (h : r.Inv) (hphase : ∀ i err, r.phase ≠ .finished i err)
    (hidle : ∀ i f, r.goroutine i ≠ .running f) : ∃ a r', IsOwn a ∧ r.step a = some r' := by
  cases hp : r.phase with
  | spawning i =>
    have hlt : i < r.tasks.length := h.spawning i hp
    have htoken := h.token_pos hp
    refine ⟨.spawn, { r.setTask i (.running r.tasks[i]) with
      token := r.token - 1, phase := spawn r.n (i + 1) }, trivial, ?_⟩
    simp only [step, hp, List.getElem?_eq_getElem hlt, if_pos htoken]
  | waiting i =>
    by_cases hreturned : ∃ j err, r.goroutine j = .returned err
    · obtain ⟨j, err, hj⟩ := hreturned
      cases err with
      | none =>
        exact ⟨.report j, { r.setTask j (.ended none) with token := r.token + 1 }, trivial, by
          simp only [step, hj, if_pos (h.token_lt hj)]⟩
      | some err =>
        exact ⟨.report j, { r.setTask j (.ended (some err)) with done := r.done.or (some err) },
          trivial, by simp only [step, hj]⟩
    · push Not at hreturned
      have hended : ∀ j < r.n, ∃ err, r.goroutine j = .ended err := by
        intro j hj
        have hstarted : r.goroutine j ≠ .notStarted := (h.started j).1 (by rw [hp]; exact hj)
        cases hg : r.goroutine j with
        | notStarted => exact absurd hg hstarted
        | running f => exact absurd hg (hidle j f)
        | returned err => exact absurd hg (hreturned j err)
        | ended err => exact ⟨err, rfl⟩
      rcases h.receives hp hended with hdone | htoken
      · obtain ⟨err, hdone⟩ := Option.ne_none_iff_exists'.1 hdone
        exact ⟨.receiveDone, { r with phase := .finished i (some err), done := none }, trivial, by
          simp only [step, hp, hdone]⟩
      · exact ⟨.receiveToken, { r with token := r.token - 1, phase := wait r.n (i + 1) }, trivial, by
          simp only [step, hp, if_pos htoken]⟩
  | finished i err => exact absurd hp (hphase i err)

/-! ## Runs -/

/-- What is expected of `Run`. -/
structure Lawful (r : TaskRun) : Prop where
  /-- Nil is returned only if all tasks have returned nil. -/
  nil : ∀ i, r.phase = .finished i none → ∀ j < r.n, r.goroutine j = .ended none
  /-- An error is that of the context, or one that a task has returned. -/
  err : ∀ i err, r.phase = .finished i (some err) →
    r.ctx = some err ∨ ∃ j < r.n, r.goroutine j = .ended (some err)
  /-- A token is acquired for a task that has succeeded, and for no other one. -/
  acquired : r.phase.acquired ≤ r.succeeded
  /-- No goroutine is blocked in `Signal`. -/
  signal : ∀ i, r.goroutine i = .returned none → r.token < r.n
  proceeds : (∀ i err, r.phase ≠ .finished i err) → (∀ i f, r.goroutine i ≠ .running f) →
    ∃ a r', IsOwn a ∧ r.step a = some r'
  /-- There are no more steps left than `work`, but the end of the context. -/
  work_lt : ∀ a r', r.step a = some r' → (∀ err, a ≠ .cancel err) → r'.work < r.work

theorem Inv.lawful (h : r.Inv) : r.Lawful where
  nil i hphase j hj := by
    have htokens := h.token
    rw [hphase, h.nil i hphase] at htokens
    simp only [RunPhase.acquired, RunPhase.spawned] at htokens
    have hle := r.succeeded_le
    exact eq_ended_of_succeeded_eq (by omega) hj
  err i err hphase := by
    refine (h.err i err hphase).imp_right fun ⟨j, hj⟩ => ⟨j, h.lt ?_, hj⟩
    rw [hj]
    exact nofun
  acquired := by
    have htokens := h.token
    have hle := h.spawned_le
    cases hphase : r.phase with
    | spawning i => exact Nat.zero_le _
    | waiting i =>
      rw [hphase] at htokens
      simp only [RunPhase.acquired, RunPhase.spawned] at htokens ⊢
      omega
    | finished i err =>
      rw [hphase] at htokens
      simp only [RunPhase.acquired, RunPhase.spawned] at htokens ⊢
      omega
  signal i hi := h.token_lt hi
  proceeds := h.proceeds
  work_lt a r' hstep := (moves_of_step hstep).work_lt h

theorem inv_of_reach {tasks : List TaskFunc} (h : (running tasks).Reach (fun _ => True) r) : r.Inv := by
  refine h.invariant (fun r hinit _ => ?_) ?_
  · rw [show r = .start tasks from hinit]
    exact inv_start tasks
  · intro r a r' _ hi hstep _
    exact Moves.inv hi (moves_of_step hstep)

/-- Whatever the tasks are and in whatever order they return, fail or are cancelled, `Run`
    behaves as it should. -/
theorem running_lawful (tasks : List TaskFunc) (r : TaskRun)
    (h : (running tasks).Reach (fun _ => True) r) : r.Lawful :=
  (inv_of_reach h).lawful

/-- Two tasks, one of them made of two functions, at the start of `Run`. -/
theorem running_lawful_start :
    (running [.func, .onSuccess .func .func]).Reach (fun _ => True)
        (.start [.func, .onSuccess .func .func]) ∧
      (start [.func, .onSuccess .func .func]).Lawful := by
  have hreach : (running [.func, .onSuccess .func .func]).Reach (fun _ => True)
      (.start [.func, .onSuccess .func .func]) := .init rfl trivial
  exact ⟨hreach, running_lawful _ _ hreach⟩

end TaskRun

end Gzv2ray.Task
