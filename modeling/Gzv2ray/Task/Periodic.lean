import Gzv2ray.Lib.Transition

/-!
# Periodic tasks

A periodic task executes, and arms a timer that executes it again. Its flag and
its timer are guarded by a lock, but `Execute` runs outside of it: a call of
`Start` or `Close` may come in between the check of the flag, the execution and
what is done after it.

* `Periodic.step`: the steps, one for each section under the lock;
* `Periodic.Lawful`: there is one chain of executions at most, none is armed
  after `Close`, and none is lost that `Start` has promised;
* `Periodic.Inv.step`: every step keeps the invariant, as long as no chain is
  started beside another one that is ending, and no execution fails that a call
  of `Start` relies on;
* `periodic_lawful`: so it is for runs.
-/

namespace Gzv2ray.Task

/-- Where a goroutine is. `start` tells that it is in `Start`, it is the one of a timer otherwise. -/
inductive Phase
  | idle
  /-- In `checkedExecute`, before `hasClosed`. -/
  | entered (start : Bool)
  /-- In `Execute`. `relied` tells that a call of `Start` has found the task running since. -/
  | executing (start relied : Bool)
  /-- `Execute` has returned nil. -/
  | succeeded (start : Bool)
  /-- `Execute` has returned an error. -/
  | failed (start relied : Bool)
  /-- In `Start`, after `checkedExecute` has failed. -/
  | clears
  deriving DecidableEq

/-- A call of `Start` finds the task running. -/
def Phase.rely : Phase → Phase
  | executing start _ => executing start true
  | failed start _ => failed start true
  | p => p

/-- Timers and goroutines have numbers. -/
structure Periodic where
  running : Bool := false
  timer : Option ℕ := none
  /-- The timers that are to fire yet. -/
  armed : ℕ → Bool := fun _ => false
  /-- The number of timers made. -/
  created : ℕ := 0
  goroutine : ℕ → Phase := fun _ => .idle
  /-- `Close` was called, and `Start` not since. -/
  closed : Bool := false
  /-- `Start` was called, and since then neither `Close`, nor did an execution fail that began
      later. -/
  owed : Bool := false

/-- What may happen next. -/
inductive Periodically
  /-- `Start` is called, up to the end of its section under the lock. -/
  | start (g : ℕ)
  | hasClosed (g : ℕ)
  /-- `Execute` returns. -/
  | execute (g : ℕ) (ok : Bool)
  /-- After an execution that returned nil. -/
  | rearm (g : ℕ)
  /-- After an execution that returned an error. -/
  | clear (g : ℕ)
  /-- The same in `Start`. -/
  | clearAgain (g : ℕ)
  /-- A timer fires, in a goroutine. -/
  | fire (n g : ℕ)
  | close
  deriving DecidableEq

namespace Periodic

variable (t : Periodic)

def setPhase (g : ℕ) (p : Phase) : Periodic :=
  { t with goroutine := Function.update t.goroutine g p }

/-- `time.AfterFunc` -/
def afterFunc : Periodic :=
  { t with
    timer := some t.created
    armed := Function.update t.armed t.created true
    created := t.created + 1 }

/-- `Start` finds the task running. -/
def rely : Periodic :=
  { t with
    goroutine := fun g => (t.goroutine g).rely
    closed := false
    owed := true }

/-- `Start` sets the flag, and goes on to `checkedExecute`. -/
def enter (g : ℕ) : Periodic :=
  { t.setPhase g (.entered true) with
    running := true
    closed := false
    owed := true }

def start (g : ℕ) : Periodic := if t.running then t.rely else t.enter g

/-- A timer fires, and its goroutine calls `checkedExecute`. -/
def fire (n g : ℕ) : Periodic :=
  { t.setPhase g (.entered false) with armed := Function.update t.armed n false }

def close : Periodic :=
  { t with
    running := false
    timer := none
    armed := fun n => t.armed n && t.timer != some n
    closed := true
    owed := false }

def step : Periodically → Option Periodic
  | .start g => if t.goroutine g = .idle then some (t.start g) else none
  | .hasClosed g =>
    match t.goroutine g with
    | .entered start => some (t.setPhase g (if t.running then .executing start false else .idle))
    | _ => none
  | .execute g ok =>
    match t.goroutine g with
    | .executing start relied =>
      some (t.setPhase g (if ok then .succeeded start else .failed start relied))
    | _ => none
  | .rearm g =>
    match t.goroutine g with
    | .succeeded _ =>
      some (if t.running then (t.setPhase g .idle).afterFunc else t.setPhase g .idle)
    | _ => none
  | .clear g =>
    match t.goroutine g with
    | .failed start relied =>
      some { t.setPhase g (if start then .clears else .idle) with
        running := false, owed := t.owed && relied }
    | _ => none
  | .clearAgain g =>
    match t.goroutine g with
    | .clears => some { t.setPhase g .idle with running := false }
    | _ => none
  | .fire n g =>
    if t.armed n = true ∧ t.goroutine g = .idle then some (t.fire n g) else none
  | .close => some t.close

/-- The chains of executions: the pending timers on the left, the executions on the right. -/
def chains : Set (ℕ ⊕ ℕ) :=
  {x | x.elim (t.armed · = true) fun g => ∃ start relied, t.goroutine g = .executing start relied}

/-- A timer is pending, or a goroutine is in `checkedExecute`. -/
def IsAlive : Prop :=
  (∃ n, t.armed n = true) ∨ ∃ g, t.goroutine g ≠ .idle ∧ t.goroutine g ≠ .clears

/-- What is expected of a periodic task. -/
structure Lawful : Prop where
  single : t.chains.Subsingleton
  closed : t.closed = true → t.running = false ∧ ∀ n, t.armed n = false
  owed : t.owed = true → t.running = true ∧ t.IsAlive

/-- `Start` does not begin a chain as long as a goroutine is in one, and no execution fails that a
    call of `Start` has found running. -/
def Undisturbed : Periodically → Prop
  | .start _ => t.running = false → ∀ g, t.goroutine g = .idle
  | .clear g => ∀ start, t.goroutine g ≠ .failed start true
  | _ => True

end Periodic

/-- The runs of a new task. -/
def periodic : Lts Periodic Periodically where
  init t := t = {}
  step t a t' := t.step a = some t'

namespace Periodic

variable {t t' : Periodic} {a : Periodically} {g : ℕ}

/-! ## The steps of a goroutine -/

theorem step_start (h : t.step (.start g) = some t') : t.goroutine g = .idle ∧ t' = t.start g := by
  obtain ⟨hg, hstart⟩ := Option.ite_none_right_eq_some.1 h
  exact ⟨hg, (Option.some.inj hstart).symm⟩

theorem step_hasClosed (h : t.step (.hasClosed g) = some t') : ∃ start,
    t.goroutine g = .entered start ∧
      t' = t.setPhase g (if t.running then .executing start false else .idle) := by
  simp only [Periodic.step] at h
  split at h
  · next start hg => exact ⟨start, hg, (Option.some.inj h).symm⟩
  · cases h

theorem step_execute {ok : Bool} (h : t.step (.execute g ok) = some t') : ∃ start relied,
    t.goroutine g = .executing start relied ∧
      t' = t.setPhase g (if ok then .succeeded start else .failed start relied) := by
  simp only [Periodic.step] at h
  split at h
  · next start relied hg => exact ⟨start, relied, hg, (Option.some.inj h).symm⟩
  · cases h

theorem step_rearm (h : t.step (.rearm g) = some t') : ∃ start,
    t.goroutine g = .succeeded start ∧
      t' = if t.running then (t.setPhase g .idle).afterFunc else t.setPhase g .idle := by
  simp only [Periodic.step] at h
  split at h
  · next start hg => exact ⟨start, hg, (Option.some.inj h).symm⟩
  · cases h

theorem step_clear (h : t.step (.clear g) = some t') : ∃ start relied,
    t.goroutine g = .failed start relied ∧
      t' = { t.setPhase g (if start then .clears else .idle) with
        running := false, owed := t.owed && relied } := by
  simp only [Periodic.step] at h
  split at h
  · next start relied hg => exact ⟨start, relied, hg, (Option.some.inj h).symm⟩
  · cases h

theorem step_clearAgain (h : t.step (.clearAgain g) = some t') :
    t.goroutine g = .clears ∧ t' = { t.setPhase g .idle with running := false } := by
  simp only [Periodic.step] at h
  split at h
  · next hg => exact ⟨hg, (Option.some.inj h).symm⟩
  · cases h

theorem step_fire {n : ℕ} (h : t.step (.fire n g) = some t') :
    t.armed n = true ∧ t.goroutine g = .idle ∧ t' = t.fire n g := by
  obtain ⟨⟨hn, hg⟩, hfire⟩ := Option.ite_none_right_eq_some.1 h
  exact ⟨hn, hg, (Option.some.inj hfire).symm⟩

/-! ## The invariant -/

variable (t) in
/-- The pending timers on the left, the goroutines on the right. -/
def units : Set (ℕ ⊕ ℕ) := {x | x.elim (t.armed · = true) (t.goroutine · ≠ .idle)}

variable (t) in
/-- There is one timer or goroutine at most, and one as long as the task is running. -/
structure Inv : Prop where
  single : t.units.Subsingleton
  timer {n : ℕ} : t.armed n = true → t.timer = some n
  stopped : t.running = false → ∀ n, t.armed n = false
  alive : t.running = true → t.IsAlive
  closed : t.closed = true → t.running = false
  owed : t.owed = true → t.running = true

@[simp] theorem mem_units_inl {n : ℕ} : Sum.inl n ∈ t.units ↔ t.armed n = true := Iff.rfl

@[simp] theorem mem_units_inr : Sum.inr g ∈ t.units ↔ t.goroutine g ≠ .idle := Iff.rfl

theorem mem_chains_inr : Sum.inr g ∈ t.chains ↔
    ∃ start relied, t.goroutine g = .executing start relied := Iff.rfl

theorem setPhase_goroutine_self {p : Phase} : (t.setPhase g p).goroutine g = p :=
  Function.update_self ..

theorem setPhase_goroutine_of_ne {p : Phase} {g' : ℕ} (h : g' ≠ g) :
    (t.setPhase g p).goroutine g' = t.goroutine g' := Function.update_of_ne h ..

/-- The executions and the pending timers are among the units. -/
theorem chains_subset : t.chains ⊆ t.units := by
  rintro (n | g) hx
  · exact hx
  · obtain ⟨start, relied, hg⟩ := mem_chains_inr.1 hx
    exact mem_units_inr.2 (hg ▸ Phase.noConfusion)

/-- Besides a goroutine, there is no timer. -/
theorem Inv.not_armed (h : t.Inv) (hg : t.goroutine g ≠ .idle) (n : ℕ) : t.armed n = false := by
  by_contra hn
  exact Sum.inl_ne_inr (h.single (mem_units_inl.2 (by simpa using hn)) (mem_units_inr.2 hg))

/-- Nor is there another goroutine. -/
theorem Inv.eq_idle (h : t.Inv) (hg : t.goroutine g ≠ .idle) {g' : ℕ} (hne : g' ≠ g) :
    t.goroutine g' = .idle := by
  by_contra hg'
  exact hne (Sum.inr.inj (h.single (mem_units_inr.2 hg') (mem_units_inr.2 hg)))

/-- What a state has without timers and with one goroutine at most. -/
theorem units_subsingleton (hn : ∀ n, t.armed n = false)
    (hg : ∀ g', g' ≠ g → t.goroutine g' = .idle) : t.units.Subsingleton := by
  have hall (x : ℕ ⊕ ℕ) (hx : x ∈ t.units) : x = .inr g := by
    rcases x with n | g'
    · exact absurd (mem_units_inl.1 hx) (by simp [hn n])
    · by_contra hne
      exact hx (hg g' fun heq => hne (congrArg Sum.inr heq))
  exact fun x hx y hy => (hall x hx).trans (hall y hy).symm

/-- The only goroutine goes on. -/
theorem Inv.setPhase (h : t.Inv) (hg : t.goroutine g ≠ .idle) {p : Phase} (hp : p ≠ .idle)
    (hp' : p ≠ .clears) : (t.setPhase g p).Inv where
  single := units_subsingleton (g := g) (h.not_armed hg) fun g' hne =>
    (setPhase_goroutine_of_ne hne).trans (h.eq_idle hg hne)
  timer := h.timer
  stopped := h.stopped
  alive _ := .inr ⟨g, by rw [setPhase_goroutine_self]; exact ⟨hp, hp'⟩⟩
  closed := h.closed
  owed := h.owed

/-- The only goroutine leaves the task stopped. -/
theorem Inv.setPhase_stopped (h : t.Inv) (hg : t.goroutine g ≠ .idle) (p : Phase)
    (hrunning : t'.running = false) (howed : t'.owed = false) (harmed : t'.armed = t.armed)
    (hgoroutine : t'.goroutine = (t.setPhase g p).goroutine) : t'.Inv where
  single := units_subsingleton (g := g) (harmed ▸ h.not_armed hg) fun g' hne =>
    hgoroutine ▸ (setPhase_goroutine_of_ne hne).trans (h.eq_idle hg hne)
  timer {n} hn := absurd hn (by simp [harmed, h.not_armed hg n])
  stopped _ := harmed ▸ h.not_armed hg
  alive hrun := absurd hrun (by simp [hrunning])
  closed _ := hrunning
  owed ho := absurd ho (by simp [howed])

theorem Inv.owed_eq_false (h : t.Inv) (hrunning : t.running = false) : t.owed = false := by
  by_contra howed
  exact absurd (h.owed (by simpa using howed)) (by simp [hrunning])

/-- A goroutine that clears the flag again finds it cleared: another one would have to be in
    the chain of a task that is running. -/
theorem Inv.stopped_of_clears (h : t.Inv) (hg : t.goroutine g = .clears) : t.running = false := by
  have hbusy : t.goroutine g ≠ .idle := hg ▸ Phase.noConfusion
  by_contra hrunning
  rcases h.alive (by simpa using hrunning) with ⟨n, hn⟩ | ⟨g', hidle, hclears⟩
  · exact absurd hn (by simp [h.not_armed hbusy n])
  · rcases eq_or_ne g' g with rfl | hne
    · exact hclears hg
    · exact hidle (h.eq_idle hbusy hne)

theorem rely_eq_idle {p : Phase} : p.rely = .idle ↔ p = .idle := by rcases p <;> simp [Phase.rely]

theorem rely_eq_clears {p : Phase} : p.rely = .clears ↔ p = .clears := by
  rcases p <;> simp [Phase.rely]

/-- A call of `Start` begins a chain where there is none. -/
theorem Inv.start (h : t.Inv) (hundisturbed : t.Undisturbed (.start g)) : (t.start g).Inv := by
  rw [Periodic.start]
  split_ifs with hrunning
  · have hunits : t.rely.units = t.units := by
      ext (n | g)
      · rfl
      · exact not_congr rely_eq_idle
    refine ⟨hunits ▸ h.single, h.timer, h.stopped, fun _ => ?_, fun hc => ?_, fun _ => hrunning⟩
    · refine (h.alive hrunning).imp_right ?_
      rintro ⟨g', hidle, hclears⟩
      exact ⟨g', rely_eq_idle.not.2 hidle, rely_eq_clears.not.2 hclears⟩
    · exact absurd hc Bool.false_ne_true
  · have hstopped : t.running = false := by simpa using hrunning
    have hnone := h.stopped hstopped
    refine ⟨units_subsingleton (g := g) hnone fun g' hne => ?_, fun hn => ?_, fun hf => ?_,
      fun _ => .inr ⟨g, ?_⟩, fun hc => ?_, fun _ => rfl⟩
    · exact (setPhase_goroutine_of_ne hne).trans (hundisturbed hstopped g')
    · exact h.timer hn
    · exact absurd hf.symm Bool.false_ne_true
    · change (t.setPhase g _).goroutine g ≠ _ ∧ (t.setPhase g _).goroutine g ≠ _
      rw [setPhase_goroutine_self]
      exact ⟨Phase.noConfusion, Phase.noConfusion⟩
    · exact absurd hc Bool.false_ne_true

/-- The timer is armed again by the goroutine that ends. -/
theorem Inv.afterFunc (h : t.Inv) (hg : t.goroutine g ≠ .idle) (hrunning : t.running = true) :
    (t.setPhase g .idle).afterFunc.Inv := by
  have harmed (n : ℕ) : (t.setPhase g .idle).afterFunc.armed n = true ↔ n = t.created := by
    change Function.update t.armed t.created true n = true ↔ _
    rcases eq_or_ne n t.created with rfl | hne
    · exact iff_of_true (Function.update_self ..) rfl
    · rw [Function.update_of_ne hne, h.not_armed hg]
      exact iff_of_false Bool.false_ne_true hne
  have hidle (g' : ℕ) : (t.setPhase g .idle).afterFunc.goroutine g' = .idle := by
    change (t.setPhase g .idle).goroutine g' = .idle
    rcases eq_or_ne g' g with rfl | hne
    · exact setPhase_goroutine_self
    · exact (setPhase_goroutine_of_ne hne).trans (h.eq_idle hg hne)
  have hall (x : ℕ ⊕ ℕ) (hx : x ∈ (t.setPhase g .idle).afterFunc.units) : x = .inl t.created := by
    rcases x with n | g'
    · exact congrArg Sum.inl ((harmed n).1 hx)
    · exact absurd (hidle g') hx
  exact ⟨fun x hx y hy => (hall x hx).trans (hall y hy).symm,
    fun hn => congrArg some ((harmed _).1 hn).symm,
    fun hf => absurd (hrunning.symm.trans hf) (by simp),
    fun _ => .inl ⟨t.created, (harmed _).2 rfl⟩, h.closed, h.owed⟩

/-- A timer fires: its goroutine takes its place. -/
theorem Inv.fire (h : t.Inv) {n : ℕ} (hn : t.armed n = true) : (t.fire n g).Inv := by
  have hidle (g' : ℕ) : t.goroutine g' = .idle := by
    by_contra hg'
    exact absurd hn (by simp [h.not_armed hg' n])
  have hnone (n' : ℕ) : Function.update t.armed n false n' = false := by
    rcases eq_or_ne n' n with rfl | hne
    · exact Function.update_self ..
    · rw [Function.update_of_ne hne]
      by_contra hn'
      exact hne (Sum.inl.inj (h.single (mem_units_inl.2 (by simpa using hn')) (mem_units_inl.2 hn)))
  refine ⟨units_subsingleton (g := g) hnone fun g' hne => ?_, fun {n'} hn' => ?_, fun _ => hnone,
    fun _ => .inr ⟨g, ?_⟩, h.closed, h.owed⟩
  · exact (setPhase_goroutine_of_ne hne).trans (hidle g')
  · exact absurd ((hnone n').symm.trans hn') Bool.false_ne_true
  · change (t.setPhase g _).goroutine g ≠ _ ∧ (t.setPhase g _).goroutine g ≠ _
    rw [setPhase_goroutine_self]
    exact ⟨Phase.noConfusion, Phase.noConfusion⟩

/-- `Close` stops the only timer there may be. -/
theorem Inv.close (h : t.Inv) : t.close.Inv := by
  have hnone (n : ℕ) : t.close.armed n = false := by
    change (t.armed n && t.timer != some n) = false
    by_cases hn : t.armed n = true
    · simp [hn, h.timer hn]
    · simp [hn]
  refine ⟨?_, fun {n} hn => ?_, fun _ => hnone, fun hr => ?_, fun _ => rfl, fun ho => ?_⟩
  · have hsub : t.close.units ⊆ t.units := by
      rintro (n | g) hx
      · exact absurd (mem_units_inl.1 hx) (by simp [hnone n])
      · exact hx
    exact h.single.anti hsub
  · exact absurd hn (by simp [hnone n])
  · exact absurd hr Bool.false_ne_true
  · exact absurd ho Bool.false_ne_true

/-- A task that is not disturbed keeps the invariant. -/
theorem Inv.step (h : t.Inv) (hundisturbed : t.Undisturbed a) (hstep : t.step a = some t') :
    t'.Inv := by
  rcases a with g | g | ⟨g, ok⟩ | g | g | g | ⟨n, g⟩ | -
  · obtain ⟨-, rfl⟩ := step_start hstep
    exact h.start hundisturbed
  · obtain ⟨start, hg, rfl⟩ := step_hasClosed hstep
    have hbusy : t.goroutine g ≠ .idle := hg ▸ Phase.noConfusion
    split_ifs with hrunning
    · exact h.setPhase hbusy Phase.noConfusion Phase.noConfusion
    · have hstopped : t.running = false := by simpa using hrunning
      exact h.setPhase_stopped hbusy .idle hstopped (h.owed_eq_false hstopped) rfl rfl
  · obtain ⟨start, relied, hg, rfl⟩ := step_execute hstep
    have hbusy : t.goroutine g ≠ .idle := hg ▸ Phase.noConfusion
    split_ifs <;> exact h.setPhase hbusy Phase.noConfusion Phase.noConfusion
  · obtain ⟨start, hg, rfl⟩ := step_rearm hstep
    have hbusy : t.goroutine g ≠ .idle := hg ▸ Phase.noConfusion
    split_ifs with hrunning
    · exact h.afterFunc hbusy hrunning
    · have hstopped : t.running = false := by simpa using hrunning
      exact h.setPhase_stopped hbusy .idle hstopped (h.owed_eq_false hstopped) rfl rfl
  · obtain ⟨start, relied, hg, rfl⟩ := step_clear hstep
    have hbusy : t.goroutine g ≠ .idle := hg ▸ Phase.noConfusion
    -- No call of `Start` relies on the execution that has failed.
    obtain rfl : relied = false := by
      by_contra hrelied
      exact hundisturbed start (by simpa [hrelied] using hg)
    exact h.setPhase_stopped hbusy _ rfl (Bool.and_false _) rfl rfl
  · obtain ⟨hg, rfl⟩ := step_clearAgain hstep
    have hbusy : t.goroutine g ≠ .idle := hg ▸ Phase.noConfusion
    exact h.setPhase_stopped hbusy _ rfl (h.owed_eq_false (h.stopped_of_clears hg)) rfl rfl
  · obtain ⟨hn, -, rfl⟩ := step_fire hstep
    exact h.fire hn
  · obtain rfl := Option.some.inj hstep
    exact h.close

theorem inv_new : ({} : Periodic).Inv where
  single := by
    rintro (n | g) hx
    · exact absurd (mem_units_inl.1 hx) Bool.false_ne_true
    · exact absurd rfl (mem_units_inr.1 hx)
  timer hn := absurd hn Bool.false_ne_true
  stopped _ _ := rfl
  alive hr := absurd hr Bool.false_ne_true
  closed _ := rfl
  owed ho := absurd ho Bool.false_ne_true

theorem Inv.lawful (h : t.Inv) : t.Lawful where
  single := h.single.anti chains_subset
  closed hc := ⟨h.closed hc, h.stopped (h.closed hc)⟩
  owed ho := ⟨h.owed ho, h.alive (h.owed ho)⟩

end Periodic

/-- As long as `Start` begins no chain while a goroutine is in one, and no execution fails that a
    call of `Start` has found running, a periodic task has one chain at most, none after `Close`,
    and one as long as `Start` has promised it. -/
theorem periodic_lawful {t : Periodic}
    (h : (periodic.restrict Periodic.Undisturbed).Reach (fun _ => True) t) : t.Lawful := by
  have hinv : t.Inv := by
    refine h.invariant ?_ ?_
    · rintro _ rfl _
      exact Periodic.inv_new
    · rintro t a t' - hinv ⟨hundisturbed, hstep⟩ -
      exact hinv.step hundisturbed hstep
  exact hinv.lawful

/-- A task is started, and its timer is armed. -/
theorem periodic_lawful_example : ∃ t : Periodic,
    periodic.Exec {} [.start 0, .hasClosed 0, .execute 0 true, .rearm 0] t ∧ t.armed 0 = true ∧
      t.Lawful := by
  have hstart : (periodic.restrict Periodic.Undisturbed).Exec {}
      [.start 0, .hasClosed 0, .execute 0 true, .rearm 0] _ :=
    .cons ⟨fun _ _ => rfl, rfl⟩ (.cons ⟨trivial, rfl⟩ (.cons ⟨trivial, rfl⟩
      (.cons ⟨trivial, rfl⟩ (.nil _))))
  exact ⟨_, Lts.exec_of_run (fun _ _ _ h => h) rfl, rfl,
    periodic_lawful (hstart.reach (fun _ => trivial) (.init rfl trivial))⟩

/-- A call of `Start` that finds the task running is lost when the execution fails; and a task that
    is closed and started again while it executes goes on in two chains. -/
theorem start_lost : (∃ t, periodic.Exec {}
      [.start 0, .hasClosed 0, .start 1, .execute 0 false, .clear 0, .clearAgain 0] t ∧
      t.owed = true ∧ ¬t.IsAlive) ∧
    ∃ t, periodic.Exec {} [.start 0, .hasClosed 0, .close, .start 1, .hasClosed 1] t ∧
      ¬t.chains.Subsingleton := by
  refine ⟨⟨_, Lts.exec_of_run (fun _ _ _ h => h) rfl, rfl, ?_⟩,
    ⟨_, Lts.exec_of_run (fun _ _ _ h => h) rfl, fun hsingle => ?_⟩⟩
  · rintro (⟨n, hn⟩ | ⟨- | - | g, hidle, -⟩)
    · exact Bool.false_ne_true hn
    · exact hidle rfl
    · exact hidle rfl
    · exact hidle rfl
  · have heq := hsingle (Periodic.mem_chains_inr (g := 0).2 ⟨true, false, rfl⟩)
      (Periodic.mem_chains_inr (g := 1).2 ⟨true, false, rfl⟩)
    exact absurd (Sum.inr.inj heq) Nat.zero_ne_one

end Gzv2ray.Task
