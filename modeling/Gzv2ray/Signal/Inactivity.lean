import Gzv2ray.Signal.ActivityTimer

/-!
# Runs of an activity timer

What holds of an activity timer as long as the calls of `SetTimeout` are careful.
A call of `SetTimeout` with a timeout is alone until it starts its task: no check
is under way that may take the token or close the task. From then on, the checks
of this task are the only ones, and they come when the timeout has passed.

* `ActivityTimer.Inv`: the invariant;
* `ActivityTimer.Inv.step`: every careful step keeps it.
-/

namespace Gzv2ray.Signal.ActivityTimer

open Gzv2ray.Task

variable {t t' : ActivityTimer} {a : Timing} {c c' k g n : ℕ} {kg : ℕ × ℕ} {w : Finisher}

/-! ## The invariant -/

variable (t) in
/-- Who has the lock: they are in `finish`. -/
def holders : Set Finisher := {w | t.isFired w = true}

/-- The next checks of a task come when the timeout has passed. -/
structure Timed (p : Periodic) (interval now : ℕ) (due : ℕ → ℕ) (began timeout : ℕ) : Prop where
  interval_eq : interval = timeout
  armed {n : ℕ} : p.armed n = true → began + timeout ≤ due n
  entered {g : ℕ} : p.goroutine g = .entered false → began + timeout ≤ now

variable (t) in
/-- What holds in every careful run. -/
structure Inv : Prop where
  task (k : ℕ) : (t.tasks k).Inv
  fresh {k : ℕ} : t.made ≤ k → t.tasks k = {}
  current {k : ℕ} : (t.tasks k).running = true → t.checkTask = some k
  made {k : ℕ} : t.checkTask = some k → k < t.made
  check {kg : ℕ × ℕ} : t.checks kg ≠ .returned → t.IsChecking kg
  lock : Token.Held t.unlocked t.holders
  /-- A call with a timeout is alone. -/
  alone {c c' : ℕ} : (t.callers c).IsPositive → c' ≠ c → t.callers c' = .idle
  /-- The checks during such a call are those of its task. -/
  own {c : ℕ} {kg : ℕ × ℕ} : (t.callers c).IsPositive → t.IsChecking kg →
    t.callers c = .started kg.1
  ready {c k : ℕ} : t.callers c = .assigned k ∨ t.callers c = .updated k →
    t.checkTask = some k ∧ t.tasks k = {}
  unfired {c : ℕ} : (t.callers c).IsPositive → (∀ k, t.callers c ≠ .started k) →
    t.onTimeout = true
  updated {c k : ℕ} : t.callers c = .updated k → t.updated = true
  /-- The first check of a task finds the token. -/
  entered {k g : ℕ} : (t.tasks k).goroutine g = .entered true →
    t.callers g = .started k ∧ t.updated = true
  executing {k g : ℕ} {relied : Bool} : (t.tasks k).goroutine g = .executing true relied →
    t.callers g = .started k ∧
      (t.checks (k, g) = .selects ∧ t.updated = true ∨ t.checks (k, g) = .returned)
  begun {c timeout : ℕ} : t.callers c = .begun timeout →
    ∃ began, t.last = some (began, timeout)
  zero {c : ℕ} : t.callers c = .expired → t.last = none
  past {began timeout : ℕ} : t.last = some (began, timeout) → began ≤ t.now
  /-- A later check comes when the timeout has passed. -/
  late {began timeout k g : ℕ} {relied : Bool} : t.last = some (began, timeout) →
    (t.tasks k).goroutine g = .executing false relied → began + timeout ≤ t.now
  timed {began timeout k : ℕ} : t.last = some (began, timeout) →
    (∀ c timeout, t.callers c ≠ .begun timeout) → t.checkTask = some k →
      Timed (t.tasks k) (t.interval k) t.now (fun n => t.due (k, n)) began timeout
  stopped : t.onTimeout = false → t.unlocked = true → t.checkTask = none
  once : t.cancels.length = if t.onTimeout then 0 else 1
  cancels {e : Cancel} : e ∈ t.cancels → ∀ began timeout, e.setting = some (began, timeout) →
    began + timeout ≤ e.time

/-! ## Consequences -/

theorem holders_inl : Sum.inl c ∈ t.holders ↔ t.callers c = .fired := beq_iff_eq

theorem holders_inr : Sum.inr kg ∈ t.holders ↔ t.checks kg = .fired := beq_iff_eq

theorem Setting.not_idle_of_isPositive {p : Setting} (h : p.IsPositive) : p ≠ .idle := by
  rintro rfl
  exact h

/-- The timer is sound. -/
theorem Inv.sound (h : t.Inv) : t.Sound where
  once := by
    rw [h.once]
    split_ifs <;> decide
  late _ he := h.cancels he
  disarmed hfired hquiet k n := by
    have honTimeout : t.onTimeout = false := by
      by_contra hne
      refine hfired (List.length_eq_zero_iff.1 (h.once.trans (if_pos ?_)))
      simpa using hne
    have hunlocked : t.unlocked = true := by
      by_contra hlocked
      obtain ⟨c | kg, hw⟩ := h.lock.exists_mem (by simpa using hlocked)
      · exact Setting.noConfusion ((hquiet.1 c).symm.trans (holders_inl.1 hw))
      · exact hquiet.2 kg (h.check (by simp [holders_inr.1 hw]))
    refine (h.task k).stopped ?_ n
    by_contra hrunning
    have hcurrent := h.current (by simpa using hrunning)
    exact Option.some_ne_none k (hcurrent.symm.trans (h.stopped honTimeout hunlocked))

/-- During a call that has not started its task yet, no goroutine is in `check`. -/
theorem Inv.not_isChecking (h : t.Inv) (hc : (t.callers c).IsPositive)
    (hstarted : ∀ k, t.callers c ≠ .started k) : ¬t.IsChecking kg :=
  fun hkg => hstarted kg.1 (h.own hc hkg)

/-- A finisher that is about to call back does so when the timeout has passed. -/
theorem Inv.finish_late (h : t.Inv) (hw : t.isExpired w = true) {began timeout : ℕ}
    (hlast : t.last = some (began, timeout)) : began + timeout ≤ t.now := by
  rcases w with c | ⟨k, g⟩
  · exact absurd ((h.zero (beq_iff_eq.1 hw)).symm.trans hlast) (Option.some_ne_none _).symm
  · have hexpired : t.checks (k, g) = .expired := beq_iff_eq.1 hw
    obtain ⟨start, relied, hg⟩ := h.check (show t.checks (k, g) ≠ .returned by simp [hexpired])
    rcases start with - | -
    · exact h.late hlast hg
    · -- The first check of a task does not expire.
      rcases (h.executing hg).2 with ⟨hselects, -⟩ | hreturned
      · exact Check.noConfusion (hexpired.symm.trans hselects)
      · exact Check.noConfusion (hexpired.symm.trans hreturned)

/-! ## The callers -/

theorem setCaller_self (p : Setting) : (t.setCaller c p).callers c = p := Function.update_self ..

theorem setCaller_of_ne {p : Setting} (hne : c' ≠ c) :
    (t.setCaller c p).callers c' = t.callers c' := Function.update_of_ne hne ..

/-- A caller is where it was, if it is not the one that moves. -/
theorem setCaller_eq {p q : Setting} (hp : p ≠ q) (h : (t.setCaller c p).callers c' = q) :
    c' ≠ c ∧ t.callers c' = q := by
  rcases eq_or_ne c' c with rfl | hne
  · exact absurd ((setCaller_self p).symm.trans h) hp
  · exact ⟨hne, (setCaller_of_ne hne).symm.trans h⟩

theorem holders_setCaller {p : Setting} (hp : p ≠ .fired) (hc : t.callers c ≠ .fired)
    (w : Finisher) : w ∈ (t.setCaller c p).holders ↔ w ∈ t.holders := by
  rcases w with c' | kg
  · rw [holders_inl, holders_inl]
    rcases eq_or_ne c' c with rfl | hne
    · rw [setCaller_self]
      exact iff_of_false hp hc
    · rw [setCaller_of_ne hne]
  · rfl

theorem Inv.tick (h : t.Inv) (n : ℕ) : ({ t with now := t.now + n } : ActivityTimer).Inv :=
  { h with
    past := fun hlast => (h.past hlast).trans (Nat.le_add_right ..)
    late := fun hlast hg => (h.late hlast hg).trans (Nat.le_add_right ..)
    timed := fun hlast hbegun hk =>
      let htimed := h.timed hlast hbegun hk
      { htimed with entered := fun hg => (htimed.entered hg).trans (Nat.le_add_right ..) } }

theorem Inv.update (h : t.Inv) : t.update.Inv :=
  { h with
    updated := fun _ => rfl
    entered := fun hg => ⟨(h.entered hg).1, rfl⟩
    executing := fun hg => ⟨(h.executing hg).1, (h.executing hg).2.imp_left fun hx => ⟨hx.1, rfl⟩⟩ }

/-- During a call with a timeout, the others are idle. -/
theorem Inv.setCaller_isPositive (h : t.Inv) (hc : (t.callers c).IsPositive) {p : Setting}
    (hc' : ((t.setCaller c p).callers c').IsPositive) : c' = c := by
  by_contra hne
  rw [setCaller_of_ne hne, h.alone hc hne] at hc'
  exact hc'

theorem Inv.setCaller_alone (h : t.Inv) (hc : (t.callers c).IsPositive) {p : Setting} {c₁ c₂ : ℕ}
    (h₁ : ((t.setCaller c p).callers c₁).IsPositive) (hne : c₂ ≠ c₁) :
    (t.setCaller c p).callers c₂ = .idle := by
  obtain rfl := h.setCaller_isPositive hc h₁
  exact (setCaller_of_ne hne).trans (h.alone hc hne)

/-- No caller is in its first step any more. -/
theorem Inv.not_begun (h : t.Inv) (hc : (t.callers c).IsPositive)
    (hbegun : ∀ timeout, t.callers c ≠ .begun timeout) (c' timeout : ℕ) :
    t.callers c' ≠ .begun timeout := by
  rcases eq_or_ne c' c with rfl | hne
  · exact hbegun timeout
  · rw [h.alone hc hne]
    exact Setting.noConfusion

/-- Only the caller of a task that is started has a goroutine in it. -/
theorem Inv.entered_ne (h : t.Inv) (hc : ∀ k, t.callers c ≠ .started k)
    (hg : (t.tasks k).goroutine g = .entered true) : g ≠ c := by
  rintro rfl
  exact hc k (h.entered hg).1

/-- `SetTimeout` leaves the token for the first check. -/
theorem Inv.updates (h : t.Inv) (hc : t.callers c = .assigned k) (hupdated : t.updated = true) :
    (t.setCaller c (.updated k)).Inv := by
  have hpos : (t.callers c).IsPositive := hc ▸ trivial
  have hstarted (k') : t.callers c ≠ .started k' := by simp [hc]
  have hnone {kg} : ¬t.IsChecking kg := h.not_isChecking hpos hstarted
  exact { h with
    lock := h.lock.congr (holders_setCaller (by simp) (by simp [hc]))
    alone := h.setCaller_alone hpos
    own := fun _ hkg => absurd hkg hnone
    ready := fun {c' k'} hk' => by
      obtain rfl := h.setCaller_isPositive hpos
        (show ((t.setCaller c (.updated k)).callers c').IsPositive by
          rcases hk' with hk' | hk' <;> exact hk' ▸ trivial)
      rw [setCaller_self] at hk'
      obtain rfl : k = k' := by simpa using hk'
      exact h.ready (.inl hc)
    unfired := fun _ _ => h.unfired hpos hstarted
    updated := fun _ => hupdated
    entered := fun hg => ⟨(setCaller_of_ne (h.entered_ne hstarted hg)).trans (h.entered hg).1,
      (h.entered hg).2⟩
    executing := fun {k g relied} hg => absurd (show t.IsChecking (k, g) from ⟨true, relied, hg⟩) hnone
    begun := fun hbegun => h.begun (setCaller_eq (by simp) hbegun).2
    zero := fun hzero => h.zero (setCaller_eq (by simp) hzero).2
    timed := fun hlast _ => h.timed hlast (h.not_begun hpos (by simp [hc])) }

/-- `SetTimeout` returns when its goroutine has left the task. -/
theorem Inv.returns (h : t.Inv) (hc : t.callers c = .started k)
    (hidle : (t.tasks k).goroutine c = .idle) : (t.setCaller c .idle).Inv := by
  have hpos : (t.callers c).IsPositive := hc ▸ trivial
  have hall (c') : (t.setCaller c .idle).callers c' = .idle := by
    rcases eq_or_ne c' c with rfl | hne
    · exact setCaller_self _
    · exact (setCaller_of_ne hne).trans (h.alone hpos hne)
  have hnone {c'} (hc' : ((t.setCaller c .idle).callers c').IsPositive) : False := by
    rwa [hall c'] at hc'
  have hleft {k' g p} (hg : (t.tasks k').goroutine g = p) (hp : p ≠ .idle)
      (hk' : t.callers g = .started k') : (t.setCaller c .idle).callers g = .started k' := by
    refine (setCaller_of_ne ?_).trans hk'
    rintro rfl
    obtain rfl : k = k' := by simpa [hc] using hk'
    exact hp (hg.symm.trans hidle)
  exact { h with
    lock := h.lock.congr (holders_setCaller (by simp) (by simp [hc]))
    alone := fun hc' => (hnone hc').elim
    own := fun hc' => (hnone hc').elim
    ready := fun hk' => by simp [hall] at hk'
    unfired := fun hc' => (hnone hc').elim
    updated := fun hk' => by simp [hall] at hk'
    entered := fun hg => ⟨hleft hg (by simp) (h.entered hg).1, (h.entered hg).2⟩
    executing := fun hg => ⟨hleft hg (by simp) (h.executing hg).1, (h.executing hg).2⟩
    begun := fun hbegun => by simp [hall] at hbegun
    zero := fun hzero => by simp [hall] at hzero
    timed := fun hlast _ => h.timed hlast (h.not_begun hpos (by simp [hc])) }

/-- A call with a timeout of zero begins, while no call with a timeout is under way. -/
theorem Inv.setTimeout_zero (h : t.Inv) (hc : t.callers c = .idle)
    (hcareful : ∀ c, ¬(t.callers c).IsPositive) :
    (({ t with last := none } : ActivityTimer).setCaller c .expired).Inv := by
  have hnone {d} (hd : ((t.setCaller c .expired).callers d).IsPositive) : False := by
    rcases eq_or_ne d c with rfl | hne
    · rwa [setCaller_self] at hd
    · rw [setCaller_of_ne hne] at hd
      exact hcareful d hd
  have hstarted {k g} (hg : t.callers g = .started k) : False := hcareful g (hg ▸ trivial)
  exact { h with
    lock := h.lock.congr (holders_setCaller (by simp) (by simp [hc]))
    alone := fun hc' => (hnone hc').elim
    own := fun hc' => (hnone hc').elim
    ready := fun {c' k'} hk' =>
      (hnone (d := c') (by rcases hk' with hk' | hk' <;> exact hk' ▸ trivial)).elim
    unfired := fun hc' => (hnone hc').elim
    updated := fun {c' k'} hk' => (hnone (d := c') (hk' ▸ trivial)).elim
    entered := fun hg => (hstarted (h.entered hg).1).elim
    executing := fun hg => (hstarted (h.executing hg).1).elim
    begun := fun {c' _} hbegun => (hnone (d := c') (hbegun ▸ trivial)).elim
    zero := fun _ => rfl
    past := fun hlast => absurd hlast (by simp [setCaller])
    late := fun hlast => absurd hlast (by simp [setCaller])
    timed := fun hlast => absurd hlast (by simp [setCaller]) }

/-- A call with a timeout begins, while no other call and no check is under way. -/
theorem Inv.setTimeout_pos (h : t.Inv) {timeout : ℕ} (hidle : ∀ c, t.callers c = .idle)
    (hcheck : ∀ kg, ¬t.IsChecking kg) (honTimeout : t.onTimeout = true) :
    (({ t with last := some (t.now, timeout) } : ActivityTimer).setCaller c (.begun timeout)).Inv := by
  have hother {c'} (hne : c' ≠ c) : (t.setCaller c (.begun timeout)).callers c' = .idle :=
    (setCaller_of_ne hne).trans (hidle c')
  have hself {c'} (hc' : (t.setCaller c (.begun timeout)).callers c' ≠ .idle) : c' = c := by
    by_contra hne
    exact hc' (hother hne)
  have hbegun {c' p} (hp : p ≠ .idle) (hc' : (t.setCaller c (.begun timeout)).callers c' = p) :
      p = .begun timeout := by
    obtain rfl := hself (hc' ▸ hp)
    exact hc'.symm.trans (setCaller_self _)
  have hstarted {k g} (hg : t.callers g = .started k) : False :=
    Setting.noConfusion ((hidle g).symm.trans hg)
  exact { h with
    lock := h.lock.congr (holders_setCaller (by simp) (by simp [hidle]))
    alone := fun {c₁ c₂} hc₁ hne => hother fun heq => hne
      (heq.trans (hself (Setting.not_idle_of_isPositive hc₁)).symm)
    own := fun _ hkg => absurd hkg (hcheck _)
    ready := fun hk' => by
      rcases hk' with hk' | hk' <;> exact absurd (hbegun (by simp) hk') (by simp)
    unfired := fun _ _ => honTimeout
    updated := fun hk' => absurd (hbegun (by simp) hk') (by simp)
    entered := fun hg => (hstarted (h.entered hg).1).elim
    executing := fun hg => (hstarted (h.executing hg).1).elim
    begun := fun hc' => ⟨t.now, by cases hbegun (by simp) hc'; rfl⟩
    zero := fun hzero => absurd (hbegun (by simp) hzero) (by simp)
    past := fun hlast => by
      obtain ⟨rfl, -⟩ := Prod.mk.inj (Option.some.inj hlast)
      exact le_rfl
    late := fun _ hg => absurd ⟨_, _, hg⟩ (hcheck (_, _))
    timed := fun _ hne => absurd (setCaller_self _) (hne c timeout) }

/-! ## The tasks -/

theorem closeTask_goroutine (k : ℕ) :
    (t.closeTask.tasks k).goroutine = (t.tasks k).goroutine := by
  change (if t.checkTask = some k then (t.tasks k).close else t.tasks k).goroutine = _
  split_ifs <;> rfl

theorem closeTask_of_ne (hk : t.checkTask ≠ some k) : t.closeTask.tasks k = t.tasks k := if_neg hk

theorem Inv.closeTask_task (h : t.Inv) (k : ℕ) : (t.closeTask.tasks k).Inv := by
  change (if t.checkTask = some k then (t.tasks k).close else t.tasks k).Inv
  split_ifs
  · exact (h.task k).close
  · exact h.task k

theorem Inv.closeTask_running (h : t.Inv) (k : ℕ) : (t.closeTask.tasks k).running = false := by
  change (if t.checkTask = some k then (t.tasks k).close else t.tasks k).running = false
  split_ifs with hk
  · rfl
  · by_contra hrunning
    exact hk (h.current (by simpa using hrunning))

theorem Inv.closeTask_fresh (h : t.Inv) (hk : t.made ≤ k) : t.closeTask.tasks k = {} :=
  (closeTask_of_ne fun hcheck => absurd (h.made hcheck) (Nat.not_lt.2 hk)).trans (h.fresh hk)

theorem closeTask_isChecking : t.closeTask.IsChecking kg ↔ t.IsChecking kg := by
  rw [IsChecking, IsChecking, closeTask_goroutine]

/-- `SetTimeout` assigns its task. -/
theorem Inv.assign (h : t.Inv) {timeout : ℕ} (hc : t.callers c = .begun timeout) :
    ((t.assignTask timeout).setCaller c (.assigned t.made)).Inv := by
  have hpos : (t.callers c).IsPositive := hc ▸ trivial
  have hstarted (k') : t.callers c ≠ .started k' := by simp [hc]
  have hnone {kg} : ¬t.closeTask.IsChecking kg :=
    fun hkg => h.not_isChecking hpos hstarted (closeTask_isChecking.1 hkg)
  have hcaller {d} (hd : ((t.setCaller c (.assigned t.made)).callers d).IsPositive) : d = c :=
    h.setCaller_isPositive hpos hd
  have honTimeout := h.unfired hpos hstarted
  -- The call is alone and no check is under way, so that only its own task remains to be looked at.
  exact { h with
    task := h.closeTask_task
    fresh := fun hk => h.closeTask_fresh (Nat.le_of_succ_le hk)
    current := fun {k} hrunning => absurd ((h.closeTask_running k).symm.trans hrunning) (by simp)
    made := fun hk => Option.some.inj hk ▸ Nat.lt_succ_self t.made
    check := fun hkg => closeTask_isChecking.2 (h.check hkg)
    lock := h.lock.congr (holders_setCaller (by simp) (show t.callers c ≠ .fired by simp [hc]))
    alone := h.setCaller_alone hpos
    own := fun _ hkg => absurd hkg hnone
    ready := fun {c' k'} hk' => by
      obtain rfl := hcaller (d := c') (by rcases hk' with hk' | hk' <;> exact hk' ▸ trivial)
      obtain rfl : t.made = k' := by
        rcases hk' with hk' | hk' <;> simpa using (setCaller_self _).symm.trans hk'
      exact ⟨rfl, h.closeTask_fresh le_rfl⟩
    unfired := fun _ _ => honTimeout
    updated := fun hk' => h.updated (setCaller_eq (by simp) hk').2
    entered := fun {k g} hg => by
      have hg' := (congrFun (closeTask_goroutine k) g).symm.trans hg
      exact ⟨(setCaller_of_ne (h.entered_ne hstarted hg')).trans (h.entered hg').1,
        (h.entered hg').2⟩
    executing := fun {k g relied} hg =>
      absurd (show t.closeTask.IsChecking (k, g) from ⟨true, relied, hg⟩) hnone
    begun := fun hbegun => h.begun (setCaller_eq (by simp) hbegun).2
    zero := fun hzero => h.zero (setCaller_eq (by simp) hzero).2
    late := fun {_ _ k g relied} _ hg =>
      absurd (show t.closeTask.IsChecking (k, g) from ⟨false, relied, hg⟩) hnone
    timed := fun {began timeout' k} hlast _ hk => by
      obtain rfl := Option.some.inj hk
      obtain ⟨began', hbegun⟩ := h.begun hc
      obtain ⟨rfl, rfl⟩ : began' = began ∧ timeout = timeout' := by
        simpa using hbegun.symm.trans hlast
      have hfresh : t.closeTask.tasks t.made = {} := h.closeTask_fresh le_rfl
      refine ⟨Function.update_self .., fun hn => ?_, fun hg => ?_⟩
      · exact absurd ((congrArg (Periodic.armed · _) hfresh).symm.trans hn) Bool.false_ne_true
      · exact Phase.noConfusion ((congrArg (Periodic.goroutine · _) hfresh).symm.trans hg)
    stopped := fun hfired => absurd (honTimeout.symm.trans hfired) (by simp) }

/-! ## The goroutines -/

/-- A task goes on. What concerns its goroutines has to be shown. -/
theorem Inv.setTask (h : t.Inv) {p : Periodic} {checks : ℕ × ℕ → Check} {due : ℕ × ℕ → ℕ}
    (hp : p.Inv) (hrunning : p.running = (t.tasks k).running) (hne : t.tasks k ≠ {})
    (hothers : ∀ kg, kg.1 ≠ k → checks kg = t.checks kg)
    (hfired : ∀ kg, checks kg = .fired ↔ t.checks kg = .fired)
    (hdue : ∀ kn, kn.1 ≠ k → due kn = t.due kn)
    (hcheck : ∀ g, checks (k, g) ≠ .returned →
      ∃ start relied, p.goroutine g = .executing start relied)
    (hown : ∀ c g start relied, (t.callers c).IsPositive →
      p.goroutine g = .executing start relied → t.callers c = .started k)
    (hentered : ∀ g, p.goroutine g = .entered true →
      (t.tasks k).goroutine g = .entered true)
    (hexecuting : ∀ g relied, p.goroutine g = .executing true relied → t.callers g = .started k ∧
      (checks (k, g) = .selects ∧ t.updated = true ∨ checks (k, g) = .returned))
    (hlate : ∀ began timeout g relied, t.last = some (began, timeout) →
      p.goroutine g = .executing false relied → began + timeout ≤ t.now)
    (htimed : ∀ began timeout, t.last = some (began, timeout) →
      (∀ c timeout, t.callers c ≠ .begun timeout) → t.checkTask = some k →
        Timed p (t.interval k) t.now (fun n => due (k, n)) began timeout) :
    ({ t with tasks := Function.update t.tasks k p, checks, due } : ActivityTimer).Inv := by
  have hself : Function.update t.tasks k p k = p := Function.update_self ..
  have hof {k'} (hk' : k' ≠ k) : Function.update t.tasks k p k' = t.tasks k' :=
    Function.update_of_ne hk' ..
  -- What is known of a goroutine is what is assumed where its task is the one that is set, and was
  -- known before where it is another.
  have hchecking (k' g) (hk' : k' ≠ k) :
      (({ t with tasks := Function.update t.tasks k p, checks, due } : ActivityTimer).IsChecking
        (k', g)) ↔ t.IsChecking (k', g) := by
    rw [IsChecking, IsChecking]
    dsimp only
    rw [hof hk']
  exact { h with
    task := fun k' => by
      rcases eq_or_ne k' k with rfl | hk'
      · exact (congrArg Periodic.Inv hself).mpr hp
      · exact (congrArg Periodic.Inv (hof hk')).mpr (h.task k')
    fresh := fun {k'} hmade => by
      have hk' : k' ≠ k := fun heq => hne (heq ▸ h.fresh hmade)
      exact (hof hk').trans (h.fresh hmade)
    current := fun {k'} hk' => by
      refine h.current ?_
      rcases eq_or_ne k' k with rfl | hne'
      · exact hrunning.symm.trans ((congrArg Periodic.running hself).symm.trans hk')
      · exact (congrArg Periodic.running (hof hne')).symm.trans hk'
    check := fun {kg} hkg => by
      rcases eq_or_ne kg.1 k with rfl | hk'
      · obtain ⟨start, relied, hg⟩ := hcheck kg.2 hkg
        exact ⟨start, relied, (congrArg (Periodic.goroutine · kg.2) hself).trans hg⟩
      · exact (hchecking kg.1 kg.2 hk').2 (h.check (hothers kg hk' ▸ hkg))
    lock := h.lock.congr fun w => by
      rcases w with c | kg
      · rfl
      · rw [holders_inr, holders_inr]
        exact hfired kg
    own := fun {c kg} hc hkg => by
      rcases eq_or_ne kg.1 k with rfl | hk'
      · obtain ⟨start, relied, hg⟩ := hkg
        exact hown c kg.2 start relied hc ((congrArg (Periodic.goroutine · kg.2) hself).symm.trans hg)
      · exact h.own hc ((hchecking kg.1 kg.2 hk').1 hkg)
    ready := fun {c k'} hc => by
      obtain ⟨hcheckTask, hfresh⟩ := h.ready hc
      have hk' : k' ≠ k := fun heq => hne (heq ▸ hfresh)
      exact ⟨hcheckTask, (hof hk').trans hfresh⟩
    entered := fun {k' g} hg => by
      rcases eq_or_ne k' k with rfl | hk'
      · exact h.entered (hentered g ((congrArg (Periodic.goroutine · g) hself).symm.trans hg))
      · exact h.entered ((congrArg (Periodic.goroutine · g) (hof hk')).symm.trans hg)
    executing := fun {k' g relied} hg => by
      rcases eq_or_ne k' k with rfl | hk'
      · exact hexecuting g relied ((congrArg (Periodic.goroutine · g) hself).symm.trans hg)
      · have hexec := h.executing ((congrArg (Periodic.goroutine · g) (hof hk')).symm.trans hg)
        rwa [← hothers (k', g) hk'] at hexec
    late := fun {began timeout k' g relied} hlast hg => by
      rcases eq_or_ne k' k with rfl | hk'
      · exact hlate began timeout g relied hlast
          ((congrArg (Periodic.goroutine · g) hself).symm.trans hg)
      · exact h.late hlast ((congrArg (Periodic.goroutine · g) (hof hk')).symm.trans hg)
    timed := fun {began timeout k'} hlast hbegun hcurrent => by
      rcases eq_or_ne k' k with rfl | hk'
      · dsimp only
        rw [hself]
        exact htimed began timeout hlast hbegun hcurrent
      · have htimed' := h.timed hlast hbegun hcurrent
        dsimp only
        rw [hof hk']
        exact { htimed' with armed := fun hn => (htimed'.armed hn).trans_eq (hdue _ hk').symm } }

theorem setPhase_eq {p : Periodic} {q q' : Phase} {g' : ℕ} (hq : q ≠ q')
    (hg : (p.setPhase g q).goroutine g' = q') : g' ≠ g ∧ p.goroutine g' = q' := by
  rcases eq_or_ne g' g with rfl | hne
  · exact absurd (Periodic.setPhase_goroutine_self.symm.trans hg) hq
  · exact ⟨hne, (Periodic.setPhase_goroutine_of_ne hne).symm.trans hg⟩

theorem ne_new (hg : (t.tasks k).goroutine g ≠ .idle) : t.tasks k ≠ {} := by
  intro heq
  rw [heq] at hg
  exact hg rfl

/-- A goroutine that is not in `Execute` is not in `check`. -/
theorem Inv.check_returned (h : t.Inv)
    (hg : ∀ start relied, (t.tasks k).goroutine g ≠ .executing start relied) :
    t.checks (k, g) = .returned := by
  by_contra hne
  obtain ⟨start, relied, hexecuting⟩ := h.check hne
  exact hg start relied hexecuting

/-- A goroutine goes on whose check has returned, if there was one. -/
theorem Inv.leave (h : t.Inv) {p : Periodic} {due : ℕ × ℕ → ℕ} {q : Phase}
    (hp : p.Inv) (hrunning : p.running = (t.tasks k).running)
    (hg : (t.tasks k).goroutine g ≠ .idle) (hreturned : t.checks (k, g) = .returned)
    (hgoroutine : p.goroutine = ((t.tasks k).setPhase g q).goroutine)
    (hexecuting : ∀ start relied, q ≠ .executing start relied) (hentered : ∀ start, q ≠ .entered start)
    (hdue : ∀ kn, kn.1 ≠ k → due kn = t.due kn)
    (harmed : ∀ began timeout, t.last = some (began, timeout) →
      Timed (t.tasks k) (t.interval k) t.now (fun n => t.due (k, n)) began timeout →
      ∀ n, p.armed n = true → began + timeout ≤ due (k, n)) :
    ({ t with tasks := Function.update t.tasks k p, due } : ActivityTimer).Inv := by
  have hkept {g' q'} (hq : q ≠ q') (hg' : p.goroutine g' = q') :
      (t.tasks k).goroutine g' = q' := (setPhase_eq hq (hgoroutine ▸ hg')).2
  refine h.setTask hp hrunning (ne_new hg) (fun _ _ => rfl) (fun _ => Iff.rfl) hdue
    (fun g' hg' => ?_) (fun c g' start relied hc hg' => ?_) (fun g' hg' => ?_)
    (fun g' relied hg' => h.executing (hkept (hexecuting true relied) hg'))
    (fun _ _ g' relied hlast hg' => h.late hlast (hkept (hexecuting false relied) hg'))
    fun began timeout hlast hbegun hcurrent => ?_
  · obtain ⟨start', relied', hg''⟩ := h.check hg'
    have hne : g' ≠ g := by
      rintro rfl
      exact hg' hreturned
    rw [hgoroutine]
    exact ⟨start', relied', (Periodic.setPhase_goroutine_of_ne hne).trans hg''⟩
  · exact h.own hc
      (show t.IsChecking (k, g') from ⟨start, relied, hkept (hexecuting start relied) hg'⟩)
  · exact hkept (hentered true) hg'
  · have htimed := h.timed hlast hbegun hcurrent
    exact ⟨htimed.interval_eq, harmed began timeout hlast htimed _,
      fun hg' => htimed.entered (hkept (hentered false) hg')⟩

/-- A check returns. -/
theorem Inv.execute (h : t.Inv) {p : Periodic} (hreturned : t.checks (k, g) = .returned)
    (hstep : (t.tasks k).step (.execute g true) = some p) : (t.setTask k p).Inv := by
  have hp : p.Inv := (h.task k).step (a := .execute g true) trivial hstep
  obtain ⟨start, relied, hg, rfl⟩ := Periodic.step_execute hstep
  exact h.leave (g := g) hp rfl (by simp [hg]) hreturned rfl (by simp) (by simp) (fun _ _ => rfl)
    fun _ _ _ htimed _ hn => htimed.armed hn

theorem setDue_self {kn : ℕ × ℕ} : (t.setDue kn).due kn = t.now + t.interval kn.1 :=
  Function.update_self ..

theorem setDue_of_ne {kn kn' : ℕ × ℕ} (hne : kn' ≠ kn) : (t.setDue kn).due kn' = t.due kn' :=
  Function.update_of_ne hne ..

/-- The task is armed again, unless it was closed. -/
theorem Inv.rearm (h : t.Inv) {p : Periodic} (hstep : (t.tasks k).step (.rearm g) = some p) :
    (if (t.tasks k).running then (t.setDue (k, (t.tasks k).created)).setTask k p
      else t.setTask k p).Inv := by
  have hp : p.Inv := (h.task k).step (a := .rearm g) trivial hstep
  obtain ⟨start, hg, rfl⟩ := Periodic.step_rearm hstep
  have hreturned := h.check_returned (k := k) (g := g) (by simp [hg])
  split_ifs at hp ⊢ with hrunning
  · refine h.leave (g := g) hp rfl (by simp [hg]) hreturned rfl (by simp) (by simp)
      (fun kn hkn => setDue_of_ne fun heq => hkn (congrArg Prod.fst heq)) ?_
    intro began timeout hlast htimed n hn
    rcases eq_or_ne n (t.tasks k).created with rfl | hne
    · rw [setDue_self]
      exact Nat.add_le_add (h.past hlast) htimed.interval_eq.ge
    · rw [setDue_of_ne fun heq => hne (congrArg Prod.snd heq)]
      exact htimed.armed ((Function.update_of_ne hne ..).symm.trans hn)
  · exact h.leave (g := g) hp rfl (by simp [hg]) hreturned rfl (by simp) (by simp) (fun _ _ => rfl)
      fun _ _ _ htimed _ hn => htimed.armed hn

/-- A timer fires when it is due. -/
theorem Inv.fire (h : t.Inv) {p : Periodic} (hdue : t.due (k, n) ≤ t.now)
    (hstep : (t.tasks k).step (.fire n g) = some p) : (t.setTask k p).Inv := by
  have hp : p.Inv := (h.task k).step (a := .fire n g) trivial hstep
  obtain ⟨hn, hg, rfl⟩ := Periodic.step_fire hstep
  have hkept {g' q'} (hq : .entered false ≠ q') (hg' : ((t.tasks k).fire n g).goroutine g' = q') :
      (t.tasks k).goroutine g' = q' :=
    (setPhase_eq (p := t.tasks k) (g := g) (q := .entered false) hq hg').2
  have hne : t.tasks k ≠ {} := by
    intro heq
    rw [heq] at hn
    exact Bool.false_ne_true hn
  refine h.setTask hp rfl hne (fun _ _ => rfl) (fun _ => Iff.rfl) (fun _ _ => rfl)
    (fun g' hg' => ?_) (fun c g' start relied hc hg' => ?_) (fun g' hg' => hkept (by simp) hg')
    (fun g' relied hg' => h.executing (hkept (by simp) hg'))
    (fun _ _ g' relied hlast hg' => h.late hlast (hkept (by simp) hg'))
    fun began timeout hlast hbegun hcurrent => ?_
  · obtain ⟨start', relied', hg''⟩ := h.check hg'
    have hne : g' ≠ g := by
      rintro rfl
      exact Phase.noConfusion (hg.symm.trans hg'')
    exact ⟨start', relied', (Periodic.setPhase_goroutine_of_ne hne).trans hg''⟩
  · exact h.own hc (show t.IsChecking (k, g') from ⟨start, relied, hkept (by simp) hg'⟩)
  · have htimed := h.timed hlast hbegun hcurrent
    refine ⟨htimed.interval_eq, fun {n'} hn' => htimed.armed ?_, fun _ => (htimed.armed hn).trans hdue⟩
    by_contra hnot
    change Function.update (t.tasks k).armed n false n' = true at hn'
    rcases eq_or_ne n' n with rfl | hne'
    · exact hnot hn
    · exact hnot ((Function.update_of_ne hne' ..).symm.trans hn')

/-- A goroutine finds the task closed, or goes on to `check`. -/
theorem Inv.hasClosed (h : t.Inv) {p : Periodic} (hcareful : t.Careful (.hasClosed k g))
    (hstep : (t.tasks k).step (.hasClosed g) = some p) :
    (if (t.tasks k).running then (t.setTask k p).setCheck (k, g) .selects
      else t.setTask k p).Inv := by
  have hp : p.Inv := (h.task k).step (a := .hasClosed g) trivial hstep
  obtain ⟨start, hg, rfl⟩ := Periodic.step_hasClosed hstep
  have hreturned := h.check_returned (k := k) (g := g) (by simp [hg])
  split_ifs at hp ⊢ with hrunning
  · have hself : ((t.tasks k).setPhase g (.executing start false)).goroutine g = .executing start false :=
      Periodic.setPhase_goroutine_self
    have hof {g'} (hne : g' ≠ g) : ((t.tasks k).setPhase g (.executing start false)).goroutine g' =
      (t.tasks k).goroutine g' := Periodic.setPhase_goroutine_of_ne hne
    have hcheckof {kg'} (hne : kg' ≠ (k, g)) :
        (t.setCheck (k, g) .selects).checks kg' = t.checks kg' := Function.update_of_ne hne ..
    refine h.setTask hp rfl (ne_new (g := g) (by simp [hg]))
      (fun kg hkg => hcheckof fun heq => hkg (congrArg Prod.fst heq))
      (fun kg => ?_) (fun _ _ => rfl) (fun g' hg' => ?_)
      (fun c _ _ _ hc _ => hcareful hrunning c hc) (fun g' hg' => (setPhase_eq (by simp) hg').2)
      (fun g' relied hg' => ?_) (fun began timeout g' relied hlast hg' => ?_)
      fun began timeout hlast hbegun hcurrent => ?_
    · rcases eq_or_ne kg (k, g) with rfl | hne
      · exact iff_of_false (by simp) (by simp [hreturned])
      · exact (congrArg (· = Check.fired) (hcheckof hne)).to_iff
    · rcases eq_or_ne g' g with rfl | hne
      · exact ⟨start, false, hself⟩
      · obtain ⟨start', relied', hg''⟩ := h.check
          ((hcheckof fun heq => hne (congrArg Prod.snd heq)).symm.trans_ne hg')
        exact ⟨start', relied', (hof hne).trans hg''⟩
    · rcases eq_or_ne g' g with rfl | hne
      · obtain ⟨rfl, -⟩ : start = true ∧ false = relied := Phase.executing.inj (hself.symm.trans hg')
        exact ⟨(h.entered hg).1, .inl ⟨Function.update_self .., (h.entered hg).2⟩⟩
      · have hexec := h.executing ((hof hne).symm.trans hg')
        rwa [← hcheckof fun heq => hne (congrArg Prod.snd heq)] at hexec
    · rcases eq_or_ne g' g with rfl | hne
      · -- A later check comes when its timer was due.
        obtain ⟨rfl, -⟩ : start = false ∧ false = relied := Phase.executing.inj (hself.symm.trans hg')
        refine (h.timed hlast (fun c timeout hc => ?_) (h.current hrunning)).entered hg
        exact Setting.noConfusion (hc.symm.trans (hcareful hrunning c (hc ▸ trivial)))
      · exact h.late hlast ((hof hne).symm.trans hg')
    · have htimed := h.timed hlast hbegun hcurrent
      exact { htimed with entered := fun hg' => htimed.entered (setPhase_eq (by simp) hg').2 }
  · exact h.leave (g := g) hp rfl (by simp [hg]) hreturned rfl (by simp) (by simp) (fun _ _ => rfl)
      fun _ _ _ htimed _ hn => htimed.armed hn

/-- `SetTimeout` starts its task. -/
theorem Inv.start (h : t.Inv) {p : Periodic} (hc : t.callers c = .updated k)
    (hstep : (t.tasks k).step (.start c) = some p) :
    ((t.setTask k p).setCaller c (.started k)).Inv := by
  have hpos : (t.callers c).IsPositive := hc ▸ trivial
  have hstarted (k') : t.callers c ≠ .started k' := by simp [hc]
  have hnone {kg} : ¬t.IsChecking kg := h.not_isChecking hpos hstarted
  obtain ⟨hcheckTask, hfresh⟩ := h.ready (.inr hc)
  have hundisturbed : (t.tasks k).Undisturbed (.start c) := fun _ g => by rw [hfresh]
  have hp : p.Inv := (h.task k).step hundisturbed hstep
  obtain ⟨-, rfl⟩ := Periodic.step_start hstep
  rw [hfresh] at hp ⊢
  have hself : ((t.setTask k (({} : Periodic).start c)).tasks k) = ({} : Periodic).start c :=
    Function.update_self ..
  have hof {k'} (hk' : k' ≠ k) : (t.setTask k (({} : Periodic).start c)).tasks k' = t.tasks k' :=
    Function.update_of_ne hk' ..
  have hentered {g q} (hq : q ≠ .idle) (hg : (({} : Periodic).start c).goroutine g = q) :
      g = c ∧ q = .entered true := by
    rcases eq_or_ne g c with rfl | hne
    · exact ⟨rfl, hg.symm.trans Periodic.setPhase_goroutine_self⟩
    · exact absurd (hg.symm.trans (Periodic.setPhase_goroutine_of_ne hne)) hq
  -- The goroutine of the task has entered `Execute`, but it does not check yet.
  have hnone' {k' g start relied} :
      ((t.setTask k (({} : Periodic).start c)).tasks k').goroutine g ≠ .executing start relied := by
    intro hg
    rcases eq_or_ne k' k with rfl | hk'
    · rw [hself] at hg
      exact Phase.noConfusion (hentered (by simp) hg).2
    · rw [hof hk'] at hg
      exact hnone (show t.IsChecking (k', g) from ⟨start, relied, hg⟩)
  exact { h with
    task := fun k' => by
      rcases eq_or_ne k' k with rfl | hk'
      · exact (congrArg Periodic.Inv hself).mpr hp
      · exact (congrArg Periodic.Inv (hof hk')).mpr (h.task k')
    fresh := fun {k'} hmade => (hof (h.made hcheckTask |>.trans_le hmade).ne').trans (h.fresh hmade)
    current := fun {k'} hrunning => by
      rcases eq_or_ne k' k with rfl | hk'
      · exact hcheckTask
      · exact h.current ((congrArg Periodic.running (hof hk')).symm.trans hrunning)
    check := fun hkg => absurd (h.check hkg) hnone
    lock := h.lock.congr (holders_setCaller (by simp) (show t.callers c ≠ .fired by simp [hc]))
    alone := h.setCaller_alone hpos
    own := fun _ ⟨_, _, hg⟩ => absurd hg hnone'
    ready := fun {c' k'} hk' => by
      rcases hk' with hk' | hk'
      all_goals
        obtain ⟨hne, hk'⟩ := setCaller_eq (t := t) (by simp) hk'
        exact Setting.noConfusion ((h.alone hpos hne).symm.trans hk')
    unfired := fun {c'} hc' hstarted' => by
      obtain rfl := h.setCaller_isPositive hpos hc'
      exact absurd (setCaller_self _) (hstarted' k)
    updated := fun hk' => h.updated (setCaller_eq (by simp) hk').2
    entered := fun {k' g} hg => by
      rcases eq_or_ne k' k with rfl | hk'
      · obtain ⟨rfl, -⟩ := hentered (by simp) ((congrArg (Periodic.goroutine · g) hself).symm.trans hg)
        exact ⟨setCaller_self _, h.updated hc⟩
      · have hg' := (congrArg (Periodic.goroutine · g) (hof hk')).symm.trans hg
        exact ⟨(setCaller_of_ne (h.entered_ne hstarted hg')).trans (h.entered hg').1,
          (h.entered hg').2⟩
    executing := fun hg => absurd hg hnone'
    begun := fun hbegun => h.begun (setCaller_eq (by simp) hbegun).2
    zero := fun hzero => h.zero (setCaller_eq (by simp) hzero).2
    late := fun _ hg => absurd hg hnone'
    timed := fun {began timeout k'} hlast _ hcurrent => by
      have htimed := h.timed hlast (h.not_begun hpos (by simp [hc])) hcurrent
      obtain rfl := Option.some.inj (hcheckTask.symm.trans hcurrent)
      refine ⟨htimed.interval_eq, fun {n} hn => ?_, fun {g} hg => ?_⟩
      · exact absurd ((congrArg (Periodic.armed · n) hself).symm.trans hn) Bool.false_ne_true
      · have hg' := hentered (by simp) ((congrArg (Periodic.goroutine · g) hself).symm.trans hg)
        exact absurd hg'.2 (by simp) }

/-! ## The select and the lock -/

theorem setCheck_self (x : Check) : (t.setCheck kg x).checks kg = x := Function.update_self ..

theorem setCheck_of_ne {x : Check} {kg' : ℕ × ℕ} (hne : kg' ≠ kg) :
    (t.setCheck kg x).checks kg' = t.checks kg' := Function.update_of_ne hne ..

theorem holders_setCheck {x : Check} (hx : x ≠ .fired) (hkg : t.checks kg ≠ .fired)
    (w : Finisher) : w ∈ (t.setCheck kg x).holders ↔ w ∈ t.holders := by
  rcases w with c | kg'
  · rfl
  · rw [holders_inr, holders_inr]
    rcases eq_or_ne kg' kg with rfl | hne
    · rw [setCheck_self]
      exact iff_of_false hx hkg
    · rw [setCheck_of_ne hne]

/-- The first check of a task is the only one. -/
theorem Inv.eq_of_started (h : t.Inv) (hkg : t.IsChecking kg) {p : Phase} (hp : p ≠ .idle)
    (hg : (t.tasks k).goroutine g = p) (hc : t.callers g = .started k) : (k, g) = kg := by
  have hpos : (t.callers g).IsPositive := hc ▸ trivial
  obtain rfl : k = kg.1 := Setting.started.inj (hc.symm.trans (h.own hpos hkg))
  obtain ⟨start, relied, hkg⟩ := hkg
  by_contra hne
  have hne' : g ≠ kg.2 := fun heq => hne (heq ▸ rfl)
  exact hp (hg.symm.trans ((h.task kg.1).eq_idle (hkg ▸ Phase.noConfusion) hne'))

/-- A check takes the token, or expires. -/
theorem Inv.select (h : t.Inv) (hselects : t.checks (k, g) = .selects) :
    (if t.updated then ({ t with updated := false } : ActivityTimer).setCheck (k, g) .returned
      else t.setCheck (k, g) .expired).Inv := by
  have hbusy : t.IsChecking (k, g) := h.check (by simp [hselects])
  obtain ⟨start₀, relied₀, hg₀⟩ := hbusy
  have hbusy : t.IsChecking (k, g) := ⟨start₀, relied₀, hg₀⟩
  have hcheck {x kg'} (hkg' : (t.setCheck (k, g) x).checks kg' ≠ .returned) : t.IsChecking kg' := by
    rcases eq_or_ne kg' (k, g) with rfl | hne
    · exact hbusy
    · exact h.check ((setCheck_of_ne hne).symm.trans_ne hkg')
  split_ifs with hupdated
  · exact { h with
      check := hcheck
      lock := h.lock.congr (holders_setCheck (by simp) (by simp [hselects]))
      updated := fun {c k'} hc => by
        have hpos : (t.callers c).IsPositive := hc ▸ trivial
        exact Setting.noConfusion (hc.symm.trans (h.own hpos hbusy))
      entered := fun {k' g'} hg => by
        obtain ⟨rfl, rfl⟩ := Prod.mk.inj (h.eq_of_started hbusy (by simp) hg (h.entered hg).1)
        exact Phase.noConfusion (hg₀.symm.trans hg)
      executing := fun {k' g' relied} hg => by
        have hstarted := (h.executing hg).1
        obtain ⟨rfl, rfl⟩ := Prod.mk.inj (h.eq_of_started hbusy (by simp) hg hstarted)
        exact ⟨hstarted, .inr (setCheck_self _)⟩ }
  · exact { h with
      check := hcheck
      lock := h.lock.congr (holders_setCheck (by simp) (by simp [hselects]))
      executing := fun {k' g' relied} hg => by
        obtain ⟨hstarted, hfirst⟩ := h.executing hg
        obtain ⟨rfl, rfl⟩ := Prod.mk.inj (h.eq_of_started hbusy (by simp) hg hstarted)
        -- The first check finds the token.
        rcases hfirst with ⟨-, hupdated'⟩ | hreturned
        · exact absurd hupdated' hupdated
        · exact Check.noConfusion (hselects.symm.trans hreturned) }

/-- The call of `finish` by a caller is not made during a call with a timeout. -/
theorem Inv.not_isPositive (h : t.Inv) (hc : t.callers c ≠ .idle) (hc₀ : ¬(t.callers c).IsPositive)
    (c' : ℕ) : ¬(t.callers c').IsPositive := by
  intro hpos
  have hne : c ≠ c' := by
    rintro rfl
    exact hc₀ hpos
  exact hc (h.alone hpos hne)

theorem setCaller_not_isPositive {p : Setting} (hp : ¬p.IsPositive)
    (h : ∀ c', ¬(t.callers c').IsPositive) (c' : ℕ) :
    ¬((t.setCaller c p).callers c').IsPositive := by
  rcases eq_or_ne c' c with rfl | hne
  · rwa [setCaller_self]
  · rw [setCaller_of_ne hne]
    exact h c'

theorem Inv.callBack_once (h : t.Inv) : t.callBack.cancels.length = 1 := by
  change (if t.onTimeout then (⟨t.now, t.last⟩ :: t.cancels) else t.cancels).length = 1
  have honce := h.once
  split_ifs at honce ⊢ with hfired
  · rw [List.length_cons, honce]
  · exact honce

theorem Inv.callBack_cancels (h : t.Inv) (hw : t.isExpired w = true) {e : Cancel}
    (he : e ∈ t.callBack.cancels) (began timeout : ℕ) (hset : e.setting = some (began, timeout)) :
    began + timeout ≤ e.time := by
  change e ∈ (if t.onTimeout then (⟨t.now, t.last⟩ :: t.cancels) else t.cancels) at he
  split_ifs at he
  · rcases List.mem_cons.1 he with rfl | he
    · exact h.finish_late hw hset
    · exact h.cancels he began timeout hset
  · exact h.cancels he began timeout hset

/-- A finisher calls back. -/
theorem Inv.callBack (h : t.Inv) (hw : t.isExpired w = true) (hunlocked : t.unlocked = true) :
    (t.callBack.setFired w).Inv := by
  have hcancels {e : Cancel} (he : e ∈ t.callBack.cancels) := h.callBack_cancels hw he
  rcases w with c | kg
  · have hc : t.callers c = .expired := beq_iff_eq.1 hw
    have hnone := h.not_isPositive (c := c) (by simp [hc]) (by simp [hc, Setting.IsPositive])
    have hnone' (c') : ¬((t.callBack.setCaller c .fired).callers c').IsPositive :=
      setCaller_not_isPositive (t := t.callBack) (p := .fired) id hnone c'
    exact { h with
      lock := by
        refine h.lock.acquire hunlocked (x := .inl c) fun w => ?_
        rcases w with c' | kg
        · rw [holders_inl, holders_inl, Sum.inl.injEq]
          rcases eq_or_ne c' c with rfl | hne
          · exact iff_of_true (setCaller_self _) (.inl rfl)
          · rw [or_iff_right hne]
            exact (congrArg (· = Setting.fired) (setCaller_of_ne hne)).to_iff
        · rw [or_iff_right (by simp)]
          rfl
      alone := fun hc' => absurd hc' (hnone' _)
      own := fun hc' => absurd hc' (hnone' _)
      ready := fun {c' k'} hk' =>
        absurd (by rcases hk' with hk' | hk' <;> exact hk' ▸ trivial) (hnone' c')
      unfired := fun hc' => absurd hc' (hnone' _)
      updated := fun {c' k'} hk' => absurd (hk' ▸ trivial) (hnone' c')
      entered := fun {k' g} hg => absurd ((h.entered hg).1 ▸ trivial) (hnone g)
      executing := fun {k' g relied} hg => absurd ((h.executing hg).1 ▸ trivial) (hnone g)
      begun := fun {c' timeout} hk' => absurd (hk' ▸ trivial) (hnone' c')
      zero := fun hzero => h.zero (setCaller_eq (by simp) hzero).2
      timed := fun hlast _ => h.timed hlast fun c' timeout hk' => absurd (hk' ▸ trivial) (hnone c')
      stopped := fun _ hfree => absurd hfree Bool.false_ne_true
      once := h.callBack_once
      cancels := hcancels }
  · have hexpired : t.checks kg = .expired := beq_iff_eq.1 hw
    have hbusy : t.IsChecking kg := h.check (by simp [hexpired])
    exact { h with
      check := fun {kg'} hkg' => by
        rcases eq_or_ne kg' kg with rfl | hne
        · exact hbusy
        · exact h.check ((setCheck_of_ne (t := t.callBack) hne).symm.trans_ne hkg')
      lock := by
        refine h.lock.acquire hunlocked (x := .inr kg) fun w => ?_
        rcases w with c | kg'
        · rw [or_iff_right (by simp)]
          rfl
        · rw [holders_inr, holders_inr, Sum.inr.injEq]
          rcases eq_or_ne kg' kg with rfl | hne
          · exact iff_of_true (setCheck_self _) (.inl rfl)
          · rw [or_iff_right hne]
            exact (congrArg (· = Check.fired) (setCheck_of_ne hne)).to_iff
      unfired := fun hc hstarted => absurd (h.own hc hbusy) (hstarted _)
      executing := fun {k' g relied} hg => by
        obtain ⟨hstarted, hfirst⟩ := h.executing hg
        refine ⟨hstarted, ?_⟩
        -- The first check of a task does not expire.
        have hne : (k', g) ≠ kg := by
          rintro rfl
          rcases hfirst with ⟨hselects, -⟩ | hreturned
          · exact Check.noConfusion (hexpired.symm.trans hselects)
          · exact Check.noConfusion (hexpired.symm.trans hreturned)
        rwa [← setCheck_of_ne (t := t) (x := .fired) hne] at hfirst
      stopped := fun _ hfree => absurd hfree Bool.false_ne_true
      once := h.callBack_once
      cancels := hcancels }

/-- A finisher closes the task. -/
theorem Inv.release (h : t.Inv) (hw : t.isFired w = true) : (t.release.setFinished w).Inv := by
  have hgoroutine {k' g p} (hg : (t.closeTask.tasks k').goroutine g = p) :
      (t.tasks k').goroutine g = p := (congrFun (closeTask_goroutine k') g).symm.trans hg
  have hcurrent {k'} (hk' : (t.closeTask.tasks k').running = true) : False :=
    Bool.false_ne_true ((h.closeTask_running k').symm.trans hk')
  rcases w with c | kg
  · -- A call with the timeout 0 has the lock. Then no call with a timeout is under way.
    have hc : t.callers c = .fired := beq_iff_eq.1 hw
    have hnone := h.not_isPositive (c := c) (by simp [hc]) (by simp [hc, Setting.IsPositive])
    have hnone' (c') : ¬((t.setCaller c .idle).callers c').IsPositive :=
      setCaller_not_isPositive (p := .idle) id hnone c'
    exact { h with
      task := h.closeTask_task
      fresh := h.closeTask_fresh
      current := fun hk' => (hcurrent hk').elim
      made := fun hk' => absurd hk' (by simp [ActivityTimer.release, setFinished, setCaller])
      check := fun hkg => closeTask_isChecking.2 (h.check hkg)
      lock := by
        refine h.lock.release (holders_inl.2 hc) fun w => ?_
        rcases w with c' | kg
        · rw [holders_inl, holders_inl, Ne, Sum.inl.injEq]
          rcases eq_or_ne c' c with rfl | hne
          · refine iff_of_false ?_ fun hw => hw.1 rfl
            exact fun hidle => Setting.noConfusion ((setCaller_self (t := t) _).symm.trans hidle)
          · rw [and_iff_right hne]
            exact (congrArg (· = Setting.fired) (setCaller_of_ne (t := t) hne)).to_iff
        · rw [and_iff_right (by simp)]
          rfl
      alone := fun hc' => absurd hc' (hnone' _)
      own := fun hc' => absurd hc' (hnone' _)
      ready := fun {c' k'} hk' =>
        absurd (by rcases hk' with hk' | hk' <;> exact hk' ▸ trivial) (hnone' c')
      unfired := fun hc' => absurd hc' (hnone' _)
      updated := fun {c' k'} hk' => absurd (hk' ▸ trivial) (hnone' c')
      entered := fun {k' g} hg => absurd ((h.entered (hgoroutine hg)).1 ▸ trivial) (hnone g)
      executing := fun {k' g relied} hg =>
        absurd ((h.executing (hgoroutine hg)).1 ▸ trivial) (hnone g)
      begun := fun {c' timeout} hk' => absurd (hk' ▸ trivial) (hnone' c')
      zero := fun hzero => h.zero (setCaller_eq (by simp) hzero).2
      late := fun hlast hg => h.late hlast (hgoroutine hg)
      timed := fun _ _ hk' => absurd hk' (by simp [ActivityTimer.release, setFinished, setCaller])
      stopped := fun _ _ => rfl }
  · -- A check has the lock. A call with a timeout may be under way, once it has started its task.
    have hfired : t.checks kg = .fired := beq_iff_eq.1 hw
    have hbusy : t.IsChecking kg := h.check (by simp [hfired])
    exact { h with
      task := h.closeTask_task
      fresh := h.closeTask_fresh
      current := fun hk' => (hcurrent hk').elim
      made := fun hk' => absurd hk' (by simp [ActivityTimer.release, setFinished, setCheck])
      check := fun {kg'} hkg' => by
        refine closeTask_isChecking.2 ?_
        rcases eq_or_ne kg' kg with rfl | hne
        · exact hbusy
        · exact h.check ((setCheck_of_ne (t := t) hne).symm.trans_ne hkg')
      lock := by
        refine h.lock.release (holders_inr.2 hfired) fun w => ?_
        rcases w with c | kg'
        · rw [and_iff_right (by simp)]
          rfl
        · rw [holders_inr, holders_inr, Ne, Sum.inr.injEq]
          rcases eq_or_ne kg' kg with rfl | hne
          · refine iff_of_false ?_ fun hw => hw.1 rfl
            exact fun hret => Check.noConfusion ((setCheck_self (t := t) _).symm.trans hret)
          · rw [and_iff_right hne]
            exact (congrArg (· = Check.fired) (setCheck_of_ne (t := t) hne)).to_iff
      own := fun hc hkg => h.own hc (closeTask_isChecking.1 hkg)
      ready := fun {c' k'} hk' => by
        have hpos : (t.callers c').IsPositive := by
          rcases hk' with hk' | hk' <;> exact (hk' : t.callers c' = _) ▸ trivial
        have hown := h.own hpos hbusy
        rcases hk' with hk' | hk' <;> exact Setting.noConfusion (hk'.symm.trans hown)
      entered := fun hg => h.entered (hgoroutine hg)
      executing := fun {k' g relied} hg => by
        obtain ⟨hstarted, hfirst⟩ := h.executing (hgoroutine hg)
        refine ⟨hstarted, ?_⟩
        have hne : (k', g) ≠ kg := by
          rintro rfl
          rcases hfirst with ⟨hselects, -⟩ | hreturned
          · exact Check.noConfusion (hfired.symm.trans hselects)
          · exact Check.noConfusion (hfired.symm.trans hreturned)
        rwa [← setCheck_of_ne (t := t) (x := .returned) hne] at hfirst
      late := fun hlast hg => h.late hlast (hgoroutine hg)
      timed := fun _ _ hk' => absurd hk' (by simp [ActivityTimer.release, setFinished, setCheck])
      stopped := fun _ _ => rfl }

/-! ## The runs -/

/-- Every careful step keeps the invariant. -/
theorem Inv.step (h : t.Inv) (hcareful : t.Careful a) (hstep : t.step a = some t') : t'.Inv := by
  -- One lemma for each action, under what the action finds.
  rcases a with n | - | ⟨c, timeout⟩ | c | c | c | c | ⟨k, g⟩ | w | w | ⟨k, g⟩ | ⟨k, g⟩ | ⟨k, g⟩ |
    ⟨k, n, g⟩ <;> simp only [ActivityTimer.step] at hstep
  · exact Option.some.inj hstep ▸ h.tick n
  · exact Option.some.inj hstep ▸ h.update
  · obtain ⟨hc, hset⟩ := Option.ite_none_right_eq_some.1 hstep
    obtain rfl := Option.some.inj hset
    rw [ActivityTimer.setTimeout]
    rw [Careful] at hcareful
    split_ifs at hcareful ⊢
    · exact h.setTimeout_zero hc hcareful
    · exact h.setTimeout_pos hcareful.1 hcareful.2.1 hcareful.2.2
  · split at hstep
    · next timeout hc =>
      obtain ⟨-, hassign⟩ := Option.ite_none_right_eq_some.1 hstep
      exact Option.some.inj hassign ▸ h.assign hc
    · cases hstep
  · split at hstep
    · next k hc => exact Option.some.inj hstep ▸ h.update.updates hc rfl
    · cases hstep
  · split at hstep
    · next k hc =>
      obtain ⟨p, hp, rfl⟩ := Option.map_eq_some_iff.1 hstep
      exact h.start hc hp
    · cases hstep
  · split at hstep
    · next k hc =>
      obtain ⟨hidle, hret⟩ := Option.ite_none_right_eq_some.1 hstep
      exact Option.some.inj hret ▸ h.returns hc hidle
    · cases hstep
  · obtain ⟨hselects, hselect⟩ := Option.ite_none_right_eq_some.1 hstep
    have hinv := h.select hselects
    split_ifs at hselect hinv <;> exact Option.some.inj hselect ▸ hinv
  · obtain ⟨hw, hfinish⟩ := Option.ite_none_right_eq_some.1 hstep
    rw [Bool.and_eq_true] at hw
    exact Option.some.inj hfinish ▸ h.callBack hw.1 hw.2
  · obtain ⟨hw, hunlock⟩ := Option.ite_none_right_eq_some.1 hstep
    exact Option.some.inj hunlock ▸ h.release hw
  · obtain ⟨p, hp, rfl⟩ := Option.map_eq_some_iff.1 hstep
    exact h.hasClosed hcareful hp
  · obtain ⟨hreturned, hexecute⟩ := Option.ite_none_right_eq_some.1 hstep
    obtain ⟨p, hp, rfl⟩ := Option.map_eq_some_iff.1 hexecute
    exact h.execute hreturned hp
  · obtain ⟨p, hp, rfl⟩ := Option.map_eq_some_iff.1 hstep
    exact h.rearm hp
  · obtain ⟨hdue, hfire⟩ := Option.ite_none_right_eq_some.1 hstep
    obtain ⟨p, hp, rfl⟩ := Option.map_eq_some_iff.1 hfire
    exact h.fire hdue hp

/-- A timer that nobody has set yet. -/
theorem inv_new : ({} : ActivityTimer).Inv where
  task _ := Periodic.inv_new
  fresh _ := rfl
  current hrunning := absurd hrunning Bool.false_ne_true
  made hk := absurd hk (by simp)
  check hkg := absurd rfl hkg
  lock := Set.eq_empty_iff_forall_notMem.2 (by
    rintro (c | kg) hw
    · exact Setting.noConfusion (holders_inl.1 hw)
    · exact Check.noConfusion (holders_inr.1 hw))
  alone hc := hc.elim
  own hc := hc.elim
  ready hk := by rcases hk with hk | hk <;> exact Setting.noConfusion hk
  unfired hc := hc.elim
  updated hk := Setting.noConfusion hk
  entered hg := Phase.noConfusion hg
  executing hg := Phase.noConfusion hg
  begun hc := Setting.noConfusion hc
  zero _ := rfl
  past hlast := absurd hlast (by simp)
  late hlast := absurd hlast (by simp)
  timed hlast := absurd hlast (by simp)
  stopped hfired := absurd hfired (by simp)
  once := rfl
  cancels he := absurd he List.not_mem_nil

theorem inv_made (timeout : ℕ) : (({} : ActivityTimer).setTimeout 0 timeout).Inv := by
  rw [ActivityTimer.setTimeout]
  split_ifs
  · exact inv_new.setTimeout_zero rfl fun _ => id
  · exact inv_new.setTimeout_pos (fun _ => rfl) (by rintro kg ⟨start, relied, ⟨⟩⟩) rfl

end ActivityTimer

/-- As long as the calls of `SetTimeout` are careful, the timer calls back once at most, not before
    its timeout has passed, and leaves no task armed. -/
theorem activityTimer_sound {t : ActivityTimer}
    (h : (timing.restrict ActivityTimer.Careful).Reach (fun _ => True) t) : t.Sound := by
  have hinv : t.Inv := by
    refine h.invariant ?_ ?_
    · rintro _ ⟨timeout, rfl⟩ _
      exact ActivityTimer.inv_made timeout
    · rintro t a t' - hinv ⟨hcareful, hstep⟩ -
      exact hinv.step hcareful hstep
  exact hinv.sound

/-- The timer is made with a timeout of five. -/
def exampleTimer : ActivityTimer := ({} : ActivityTimer).setTimeout 0 5

/-- Its task is started, and its timer fires when it is due. -/
def toFirstCheck : List Timing :=
  [.assign 0, .updates 0, .start 0, .hasClosed 0 0, .select 0 0, .execute 0 0, .rearm 0 0,
    .returns 0, .tick 5, .fire 0 0 1, .hasClosed 0 1]

/-- It calls back after five. -/
theorem activityTimer_sound_example : ∃ t, timing.Exec exampleTimer
    (toFirstCheck ++ [.select 0 1, .finish (.inr (0, 1)), .unlock (.inr (0, 1))]) t ∧
      t.cancels = [⟨5, some (0, 5)⟩] ∧ t.Sound := by
  have hstart (t : ActivityTimer) (hc : t.callers 0 = .started 0) (hother : ∀ c, t.callers (c + 1) = .idle) :
      t.Careful (.hasClosed 0 0) := by
    rintro - (- | c) hpos
    · exact hc
    · exact absurd hpos (by simp [hother c, Setting.IsPositive])
  have hidle (t : ActivityTimer) (h : ∀ c, t.callers c = .idle) : t.Careful (.hasClosed 0 1) := by
    intro _ c hpos
    exact absurd hpos (by simp [h c, Setting.IsPositive])
  have hrun : (timing.restrict ActivityTimer.Careful).Exec exampleTimer
      (toFirstCheck ++ [.select 0 1, .finish (.inr (0, 1)), .unlock (.inr (0, 1))]) _ :=
    .cons ⟨trivial, rfl⟩ (.cons ⟨trivial, rfl⟩ (.cons ⟨trivial, rfl⟩
      (.cons ⟨hstart _ rfl fun _ => rfl, rfl⟩ (.cons ⟨trivial, rfl⟩ (.cons ⟨trivial, rfl⟩
      (.cons ⟨trivial, rfl⟩ (.cons ⟨trivial, rfl⟩ (.cons ⟨trivial, rfl⟩ (.cons ⟨trivial, rfl⟩
      (.cons ⟨hidle _ (by rintro (- | c) <;> rfl), rfl⟩ (.cons ⟨trivial, rfl⟩
      (.cons ⟨trivial, rfl⟩ (.cons ⟨trivial, rfl⟩ (.nil _))))))))))))))
  exact ⟨_, Lts.exec_of_run (fun _ _ _ h => h) rfl, rfl,
    activityTimer_sound (hrun.reach (fun _ => trivial) (.init ⟨5, rfl⟩ trivial))⟩

/-- A check under way takes the token that `SetTimeout` leaves for its own first check, which calls
    back at once. -/
theorem fired_early :
    ¬∀ t : ActivityTimer, timing.Reach (fun _ => True) t → t.Sound := by
  intro h
  have hrun : timing.Exec exampleTimer (toFirstCheck ++ [.setTimeout 1 7, .assign 1, .updates 1,
      .select 0 1, .start 1, .hasClosed 1 1, .select 1 1, .finish (.inr (1, 1))]) _ :=
    Lts.exec_of_run (fun _ _ _ h => h) rfl
  have hsound := h _ (hrun.reach (fun _ => trivial) (.init ⟨5, rfl⟩ trivial))
  exact absurd (hsound.late _ List.mem_cons_self 5 7 rfl) (by decide)

end Gzv2ray.Signal
