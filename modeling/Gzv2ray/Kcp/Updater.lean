import Gzv2ray.Lib.Token
import Gzv2ray.Lib.Transition

/-!
# Waking up an updater

An updater runs as long as there is something to do, in a goroutine that holds
the only token of its notifier. Whoever announces new work calls `WakeUp`, which
starts the goroutine if the token is there and gives up otherwise: the goroutine
that holds it is to see the work. One that has just found nothing to do, and has
not given the token back, does not.

* `Updater.step`: the steps of the callers and of the goroutines;
* `Updater.Exclusive`: the token is in the notifier, or held by one of them;
* `wakeUp_served`: no work is left as long as no call gives up that began after
  the last look of a goroutine that still holds the token.
-/

namespace Gzv2ray.Kcp

/-- Where a call of `WakeUp` is. -/
inductive Waking
  /-- Before its `select`. `seen` tells if `shouldContinue` was false since the call began. -/
  | called (seen : Bool)
  /-- It has received the token, and starts a goroutine. -/
  | notified
  /-- It has returned, or was never made. -/
  | returned
  deriving DecidableEq

/-- Where a goroutine is in `run`. -/
inductive Running
  /-- Before `shouldTerminate`. -/
  | begun
  /-- Before `shouldContinue`. -/
  | checks
  /-- In `updateFunc`. -/
  | updates
  /-- Waits for the ticker. -/
  | waits
  /-- Has left the loop, the deferred `Signal` is left. -/
  | left
  /-- Has found that it should terminate, the deferred `Signal` is left. -/
  | terminated
  deriving DecidableEq

/-- The goroutine is to look at `shouldContinue` yet, or at `shouldTerminate`. -/
def Running.Works : Running → Prop
  | left | terminated => False
  | _ => True

/-- Callers and goroutines have numbers. -/
structure Updater where
  /-- The token is in the notifier. -/
  token : Bool := true
  calls : ℕ → Waking := fun _ => .returned
  runs : ℕ → Option Running := fun _ => none
  /-- `shouldContinue` was false since the last call of `WakeUp` began. -/
  served : Bool := true
  /-- `shouldTerminate` was true when it was last called. -/
  terminated : Bool := false

/-- What may happen next. -/
inductive Updating
  | wakeUp (c : ℕ)
  /-- `select` receives the token. -/
  | receive (c : ℕ)
  /-- `select` takes its default. -/
  | giveUp (c : ℕ)
  /-- `go u.run()`. -/
  | go (c g : ℕ)
  | shouldTerminate (g : ℕ) (answer : Bool)
  | shouldContinue (g : ℕ) (answer : Bool)
  /-- `updateFunc` returns. -/
  | updateFunc (g : ℕ)
  | tick (g : ℕ)
  | signal (g : ℕ)
  deriving DecidableEq

namespace Updater

variable (u : Updater)

def setCall (c : ℕ) (w : Waking) : Updater := { u with calls := Function.update u.calls c w }

def setRun (g : ℕ) (r : Option Running) : Updater := { u with runs := Function.update u.runs g r }

/-- The call is before its `select`. -/
def isCalled (c : ℕ) : Bool := u.calls c == .called true || u.calls c == .called false

/-- `shouldContinue` is false: the calls under way take note. -/
def see : Updater :=
  { u with
    calls := fun c => if u.isCalled c then .called true else u.calls c
    served := true }

def step : Updating → Option Updater
  | .wakeUp c =>
    if u.calls c = .returned then some { u.setCall c (.called false) with served := false } else none
  | .receive c =>
    if u.isCalled c && u.token then some { u.setCall c .notified with token := false } else none
  | .giveUp c => if u.isCalled c && !u.token then some (u.setCall c .returned) else none
  | .go c g =>
    if u.calls c = .notified ∧ u.runs g = none then
      some ((u.setCall c .returned).setRun g (some .begun))
    else none
  | .shouldTerminate g answer =>
    if u.runs g = some .begun then
      some { u.setRun g (some (if answer then .terminated else .checks)) with terminated := answer }
    else none
  | .shouldContinue g answer =>
    if u.runs g = some .checks then
      if answer then some (u.setRun g (some .updates)) else some (u.see.setRun g (some .left))
    else none
  | .updateFunc g => if u.runs g = some .updates then some (u.setRun g (some .waits)) else none
  | .tick g => if u.runs g = some .waits then some (u.setRun g (some .checks)) else none
  | .signal g =>
    -- The channel has room for one token.
    if (u.runs g = some .left ∨ u.runs g = some .terminated) ∧ u.token = false then
      some { u.setRun g none with token := true }
    else none

/-- No goroutine runs or is about to, and all calls have returned. -/
def IsQuiet : Prop := (∀ c, u.calls c = .returned) ∧ ∀ g, u.runs g = none

/-- The work announced last was seen, or there is none to be done any more. -/
def IsServed : Prop := u.terminated = true ∨ u.served = true

/-- No call gives up that began after the last look of a goroutine that has left its loop. -/
def SeesLate : Updating → Prop
  | .giveUp c => u.calls c = .called false → ∀ g, u.runs g ≠ some .left
  | _ => True

end Updater

/-- The runs of a new updater. -/
def updating : Lts Updater Updating where
  init u := u = {}
  step u a u' := u.step a = some u'

namespace Updater

variable {u u' : Updater} {a : Updating}

theorem isCalled_iff {c : ℕ} : u.isCalled c = true ↔ ∃ seen, u.calls c = .called seen := by
  rw [isCalled, Bool.or_eq_true, beq_iff_eq, beq_iff_eq, Bool.exists_bool, or_comm]

theorem see_calls_notified {c : ℕ} : u.see.calls c = .notified ↔ u.calls c = .notified := by
  rw [see]
  dsimp only
  by_cases hcalled : u.isCalled c = true
  · obtain ⟨seen, hseen⟩ := isCalled_iff.1 hcalled
    rw [if_pos hcalled, hseen]
    simp
  · rw [if_neg hcalled]

/-! ## The token -/

variable (u) in
/-- Who has the token: a call on the left, a goroutine on the right. -/
def holders : Set (ℕ ⊕ ℕ) := {h | h.elim (u.calls · = .notified) (u.runs · ≠ none)}

variable (u) in
/-- The token is in the notifier, or someone has it. -/
def Exclusive : Prop := Token.Held u.token u.holders

@[simp] theorem mem_holders_inl {c : ℕ} : Sum.inl c ∈ u.holders ↔ u.calls c = .notified := Iff.rfl

@[simp] theorem mem_holders_inr {g : ℕ} : Sum.inr g ∈ u.holders ↔ u.runs g ≠ none := Iff.rfl

/-- A goroutine has the token for itself. -/
theorem Exclusive.run_eq (h : u.Exclusive) {g g' : ℕ} (hg : u.runs g ≠ none)
    (hg' : u.runs g' ≠ none) : g' = g :=
  Sum.inr.inj (h.unique (mem_holders_inr.2 hg) (mem_holders_inr.2 hg'))

theorem mem_holders_setCall {c : ℕ} {w : Waking} {x : ℕ ⊕ ℕ} :
    x ∈ (u.setCall c w).holders ↔ if x = .inl c then w = .notified else x ∈ u.holders := by
  rcases x with c' | g
  · simp only [mem_holders_inl, Sum.inl.injEq, setCall, Function.update_apply]
    split_ifs <;> rfl
  · rw [if_neg (by simp)]
    rfl

theorem mem_holders_setRun {g : ℕ} {r : Option Running} {x : ℕ ⊕ ℕ} :
    x ∈ (u.setRun g r).holders ↔ if x = .inr g then r ≠ none else x ∈ u.holders := by
  rcases x with c | g'
  · rw [if_neg (by simp)]
    rfl
  · simp only [mem_holders_inr, Sum.inr.injEq, setRun, Function.update_apply]
    split_ifs <;> rfl

/-- A call that neither receives the token nor passes it on changes nothing. -/
theorem holders_setCall {c : ℕ} {w : Waking} (hw : w ≠ .notified) (hc : u.calls c ≠ .notified)
    (x : ℕ ⊕ ℕ) : x ∈ (u.setCall c w).holders ↔ x ∈ u.holders := by
  rw [mem_holders_setCall]
  split_ifs with hx
  · exact iff_of_false hw (hx ▸ hc)
  · rfl

/-- Nor does a goroutine that goes on. -/
theorem holders_setRun {g : ℕ} {r r' : Running} (hg : u.runs g = some r) (x : ℕ ⊕ ℕ) :
    x ∈ (u.setRun g (some r')).holders ↔ x ∈ u.holders := by
  rw [mem_holders_setRun]
  split_ifs with hx
  · exact iff_of_true (Option.some_ne_none r') (hx ▸ mem_holders_inr.2 (hg ▸ Option.some_ne_none r))
  · rfl

theorem holders_see (x : ℕ ⊕ ℕ) : x ∈ u.see.holders ↔ x ∈ u.holders := by
  rcases x with c | g
  · rw [mem_holders_inl, mem_holders_inl, see_calls_notified]
  · rfl

theorem ne_notified_of_isCalled {c : ℕ} (h : u.isCalled c = true) : u.calls c ≠ .notified := by
  obtain ⟨seen, hseen⟩ := isCalled_iff.1 h
  rw [hseen]
  exact Waking.noConfusion

/-- The token is never lost nor doubled. -/
theorem Exclusive.step (h : u.Exclusive) (hstep : u.step a = some u') : u'.Exclusive := by
  rcases a with c | c | c | ⟨c, g⟩ | ⟨g, answer⟩ | ⟨g, answer⟩ | g | g | g <;>
    simp only [Updater.step, Option.ite_none_right_eq_some, Option.some.injEq, Bool.and_eq_true]
      at hstep
  · obtain ⟨hc, rfl⟩ := hstep
    have hc' : u.calls c ≠ .notified := hc ▸ Waking.noConfusion
    exact Token.Held.congr h (holders_setCall Waking.noConfusion hc')
  · obtain ⟨⟨-, htoken⟩, rfl⟩ := hstep
    have hacquire : Token.Held false (u.setCall c .notified).holders := by
      refine Token.Held.acquire h htoken (x := .inl c) fun y => ?_
      rw [mem_holders_setCall]
      split_ifs with hy <;> simp [hy]
    exact hacquire
  · obtain ⟨⟨hc, -⟩, rfl⟩ := hstep
    exact Token.Held.congr h (holders_setCall Waking.noConfusion (ne_notified_of_isCalled hc))
  · obtain ⟨⟨hc, -⟩, rfl⟩ := hstep
    have htoken := (Token.Held.eq_singleton h (mem_holders_inl.2 hc)).1
    have hpass : Token.Held false ((u.setCall c .returned).setRun g (some .begun)).holders := by
      refine Token.Held.pass h (mem_holders_inl.2 hc) (z := .inr g) fun y => ?_
      rw [mem_holders_setRun, mem_holders_setCall]
      split_ifs <;> simp [*]
    rwa [← htoken] at hpass
  · obtain ⟨hg, rfl⟩ := hstep
    exact Token.Held.congr h (holders_setRun hg)
  · obtain ⟨hg, hstep⟩ := hstep
    split_ifs at hstep <;> obtain rfl := Option.some.inj hstep
    · exact Token.Held.congr h (holders_setRun hg)
    · exact Token.Held.congr h fun x => (holders_setRun (u := u.see) hg x).trans (holders_see x)
  · obtain ⟨hg, rfl⟩ := hstep
    exact Token.Held.congr h (holders_setRun hg)
  · obtain ⟨hg, rfl⟩ := hstep
    exact Token.Held.congr h (holders_setRun hg)
  · obtain ⟨⟨hg, -⟩, rfl⟩ := hstep
    have hmem : Sum.inr g ∈ u.holders := by
      rw [mem_holders_inr]
      rcases hg with hg | hg <;> exact hg ▸ Option.some_ne_none _
    have hrelease : Token.Held true (u.setRun g none).holders := by
      refine Token.Held.release h hmem fun y => ?_
      rw [mem_holders_setRun]
      split_ifs with hy <;> simp [hy]
    exact hrelease

/-! ## The work -/

variable (u) in
/-- Someone is to look at the work yet: a call that began after the last look, a call that has
    the token, or a goroutine in its loop. -/
def Attended : Prop :=
  (∃ c, u.calls c = .called false) ∨ (∃ c, u.calls c = .notified) ∨
    ∃ g r, u.runs g = some r ∧ r.Works

variable (u) in
/-- The work announced last was seen, or someone is to look at it. -/
structure Lively : Prop where
  served : u.IsServed ∨ u.Attended
  terminated {g : ℕ} : u.runs g = some .terminated → u.terminated = true

/-- A goroutine in its loop attends to the work. -/
theorem Attended.of_works {g : ℕ} {r : Running} (hg : u.runs g = some r) (hr : r.Works) :
    u.Attended := .inr (.inr ⟨g, r, hg, hr⟩)

/-- Whatever a goroutine does next, only its own end is that of one that should terminate. -/
theorem Lively.setRun_terminated (hlively : u.Lively) {g g' : ℕ} {r : Option Running}
    (hr : r ≠ some .terminated) (hg' : (u.setRun g r).runs g' = some .terminated) :
    u.terminated = true := by
  change Function.update u.runs g r g' = _ at hg'
  rcases eq_or_ne g' g with rfl | hne
  · rw [Function.update_self] at hg'
    exact absurd hg' hr
  · rw [Function.update_of_ne hne] at hg'
    exact hlively.terminated hg'

/-- A goroutine that goes on in its loop. -/
theorem Lively.setRun (hlively : u.Lively) {g : ℕ} {r : Running} (hr : r.Works) :
    (u.setRun g (some r)).Lively where
  served := .inr (.of_works (Function.update_self ..) hr)
  terminated := hlively.setRun_terminated (by rintro ⟨⟩; exact hr)

/-- The other calls are as they were. -/
theorem Attended.setCall_returned (h : u.Attended) {c : ℕ} (hc : u.calls c ≠ .called false)
    (hc' : u.calls c ≠ .notified) : (u.setCall c .returned).Attended := by
  have hkept {c' : ℕ} (hne : c' ≠ c) : (u.setCall c .returned).calls c' = u.calls c' :=
    Function.update_of_ne hne ..
  rcases h with ⟨c', hcalled⟩ | ⟨c', hnotified⟩ | hworks
  · exact .inl ⟨c', (hkept fun heq => hc (heq ▸ hcalled)).trans hcalled⟩
  · exact .inr (.inl ⟨c', (hkept fun heq => hc' (heq ▸ hnotified)).trans hnotified⟩)
  · exact .inr (.inr hworks)

/-- A call gives up: another call or a goroutine has the token, and is to look yet, unless it has
    looked since the call began. -/
theorem Lively.giveUp (hlively : u.Lively) (hexcl : u.Exclusive) {c : ℕ}
    (hc : u.isCalled c = true) (htoken : u.token = false) (hcareful : u.SeesLate (.giveUp c)) :
    (u.setCall c .returned).Lively := by
  refine ⟨?_, hlively.terminated⟩
  have hc' := ne_notified_of_isCalled hc
  obtain ⟨c' | g, hholder⟩ := Token.Held.exists_mem hexcl htoken
  · have hnotified : u.calls c' = .notified := mem_holders_inl.1 hholder
    have hne : c' ≠ c := fun heq => hc' (heq ▸ hnotified)
    exact .inr (.inr (.inl ⟨c', (Function.update_of_ne hne ..).trans hnotified⟩))
  · have hg : u.runs g ≠ none := mem_holders_inr.1 hholder
    obtain ⟨r, hr⟩ := Option.ne_none_iff_exists'.1 hg
    by_cases hworks : r.Works
    · exact .inr (.of_works (u := u.setCall c .returned) hr hworks)
    · rcases r with - | - | - | - | - | - <;> try exact absurd trivial hworks
      · -- The goroutine has looked for the last time, and so the call has begun before.
        have hlate : u.calls c ≠ .called false := fun hcalled => hcareful hcalled g hr
        exact hlively.served.imp_right fun h => h.setCall_returned hlate hc'
      · exact .inl (.inl (hlively.terminated hr))

/-- Every step that is not a late call that gives up leaves the work attended to. -/
theorem Lively.step (hlively : u.Lively) (hexcl : u.Exclusive) (hcareful : u.SeesLate a)
    (hstep : u.step a = some u') : u'.Lively := by
  rcases a with c | c | c | ⟨c, g⟩ | ⟨g, answer⟩ | ⟨g, answer⟩ | g | g | g <;>
    simp only [Updater.step, Option.ite_none_right_eq_some, Option.some.injEq, Bool.and_eq_true,
      Bool.not_eq_true'] at hstep
  · obtain ⟨-, rfl⟩ := hstep
    exact ⟨.inr (.inl ⟨c, Function.update_self ..⟩), hlively.terminated⟩
  · obtain ⟨-, rfl⟩ := hstep
    exact ⟨.inr (.inr (.inl ⟨c, Function.update_self ..⟩)), hlively.terminated⟩
  · obtain ⟨⟨hc, htoken⟩, rfl⟩ := hstep
    exact hlively.giveUp hexcl hc htoken hcareful
  · obtain ⟨-, rfl⟩ := hstep
    refine ⟨.inr (.of_works (Function.update_self ..) (r := .begun) trivial), fun {g'} hg' => ?_⟩
    exact hlively.setRun_terminated (r := some .begun) (by simp) hg'
  · obtain ⟨hg, rfl⟩ := hstep
    rcases answer with - | -
    · have hothers {g' : ℕ} (hg' : u.runs g' = some .terminated) : g' = g :=
        hexcl.run_eq (hg ▸ Option.some_ne_none _) (hg' ▸ Option.some_ne_none _)
      refine ⟨.inr (.of_works (Function.update_self ..) (r := .checks) trivial), fun {g'} hg' => ?_⟩
      change Function.update u.runs g _ g' = _ at hg'
      rcases eq_or_ne g' g with rfl | hne
      · rw [Function.update_self] at hg'
        exact absurd hg' (by simp)
      · rw [Function.update_of_ne hne] at hg'
        exact absurd (hothers hg') hne
    · exact ⟨.inl (.inl rfl), fun _ => rfl⟩
  · obtain ⟨hg, hstep⟩ := hstep
    split_ifs at hstep <;> obtain rfl := Option.some.inj hstep
    · exact hlively.setRun trivial
    · exact ⟨.inl (.inr rfl), hlively.setRun_terminated (r := some .left) (by simp)⟩
  · obtain ⟨hg, rfl⟩ := hstep
    exact hlively.setRun trivial
  · obtain ⟨hg, rfl⟩ := hstep
    exact hlively.setRun trivial
  · obtain ⟨⟨hg, -⟩, rfl⟩ := hstep
    refine ⟨hlively.served.imp_right ?_, hlively.setRun_terminated (r := none) (by simp)⟩
    refine Or.imp_right (Or.imp_right ?_)
    rintro ⟨g', r, hr, hworks⟩
    have hne : g' ≠ g := by
      rintro rfl
      rcases hg with hg | hg <;> obtain rfl := Option.some.inj (hr.symm.trans hg) <;> exact hworks
    exact ⟨g', r, (Function.update_of_ne hne ..).trans hr, hworks⟩

variable (u) in
/-- What holds in every run. -/
structure Inv : Prop where
  exclusive : u.Exclusive
  lively : u.Lively

theorem inv_init : Inv {} where
  exclusive := Set.eq_empty_iff_forall_notMem.2 (by rintro (c | g) h <;> simp at h)
  lively := ⟨.inl (.inr rfl), by simp⟩

end Updater

/-- When no goroutine runs or is about to and all calls have returned, the work announced last was
    seen, as long as no call gives up that began after the last look of a goroutine that has the
    token. -/
theorem wakeUp_served {u : Updater}
    (h : (updating.restrict Updater.SeesLate).Reach (fun _ => True) u) (hquiet : u.IsQuiet) :
    u.IsServed := by
  have hinv : u.Inv := by
    refine h.invariant ?_ ?_
    · rintro _ rfl _
      exact Updater.inv_init
    · rintro u a u' - hinv ⟨hcareful, hstep⟩ -
      exact ⟨hinv.exclusive.step hstep, hinv.lively.step hinv.exclusive hcareful hstep⟩
  rcases hinv.lively.served with hserved | ⟨c, hc⟩ | ⟨c, hc⟩ | ⟨g, r, hg, -⟩
  · exact hserved
  · exact absurd (hc.symm.trans (hquiet.1 c)) Waking.noConfusion
  · exact absurd (hc.symm.trans (hquiet.1 c)) Waking.noConfusion
  · exact absurd (hg.symm.trans (hquiet.2 g)) (Option.some_ne_none r)

/-- The work that a call announces is seen by the goroutine that it starts. -/
def seenRun : List Updating :=
  [.wakeUp 0, .receive 0, .go 0 0, .shouldTerminate 0 false, .shouldContinue 0 false, .signal 0]

theorem wakeUp_served_example : ∃ u : Updater, updating.Exec {} seenRun u ∧ u.IsServed := by
  have hseen : (updating.restrict Updater.SeesLate).Exec {} seenRun _ :=
    .cons ⟨trivial, rfl⟩ (.cons ⟨trivial, rfl⟩ (.cons ⟨trivial, rfl⟩ (.cons ⟨trivial, rfl⟩
      (.cons ⟨trivial, rfl⟩ (.cons ⟨trivial, rfl⟩ (.nil _))))))
  refine ⟨_, Lts.exec_of_run (fun _ _ _ h => h) rfl,
    wakeUp_served (hseen.reach (fun _ => trivial) (.init rfl trivial)) ⟨?_, ?_⟩⟩
  · rintro (- | c) <;> rfl
  · rintro (- | g) <;> rfl

/-- A call that begins after the last look of the goroutine finds no token and gives up, and
    nobody looks at its work. -/
theorem wakeUp_lost : ¬∀ u : Updater, updating.Reach (fun _ => True) u → u.IsQuiet → u.IsServed := by
  intro h
  have hlost : updating.Exec {} (seenRun.dropLast ++ [.wakeUp 1, .giveUp 1, .signal 0]) _ :=
    Lts.exec_of_run (fun _ _ _ h => h) rfl
  have hserved := h _ (hlost.reach (fun _ => trivial) (.init rfl trivial)) ⟨?_, ?_⟩
  · rcases hserved with hserved | hserved <;> cases hserved
  · rintro (- | - | c) <;> rfl
  · rintro (- | g) <;> rfl

end Gzv2ray.Kcp
