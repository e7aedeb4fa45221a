import Gzv2ray.Mux.ClientWorker

/-!
# Dispatching to a client worker

Requests are dispatched to a worker at the same time. Each dispatch asks for the limits
and then allocates a session, and others may do so in between.

* `ClientSessions.step`: the steps, each a call of the table or of `done`;
* `WithinLimits`: the sessions are within the limits of the strategy;
* `Fits`: a session that is allocated is within the limits;
* `limits_respected`: this is what has to be so at each allocation.
-/

namespace Gzv2ray.Mux

/-- What a dispatch does next. -/
inductive Dispatching
  /-- `IsClosing`. -/
  | readCount
  | readDone
  | readSize
  | readDoneAgain
  | allocate
  | returned (dispatched : Bool)
  deriving DecidableEq

/-- A worker, with the dispatches and the sessions that are not closed yet. -/
structure ClientSessions where
  sessions : Sessions := {}
  done : Bool := false
  dispatches : ℕ → Dispatching := fun _ => .readCount
  live : Finset ℕ := ∅

/-- What may happen next. -/
inductive ClientAction
  /-- A dispatch goes on. -/
  | dispatch (d : ℕ)
  /-- A session is closed. -/
  | closeSession (s : ℕ)
  | closeIfNoSession
  /-- The connection is done. -/
  | done
  /-- The monitor closes the table, after the connection is done. -/
  | closeManager
  deriving DecidableEq

namespace ClientSessions

variable (strategy : ClientStrategy) (st : ClientSessions)

def worker : ClientWorker := ⟨st.sessions.manager, st.done, strategy⟩

/-- A dispatch goes on, or returns that it failed. -/
def next (d : ℕ) (fails : Bool) (phase : Dispatching) : ClientSessions :=
  { st with dispatches :=
      Function.update st.dispatches d (if fails then .returned false else phase) }

/-- The last step of a dispatch. -/
def allocate (d : ℕ) : ClientSessions :=
  if st.sessions.manager.closed then st.next d true .allocate
  else
    { st.next d false (.returned true) with
      sessions := st.sessions.allocate
      live := insert st.sessions.opened.length st.live }

def dispatch (d : ℕ) : Option ClientSessions :=
  match st.dispatches d with
  | .readCount => some (st.next d (st.worker strategy).isClosing .readDone)
  | .readDone => some (st.next d (st.worker strategy).closed .readSize)
  | .readSize => some (st.next d (st.worker strategy).isBusy .readDoneAgain)
  | .readDoneAgain => some (st.next d (st.worker strategy).closed .allocate)
  | .allocate => some (st.allocate d)
  | .returned _ => none

def step : ClientAction → Option ClientSessions
  | .dispatch d => st.dispatch strategy d
  | .closeSession s => (st.sessions.step (.closeSession s)).map fun sessions =>
    { st with sessions, live := st.live.erase s }
  | .closeIfNoSession => (st.sessions.step .closeIfNoSession).map fun sessions =>
    { st with sessions }
  | .done => some { st with done := true }
  | .closeManager =>
    if st.done then (st.sessions.step .close).map fun sessions => { st with sessions } else none

/-- The sessions that are open and all sessions that were opened are as many as the strategy
    allows. -/
structure WithinLimits : Prop where
  live : st.live.card ≤ strategy.maxConcurrency.toNat
  opened : st.sessions.opened.length ≤ strategy.maxConnection.toNat

/-- When a session is allocated, there is one less than the strategy allows, and the count
    does not overflow. -/
def Fits (st : ClientSessions) : ClientAction → Prop
  | .dispatch d => st.dispatches d = .allocate → st.sessions.manager.closed = false →
    st.sessions.manager.size < strategy.maxConcurrency.toNat ∧
      st.sessions.manager.count.toNat < strategy.maxConnection.toNat ∧
      st.sessions.manager.count.toNat < 65535
  | _ => True

end ClientSessions

/-- The runs of a worker with a strategy. -/
def dispatching (strategy : ClientStrategy) : Lts ClientSessions ClientAction where
  init st := st = {}
  step st a st' := st.step strategy a = some st'

namespace ClientSessions

variable {strategy : ClientStrategy} {st st' : ClientSessions}

/-- As long as the count does not overflow, the sessions of the table are those that are not
    closed. -/
structure Inv (st : ClientSessions) : Prop where
  sessions : st.sessions.Inv
  count_eq : st.sessions.manager.count.toNat = st.sessions.opened.length
  allocated : ∀ (s : ℕ) session, st.sessions.opened[s]? = some session → session.allocated = true
  lt : ∀ s ∈ st.live, s < st.sessions.opened.length
  live_iff : st.sessions.manager.closed = false →
    ∀ s, s ∈ st.live ↔ st.sessions.manager.sessions.lookup (UInt16.ofNat (s + 1)) = some s

theorem inv_new : Inv {} where
  sessions := Sessions.inv_new
  count_eq := rfl
  allocated _ _ h := absurd h (Option.some_ne_none _).symm
  lt _ h := absurd h (Finset.notMem_empty _)
  live_iff _ _ := iff_of_false (Finset.notMem_empty _) (Option.some_ne_none _).symm

theorem Inv.length_lt (h : st.Inv) : st.sessions.opened.length < 65536 :=
  h.count_eq ▸ st.sessions.manager.count.toNat_lt

theorem ofNat_inj {s t n : ℕ} (hn : n < 65536) (hs : s < n) (ht : t < n)
    (h : UInt16.ofNat (s + 1) = UInt16.ofNat (t + 1)) : s = t := by
  rw [← UInt16.toNat_inj, UInt16.toNat_ofNat', UInt16.toNat_ofNat'] at h
  omega

/-- The id of a session. -/
theorem Inv.id_eq (h : st.Inv) {s : ℕ} {session : OpenedSession}
    (hs : st.sessions.opened[s]? = some session) : session.id = UInt16.ofNat (s + 1) :=
  h.sessions.allocated s session hs (h.allocated s session hs)

/-- The table has as many sessions as are not closed. -/
theorem Inv.size_eq (h : st.Inv) (hclosed : st.sessions.manager.closed = false) :
    st.sessions.manager.size = st.live.card := by
  have himage : st.live.image (fun s => UInt16.ofNat (s + 1)) =
      st.sessions.manager.sessions.keys.toFinset := by
    ext id
    rw [Finset.mem_image, List.mem_toFinset, ← AList.mem_keys, ← AList.lookup_isSome,
      Option.isSome_iff_exists]
    constructor
    · rintro ⟨s, hs, rfl⟩
      exact ⟨s, (h.live_iff hclosed s).1 hs⟩
    · rintro ⟨s, hs⟩
      obtain ⟨session, hsession, rfl⟩ := h.sessions.slot id s hs
      rw [h.id_eq hsession] at hs ⊢
      exact ⟨s, (h.live_iff hclosed s).2 hs, rfl⟩
  have hinj : Set.InjOn (fun s => UInt16.ofNat (s + 1)) (st.live : Set ℕ) :=
    fun s hs t ht heq => ofNat_inj h.length_lt (h.lt s hs) (h.lt t ht) heq
  rw [SessionManager.size, ← List.toFinset_card_of_nodup st.sessions.manager.sessions.keys_nodup,
    ← himage, Finset.card_image_of_injOn hinj]

/-- A step that changes neither the table nor the open sessions. -/
theorem Inv.of_eq (h : st.Inv) (hsessions : st'.sessions = st.sessions)
    (hlive : st'.live = st.live) : st'.Inv where
  sessions := hsessions ▸ h.sessions
  count_eq := hsessions ▸ h.count_eq
  allocated := hsessions ▸ h.allocated
  lt := by
    rw [hsessions, hlive]
    exact h.lt
  live_iff := by
    rw [hsessions, hlive]
    exact h.live_iff

theorem WithinLimits.of_eq (h : st.WithinLimits strategy)
    (hopened : st'.sessions.opened = st.sessions.opened) (hlive : st'.live = st.live) :
    st'.WithinLimits strategy where
  live := hlive ▸ h.live
  opened := hopened ▸ h.opened

/-- The table is closed, or stays as it is. -/
theorem Inv.close (h : st.Inv) {manager : SessionManager}
    (hinv : Sessions.Inv { st.sessions with manager })
    (hcount : manager.count = st.sessions.manager.count)
    (hopen : manager.closed = false → manager = st.sessions.manager) :
    Inv { st with sessions := { st.sessions with manager } } where
  sessions := hinv
  count_eq := (congrArg UInt16.toNat hcount).trans h.count_eq
  allocated := h.allocated
  lt := h.lt
  live_iff hclosed := by
    have heq := hopen hclosed
    dsimp only at hclosed ⊢
    rw [heq] at hclosed ⊢
    exact h.live_iff hclosed

/-- A session is closed. -/
theorem Inv.closeSession (h : st.Inv) {s : ℕ} {session : OpenedSession}
    (hs : st.sessions.opened[s]? = some session) :
    Inv { st with sessions := st.sessions.closeSession session, live := st.live.erase s } where
  sessions := h.sessions.remove session.id
  count_eq := (congrArg UInt16.toNat (SessionManager.count_remove _)).trans h.count_eq
  allocated := h.allocated
  lt t ht := h.lt t (Finset.mem_of_mem_erase ht)
  live_iff := by
    intro hclosed t
    dsimp only [Sessions.closeSession] at hclosed ⊢
    rw [SessionManager.remove] at hclosed ⊢
    split at hclosed
    next hclosed' => exact absurd (hclosed'.symm.trans hclosed) Bool.noConfusion
    next hopen =>
      rw [if_neg hopen, Finset.mem_erase, h.live_iff (Bool.eq_false_of_not_eq_true hopen),
        h.id_eq hs]
      dsimp only
      by_cases hid : UInt16.ofNat (t + 1) = UInt16.ofNat (s + 1)
      · -- It is the slot of the session that is closed.
        rw [hid, AList.lookup_erase]
        refine iff_of_false (fun ht => ht.1 ?_) (Option.some_ne_none _).symm
        obtain ⟨other, hother, -⟩ := h.sessions.slot _ t ht.2
        exact ofNat_inj h.length_lt (Sessions.lt_of_getElem? hother)
          (Sessions.lt_of_getElem? hs) hid
      · rw [AList.lookup_erase_ne hid]
        exact and_iff_right fun heq => hid (heq ▸ rfl)

/-- A session is allocated, and the count does not overflow. -/
theorem Inv.allocate (h : st.Inv) (hopen : st.sessions.manager.closed = false)
    (hcount : st.sessions.manager.count.toNat < 65535) (d : ℕ) : (st.allocate d).Inv := by
  have hnext : st.sessions.manager.count + 1 = UInt16.ofNat (st.sessions.opened.length + 1) := by
    rw [h.sessions.count_eq, UInt16.ofNat_add]
    rfl
  have hsessions := h.sessions.step (a := .allocate) rfl
  rw [ClientSessions.allocate, hopen, if_neg Bool.false_ne_true]
  rw [Sessions.allocate_eq, hopen, if_neg Bool.false_ne_true] at hsessions ⊢
  refine ⟨hsessions, ?_, fun s session hs => ?_, fun s hs => ?_, fun _ s => ?_⟩
  · dsimp only
    rw [List.length_append, ← h.count_eq, UInt16.toNat_add, UInt16.toNat_one,
      Nat.mod_eq_of_lt (by omega)]
    rfl
  · rcases Nat.lt_or_ge s st.sessions.opened.length with hlt | hge
    · exact h.allocated s session ((List.getElem?_append_left hlt).symm.trans hs)
    · dsimp only at hs
      rw [List.getElem?_append_right hge, List.getElem?_singleton,
        Option.ite_none_right_eq_some, Option.some.injEq] at hs
      exact hs.2 ▸ rfl
  · dsimp only at hs ⊢
    rw [List.length_append, List.length_singleton]
    rcases Finset.mem_insert.1 hs with rfl | hs
    · exact Nat.lt_succ_self _
    · exact Nat.lt_succ_of_lt (h.lt s hs)
  · dsimp only
    rw [Finset.mem_insert, h.live_iff hopen, hnext]
    by_cases hid : UInt16.ofNat (s + 1) = UInt16.ofNat (st.sessions.opened.length + 1)
    · rw [hid, AList.lookup_insert, Option.some.injEq, eq_comm (a := s)]
      refine or_iff_left_of_imp fun hs => ?_
      obtain ⟨session, hsession, heq⟩ := h.sessions.slot _ s hs
      have hlength := h.count_eq
      exact (ofNat_inj (n := st.sessions.opened.length + 1) (by omega)
        (Nat.lt_succ_of_lt (Sessions.lt_of_getElem? hsession)) (Nat.lt_succ_self _) hid).symm
    · rw [AList.lookup_insert_ne hid]
      exact or_iff_right fun heq => hid (heq ▸ rfl)

/-- After an allocation the sessions are within the limits if and only if there was one
    less than the limits allow. -/
theorem Inv.withinLimits_allocate (h : st.Inv) (hopen : st.sessions.manager.closed = false)
    (d : ℕ) : (st.allocate d).WithinLimits strategy ↔
      st.sessions.manager.size < strategy.maxConcurrency.toNat ∧
        st.sessions.manager.count.toNat < strategy.maxConnection.toNat := by
  have hnew : st.sessions.opened.length ∉ st.live := fun hmem => Nat.lt_irrefl _ (h.lt _ hmem)
  have hlive : (st.allocate d).live.card = st.live.card + 1 := by
    rw [ClientSessions.allocate, hopen, if_neg Bool.false_ne_true]
    exact Finset.card_insert_of_notMem hnew
  have hopened : (st.allocate d).sessions.opened.length = st.sessions.opened.length + 1 := by
    rw [ClientSessions.allocate, hopen, if_neg Bool.false_ne_true, Sessions.allocate_eq, hopen,
      if_neg Bool.false_ne_true, List.length_append]
    rfl
  rw [h.size_eq hopen, h.count_eq]
  constructor
  · intro hlimits
    have hl := hlimits.live
    have ho := hlimits.opened
    rw [hlive] at hl
    rw [hopened] at ho
    exact ⟨hl, ho⟩
  · intro ⟨hl, ho⟩
    exact ⟨hlive ▸ hl, hopened ▸ ho⟩

/-- A dispatch allocates, or changes neither the table nor the open sessions. -/
theorem dispatch_cases {d : ℕ} (h : st.dispatch strategy d = some st') :
    (st.dispatches d = .allocate ∧ st' = st.allocate d) ∨
      (st.dispatches d ≠ .allocate ∧ st'.sessions = st.sessions ∧ st'.live = st.live) := by
  rw [dispatch] at h
  cases hphase : st.dispatches d <;> rw [hphase] at h
  case allocate => exact .inl ⟨rfl, (Option.some.inj h).symm⟩
  case returned => cases h
  all_goals exact .inr ⟨Dispatching.noConfusion, Option.some.inj h ▸ ⟨rfl, rfl⟩⟩

/-- A dispatch keeps the limits if and only if what it allocates fits. -/
theorem Inv.dispatch (h : st.Inv) (hlimits : st.WithinLimits strategy) {d : ℕ}
    (hstep : st.dispatch strategy d = some st') :
    (Fits strategy st (.dispatch d) → st'.Inv ∧ st'.WithinLimits strategy) ∧
      (st.sessions.manager.count.toNat < 65535 → st'.WithinLimits strategy →
        Fits strategy st (.dispatch d)) := by
  rcases dispatch_cases hstep with ⟨hphase, rfl⟩ | ⟨hphase, hsessions, hlive⟩
  · cases hopen : st.sessions.manager.closed with
    | true =>
      have hnext : st.allocate d = st.next d true .allocate := by
        rw [ClientSessions.allocate, hopen, if_pos rfl]
      rw [hnext]
      exact ⟨fun _ => ⟨h.of_eq rfl rfl, hlimits.of_eq rfl rfl⟩,
        fun _ _ _ hclosed => absurd (hopen.symm.trans hclosed) Bool.noConfusion⟩
    | false =>
      constructor
      · intro hfits
        obtain ⟨hsize, hcount, hwrap⟩ := hfits hphase hopen
        exact ⟨h.allocate hopen hwrap d, (h.withinLimits_allocate hopen d).2 ⟨hsize, hcount⟩⟩
      · intro hwrap hwithin _ _
        obtain ⟨hsize, hcount⟩ := (h.withinLimits_allocate hopen d).1 hwithin
        exact ⟨hsize, hcount, hwrap⟩
  · exact ⟨fun _ => ⟨h.of_eq hsessions hlive, hlimits.of_eq (hsessions ▸ rfl) hlive⟩,
      fun _ _ hallocate => absurd hallocate hphase⟩

/-- A step keeps the limits if and only if what it allocates fits, as long as the count does
    not overflow. -/
theorem Inv.step (h : st.Inv) (hlimits : st.WithinLimits strategy) {a : ClientAction}
    (hstep : st.step strategy a = some st') :
    (Fits strategy st a → st'.Inv ∧ st'.WithinLimits strategy) ∧
      (st.sessions.manager.count.toNat < 65535 → st'.WithinLimits strategy →
        Fits strategy st a) := by
  cases a with
  | dispatch d => exact h.dispatch hlimits hstep
  | closeSession s =>
    obtain ⟨sessions, hs, rfl⟩ := Option.map_eq_some_iff.1 hstep
    obtain ⟨session, hsession, rfl⟩ := Option.map_eq_some_iff.1 hs
    refine ⟨fun _ => ⟨h.closeSession hsession, ?_, hlimits.opened⟩, fun _ _ => trivial⟩
    exact (Finset.card_le_card (Finset.erase_subset _ _)).trans hlimits.live
  | closeIfNoSession =>
    obtain rfl := Option.some.inj hstep
    exact ⟨fun _ => ⟨h.close (h.sessions.step (a := .closeIfNoSession) rfl)
      SessionManager.count_closeIfNoSession SessionManager.closeIfNoSession_eq_self,
      hlimits.of_eq rfl rfl⟩, fun _ _ => trivial⟩
  | done =>
    obtain rfl := Option.some.inj hstep
    exact ⟨fun _ => ⟨h.of_eq rfl rfl, hlimits.of_eq rfl rfl⟩, fun _ _ => trivial⟩
  | closeManager =>
    rw [ClientSessions.step] at hstep
    split at hstep
    · obtain rfl := Option.some.inj hstep
      exact ⟨fun _ => ⟨h.close (h.sessions.step (a := .close) rfl) SessionManager.count_close
        SessionManager.close_eq_self, hlimits.of_eq rfl rfl⟩, fun _ _ => trivial⟩
    · cases hstep

end ClientSessions

/-- In a run all of whose allocations come while there is room for them, the sessions are
    within the limits of the strategy. A step goes beyond the limits if and only if it
    allocates and there is no room. -/
theorem limits_respected {strategy : ClientStrategy} {st : ClientSessions}
    (hreach : ((dispatching strategy).restrict (ClientSessions.Fits strategy)).Reach
      (fun _ => True) st) :
    st.WithinLimits strategy ∧ ∀ a st', st.step strategy a = some st' →
      (st.Fits strategy a → st'.WithinLimits strategy) ∧
        (st.sessions.manager.count.toNat < 65535 → st'.WithinLimits strategy →
          st.Fits strategy a) := by
  have hinv : st.Inv ∧ st.WithinLimits strategy := by
    refine hreach.invariant (I := fun s => s.Inv ∧ s.WithinLimits strategy) ?_ ?_
    · rintro _ rfl _
      exact ⟨ClientSessions.inv_new, Nat.zero_le _, Nat.zero_le _⟩
    · rintro s a t - ⟨hs, hlimits⟩ ⟨hfits, hstep⟩ -
      exact (hs.step hlimits hstep).1 hfits
  refine ⟨hinv.2, fun a st' hstep => ?_⟩
  obtain ⟨hfits, honly⟩ := hinv.1.step hinv.2 hstep
  exact ⟨fun h => (hfits h).2, honly⟩

def exampleStrategy : ClientStrategy := ⟨1, 1⟩

/-- A dispatch, up to its allocation. -/
def dispatchUpTo (d : ℕ) : List ClientAction := List.replicate 4 (.dispatch d)

/-- A dispatch alone allocates the session for which there is room. -/
theorem limits_respected_example : ∃ st : ClientSessions, st.live.card = 1 ∧
    st.WithinLimits exampleStrategy := by
  have hasks {st : ClientSessions} (hphase : st.dispatches 0 ≠ .allocate) :
      st.Fits exampleStrategy (.dispatch 0) := fun h => absurd h hphase
  have hcount : ((dispatching exampleStrategy).restrict (ClientSessions.Fits exampleStrategy)).Reach
      (fun _ => True) _ :=
    .step (a := .dispatch 0) (.init rfl trivial) ⟨hasks (by decide), rfl⟩ trivial
  have hdone : ((dispatching exampleStrategy).restrict (ClientSessions.Fits exampleStrategy)).Reach
      (fun _ => True) _ := .step (a := .dispatch 0) hcount ⟨hasks (by decide), rfl⟩ trivial
  have hsize : ((dispatching exampleStrategy).restrict (ClientSessions.Fits exampleStrategy)).Reach
      (fun _ => True) _ := .step (a := .dispatch 0) hdone ⟨hasks (by decide), rfl⟩ trivial
  have hagain : ((dispatching exampleStrategy).restrict (ClientSessions.Fits exampleStrategy)).Reach
      (fun _ => True) _ := .step (a := .dispatch 0) hsize ⟨hasks (by decide), rfl⟩ trivial
  exact ⟨_, rfl, (limits_respected (.step (a := .dispatch 0) hagain
    ⟨fun _ _ => by decide, rfl⟩ trivial)).1⟩

/-! ## Two dispatches at a time -/

/-- Two dispatches find that there is room for one session, and both allocate one. -/
theorem limits_exceeded : ∃ st : ClientSessions,
    (dispatching exampleStrategy).Exec {}
      (dispatchUpTo 0 ++ dispatchUpTo 1 ++ [.dispatch 0, .dispatch 1]) st ∧
      st.live.card = 2 ∧ st.sessions.opened.length = 2 ∧ ¬ st.WithinLimits exampleStrategy := by
  refine ⟨_, Lts.exec_of_run (fun _ _ _ h => h) rfl, rfl, rfl, fun h => ?_⟩
  exact absurd h.live (by decide)

end Gzv2ray.Mux
