import Mathlib.Data.List.AList
import Gzv2ray.Lib.Transition

/-!
# The table of the sessions

Both ends of a multiplexed connection keep their sessions in a table, by their ids. The
client allocates ids from a count of 16 bits, the server adds sessions with the ids of
its peer. Both advance the count.

* `SessionManager`: the table and its calls, each atomic by its lock;
* `Sessions.step`: the calls, with a record of all sessions that were opened;
* `Sessions.Inv`: what the slots of the table hold.

A session is removed from the table by its id. The sessions have numbers, in the order in
which they were opened.
-/

namespace Gzv2ray.Mux

/-- The sessions of a connection, by their ids. -/
structure SessionManager where
  sessions : AList fun _ : UInt16 => ℕ := ∅
  count : UInt16 := 0
  closed : Bool := false

namespace SessionManager

variable (m : SessionManager)

def size : ℕ := m.sessions.keys.length

/-- A new session, with the next id. -/
def allocate (s : ℕ) : Option UInt16 × SessionManager :=
  if m.closed then (none, m)
  else (some (m.count + 1),
    { m with count := m.count + 1, sessions := m.sessions.insert (m.count + 1) s })

/-- A new session, with an id of its own. -/
def add (id : UInt16) (s : ℕ) : SessionManager :=
  if m.closed then m
  else { m with count := m.count + 1, sessions := m.sessions.insert id s }

def remove (id : UInt16) : SessionManager :=
  if m.closed then m else { m with sessions := m.sessions.erase id }

def get (id : UInt16) : Option ℕ := if m.closed then none else m.sessions.lookup id

def closeIfNoSession : Bool × SessionManager :=
  if m.closed then (true, m)
  else if m.size ≠ 0 then (false, m)
  else (true, { m with closed := true })

def close : SessionManager := if m.closed then m else { m with closed := true, sessions := ∅ }

end SessionManager

/-! ## Runs -/

/-- A session that was opened. -/
structure OpenedSession where
  id : UInt16
  /-- It was allocated, not added. -/
  allocated : Bool
  deriving DecidableEq

/-- A table, and all sessions that were ever opened. -/
structure Sessions where
  manager : SessionManager := {}
  opened : List OpenedSession := []

/-- A call of the table, or of one of the sessions. -/
inductive SessionCall
  | allocate
  | add (id : UInt16)
  /-- `Session.Close`. -/
  | closeSession (s : ℕ)
  /-- `SessionManager.Remove`. -/
  | remove (id : UInt16)
  | closeIfNoSession
  | close
  deriving DecidableEq

namespace Sessions

variable (st : Sessions)

/-- A session is opened, if the table is not closed. -/
def allocate : Sessions :=
  match st.manager.allocate st.opened.length with
  | (none, manager) => { st with manager }
  | (some id, manager) => { manager, opened := st.opened ++ [⟨id, true⟩] }

def add (id : UInt16) : Sessions :=
  if st.manager.closed then st
  else { manager := st.manager.add id st.opened.length, opened := st.opened ++ [⟨id, false⟩] }

/-- `Session.Close` removes what is found under the id of the session. -/
def closeSession (s : OpenedSession) : Sessions :=
  { st with manager := st.manager.remove s.id }

def step : SessionCall → Option Sessions
  | .allocate => some st.allocate
  | .add id => some (st.add id)
  | .closeSession s => st.opened[s]?.map st.closeSession
  | .remove id => some { st with manager := st.manager.remove id }
  | .closeIfNoSession => some { st with manager := st.manager.closeIfNoSession.2 }
  | .close => some { st with manager := st.manager.close }

/-- What is in the table was opened under its id, and an allocated session has the id that
    the count had. -/
structure Inv (st : Sessions) : Prop where
  count_eq : st.manager.count = UInt16.ofNat st.opened.length
  slot : ∀ id s, st.manager.sessions.lookup id = some s →
    ∃ session, st.opened[s]? = some session ∧ session.id = id
  allocated : ∀ (s : ℕ) (session : OpenedSession), st.opened[s]? = some session →
    session.allocated = true → session.id = UInt16.ofNat (s + 1)

variable {st : Sessions}

theorem lt_of_getElem? {s : ℕ} {session : OpenedSession} (h : st.opened[s]? = some session) :
    s < st.opened.length := (List.getElem?_eq_some_iff.1 h).1

theorem inv_new : Inv {} where
  count_eq := rfl
  slot _ _ h := absurd h (Option.some_ne_none _).symm
  allocated _ _ h := absurd h (Option.some_ne_none _).symm

/-- A session that is opened takes the slot of its id. -/
theorem Inv.open (h : st.Inv) (session : OpenedSession)
    (hallocated : session.allocated = true → session.id = st.manager.count + 1) :
    Inv ⟨{ st.manager with
        count := st.manager.count + 1
        sessions := st.manager.sessions.insert session.id st.opened.length },
      st.opened ++ [session]⟩ where
  count_eq := by
    dsimp only
    rw [h.count_eq, List.length_append, List.length_singleton, UInt16.ofNat_add]
    rfl
  slot id s hs := by
    dsimp only at hs ⊢
    by_cases hid : id = session.id
    · rw [hid, AList.lookup_insert, Option.some.injEq] at hs
      rw [← hs]
      exact ⟨session, List.getElem?_concat_length, hid.symm⟩
    · rw [AList.lookup_insert_ne hid] at hs
      obtain ⟨old, hold, heq⟩ := h.slot id s hs
      exact ⟨old, List.getElem?_append_left (List.getElem?_eq_some_iff.1 hold).1 ▸ hold, heq⟩
  allocated s old hold hallocated' := by
    dsimp only at hold
    rcases Nat.lt_or_ge s st.opened.length with hs | hs
    · rw [List.getElem?_append_left hs] at hold
      exact h.allocated s old hold hallocated'
    · rw [List.getElem?_append_right hs, List.getElem?_singleton, Option.ite_none_right_eq_some,
        Option.some.injEq] at hold
      obtain ⟨hs', rfl⟩ := hold
      rw [hallocated hallocated', h.count_eq, show s = st.opened.length by omega, UInt16.ofNat_add]
      rfl

/-- Sessions are removed. -/
theorem Inv.of_sub (h : st.Inv) {manager : SessionManager}
    (hcount : manager.count = st.manager.count)
    (hsub : ∀ id s, manager.sessions.lookup id = some s →
      st.manager.sessions.lookup id = some s) : Inv { st with manager } where
  count_eq := hcount.trans h.count_eq
  slot id s hs := h.slot id s (hsub id s hs)
  allocated := h.allocated

end Sessions

namespace SessionManager

variable {m : SessionManager}

@[simp] theorem count_remove (id : UInt16) : (m.remove id).count = m.count := by
  rw [remove]
  split <;> rfl

@[simp] theorem count_closeIfNoSession : m.closeIfNoSession.2.count = m.count := by
  rw [closeIfNoSession]
  split
  · rfl
  · split <;> rfl

@[simp] theorem count_close : m.close.count = m.count := by
  rw [close]
  split <;> rfl

/-- A table that is still open was not changed. -/
theorem closeIfNoSession_eq_self (h : m.closeIfNoSession.2.closed = false) :
    m.closeIfNoSession.2 = m := by
  rw [closeIfNoSession] at h ⊢
  split at h
  next hclosed => rw [if_pos hclosed]
  next hopen =>
    rw [if_neg hopen]
    split at h
    next hsize => rw [if_pos hsize]
    · cases h

theorem close_eq_self (h : m.close.closed = false) : m.close = m := by
  rw [close] at h ⊢
  split at h
  next hclosed => rw [if_pos hclosed]
  · cases h

theorem lookup_of_remove {id id' : UInt16} {s : ℕ}
    (h : (m.remove id).sessions.lookup id' = some s) : m.sessions.lookup id' = some s := by
  rw [remove] at h
  split at h
  · exact h
  · by_cases hid : id' = id
    · rw [hid, AList.lookup_erase] at h
      cases h
    · rwa [AList.lookup_erase_ne hid] at h

end SessionManager

namespace Sessions

variable {st st' : Sessions} {a : SessionCall}

theorem Inv.remove (h : st.Inv) (id : UInt16) :
    Inv { st with manager := st.manager.remove id } :=
  h.of_sub (SessionManager.count_remove id) fun _ _ => SessionManager.lookup_of_remove

theorem allocate_eq (st : Sessions) : st.allocate = if st.manager.closed then st else
    ⟨{ st.manager with
        count := st.manager.count + 1
        sessions := st.manager.sessions.insert (st.manager.count + 1) st.opened.length },
      st.opened ++ [⟨st.manager.count + 1, true⟩]⟩ := by
  rw [allocate, SessionManager.allocate]
  by_cases hclosed : st.manager.closed = true
  · rw [if_pos hclosed, if_pos hclosed]
  · rw [if_neg hclosed, if_neg hclosed]

theorem Inv.step (h : st.Inv) (hstep : st.step a = some st') : st'.Inv := by
  cases a with
  | allocate =>
    rw [Sessions.step, Option.some.injEq, allocate_eq] at hstep
    subst hstep
    split
    · exact h
    · exact h.open ⟨_, true⟩ fun _ => rfl
  | add id =>
    rw [Sessions.step, Option.some.injEq] at hstep
    subst hstep
    rw [add, SessionManager.add]
    split
    · exact h
    · exact h.open ⟨id, false⟩ fun hfalse => absurd hfalse Bool.false_ne_true
  | closeSession s =>
    obtain ⟨session, -, rfl⟩ := Option.map_eq_some_iff.1 hstep
    exact h.remove session.id
  | remove id =>
    rw [Sessions.step, Option.some.injEq] at hstep
    subst hstep
    exact h.remove id
  | closeIfNoSession =>
    rw [Sessions.step, Option.some.injEq] at hstep
    subst hstep
    rw [SessionManager.closeIfNoSession]
    split
    · exact h
    · split
      · exact h
      · exact h.of_sub rfl fun _ _ hs => hs
  | close =>
    rw [Sessions.step, Option.some.injEq] at hstep
    subst hstep
    rw [SessionManager.close]
    split
    · exact h
    · exact h.of_sub rfl fun _ _ hs => absurd hs (Option.some_ne_none _).symm

end Sessions

end Gzv2ray.Mux
