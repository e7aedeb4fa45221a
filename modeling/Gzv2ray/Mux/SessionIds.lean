import Gzv2ray.Mux.SessionManager

/-!
# Ids of sessions

The count of a table has 16 bits, and nothing asks whether its next value is the id of a
session that is still open: after 65536 openings an id is given out again.

* `CountReturned`: the count came to the id of a session after it was opened;
* `Timely`: a call that meets no session to whose id the count has returned;
* `ids_unique`: these calls, in any run, give out new ids and remove no other session;
* `id_reused`: an id that is given out again, and the session that is removed for it.
-/

namespace Gzv2ray.Mux

/-- The runs of a table. -/
def table : Lts Sessions SessionCall where
  init st := st = {}
  step st a st' := st.step a = some st'

/-- An id that is allocated is not in the table, and a session that is closed removes no
    session that was allocated after it. -/
structure IdsUnique (st st' : Sessions) (a : SessionCall) : Prop where
  fresh : a = .allocate → ∀ id, (st.manager.allocate st.opened.length).1 = some id →
    st.manager.sessions.lookup id = none
  kept : ∀ s, a = .closeSession s → ∀ t session, st.opened[t]? = some session →
    session.allocated = true → s < t → ∀ id, st.manager.sessions.lookup id = some t →
    st'.manager.sessions.lookup id = some t

namespace Sessions

/-- One of the openings before the `n`-th brought the count to the id of a session that was
    open before. -/
def CountReturned (st : Sessions) (s n : ℕ) : Prop :=
  ∃ session, st.opened[s]? = some session ∧
    ∃ m, s < m ∧ m < n ∧ session.id = UInt16.ofNat (m + 1)

/-- The count has not returned to the id of a session that is in the table when the next one
    is allocated, or that is closed. -/
def Timely (st : Sessions) : SessionCall → Prop
  | .allocate => ∀ id s, st.manager.sessions.lookup id = some s →
    ¬ st.CountReturned s (st.opened.length + 1)
  | .closeSession s => ¬ st.CountReturned s st.opened.length
  | _ => True

variable {st st' : Sessions} {a : SessionCall}

/-- The count returns to an id that was allocated with every 65536th opening. -/
theorem Inv.countReturned_iff (h : st.Inv) {s : ℕ} {session : OpenedSession}
    (hs : st.opened[s]? = some session) (hallocated : session.allocated = true) (n : ℕ) :
    st.CountReturned s n ↔ s + 65536 < n := by
  have hid := h.allocated s session hs hallocated
  constructor
  · rintro ⟨session', hs', m, hlt, hn, heq⟩
    obtain rfl := Option.some.inj (hs.symm.trans hs')
    rw [hid, ← UInt16.toNat_inj, UInt16.toNat_ofNat', UInt16.toNat_ofNat'] at heq
    omega
  · intro hn
    refine ⟨session, hs, s + 65536, by omega, hn, ?_⟩
    rw [hid, ← UInt16.toNat_inj, UInt16.toNat_ofNat', UInt16.toNat_ofNat']
    omega

/-- An id that is allocated is found in the table only if the count has returned to it. -/
theorem Inv.lookup_next (h : st.Inv) (htimely : st.Timely .allocate) :
    st.manager.sessions.lookup (st.manager.count + 1) = none := by
  by_contra hne
  obtain ⟨s, hs⟩ := Option.ne_none_iff_exists'.1 hne
  obtain ⟨session, hsession, hid⟩ := h.slot _ s hs
  refine htimely _ s hs ⟨session, hsession, st.opened.length, lt_of_getElem? hsession,
    Nat.lt_succ_self _, ?_⟩
  rw [hid, h.count_eq, UInt16.ofNat_add]
  rfl

/-- The slot of a session holds a later one only if the count has returned to its id. -/
theorem Inv.lookup_closed (h : st.Inv) {s t : ℕ} {session later : OpenedSession}
    (hs : st.opened[s]? = some session) (ht : st.opened[t]? = some later)
    (hallocated : later.allocated = true) (hlt : s < t) {id : UInt16}
    (hid : st.manager.sessions.lookup id = some t) (htimely : st.Timely (.closeSession s)) :
    id ≠ session.id := by
  rintro rfl
  obtain ⟨later', ht', heq⟩ := h.slot _ t hid
  obtain rfl := Option.some.inj (ht.symm.trans ht')
  exact htimely ⟨session, hs, t, hlt, lt_of_getElem? ht, heq ▸ h.allocated t later ht hallocated⟩

theorem Inv.idsUnique (h : st.Inv) (hstep : st.step a = some st') (htimely : st.Timely a) :
    IdsUnique st st' a where
  fresh := by
    rintro rfl id hid
    rw [SessionManager.allocate] at hid
    split at hid
    · cases hid
    · rw [Option.some.injEq] at hid
      exact hid ▸ h.lookup_next htimely
  kept := by
    rintro s rfl t later ht hallocated hlt id hid
    obtain ⟨session, hs, rfl⟩ := Option.map_eq_some_iff.1 hstep
    have hne := h.lookup_closed hs ht hallocated hlt hid htimely
    rw [closeSession, SessionManager.remove]
    split
    · exact hid
    · exact (AList.lookup_erase_ne hne).trans hid

theorem inv_of_reach (h : table.Reach (fun _ => True) st) : st.Inv := by
  refine h.invariant ?_ fun s a t _ hs hstep _ => hs.step hstep
  rintro _ rfl _
  exact inv_new

end Sessions

/-- In any run, a call gives out a new id and removes no session that was allocated later,
    unless it comes after the count has returned to the id of a session that is still in
    the table, or that is closed. -/
theorem ids_unique {st st' : Sessions} {a : SessionCall}
    (hreach : table.Reach (fun _ => True) st) (hstep : st.step a = some st')
    (htimely : st.Timely a) : IdsUnique st st' a :=
  (Sessions.inv_of_reach hreach).idsUnique hstep htimely

/-- Two sessions are allocated, and the first one is closed. -/
theorem ids_unique_example : ∃ st st' : Sessions, st.opened.length = 2 ∧
    IdsUnique st st' (.closeSession 0) :=
  have hfirst : table.Reach (fun _ => True) _ :=
    .step (a := .allocate) (.init rfl trivial) rfl trivial
  have hsecond : table.Reach (fun _ => True) _ := .step (a := .allocate) hfirst rfl trivial
  ⟨_, _, rfl, ids_unique hsecond (a := .closeSession 0) rfl (by
    rintro ⟨session, hs, m, hm, hm', heq⟩
    cases Nat.le_antisymm (Nat.le_of_lt_succ hm') hm
    cases hs
    cases heq)⟩

/-! ## An id that is given out again -/

namespace Sessions

/-- Up to 65536 sessions are allocated, and none is closed. -/
theorem exec_allocate {n : ℕ} (hn : n ≤ 65536) : ∃ st : Sessions,
    table.Exec {} (List.replicate n .allocate) st ∧ st.manager.closed = false ∧
      st.manager.count = UInt16.ofNat n ∧ st.opened.length = n ∧
      (0 < n → st.opened[0]? = some ⟨1, true⟩ ∧ st.manager.sessions.lookup 1 = some 0) := by
  induction n with
  | zero => exact ⟨{}, .nil _, rfl, rfl, rfl, fun h => absurd h (Nat.lt_irrefl 0)⟩
  | succ n ih =>
    obtain ⟨st, hexec, hclosed, hcount, hlength, hfirst⟩ := ih (by omega)
    have hstep : table.step st .allocate st.allocate := rfl
    rw [allocate_eq, if_neg (by rw [hclosed]; decide)] at hstep
    have hexec' := hexec.append (.single hstep)
    rw [← List.replicate_succ'] at hexec'
    refine ⟨_, hexec', hclosed, ?_, ?_, fun _ => ?_⟩
    · rw [hcount, UInt16.ofNat_add]
      rfl
    · rw [List.length_append, hlength, List.length_singleton]
    · rcases Nat.eq_zero_or_pos n with rfl | hpos
      · rw [hcount, List.length_eq_zero_iff.1 hlength]
        exact ⟨rfl, AList.lookup_insert _⟩
      · have hne : (1 : UInt16) ≠ st.manager.count + 1 := by
          rw [hcount, ne_eq, ← UInt16.toNat_inj, UInt16.toNat_add, UInt16.toNat_ofNat']
          simp only [UInt16.toNat_one]
          omega
        obtain ⟨hopened, hlookup⟩ := hfirst hpos
        exact ⟨(List.getElem?_append_left (by omega)).trans hopened,
          (AList.lookup_insert_ne hne).trans hlookup⟩

end Sessions

/-- After 65536 allocations the first session is still in the table, and its id is given
    out again. When it is closed, it removes the other session. -/
theorem id_reused : ∃ st st' st'' : Sessions,
    table.Exec {} (List.replicate 65536 .allocate) st ∧ table.step st .allocate st' ∧
      table.step st' (.closeSession 0) st'' ∧ st.manager.sessions.lookup 1 = some 0 ∧
      (st.manager.allocate st.opened.length).1 = some 1 ∧
      st'.manager.sessions.lookup 1 = some 65536 ∧ st''.manager.sessions.lookup 1 = none ∧
      ¬ IdsUnique st st' .allocate ∧ ¬ IdsUnique st' st'' (.closeSession 0) := by
  obtain ⟨st, hexec, hclosed, hcount, hlength, hfirst⟩ := Sessions.exec_allocate le_rfl
  obtain ⟨hopened, hlookup⟩ := hfirst (Nat.zero_lt_succ _)
  have hnext : st.manager.count + 1 = 1 := by
    rw [hcount]
    rfl
  have hallocate := Sessions.allocate_eq st
  rw [hclosed, if_neg Bool.false_ne_true, hnext, hlength] at hallocate
  have hopened' : st.allocate.opened[0]? = some ⟨1, true⟩ := by
    rw [hallocate]
    exact (List.getElem?_append_left (by omega)).trans hopened
  have hlater : st.allocate.opened[65536]? = some ⟨1, true⟩ := by
    rw [hallocate, ← hlength]
    exact List.getElem?_concat_length
  have hlookup' : st.allocate.manager.sessions.lookup 1 = some 65536 := by
    rw [hallocate]
    exact AList.lookup_insert _
  have hid : (st.manager.allocate st.opened.length).1 = some 1 := by
    rw [SessionManager.allocate, hclosed, if_neg Bool.false_ne_true, hnext]
  have hremoved : (st.allocate.closeSession ⟨1, true⟩).manager.sessions.lookup 1 = none := by
    rw [Sessions.closeSession, SessionManager.remove, hallocate]
    dsimp only
    rw [hclosed, if_neg Bool.false_ne_true]
    exact AList.lookup_erase _ _
  refine ⟨st, st.allocate, st.allocate.closeSession ⟨1, true⟩, hexec, rfl, ?_, hlookup, hid, hlookup',
    hremoved, fun hunique => ?_, fun hunique => ?_⟩
  · exact congrArg (Option.map _) hopened'
  · have hnone := hunique.fresh rfl 1 hid
    rw [hlookup] at hnone
    cases hnone
  · have hkept := hunique.kept 0 rfl 65536 _ hlater rfl (Nat.zero_lt_succ _) 1 hlookup'
    rw [hremoved] at hkept
    cases hkept

end Gzv2ray.Mux
