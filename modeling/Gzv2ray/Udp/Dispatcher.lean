import Gzv2ray.Lib.Registry
import Gzv2ray.Lib.Transition
import Gzv2ray.Net.Address

/-!
# The connections of the UDP dispatcher

The dispatcher keeps a connection for each destination. What ends one runs in other
goroutines: its timer, the reader of its link, or a call whose write failed. Each of
them cancels the context of the entry, and then removes what is found under its
destination, which may be a newer entry by then.

* `Dispatcher.step`: the steps, each atomic by the lock of the dispatcher;
* `Dispatcher.Owned`: no entry was removed but by its own end;
* `removeRay_owned`: this is so as long as a removal finds its own entry or none.

A call and its clean-up are separate steps, as are the two parts of a clean-up.
-/

namespace Gzv2ray.Udp

/-- A connection. Whose end closed its link is recorded for the proofs. -/
structure ConnEntry where
  dest : Destination
  /-- The context is done. -/
  canceled : Bool := false
  /-- The entry whose end closed the link, if it is closed. -/
  closedBy : Option ℕ := none
  /-- The timer has not run out. -/
  timer : Bool := true
  /-- The goroutine that reads from the link has not returned. -/
  handleInput : Bool := true
  deriving DecidableEq

/-- The entries have numbers, in the order in which they were made. -/
structure Dispatcher where
  conns : Destination → Option ℕ := fun _ => none
  entry : ℕ → ConnEntry := fun _ => { dest := {} }
  established : ℕ := 0
  /-- The entries of the calls that have not written yet. -/
  writing : List ℕ := []
  /-- The entries that were cancelled, and whose removal has not run yet. -/
  removing : List ℕ := []

/-- What may happen next. -/
inductive Action
  /-- A call gets the entry of a destination. -/
  | dispatch (dest : Destination)
  /-- A call writes to the link of an entry, and it succeeds or not. -/
  | write (e : ℕ) (ok : Bool)
  /-- The timer of an entry runs out. -/
  | timeout (e : ℕ)
  /-- A read from the link of an entry fails, or its context is done. -/
  | inputReturns (e : ℕ)
  /-- A clean-up that has cancelled an entry removes what it finds. -/
  | removeRay (e : ℕ)
  deriving DecidableEq

namespace Dispatcher

variable (v : Dispatcher)

/-- Closes the link of an entry and deletes it from the map, at the end of `e`. -/
def closeConn (dest : Destination) (conn e : ℕ) : Dispatcher :=
  { v with
    entry := Function.update v.entry conn { v.entry conn with closedBy := some e }
    conns := Function.update v.conns dest none }

def RemoveRay (dest : Destination) (e : ℕ) : Dispatcher :=
  match v.conns dest with
  | some conn => v.closeConn dest conn e
  | none => v

/-- A new connection, with its timer and its reader. -/
def establish (dest : Destination) : Dispatcher :=
  { v with
    conns := Function.update v.conns dest (some v.established)
    entry := Function.update v.entry v.established { dest }
    established := v.established + 1 }

/-- The entry under a destination, which is made if there is none. -/
def getInboundRay (dest : Destination) : ℕ × Dispatcher :=
  match v.conns dest with
  | some e => (e, v)
  | none => (v.established, v.establish dest)

/-- The first part of a clean-up. -/
def cancel (e : ℕ) : Dispatcher :=
  { v with
    entry := Function.update v.entry e { v.entry e with canceled := true }
    removing := v.removing ++ [e] }

def step : Action → Option Dispatcher
  | .dispatch dest =>
    some { (v.getInboundRay dest).2 with writing := v.writing ++ [(v.getInboundRay dest).1] }
  | .write e ok =>
    if v.writing.contains e then
      let v := { v with writing := v.writing.erase e }
      some (if ok then v else v.cancel e)
    else none
  | .timeout e =>
    if e < v.established && (v.entry e).timer then
      some (cancel { v with
        entry := Function.update v.entry e { v.entry e with timer := false } } e)
    else none
  | .inputReturns e =>
    if e < v.established && (v.entry e).handleInput then
      some (cancel { v with
        entry := Function.update v.entry e { v.entry e with handleInput := false } } e)
    else none
  | .removeRay e =>
    if v.removing.contains e then
      some (RemoveRay { v with removing := v.removing.erase e } (v.entry e).dest e)
    else none

/-- No entry was removed but by its own end: each is in the map with an open link, or its
    own clean-up closed it. -/
def Owned : Prop :=
  ∀ e < v.established, ((v.entry e).closedBy = none ∧ v.conns (v.entry e).dest = some e) ∨
    (v.entry e).closedBy = some e

/-- A removal finds its own entry under the destination, or none. -/
def FindsOwn : Action → Prop
  | .removeRay e => ∀ conn, v.conns (v.entry e).dest = some conn → conn = e
  | _ => True

end Dispatcher

/-- The runs of a new dispatcher. -/
def dispatching : Lts Dispatcher Action where
  init v := v = {}
  step v a v' := v.step a = some v'

/-! ## The entries of the map -/

namespace Dispatcher

variable {v v' : Dispatcher}

/-- The entries whose link is open. -/
def live (v : Dispatcher) : Set ℕ := {e | e < v.established ∧ (v.entry e).closedBy = none}

/-- The map holds the live entries, and no other. -/
structure Inv (v : Dispatcher) : Prop where
  registry : IsRegistry v.conns (ConnEntry.dest ∘ v.entry) v.live
  mem_live : ∀ dest e, v.conns dest = some e → e ∈ v.live
  closedBy : ∀ e < v.established, (v.entry e).closedBy = none ∨ (v.entry e).closedBy = some e

theorem Inv.owned (h : v.Inv) : v.Owned := by
  intro e he
  rcases h.closedBy e he with hnone | hsome
  · exact .inl ⟨hnone, h.registry.slot_eq e ⟨he, hnone⟩⟩
  · exact .inr hsome

/-- Neither the calls and clean-ups under way nor the other fields of the entries matter. -/
theorem Inv.of_eq (h : v.Inv) (hconns : v'.conns = v.conns)
    (hdest : ConnEntry.dest ∘ v'.entry = ConnEntry.dest ∘ v.entry)
    (hclosedBy : ∀ e, (v'.entry e).closedBy = (v.entry e).closedBy)
    (hestablished : v'.established = v.established) : v'.Inv := by
  have hlive : v'.live = v.live := by
    ext e
    simp only [live, Set.mem_ofPred_eq, hestablished, hclosedBy]
  constructor
  · rw [hconns, hlive, hdest]
    exact h.registry
  · rw [hconns, hlive]
    exact h.mem_live
  · intro e
    rw [hestablished, hclosedBy]
    exact h.closedBy e

theorem live_establish (v : Dispatcher) (dest : Destination) :
    (v.establish dest).live = insert v.established v.live := by
  ext e
  simp only [live, establish, Set.mem_ofPred_eq, Set.mem_insert_iff]
  by_cases he : e = v.established
  · simp only [he, Nat.lt_succ_self, Function.update_self, true_and, true_or]
  · simp only [Function.update_of_ne he, he, false_or]
    exact and_congr_left fun _ => by omega

theorem live_closeConn (v : Dispatcher) (dest : Destination) (conn e : ℕ) :
    (v.closeConn dest conn e).live = v.live \ {conn} := by
  ext e'
  simp only [live, closeConn, Set.mem_ofPred_eq, Set.mem_sdiff, Set.mem_singleton_iff]
  by_cases he : e' = conn
  · simp only [he, Function.update_self, reduceCtorEq, and_false, not_true_eq_false]
  · simp only [Function.update_of_ne he, he, not_false_eq_true, and_true]

/-- A new entry takes a place that is free. -/
theorem Inv.establish (h : v.Inv) {dest : Destination} (hfree : v.conns dest = none) :
    (v.establish dest).Inv := by
  have hnew : v.established ∉ v.live := fun hmem => absurd hmem.1 (Nat.lt_irrefl _)
  have hregistry := h.registry.insert (k := dest) (fun k hk => hnew (h.mem_live k _ hk))
    fun j hj hslot => by rw [hfree] at hslot; cases hslot
  constructor
  · rw [live_establish, Dispatcher.establish, Function.comp_update]
    exact hregistry
  · intro dest' e he
    rw [live_establish]
    simp only [Dispatcher.establish, Function.update_apply] at he
    split at he
    · rw [Option.some.injEq] at he
      exact .inl he.symm
    · exact .inr (h.mem_live dest' e he)
  · intro e he
    simp only [Dispatcher.establish, Function.update_apply]
    split
    · exact .inl rfl
    next hne => exact h.closedBy e (lt_of_le_of_ne (Nat.le_of_lt_succ he) hne)

/-- An entry is closed by its own end. -/
theorem Inv.closeConn (h : v.Inv) {dest : Destination} {e : ℕ} (hconn : v.conns dest = some e) :
    (v.closeConn dest e e).Inv := by
  constructor
  · rw [live_closeConn, Dispatcher.closeConn, Function.comp_update]
    have hdest : Function.update (ConnEntry.dest ∘ v.entry) e (v.entry e).dest =
      ConnEntry.dest ∘ v.entry := Function.update_eq_self e _
    rw [hdest]
    refine (h.registry.mono Set.sdiff_subset).update_none_iff.2 fun j hj hslot => ?_
    rw [hconn, Option.some.injEq] at hslot
    exact hj.2 hslot.symm
  · intro dest' e' he'
    rw [live_closeConn]
    simp only [Dispatcher.closeConn, Function.update_apply] at he'
    split at he'
    · cases he'
    next hdest =>
      refine ⟨h.mem_live dest' e' he', ?_⟩
      rintro rfl
      exact hdest ((h.registry.key_eq _ _ he').symm.trans (h.registry.key_eq _ _ hconn))
  · intro e' he'
    simp only [Dispatcher.closeConn, Function.update_apply]
    split
    next heq => exact .inr (heq ▸ rfl)
    · exact h.closedBy e' he'

/-- A field that the invariant does not speak of. -/
theorem Inv.updateEntry (h : v.Inv) (e : ℕ) (conn : ConnEntry)
    (hdest : conn.dest = (v.entry e).dest) (hclosedBy : conn.closedBy = (v.entry e).closedBy) :
    Inv { v with entry := Function.update v.entry e conn } := by
  refine h.of_eq rfl ?_ (fun e' => ?_) rfl
  · rw [Function.comp_update, hdest]
    exact Function.update_eq_self e (ConnEntry.dest ∘ v.entry)
  · simp only [Function.update_apply]
    split
    next heq => rw [heq, hclosedBy]
    · rfl

theorem Inv.cancel (h : v.Inv) (e : ℕ) : (v.cancel e).Inv :=
  (h.updateEntry e { v.entry e with canceled := true } rfl rfl).of_eq rfl rfl (fun _ => rfl) rfl

/-- What a step keeps, if a removal finds its own entry or none. -/
theorem Inv.step (h : v.Inv) {a : Action} (hown : v.FindsOwn a) (hstep : v.step a = some v') :
    v'.Inv := by
  cases a with
  | dispatch dest =>
    rw [Dispatcher.step, Option.some.injEq] at hstep
    subst hstep
    rw [getInboundRay]
    cases hconn : v.conns dest with
    | some e => exact h.of_eq rfl rfl (fun _ => rfl) rfl
    | none => exact (h.establish hconn).of_eq rfl rfl (fun _ => rfl) rfl
  | write e ok =>
    rw [Dispatcher.step, Option.ite_none_right_eq_some, Option.some.injEq] at hstep
    obtain ⟨_, rfl⟩ := hstep
    have hwritten : Inv { v with writing := v.writing.erase e } := h.of_eq rfl rfl (fun _ => rfl) rfl
    cases ok with
    | true => exact hwritten
    | false => exact hwritten.cancel e
  | timeout e =>
    rw [Dispatcher.step, Option.ite_none_right_eq_some, Option.some.injEq] at hstep
    obtain ⟨_, rfl⟩ := hstep
    exact (h.updateEntry e { v.entry e with timer := false } rfl rfl).cancel e
  | inputReturns e =>
    rw [Dispatcher.step, Option.ite_none_right_eq_some, Option.some.injEq] at hstep
    obtain ⟨_, rfl⟩ := hstep
    exact (h.updateEntry e { v.entry e with handleInput := false } rfl rfl).cancel e
  | removeRay e =>
    rw [Dispatcher.step, Option.ite_none_right_eq_some, Option.some.injEq] at hstep
    obtain ⟨_, rfl⟩ := hstep
    have hremoving : Inv { v with removing := v.removing.erase e } :=
      h.of_eq rfl rfl (fun _ => rfl) rfl
    rw [RemoveRay]
    cases hconn : v.conns (v.entry e).dest with
    | none => exact hremoving
    | some conn =>
      obtain rfl := hown conn hconn
      exact hremoving.closeConn hconn

/-- A removal that finds another entry closes it. -/
theorem Inv.not_owned (h : v.Inv) {a : Action} (hother : ¬ v.FindsOwn a)
    (hstep : v.step a = some v') : ¬ v'.Owned := by
  cases a with
  | removeRay e =>
    rw [FindsOwn] at hother
    push Not at hother
    obtain ⟨conn, hconn, hne⟩ := hother
    rw [Dispatcher.step, Option.ite_none_right_eq_some, Option.some.injEq] at hstep
    obtain ⟨_, rfl⟩ := hstep
    intro howned
    rw [RemoveRay, hconn] at howned
    have hclosed := howned conn (h.mem_live _ _ hconn).1
    simp only [Dispatcher.closeConn, Function.update_self, reduceCtorEq, false_and, false_or,
      Option.some.injEq] at hclosed
    exact hne hclosed.symm
  | dispatch => exact absurd trivial hother
  | write => exact absurd trivial hother
  | timeout => exact absurd trivial hother
  | inputReturns => exact absurd trivial hother

theorem inv_new : Inv {} where
  registry := ⟨fun _ e h => absurd h (Option.some_ne_none e).symm,
    fun _ h => absurd h.1 (Nat.not_lt_zero _)⟩
  mem_live _ e h := absurd h (Option.some_ne_none e).symm
  closedBy e h := absurd h (Nat.not_lt_zero e)

end Dispatcher

/-- As long as every removal finds its own entry or none, no entry is removed but by its own
    end; and any other removal removes one. -/
theorem removeRay_owned {v : Dispatcher}
    (hreach : (dispatching.restrict Dispatcher.FindsOwn).Reach (fun _ => True) v) :
    v.Owned ∧ ∀ a v', v.step a = some v' → (v'.Owned ↔ v.FindsOwn a) := by
  have hinv : v.Inv := by
    refine hreach.invariant ?_ ?_
    · rintro _ rfl _
      exact Dispatcher.inv_new
    · rintro s a t - hs ⟨hown, hstep⟩ -
      exact hs.step hown hstep
  refine ⟨hinv.owned, fun a v' hstep => ⟨fun howned => ?_, fun hown => (hinv.step hown hstep).owned⟩⟩
  by_contra hother
  exact hinv.not_owned hother hstep howned

def exampleDest : Destination :=
  { address := some (.ofIPv4Bytes 192 0 2 1), port := 53, network := .udp }

/-- A connection, and the end of its reader: it may be removed. -/
theorem removeRay_owned_example : ∃ v : Dispatcher, v.Owned ∧ v.removing = [0] ∧
    ∀ v', v.step (.removeRay 0) = some v' → (v'.Owned ↔ v.FindsOwn (.removeRay 0)) :=
  have hdispatch : (dispatching.restrict Dispatcher.FindsOwn).Reach (fun _ => True) _ :=
    .step (a := .dispatch exampleDest) (.init rfl trivial) ⟨trivial, rfl⟩ trivial
  have hreturns : (dispatching.restrict Dispatcher.FindsOwn).Reach (fun _ => True) _ :=
    .step (a := .inputReturns 0) hdispatch ⟨trivial, rfl⟩ trivial
  ⟨_, (removeRay_owned hreturns).1, rfl, (removeRay_owned hreturns).2 _⟩

/-! ## A removal of a newer entry -/

/-- The reader of the first connection ends, and the connection is made again. -/
def recreate : List Action :=
  [.dispatch exampleDest, .write 0 true, .inputReturns 0, .removeRay 0, .dispatch exampleDest,
    .write 1 true]

/-- The timer of the first connection runs out, and the second one is closed. -/
theorem newer_entry_removed : ∃ v v', dispatching.Exec {} recreate v ∧
    v.conns exampleDest = some 1 ∧ (v.entry 1).closedBy = none ∧
    dispatching.Exec v [.timeout 0, .removeRay 0] v' ∧
    v'.conns exampleDest = none ∧ (v'.entry 1).closedBy = some 0 ∧ ¬ v'.Owned := by
  refine ⟨_, _, Lts.exec_of_run (fun _ _ _ h => h) rfl, rfl, rfl,
    Lts.exec_of_run (fun _ _ _ h => h) rfl, rfl, rfl, fun howned => ?_⟩
  rcases howned 1 (by decide) with ⟨hnone, _⟩ | hsome
  · exact Option.some_ne_none 0 hnone
  · exact absurd (Option.some.inj hsome) (by decide)

end Gzv2ray.Udp
