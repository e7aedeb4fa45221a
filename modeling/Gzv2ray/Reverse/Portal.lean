import Gzv2ray.Buf.Reader
import Gzv2ray.Lib.RunningMinimum
import Gzv2ray.Mux.ClientWorker

/-!
# Picking a worker of a portal

A portal has a worker for each connection of its bridges. `StaticMuxPicker.pickAvailable`
takes the least loaded worker of those that are not draining, up to 9999 connections,
whether or not it is full or closed. Only if there is none, it takes the least loaded
worker of those that are not full.

* `pickAvailable_cases`: what is picked;
* `PicksAvailable`: a worker that can accept a session is picked, if there is one;
* `picksAvailable_iff`: when this is so.
-/

namespace Gzv2ray.Reverse

open Mux

structure PortalWorker where
  client : ClientWorker
  draining : Bool := false

namespace PortalWorker

variable (w : PortalWorker)

def isFull : Bool := w.client.isFull

def closed : Bool := w.client.closed

/-- It can accept a session: it is neither closed nor full. -/
def canAccept : Bool := !w.closed && !w.isFull

end PortalWorker

structure StaticMuxPicker where
  workers : List PortalWorker := []

def newError (text : String) : Error := Gzv2ray.newError "app/reverse" text

namespace StaticMuxPicker

variable (p : StaticMuxPicker)

def cleanup : StaticMuxPicker :=
  let activeWorkers := p.workers.filter fun w => !w.closed
  if activeWorkers.length ≠ p.workers.length then { p with workers := activeWorkers } else p

/-- The connections of a worker. -/
def load (w : PortalWorker) : ℕ := w.client.activeConnections.toNat

/-- The place of the worker that is picked. -/
def minIdx : Option ℕ :=
  let least := runningMin (fun w => !w.draining) load p.workers 0 (none, 9999)
  match least.1 with
  | none => (runningMin (fun w => !w.isFull) load p.workers 0 least).1
  | some i => some i

def pickAvailable : Outcome ClientWorker :=
  if p.workers.length = 0 then .error (newError "empty worker list")
  else
    match p.minIdx with
    | some i =>
      match p.workers[i]? with
      | some w => .ok w.client
      | none => .panic
    | none => .error (newError "no mux client worker available")

def addWorker (w : PortalWorker) : StaticMuxPicker := { p with workers := p.workers ++ [w] }

/-- A worker that can accept a session and is preferred to the others that can: those that
    are not draining, and of these those with the fewest connections. -/
structure IsPreferred (w : PortalWorker) : Prop where
  mem : w ∈ p.workers
  canAccept : w.canAccept = true
  draining : w.draining = true → ∀ w' ∈ p.workers, w'.canAccept = true → w'.draining = true
  load_le : ∀ w' ∈ p.workers, w'.canAccept = true → w'.draining = w.draining →
    load w ≤ load w'

/-- If some worker can accept a session, a preferred one is picked. There is an error only
    if there is none. -/
structure PicksAvailable : Prop where
  picked : ∀ c, p.pickAvailable = .ok c → (∃ w ∈ p.workers, w.canAccept = true) →
    ∃ w, p.IsPreferred w ∧ w.client = c
  error : ∀ e, p.pickAvailable = .error e → ∀ w ∈ p.workers, w.canAccept = false
  safe : p.pickAvailable ≠ .panic

variable {p}

theorem canAccept_eq (w : PortalWorker) : w.canAccept = !w.isFull := by
  rw [PortalWorker.canAccept, PortalWorker.closed, PortalWorker.isFull, ClientWorker.isFull]
  cases w.client.closed <;> simp

theorem minIdx_of_some {i : ℕ} {w : PortalWorker} (hi : p.minIdx = some i)
    (hw : p.workers[i]? = some w) : p.pickAvailable = .ok w.client := by
  have hlength : p.workers.length ≠ 0 := fun hzero => by
    rw [List.length_eq_zero_iff.1 hzero] at hw
    cases hw
  rw [pickAvailable, if_neg hlength, hi]
  dsimp only
  rw [hw]

/-- What is picked: the least loaded worker that is not draining, or else the least loaded
    one that is not full. -/
theorem pickAvailable_cases (p : StaticMuxPicker) :
    (∃ i w, IsFirstLeast (fun w => !w.draining) load p.workers i w ∧ load w < 9999 ∧
      p.pickAvailable = .ok w.client) ∨
    ((∀ w ∈ p.workers, (!w.draining) = true → 9999 ≤ load w) ∧
      ((∃ i w, IsFirstLeast (fun w => !w.isFull) load p.workers i w ∧ load w < 9999 ∧
        p.pickAvailable = .ok w.client) ∨
      ((∀ w ∈ p.workers, (!w.isFull) = true → 9999 ≤ load w) ∧
        ∃ e, p.pickAvailable = .error e))) := by
  rcases runningMin_cases (fun w => !w.draining) load p.workers 0 (none, 9999) with
    ⟨hnone, hle⟩ | ⟨i, w, heq, hlt, hfirst⟩
  · right
    refine ⟨hle, ?_⟩
    have hidx : p.minIdx = (runningMin (fun w => !w.isFull) load p.workers 0 (none, 9999)).1 := by
      rw [minIdx, hnone]
    rcases runningMin_cases (fun w => !w.isFull) load p.workers 0 (none, 9999) with
      ⟨hnone', hle'⟩ | ⟨i, w, heq, hlt, hfirst⟩
    · right
      refine ⟨hle', ?_⟩
      rw [hnone'] at hidx
      rw [pickAvailable, hidx]
      split
      · exact ⟨_, rfl⟩
      · exact ⟨_, rfl⟩
    · left
      rw [heq, Nat.zero_add] at hidx
      exact ⟨i, w, hfirst, hlt, minIdx_of_some hidx hfirst.getElem?⟩
  · left
    have hidx : p.minIdx = some i := by
      rw [minIdx, heq, Nat.zero_add]
    exact ⟨i, w, hfirst, hlt, minIdx_of_some hidx hfirst.getElem?⟩

/-- When the pick is right: no worker can accept a session; or the first of the least loaded
    workers that are not draining can; or these all have 9999 connections at least and
    cannot, and some worker with fewer can. -/
def CanPick (p : StaticMuxPicker) : Prop :=
  (∀ w ∈ p.workers, w.canAccept = false) ∨
  (∃ i w, IsFirstLeast (fun w => !w.draining) load p.workers i w ∧ load w < 9999 ∧
    w.canAccept = true) ∨
  ((∀ w ∈ p.workers, w.draining = false → 9999 ≤ load w ∧ w.canAccept = false) ∧
    ∃ w ∈ p.workers, w.canAccept = true ∧ load w < 9999)

theorem canAccept_congr {w w' : PortalWorker} (h : w'.client = w.client) :
    w'.canAccept = w.canAccept := by
  rw [canAccept_eq, canAccept_eq, PortalWorker.isFull, PortalWorker.isFull, h]

theorem forall_canAccept_of_not (h : ¬ ∃ w ∈ p.workers, w.canAccept = true) :
    ∀ w ∈ p.workers, w.canAccept = false :=
  fun w hw => Bool.eq_false_of_not_eq_true fun haccept => h ⟨w, hw, haccept⟩

/-- The least loaded worker that is not draining is picked. -/
theorem picksAvailable_of_first {i : ℕ} {w : PortalWorker}
    (hfirst : IsFirstLeast (fun w => !w.draining) load p.workers i w) (hlt : load w < 9999)
    (hpick : p.pickAvailable = .ok w.client) : p.PicksAvailable ↔ p.CanPick := by
  have hdraining : w.draining = false := Bool.not_eq_true' _ ▸ hfirst.kept
  have hmem := List.mem_of_getElem? hfirst.getElem?
  constructor
  · intro h
    by_cases hany : ∃ w ∈ p.workers, w.canAccept = true
    · obtain ⟨w', hpreferred, hclient⟩ := h.picked _ hpick hany
      exact .inr (.inl ⟨i, w, hfirst, hlt, canAccept_congr hclient ▸ hpreferred.canAccept⟩)
    · exact .inl (forall_canAccept_of_not hany)
  · intro h
    refine ⟨fun c hc hany => ?_, fun e he => ?_, ?_⟩
    · obtain rfl := Outcome.ok.inj (hpick.symm.trans hc)
      refine ⟨w, ⟨hmem, ?_, fun hw => ?_, fun w' hw' _ heq => ?_⟩, rfl⟩
      · rcases h with hnone | ⟨j, w', hfirst', -, haccept⟩ | ⟨hall, -⟩
        · obtain ⟨w', hw', haccept⟩ := hany
          exact absurd ((hnone w' hw').symm.trans haccept) Bool.false_ne_true
        · exact (hfirst'.unique hfirst).2 ▸ haccept
        · exact absurd hlt (not_lt.2 (hall w hmem hdraining).1)
      · exact absurd (hdraining.symm.trans hw) Bool.false_ne_true
      · obtain ⟨j, hj⟩ := List.getElem?_of_mem hw'
        exact hfirst.le j w' hj (by rw [heq, hdraining]; rfl)
    · rw [hpick] at he
      cases he
    · rw [hpick]
      exact fun hpanic => by cases hpanic

/-- The least loaded worker that is not full is picked, as those that are not draining have
    too many connections. -/
theorem picksAvailable_of_second (hloaded : ∀ w ∈ p.workers, (!w.draining) = true → 9999 ≤ load w)
    {i : ℕ} {w : PortalWorker} (hfirst : IsFirstLeast (fun w => !w.isFull) load p.workers i w)
    (hlt : load w < 9999) (hpick : p.pickAvailable = .ok w.client) :
    p.PicksAvailable ↔ p.CanPick := by
  have hmem := List.mem_of_getElem? hfirst.getElem?
  have haccept : w.canAccept = true := canAccept_eq w ▸ hfirst.kept
  have hdraining {w' : PortalWorker} (hw' : w' ∈ p.workers) (hlt' : load w' < 9999) :
      w'.draining = true := by
    by_contra hw
    exact absurd hlt' (not_lt.2 (hloaded w' hw' (by rw [Bool.eq_false_of_not_eq_true hw]; rfl)))
  constructor
  · intro h
    obtain ⟨w', hpreferred, hclient⟩ := h.picked _ hpick ⟨w, hmem, haccept⟩
    have hlt' : load w' < 9999 := by
      rw [load, hclient]
      exact hlt
    refine .inr (.inr ⟨fun w'' hw'' hnot => ⟨hloaded w'' hw'' (by rw [hnot]; rfl), ?_⟩,
      w, hmem, haccept, hlt⟩)
    refine Bool.eq_false_of_not_eq_true fun haccept'' => ?_
    rw [hpreferred.draining (hdraining hpreferred.mem hlt') w'' hw'' haccept''] at hnot
    cases hnot
  · intro h
    refine ⟨fun c hc hany => ?_, fun e he => ?_, ?_⟩
    · obtain rfl := Outcome.ok.inj (hpick.symm.trans hc)
      refine ⟨w, ⟨hmem, haccept, fun _ w' hw' haccept' => ?_, fun w' hw' haccept' _ => ?_⟩, rfl⟩
      · rcases h with hnone | ⟨j, w'', hfirst', hlt'', -⟩ | ⟨hall, -⟩
        · exact absurd ((hnone w hmem).symm.trans haccept) Bool.false_ne_true
        · have hkept := hfirst'.kept
          rw [hdraining (List.mem_of_getElem? hfirst'.getElem?) hlt''] at hkept
          cases hkept
        · refine Bool.eq_true_of_not_eq_false fun hnot => ?_
          rw [(hall w' hw' hnot).2] at haccept'
          cases haccept'
      · obtain ⟨j, hj⟩ := List.getElem?_of_mem hw'
        exact hfirst.le j w' hj (canAccept_eq w' ▸ haccept')
    · rw [hpick] at he
      cases he
    · rw [hpick]
      exact fun hpanic => by cases hpanic

/-- No worker is picked, as those that are not full have too many connections. -/
theorem picksAvailable_of_error (hloaded : ∀ w ∈ p.workers, (!w.draining) = true → 9999 ≤ load w)
    (hfull : ∀ w ∈ p.workers, (!w.isFull) = true → 9999 ≤ load w) {e : Error}
    (hpick : p.pickAvailable = .error e) : p.PicksAvailable ↔ p.CanPick := by
  constructor
  · exact fun h => .inl (h.error e hpick)
  · intro h
    refine ⟨fun c hc => ?_, fun _ _ w hw => ?_, ?_⟩
    · rw [hpick] at hc
      cases hc
    · rcases h with hnone | ⟨j, w', hfirst, hlt, -⟩ | ⟨-, w', hw', haccept, hlt⟩
      · exact hnone w hw
      · exact absurd hlt (not_lt.2 (hloaded w' (List.mem_of_getElem? hfirst.getElem?) hfirst.kept))
      · exact absurd hlt (not_lt.2 (hfull w' hw' (canAccept_eq w' ▸ haccept)))
    · rw [hpick]
      exact fun hpanic => by cases hpanic

end StaticMuxPicker

/-- If some worker can accept a session, such a worker is picked, preferably one that is not
    draining and the least loaded of them: this is so if and only if it is found by its load
    alone, of those that are not draining. -/
theorem picksAvailable_iff (p : StaticMuxPicker) : p.PicksAvailable ↔ p.CanPick := by
  rcases p.pickAvailable_cases with ⟨i, w, hfirst, hlt, hpick⟩ |
    ⟨hloaded, ⟨i, w, hfirst, hlt, hpick⟩ | ⟨hfull, e, hpick⟩⟩
  · exact StaticMuxPicker.picksAvailable_of_first hfirst hlt hpick
  · exact StaticMuxPicker.picksAvailable_of_second hloaded hfirst hlt hpick
  · exact StaticMuxPicker.picksAvailable_of_error hloaded hfull hpick

/-- A worker whose connection is done, after its sessions were closed. -/
def closedWorker : PortalWorker :=
  { client := { sessionManager := ({} : SessionManager).close, done := true } }

/-- A worker with its control connection. -/
def openWorker : PortalWorker := { client := { sessionManager := (({} : SessionManager).allocate 0).2 } }

/-- A closed worker has no connections, and is picked. -/
theorem closed_picked : ∃ p : StaticMuxPicker, p.workers = [openWorker, closedWorker] ∧
    openWorker.canAccept = true ∧ closedWorker.canAccept = false ∧
    p.pickAvailable = .ok closedWorker.client ∧ ¬ p.PicksAvailable := by
  refine ⟨⟨[openWorker, closedWorker]⟩, rfl, rfl, rfl, rfl, fun h => ?_⟩
  obtain ⟨w, hpreferred, hclient⟩ := h.picked _ rfl ⟨openWorker, List.mem_cons_self, rfl⟩
  have haccept := hpreferred.canAccept
  rw [StaticMuxPicker.canAccept_congr (w := closedWorker) hclient] at haccept
  cases haccept

end Gzv2ray.Reverse
