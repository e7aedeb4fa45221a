import Gzv2ray.Buf.Reader
import Gzv2ray.Mux.ClientWorker

/-!
# Picking a client worker

`IncrementalWorkerPicker.pickInternal` finds the first worker that is not full, exchanges
it with the last one, and returns what is then in its place: the last one. A worker is
created if all are full.

* `pickInternal_of_free`, `pickInternal_of_full`: what is picked;
* `PicksFree`: a worker that is not full is picked, if there is one;
* `picksFree_iff`: this is so if the last worker is not full, or if all are.
-/

namespace Gzv2ray.Mux

structure IncrementalWorkerPicker where
  workers : List ClientWorker := []
  /-- The clean-up was made. -/
  cleanupTask : Bool := false
  /-- The clean-up was started. -/
  started : Bool := false
  /-- How many workers the factory was asked for. -/
  created : ℕ := 0

namespace IncrementalWorkerPicker

-- What the factory creates, each time.
variable (create : ℕ → Except Error ClientWorker) (p : IncrementalWorkerPicker)

def cleanup : IncrementalWorkerPicker := { p with workers := p.workers.filter fun w => !w.closed }

def noWorker : Error := .new (ascii "no worker")

def cleanupFunc : Option Error × IncrementalWorkerPicker :=
  if p.workers.length = 0 then (some noWorker, p) else (none, p.cleanup)

def findAvailable : Option ℕ := p.workers.findIdx? fun w => !w.isFull

/-- Exchanges a worker with the last one. -/
def exchange (workers : List ClientWorker) (idx : ℕ) : List ClientWorker :=
  if workers.length > 1 ∧ idx ≠ workers.length - 1 then workers.swap (workers.length - 1) idx
  else workers

def pickInternal : Outcome ClientWorker × Bool × IncrementalWorkerPicker :=
  match p.findAvailable with
  | some idx =>
    let workers := exchange p.workers idx
    match workers[idx]? with
    | some w => (.ok w, false, { p with workers })
    | none => (.panic, false, { p with workers })
  | none =>
    let p := p.cleanup
    match create p.created with
    | .error err => (.error err, false, { p with created := p.created + 1 })
    | .ok worker => (.ok worker, true,
      { p with workers := p.workers ++ [worker], cleanupTask := true, created := p.created + 1 })

def pickAvailable : Outcome ClientWorker × IncrementalWorkerPicker :=
  match p.pickInternal create with
  | (worker, true, p) => (worker, { p with started := true })
  | (worker, false, p) => (worker, p)

/-- If some worker is not full, such a worker is picked and the workers stay the same. If
    all are full, those that are closed are removed and a new one is picked. -/
structure PicksFree : Prop where
  free : (∃ w ∈ p.workers, w.isFull = false) → ∃ w start p',
    p.pickInternal create = (.ok w, start, p') ∧ w ∈ p.workers ∧ w.isFull = false
  kept : (∃ w ∈ p.workers, w.isFull = false) →
    (p.pickInternal create).2.2.workers.Perm p.workers ∧
      (p.pickInternal create).2.2.created = p.created
  full : (∀ w ∈ p.workers, w.isFull = true) →
    (p.pickInternal create).2.2.workers.Perm
        ((p.workers.filter fun w => !w.closed) ++ (create p.created).toOption.toList) ∧
      (p.pickInternal create).2.2.created = p.created + 1 ∧
      ∀ w, create p.created = .ok w → (p.pickInternal create).1 = .ok w

variable {create} {p}

theorem findAvailable_eq_none : p.findAvailable = none ↔ ∀ w ∈ p.workers, w.isFull = true := by
  simp only [findAvailable, List.findIdx?_eq_none_iff, Bool.not_eq_false']

theorem exchange_perm (workers : List ClientWorker) (idx : ℕ) :
    (exchange workers idx).Perm workers := by
  rw [exchange]
  split
  · exact List.swap_perm _ _ _
  · exact List.Perm.refl _

/-- What is in the place of the worker is the last one. -/
theorem getElem?_exchange {workers : List ClientWorker} {idx : ℕ} (h : idx < workers.length) :
    (exchange workers idx)[idx]? = workers.getLast? := by
  rw [exchange, List.getLast?_eq_getElem?]
  split
  next hne =>
    rw [List.swap_eq_of_lt (by omega) h, List.getElem?_set_self (by rw [List.length_set]; exact h),
      List.getElem?_eq_getElem]
  next heq =>
    congr 1
    omega

/-- If some worker is not full, what is picked is the last one. -/
theorem pickInternal_of_free (create : ℕ → Except Error ClientWorker) {idx : ℕ}
    (hidx : p.findAvailable = some idx) :
    ∃ w, p.workers.getLast? = some w ∧
      p.pickInternal create = (.ok w, false, { p with workers := exchange p.workers idx }) := by
  obtain ⟨hlt, -, -⟩ := List.findIdx?_eq_some_iff_getElem.1 hidx
  have hlast := List.getLast?_eq_getLast_of_ne_nil (List.ne_nil_of_length_pos (Nat.zero_lt_of_lt hlt))
  refine ⟨_, hlast, ?_⟩
  rw [pickInternal, hidx]
  dsimp only
  rw [getElem?_exchange hlt, hlast]

/-- If all workers are full, a new one is picked. -/
theorem pickInternal_of_full (create : ℕ → Except Error ClientWorker)
    (hfull : p.findAvailable = none) :
    (p.pickInternal create).2.2.workers =
        (p.workers.filter fun w => !w.closed) ++ (create p.created).toOption.toList ∧
      (p.pickInternal create).2.2.created = p.created + 1 ∧
      ∀ w, create p.created = .ok w → (p.pickInternal create).1 = .ok w := by
  rw [pickInternal, hfull]
  dsimp only [cleanup]
  cases create p.created with
  | error err =>
    refine ⟨(List.append_nil _).symm, rfl, fun w hw => ?_⟩
    cases hw
  | ok worker =>
    refine ⟨rfl, rfl, fun w hw => ?_⟩
    cases hw
    rfl

end IncrementalWorkerPicker

/-- A worker that is not full is picked if and only if the last worker is not full, or all
    workers are full. -/
theorem picksFree_iff (create : ℕ → Except Error ClientWorker) (p : IncrementalWorkerPicker) :
    p.PicksFree create ↔ (∀ w ∈ p.workers, w.isFull = true) ∨
      ∃ w, p.workers.getLast? = some w ∧ w.isFull = false := by
  cases hidx : p.findAvailable with
  | none =>
    have hfull := IncrementalWorkerPicker.findAvailable_eq_none.1 hidx
    have hnone : ¬ ∃ w ∈ p.workers, w.isFull = false := fun ⟨w, hw, hfree⟩ =>
      Bool.noConfusion ((hfull w hw).symm.trans hfree)
    obtain ⟨hworkers, hpicked⟩ := IncrementalWorkerPicker.pickInternal_of_full create hidx
    exact iff_of_true ⟨fun h => absurd h hnone, fun h => absurd h hnone,
      fun _ => ⟨hworkers ▸ List.Perm.refl _, hpicked⟩⟩ (.inl hfull)
  | some idx =>
    have hnot : ¬ ∀ w ∈ p.workers, w.isFull = true := by
      intro hfull
      rw [IncrementalWorkerPicker.findAvailable_eq_none.2 hfull] at hidx
      cases hidx
    obtain ⟨last, hlast, hpicked⟩ :=
      IncrementalWorkerPicker.pickInternal_of_free create hidx
    constructor
    · intro h
      have hfree : ∃ w ∈ p.workers, w.isFull = false := by
        simpa only [not_forall, Bool.not_eq_true, exists_prop] using hnot
      obtain ⟨w, start, p', heq, -, hw⟩ := h.free hfree
      rw [hpicked, Prod.mk.injEq, Outcome.ok.injEq] at heq
      exact .inr ⟨last, hlast, heq.1 ▸ hw⟩
    · rintro (hfull | ⟨w, hw, hfree⟩)
      · exact absurd hfull hnot
      · obtain rfl := Option.some.inj (hlast.symm.trans hw)
        refine ⟨fun _ => ⟨last, _, _, hpicked, List.mem_of_getLast? hlast, hfree⟩, fun _ => ?_,
          fun hfull => absurd hfull hnot⟩
        rw [hpicked]
        exact ⟨IncrementalWorkerPicker.exchange_perm _ _, rfl⟩

/-- A worker with a session, and room for no other. -/
def fullWorker : ClientWorker :=
  { sessionManager := ({} : SessionManager).add 1 0, strategy := { maxConcurrency := 1 } }

/-- A new worker, with room for one session. -/
def freeWorker : ClientWorker := { strategy := { maxConcurrency := 1 } }

/-- The first worker is not full, and the second one, which is full, is picked. -/
theorem full_picked : ∃ create, ∃ p : IncrementalWorkerPicker,
    p.workers = [freeWorker, fullWorker] ∧ freeWorker.isFull = false ∧
      fullWorker.isFull = true ∧ (p.pickInternal create).1 = .ok fullWorker ∧
      ¬ p.PicksFree create := by
  refine ⟨fun _ => .ok freeWorker, { workers := [freeWorker, fullWorker] }, rfl, rfl, rfl, rfl,
    fun h => ?_⟩
  obtain ⟨w, start, p', heq, -, hfree⟩ := h.free ⟨freeWorker, List.mem_cons_self, rfl⟩
  obtain rfl : fullWorker = w := Outcome.ok.inj (congrArg Prod.fst heq)
  exact absurd hfree (by decide)

end Gzv2ray.Mux
