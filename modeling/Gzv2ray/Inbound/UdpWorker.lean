import Gzv2ray.Lib.Registry
import Gzv2ray.Lib.Transition
import Gzv2ray.Net.Address

/-!
# The connections of a UDP inbound

A worker keeps a connection for each source and destination of the packets that come
in, and serves each in a goroutine. A connection is removed when it is inactive, and
by its goroutine after the proxy has returned; the latter removes what is found under
the id, which may be a newer connection by then.

* `UdpWorker.step`: the steps, each atomic by the lock of the worker;
* `RemovesFinished`: what a step removes from the map is done;
* `removeConn_finished`: this is so as long as a goroutine finds a connection that is
  done, or none; then no two live connections have one id.
-/

namespace Gzv2ray.Inbound

structure ConnID where
  src : Destination
  dest : Destination := {}
  deriving DecidableEq

/-- Where the goroutine of a connection is. -/
inductive Serving
  /-- In `proxy.Process`. -/
  | process
  /-- The connection was closed. -/
  | closed
  /-- The goroutine has ended. -/
  | ended
  deriving DecidableEq

structure UdpConn where
  id : ConnID
  lastActivityTime : ℤ
  done : Bool := false
  serving : Serving := .process
  deriving DecidableEq

/-- The connections have numbers, in the order in which they were made. -/
structure UdpWorker where
  activeConn : ConnID → Option ℕ := fun _ => none
  conn : ℕ → UdpConn := fun _ => { id := { src := {} }, lastActivityTime := 0 }
  created : ℕ := 0
  /-- The clock, in seconds. -/
  now : ℤ := 0

/-- What may happen next. -/
inductive Action
  /-- A packet comes in. -/
  | packet (source originalDest : Destination)
  /-- A connection is read from or written to. -/
  | activity (c : ℕ)
  /-- Time passes. -/
  | tick (seconds : ℕ)
  /-- The checker runs. -/
  | clean
  /-- The proxy returns, and its connection is closed. -/
  | processReturns (c : ℕ)
  /-- The goroutine of a connection removes what it finds. -/
  | removeConn (c : ℕ)
  deriving DecidableEq

namespace UdpWorker

variable (w : UdpWorker)

/-- A new connection, and its goroutine. -/
def newConn (id : ConnID) : UdpWorker :=
  { w with
    activeConn := Function.update w.activeConn id (some w.created)
    conn := Function.update w.conn w.created { id, lastActivityTime := w.now }
    created := w.created + 1 }

/-- The connection of an id, unless it is done. -/
def found (id : ConnID) : Option ℕ := (w.activeConn id).filter fun c => !(w.conn c).done

/-- The connection of an id, and whether it existed. -/
def getConnection (id : ConnID) : (ℕ × Bool) × UdpWorker :=
  match w.found id with
  | some c => ((c, true), w)
  | none => ((w.created, false), w.newConn id)

/-- The id of the packets from a source. -/
def packetID (source originalDest : Destination) : ConnID :=
  if originalDest.network ≠ .unknown then { src := source, dest := originalDest }
  else { src := source }

def isInactive (c : ℕ) : Bool := w.now - (w.conn c).lastActivityTime > 8

/-- Removes and closes the connections that are inactive. -/
def clean : UdpWorker :=
  { w with
    activeConn := fun id => (w.activeConn id).filter fun c => !w.isInactive c
    conn := fun c => if w.activeConn (w.conn c).id == some c && w.isInactive c then
      { w.conn c with done := true } else w.conn c }

def removeConn (id : ConnID) : UdpWorker :=
  { w with activeConn := Function.update w.activeConn id none }

/-- Changes a connection. -/
def modify (c : ℕ) (f : UdpConn → UdpConn) : UdpWorker :=
  { w with conn := Function.update w.conn c (f (w.conn c)) }

def step : Action → Option UdpWorker
  | .packet source originalDest => some (w.getConnection (packetID source originalDest)).2
  | .activity c =>
    if c < w.created then some (w.modify c fun conn => { conn with lastActivityTime := w.now })
    else none
  | .tick seconds => some { w with now := w.now + seconds }
  | .clean => some w.clean
  | .processReturns c =>
    if c < w.created && (w.conn c).serving == .process then
      some (w.modify c fun conn => { conn with done := true, serving := .closed })
    else none
  | .removeConn c =>
    if c < w.created && (w.conn c).serving == .closed then
      some ((w.modify c fun conn => { conn with serving := .ended }).removeConn (w.conn c).id)
    else none

/-- The connections that are not done. -/
def live : Set ℕ := {c | c < w.created ∧ (w.conn c).done = false}

/-- A goroutine finds a connection that is done under its id, or none. -/
def FindsFinished : Action → Prop
  | .removeConn c => ∀ c', w.activeConn (w.conn c).id = some c' → (w.conn c').done = true
  | _ => True

end UdpWorker

/-- The runs of a new worker. -/
def serving : Lts UdpWorker Action where
  init w := w = {}
  step w a w' := w.step a = some w'

/-- What a step removes from the map is done. -/
def RemovesFinished (w w' : UdpWorker) : Prop :=
  ∀ id c, w.activeConn id = some c → w'.activeConn id = some c ∨ (w'.conn c).done = true

/-! ## The connections of the map -/

namespace UdpWorker

variable {w w' : UdpWorker}

/-- The live connections are in the map. -/
structure Inv (w : UdpWorker) : Prop where
  registry : IsRegistry w.activeConn (UdpConn.id ∘ w.conn) w.live
  lt_created : ∀ id c, w.activeConn id = some c → c < w.created

theorem inv_new : Inv {} where
  registry := ⟨fun _ c h => absurd h (Option.some_ne_none c).symm,
    fun _ h => absurd h.1 (Nat.not_lt_zero _)⟩
  lt_created _ c h := absurd h (Option.some_ne_none c).symm

theorem done_of_found_eq_none {id : ConnID} (hfound : w.found id = none) :
    ∀ c, w.activeConn id = some c → (w.conn c).done = true := by
  intro c hc
  rw [found, hc, Option.filter_eq_none_iff] at hfound
  simpa using hfound c rfl

theorem live_newConn (w : UdpWorker) (id : ConnID) :
    (w.newConn id).live = insert w.created w.live := by
  ext c
  simp only [live, newConn, Set.mem_ofPred_eq, Set.mem_insert_iff]
  by_cases hc : c = w.created
  · simp only [hc, Nat.lt_succ_self, Function.update_self, true_and, true_or]
  · simp only [Function.update_of_ne hc, hc, false_or]
    exact and_congr_left fun _ => by omega

/-- A new connection takes the place of one that is done. -/
theorem Inv.newConn (h : w.Inv) {id : ConnID} (hfound : w.found id = none) :
    (w.newConn id).Inv ∧ RemovesFinished w (w.newConn id) := by
  have hdone := done_of_found_eq_none hfound
  have hnew (id') : w.activeConn id' ≠ some w.created := fun hc =>
    Nat.lt_irrefl _ (h.lt_created _ _ hc)
  refine ⟨⟨?_, ?_⟩, ?_⟩
  · rw [live_newConn, UdpWorker.newConn, Function.comp_update]
    exact h.registry.insert hnew fun c hc hslot =>
      Bool.noConfusion (hc.2.symm.trans (hdone c hslot))
  · intro id' c hc
    simp only [UdpWorker.newConn, Function.update_apply] at hc ⊢
    split at hc
    · rw [Option.some.injEq] at hc
      omega
    · exact Nat.lt_succ_of_lt (h.lt_created _ _ hc)
  · intro id' c hc
    simp only [UdpWorker.newConn]
    by_cases hid : id' = id
    · right
      rw [Function.update_of_ne (h.lt_created _ _ hc).ne]
      exact hdone c (hid ▸ hc)
    · left
      rwa [Function.update_of_ne hid]

/-- A connection changes, but for its id, and is not opened again. -/
theorem Inv.modify (h : w.Inv) (c : ℕ) {f : UdpConn → UdpConn} (hid : (f (w.conn c)).id = (w.conn c).id)
    (hdone : (f (w.conn c)).done = false → (w.conn c).done = false) : (w.modify c f).Inv := by
  have hkey : UdpConn.id ∘ (w.modify c f).conn = UdpConn.id ∘ w.conn := by
    rw [UdpWorker.modify, Function.comp_update, hid]
    exact Function.update_eq_self c (UdpConn.id ∘ w.conn)
  refine ⟨?_, h.lt_created⟩
  rw [hkey]
  refine h.registry.mono fun c' hc' => ⟨hc'.1, ?_⟩
  have hlive := hc'.2
  simp only [UdpWorker.modify, Function.update_apply] at hlive
  split at hlive
  next heq => exact heq ▸ hdone hlive
  · exact hlive

/-- The inactive connections are closed as they are removed. -/
theorem Inv.clean (h : w.Inv) : w.clean.Inv ∧ RemovesFinished w w.clean := by
  have hkey : UdpConn.id ∘ w.clean.conn = UdpConn.id ∘ w.conn := by
    funext c
    simp only [UdpWorker.clean, Function.comp_apply]
    split <;> rfl
  have hkept (id : ConnID) (c : ℕ) :
      w.clean.activeConn id = some c ↔ w.activeConn id = some c ∧ w.isInactive c = false := by
    rw [UdpWorker.clean, Option.filter_eq_some_iff, Bool.not_eq_true']
  have hclosed (id : ConnID) (c : ℕ) (hc : w.activeConn id = some c)
      (hinactive : w.isInactive c = true) : (w.clean.conn c).done = true := by
    have hid := h.registry.key_eq id c hc
    rw [Function.comp_apply] at hid
    simp only [UdpWorker.clean, hid, hc, hinactive, beq_self_eq_true, Bool.and_self, if_true]
  refine ⟨⟨⟨fun id c hc => ?_, fun c hc => ?_⟩, fun id c hc => ?_⟩, fun id c hc => ?_⟩
  · rw [hkey]
    exact h.registry.key_eq id c ((hkept id c).1 hc).1
  · rw [hkey]
    have hlive : c ∈ w.live := by
      refine ⟨hc.1, ?_⟩
      have hdone := hc.2
      simp only [UdpWorker.clean] at hdone
      split at hdone
      · cases hdone
      · exact hdone
    have hslot := h.registry.slot_eq c hlive
    refine (hkept _ c).2 ⟨hslot, ?_⟩
    by_contra hinactive
    have hdone := hclosed _ c hslot (Bool.eq_true_of_not_eq_false hinactive)
    rw [hc.2] at hdone
    cases hdone
  · exact h.lt_created id c ((hkept id c).1 hc).1
  · cases hinactive : w.isInactive c with
    | true => exact .inr (hclosed id c hc hinactive)
    | false => exact .inl ((hkept id c).2 ⟨hc, hinactive⟩)

theorem activeConn_removeConn (w : UdpWorker) (id id' : ConnID) :
    (w.removeConn id).activeConn id' = if id' = id then none else w.activeConn id' :=
  Function.update_apply ..

/-- A removal of a connection that is done, or of none. -/
theorem Inv.removeConn (h : w.Inv) {id : ConnID}
    (hdone : ∀ c, w.activeConn id = some c → (w.conn c).done = true) : (w.removeConn id).Inv := by
  refine ⟨h.registry.update_none_iff.2 fun c hc hslot => ?_, fun id' c hc => ?_⟩
  · exact Bool.noConfusion (hc.2.symm.trans (hdone c hslot))
  · rw [activeConn_removeConn] at hc
    split at hc
    · cases hc
    · exact h.lt_created id' c hc

/-- A removal removes a connection that is done if and only if it finds one, or none. -/
theorem removesFinished_removeConn {id : ConnID} (hactive : w'.activeConn = w.activeConn)
    (hdone : ∀ c, (w'.conn c).done = (w.conn c).done) :
    RemovesFinished w (w'.removeConn id) ↔
      ∀ c, w.activeConn id = some c → (w.conn c).done = true := by
  constructor
  · intro hremoves c hc
    rcases hremoves id c hc with hkept | hfinished
    · rw [activeConn_removeConn, if_pos rfl] at hkept
      cases hkept
    · exact (hdone c).symm.trans hfinished
  · intro hfinished id' c hc
    by_cases hid : id' = id
    · exact .inr ((hdone c).trans (hfinished c (hid ▸ hc)))
    · left
      rw [activeConn_removeConn, if_neg hid, hactive]
      exact hc

theorem removesFinished_of_eq (hactive : w'.activeConn = w.activeConn) : RemovesFinished w w' :=
  fun _ _ hc => .inl (hactive ▸ hc)

/-- What a step keeps, and what it removes. -/
theorem Inv.step (h : w.Inv) {a : Action} (hstep : w.step a = some w') :
    (w.FindsFinished a → w'.Inv) ∧ (RemovesFinished w w' ↔ w.FindsFinished a) := by
  cases a with
  | packet source originalDest =>
    rw [UdpWorker.step, Option.some.injEq] at hstep
    subst hstep
    rw [getConnection]
    cases hfound : w.found (packetID source originalDest) with
    | some c => exact ⟨fun _ => h, iff_of_true (removesFinished_of_eq rfl) trivial⟩
    | none =>
      obtain ⟨hinv, hremoves⟩ := h.newConn hfound
      exact ⟨fun _ => hinv, iff_of_true hremoves trivial⟩
  | activity c =>
    rw [UdpWorker.step, Option.ite_none_right_eq_some, Option.some.injEq] at hstep
    obtain ⟨_, rfl⟩ := hstep
    exact ⟨fun _ => h.modify c rfl id, iff_of_true (removesFinished_of_eq rfl) trivial⟩
  | tick seconds =>
    rw [UdpWorker.step, Option.some.injEq] at hstep
    subst hstep
    exact ⟨fun _ => ⟨h.registry, h.lt_created⟩, iff_of_true (removesFinished_of_eq rfl) trivial⟩
  | clean =>
    rw [UdpWorker.step, Option.some.injEq] at hstep
    subst hstep
    exact ⟨fun _ => h.clean.1, iff_of_true h.clean.2 trivial⟩
  | processReturns c =>
    rw [UdpWorker.step, Option.ite_none_right_eq_some, Option.some.injEq] at hstep
    obtain ⟨_, rfl⟩ := hstep
    exact ⟨fun _ => h.modify c rfl fun hdone => Bool.noConfusion hdone,
      iff_of_true (removesFinished_of_eq rfl) trivial⟩
  | removeConn c =>
    rw [UdpWorker.step, Option.ite_none_right_eq_some, Option.some.injEq] at hstep
    obtain ⟨_, rfl⟩ := hstep
    have hdone (c' : ℕ) : ((w.modify c fun conn => { conn with serving := .ended }).conn c').done =
        (w.conn c').done := by
      simp only [UdpWorker.modify, Function.update_apply]
      split
      next heq => rw [heq]
      · rfl
    exact ⟨fun hfinds => (h.modify c rfl id).removeConn fun c' hc' =>
      (hdone c').trans (hfinds c' hc'), removesFinished_removeConn rfl hdone⟩

end UdpWorker

/-- As long as the goroutines find connections that are done, or none, under their ids, no
    two live connections have one id; and a step removes what is done if and only if it is
    so of this step. -/
theorem removeConn_finished {w : UdpWorker}
    (hreach : (serving.restrict UdpWorker.FindsFinished).Reach (fun _ => True) w) :
    (∀ c ∈ w.live, ∀ c' ∈ w.live, (w.conn c).id = (w.conn c').id → c = c') ∧
    (∀ c ∈ w.live, w.activeConn (w.conn c).id = some c) ∧
    ∀ a w', w.step a = some w' → (RemovesFinished w w' ↔ w.FindsFinished a) := by
  have hinv : w.Inv := by
    refine hreach.invariant ?_ ?_
    · rintro _ rfl _
      exact UdpWorker.inv_new
    · rintro s a t - hs ⟨hfinds, hstep⟩ -
      exact (hs.step hstep).1 hfinds
  exact ⟨fun c hc c' hc' heq => hinv.registry.injOn hc hc' heq,
    fun c hc => hinv.registry.slot_eq c hc, fun a w' hstep => (hinv.step hstep).2⟩

def exampleSource : Destination :=
  { address := some (.ofIPv4Bytes 192 0 2 1), port := 5353, network := .udp }

/-- A packet comes in, and its connection ends: it may be removed. -/
theorem removeConn_finished_example : ∃ w : UdpWorker, (w.conn 0).serving = .closed ∧
    ∀ w', w.step (.removeConn 0) = some w' →
      (RemovesFinished w w' ↔ w.FindsFinished (.removeConn 0)) :=
  have hpacket : (serving.restrict UdpWorker.FindsFinished).Reach (fun _ => True) _ :=
    .step (a := .packet exampleSource {}) (.init rfl trivial) ⟨trivial, rfl⟩ trivial
  have hreturns : (serving.restrict UdpWorker.FindsFinished).Reach (fun _ => True) _ :=
    .step (a := .processReturns 0) hpacket ⟨trivial, rfl⟩ trivial
  ⟨_, rfl, (removeConn_finished hreturns).2.2 _⟩

/-! ## A removal of a newer connection -/

/-- A packet comes in after the first connection was closed and before it is removed: its
    connection is removed instead, and the next packet makes another one. -/
theorem newer_connection_removed : ∃ w w' w'',
    serving.Exec {} [.packet exampleSource {}, .processReturns 0, .packet exampleSource {}] w ∧
    serving.Exec w [.removeConn 0] w' ∧ serving.Exec w' [.packet exampleSource {}] w'' ∧
    w.activeConn { src := exampleSource } = some 1 ∧ (w'.conn 1).done = false ∧
    w'.activeConn { src := exampleSource } = none ∧
    1 ∈ w''.live ∧ 2 ∈ w''.live ∧ (w''.conn 1).id = (w''.conn 2).id :=
  ⟨_, _, _, Lts.exec_of_run (fun _ _ _ h => h) rfl, Lts.exec_of_run (fun _ _ _ h => h) rfl,
    Lts.exec_of_run (fun _ _ _ h => h) rfl, rfl, rfl, rfl,
    ⟨by decide, rfl⟩, ⟨by decide, rfl⟩, rfl⟩

end Gzv2ray.Inbound
