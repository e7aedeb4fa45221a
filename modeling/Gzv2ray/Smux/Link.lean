import Gzv2ray.Lib.Transition
import Gzv2ray.Smux.Stream

/-!
# One smux stream

The two ends of one stream, the frames for it that each end has asked for, and those that are on
their way. One end opens the stream. A frame asked for is written in any order with the others of
its end, and those written arrive in order.

* `link`: the transition system;
* `Link.Opens`: the stream is known at the end that accepts it before anything else of it comes,
  in every run (`Link.Opens.reach`).
-/

namespace Gzv2ray.Smux

/-! ## Data -/

/-- The data that a frame pushes. -/
def Frame.payload (f : Frame) : Bytes := if f.cmd = .psh then f.data else []

/-- The data that frames push, in their order. -/
def dataOf (frames : List Frame) : Bytes := frames.flatMap Frame.payload

@[simp] theorem dataOf_nil : dataOf [] = [] := rfl

@[simp] theorem dataOf_append (l l' : List Frame) : dataOf (l ++ l') = dataOf l ++ dataOf l' :=
  List.flatMap_append

@[simp] theorem dataOf_cons (f : Frame) (l : List Frame) : dataOf (f :: l) = f.payload ++ dataOf l :=
  List.flatMap_cons

theorem dataOf_singleton (f : Frame) : dataOf [f] = f.payload := List.append_nil _

/-- Frames that push nothing have no data. -/
theorem dataOf_eq_nil {l : List Frame} (h : ∀ f ∈ l, f.cmd ≠ .psh) : dataOf l = [] := by
  induction l with
  | nil => rfl
  | cons f l ih =>
    rw [dataOf_cons, ih fun f hf => h f (List.mem_cons_of_mem _ hf), Frame.payload,
      if_neg (h f List.mem_cons_self)]
    rfl

/-! ## The transition system -/

/-- One end of a stream, and the frames it has asked for. -/
structure LinkEnd where
  stream : Option Stream := none
  pending : List Frame := []

/-- The two ends, and the frames each of them wrote that have not arrived. -/
structure Link where
  ends : Bool → LinkEnd
  frames : Bool → List Frame

inductive LinkEvent
  /-- The stream is given its number, and the frame that opens it is asked for. -/
  | openStream
  /-- It is put into the table. -/
  | opened
  | act (e : StreamEvent)
  /-- The session is closed. -/
  | sessionClose
  /-- A frame that was asked for is written. -/
  | send (k : ℕ)
  /-- The next frame arrives. -/
  | recv

/-- What the receiving loop does with a frame: it makes a stream of one that it has no stream for. -/
def deliver (f : Frame) : Option Stream → Option Stream
  | none => if f.cmd = .syn then some { status := .open } else none
  | some s => if f.cmd = .syn ∧ s.status = .closed then some { status := .open } else some (s.receive f)

/-- The stream dies with its session. -/
def Stream.sessionClose (s : Stream) : Stream := if s.status = .open then { s with die := true } else s

namespace Link

section

variable (config : Bool → Config) (sid : UInt32) (opener : Bool) (l : Link) (i : Bool)

def synFrame : Frame := { ver := Stream.version (config i), cmd := .syn, sid }

/-- The link with another end `i`. -/
def setEnd (e : LinkEnd) : Link := { l with ends := Function.update l.ends i e }

/-- The link with other frames on their way from the end `i`. -/
def setFrames (fs : List Frame) : Link := { l with frames := Function.update l.frames i fs }

/-- The steps of the end `i`. -/
inductive Step : LinkEvent → Link → Prop
  | openStream : i = opener → (l.ends i).stream = none →
      Step .openStream (l.setEnd i {
        stream := some { status := .opening }
        pending := (l.ends i).pending ++ [synFrame config sid i] })
  | opened {s : Stream} : (l.ends i).stream = some s → s.status = .opening →
      (∀ f ∈ (l.ends i).pending, f.cmd ≠ .syn) →
      Step .opened (l.setEnd i { l.ends i with stream := some { s with status := .open } })
  | act {s s' : Stream} {e : StreamEvent} {f : Option Frame} : (l.ends i).stream = some s →
      s.status ≠ .opening → s.act (config i) sid e = some (s', f) →
      Step (.act e) (l.setEnd i { stream := some s', pending := (l.ends i).pending ++ f.toList })
  | sessionClose {s : Stream} : (l.ends i).stream = some s →
      Step .sessionClose (l.setEnd i { l.ends i with stream := some s.sessionClose })
  | send {l₁ l₂ : List Frame} {f : Frame} : (l.ends i).pending = l₁ ++ f :: l₂ →
      Step (.send l₁.length) ((l.setEnd i {
        stream := (l.ends i).stream.map fun s => s.wrote (config i) f
        pending := l₁ ++ l₂ }).setFrames i (l.frames i ++ [f]))
  | recv {f : Frame} {fs : List Frame} : l.frames (!i) = f :: fs →
      Step .recv ((l.setEnd i { l.ends i with stream := deliver f (l.ends i).stream }).setFrames (!i) fs)

end

end Link

/-- The runs of a stream that is not open. -/
def link (config : Bool → Config) (sid : UInt32) (opener : Bool) : Lts Link (Bool × LinkEvent) where
  init l := ∀ i, l.ends i = {} ∧ l.frames i = []
  step l e l' := l.Step config sid opener e.1 e.2 l'

namespace Link

variable {l : Link} {i : Bool} {e : LinkEnd} {fs : List Frame}

@[simp] theorem setEnd_ends_self : (l.setEnd i e).ends i = e := Function.update_self ..

@[simp] theorem setEnd_ends_not : (l.setEnd i e).ends (!i) = l.ends !i :=
  Function.update_of_ne (by simp) ..

@[simp] theorem setEnd_not_ends : (l.setEnd (!i) e).ends i = l.ends i :=
  Function.update_of_ne (by simp) ..

@[simp] theorem setEnd_frames : (l.setEnd i e).frames = l.frames := rfl

@[simp] theorem setFrames_ends : (l.setFrames i fs).ends = l.ends := rfl

@[simp] theorem setFrames_frames_self : (l.setFrames i fs).frames i = fs := Function.update_self ..

@[simp] theorem setFrames_frames_not : (l.setFrames i fs).frames (!i) = l.frames !i :=
  Function.update_of_ne (by simp) ..

@[simp] theorem setFrames_not_frames : (l.setFrames (!i) fs).frames i = l.frames i :=
  Function.update_of_ne (by simp) ..

end Link

/-! ## The stream is known before anything else of it comes -/

namespace Stream

variable {config : Config} {sid : UInt32} {s s' : Stream} {f : Option Frame}

/-- An event asks for no frame that opens a stream, and puts none into the table. -/
theorem Acts.status (h : s.Acts config sid s' f) :
    (∀ g ∈ f, g.cmd ≠ .syn) ∧ (s.status ≠ .opening → s'.status ≠ .opening) ∧ s'.early = s.early := by
  cases h with
  | read out buffers =>
    obtain ⟨_, _, _, heq⟩ := consume_eq config s out buffers
    rw [heq]
    exact ⟨fun g hg => (nomatch hg), id, rfl⟩
  | tryRead =>
    obtain ⟨_, _, _, heq⟩ := consume_eq config s [] []
    rw [heq]
    exact ⟨fun g hg => (nomatch hg), id, rfl⟩
  | request | notify | close => exact ⟨fun g hg => by cases hg; exact nofun, id, rfl⟩
  | streamClosed => exact ⟨fun g hg => (nomatch hg), fun _ h => (nomatch h), rfl⟩
  | _ => exact ⟨fun g hg => (nomatch hg), id, rfl⟩

/-- What arrives leaves a stream in the table, or out of it. -/
theorem receive_status (s : Stream) (g : Frame) :
    (s.receive g).status = s.status ∧ (s.status ≠ .opening → (s.receive g).early = s.early) := by
  rw [receive]
  split
  · split
    · rename_i hstatus
      exact ⟨rfl, fun h => absurd hstatus h⟩
    · exact ⟨rfl, fun _ => rfl⟩
    · exact ⟨rfl, fun _ => rfl⟩
  · split_ifs <;> exact ⟨rfl, fun _ => rfl⟩
  · split_ifs <;> exact ⟨rfl, fun _ => rfl⟩
  · exact ⟨rfl, fun _ => rfl⟩

theorem sessionClose_eq (s : Stream) : ∃ die, s.sessionClose = { s with die } := by
  rw [sessionClose]
  split_ifs
  · exact ⟨true, rfl⟩
  · exact ⟨s.die, rfl⟩

end Stream

namespace Link

section

variable {config : Bool → Config} {sid : UInt32} {opener : Bool} {l l' : Link}

/-- The end that accepts a stream knows it from the frame that opens it, which comes first. -/
structure Opens (config : Bool → Config) (sid : UInt32) (opener : Bool) (l : Link) : Prop where
  unopened : (l.ends opener).stream = none →
    (l.ends !opener).stream = none ∧ l.frames opener = [] ∧ (l.ends opener).pending = []
  opening : ∀ a, (l.ends opener).stream = some a → (l.ends !opener).stream = none →
    l.frames opener = [] ∧ (l.ends opener).pending = [synFrame config sid opener] ∧
        a.status = .opening ∨
      ∃ fs, l.frames opener = synFrame config sid opener :: fs ∧
        ∀ f ∈ fs ++ (l.ends opener).pending, f.cmd ≠ .syn
  unaccepted : (l.ends !opener).stream = none →
    l.frames (!opener) = [] ∧ (l.ends !opener).pending = []
  accepted : ∀ b, (l.ends !opener).stream = some b →
    b.status ≠ .opening ∧ b.early = [] ∧ ∀ f ∈ l.frames opener ++ (l.ends opener).pending, f.cmd ≠ .syn
  accepting : ∀ f ∈ l.frames (!opener) ++ (l.ends !opener).pending, f.cmd ≠ .syn

/-- What holds of the frames on their way holds of those of an event as well. -/
theorem forall_asked {P : Frame → Prop} {fs pending : List Frame} {f : Option Frame}
    (h : ∀ g ∈ fs ++ pending, P g) (hf : ∀ g ∈ f, P g) : ∀ g ∈ fs ++ (pending ++ f.toList), P g := by
  intro g hg
  rw [← List.append_assoc] at hg
  rcases List.mem_append.1 hg with hg | hg
  · exact h g hg
  · exact hf g (Option.mem_toList.1 hg)

/-- A frame that is sent is one of those asked for. -/
theorem forall_sent {P : Frame → Prop} {fs l₁ l₂ : List Frame} {f : Frame}
    (h : ∀ g ∈ fs ++ (l₁ ++ f :: l₂), P g) : ∀ g ∈ fs ++ [f] ++ (l₁ ++ l₂), P g := by
  intro g hg
  refine h g ?_
  simp only [List.mem_append, List.mem_cons, List.not_mem_nil, or_false] at hg ⊢
  tauto

/-- A step of the end that opened the stream. -/
theorem Opens.step_opener (h : l.Opens config sid opener) {e : LinkEvent}
    (hstep : l.Step config sid opener opener e l') : l'.Opens config sid opener := by
  -- The other end is as before in each case, so only the frames of this end and the status of its
  -- stream matter.
  cases hstep with
  | openStream _ hnone =>
    obtain ⟨hother, hframes, hpending⟩ := h.unopened hnone
    refine ⟨fun hs => ?_, fun a ha _ => .inl ?_, fun hs => ?_, fun b hb => ?_, fun f hf => ?_⟩
    · rw [setEnd_ends_self] at hs
      cases hs
    · rw [setEnd_ends_self] at ha ⊢
      cases ha
      exact ⟨hframes, by rw [hpending]; rfl, rfl⟩
    · rw [setEnd_ends_not] at hs ⊢
      exact h.unaccepted hs
    · rw [setEnd_ends_not, hother] at hb
      cases hb
    · rw [setEnd_ends_not] at hf
      exact h.accepting f hf
  | @opened s hs hopening hsyn =>
    refine ⟨fun hs => ?_, fun a ha hother => .inr ?_, fun hs => ?_, fun b hb => ?_, fun f hf => ?_⟩
    · rw [setEnd_ends_self] at hs
      cases hs
    · rw [setEnd_ends_not] at hother
      rw [setEnd_ends_self, setEnd_frames]
      -- The program is told so once the frame that opens the stream is written.
      rcases h.opening s hs hother with ⟨-, hpending, -⟩ | hfirst
      · exact absurd rfl (hsyn (synFrame config sid opener) (by rw [hpending]; exact List.mem_cons_self))
      · exact hfirst
    · rw [setEnd_ends_not] at hs ⊢
      exact h.unaccepted hs
    · rw [setEnd_ends_not] at hb
      rw [setEnd_ends_self]
      exact h.accepted b hb
    · rw [setEnd_ends_not] at hf
      exact h.accepting f hf
  | @act s s' e f hs hopening hact =>
    obtain ⟨hsyn, -, -⟩ := (Stream.acts_of_act hact).status
    refine ⟨fun hs => ?_, fun a ha hother => .inr ?_, fun hs => ?_, fun b hb => ?_, fun g hg => ?_⟩
    · rw [setEnd_ends_self] at hs
      cases hs
    · rw [setEnd_ends_not] at hother
      rw [setEnd_ends_self, setEnd_frames]
      rcases h.opening s hs hother with ⟨-, -, hstatus⟩ | ⟨fs, hframes, hfs⟩
      · exact absurd hstatus hopening
      · exact ⟨fs, hframes, forall_asked hfs hsyn⟩
    · rw [setEnd_ends_not] at hs ⊢
      exact h.unaccepted hs
    · rw [setEnd_ends_not] at hb
      rw [setEnd_ends_self, setEnd_frames]
      obtain ⟨hstatus, hearly, hfs⟩ := h.accepted b hb
      exact ⟨hstatus, hearly, forall_asked hfs hsyn⟩
    · rw [setEnd_ends_not] at hg
      exact h.accepting g hg
  | @sessionClose s hs =>
    obtain ⟨die, heq⟩ := s.sessionClose_eq
    refine ⟨fun hs => ?_, fun a ha hother => ?_, fun hs => ?_, fun b hb => ?_, fun g hg => ?_⟩
    · rw [setEnd_ends_self] at hs
      cases hs
    · rw [setEnd_ends_not] at hother
      rw [setEnd_ends_self] at ha ⊢
      cases ha
      rw [heq]
      exact h.opening s hs hother
    · rw [setEnd_ends_not] at hs ⊢
      exact h.unaccepted hs
    · rw [setEnd_ends_not] at hb
      rw [setEnd_ends_self]
      exact h.accepted b hb
    · rw [setEnd_ends_not] at hg
      exact h.accepting g hg
  | @send l₁ l₂ f hpending =>
    refine ⟨fun hs => ?_, fun a ha hother => .inr ?_, fun hs => ?_, fun b hb => ?_, fun g hg => ?_⟩
    · rw [setFrames_ends, setEnd_ends_self] at hs
      obtain ⟨-, -, hnil⟩ := h.unopened (Option.map_eq_none_iff.1 hs)
      rw [hpending] at hnil
      cases (List.append_eq_nil_iff.1 hnil).2
    · rw [setFrames_ends, setEnd_ends_not] at hother
      rw [setFrames_ends, setEnd_ends_self] at ha ⊢
      rw [setFrames_frames_self]
      obtain ⟨s, hs, rfl⟩ := Option.map_eq_some_iff.1 ha
      -- It is either this frame, the only one asked for, or was written before.
      rcases h.opening s hs hother with ⟨hframes, hsyn, -⟩ | ⟨fs, hframes, hfs⟩
      · rw [hsyn] at hpending
        rcases List.append_eq_singleton_iff.1 hpending.symm with ⟨rfl, hl⟩ | ⟨-, hl⟩
        · cases hl
          exact ⟨[], by rw [hframes]; rfl, fun g hg => absurd hg List.not_mem_nil⟩
        · cases hl
      · rw [hpending] at hfs
        exact ⟨fs ++ [f], by rw [hframes]; rfl, forall_sent hfs⟩
    · rw [setFrames_ends, setEnd_ends_not] at hs ⊢
      rw [setFrames_frames_not]
      exact h.unaccepted hs
    · rw [setFrames_ends, setEnd_ends_not] at hb
      rw [setFrames_ends, setEnd_ends_self, setFrames_frames_self]
      obtain ⟨hstatus, hearly, hfs⟩ := h.accepted b hb
      rw [hpending] at hfs
      exact ⟨hstatus, hearly, forall_sent hfs⟩
    · rw [setFrames_ends, setEnd_ends_not, setFrames_frames_not] at hg
      exact h.accepting g hg
  | @recv f fs hframes =>
    -- What sends to this end has accepted the stream before.
    have hsome : (l.ends !opener).stream ≠ none := fun hnone => by
      rw [(h.unaccepted hnone).1] at hframes
      cases hframes
    obtain ⟨b, hb⟩ := Option.ne_none_iff_exists'.1 hsome
    obtain ⟨hstatus, hearly, hfs⟩ := h.accepted b hb
    have ha : (l.ends opener).stream ≠ none := fun hnone => hsome (h.unopened hnone).1
    obtain ⟨a, ha⟩ := Option.ne_none_iff_exists'.1 ha
    refine ⟨fun hs => ?_, fun a _ hother => ?_, fun hs => ?_, fun b' hb' => ?_, fun g hg => ?_⟩
    · rw [setFrames_ends, setEnd_ends_self, ha] at hs
      rw [deliver] at hs
      split_ifs at hs
    · rw [setFrames_ends, setEnd_ends_not] at hother
      exact absurd hother hsome
    · rw [setFrames_ends, setEnd_ends_not] at hs
      exact absurd hs hsome
    · rw [setFrames_ends, setEnd_ends_not] at hb'
      rw [setFrames_ends, setEnd_ends_self, setFrames_not_frames]
      exact h.accepted b' hb'
    · rw [setFrames_ends, setEnd_ends_not, setFrames_frames_self] at hg
      refine h.accepting g ?_
      rw [hframes]
      exact List.mem_cons_of_mem _ hg

/-- A step of the end that accepts it. -/
theorem Opens.step_acceptor (h : l.Opens config sid opener) {e : LinkEvent}
    (hstep : l.Step config sid opener (!opener) e l') : l'.Opens config sid opener := by
  cases hstep with
  | openStream hopener => exact absurd hopener (by simp)
  | opened hs hopening => exact absurd hopening (h.accepted _ hs).1
  | @act s s' e f hs hopening hact =>
    obtain ⟨hsyn, hstatus, hearly⟩ := (Stream.acts_of_act hact).status
    refine ⟨fun hnone => ?_, fun a ha hother => ?_, fun hs => ?_, fun b hb => ?_, fun g hg => ?_⟩
    · rw [setEnd_not_ends] at hnone
      exact absurd (hs.symm.trans (h.unopened hnone).1) (Option.some_ne_none s)
    · rw [setEnd_ends_self] at hother
      cases hother
    · rw [setEnd_ends_self] at hs
      cases hs
    · rw [setEnd_ends_self] at hb
      rw [setEnd_not_ends]
      cases hb
      obtain ⟨hb, hbearly, hfs⟩ := h.accepted s hs
      exact ⟨hstatus hb, hearly.trans hbearly, hfs⟩
    · rw [setEnd_ends_self, setEnd_frames] at hg
      exact forall_asked h.accepting hsyn g hg
  | @sessionClose s hs =>
    obtain ⟨die, heq⟩ := s.sessionClose_eq
    refine ⟨fun hnone => ?_, fun a ha hother => ?_, fun hs => ?_, fun b hb => ?_, fun g hg => ?_⟩
    · rw [setEnd_not_ends] at hnone
      exact absurd (hs.symm.trans (h.unopened hnone).1) (Option.some_ne_none s)
    · rw [setEnd_ends_self] at hother
      cases hother
    · rw [setEnd_ends_self] at hs
      cases hs
    · rw [setEnd_ends_self, heq] at hb
      rw [setEnd_not_ends]
      cases hb
      exact h.accepted s hs
    · rw [setEnd_ends_self] at hg
      exact h.accepting g hg
  | @send l₁ l₂ f hpending =>
    refine ⟨fun hnone => ?_, fun a ha hother => ?_, fun hnone => ?_, fun b hb => ?_, fun g hg => ?_⟩
    · rw [setFrames_ends, setEnd_not_ends] at hnone ⊢
      obtain ⟨hother, hnil⟩ := h.unopened hnone
      rw [setEnd_ends_self, setFrames_not_frames, hother]
      exact ⟨rfl, hnil⟩
    · rw [setFrames_ends, setEnd_ends_self] at hother
      rw [setFrames_ends, setEnd_not_ends] at ha ⊢
      rw [setFrames_not_frames]
      exact h.opening a ha (Option.map_eq_none_iff.1 hother)
    · rw [setFrames_ends, setEnd_ends_self] at hnone
      have hnil := (h.unaccepted (Option.map_eq_none_iff.1 hnone)).2
      rw [hpending] at hnil
      cases (List.append_eq_nil_iff.1 hnil).2
    · rw [setFrames_ends, setEnd_ends_self] at hb
      rw [setFrames_ends, setEnd_not_ends, setFrames_not_frames]
      obtain ⟨s, hs, rfl⟩ := Option.map_eq_some_iff.1 hb
      obtain ⟨_, _, _, heq⟩ := Stream.wrote_eq (config !opener) s f
      rw [heq]
      exact h.accepted s hs
    · rw [setFrames_ends, setEnd_ends_self, setFrames_frames_self] at hg
      have haccepting := h.accepting
      rw [hpending] at haccepting
      exact forall_sent haccepting g hg
  | @recv f fs hframes =>
    rw [Bool.not_not] at hframes
    refine ⟨fun hnone => ?_, fun a ha hother => ?_, fun hnone => ?_, fun b hb => ?_, fun g hg => ?_⟩
    · rw [setFrames_ends, setEnd_not_ends] at hnone
      rw [(h.unopened hnone).2.1] at hframes
      cases hframes
    · rw [setFrames_ends, setEnd_ends_self] at hother
      -- what opened the stream would have made one
      cases hs : (l.ends !opener).stream with
      | none =>
        rw [setFrames_ends, setEnd_not_ends] at ha
        rcases h.opening a ha hs with ⟨hnil, -, -⟩ | ⟨fs', hfirst, -⟩
        · rw [hnil] at hframes
          cases hframes
        · rw [hfirst] at hframes
          cases hframes
          rw [hs] at hother
          cases hother
      | some b =>
        rw [hs, deliver] at hother
        split_ifs at hother
    · rw [setFrames_ends, setEnd_ends_self] at hnone ⊢
      rw [Bool.not_not, setFrames_frames_not]
      cases hs : (l.ends !opener).stream with
      | none => exact h.unaccepted hs
      | some b =>
        rw [hs, deliver] at hnone
        split_ifs at hnone
    · rw [setFrames_ends, setEnd_ends_self] at hb
      rw [Bool.not_not, setFrames_ends, setEnd_not_ends, setFrames_frames_self]
      cases hs : (l.ends !opener).stream with
      | none =>
        rw [hs, deliver] at hb
        split_ifs at hb with hsyn
        cases hb
        refine ⟨nofun, rfl, ?_⟩
        -- The frame that opens the stream comes once, so none is left behind it.
        cases ha : (l.ends opener).stream with
        | none =>
          rw [(h.unopened ha).2.1] at hframes
          cases hframes
        | some a =>
          rcases h.opening a ha hs with ⟨hnil, -, -⟩ | ⟨fs', hfirst, hfs⟩
          · rw [hnil] at hframes
            cases hframes
          · rw [hfirst] at hframes
            cases hframes
            exact hfs
      | some s =>
        obtain ⟨hstatus, hearly, hfs⟩ := h.accepted s hs
        rw [hframes] at hfs
        have hf : f.cmd ≠ .syn := hfs f List.mem_cons_self
        rw [hs, deliver, if_neg fun hsyn => hf hsyn.1] at hb
        cases hb
        obtain ⟨hstay, hkeep⟩ := s.receive_status f
        exact ⟨hstay ▸ hstatus, (hkeep hstatus).trans hearly, fun g hg => hfs g (List.mem_cons_of_mem _ hg)⟩
    · rw [setFrames_ends, setEnd_ends_self, Bool.not_not, setFrames_frames_not] at hg
      exact h.accepting g hg

theorem opens_init (hinit : (link config sid opener).init l) : l.Opens config sid opener := by
  have hstream (i : Bool) : (l.ends i).stream = none := by rw [(hinit i).1]
  have hpending (i : Bool) : (l.ends i).pending = [] := by rw [(hinit i).1]
  refine ⟨fun _ => ⟨hstream _, (hinit _).2, hpending _⟩, fun a ha => ?_, fun _ => ⟨(hinit _).2, hpending _⟩,
    fun b hb => ?_, fun f hf => ?_⟩
  · rw [hstream] at ha
    cases ha
  · rw [hstream] at hb
    cases hb
  · rw [(hinit _).2, hpending] at hf
    cases hf

theorem Opens.step (h : l.Opens config sid opener) {e : Bool × LinkEvent}
    (hstep : (link config sid opener).step l e l') : l'.Opens config sid opener := by
  obtain ⟨i, e⟩ := e
  rcases Bool.eq_or_eq_not i opener with rfl | rfl
  · exact h.step_opener hstep
  · exact h.step_acceptor hstep

theorem Opens.reach {C : Link → Prop} (h : (link config sid opener).Reach C l) :
    l.Opens config sid opener :=
  h.invariant (fun _ hinit _ => opens_init hinit) fun _ _ _ _ h hstep _ => h.step hstep

/-- An end that the stream is not known to has nothing of it. -/
theorem Opens.silent (h : l.Opens config sid opener) {i : Bool} (hnone : (l.ends i).stream = none) :
    l.frames i = [] ∧ (l.ends i).pending = [] := by
  rcases Bool.eq_or_eq_not i opener with rfl | rfl
  · exact (h.unopened hnone).2
  · exact h.unaccepted hnone

/-- An end that has asked for a frame knows the stream. -/
theorem Opens.exists_stream (h : l.Opens config sid opener) {i : Bool} {l₁ l₂ : List Frame} {f : Frame}
    (hpending : (l.ends i).pending = l₁ ++ f :: l₂) : ∃ s, (l.ends i).stream = some s := by
  refine Option.ne_none_iff_exists'.1 fun hnone => ?_
  have hnil := (h.silent hnone).2
  rw [hpending] at hnil
  cases (List.append_eq_nil_iff.1 hnil).2

/-- What arrives opens the stream, or finds it. -/
theorem Opens.deliver (h : l.Opens config sid opener) {i : Bool} {f : Frame} {fs : List Frame}
    (hframes : l.frames (!i) = f :: fs) :
    (l.ends i).stream = none ∧ (l.ends i).pending = [] ∧ l.frames i = [] ∧ f.cmd = .syn ∧
        deliver f (l.ends i).stream = some { status := .open } ∨
      ∃ s, (l.ends i).stream = some s ∧ Smux.deliver f (l.ends i).stream = some (s.receive f) := by
  rcases Bool.eq_or_eq_not i opener with rfl | rfl
  · cases hs : (l.ends i).stream with
    | none =>
      rw [(h.unaccepted (h.unopened hs).1).1] at hframes
      cases hframes
    | some s =>
      have hsyn := h.accepting f (by rw [hframes]; exact List.mem_cons_self)
      exact .inr ⟨s, rfl, if_neg fun hf => hsyn hf.1⟩
  · rw [Bool.not_not] at hframes
    cases hs : (l.ends !opener).stream with
    | none =>
      obtain ⟨hnil, hpending⟩ := h.unaccepted hs
      cases ha : (l.ends opener).stream with
      | none =>
        rw [(h.unopened ha).2.1] at hframes
        cases hframes
      | some a =>
        rcases h.opening a ha hs with ⟨hnone, -, -⟩ | ⟨fs', hfirst, -⟩
        · rw [hnone] at hframes
          cases hframes
        · rw [hfirst] at hframes
          cases hframes
          exact .inl ⟨rfl, hpending, hnil, rfl, rfl⟩
    | some b =>
      have hsyn := (h.accepted b hs).2.2 f (by rw [hframes]; exact List.mem_cons_self)
      exact .inr ⟨b, rfl, if_neg fun hf => hsyn hf.1⟩

end

end Link

end Gzv2ray.Smux
