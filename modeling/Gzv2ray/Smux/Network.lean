import Gzv2ray.Smux.Session

/-!
# Two smux sessions

A client and a server over a connection that carries bytes in order, each with all its streams. The
frames that the bytes are those of are recorded.

* `network`: the transition system;
* `Network.Sound`: the bytes on their way are those of frames that can be sent, in every run, so
  neither session finds a protocol error (`Network.Sound.reach`);
* `Network.refines`: seen from one stream, its runs are those of `link`. So what holds of a stream
  by itself holds of each stream of the sessions.
-/

namespace Gzv2ray.Smux

/-! ## Two sessions -/

/-- The client and the server, the bytes each of them wrote that have not arrived, and the frames
    that these are. -/
structure Network where
  sessions : Bool → Session
  wire : Bool → Bytes
  frames : Bool → List Frame

inductive NetworkEvent
  | act (e : SessionEvent)
  /-- The receiving loop goes round. -/
  | recv

namespace Network

variable (n : Network) (i : Bool)

/-- The session `i` goes on, having written a frame or not. -/
def act (s : Session) (f : Option Frame) : Network where
  sessions := Function.update n.sessions i s
  wire := Function.update n.wire i (n.wire i ++ (f.elim [] Frame.encode))
  frames := Function.update n.frames i (n.frames i ++ f.toList)

/-- The session `i` goes on with what is left to arrive. -/
def receive (s : Session) (rest : Bytes) : Network where
  sessions := Function.update n.sessions i s
  wire := Function.update n.wire (!i) rest
  frames := Function.update n.frames (!i)
    (if rest.length < (n.wire !i).length then (n.frames !i).tail else n.frames !i)

/-- What an event does at a session. -/
def step (e : Bool × NetworkEvent) : Option Network :=
  match e.2 with
  | .act a => ((n.sessions e.1).step a).map fun (s, f) => n.act e.1 s f
  | .recv => ((n.sessions e.1).recv (n.wire !e.1)).map fun (s, rest) => n.receive e.1 s rest

end Network

/-- The client, which is the session `true`, and the server at first. -/
def newNetwork (config : Bool → Config) : Network where
  sessions i := newSession (config i) i
  wire _ := []
  frames _ := []

/-- The runs of a client and a server. -/
def network (config : Bool → Config) : Lts Network (Bool × NetworkEvent) where
  init n := n = newNetwork config
  step n e n' := n.step e = some n'

namespace Network

variable {config : Bool → Config} {n n' : Network}

@[simp] theorem act_sessions_self (i : Bool) (s : Session) (f : Option Frame) :
    (n.act i s f).sessions i = s := Function.update_self ..

@[simp] theorem act_sessions_not (i : Bool) (s : Session) (f : Option Frame) :
    (n.act i s f).sessions (!i) = n.sessions !i := Function.update_of_ne (by simp) ..

@[simp] theorem act_wire_self (i : Bool) (s : Session) (f : Option Frame) :
    (n.act i s f).wire i = n.wire i ++ f.elim [] Frame.encode := Function.update_self ..

@[simp] theorem act_wire_not (i : Bool) (s : Session) (f : Option Frame) :
    (n.act i s f).wire (!i) = n.wire !i := Function.update_of_ne (by simp) ..

@[simp] theorem act_frames_self (i : Bool) (s : Session) (f : Option Frame) :
    (n.act i s f).frames i = n.frames i ++ f.toList := Function.update_self ..

@[simp] theorem act_frames_not (i : Bool) (s : Session) (f : Option Frame) :
    (n.act i s f).frames (!i) = n.frames !i := Function.update_of_ne (by simp) ..

@[simp] theorem receive_sessions_self (i : Bool) (s : Session) (rest : Bytes) :
    (n.receive i s rest).sessions i = s := Function.update_self ..

@[simp] theorem receive_sessions_not (i : Bool) (s : Session) (rest : Bytes) :
    (n.receive i s rest).sessions (!i) = n.sessions !i := Function.update_of_ne (by simp) ..

@[simp] theorem receive_wire_self (i : Bool) (s : Session) (rest : Bytes) :
    (n.receive i s rest).wire (!i) = rest := Function.update_self ..

@[simp] theorem receive_wire_not (i : Bool) (s : Session) (rest : Bytes) :
    (n.receive i s rest).wire i = n.wire i := Function.update_of_ne (by simp) ..

theorem receive_frames_self (i : Bool) (s : Session) (rest : Bytes) :
    (n.receive i s rest).frames (!i) =
      if rest.length < (n.wire !i).length then (n.frames !i).tail else n.frames !i :=
  Function.update_self ..

@[simp] theorem receive_frames_not (i : Bool) (s : Session) (rest : Bytes) :
    (n.receive i s rest).frames i = n.frames i := Function.update_of_ne (by simp) ..

/-! ## What is on its way -/

/-- Both sessions are sound, and the bytes on their way are those of frames that can be sent. -/
structure Sound (config : Bool → Config) (n : Network) : Prop where
  session : ∀ i, (n.sessions i).Sound (config i) i
  wire : ∀ i, n.wire i = (n.frames i).flatMap Frame.encode
  sendable : ∀ i, ∀ f ∈ n.frames i, Sendable (config i) i f
  accepted : ∀ i, (n.sessions i).protoError = false

/-- An end that takes no part in a step. -/
theorem forall_of_not {P : Bool → Prop} (i : Bool) (hself : P i) (hnot : P !i) : ∀ j, P j := by
  intro j
  rcases Bool.eq_or_eq_not j i with rfl | rfl
  · exact hself
  · exact hnot

theorem sound_new (config : Bool → Config) : (newNetwork config).Sound config :=
  ⟨fun i => Session.sound_new (config i) i, fun _ => rfl, fun _ _ hf => absurd hf List.not_mem_nil,
    fun _ => rfl⟩

theorem Sound.act (hconfig : ∀ i, (config i).Verified) (h : n.Sound config) {i : Bool} {a : SessionEvent}
    {s : Session} {f : Option Frame} (hstep : (n.sessions i).step a = some (s, f)) :
    (n.act i s f).Sound config := by
  have hsteps := Session.steps_of_step hstep
  obtain ⟨hsession, hsent⟩ := (h.session i).steps (hconfig i) hsteps
  refine ⟨forall_of_not i ?_ ?_, forall_of_not i ?_ ?_, forall_of_not i ?_ ?_, forall_of_not i ?_ ?_⟩
  · rw [act_sessions_self]
    exact hsession
  · rw [act_sessions_not]
    exact h.session !i
  · rw [act_wire_self, act_frames_self, List.flatMap_append, h.wire i]
    cases f with
    | none => rfl
    | some f => rw [Option.toList_some, List.flatMap_singleton]; rfl
  · rw [act_wire_not, act_frames_not]
    exact h.wire !i
  · intro g hg
    rw [act_frames_self] at hg
    rcases List.mem_append.1 hg with hg | hg
    · exact h.sendable i g hg
    · exact hsent g (Option.mem_toList.1 hg)
  · rw [act_frames_not]
    exact h.sendable !i
  · rw [act_sessions_self]
    exact hsteps.protoError.trans (h.accepted i)
  · rw [act_sessions_not]
    exact h.accepted !i

/-- A round of the receiving loop takes the frame that was sent first. -/
theorem Sound.recv_frame (hversion : ∀ i, (config i).version = (config !i).version) (h : n.Sound config)
    {i : Bool} {s : Session} {rest : Bytes} (hrecv : (n.sessions i).recv (n.wire !i) = some (s, rest)) :
    ∃ f fs, n.frames (!i) = f :: fs ∧ (n.sessions i).handle f = some s ∧
      (n.receive i s rest).frames (!i) = fs ∧ rest = fs.flatMap Frame.encode := by
  rw [Session.recv] at hrecv
  split_ifs at hrecv
  cases hframes : n.frames !i with
  | nil =>
    -- Nothing is on its way, so that there is no frame to read.
    rw [h.wire, hframes] at hrecv
    cases hrecv
  | cons f fs =>
    obtain ⟨hver, hformed, -⟩ := h.sendable (!i) f (by rw [hframes]; exact List.mem_cons_self)
    have hwire : n.wire (!i) = f.encode ++ fs.flatMap Frame.encode := by
      rw [h.wire, hframes, List.flatMap_cons]
    -- Both sessions have the same version, by which a frame is written and read.
    have hread : readFrame (Stream.version (n.sessions i).config) (n.wire !i) =
        .frame f (fs.flatMap Frame.encode) := by
      rw [hwire, (h.session i).settings, Stream.version, hversion i, ← Stream.version, ← hver,
        readFrame_encode hformed]
    rw [hread] at hrecv
    obtain ⟨s', hs', heq⟩ := Option.map_eq_some_iff.1 hrecv
    cases heq
    refine ⟨f, fs, rfl, hs', ?_, rfl⟩
    have hpos : 0 < f.encode.length := Nat.succ_pos _
    rw [receive_frames_self, hwire, hframes, if_pos (by rw [List.length_append]; omega)]
    rfl

theorem Sound.recv (hversion : ∀ i, (config i).version = (config !i).version) (h : n.Sound config)
    {i : Bool} {s : Session} {rest : Bytes} (hrecv : (n.sessions i).recv (n.wire !i) = some (s, rest)) :
    (n.receive i s rest).Sound config := by
  obtain ⟨f, fs, hframes, hhandle, hrest, rfl⟩ := h.recv_frame hversion hrecv
  have hmem : ∀ g ∈ fs, g ∈ n.frames !i := fun g hg => by
    rw [hframes]
    exact List.mem_cons_of_mem _ hg
  have hsendable := h.sendable (!i) f (by rw [hframes]; exact List.mem_cons_self)
  refine ⟨forall_of_not i ?_ ?_, forall_of_not i ?_ ?_, forall_of_not i ?_ ?_, forall_of_not i ?_ ?_⟩
  · rw [receive_sessions_self]
    exact (h.session i).handle hsendable.2.2 hhandle
  · rw [receive_sessions_not]
    exact h.session !i
  · rw [receive_wire_not, receive_frames_not]
    exact h.wire i
  · rw [receive_wire_self, hrest]
  · rw [receive_frames_not]
    exact h.sendable i
  · rw [hrest]
    exact fun g hg => h.sendable (!i) g (hmem g hg)
  · rw [receive_sessions_self, (Session.handle_cases hhandle).1]
    exact h.accepted i
  · rw [receive_sessions_not]
    exact h.accepted !i

/-- A step is one of the programs and the sending loop of a session, or one of its receiving loop. -/
theorem step_cases {e : Bool × NetworkEvent} (h : n.step e = some n') :
    (∃ a s f, (n.sessions e.1).step a = some (s, f) ∧ n' = n.act e.1 s f) ∨
      ∃ s rest, (n.sessions e.1).recv (n.wire !e.1) = some (s, rest) ∧ n' = n.receive e.1 s rest := by
  rw [Network.step] at h
  split at h
  · obtain ⟨⟨s, f⟩, hs, rfl⟩ := Option.map_eq_some_iff.1 h
    exact .inl ⟨_, s, f, hs, rfl⟩
  · obtain ⟨⟨s, rest⟩, hs, rfl⟩ := Option.map_eq_some_iff.1 h
    exact .inr ⟨s, rest, hs, rfl⟩

theorem Sound.step (hconfig : ∀ i, (config i).Verified)
    (hversion : ∀ i, (config i).version = (config !i).version) (h : n.Sound config)
    {e : Bool × NetworkEvent} (hstep : (network config).step n e n') : n'.Sound config := by
  rcases step_cases hstep with ⟨a, s, f, hact, rfl⟩ | ⟨s, rest, hrecv, rfl⟩
  · exact h.act hconfig hact
  · exact h.recv hversion hrecv

/-- In every run. -/
theorem Sound.reach (hconfig : ∀ i, (config i).Verified)
    (hversion : ∀ i, (config i).version = (config !i).version) {C : Network → Prop}
    (h : (network config).Reach C n) : n.Sound config :=
  h.invariant (fun _ hinit _ => hinit ▸ sound_new config) fun _ _ _ _ h hstep _ => h.step hconfig hversion hstep

end Network

/-! ## One stream of many -/

/-- A frame is about a stream. -/
def Frame.About (sid : UInt32) (f : Frame) : Prop := f.sid = sid ∧ f.cmd ≠ .nop

instance (sid : UInt32) (f : Frame) : Decidable (f.About sid) := inferInstanceAs (Decidable (_ ∧ _))

theorem filter_about {sid : UInt32} {f : Frame} (hf : f.About sid) (l : List Frame) :
    (f :: l).filter (·.About sid) = f :: l.filter (·.About sid) :=
  List.filter_cons_of_pos (decide_eq_true hf)

theorem filter_not_about {sid : UInt32} {f : Frame} (hf : ¬ f.About sid) (l : List Frame) :
    (f :: l).filter (·.About sid) = l.filter (·.About sid) :=
  List.filter_cons_of_neg (by simpa using hf)

/-- What a session has of a stream. -/
def Session.linkEnd (s : Session) (sid : UInt32) : LinkEnd where
  stream := s.streams sid
  pending := (s.pending.map Request.frame).filter (·.About sid)

/-- What the two sessions have of a stream. -/
def Network.link (n : Network) (sid : UInt32) : Link where
  ends i := (n.sessions i).linkEnd sid
  frames i := (n.frames i).filter (·.About sid)

namespace Session

variable {config : Bool → Config} {sid : UInt32} {i : Bool} {s s' : Session} {f : Option Frame}

/-- What a session has of a stream, if it has asked for more. -/
theorem linkEnd_append {r : List Request} (hpending : s'.pending = s.pending ++ r) :
    s'.linkEnd sid = {
      stream := s'.streams sid
      pending := (s.linkEnd sid).pending ++ (r.map Request.frame).filter (·.About sid) } := by
  rw [linkEnd, linkEnd, hpending, List.map_append, List.filter_append]

/-- It is as before where what was asked for is about another, and so is what else was changed. -/
theorem linkEnd_eq {r : List Request} (hpending : s'.pending = s.pending ++ r)
    (hr : ∀ q ∈ r, ¬ q.frame.About sid) (hstream : s'.streams sid = s.streams sid) :
    s'.linkEnd sid = s.linkEnd sid := by
  rw [linkEnd_append hpending, hstream, List.filter_eq_nil_iff.2, List.append_nil]
  · rfl
  · intro g hg
    obtain ⟨q, hq, rfl⟩ := List.mem_map.1 hg
    simpa using hr q hq

/-- An event of a stream asks for frames of it. -/
theorem Stream.Acts.about {config : Config} {s s' : Stream} {f : Option Frame}
    (h : s.Acts config sid s' f) : ∀ g ∈ f, g.About sid := by
  intro g hg
  cases h <;> cases hg
  all_goals exact ⟨rfl, nofun⟩

/-- A step that writes nothing. -/
theorem link_of_quiet {l : Link} {e : LinkEnd} {a : LinkEvent}
    (hstep : l.Step config sid (opener sid) i a (l.setEnd i e)) (he : s'.linkEnd sid = e) :
    ∃ a, l.Step config sid (opener sid) i a
      ((l.setEnd i (s'.linkEnd sid)).setFrames i (l.frames i ++ [])) := by
  refine ⟨a, ?_⟩
  rw [he, List.append_nil, Link.setFrames, Link.setEnd_frames, Function.update_eq_self]
  exact hstep

/-- A step of a session, seen from a stream: it is one of the stream, or not seen. -/
theorem Steps.link {l : Link} (hl : l.ends i = s.linkEnd sid) (hsound : s.Sound (config i) i)
    (h : s.Steps s' f) :
    s'.linkEnd sid = s.linkEnd sid ∧ f.toList.filter (·.About sid) = [] ∨
      ∃ e, l.Step config sid (opener sid) i e
        ((l.setEnd i (s'.linkEnd sid)).setFrames i (l.frames i ++ f.toList.filter (·.About sid))) := by
  have hsettings := hsound.settings
  have hstream : (l.ends i).stream = s.streams sid := by rw [hl]; rfl
  cases h with
  | same => exact .inl ⟨rfl, rfl⟩
  | goAway => exact .inl ⟨rfl, rfl⟩
  | openStream hgoAway hover hfree =>
    -- It is the stream that gets the number, or another.
    by_cases hsid : sid = s.nextStreamID + 2
    · subst hsid
      have hopener : opener (s.nextStreamID + 2) = i :=
        (opener_add_two _).trans (hsound.parity hgoAway)
      refine .inr (link_of_quiet (.openStream hopener.symm (hstream.trans hfree)) ?_)
      have habout : (Link.synFrame config (s.nextStreamID + 2) i).About (s.nextStreamID + 2) :=
        ⟨rfl, nofun⟩
      rw [linkEnd_append rfl, hl, hsettings]
      congr 1
      · exact Function.update_self ..
      · exact congrArg _ (filter_about habout [])
    · refine .inl ⟨linkEnd_eq rfl (fun q hq => ?_) (Function.update_of_ne hsid ..), rfl⟩
      rw [List.mem_singleton.1 hq]
      exact fun h => hsid h.1.symm
  | opened sid' st hst hopening hasked =>
    by_cases hsid : sid = sid'
    · subst hsid
      refine .inr (link_of_quiet (.opened (hstream.trans hst) hopening fun f hf hsyn => hasked ?_) ?_)
      · rw [hl] at hf
        obtain ⟨hmem, habout⟩ := List.mem_filter.1 hf
        obtain ⟨r, hr, rfl⟩ := List.mem_map.1 hmem
        exact ⟨r, hr, hsyn, (of_decide_eq_true habout).1⟩
      · rw [linkEnd_append (List.append_nil _).symm, hl, List.map_nil, List.filter_nil, List.append_nil]
        congr 1
        exact Function.update_self ..
    · exact .inl ⟨linkEnd_eq (List.append_nil _).symm nofun (Function.update_of_ne hsid ..), rfl⟩
  | acceptStream => exact .inl ⟨rfl, rfl⟩
  | stream sid' e st st' g hst hopening hact =>
    have habout := Stream.Acts.about (Stream.acts_of_act hact)
    have hframes : (g.toList.map fun frame => ({ prio := priority st frame, frame } : Request)).map
        Request.frame = g.toList := by
      rw [List.map_map]
      exact List.map_id _
    by_cases hsid : sid = sid'
    · subst hsid
      rw [hsettings] at hact
      refine .inr (link_of_quiet (.act (hstream.trans hst) hopening hact) ?_)
      rw [linkEnd_append rfl, hl, hframes,
        List.filter_eq_self.2 fun g hg => decide_eq_true (habout g (Option.mem_toList.1 hg))]
      congr 1
      exact Function.update_self ..
    · refine .inl ⟨linkEnd_eq rfl (fun q hq => ?_) (Function.update_of_ne hsid ..), rfl⟩
      obtain ⟨frame, hframe, rfl⟩ := List.mem_map.1 hq
      exact fun h => hsid (h.1.symm.trans (habout frame (Option.mem_toList.1 hframe)).1)
  | close =>
    -- Closing the session closes all its streams at once, this one if it is known.
    cases hst : s.streams sid with
    | none =>
      refine .inl ⟨linkEnd_eq (List.append_nil _).symm nofun ?_, rfl⟩
      change (s.streams sid).map _ = s.streams sid
      rw [hst]
      rfl
    | some st =>
      refine .inr (link_of_quiet (.sessionClose (hstream.trans hst)) ?_)
      rw [linkEnd_append (List.append_nil _).symm, hl, List.map_nil, List.filter_nil, List.append_nil]
      congr 1
      change (s.streams sid).map _ = some st.sessionClose
      rw [hst]
      rfl
  | keepalive =>
    refine .inl ⟨linkEnd_eq rfl (fun q hq => ?_) rfl, rfl⟩
    rw [List.mem_singleton.1 hq]
    exact fun h => h.2 rfl
  | nop l₁ l₂ r hpending hnop =>
    have hr : ¬ r.frame.About sid := fun h => h.2 hnop
    refine .inl ⟨?_, filter_not_about hr []⟩
    rw [linkEnd, linkEnd, hpending, List.map_append, List.map_append, List.map_cons, List.filter_append,
      List.filter_append, filter_not_about hr]
  | send l₁ l₂ r hpending hnop =>
    by_cases hsid : r.frame.sid = sid
    · subst hsid
      have hr : r.frame.About r.frame.sid := ⟨rfl, hnop⟩
      -- Of the frames in front of it, those of other streams are not seen.
      refine .inr ⟨.send ((l₁.map Request.frame).filter (·.About r.frame.sid)).length, ?_⟩
      have hsplit : (l.ends i).pending = (l₁.map Request.frame).filter (·.About r.frame.sid) ++
          r.frame :: (l₂.map Request.frame).filter (·.About r.frame.sid) := by
        rw [hl, linkEnd, hpending, List.map_append, List.map_cons, List.filter_append, filter_about hr]
      rw [linkEnd, List.map_append, List.filter_append, Option.toList_some, filter_about hr]
      change l.Step config r.frame.sid (opener r.frame.sid) i _ ((l.setEnd i {
        stream := Function.update s.streams r.frame.sid _ r.frame.sid, pending := _ }).setFrames i _)
      rw [Function.update_self, ← hstream, hsettings]
      exact .send hsplit
    · have hr : ¬ r.frame.About sid := fun h => hsid h.1
      refine .inl ⟨?_, filter_not_about hr []⟩
      have hkeep : Function.update s.streams r.frame.sid
          ((s.streams r.frame.sid).map fun st => st.wrote s.config r.frame) sid = s.streams sid :=
        Function.update_of_ne (fun h => hsid h.symm) ..
      rw [linkEnd, linkEnd, hpending, List.map_append, List.map_append, List.map_cons, List.filter_append,
        List.filter_append, filter_not_about hr]
      congr 1

end Session

namespace Link

variable {l : Link} {i : Bool}

theorem set_self : (l.setEnd i (l.ends i)).setFrames i (l.frames i) = l := by
  rw [setEnd, setFrames, Function.update_eq_self, Function.update_eq_self]

theorem set_self' : (l.setEnd i (l.ends i)).setFrames (!i) (l.frames !i) = l := by
  rw [setEnd, setFrames, Function.update_eq_self, Function.update_eq_self]

end Link

namespace Network

variable {config : Bool → Config} {n n' : Network} {sid : UInt32} {i : Bool}

theorem act_link (s : Session) (f : Option Frame) : (n.act i s f).link sid =
    ((n.link sid).setEnd i (s.linkEnd sid)).setFrames i
      ((n.link sid).frames i ++ f.toList.filter (·.About sid)) := by
  refine congrArg₂ Link.mk (funext fun j => ?_) (funext fun j => ?_)
  · exact Function.apply_update (fun _ s => s.linkEnd sid) n.sessions i s j
  · refine (Function.apply_update (fun _ (fs : List Frame) => fs.filter (·.About sid)) n.frames i
      (n.frames i ++ f.toList) j).trans ?_
    rw [List.filter_append]
    rfl

theorem receive_link {s : Session} {rest : Bytes} : (n.receive i s rest).link sid =
    ((n.link sid).setEnd i (s.linkEnd sid)).setFrames (!i)
      (((n.receive i s rest).frames !i).filter (·.About sid)) := by
  refine congrArg₂ Link.mk (funext fun j => ?_) (funext fun j => ?_)
  · exact Function.apply_update (fun _ s => s.linkEnd sid) n.sessions i s j
  · rw [receive_frames_self]
    exact Function.apply_update (fun _ (fs : List Frame) => fs.filter (·.About sid)) n.frames (!i) _ j

/-- A step of the sessions, seen from a stream: it is one of the stream, or not seen. -/
theorem link_step (hversion : ∀ i, (config i).version = (config !i).version) (h : n.Sound config)
    {e : Bool × NetworkEvent} (hstep : (network config).step n e n') :
    n'.link sid = n.link sid ∨
      ∃ e, (Smux.link config sid (opener sid)).step (n.link sid) e (n'.link sid) := by
  obtain ⟨i, e⟩ := e
  rcases step_cases hstep with ⟨a, s, f, hact, rfl⟩ | ⟨s, rest, hrecv, rfl⟩
  · rw [act_link]
    rcases (Session.steps_of_step hact).link (l := n.link sid) rfl (h.session i) with ⟨hend, hnil⟩ | ⟨e, he⟩
    · refine .inl ?_
      rw [hend, hnil, List.append_nil]
      exact Link.set_self
    · exact .inr ⟨(i, e), he⟩
  · obtain ⟨f, fs, hframes, hhandle, hrest, -⟩ := h.recv_frame hversion hrecv
    obtain ⟨-, hformed, -⟩ := h.sendable (!i) f (by rw [hframes]; exact List.mem_cons_self)
    obtain ⟨heq, hcases⟩ := Session.handle_cases hhandle
    have hpending : s.pending = (n.sessions i).pending := by rw [heq]
    have hlink : (n.link sid).frames (!i) = (f :: fs).filter (·.About sid) := by rw [← hframes]; rfl
    rw [receive_link, hrest]
    rcases hcases with ⟨hnop | hempty, rfl⟩ | ⟨hnop, hstreams⟩
    · rw [filter_not_about fun hf => hf.2 hnop] at hlink
      rw [← hlink]
      exact .inl Link.set_self'
    · -- A frame of data that has none is dropped, but no session sends one.
      rw [Frame.WellFormed, hempty.1, hempty.2] at hformed
      exact absurd hformed.1 (Nat.lt_irrefl 0)
    · by_cases hsid : f.sid = sid
      · subst hsid
        rw [filter_about ⟨rfl, hnop⟩] at hlink
        have hend : s.linkEnd f.sid = { (n.link f.sid).ends i with
            stream := deliver f ((n.link f.sid).ends i).stream } := by
          rw [Session.linkEnd, hstreams, hpending, Function.update_self]
          rfl
        rw [hend]
        exact .inr ⟨(i, .recv), .recv hlink⟩
      · rw [filter_not_about fun hf => hsid hf.1] at hlink
        have hend : s.linkEnd sid = (n.link sid).ends i := by
          rw [Session.linkEnd, hstreams, hpending, Function.update_of_ne fun h => hsid h.symm]
          rfl
        rw [hend, ← hlink]
        exact .inl Link.set_self'

/-- What the runs of two sessions are, seen from one stream. -/
theorem refines (hconfig : ∀ i, (config i).Verified)
    (hversion : ∀ i, (config i).version = (config !i).version) {C : Link → Prop}
    (h : (network config).Reach (fun n => C (n.link sid)) n) :
    (Smux.link config sid (opener sid)).Reach C (n.link sid) := by
  have hinit : ∀ n, (network config).init n → (Smux.link config sid (opener sid)).init (n.link sid) := by
    rintro n rfl i
    exact ⟨rfl, rfl⟩
  exact h.refines hinit fun n e n' hreach => link_step hversion (Sound.reach hconfig hversion hreach)

/-- Two sessions of the same version never find a protocol error. What the reader of a stream was
    handed, behind what came before its own session knew the stream, was sent by the other end first,
    and nothing comes too early at the end that accepts it. A reader that finds nothing after the end
    of the stream was handed all the rest, unless the stream was closed in the middle of a write. -/
theorem stream_delivers (hconfig : ∀ i, (config i).Verified)
    (hversion : ∀ i, (config i).version = (config !i).version)
    (h : (network config).Reach (fun _ => True) n) (sid : UInt32) (i : Bool) :
    (n.sessions i).protoError = false ∧ ∀ b, (n.sessions !i).streams sid = some b →
      b.early ++ b.returned <+: sentBy ((n.sessions i).streams sid) ∧ (opener sid = i → b.early = []) ∧
        (b.status = .open → b.fin = true → b.buffers = [] →
          ∃ a, (n.sessions i).streams sid = some a ∧ (a.cut = false → b.early ++ b.returned = a.sent)) := by
  refine ⟨(Sound.reach hconfig hversion h).accepted i, fun b hb => ?_⟩
  have hlink := @refines config n sid hconfig hversion (fun _ => True) h
  obtain ⟨hsent, hearly, hend⟩ := Link.returned_isPrefix_sent hlink i hb
  exact ⟨hsent, fun hi => hearly hi.symm, hend⟩

/-- With the settings that a session has by default, the client opens a stream, writes two bytes and
    closes it, and the server reads them. -/
def closedEvents : List (Bool × NetworkEvent) :=
  [(true, .act .openStream), (true, .act (.send 0)), (true, .act (.opened 3)), (false, .recv),
    (false, .act .acceptStream), (true, .act (.stream 3 (.write [8, 9]))),
    (true, .act (.stream 3 .request)), (true, .act (.send 0)), (false, .recv),
    (false, .act (.stream 3 (.read 5))), (true, .act (.stream 3 .close)), (true, .act (.send 0)),
    (false, .recv)]

theorem stream_delivers_closed : ∃ n b, Lts.run Network.step (newNetwork fun _ => defaultConfig)
      closedEvents = some n ∧ (n.sessions false).streams 3 = some b ∧ b.fin = true ∧ b.returned = [8, 9] ∧
      b.early ++ b.returned <+: sentBy ((n.sessions true).streams 3) := by
  have hreach {n : Network} (h : Lts.run Network.step (newNetwork fun _ => defaultConfig)
      closedEvents = some n) : (network fun _ => defaultConfig).Reach (fun _ => True) n :=
    Lts.Reach.of_run (fun _ _ _ h => h) rfl (fun _ _ => trivial) h
  exact ⟨_, _, rfl, rfl, rfl, rfl, ((stream_delivers (fun _ => defaultConfig_verified) (fun _ => rfl)
    (hreach rfl) 3 true).2 _ rfl).1⟩

section

instance (l : Link) : Decidable l.Short :=
  decidable_of_iff (∀ i, (l.streamAt i).writing.all (·.rest.length < 2 ^ 31)) <|
    forall_congr' fun _ => (Option.all_eq_true _ _).trans <| forall₂_congr fun _ _ => decide_eq_true_iff

instance (l : Link) : Decidable l.Numbered := inferInstanceAs (Decidable (_ ∧ _))

/-- The settings with the smallest buffers. -/
def tightConfig (_ : Bool) : Config := { version := 2, maxStreamBuffer := 1 }

theorem tightConfig_verified (i : Bool) : (tightConfig i).Verified := Config.verified_of_verifyConfig rfl

/-- The server reads the first byte of a stream and tells the client, whose next write then waits
    after its first byte. -/
def waitingEvents : List (Bool × NetworkEvent) :=
  [(true, .act .openStream), (true, .act (.send 0)), (true, .act (.opened 3)), (false, .recv),
    (false, .act .acceptStream), (true, .act (.stream 3 (.write [7]))), (true, .act (.stream 3 .round)),
    (true, .act (.stream 3 .request)), (true, .act (.send 0)), (false, .recv),
    (false, .act (.stream 3 (.read 1))), (false, .act (.stream 3 .returnTokens)),
    (false, .act (.stream 3 .notify)), (false, .act (.send 0)), (true, .recv),
    (true, .act (.stream 3 (.write [8, 9]))), (true, .act (.stream 3 .round)),
    (true, .act (.stream 3 .request)), (true, .act (.send 0)), (true, .act (.stream 3 .wake)),
    (true, .act (.stream 3 .round))]

theorem waiting_reach {n : Network}
    (h : Lts.run Network.step (newNetwork tightConfig) waitingEvents = some n) :
    (network tightConfig).Reach (fun n => (n.link 3).Numbered) n :=
  Lts.Reach.of_run (fun _ _ _ h => h) rfl (by decide +kernel) h

variable (hconfig : ∀ i, (config i).Verified) (hversion : ∀ i, (config i).version = 2)
include hconfig hversion

end

end Network

end Gzv2ray.Smux
