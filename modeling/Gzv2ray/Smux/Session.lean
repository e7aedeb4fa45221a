import Gzv2ray.Smux.Waiting

/-!
# smux sessions

One end of a connection with all its streams.

* `Session.step`, `Session.recv`: what the programs, the sending loop and the receiving loop of a
  session do;
* `Session.Sound`: what a session asks for can be sent, and the streams it opens have numbers that are
  not in use. Every step keeps it (`Session.Sound.steps`), and so does what the other end sends
  (`Session.Sound.handle`).

A program has one read and one write of a stream under way at a time, and sets no deadlines. A session
that was closed may finish what it has begun.
-/

namespace Gzv2ray.Smux

/-- A frame that is asked for. -/
structure Request where
  prio : ℕ
  frame : Frame

def int32 (x : ℤ) : ℤ := x.bmod (2 ^ 32)

/-- The number of streams that wait to be accepted. -/
def defaultAcceptBacklog : ℕ := 1024

structure Session where
  config : Config
  nextStreamID : UInt32
  bucket : ℤ
  streams : UInt32 → Option Stream := fun _ => none
  /-- The streams that wait to be accepted. -/
  accepts : List UInt32 := []
  pending : List Request := []
  /-- The numbers of the streams are used up. -/
  goAway : Bool := false
  closed : Bool := false
  /-- The peer has broken the protocol. -/
  protoError : Bool := false

def newSession (config : Config) (client : Bool) : Session where
  config
  nextStreamID := if client then 1 else 0
  bucket := int32 config.maxReceiveBuffer

/-- What happens at a session, but for what arrives. -/
inductive SessionEvent
  | openStream
  /-- The stream is put into the table, as the frame that opens it was written. -/
  | opened (sid : UInt32)
  | acceptStream
  | stream (sid : UInt32) (e : StreamEvent)
  | close
  | keepalive
  /-- The sending loop writes a frame. -/
  | send (k : ℕ)

namespace Session

variable (s : Session)

/-- The session with another stream. -/
def setStream (sid : UInt32) (st : Option Stream) : Session :=
  { s with streams := Function.update s.streams sid st }

/-- The tokens that an event of a stream gives back. -/
def refund (st : Stream) : StreamEvent → ℤ
  | .returnTokens => st.tokens
  | .streamClosed => st.unread.length
  | _ => 0

/-- The frames of data of a stream are written in their order, and the others come first. -/
def priority (st : Stream) (f : Frame) : ℕ := if f.cmd = .psh then st.numWritten.toNat else 0

/-- A frame with the number of a stream and a command is asked for. -/
def Asked (cmd : Cmd) (sid : UInt32) : Prop := ∃ r ∈ s.pending, r.frame.cmd = cmd ∧ r.frame.sid = sid

instance (cmd : Cmd) (sid : UInt32) : Decidable (s.Asked cmd sid) :=
  inferInstanceAs (Decidable (∃ r ∈ s.pending, _))

/-- What an event does, and the frame that is written. -/
def step : SessionEvent → Option (Session × Option Frame)
  | .openStream =>
    if s.closed ∨ s.goAway then some (s, none)
    else
      let sid := s.nextStreamID + 2
      if sid = sid % 2 then some ({ s with nextStreamID := sid, goAway := true }, none)
      -- a number of this end that the peer has opened a stream of is not covered
      else if s.streams sid ≠ none then none
      else
        let frame := { ver := Stream.version s.config, cmd := .syn, sid }
        some ({ s.setStream sid (some { status := .opening }) with
          nextStreamID := sid, pending := s.pending ++ [{ prio := 0, frame }] }, none)
  | .opened sid =>
    match s.streams sid with
    | some st =>
      if st.status = .opening ∧ ¬ s.Asked .syn sid ∧ ¬ s.closed then
        some (s.setStream sid (some { st with status := .open }), none)
      else none
    | none => none
  | .acceptStream =>
    match s.accepts with
    | [] => none
    | _ :: accepts => some ({ s with accepts }, none)
  | .stream sid e =>
    match s.streams sid with
    | some st =>
      if st.status = .opening ∨ sid ∈ s.accepts then none
      else if e = .streamClosed ∧ s.Asked .fin sid ∧ ¬ s.closed then none
      else
        match st.act s.config sid e with
        | some (st', f) => some ({ s.setStream sid (some st') with
            bucket := int32 (s.bucket + refund st e)
            pending := s.pending ++ f.toList.map fun frame => { prio := priority st frame, frame } }, none)
        | none => none
    | none => none
  | .close =>
    if s.closed then some (s, none)
    else some ({ s with closed := true, streams := fun sid => (s.streams sid).map Stream.sessionClose }, none)
  | .keepalive =>
    if s.closed ∨ s.config.keepAliveDisabled then none
    else some ({ s with
      pending := s.pending ++ [{ prio := 0, frame := { ver := Stream.version s.config, cmd := .nop, sid := 0 } }] },
      none)
  | .send k =>
    match s.pending[k]? with
    | some r =>
      if ∀ r' ∈ s.pending, r.prio ≤ r'.prio then
        let s' := { s with pending := s.pending.eraseIdx k }
        if r.frame.cmd = .nop then some (s', some r.frame)
        else some (s'.setStream r.frame.sid
          ((s.streams r.frame.sid).map fun st => st.wrote s.config r.frame), some r.frame)
      else none
    | none => none

/-- The tokens that a frame costs: those of its data, if the stream is in the table. -/
def charge (f : Frame) : ℤ :=
  if f.cmd = .psh ∧ (s.streams f.sid).any (·.status == .open) then f.data.length else 0

/-- What the receiving loop does with a frame. It waits where too many streams wait to be accepted. -/
def handle (f : Frame) : Option Session :=
  let s' := s.setStream f.sid (deliver f (s.streams f.sid))
  if f.cmd = .nop ∨ f.cmd = .psh ∧ f.data = [] then some s
  else if f.cmd ≠ .syn then some { s' with bucket := int32 (s.bucket - s.charge f) }
  else if (s.streams f.sid).any (·.status == .open) then some s
  -- a number that is used again while something of its last stream is under way is not covered
  else if (s.streams f.sid).all Stream.settled then
    if s.accepts.length < defaultAcceptBacklog then some { s' with accepts := s.accepts ++ [f.sid] }
    else if s.closed then some s'
    else none
  else none

/-- A round of the receiving loop, and the bytes left by it. -/
def recv (input : Bytes) : Option (Session × Bytes) :=
  if s.protoError ∨ ¬ s.closed ∧ s.bucket ≤ 0 then none
  else
    match readFrame (Stream.version s.config) input with
    | .blocked => none
    | .invalid => some ({ s with protoError := true }, input)
    | .frame f rest => (s.handle f).map fun s => (s, rest)

end Session

/-! ## Frames as they should be -/

/-- The end that opens the stream of a number. -/
def opener (sid : UInt32) : Bool := sid % 2 = 1

/-- A frame as an end sends it. -/
def Sendable (config : Config) (i : Bool) (f : Frame) : Prop :=
  f.ver = Stream.version config ∧ f.WellFormed ∧ (f.cmd = .syn → opener f.sid = i)

/-- What an event of a stream asks for can be sent. -/
theorem Stream.Acts.sendable {config : Config} {i : Bool} (hconfig : config.Verified) {sid : UInt32}
    {s s' : Stream} {f : Option Frame} (h : s.Acts config sid s' f) : ∀ g ∈ f, Sendable config i g := by
  intro g hg
  have hframe := hconfig.maxFrameSize
  cases h with
  | request chunk rest sz hw hne hsz =>
    cases hg
    refine ⟨rfl, ?_, nofun⟩
    have hpos : 0 < chunk.length := List.length_pos_iff.2 hne
    change 0 < (chunk.take sz).length ∧ (chunk.take sz).length ≤ 65535
    rw [List.length_take]
    omega
  | notify =>
    cases hg
    exact ⟨rfl, updFrame_wellFormed .., nofun⟩
  | close =>
    cases hg
    exact ⟨rfl, rfl, nofun⟩
  | _ => exact nomatch hg

/-! ## What a step can do -/

namespace Session

/-- The sessions that an event can lead to. -/
inductive Steps (s : Session) : Session → Option Frame → Prop
  | same : Steps s s none
  | goAway : s.goAway = false → s.nextStreamID + 2 = (s.nextStreamID + 2) % 2 →
      Steps s { s with nextStreamID := s.nextStreamID + 2, goAway := true } none
  | openStream : s.goAway = false → s.nextStreamID + 2 ≠ (s.nextStreamID + 2) % 2 →
      s.streams (s.nextStreamID + 2) = none →
      Steps s { s.setStream (s.nextStreamID + 2) (some { status := .opening }) with
        nextStreamID := s.nextStreamID + 2
        pending := s.pending ++ [{
          prio := 0
          frame := { ver := Stream.version s.config, cmd := .syn, sid := s.nextStreamID + 2 } }] } none
  | opened (sid : UInt32) (st : Stream) : s.streams sid = some st → st.status = .opening →
      ¬ s.Asked .syn sid → Steps s (s.setStream sid (some { st with status := .open })) none
  | acceptStream (accepts : List UInt32) : Steps s { s with accepts } none
  | stream (sid : UInt32) (e : StreamEvent) (st st' : Stream) (f : Option Frame) :
      s.streams sid = some st → st.status ≠ .opening → st.act s.config sid e = some (st', f) →
      Steps s { s.setStream sid (some st') with
        bucket := int32 (s.bucket + refund st e)
        pending := s.pending ++ f.toList.map fun frame => { prio := priority st frame, frame } } none
  | close : Steps s { s with
      closed := true, streams := fun sid => (s.streams sid).map Stream.sessionClose } none
  | keepalive : Steps s { s with pending := s.pending ++ [{
      prio := 0, frame := { ver := Stream.version s.config, cmd := .nop, sid := 0 } }] } none
  | nop (l₁ l₂ : List Request) (r : Request) : s.pending = l₁ ++ r :: l₂ → r.frame.cmd = .nop →
      Steps s { s with pending := l₁ ++ l₂ } (some r.frame)
  | send (l₁ l₂ : List Request) (r : Request) : s.pending = l₁ ++ r :: l₂ → r.frame.cmd ≠ .nop →
      Steps s { s.setStream r.frame.sid
        ((s.streams r.frame.sid).map fun st => st.wrote s.config r.frame) with pending := l₁ ++ l₂ }
        (some r.frame)

variable {s s' : Session} {f : Option Frame}

theorem steps_of_step {e : SessionEvent} (h : s.step e = some (s', f)) : s.Steps s' f := by
  cases e with
  | openStream =>
    rw [step] at h
    dsimp only at h
    split_ifs at h with hclosed hover hfree
    · cases h
      exact .same
    · cases h
      rw [not_or, Bool.not_eq_true, Bool.not_eq_true] at hclosed
      exact .goAway hclosed.2 hover
    · cases h
      rw [not_or, Bool.not_eq_true, Bool.not_eq_true] at hclosed
      exact .openStream hclosed.2 hover (not_not.1 hfree)
  | opened sid =>
    rw [step] at h
    split at h
    · rename_i st hst
      split_ifs at h with hopening
      cases h
      exact .opened sid st hst hopening.1 hopening.2.1
    · cases h
  | acceptStream =>
    rw [step] at h
    split at h
    · cases h
    · cases h
      exact .acceptStream _
  | stream sid e =>
    rw [step] at h
    split at h
    · rename_i st hst
      split_ifs at h with hopening hfin
      split at h
      · rename_i st' f hact
        cases h
        exact .stream sid e st st' f hst (fun h => hopening (.inl h)) hact
      · cases h
    · cases h
  | close =>
    rw [step] at h
    split_ifs at h
    · cases h
      exact .same
    · cases h
      exact .close
  | keepalive =>
    rw [step] at h
    split_ifs at h
    cases h
    exact .keepalive
  | send k =>
    rw [step] at h
    split at h
    · rename_i r hr
      obtain ⟨hlt, hget⟩ := List.getElem?_eq_some_iff.1 hr
      have hsplit : s.pending = s.pending.take k ++ r :: s.pending.drop (k + 1) := by
        rw [← hget, List.getElem_cons_drop, List.take_append_drop]
      rw [List.eraseIdx_eq_take_drop_succ] at h
      split_ifs at h with hprio hnop
      · cases h
        exact .nop _ _ r hsplit hnop
      · cases h
        exact .send _ _ r hsplit hnop
    · cases h

theorem Steps.protoError (h : s.Steps s' f) : s'.protoError = s.protoError := by
  cases h <;> rfl

end Session

/-! ## Runs in which the frames are as they should be -/

section

theorem opener_add_two (sid : UInt32) : opener (sid + 2) = opener sid := by
  have hsid := sid.toNat_lt
  rw [opener, opener, decide_eq_decide, ← UInt32.toNat_inj, ← UInt32.toNat_inj, UInt32.toNat_mod,
    UInt32.toNat_mod, UInt32.toNat_add]
  change (sid.toNat + 2) % 2 ^ 32 % 2 = 1 ↔ sid.toNat % 2 = 1
  omega

/-- A number that has not run over is the next one. -/
theorem lt_add_two {sid : UInt32} (h : sid + 2 ≠ (sid + 2) % 2) : sid < sid + 2 := by
  have hsid := sid.toNat_lt
  rw [ne_eq, ← UInt32.toNat_inj, UInt32.toNat_mod, UInt32.toNat_add] at h
  change ¬ (sid.toNat + 2) % 2 ^ 32 = (sid.toNat + 2) % 2 ^ 32 % 2 at h
  rw [UInt32.lt_iff_toNat_lt, UInt32.toNat_add]
  change sid.toNat < (sid.toNat + 2) % 2 ^ 32
  omega

end

namespace Session

/-- What a session has asked for can be sent, and it has given numbers of its own up to the last
    one. -/
structure Sound (config : Config) (i : Bool) (s : Session) : Prop where
  settings : s.config = config
  sendable : ∀ r ∈ s.pending, Sendable config i r.frame
  parity : s.goAway = false → opener s.nextStreamID = i
  numbers : s.goAway = false → ∀ sid, s.streams sid ≠ none → opener sid = i → sid ≤ s.nextStreamID

variable {config : Config} {i : Bool} {s s' : Session} {f : Option Frame}

theorem sound_new (config : Config) (i : Bool) : (newSession config i).Sound config i := by
  refine ⟨rfl, fun r hr => absurd hr List.not_mem_nil, fun _ => ?_, fun _ sid hne => absurd rfl hne⟩
  cases i <;> rfl

/-- Streams that are known stay known, and no other is. -/
theorem update_ne_none {sid sid' : UInt32} {st : Option Stream} (hst : st ≠ none → s.streams sid ≠ none)
    (h : Function.update s.streams sid st sid' ≠ none) : s.streams sid' ≠ none := by
  by_cases hsid : sid' = sid
  · subst hsid
    rw [Function.update_self] at h
    exact hst h
  · rwa [Function.update_of_ne hsid] at h

theorem Sound.steps (hconfig : config.Verified) (h : s.Sound config i) (hsteps : s.Steps s' f) :
    s'.Sound config i ∧ ∀ g ∈ f, Sendable config i g := by
  have hnone : ∀ g ∈ (none : Option Frame), Sendable config i g := fun g hg => nomatch hg
  have hversion : Stream.version s.config = Stream.version config := by rw [h.settings]
  have happend {r : Request} (hr : Sendable config i r.frame) :
      ∀ r' ∈ s.pending ++ [r], Sendable config i r'.frame := by
    intro r' hr'
    rcases List.mem_append.1 hr' with hr' | hr'
    · exact h.sendable r' hr'
    · rw [List.mem_singleton.1 hr']
      exact hr
  have hremove {l₁ l₂ : List Request} {r : Request} (hpending : s.pending = l₁ ++ r :: l₂) :
      (∀ r' ∈ l₁ ++ l₂, Sendable config i r'.frame) ∧ ∀ g ∈ some r.frame, Sendable config i g := by
    refine ⟨fun r' hr' => h.sendable r' ?_, fun g hg => ?_⟩
    · rw [hpending]
      simp only [List.mem_append, List.mem_cons] at hr' ⊢
      tauto
    · cases hg
      refine h.sendable r ?_
      rw [hpending]
      exact List.mem_append_right _ List.mem_cons_self
  cases hsteps with
  | same => exact ⟨h, hnone⟩
  | goAway => exact ⟨⟨h.settings, h.sendable, nofun, nofun⟩, hnone⟩
  | openStream hgoAway hover hfree =>
    have hparity := h.parity hgoAway
    have hnext : opener (s.nextStreamID + 2) = i := (opener_add_two _).trans hparity
    have hlt := lt_add_two hover
    refine ⟨⟨h.settings, happend ⟨hversion, rfl, fun _ => hnext⟩, fun _ => hnext, fun _ sid hne hsid => ?_⟩,
      hnone⟩
    -- The number is greater than all before it, as it has not wrapped around.
    by_cases heq : sid = s.nextStreamID + 2
    · rw [heq]
      exact UInt32.le_refl _
    · change Function.update s.streams (s.nextStreamID + 2) _ sid ≠ none at hne
      rw [Function.update_of_ne heq] at hne
      exact UInt32.le_trans (h.numbers hgoAway sid hne hsid) (UInt32.le_of_lt hlt)
  | opened sid st hst =>
    exact ⟨⟨h.settings, h.sendable, h.parity, fun hgoAway sid' hne => h.numbers hgoAway sid'
      (update_ne_none (fun _ => by rw [hst]; exact Option.some_ne_none st) hne)⟩, hnone⟩
  | acceptStream => exact ⟨⟨h.settings, h.sendable, h.parity, h.numbers⟩, hnone⟩
  | stream sid e st st' g hst _ hact =>
    refine ⟨⟨h.settings, fun r hr => ?_, h.parity, fun hgoAway sid' hne => h.numbers hgoAway sid'
      (update_ne_none (fun _ => by rw [hst]; exact Option.some_ne_none st) hne)⟩, hnone⟩
    rcases List.mem_append.1 hr with hr | hr
    · exact h.sendable r hr
    · obtain ⟨frame, hframe, rfl⟩ := List.mem_map.1 hr
      have hacts := Stream.acts_of_act hact
      rw [h.settings] at hacts
      exact hacts.sendable hconfig frame (Option.mem_toList.1 hframe)
  | close =>
    refine ⟨⟨h.settings, h.sendable, h.parity, fun hgoAway sid' hne => h.numbers hgoAway sid' fun hnone =>
      hne ?_⟩, hnone⟩
    change (s.streams sid').map _ = none
    rw [hnone]
    rfl
  | keepalive =>
    exact ⟨⟨h.settings, happend ⟨hversion, rfl, nofun⟩, h.parity, h.numbers⟩, hnone⟩
  | nop l₁ l₂ r hpending =>
    obtain ⟨hrest, hsent⟩ := hremove hpending
    exact ⟨⟨h.settings, hrest, h.parity, h.numbers⟩, hsent⟩
  | send l₁ l₂ r hpending =>
    obtain ⟨hrest, hsent⟩ := hremove hpending
    refine ⟨⟨h.settings, hrest, h.parity, fun hgoAway sid' hne => h.numbers hgoAway sid'
      (update_ne_none (fun hmap hnone => hmap ?_) hne)⟩, hsent⟩
    rw [hnone]
    rfl

/-- What the receiving loop does with a frame: it delivers it to its stream, or does nothing. -/
theorem handle_cases {g : Frame} (h : s.handle g = some s') :
    s' = { s with streams := s'.streams, bucket := s'.bucket, accepts := s'.accepts } ∧
      ((g.cmd = .nop ∨ g.cmd = .psh ∧ g.data = []) ∧ s' = s ∨
        g.cmd ≠ .nop ∧ s'.streams = Function.update s.streams g.sid (deliver g (s.streams g.sid))) := by
  rw [handle] at h
  split_ifs at h with hnop hsyn hopen hsettled hroom hclosed
  · cases h
    exact ⟨rfl, .inl ⟨hnop, rfl⟩⟩
  · cases h
    exact ⟨rfl, .inr ⟨fun hcmd => hnop (.inl hcmd), rfl⟩⟩
  · cases h
    refine ⟨rfl, .inr ⟨fun hcmd => hnop (.inl hcmd), ?_⟩⟩
    rw [Option.any_eq_true] at hopen
    obtain ⟨st, hst, hopen⟩ := hopen
    -- a stream that is there is left as it is
    have hclosed : ¬ (g.cmd = .syn ∧ st.status = .closed) := fun h => by
      rw [h.2] at hopen
      cases hopen
    have hdeliver : deliver g (s.streams g.sid) = s.streams g.sid := by
      rw [hst, deliver, if_neg hclosed, Stream.receive, not_not.1 hsyn]
    rw [hdeliver, Function.update_eq_self]
  · cases h
    exact ⟨rfl, .inr ⟨fun hcmd => hnop (.inl hcmd), rfl⟩⟩
  · cases h
    exact ⟨rfl, .inr ⟨fun hcmd => hnop (.inl hcmd), rfl⟩⟩

/-- What the other end sends opens no stream of a number of this end. -/
theorem Sound.handle (h : s.Sound config i) {g : Frame} (hg : g.cmd = .syn → opener g.sid = !i)
    (hhandle : s.handle g = some s') : s'.Sound config i := by
  obtain ⟨heq, hcases⟩ := handle_cases hhandle
  rcases hcases with ⟨-, rfl⟩ | ⟨-, hstreams⟩
  · exact h
  · rw [heq]
    refine ⟨h.settings, h.sendable, h.parity, fun hgoAway sid hne hsid => ?_⟩
    change s'.streams sid ≠ none at hne
    rw [hstreams] at hne
    by_cases hknown : s.streams sid = none
    · by_cases heq : sid = g.sid
      · subst heq
        rw [Function.update_self, hknown, deliver] at hne
        split_ifs at hne with hsyn
        · exact absurd (hsid.symm.trans (hg hsyn)) (by simp)
        · exact absurd rfl hne
      · rw [Function.update_of_ne heq] at hne
        exact absurd hknown hne
    · exact h.numbers hgoAway sid hknown hsid

end Session

end Gzv2ray.Smux
