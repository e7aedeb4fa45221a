import Gzv2ray.Smux.Link

/-!
# Delivery over a smux stream

What one end of a stream sent, and what the reader at the other end was handed.

* `LinkEnd.Outstanding`: a write and a read have one frame asked for at a time;
* `Link.Carries`: what was sent is what has arrived and what is on its way, in order;
* `Link.Ends`: where a stream is closed between two writes, nothing comes after its end;
* `Link.returned_isPrefix_sent`: so a reader is handed what was sent from some byte on, and all of it if
  it sees the end. The bytes before come while the end that opened the stream has not put it into
  its table yet.
-/

namespace Gzv2ray.Smux

/-! ## One frame at a time -/

/-- The sizes of the frames of data among those asked for. -/
def dataSizes (l : List Frame) : List ℕ := (l.filter (·.cmd = .psh)).map (·.data.length)

/-- The number of updates among them. -/
def updates (l : List Frame) : ℕ := l.countP (·.cmd = .upd)

@[simp] theorem dataSizes_append (l l' : List Frame) : dataSizes (l ++ l') = dataSizes l ++ dataSizes l' := by
  rw [dataSizes, List.filter_append, List.map_append]
  rfl

@[simp] theorem updates_append (l l' : List Frame) : updates (l ++ l') = updates l + updates l' :=
  List.countP_append

theorem dataSizes_cons_psh {f : Frame} (hf : f.cmd = .psh) (l : List Frame) :
    dataSizes (f :: l) = f.data.length :: dataSizes l := by
  rw [dataSizes, List.filter_cons_of_pos (by simpa using hf), List.map_cons]
  rfl

theorem dataSizes_cons_of_ne {f : Frame} (hf : f.cmd ≠ .psh) (l : List Frame) :
    dataSizes (f :: l) = dataSizes l := by
  rw [dataSizes, List.filter_cons_of_neg (by simpa using hf)]
  rfl

theorem updates_cons_upd {f : Frame} (hf : f.cmd = .upd) (l : List Frame) :
    updates (f :: l) = updates l + 1 := List.countP_cons_of_pos (by simpa using hf)

theorem updates_cons_of_ne {f : Frame} (hf : f.cmd ≠ .upd) (l : List Frame) :
    updates (f :: l) = updates l := List.countP_cons_of_neg (by simpa using hf)

/-- Without sizes there is no data. -/
theorem not_psh_of_dataSizes {l : List Frame} (h : dataSizes l = []) : ∀ f ∈ l, f.cmd ≠ .psh := by
  intro f hf hpsh
  rw [dataSizes, List.map_eq_nil_iff, List.filter_eq_nil_iff] at h
  exact h f hf (by simpa using hpsh)

/-- The frames asked for are the one that the write waits for, and the one that the read does. -/
structure Stream.Outstanding (s : Stream) (pending : List Frame) : Prop where
  psh : dataSizes pending = (s.writing.bind (·.requested)).toList
  upd : updates pending = s.updating.toNat
  notify : s.notifyConsumed ≠ 0 → s.updating = false

namespace Stream

variable {config : Config} {sid : UInt32} {s s' : Stream} {pending : List Frame}

theorem idle_iff : s.idle = true ↔ s.tokens = 0 ∧ s.notifyConsumed = 0 ∧ s.updating = false := by
  rw [idle, Bool.and_eq_true, Bool.and_eq_true, beq_iff_eq, beq_iff_eq, Bool.not_eq_true', and_assoc]

theorem Outstanding.act {f : Option Frame} (h : s.Outstanding pending) (hacts : s.Acts config sid s' f) :
    s'.Outstanding (pending ++ f.toList) := by
  have hsame (hwriting : s'.writing.bind (·.requested) = s.writing.bind (·.requested))
      (hupdating : s'.updating = s.updating) (hnotify : s'.notifyConsumed ≠ 0 → s.updating = false) :
      s'.Outstanding (pending ++ (none : Option Frame).toList) := by
    rw [Option.toList_none, List.append_nil]
    exact ⟨hwriting ▸ h.psh, hupdating ▸ h.upd, hupdating ▸ hnotify⟩
  cases hacts with
  | refused => exact hsame rfl rfl h.notify
  | write w hnone _ hrequested =>
    refine hsame ?_ rfl h.notify
    rw [hnone]
    exact hrequested
  | consumed b hw | cutAll b hw | cut b hw | wait b hw =>
    refine hsame ?_ rfl h.notify
    rw [hw]
    rfl
  | wake chunk rest hw | giveUp chunk rest hw =>
    refine hsame ?_ rfl h.notify
    rw [hw]
    rfl
  | request chunk rest sz hw _ hsz =>
    have hpsh := h.psh
    rw [hw] at hpsh
    refine ⟨?_, ?_, h.notify⟩
    · rw [dataSizes_append, hpsh, Option.toList_some, dataSizes_cons_psh rfl, List.length_take,
        show min sz chunk.length = sz by omega]
      rfl
    · rw [updates_append, h.upd, Option.toList_some, updates_cons_of_ne (show Cmd.psh ≠ .upd from nofun)]
      rfl
  | read out buffers _ hidle =>
    have hupdating := (idle_iff.1 hidle).2.2
    obtain ⟨_, _, _, heq⟩ := consume_eq config s out buffers
    exact hsame (by rw [heq]) (by rw [heq]) fun _ => hupdating
  | tryRead _ hidle =>
    have hupdating := (idle_iff.1 hidle).2.2
    obtain ⟨_, _, _, heq⟩ := consume_eq config s [] []
    exact hsame (by rw [heq]) (by rw [heq]) fun _ => hupdating
  | returnTokens | streamClosed => exact hsame rfl rfl h.notify
  | notify hpos =>
    have hupdating := h.notify (fun h => by rw [h] at hpos; exact absurd hpos (by decide))
    refine ⟨?_, ?_, fun h => absurd rfl h⟩
    · rw [dataSizes_append, Option.toList_some, dataSizes_cons_of_ne (show Cmd.upd ≠ .psh from nofun), h.psh]
      exact List.append_nil _
    · rw [updates_append, h.upd, hupdating, Option.toList_some, updates_cons_upd rfl]
      rfl
  | close =>
    refine ⟨?_, ?_, h.notify⟩
    · rw [dataSizes_append, Option.toList_some, dataSizes_cons_of_ne (show Cmd.fin ≠ .psh from nofun), h.psh]
      exact List.append_nil _
    · rw [updates_append, h.upd, Option.toList_some, updates_cons_of_ne (show Cmd.fin ≠ .upd from nofun)]
      rfl

/-- What is written goes, and the operation that waited for it has nothing asked for. -/
theorem Outstanding.wrote {l₁ l₂ : List Frame} {f : Frame} (h : s.Outstanding (l₁ ++ f :: l₂)) :
    (s.wrote config f).Outstanding (l₁ ++ l₂) ∧
      (f.cmd = .psh → dataSizes l₁ = [] ∧ dataSizes l₂ = [] ∧ ∃ w, s.writing = some w ∧
        w.requested = some f.data.length) := by
  have hpsh := h.psh
  have hupd := h.upd
  rw [dataSizes_append] at hpsh
  rw [updates_append] at hupd
  by_cases hf : f.cmd = .psh
  · rw [dataSizes_cons_psh hf] at hpsh
    rw [updates_cons_of_ne (by rw [hf]; exact nofun), ← updates_append] at hupd
    cases hw : s.writing with
    | none =>
      rw [hw] at hpsh
      cases (List.append_eq_nil_iff.1 hpsh).2
    | some w =>
      rw [hw] at hpsh
      change _ = w.requested.toList at hpsh
      cases hrequested : w.requested with
      | none =>
        rw [hrequested] at hpsh
        cases (List.append_eq_nil_iff.1 hpsh).2
      | some sz =>
        rw [hrequested] at hpsh
        rcases List.append_eq_singleton_iff.1 hpsh with ⟨hl₁, hl₂⟩ | ⟨-, hl₂⟩
        · rw [List.cons.injEq] at hl₂
          obtain ⟨rfl, hl₂⟩ := hl₂
          refine ⟨⟨?_, ?_, ?_⟩, fun _ => ⟨hl₁, hl₂, w, rfl, hrequested⟩⟩
          · rw [dataSizes_append, hl₁, hl₂, Stream.wrote, hf]
            dsimp only
            rw [hw]
            dsimp only
            rw [next]
            split_ifs <;> rfl
          · rw [hupd, Stream.wrote, hf]
            dsimp only
            rw [hw]
          · rw [Stream.wrote, hf]
            dsimp only
            rw [hw]
            exact h.notify
        · cases hl₂
  · rw [dataSizes_cons_of_ne hf, ← dataSizes_append] at hpsh
    refine ⟨?_, fun h => absurd h hf⟩
    by_cases hf' : f.cmd = .upd
    · rw [updates_cons_upd hf'] at hupd
      rw [Stream.wrote, hf']
      refine ⟨hpsh, ?_, fun _ => rfl⟩
      rw [updates_append]
      cases hu : s.updating with
      | false =>
        rw [hu] at hupd
        cases hupd
      | true =>
        rw [hu] at hupd
        exact Nat.succ.inj hupd
    · rw [updates_cons_of_ne hf', ← updates_append] at hupd
      have hsame : s.wrote config f = s := by
        rw [Stream.wrote]
        split
        · exact absurd ‹_› hf
        · exact absurd ‹_› hf'
        · rfl
      rw [hsame]
      exact ⟨hpsh, hupd, h.notify⟩

theorem Outstanding.receive (h : s.Outstanding pending) (f : Frame) : (s.receive f).Outstanding pending := by
  obtain ⟨_, _, _, _, _, _, _, _, heq⟩ := s.receive_eq f
  rw [heq]
  exact ⟨h.psh, h.upd, h.notify⟩

end Stream

/-! ## Order -/

/-- What has arrived at an end, whether it was in the table or not. -/
def arrived : Option Stream → Bytes
  | none => []
  | some s => s.early ++ s.received ++ s.late

/-- What an end has sent. -/
def sentBy (s : Option Stream) : Bytes := s.elim [] (·.sent)

namespace Stream

variable {config : Config} {sid : UInt32} {s s' : Stream} {f : Option Frame}

/-- What an event does to what was sent and to what has arrived. -/
theorem Acts.sent (h : s.Acts config sid s' f) :
    s'.sent = s.sent ++ dataOf f.toList ∧ arrived (some s') = arrived (some s) := by
  cases h with
  | read out buffers =>
    obtain ⟨_, _, _, heq⟩ := consume_eq config s out buffers
    rw [heq]
    exact ⟨(List.append_nil _).symm, rfl⟩
  | tryRead =>
    obtain ⟨_, _, _, heq⟩ := consume_eq config s [] []
    rw [heq]
    exact ⟨(List.append_nil _).symm, rfl⟩
  | request chunk rest sz =>
    refine ⟨?_, rfl⟩
    rw [Option.toList_some, dataOf_singleton]
    rfl
  | _ => exact ⟨(List.append_nil _).symm, rfl⟩

/-- The data of a frame comes behind what has arrived. -/
theorem Account.arrived_receive (h : s.Account) (g : Frame) :
    arrived (some (s.receive g)) = arrived (some s) ++ g.payload := by
  have hnil {b : Bytes} (hg : g.cmd ≠ .psh) : b = b ++ g.payload := by
    rw [Frame.payload, if_neg hg, List.append_nil]
  cases hcmd : g.cmd with
  | psh =>
    rw [Stream.receive, hcmd, Frame.payload, if_pos hcmd]
    dsimp only
    cases hs : s.status with
    | opening =>
      have hlate := (h.kept (by rw [hs]; decide)).2
      change s.early ++ g.data ++ s.received ++ s.late = s.early ++ s.received ++ s.late ++ g.data
      rw [h.opening hs, hlate]
      simp only [List.append_nil]
    | «open» =>
      have hlate := (h.kept (by rw [hs]; decide)).2
      change s.early ++ (s.received ++ g.data) ++ s.late = s.early ++ s.received ++ s.late ++ g.data
      rw [hlate]
      simp only [List.append_nil, List.append_assoc]
    | closed =>
      change s.early ++ s.received ++ (s.late ++ g.data) = s.early ++ s.received ++ s.late ++ g.data
      simp only [List.append_assoc]
  | fin | upd =>
    have hne : g.cmd ≠ .psh := by rw [hcmd]; decide
    rw [← hnil hne, Stream.receive, hcmd]
    dsimp only
    split_ifs <;> rfl
  | syn | nop =>
    have hne : g.cmd ≠ .psh := by rw [hcmd]; decide
    rw [← hnil hne, Stream.receive, hcmd]

/-- What arrives changes nothing of what is written. -/
theorem receive_writes (s : Stream) (g : Frame) : (s.receive g).sent = s.sent ∧
    (s.receive g).cut = s.cut ∧ (s.receive g).die = s.die ∧ (s.receive g).writing = s.writing := by
  obtain ⟨_, _, _, _, _, _, _, _, heq⟩ := s.receive_eq g
  rw [heq]
  exact ⟨rfl, rfl, rfl, rfl⟩

end Stream

namespace Link

variable {config : Bool → Config} {sid : UInt32} {opener : Bool} {l l' : Link}

/-- What each end sent is what has arrived at the other, and behind it what is on its way. -/
structure Carries (config : Bool → Config) (sid : UInt32) (opener : Bool) (l : Link) : Prop where
  opens : l.Opens config sid opener
  account : ∀ i s, (l.ends i).stream = some s → s.Account
  outstanding : ∀ i s, (l.ends i).stream = some s → s.Outstanding (l.ends i).pending
  sent : ∀ i, sentBy (l.ends i).stream =
    arrived (l.ends !i).stream ++ dataOf (l.frames i) ++ dataOf (l.ends i).pending

theorem carries_init (hinit : (link config sid opener).init l) : l.Carries config sid opener := by
  have hnone {P : Prop} (i : Bool) (s : Stream) (hs : (l.ends i).stream = some s) : P := by
    rw [(hinit i).1] at hs
    cases hs
  refine ⟨opens_init hinit, fun i s => hnone i s, fun i s => hnone i s, fun i => ?_⟩
  rw [(hinit i).1, (hinit !i).1, (hinit i).2]
  rfl

/-- A step keeps it, if it keeps what is known of the end that takes it, of what that end sent and
    of what has arrived there. -/
theorem Carries.of_step (h : l.Carries config sid opener) {j : Bool} {e : LinkEvent}
    (hstep : (link config sid opener).step l (j, e) l') (hother : l'.ends (!j) = l.ends !j)
    (hend : ∀ s', (l'.ends j).stream = some s' → s'.Account ∧ s'.Outstanding (l'.ends j).pending)
    (hsent : sentBy (l'.ends j).stream =
      arrived (l.ends !j).stream ++ dataOf (l'.frames j) ++ dataOf (l'.ends j).pending)
    (harrived : arrived (l'.ends j).stream ++ dataOf (l'.frames !j) =
      arrived (l.ends j).stream ++ dataOf (l.frames !j)) : l'.Carries config sid opener := by
  refine ⟨h.opens.step hstep, fun i s hs => ?_, fun i s hs => ?_, fun i => ?_⟩
  all_goals rcases Bool.eq_or_eq_not i j with rfl | rfl
  · exact (hend s hs).1
  · rw [hother] at hs
    exact h.account _ s hs
  · exact (hend s hs).2
  · rw [hother] at hs ⊢
    exact h.outstanding _ s hs
  · rw [hother]
    exact hsent
  · have hbefore := h.sent !j
    rw [Bool.not_not] at hbefore ⊢
    rw [hother, harrived, hbefore]

/-- No data was asked for before data that is still to be written. -/
theorem Carries.dataOf_eq_nil (h : l.Carries config sid opener) {i : Bool} {l₁ l₂ : List Frame}
    {f : Frame} (hpending : (l.ends i).pending = l₁ ++ f :: l₂) (hf : f.cmd = .psh) : dataOf l₁ = [] := by
  obtain ⟨s, hs⟩ := h.opens.exists_stream hpending
  have houtstanding := h.outstanding i s hs
  rw [hpending] at houtstanding
  exact Smux.dataOf_eq_nil (not_psh_of_dataSizes
    ((@Stream.Outstanding.wrote (config i) s l₁ l₂ f houtstanding).2 hf).1)

theorem Carries.step (h : l.Carries config sid opener) {e : Bool × LinkEvent}
    (hstep : (link config sid opener).step l e l') : l'.Carries config sid opener := by
  obtain ⟨j, e⟩ := e
  have hstep' : l.Step config sid opener j e l' := hstep
  have hsentBefore := h.sent j
  cases hstep' with
  | openStream hj hnone =>
    subst hj
    obtain ⟨hother, hframes, hpending⟩ := h.opens.unopened hnone
    refine h.of_step hstep setEnd_ends_not (fun s' hs' => ?_) ?_ ?_
    · rw [setEnd_ends_self] at hs' ⊢
      cases hs'
      refine ⟨.new .opening, ?_, ?_, fun h => absurd rfl h⟩
      · rw [hpending]
        rfl
      · rw [hpending]
        rfl
    · rw [setEnd_ends_self, setEnd_frames, hother, hframes, hpending]
      rfl
    · rw [setEnd_ends_self, setEnd_frames, hnone]
      rfl
  | @opened s hs hopening =>
    have haccount := h.account j s hs
    have houtstanding := h.outstanding j s hs
    rw [hs] at hsentBefore
    refine h.of_step hstep setEnd_ends_not (fun s' hs' => ?_) ?_ ?_
    · rw [setEnd_ends_self] at hs' ⊢
      cases hs'
      exact ⟨⟨haccount.received, fun _ => haccount.kept (by rw [hopening]; decide),
        fun h => absurd h Status.open_ne_opening, fun h => absurd h Status.open_ne_closed⟩, houtstanding.psh,
        houtstanding.upd, houtstanding.notify⟩
    · rw [setEnd_ends_self]
      exact hsentBefore
    · rw [setEnd_ends_self, hs]
      rfl
  | @act s s' e f hs hopening hact =>
    have hacts := Stream.acts_of_act hact
    obtain ⟨hsent, harrived⟩ := hacts.sent
    rw [hs] at hsentBefore
    refine h.of_step hstep setEnd_ends_not (fun t ht => ?_) ?_ ?_
    · rw [setEnd_ends_self] at ht ⊢
      cases ht
      exact ⟨(h.account j s hs).act hacts, (h.outstanding j s hs).act hacts⟩
    · rw [setEnd_ends_self, setEnd_frames, dataOf_append, ← List.append_assoc, ← hsentBefore]
      exact hsent
    · rw [setEnd_ends_self, harrived, hs]
      rfl
  | @sessionClose s hs =>
    obtain ⟨die, heq⟩ := s.sessionClose_eq
    have haccount := h.account j s hs
    have houtstanding := h.outstanding j s hs
    rw [hs] at hsentBefore
    refine h.of_step hstep setEnd_ends_not (fun s' hs' => ?_) ?_ ?_
    · rw [setEnd_ends_self] at hs' ⊢
      cases hs'
      rw [heq]
      exact ⟨⟨haccount.received, haccount.kept, haccount.opening, haccount.closed⟩, houtstanding.psh,
        houtstanding.upd, houtstanding.notify⟩
    · rw [setEnd_ends_self, heq]
      exact hsentBefore
    · rw [setEnd_ends_self, hs, heq]
      rfl
  | @send l₁ l₂ f hpending =>
    have hwrote (s : Stream) : (s.wrote (config j) f).sent = s.sent ∧
        arrived (some (s.wrote (config j) f)) = arrived (some s) := by
      obtain ⟨_, _, _, heq⟩ := Stream.wrote_eq (config j) s f
      rw [heq]
      exact ⟨rfl, rfl⟩
    refine h.of_step hstep (by rw [setFrames_ends, setEnd_ends_not]) (fun s' hs' => ?_) ?_ ?_
    · rw [setFrames_ends, setEnd_ends_self] at hs' ⊢
      obtain ⟨s, hs, rfl⟩ := Option.map_eq_some_iff.1 hs'
      have houtstanding := h.outstanding j s hs
      rw [hpending] at houtstanding
      exact ⟨(h.account j s hs).wrote f, houtstanding.wrote.1⟩
    · rw [setFrames_ends, setEnd_ends_self, setFrames_frames_self]
      rw [hpending] at hsentBefore
      have hsent : sentBy ((l.ends j).stream.map fun s => s.wrote (config j) f) = sentBy (l.ends j).stream := by
        cases (l.ends j).stream with
        | none => rfl
        | some s => exact (hwrote s).1
      rw [hsent, hsentBefore]
      -- The shaper may write frames in another order than they were asked for, but not two frames of
      -- data: there is one at most.
      by_cases hf : f.cmd = .psh
      · simp only [dataOf_append, dataOf_cons, dataOf_nil, h.dataOf_eq_nil hpending hf, List.append_nil,
          List.nil_append, List.append_assoc]
      · have hnil : f.payload = [] := if_neg hf
        simp only [dataOf_append, dataOf_cons, dataOf_nil, hnil, List.append_nil, List.nil_append]
    · rw [setFrames_ends, setEnd_ends_self, setFrames_frames_not]
      cases hs : (l.ends j).stream with
      | none => rfl
      | some s =>
        rw [Option.map_some, (hwrote s).2]
        rfl
  | @recv f fs hframes =>
    refine h.of_step hstep (by rw [setFrames_ends, setEnd_ends_not]) (fun s' hs' => ?_) ?_ ?_
    all_goals rw [setFrames_ends, setEnd_ends_self] at *
    -- The frame opens the stream, of which nothing was known, or is for the one there is.
    all_goals rcases h.opens.deliver hframes with ⟨hnone, hpending, -, hsyn, hdeliver⟩ | ⟨s, hs, hdeliver⟩
    · rw [hdeliver] at hs'
      cases hs'
      refine ⟨.new .open, ?_, ?_, fun h => absurd rfl h⟩
      · rw [hpending]
        rfl
      · rw [hpending]
        rfl
    · rw [hdeliver] at hs'
      cases hs'
      exact ⟨(h.account j s hs).receive f, (h.outstanding j s hs).receive f⟩
    · rw [setFrames_not_frames, hdeliver]
      rw [hnone] at hsentBefore
      exact hsentBefore
    · rw [setFrames_not_frames, hdeliver]
      rw [hs] at hsentBefore
      change (s.receive f).sent = _
      rw [(s.receive_writes f).1]
      exact hsentBefore
    · rw [setFrames_frames_self, hframes, dataOf_cons, ← List.append_assoc, hdeliver, hnone, Frame.payload,
        if_neg (by rw [hsyn]; decide)]
      rfl
    · rw [setFrames_frames_self, hframes, dataOf_cons, ← List.append_assoc, hdeliver,
        (h.account j s hs).arrived_receive, hs]

theorem Carries.reach {C : Link → Prop} (h : (link config sid opener).Reach C l) :
    l.Carries config sid opener :=
  h.invariant (fun _ hinit _ => carries_init hinit) fun _ _ _ _ h hstep _ => h.step hstep

/-! ## The end of a stream -/

/-- The end of what `i` sends was asked for. -/
def Told (l : Link) (i : Bool) : Prop :=
  (∃ f ∈ l.frames i ++ (l.ends i).pending, f.cmd = .fin) ∨
    ∃ b, (l.ends !i).stream = some b ∧ b.fin = true

/-- A stream whose end was asked for is closed, and where that was between two writes, it has no
    write any more and the end comes last. -/
structure Ends (l : Link) (i : Bool) : Prop where
  silent : (l.ends i).stream = none → ¬ l.Told i
  die : ∀ a, (l.ends i).stream = some a → l.Told i → a.die = true ∧ (a.cut = false → a.writing = none)
  last : ∀ a, (l.ends i).stream = some a → a.cut = false → ∀ fs f fs', l.frames i = fs ++ f :: fs' →
    f.cmd = .fin → dataOf fs' = []
  after : ∀ a, (l.ends i).stream = some a → a.cut = false → ∀ b, (l.ends !i).stream = some b →
    b.fin = true → dataOf (l.frames i) = []

end Link

namespace Stream

variable {config : Config} {sid : UInt32} {s s' : Stream} {f : Option Frame}

/-- An event that ends nothing keeps the stream closed, and without a write where it has none. -/
theorem Acts.ends (h : s.Acts config sid s' f) :
    s'.fin = s.fin ∧ ((∀ g ∈ f, g.cmd ≠ .fin) ∧ s'.cut = s.cut ∧ (s.die = true → s'.die = true ∧
        (s.writing = none → s'.writing = none)) ∨
      s.die = false ∧ s'.die = true ∧ s'.writing = s.writing ∧ s'.cut = s.writing.isSome ∧
        s' = { s with die := true, closing := true, cut := s.writing.isSome }) := by
  have hnone : ∀ g ∈ (none : Option Frame), g.cmd ≠ .fin := fun g hg => nomatch hg
  cases h with
  | refused => exact ⟨rfl, .inl ⟨hnone, rfl, fun h => ⟨h, id⟩⟩⟩
  | write w _ hdie => exact ⟨rfl, .inl ⟨hnone, rfl, fun h => absurd (h.symm.trans hdie) (by decide)⟩⟩
  | consumed | giveUp => exact ⟨rfl, .inl ⟨hnone, rfl, fun h => ⟨h, fun _ => rfl⟩⟩⟩
  | cutAll b hw | cut b hw | wait b hw =>
    exact ⟨rfl, .inl ⟨hnone, rfl, fun h => ⟨h, fun hn => absurd (hw.symm.trans hn) (Option.some_ne_none _)⟩⟩⟩
  | request chunk rest sz hw =>
    refine ⟨rfl, .inl ⟨fun g hg => by cases hg; exact nofun, rfl, fun h => ⟨h, fun hn => ?_⟩⟩⟩
    exact absurd (hw.symm.trans hn) (Option.some_ne_none _)
  | wake chunk rest hw =>
    exact ⟨rfl, .inl ⟨hnone, rfl, fun h => ⟨h, fun hn => absurd (hw.symm.trans hn) (Option.some_ne_none _)⟩⟩⟩
  | read out buffers =>
    obtain ⟨_, _, _, heq⟩ := consume_eq config s out buffers
    rw [heq]
    exact ⟨rfl, .inl ⟨hnone, rfl, fun h => ⟨h, id⟩⟩⟩
  | tryRead =>
    obtain ⟨_, _, _, heq⟩ := consume_eq config s [] []
    rw [heq]
    exact ⟨rfl, .inl ⟨hnone, rfl, fun h => ⟨h, id⟩⟩⟩
  | returnTokens | streamClosed => exact ⟨rfl, .inl ⟨hnone, rfl, fun h => ⟨h, id⟩⟩⟩
  | notify => exact ⟨rfl, .inl ⟨fun g hg => by cases hg; exact nofun, rfl, fun h => ⟨h, id⟩⟩⟩
  | close _ hdie => exact ⟨rfl, .inr ⟨hdie, rfl, rfl, rfl, rfl⟩⟩

/-- The end arrives with its frame only. -/
theorem receive_fin (s : Stream) (g : Frame) :
    (s.receive g).fin = true → s.fin = true ∨ g.cmd = .fin := by
  intro h
  rw [receive] at h
  split at h
  · split at h <;> exact .inl h
  · exact .inr ‹_›
  · split_ifs at h <;> exact .inl h
  · exact .inl h

end Stream

namespace Link

variable {config : Bool → Config} {sid : UInt32} {opener : Bool} {l l' : Link}

/-- A step of the other end, unless a frame arrives there. -/
theorem Ends.of_other {i : Bool} (h : l.Ends i) (hend : l'.ends i = l.ends i)
    (hframes : l'.frames i = l.frames i)
    (hfin : ∀ b', (l'.ends !i).stream = some b' → b'.fin = true →
      ∃ b, (l.ends !i).stream = some b ∧ b.fin = true) : l'.Ends i := by
  have htold : l'.Told i → l.Told i := by
    rintro (hf | ⟨b', hb', hfin'⟩)
    · rw [hend, hframes] at hf
      exact .inl hf
    · exact .inr (hfin b' hb' hfin')
  refine ⟨fun hnone htold' => ?_, fun a ha htold' => ?_, fun a ha => ?_, fun a ha hcut b' hb' hfin' => ?_⟩
  · rw [hend] at hnone
    exact h.silent hnone (htold htold')
  · rw [hend] at ha
    exact h.die a ha (htold htold')
  · rw [hend] at ha
    rw [hframes]
    exact h.last a ha
  · rw [hend] at ha
    rw [hframes]
    obtain ⟨b, hb, hbfin⟩ := hfin b' hb' hfin'
    exact h.after a ha hcut b hb hbfin

/-- A step of the end itself that has it ask for no end, and writes nothing. -/
theorem Ends.of_same {i : Bool} (h : l.Ends i) {s s' : Stream} (hs : (l.ends i).stream = some s)
    (hs' : (l'.ends i).stream = some s') (hother : l'.ends (!i) = l.ends !i)
    (hframes : l'.frames i = l.frames i)
    (hpending : ∀ f ∈ (l'.ends i).pending, f.cmd = .fin → f ∈ (l.ends i).pending)
    (hcut : s'.cut = s.cut) (hdie : s.die = true → s'.die = true)
    (hwriting : s.writing = none → s.die = true → s'.writing = none) : l'.Ends i := by
  have htold : l'.Told i → l.Told i := by
    rintro (⟨f, hf, hfin⟩ | hb)
    · refine .inl ⟨f, ?_, hfin⟩
      rw [hframes] at hf
      rcases List.mem_append.1 hf with hf | hf
      · exact List.mem_append_left _ hf
      · exact List.mem_append_right _ (hpending f hf hfin)
    · rw [hother] at hb
      exact .inr hb
  refine ⟨fun hnone => ?_, fun a ha htold' => ?_, fun a ha hacut => ?_, fun a ha hacut b hb => ?_⟩
  · rw [hs'] at hnone
    cases hnone
  all_goals
    rw [hs'] at ha
    cases ha
  · obtain ⟨hsdie, hsnone⟩ := h.die s hs (htold htold')
    exact ⟨hdie hsdie, fun hacut => hwriting (hsnone (hcut ▸ hacut)) hsdie⟩
  · rw [hframes]
    exact h.last s hs (hcut ▸ hacut)
  · rw [hother] at hb
    rw [hframes]
    exact h.after s hs (hcut ▸ hacut) b hb

/-- A frame that is written after the end is not one of data. -/
theorem Ends.of_send {i : Bool} (h : l.Ends i) (hcarries : l.Carries config sid opener)
    {l₁ l₂ : List Frame} {f : Frame} (hpending : (l.ends i).pending = l₁ ++ f :: l₂) :
    ((l.setEnd i {
      stream := (l.ends i).stream.map fun s => s.wrote (config i) f
      pending := l₁ ++ l₂ }).setFrames i (l.frames i ++ [f])).Ends i := by
  set l' := (l.setEnd i {
    stream := (l.ends i).stream.map fun s => s.wrote (config i) f
    pending := l₁ ++ l₂ }).setFrames i (l.frames i ++ [f])
  have hstream : (l'.ends i).stream = (l.ends i).stream.map fun s => s.wrote (config i) f := by
    rw [setFrames_ends, setEnd_ends_self]
  have hother : l'.ends (!i) = l.ends !i := by rw [setFrames_ends, setEnd_ends_not]
  have hframes : l'.frames i = l.frames i ++ [f] := setFrames_frames_self
  have htold : l'.Told i → l.Told i := by
    rintro (⟨g, hg, hfin⟩ | hb)
    · refine .inl ⟨g, ?_, hfin⟩
      rw [hframes, setFrames_ends, setEnd_ends_self] at hg
      rw [hpending]
      simp only [List.mem_append, List.mem_cons, List.not_mem_nil, or_false] at hg ⊢
      tauto
    · rw [hother] at hb
      exact .inr hb
  -- Data was asked for by a write, and a stream that was closed between two writes has none.
  have hdata (s : Stream) (hs : (l.ends i).stream = some s) (hcut : s.cut = false) (ht : l.Told i) :
      f.payload = [] := by
    refine if_neg fun hpsh => ?_
    have houtstanding := hcarries.outstanding i s hs
    rw [hpending] at houtstanding
    obtain ⟨-, -, w, hw, -⟩ := (@Stream.Outstanding.wrote (config i) s l₁ l₂ f houtstanding).2 hpsh
    rw [(h.die s hs ht).2 hcut] at hw
    cases hw
  have hwrote (s : Stream) : (s.wrote (config i) f).cut = s.cut ∧ (s.wrote (config i) f).die = s.die ∧
      (s.writing = none → (s.wrote (config i) f).writing = none) := by
    rw [Stream.wrote]
    split
    · split
      · rename_i w hw
        exact ⟨rfl, rfl, fun hn => absurd (hw.symm.trans hn) (Option.some_ne_none w)⟩
      · exact ⟨rfl, rfl, id⟩
    · exact ⟨rfl, rfl, id⟩
    · exact ⟨rfl, rfl, id⟩
  refine ⟨fun hnone ht => ?_, fun a ha ht => ?_, fun a ha hcut fs g fs' heq hg => ?_,
    fun a ha hcut b hb hfin => ?_⟩
  · rw [hstream] at hnone
    exact h.silent (Option.map_eq_none_iff.1 hnone) (htold ht)
  all_goals
    rw [hstream] at ha
    obtain ⟨s, hs, rfl⟩ := Option.map_eq_some_iff.1 ha
    obtain ⟨hscut, hsdie, hswriting⟩ := hwrote s
  · obtain ⟨hdie, hnone⟩ := h.die s hs (htold ht)
    exact ⟨hsdie.trans hdie, fun hcut => hswriting (hnone (hscut ▸ hcut))⟩
  · rw [hframes] at heq
    -- The end is the frame just written, or one written before it.
    rcases List.eq_nil_or_concat fs' with rfl | ⟨fs'', x, rfl⟩
    · rfl
    · rw [List.concat_eq_append, ← List.cons_append, ← List.append_assoc] at heq
      obtain ⟨hfs, hx⟩ := List.append_inj' heq rfl
      cases hx
      have ht : l.Told i := .inl ⟨g, List.mem_append_left _ (by
        rw [hfs]
        exact List.mem_append_right _ List.mem_cons_self), hg⟩
      rw [List.concat_eq_append, dataOf_append, h.last s hs (hscut ▸ hcut) fs g fs'' hfs hg,
        dataOf_singleton, hdata s hs (hscut ▸ hcut) ht]
      rfl
  · rw [hother] at hb
    rw [hframes, dataOf_append, h.after s hs (hscut ▸ hcut) b hb hfin, dataOf_singleton,
      hdata s hs (hscut ▸ hcut) (.inr ⟨b, hb, hfin⟩)]
    rfl

/-- A frame that arrives at the other end. -/
theorem Ends.of_arrival {i : Bool} (h : l.Ends i) {f : Frame} {fs : List Frame}
    (hframes : l.frames i = f :: fs) (hend : l'.ends i = l.ends i) (hframes' : l'.frames i = fs)
    (hstream : (l'.ends !i).stream = some { status := .open } ∨
      ∃ s, (l.ends !i).stream = some s ∧ (l'.ends !i).stream = some (s.receive f)) : l'.Ends i := by
  -- what is told of the end then was told of it, or comes with the frame
  have hfin (b' : Stream) (hb' : (l'.ends !i).stream = some b') (hfin' : b'.fin = true) :
      f.cmd = .fin ∨ ∃ b, (l.ends !i).stream = some b ∧ b.fin = true := by
    rcases hstream with hnew | ⟨s, hs, hs'⟩
    · rw [hnew] at hb'
      cases hb'
      cases hfin'
    · rw [hs'] at hb'
      cases hb'
      rcases s.receive_fin f hfin' with hsfin | hf
      · exact .inr ⟨s, hs, hsfin⟩
      · exact .inl hf
  have htold : l'.Told i → l.Told i := by
    rintro (⟨g, hg, hgfin⟩ | ⟨b', hb', hfin'⟩)
    · refine .inl ⟨g, ?_, hgfin⟩
      rw [hend, hframes'] at hg
      rw [hframes]
      exact List.mem_cons_of_mem _ hg
    · rcases hfin b' hb' hfin' with hf | hb
      · exact .inl ⟨f, List.mem_append_left _ (by rw [hframes]; exact List.mem_cons_self), hf⟩
      · exact .inr hb
  refine ⟨fun hnone ht => ?_, fun a ha ht => ?_, fun a ha hcut gs g gs' heq => ?_,
    fun a ha hcut b' hb' hfin' => ?_⟩
  · rw [hend] at hnone
    exact h.silent hnone (htold ht)
  all_goals rw [hend] at ha
  · exact h.die a ha (htold ht)
  · exact h.last a ha hcut (f :: gs) g gs' (by rw [hframes, List.cons_append, ← heq, hframes'])
  · rw [hframes']
    rcases hfin b' hb' hfin' with hf | ⟨b, hb, hbfin⟩
    · exact h.last a ha hcut [] f fs hframes hf
    · have hnil := h.after a ha hcut b hb hbfin
      rw [hframes, dataOf_cons] at hnil
      exact (List.append_eq_nil_iff.1 hnil).2

theorem Ends.step {i : Bool} (h : l.Ends i) (hcarries : l.Carries config sid opener)
    {e : Bool × LinkEvent} (hstep : (link config sid opener).step l e l') : l'.Ends i := by
  obtain ⟨j, e⟩ := e
  change l.Step config sid opener j e l' at hstep
  rcases Bool.eq_or_eq_not j i with rfl | rfl
  -- The end that sends.
  · cases hstep with
    | openStream hj hnone =>
      refine ⟨fun hn => ?_, fun a ha ht => absurd ht ?_, fun a ha _ fs f fs' heq => ?_, fun a ha _ b hb => ?_⟩
      · rw [setEnd_ends_self] at hn
        cases hn
      · rintro (⟨f, hf, hfin⟩ | hb)
        · rw [setEnd_ends_self, setEnd_frames, ← List.append_assoc] at hf
          rcases List.mem_append.1 hf with hf | hf
          · exact h.silent hnone (.inl ⟨f, hf, hfin⟩)
          · rw [List.mem_singleton.1 hf] at hfin
            cases hfin
        · rw [setEnd_ends_not] at hb
          exact h.silent hnone (.inr hb)
      · subst hj
        rw [setEnd_frames, (hcarries.opens.unopened hnone).2.1] at heq
        cases (List.append_eq_nil_iff.1 heq.symm).2
      · subst hj
        rw [setEnd_ends_not, (hcarries.opens.unopened hnone).1] at hb
        cases hb
    | opened hs =>
      exact h.of_same hs (congrArg LinkEnd.stream setEnd_ends_self) setEnd_ends_not rfl
        (fun f hf _ => by rwa [setEnd_ends_self] at hf) rfl id fun hn _ => hn
    | @sessionClose s hs =>
      obtain ⟨die, heq⟩ := s.sessionClose_eq
      refine h.of_same hs (congrArg LinkEnd.stream setEnd_ends_self) setEnd_ends_not rfl
        (fun f hf _ => by rwa [setEnd_ends_self] at hf) ?_ ?_ ?_
      · rw [heq]
      · intro hdie
        rw [Stream.sessionClose]
        split_ifs
        · rfl
        · exact hdie
      · rw [heq]
        exact fun hn _ => hn
    | @act s s' e f hs hopening hact =>
      obtain ⟨hfin, ⟨hne, hcut, hdie⟩ | ⟨hdie, hdie', hwriting, hcut, -⟩⟩ := (Stream.acts_of_act hact).ends
      · refine h.of_same hs (congrArg LinkEnd.stream setEnd_ends_self) setEnd_ends_not rfl (fun g hg hgfin => ?_) hcut
          (fun h => (hdie h).1) fun hn h => (hdie h).2 hn
        rw [setEnd_ends_self] at hg
        rcases List.mem_append.1 hg with hg | hg
        · exact hg
        · exact absurd hgfin (hne g (Option.mem_toList.1 hg))
      · -- the stream is closed, which nothing was told of before
        have hnot : ¬ l.Told j := fun ht => absurd ((h.die s hs ht).1.symm.trans hdie) (by decide)
        refine ⟨fun hn => ?_, fun a ha _ => ?_, fun a ha _ fs g fs' heq hg => ?_, fun a ha _ b hb hb' => ?_⟩
        · rw [setEnd_ends_self] at hn
          cases hn
        · rw [setEnd_ends_self] at ha
          cases ha
          refine ⟨hdie', fun hc => ?_⟩
          rw [hwriting]
          exact Option.isSome_eq_false_iff.1 (hcut.symm.trans hc) |> Option.isNone_iff_eq_none.1
        · refine absurd (.inl ⟨g, List.mem_append_left _ ?_, hg⟩) hnot
          rw [← setEnd_frames, heq]
          exact List.mem_append_right _ List.mem_cons_self
        · rw [setEnd_ends_not] at hb
          exact absurd (.inr ⟨b, hb, hb'⟩) hnot
    | send hpending => exact h.of_send hcarries hpending
    | @recv f fs hframes =>
      rcases hcarries.opens.deliver hframes with ⟨hnone, -, -, -, hdeliver⟩ | ⟨s, hs, hdeliver⟩
      · have hnot : ¬ l.Told j := h.silent hnone
        refine ⟨fun hn => ?_, fun a ha ht => absurd ?_ hnot, fun a ha _ gs g gs' heq hg => ?_,
          fun a ha _ b hb hb' => ?_⟩
        · rw [setFrames_ends, setEnd_ends_self, hdeliver] at hn
          cases hn
        · rcases ht with ⟨g, hg, hgfin⟩ | ht
          · rw [setFrames_ends, setEnd_ends_self, setFrames_not_frames] at hg
            exact .inl ⟨g, hg, hgfin⟩
          · rw [setFrames_ends, setEnd_ends_not] at ht
            exact .inr ht
        · rw [setFrames_not_frames] at heq
          refine absurd (.inl ⟨g, List.mem_append_left _ ?_, hg⟩) hnot
          rw [← setEnd_frames, heq]
          exact List.mem_append_right _ List.mem_cons_self
        · rw [setFrames_ends, setEnd_ends_not] at hb
          exact absurd (.inr ⟨b, hb, hb'⟩) hnot
      · obtain ⟨-, hcut, hdie, hwriting⟩ := s.receive_writes f
        have hs' : (((l.setEnd j {
            stream := deliver f (l.ends j).stream
            pending := (l.ends j).pending }).setFrames (!j) fs).ends j).stream = some (s.receive f) := by
          rw [setFrames_ends, setEnd_ends_self, hdeliver]
        refine h.of_same hs hs' ?_ ?_ (fun g hg _ => ?_) hcut hdie.trans fun hn _ => hwriting.trans hn
        · rw [setFrames_ends, setEnd_ends_not]
        · rw [setFrames_not_frames]
          rfl
        · rwa [setFrames_ends, setEnd_ends_self] at hg
  -- The other end only matters for what it was told of the end of the stream.
  · cases hstep with
    | openStream hj hnone =>
      refine h.of_other setEnd_not_ends rfl fun b' hb' hfin => ?_
      rw [setEnd_ends_self] at hb'
      cases hb'
      cases hfin
    | @opened s hs =>
      refine h.of_other setEnd_not_ends rfl fun b' hb' hfin => ⟨s, hs, ?_⟩
      rw [setEnd_ends_self] at hb'
      cases hb'
      exact hfin
    | @sessionClose s hs =>
      obtain ⟨die, heq⟩ := s.sessionClose_eq
      refine h.of_other setEnd_not_ends rfl fun b' hb' hfin => ⟨s, hs, ?_⟩
      rw [setEnd_ends_self, heq] at hb'
      cases hb'
      exact hfin
    | @act s s' e f hs hopening hact =>
      refine h.of_other setEnd_not_ends rfl fun b' hb' hfin => ⟨s, hs, ?_⟩
      rw [setEnd_ends_self] at hb'
      cases hb'
      exact (Stream.acts_of_act hact).ends.1.symm.trans hfin
    | @send l₁ l₂ f hpending =>
      refine h.of_other (by rw [setFrames_ends, setEnd_not_ends]) setFrames_not_frames fun b' hb' hfin => ?_
      rw [setFrames_ends, setEnd_ends_self] at hb'
      obtain ⟨s, hs, rfl⟩ := Option.map_eq_some_iff.1 hb'
      obtain ⟨_, _, _, heq⟩ := Stream.wrote_eq (config !i) s f
      rw [heq] at hfin
      exact ⟨s, hs, hfin⟩
    | @recv f fs hframes =>
      have hdeliver := hcarries.opens.deliver hframes
      rw [Bool.not_not] at hframes
      refine h.of_arrival hframes (by rw [setFrames_ends, setEnd_not_ends])
        (by rw [Bool.not_not, setFrames_frames_self]) ?_
      rw [setFrames_ends, setEnd_ends_self]
      rcases hdeliver with ⟨-, -, -, -, hnew⟩ | ⟨s, hs, hs'⟩
      · exact .inl hnew
      · exact .inr ⟨s, hs, hs'⟩

theorem Ends.reach {C : Link → Prop} (h : (link config sid opener).Reach C l) (i : Bool) : l.Ends i := by
  have hboth : l.Carries config sid opener ∧ l.Ends i := by
    refine h.invariant (I := fun l => l.Carries config sid opener ∧ l.Ends i) (fun l hinit _ => ?_)
      fun l e l' _ hl hstep _ => ⟨hl.1.step hstep, hl.2.step hl.1 hstep⟩
    have hstream (j : Bool) : (l.ends j).stream = none := by rw [(hinit j).1]
    refine ⟨carries_init hinit, fun _ => ?_, fun a ha => ?_, fun a ha => ?_, fun a ha => ?_⟩
    · rintro (⟨f, hf, -⟩ | ⟨b, hb, -⟩)
      · rw [(hinit i).1, (hinit i).2] at hf
        cases hf
      · rw [hstream] at hb
        cases hb
    all_goals
      rw [hstream] at ha
      cases ha
  exact hboth.2

/-! ## Delivery -/

/-- What the reader at one end was handed, behind what came too early for it, was sent by the other
    end first; nothing comes too early at the end that accepts the stream. A reader that finds nothing
    after the end of the stream was handed all the rest, unless the stream was closed in the middle of
    a write. -/
theorem returned_isPrefix_sent {C : Link → Prop} (h : (link config sid opener).Reach C l) (i : Bool) {b : Stream}
    (hb : (l.ends !i).stream = some b) :
    b.early ++ b.returned <+: sentBy (l.ends i).stream ∧ (i = opener → b.early = []) ∧
      (b.status = .open → b.fin = true → b.buffers = [] →
        ∃ a, (l.ends i).stream = some a ∧ (a.cut = false → b.early ++ b.returned = a.sent)) := by
  have hcarries := Carries.reach h
  have hends := Ends.reach h i
  have haccount := hcarries.account _ b hb
  have hsent := hcarries.sent i
  rw [hb] at hsent
  change _ = b.early ++ b.received ++ b.late ++ dataOf (l.frames i) ++ dataOf (l.ends i).pending at hsent
  refine ⟨?_, fun hi => ?_, fun hopen hfin hbuffers => ?_⟩
  · rw [hsent, haccount.received]
    simp only [List.append_assoc]
    exact (List.prefix_append_right_inj _).2 (List.prefix_append _ _)
  · subst hi
    exact (hcarries.opens.accepted b hb).2.1
  · obtain ⟨a, ha⟩ := Option.ne_none_iff_exists'.1 fun hnone => hends.silent hnone (.inr ⟨b, hb, hfin⟩)
    refine ⟨a, ha, fun hcut => ?_⟩
    obtain ⟨hdiscarded, hlate⟩ := haccount.kept (by rw [hopen]; exact nofun)
    have hpending := (hcarries.outstanding i a ha).psh
    rw [(hends.die a ha (.inr ⟨b, hb, hfin⟩)).2 hcut] at hpending
    rw [ha] at hsent
    change a.sent = _ at hsent
    rw [hsent, haccount.received, hdiscarded, hlate, hends.after a ha hcut b hb hfin,
      dataOf_eq_nil (not_psh_of_dataSizes hpending), Stream.unread, hbuffers]
    simp only [List.flatten_nil, List.append_nil]

end Link

end Gzv2ray.Smux
