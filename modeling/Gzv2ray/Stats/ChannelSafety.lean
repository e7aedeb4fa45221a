import Gzv2ray.Stats.Channel

/-!
# Safety of channels

A goroutine of `Start` closes the channels of subscribers, and does so while no other one of them
sends. But goroutines that were left behind by broadcasts may still send, and a goroutine of an
earlier `Start` may be left too.

* `Careful`: no channel is closed while a broadcast to it is left, and the channel is not started
  again while an earlier goroutine is;
* `Inv`: what goroutines hold is open, kept by careful steps.

So careful runs do not fail (`careful_safe`), and others may (`not_safe`).
-/

namespace Gzv2ray.Stats

namespace LoopPhase

/-- The channels that a goroutine is still to send to or to close. -/
def subs : LoopPhase → List ℕ
  | broadcasting _ subs => subs
  | removing subs => subs
  | closing sub subs => sub :: subs
  | _ => []

/-- The channel that it has removed and is to close. -/
def removed : LoopPhase → Option ℕ
  | closing sub _ => some sub
  | _ => none

@[simp] theorem subs_toBroadcast (pub : ℕ) (l : List ℕ) : (toBroadcast pub l).subs = l := by
  cases l <;> rfl

@[simp] theorem subs_toRemove (l : List ℕ) : (toRemove l).subs = l := by
  cases l <;> rfl

@[simp] theorem removed_toBroadcast (pub : ℕ) (l : List ℕ) :
    (toBroadcast pub l).removed = none := by
  cases l <;> rfl

@[simp] theorem removed_toRemove (l : List ℕ) : (toRemove l).removed = none := by
  cases l <;> rfl

theorem mem_subs {p : LoopPhase} {sub : ℕ} (h : sub ∈ p.removed) : sub ∈ p.subs := by
  cases p with
  | closing sub' subs =>
    obtain rfl := Option.some.inj h
    exact List.mem_cons_self
  | _ => cases h

end LoopPhase

namespace Channel

/-- The channel of a subscriber is not closed. -/
def IsOpen (s : Channel) (sub : ℕ) : Prop := sub < s.subscribed ∧ (s.chans sub).closed = false

/-- What a goroutine holds is open, and what it has removed is not found again. -/
structure Holds (s : Channel) (p : LoopPhase) : Prop where
  nodup : p.subs.Nodup
  isOpen : ∀ sub ∈ p.subs, s.IsOpen sub
  removed : ∀ sub ∈ p.removed, sub ∉ s.subscribers

structure Inv (s : Channel) : Prop where
  failure : s.failure = none
  nodup : s.subscribers.Nodup
  listed : ∀ sub ∈ s.subscribers, s.IsOpen sub
  fresh : ∀ sub, s.subscribed ≤ sub → (s.chans sub).closed = false
  /-- One goroutine of `Start` at most has not returned. -/
  alone : ∀ (g h : ℕ) (p q : LoopPhase), s.loops[g]? = some p → s.loops[h]? = some q →
    p ≠ .returned → q ≠ .returned → g = h
  held : ∀ p ∈ s.loops, s.Holds p
  broadcasts : ∀ b ∈ s.broadcasts, s.IsOpen b.2
  waits : s.blocking = true → s.broadcasts = []

/-- The step closes no channel while a broadcast to it is left, and does not start the channel
    again while a goroutine of an earlier `Start` is. -/
def Careful (s : Channel) : ChannelAction → Prop
  | .start => s.running = true ∨ ∀ p ∈ s.loops, p = .returned
  | .loop g .closeSub => s.blocking = true ∨ ∀ sub subs, s.loops[g]? = some (.closing sub subs) →
    ∀ b ∈ s.broadcasts, b.2 ≠ sub
  | _ => True

variable {s t : Channel} {g pub sub : ℕ} {p q : LoopPhase}

theorem inv_new (blocking : Bool) (bufferSize subsLimit : ℕ) :
    Inv { blocking, bufferSize, subsLimit } where
  failure := rfl
  nodup := List.nodup_nil
  listed _ h := absurd h List.not_mem_nil
  fresh _ _ := rfl
  alone _ _ _ _ h := by cases h
  held _ h := absurd h List.not_mem_nil
  broadcasts _ h := absurd h List.not_mem_nil
  waits _ := rfl

/-! ## Steps that close nothing -/

/-- A state with the same goroutines of `Start` and the same channels, and maybe fewer subscribers
    and broadcasts. -/
structure Within (s t : Channel) : Prop where
  blocking : t.blocking = s.blocking
  failure : t.failure = none
  subscribers : t.subscribers.Sublist s.subscribers
  subscribed : t.subscribed = s.subscribed
  closed : ∀ sub, (t.chans sub).closed = (s.chans sub).closed
  loops : t.loops = s.loops
  broadcasts : t.broadcasts.Sublist s.broadcasts

theorem Within.isOpen (h : Within s t) : t.IsOpen sub ↔ s.IsOpen sub := by
  rw [IsOpen, IsOpen, h.subscribed, h.closed]

theorem Within.holds (h : Within s t) (hp : s.Holds p) : t.Holds p where
  nodup := hp.nodup
  isOpen sub hsub := h.isOpen.2 (hp.isOpen sub hsub)
  removed sub hsub hmem := hp.removed sub hsub (h.subscribers.subset hmem)

theorem Inv.within (hs : Inv s) (h : Within s t) : Inv t where
  failure := h.failure
  nodup := hs.nodup.sublist h.subscribers
  listed sub hsub := h.isOpen.2 (hs.listed sub (h.subscribers.subset hsub))
  fresh sub hsub := (h.closed sub).trans (hs.fresh sub (h.subscribed ▸ hsub))
  alone := by
    rw [h.loops]
    exact hs.alone
  held p hp := h.holds (hs.held p (h.loops ▸ hp))
  broadcasts b hb := h.isOpen.2 (hs.broadcasts b (h.broadcasts.subset hb))
  waits hblocking := by
    have hnil := hs.waits (h.blocking ▸ hblocking)
    exact List.sublist_nil.1 (hnil ▸ h.broadcasts)

theorem closed_update {c : Chan} (hc : c.closed = (s.chans sub).closed) (sub' : ℕ) :
    (Function.update s.chans sub c sub').closed = (s.chans sub').closed := by
  rcases eq_or_ne sub' sub with rfl | hne
  · rw [Function.update_self, hc]
  · rw [Function.update_of_ne hne]

theorem Holds.setLoop (h : s.Holds q) : (s.setLoop g p).Holds q :=
  ⟨h.nodup, h.isOpen, h.removed⟩

/-- A goroutine goes on, with channels that it may hold. -/
theorem Inv.setLoop (hs : Inv s) (hg : s.loops[g]? = some p) (hp : p ≠ .returned)
    (hq : s.Holds q) : Inv (s.setLoop g q) where
  failure := hs.failure
  nodup := hs.nodup
  listed := hs.listed
  fresh := hs.fresh
  alone h₁ h₂ p₁ p₂ hp₁ hp₂ hne₁ hne₂ := by
    -- where a goroutine goes on, there was one
    have halive {h : ℕ} {p' : LoopPhase} (hp' : (s.loops.set g q)[h]? = some p')
        (hne : p' ≠ .returned) : ∃ p, s.loops[h]? = some p ∧ p ≠ .returned := by
      rcases eq_or_ne g h with rfl | hgh
      · exact ⟨p, hg, hp⟩
      · rw [List.getElem?_set_ne hgh] at hp'
        exact ⟨p', hp', hne⟩
    obtain ⟨p₁', hp₁', hne₁'⟩ := halive hp₁ hne₁
    obtain ⟨p₂', hp₂', hne₂'⟩ := halive hp₂ hne₂
    exact hs.alone h₁ h₂ p₁' p₂' hp₁' hp₂' hne₁' hne₂'
  held p' hp' := by
    rcases List.mem_or_eq_of_mem_set hp' with hmem | rfl
    · exact (hs.held p' hmem).setLoop
    · exact hq.setLoop
  broadcasts := hs.broadcasts
  waits := hs.waits

theorem Inv.holds (hs : Inv s) (hg : s.loops[g]? = some p) : s.Holds p :=
  hs.held p (List.mem_of_getElem? hg)

/-- A goroutine goes on to the next of the channels that it holds, -/
theorem Holds.next (h : s.Holds p) {subs : List ℕ} (hp : p.subs = sub :: subs) (hq : q.subs = subs)
    (hremoved : q.removed = none) : s.Holds q where
  nodup := hq ▸ (List.nodup_cons.1 (hp ▸ h.nodup)).2
  isOpen sub hsub := h.isOpen sub (hp ▸ List.mem_cons_of_mem _ (hq ▸ hsub))
  removed sub hsub := by
    rw [hremoved] at hsub
    cases hsub

/-- or retrieves the subscribers. -/
theorem Inv.holds_subscribers (hs : Inv s) (hsubs : q.subs = s.subscribers)
    (hremoved : q.removed = none) : s.Holds q where
  nodup := hsubs ▸ hs.nodup
  isOpen sub hsub := hs.listed sub (hsubs ▸ hsub)
  removed sub hsub := by
    rw [hremoved] at hsub
    cases hsub

theorem holds_of_subs_eq_nil (hsubs : q.subs = []) (hremoved : q.removed = none) : s.Holds q where
  nodup := hsubs ▸ List.nodup_nil
  isOpen sub hsub := by
    rw [hsubs] at hsub
    cases hsub
  removed sub hsub := by
    rw [hremoved] at hsub
    cases hsub

/-- A message is sent to a channel that is open. -/
theorem send_within (hs : Inv s) (hsub : s.IsOpen sub) (h : s.send pub sub = some t) :
    Within s t := by
  rw [send, hsub.2, if_neg Bool.false_ne_true] at h
  split at h
  · cases h
    exact ⟨rfl, hs.failure, .refl _, rfl, closed_update (Chan.send_closed _ _), rfl, .refl _⟩
  · cases h

/-! ## Steps of goroutines -/

theorem Inv.broadcast (hs : Inv s) (hsub : s.IsOpen sub) (h : s.broadcast pub sub = some t) :
    Inv t ∧ t.loops = s.loops ∧ ∀ q, s.Holds q → t.Holds q := by
  rw [Channel.broadcast] at h
  cases hsend : s.send pub sub with
  | some t' =>
    rw [hsend] at h
    cases h
    have hwithin := send_within hs hsub hsend
    exact ⟨hs.within hwithin, hwithin.loops, fun q hq => hwithin.holds hq⟩
  | none =>
    rw [hsend] at h
    dsimp only at h
    split at h
    · cases h
    · rename_i hblocking
      cases h
      refine ⟨⟨hs.failure, hs.nodup, hs.listed, hs.fresh, hs.alone, fun p hp => ?_, fun b hb => ?_,
        fun h => absurd h hblocking⟩, rfl, fun q hq => ⟨hq.nodup, hq.isOpen, hq.removed⟩⟩
      · exact ⟨(hs.held p hp).nodup, (hs.held p hp).isOpen, (hs.held p hp).removed⟩
      · rcases List.mem_cons.1 hb with rfl | hb
        · exact hsub
        · exact hs.broadcasts b hb

/-- A channel is closed that is found nowhere else. -/
theorem Inv.closeSub (hs : Inv s) (hsub : s.IsOpen sub) (hlisted : sub ∉ s.subscribers)
    (hheld : ∀ p ∈ s.loops, sub ∉ p.subs) (hbroadcasts : ∀ b ∈ s.broadcasts, b.2 ≠ sub) :
    Inv (s.closeSub sub) := by
  have hopen {sub' : ℕ} (hne : sub' ≠ sub) (h : s.IsOpen sub') :
      sub' < s.subscribed ∧
        (Function.update s.chans sub (s.chans sub).close sub').closed = false := by
    rwa [Function.update_of_ne hne]
  rw [Channel.closeSub, hsub.2, if_neg Bool.false_ne_true]
  refine ⟨hs.failure, hs.nodup, fun sub' h => ?_, fun sub' h => ?_, hs.alone, fun p hp => ?_,
    fun b hb => hopen (hbroadcasts b hb) (hs.broadcasts b hb), hs.waits⟩
  · exact hopen (ne_of_mem_of_not_mem h hlisted) (hs.listed sub' h)
  · have hfresh := hs.fresh sub' h
    rwa [← Function.update_of_ne (hsub.1.trans_le h).ne' (s.chans sub).close s.chans] at hfresh
  · have hp' := hs.held p hp
    exact ⟨hp'.nodup, fun sub' h => hopen (ne_of_mem_of_not_mem h (hheld p hp))
      (hp'.isOpen sub' h), hp'.removed⟩

/-- The channel that a goroutine has removed is found nowhere else once it goes on. -/
theorem Inv.closeRemoved (hs : Inv s) {subs : List ℕ}
    (hg : s.loops[g]? = some (.closing sub subs)) (hbroadcasts : ∀ b ∈ s.broadcasts, b.2 ≠ sub) :
    Inv ((s.closeSub sub).setLoop g (.toRemove subs)) := by
  have hp := hs.holds hg
  have hsub := hp.isOpen sub List.mem_cons_self
  have hs' := hs.setLoop hg LoopPhase.noConfusion
    (hp.next rfl (LoopPhase.subs_toRemove subs) (LoopPhase.removed_toRemove subs))
  have hcomm : (s.closeSub sub).setLoop g (.toRemove subs) =
      (s.setLoop g (.toRemove subs)).closeSub sub := by
    rw [Channel.closeSub, Channel.closeSub, hsub.2, if_neg Bool.false_ne_true]
    exact (if_neg (by rw [Channel.setLoop, hsub.2]; exact Bool.false_ne_true)).symm
  rw [hcomm]
  refine hs'.closeSub hsub (hp.removed sub rfl) (fun p' hp' => ?_) hbroadcasts
  obtain ⟨h, hh⟩ := List.mem_iff_getElem?.1 hp'
  rcases eq_or_ne g h with rfl | hne
  · rw [Channel.setLoop, List.getElem?_set_self (List.getElem?_eq_some_iff.1 hg).1] at hh
    obtain rfl := Option.some.inj hh
    rw [LoopPhase.subs_toRemove]
    exact (List.nodup_cons.1 hp.nodup).1
  · -- all other goroutines have returned
    rw [Channel.setLoop, List.getElem?_set_ne hne] at hh
    have hreturned : p' = .returned := by_contra fun hp' =>
      hne (hs.alone g h _ p' hg hh LoopPhase.noConfusion hp')
    rw [hreturned]
    exact List.not_mem_nil

theorem Inv.loopStep (hs : Inv s) {a : LoopAction} (hg : s.loops[g]? = some p)
    (hcareful : s.Careful (.loop g a)) (h : s.loopStep g p a = some t) : Inv t := by
  have hp := hs.holds hg
  cases a with
  | select =>
    cases p <;> cases h
    exact hs.setLoop hg LoopPhase.noConfusion (holds_of_subs_eq_nil rfl rfl)
  | receivePub =>
    dsimp only [Channel.loopStep] at h
    split at h
    · rename_i closed pub channel hchannel
      cases h
      have hs' : Inv { s with channel } :=
        hs.within ⟨rfl, hs.failure, .refl _, rfl, fun _ => rfl, rfl, .refl _⟩
      exact hs'.setLoop hg LoopPhase.noConfusion (holds_of_subs_eq_nil rfl rfl)
    · cases h
  | handOver pub =>
    dsimp only [Channel.loopStep] at h
    split at h
    · split at h
      · cases h
        have hs' : Inv { s with publishers := s.publishers.erase pub } :=
          hs.within ⟨rfl, hs.failure, .refl _, rfl, fun _ => rfl, rfl, .refl _⟩
        exact hs'.setLoop hg LoopPhase.noConfusion (holds_of_subs_eq_nil rfl rfl)
      · cases h
    · cases h
  | receiveClosed =>
    dsimp only [Channel.loopStep] at h
    split at h
    · split at h
      · cases h
        exact hs.setLoop hg LoopPhase.noConfusion (holds_of_subs_eq_nil rfl rfl)
      · cases h
    · cases h
  | retrieve =>
    dsimp only [Channel.loopStep] at h
    split at h
    · cases h
      exact hs.setLoop hg LoopPhase.noConfusion (hs.holds_subscribers
        (LoopPhase.subs_toBroadcast _ _) (LoopPhase.removed_toBroadcast _ _))
    · cases h
      exact hs.setLoop hg LoopPhase.noConfusion (hs.holds_subscribers
        (LoopPhase.subs_toRemove _) (LoopPhase.removed_toRemove _))
    · cases h
  | broadcast =>
    dsimp only [Channel.loopStep] at h
    split at h
    · rename_i pub sub subs
      obtain ⟨t', ht', rfl⟩ := Option.map_eq_some_iff.1 h
      obtain ⟨hinv, hloops, hholds⟩ := hs.broadcast (hp.isOpen sub List.mem_cons_self) ht'
      refine hinv.setLoop (hloops ▸ hg) LoopPhase.noConfusion (hholds _ ?_)
      exact hp.next rfl (LoopPhase.subs_toBroadcast pub subs)
        (LoopPhase.removed_toBroadcast pub subs)
    · cases h
  | skip =>
    dsimp only [Channel.loopStep] at h
    split at h
    · rename_i pub sub subs
      split at h
      · cases h
        exact hs.setLoop hg LoopPhase.noConfusion (hp.next rfl
          (LoopPhase.subs_toBroadcast pub subs) (LoopPhase.removed_toBroadcast pub subs))
      · cases h
    · cases h
  | remove =>
    dsimp only [Channel.loopStep] at h
    split at h
    · rename_i sub subs
      cases h
      -- The loop has removed the subscriber itself, once, as there are no two of it in the list.
      have hwithin : Within s (s.unsubscribe sub) :=
        ⟨rfl, hs.failure, List.erase_sublist, rfl, fun _ => rfl, rfl, .refl _⟩
      refine (hs.within hwithin).setLoop hg LoopPhase.noConfusion ⟨hp.nodup, hp.isOpen, ?_⟩
      rintro _ ⟨⟩
      exact fun hmem => (hs.nodup.mem_erase_iff.1 hmem).1 rfl
    · cases h
  | closeSub =>
    dsimp only [Channel.loopStep] at h
    split at h
    · rename_i sub subs
      cases h
      -- Nobody is left who sends to the channel: a blocking channel sends by itself, and otherwise
      -- it is the step that has to be careful.
      refine hs.closeRemoved hg ?_
      rcases hcareful with hblocking | hnone
      · rw [hs.waits hblocking]
        exact fun _ hb => absurd hb List.not_mem_nil
      · exact hnone sub subs hg
    · cases h

/-! ## All steps -/

theorem Inv.subscribe (hs : Inv s) : Inv s.subscribe := by
  rw [Channel.subscribe]
  split
  · exact hs
  · have hopen {sub : ℕ} (h : s.IsOpen sub) :
        sub < s.subscribed + 1 ∧ (s.chans sub).closed = false := ⟨Nat.lt_succ_of_lt h.1, h.2⟩
    have hnot : s.subscribed ∉ s.subscribers := fun h => (hs.listed _ h).1.false
    refine ⟨hs.failure, hs.nodup.append (List.nodup_singleton _) (by simpa using hnot),
      fun sub hsub => ?_, fun sub hsub => hs.fresh sub (Nat.le_of_succ_le hsub), hs.alone,
      fun p hp => ?_, fun b hb => hopen (hs.broadcasts b hb), hs.waits⟩
    · rcases List.mem_append.1 hsub with h | h
      · exact hopen (hs.listed sub h)
      · obtain rfl := List.mem_singleton.1 h
        exact ⟨Nat.lt_succ_self _, hs.fresh _ le_rfl⟩
    · have hp' := hs.held p hp
      refine ⟨hp'.nodup, fun sub h => hopen (hp'.isOpen sub h), fun sub h hmem => ?_⟩
      rcases List.mem_append.1 hmem with hmem | hmem
      · exact hp'.removed sub h hmem
      · obtain rfl := List.mem_singleton.1 hmem
        exact (hp'.isOpen _ (LoopPhase.mem_subs h)).1.false

theorem Inv.start (hs : Inv s) (hcareful : s.Careful .start) : Inv s.start := by
  rw [Channel.start]
  split
  · exact hs
  · rename_i hrunning
    have hreturned := hcareful.resolve_left hrunning
    -- The loops before have returned, so that the new one is alone.
    have hlast {h : ℕ} {p : LoopPhase} (hp : (s.loops ++ [.idle])[h]? = some p)
        (hne : p ≠ .returned) : h = s.loops.length := by
      rcases lt_trichotomy h s.loops.length with hlt | heq | hgt
      · rw [List.getElem?_append_left hlt] at hp
        exact absurd (hreturned p (List.mem_of_getElem? hp)) hne
      · exact heq
      · rw [List.getElem?_eq_none (by simpa using hgt)] at hp
        cases hp
    refine ⟨hs.failure, hs.nodup, hs.listed, hs.fresh, fun h₁ h₂ p₁ p₂ hp₁ hp₂ hne₁ hne₂ =>
      (hlast hp₁ hne₁).trans (hlast hp₂ hne₂).symm, fun p hp => ?_, hs.broadcasts, hs.waits⟩
    rcases List.mem_append.1 hp with hp | hp
    · exact ⟨(hs.held p hp).nodup, (hs.held p hp).isOpen, (hs.held p hp).removed⟩
    · obtain rfl := List.mem_singleton.1 hp
      exact holds_of_subs_eq_nil rfl rfl

/-- A careful step keeps the invariant. -/
theorem Inv.step (hs : Inv s) {a : ChannelAction} (hcareful : s.Careful a)
    (h : s.step a = some t) : Inv t := by
  have hsame {t : Channel} (hblocking : t.blocking = s.blocking) (hfailure : t.failure = none)
      (hsubscribers : t.subscribers = s.subscribers) (hsubscribed : t.subscribed = s.subscribed)
      (hchans : t.chans = s.chans) (hloops : t.loops = s.loops)
      (hbroadcasts : t.broadcasts.Sublist s.broadcasts) : Inv t :=
    hs.within ⟨hblocking, hfailure, hsubscribers ▸ .refl _, hsubscribed, fun _ => by rw [hchans],
      hloops, hbroadcasts⟩
  -- Most calls leave the loops and the channels of the subscribers alone.
  rw [Channel.step, hs.failure, Option.isSome_none, if_neg Bool.false_ne_true] at h
  cases a with
  | subscribe =>
    cases h
    exact hs.subscribe
  | unsubscribe sub =>
    cases h
    exact hs.within ⟨rfl, hs.failure, List.erase_sublist, rfl, fun _ => rfl, rfl, .refl _⟩
  | publish pub =>
    cases h
    rw [Channel.publish]
    split
    · split
      · exact hs
      · exact hsame rfl hs.failure rfl rfl rfl rfl (.refl _)
    · exact hsame rfl hs.failure rfl rfl rfl rfl (.refl _)
  | start =>
    cases h
    exact hs.start hcareful
  | close =>
    cases h
    rw [Channel.close]
    split
    · exact hs
    · rename_i closed hclosed
      split
      · rename_i hrunning
        rw [running, hclosed, Bool.not_eq_true'] at hrunning
        rw [hrunning, if_neg Bool.false_ne_true]
        exact hsame rfl hs.failure rfl rfl rfl rfl (.refl _)
      · exact hs
  | cancel pub =>
    cases h
    exact hsame rfl hs.failure rfl rfl rfl rfl (.refl _)
  | receive sub =>
    dsimp only [act] at h
    split at h
    · cases h
      exact hs.within ⟨rfl, hs.failure, .refl _, rfl, closed_update (Chan.receive_closed _), rfl,
        .refl _⟩
    · cases h
  | enqueue pub =>
    dsimp only [act] at h
    split at h
    · cases h
      exact hsame rfl hs.failure rfl rfl rfl rfl (.refl _)
    · cases h
  | giveUp pub =>
    dsimp only [act] at h
    split at h
    · cases h
      exact hsame rfl hs.failure rfl rfl rfl rfl (.refl _)
    · cases h
  | loop g a =>
    dsimp only [act] at h
    split at h
    · cases h
    · rename_i p hg
      exact hs.loopStep hg hcareful h
  | deliver pub sub =>
    dsimp only [act] at h
    split at h
    · rename_i hmem
      obtain ⟨t', ht', rfl⟩ := Option.map_eq_some_iff.1 h
      have ht := hs.within (send_within hs (hs.broadcasts _ hmem) ht')
      exact ht.within ⟨rfl, ht.failure, .refl _, rfl, fun _ => rfl, rfl, List.erase_sublist⟩
    · cases h
  | drop pub sub =>
    dsimp only [act] at h
    split at h
    · cases h
      exact hsame rfl hs.failure rfl rfl rfl rfl List.erase_sublist
    · cases h

/-- In a run whose steps are careful nothing fails: no message is sent to a channel that is
    closed, and no channel is closed again. -/
theorem careful_safe {s : Channel} (h : (lts.restrict Careful).Reach (fun _ => True) s) :
    s.failure = none := by
  have hinv : Inv s := h.invariant (fun _ hinit _ => by
      obtain ⟨_, _, _, rfl⟩ := hinit
      exact inv_new _ _ _)
    fun _ _ _ _ hs hstep _ => hs.step hstep.1 hstep.2
  exact hinv.failure

/-- A channel that nobody subscribes to may be started. -/
theorem careful_safe_example :
    ({ blocking := false, bufferSize := 0, subsLimit := 0 } : Channel).start.failure = none :=
  careful_safe <| .step (a := .start) (.init ⟨false, 0, 0, rfl⟩ trivial)
    ⟨.inr fun _ h => absurd h List.not_mem_nil, rfl⟩ trivial

/-- A message is broadcast to a subscriber that does not receive, and a goroutine is left that
    sends it once the channel of the subscriber is closed. -/
def lateBroadcast : List ChannelAction :=
  [.subscribe, .start, .publish 7, .loop 0 .select, .loop 0 (.handOver 7), .loop 0 .retrieve,
    .loop 0 .broadcast, .close, .loop 0 .select, .loop 0 .receiveClosed, .loop 0 .retrieve,
    .loop 0 .remove, .loop 0 .closeSub, .deliver 7 0]

/-- The channel is closed and started again during a broadcast, so there are two goroutines that
    close the channels of subscribers. -/
def restart : List ChannelAction :=
  [.subscribe, .start, .publish 7, .loop 0 .select, .loop 0 (.handOver 7), .loop 0 .retrieve,
    .close, .start, .receive 0, .loop 0 .broadcast, .close, .loop 0 .select, .loop 1 .select,
    .loop 0 .receiveClosed, .loop 1 .receiveClosed, .loop 0 .retrieve, .loop 1 .retrieve,
    .loop 0 .remove, .loop 0 .closeSub, .loop 1 .remove, .loop 1 .closeSub]

theorem reach_of_run {blocking : Bool} {l : List ChannelAction} {failure : Option Failure}
    (h : (Lts.run step { blocking, bufferSize := 0, subsLimit := 0 } l).map Channel.failure =
      some failure) :
    ∃ s, lts.Reach (fun _ => True) s ∧ s.failure = failure := by
  obtain ⟨s, hs, hfailure⟩ := Option.map_eq_some_iff.1 h
  exact ⟨s, (Lts.exec_of_run (m := lts) (fun _ _ _ => id) hs).reach (fun _ => trivial)
    (.init ⟨blocking, 0, 0, rfl⟩ trivial), hfailure⟩

/-- A message may be sent to a channel that is closed, and a channel closed twice. -/
theorem not_safe :
    (∃ s, lts.Reach (fun _ => True) s ∧ s.failure = some (.sendOnClosed 0)) ∧
      ∃ s, lts.Reach (fun _ => True) s ∧ s.failure = some (.closeOfClosed 0) :=
  ⟨@reach_of_run false lateBroadcast _ (by decide), @reach_of_run true restart _ (by decide)⟩

end Channel

end Gzv2ray.Stats
