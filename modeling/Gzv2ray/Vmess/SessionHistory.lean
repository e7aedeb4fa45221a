import Gzv2ray.Lib.Transition
import Gzv2ray.Vmess.Server
import Mathlib.Data.List.AList

/-!
# The history of sessions

Calls of `addIfNotExits` hold a lock, under which they read the clock twice: they add a session
for three minutes, unless there is one that has not expired. A task removes those that have
expired (`removeExpiredEntries`): it reads the clock before it waits for the lock.

`sessionHistory_antiReplay`: however these are interleaved, a session is not accepted again for
three minutes, and no entry is removed before it has expired.
-/

namespace Gzv2ray.Vmess

namespace Encoding

/-! ## The entries -/

/-- When the sessions expire, in nanoseconds. -/
abbrev SessionCache := AList fun _ : SessionID => ℤ

/-- For how long a session is kept. -/
def sessionTimeout : ℤ := 3 * 60 * 10 ^ 9

namespace SessionCache

variable (cache : SessionCache)

/-- There is a session that has not expired. -/
def isHeld (session : SessionID) (now : ℤ) : Bool :=
  (cache.lookup session).any fun expire => now < expire

def addIfNotExits (session : SessionID) (checked added : ℤ) : Bool × SessionCache :=
  if cache.isHeld session checked then (false, cache)
  else (true, cache.insert session (added + sessionTimeout))

/-- The entries that expire at a time, or after. -/
def deleteBefore (now : ℤ) : SessionCache where
  entries := cache.entries.filter fun entry => ¬ entry.2 < now
  nodupKeys := cache.nodupKeys.sublist List.filter_sublist

/-- It fails if there are no entries, and makes a new map if there are none left. -/
def removeExpiredEntries (now : ℤ) : Option Error × SessionCache :=
  if cache.entries.length = 0 then (some (newError "nothing to do"), cache)
  else
    let cache := cache.deleteBefore now
    if cache.entries.length = 0 then (none, ∅) else (none, cache)

/-- The history, as servers use it. -/
def toHistory : SessionHistory := ⟨cache.lookup⟩

theorem toHistory_addIfNotExits (session : SessionID) (checked added : ℤ) :
    cache.toHistory.addIfNotExits session checked added =
      ((cache.addIfNotExits session checked added).1,
        (cache.addIfNotExits session checked added).2.toHistory) := by
  rw [SessionHistory.addIfNotExits, addIfNotExits]
  split
  · rename_i hheld
    rw [if_pos (show cache.isHeld session checked from hheld)]
  · rename_i hheld
    rw [if_neg (show ¬ cache.isHeld session checked from hheld)]
    congr 2
    funext other
    rcases eq_or_ne other session with rfl | hne
    · rw [Function.update_self, AList.lookup_insert]
      rfl
    · rw [Function.update_of_ne hne, AList.lookup_insert_ne hne]
      rfl

variable {cache}

theorem mem_lookup_deleteBefore {session : SessionID} {now expire : ℤ} :
    expire ∈ (cache.deleteBefore now).lookup session ↔
      expire ∈ cache.lookup session ∧ now ≤ expire := by
  rw [AList.mem_lookup_iff, AList.mem_lookup_iff, deleteBefore, List.mem_filter,
    decide_eq_true_iff, not_lt]

/-- Removing leaves the entries that expire at the time that was read, or after. -/
theorem mem_lookup_removeExpiredEntries {session : SessionID} {now expire : ℤ} :
    expire ∈ (cache.removeExpiredEntries now).2.lookup session ↔
      expire ∈ cache.lookup session ∧ now ≤ expire := by
  have hempty : ∀ {c : SessionCache}, c.entries.length = 0 → expire ∉ c.lookup session := by
    intro c hc hmem
    rw [AList.mem_lookup_iff, List.length_eq_zero_iff.1 hc] at hmem
    exact List.not_mem_nil hmem
  rw [removeExpiredEntries]
  split
  · rename_i hnone
    exact iff_of_false (hempty hnone) fun h => hempty hnone h.1
  · dsimp only
    rw [← mem_lookup_deleteBefore]
    split
    · rename_i hnone
      exact iff_of_false (hempty rfl) (hempty hnone)
    · rfl

end SessionCache

/-! ## The calls -/

/-- The history, with the calls under way. -/
structure SharedHistory where
  cache : SessionCache := ∅
  /-- The session that the holder of the lock adds. -/
  adding : Option SessionID := none
  /-- The times that the calls of `removeExpiredEntries` have read. -/
  removing : ℕ → Option ℤ := fun _ => none
  /-- The time that was read last. -/
  clock : ℤ

inductive HistoryAction
  /-- `addIfNotExits` locks, and tells whether it accepts the session. -/
  | check (session : SessionID) (now : ℤ) (accepted : Bool)
  | add (session : SessionID) (now : ℤ)
  | readClock (goroutine : ℕ) (now : ℤ)
  | remove (goroutine : ℕ)

namespace SharedHistory

variable (h : SharedHistory)

def step : HistoryAction → Option SharedHistory
  | .check session now accepted =>
    if h.adding = none ∧ h.clock ≤ now ∧ accepted = !h.cache.isHeld session now then
      some { h with clock := now, adding := if accepted then some session else none }
    else none
  | .add session now =>
    if h.adding = some session ∧ h.clock ≤ now then
      some { h with
        clock := now
        adding := none
        cache := h.cache.insert session (now + sessionTimeout) }
    else none
  | .readClock g now =>
    if h.removing g = none ∧ h.clock ≤ now then
      some { h with clock := now, removing := Function.update h.removing g (some now) }
    else none
  | .remove g =>
    match h.removing g with
    | some now =>
      if h.adding = none then
        some { h with
          cache := (h.cache.removeExpiredEntries now).2
          removing := Function.update h.removing g none }
      else none
    | none => none

end SharedHistory

/-- The runs of a new history. -/
def sharedHistory : Lts SharedHistory HistoryAction where
  init h := ∃ clock, h = { clock }
  step h a h' := h.step a = some h'

namespace SharedHistory

variable {h h' : SharedHistory} {session : SessionID} {a : HistoryAction}

/-! ## The steps -/

theorem step_check {now : ℤ} {accepted : Bool}
    (hstep : h.step (.check session now accepted) = some h') :
    h.clock ≤ now ∧ accepted = (!h.cache.isHeld session now) ∧
      h' = { h with clock := now, adding := if accepted then some session else none } := by
  obtain ⟨⟨-, hnow, haccepted⟩, heq⟩ := Option.ite_none_right_eq_some.1 hstep
  exact ⟨hnow, haccepted, (Option.some.inj heq).symm⟩

theorem step_add {now : ℤ} (hstep : h.step (.add session now) = some h') :
    h.clock ≤ now ∧ h' = { h with
      clock := now
      adding := none
      cache := h.cache.insert session (now + sessionTimeout) } := by
  obtain ⟨⟨-, hnow⟩, heq⟩ := Option.ite_none_right_eq_some.1 hstep
  exact ⟨hnow, (Option.some.inj heq).symm⟩

theorem step_readClock {g : ℕ} {now : ℤ} (hstep : h.step (.readClock g now) = some h') :
    h.clock ≤ now ∧
      h' = { h with clock := now, removing := Function.update h.removing g (some now) } := by
  obtain ⟨⟨-, hnow⟩, heq⟩ := Option.ite_none_right_eq_some.1 hstep
  exact ⟨hnow, (Option.some.inj heq).symm⟩

theorem step_remove {g : ℕ} (hstep : h.step (.remove g) = some h') :
    ∃ now, h.removing g = some now ∧ h' = { h with
      cache := (h.cache.removeExpiredEntries now).2
      removing := Function.update h.removing g none } := by
  rw [step] at hstep
  split at hstep
  · rename_i now hnow
    obtain ⟨-, heq⟩ := Option.ite_none_right_eq_some.1 hstep
    exact ⟨now, hnow, (Option.some.inj heq).symm⟩
  · cases hstep

/-- A call of `addIfNotExits`, when no other holds the lock, is that of the history. -/
theorem exec_addIfNotExits {checked added : ℤ} (hlock : h.adding = none)
    (hchecked : h.clock ≤ checked) (hadded : checked ≤ added) :
    ∃ h', sharedHistory.Exec h
        (if h.cache.isHeld session checked then [.check session checked false]
          else [.check session checked true, .add session added]) h' ∧
      h'.adding = none ∧ h.cache.toHistory.addIfNotExits session checked added =
        (!h.cache.isHeld session checked, h'.cache.toHistory) := by
  rw [SessionCache.toHistory_addIfNotExits, SessionCache.addIfNotExits]
  by_cases hheld : h.cache.isHeld session checked
  · rw [if_pos hheld, if_pos hheld, hheld]
    exact ⟨{ h with clock := checked, adding := none },
      .single (if_pos ⟨hlock, hchecked, by rw [hheld]; rfl⟩), rfl, rfl⟩
  · rw [if_neg hheld, if_neg hheld, Bool.eq_false_of_not_eq_true hheld]
    have hcheck : h.step (.check session checked true) =
        some { h with clock := checked, adding := some session } :=
      if_pos ⟨hlock, hchecked, by rw [Bool.eq_false_of_not_eq_true hheld]; rfl⟩
    exact ⟨{ h with
      clock := added
      adding := none
      cache := h.cache.insert session (added + sessionTimeout) },
      .cons hcheck (.single (if_pos ⟨rfl, hadded⟩)), rfl, rfl⟩

/-! ## What is kept -/

/-- No call has read a time to come, and no session is kept for longer than the timeout. -/
structure Inv (h : SharedHistory) : Prop where
  removing (g now) : h.removing g = some now → now ≤ h.clock
  expire (session expire) : expire ∈ h.cache.lookup session → expire ≤ h.clock + sessionTimeout

theorem clock_le_step (hstep : h.step a = some h') : h.clock ≤ h'.clock := by
  rcases a with ⟨_, now, _⟩ | ⟨_, now⟩ | ⟨_, now⟩ | g
  · obtain ⟨hnow, -, rfl⟩ := step_check hstep
    exact hnow
  · obtain ⟨hnow, rfl⟩ := step_add hstep
    exact hnow
  · obtain ⟨hnow, rfl⟩ := step_readClock hstep
    exact hnow
  · obtain ⟨-, -, rfl⟩ := step_remove hstep
    exact le_rfl

theorem Inv.step (hinv : h.Inv) (hstep : h.step a = some h') : h'.Inv := by
  have hclock := clock_le_step hstep
  have hremoving : ∀ g now, h.removing g = some now → now ≤ h'.clock :=
    fun g now hg => (hinv.removing g now hg).trans hclock
  have hexpire : ∀ session expire, expire ∈ h.cache.lookup session →
      expire ≤ h'.clock + sessionTimeout :=
    fun session expire hmem => (hinv.expire session expire hmem).trans (by omega)
  rcases a with ⟨_, now, _⟩ | ⟨added, now⟩ | ⟨reader, now⟩ | remover
  · obtain ⟨-, -, rfl⟩ := step_check hstep
    exact ⟨hremoving, hexpire⟩
  · obtain ⟨-, rfl⟩ := step_add hstep
    refine ⟨hremoving, fun session expire hmem => ?_⟩
    dsimp only at hmem ⊢
    rcases eq_or_ne session added with rfl | hne
    · rw [AList.lookup_insert, Option.mem_some_iff] at hmem
      exact hmem.ge
    · rw [AList.lookup_insert_ne hne] at hmem
      exact hexpire session expire hmem
  · obtain ⟨-, rfl⟩ := step_readClock hstep
    refine ⟨fun g now' hg => ?_, hexpire⟩
    dsimp only at hg
    rcases eq_or_ne g reader with rfl | hne
    · rw [Function.update_self, Option.some.injEq] at hg
      exact hg.ge
    · rw [Function.update_of_ne hne] at hg
      exact hremoving g now' hg
  · obtain ⟨now, -, rfl⟩ := step_remove hstep
    refine ⟨fun g now' hg => ?_, fun session expire hmem => ?_⟩
    · dsimp only at hg
      rcases eq_or_ne g remover with rfl | hne
      · rw [Function.update_self] at hg
        cases hg
      · rw [Function.update_of_ne hne] at hg
        exact hremoving g now' hg
    · exact hexpire session expire (SessionCache.mem_lookup_removeExpiredEntries.1 hmem).1

theorem inv_new (clock : ℤ) : ({ clock } : SharedHistory).Inv where
  removing _ _ hg := by cases hg
  expire _ _ hmem := by cases hmem

/-- Removing the expired entries leaves all others, those that expire now too. -/
theorem Inv.kept_remove (hinv : h.Inv) {g : ℕ} (hstep : h.step (.remove g) = some h')
    {expire : ℤ} (hmem : expire ∈ h.cache.lookup session) (hexpire : h.clock ≤ expire) :
    expire ∈ h'.cache.lookup session := by
  obtain ⟨now, hg, rfl⟩ := step_remove hstep
  exact SessionCache.mem_lookup_removeExpiredEntries.2
    ⟨hmem, (hinv.removing g now hg).trans hexpire⟩

/-- As long as it has not expired, an entry is there, or a later one in its place. -/
theorem Inv.kept (hinv : h.Inv) (hstep : h.step a = some h') {expire : ℤ}
    (hmem : expire ∈ h.cache.lookup session) (hexpire : h.clock ≤ expire) :
    ∃ expire' ∈ h'.cache.lookup session, expire ≤ expire' := by
  rcases a with ⟨_, now, _⟩ | ⟨added, now⟩ | ⟨_, now⟩ | g
  · obtain ⟨-, -, rfl⟩ := step_check hstep
    exact ⟨expire, hmem, le_rfl⟩
  · obtain ⟨hnow, rfl⟩ := step_add hstep
    rcases eq_or_ne session added with rfl | hne
    · refine ⟨now + sessionTimeout, AList.lookup_insert _, ?_⟩
      exact (hinv.expire session expire hmem).trans (by omega)
    · exact ⟨expire, (AList.lookup_insert_ne hne).symm ▸ hmem, le_rfl⟩
  · obtain ⟨-, rfl⟩ := step_readClock hstep
    exact ⟨expire, hmem, le_rfl⟩
  · exact ⟨expire, hinv.kept_remove hstep hmem hexpire, le_rfl⟩

/-- The session was added at a time, and it is kept until the timeout is over. -/
structure Keeps (session : SessionID) (added : ℤ) (h : SharedHistory) : Prop where
  inv : h.Inv
  kept : added + sessionTimeout ≤ h.clock ∨
    ∃ expire ∈ h.cache.lookup session, added + sessionTimeout ≤ expire

theorem Keeps.step {added : ℤ} (hkeeps : h.Keeps session added) (hstep : h.step a = some h') :
    h'.Keeps session added := by
  refine ⟨hkeeps.inv.step hstep, ?_⟩
  have hclock := clock_le_step hstep
  rcases hkeeps.kept with hover | ⟨expire, hmem, hexpire⟩
  · exact .inl (hover.trans hclock)
  · rcases le_or_gt h.clock expire with hle | hgt
    · obtain ⟨expire', hmem', hle'⟩ := hkeeps.inv.kept hstep hmem hle
      exact .inr ⟨expire', hmem', hexpire.trans hle'⟩
    · exact .inl (hexpire.trans (hgt.le.trans hclock))

/-- What is accepted is accepted when the timeout is over. -/
theorem Keeps.not_accepted {added now : ℤ} (hkeeps : h.Keeps session added)
    (hstep : h.step (.check session now true) = some h') : added + sessionTimeout ≤ now := by
  obtain ⟨hnow, haccepted, -⟩ := step_check hstep
  rcases hkeeps.kept with hover | ⟨expire, hmem, hexpire⟩
  · exact hover.trans hnow
  · rw [SessionCache.isHeld, Option.mem_def.1 hmem, Option.any_some, eq_comm, Bool.not_eq_true',
      decide_eq_false_iff_not, not_lt] at haccepted
    exact hexpire.trans haccepted

end SharedHistory

/-- A session that was accepted is not accepted again before three minutes are over, and entries
    are removed when they have expired only, in all interleavings of the calls. -/
theorem sessionHistory_antiReplay {h₀ h : SharedHistory} {calls : List HistoryAction}
    (hnew : sharedHistory.init h₀) (hexec : sharedHistory.Exec h₀ calls h) :
    (∀ before session added between checked after, calls = before ++
        .add session added :: between ++ .check session checked true :: after →
      added + sessionTimeout ≤ checked) ∧
    (∀ a h', h.step a = some h' → ∀ session, ∀ expire ∈ h.cache.lookup session,
      h.clock ≤ expire → ∃ expire' ∈ h'.cache.lookup session, expire ≤ expire') ∧
    ∀ g h', h.step (.remove g) = some h' → ∀ session, ∀ expire ∈ h.cache.lookup session,
      h.clock ≤ expire → expire ∈ h'.cache.lookup session := by
  obtain ⟨clock, rfl⟩ := hnew
  have hinv : ∀ {calls h}, sharedHistory.Exec { clock } calls h → h.Inv := fun hexec =>
    hexec.preserves (fun _ _ _ hinv hstep => hinv.step hstep) (SharedHistory.inv_new clock)
  refine ⟨?_, fun a h' hstep session expire hmem => (hinv hexec).kept hstep hmem,
    fun g h' hstep session expire hmem => (hinv hexec).kept_remove hstep hmem⟩
  rintro before session added between checked after rfl
  rw [List.append_assoc, Lts.exec_append_iff] at hexec
  obtain ⟨h₁, hbefore, hexec⟩ := hexec
  rcases hexec with - | ⟨hadd, hexec⟩
  rename_i h₂
  obtain ⟨h₃, hbetween, hexec⟩ := Lts.exec_append_iff.1 hexec
  rcases hexec with - | ⟨hcheck, -⟩
  have hkeeps : h₂.Keeps session added := by
    refine ⟨(hinv hbefore).step hadd, .inr ?_⟩
    obtain ⟨-, rfl⟩ := SharedHistory.step_add hadd
    exact ⟨added + sessionTimeout, AList.lookup_insert _, le_rfl⟩
  exact (hbetween.preserves (fun _ _ _ hkeeps hstep => hkeeps.step hstep) hkeeps).not_accepted hcheck

def exampleSessionID : SessionID := ⟨toBlock [], toBlock [], toBlock []⟩

/-- The session is accepted again at the moment it expires, before an entry is removed. -/
def exampleCalls : List HistoryAction :=
  [.check exampleSessionID 0 true, .add exampleSessionID 0, .check exampleSessionID 1 false,
    .readClock 0 sessionTimeout, .check exampleSessionID sessionTimeout true,
    .add exampleSessionID sessionTimeout, .remove 0]

theorem sessionHistory_antiReplay_example : ∃ h,
    sharedHistory.Exec { clock := 0 } exampleCalls h ∧ 0 + sessionTimeout ≤ sessionTimeout := by
  have hexec : sharedHistory.Exec { clock := 0 } exampleCalls _ :=
    Lts.exec_of_run (fun _ _ _ h => h) rfl
  exact ⟨_, hexec, (sessionHistory_antiReplay ⟨0, rfl⟩ hexec).1 [.check exampleSessionID 0 true]
    exampleSessionID 0 [.check exampleSessionID 1 false, .readClock 0 sessionTimeout]
    sessionTimeout [.add exampleSessionID sessionTimeout, .remove 0] rfl⟩

end Encoding

end Gzv2ray.Vmess
