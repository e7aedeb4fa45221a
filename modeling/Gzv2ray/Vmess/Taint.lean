import Gzv2ray.Vmess.Revocation

/-!
# Tainted hashes

A hash that was tainted is not of a user again (`taint_permanent`), in every run
with times that do not decrease and identifiers that are all different, where no
pass starts with it: a pass generates the hashes of the last second of the pass
before once more.

Where one does, a user is found by the hash again (`found_after_taint`).
-/

namespace Gzv2ray.Vmess

namespace ValidatorOperation

/-- The time of an operation that generates hashes. -/
def time : ValidatorOperation → Option ℤ
  | add _ now => some now
  | updateUserHash now => some now
  | _ => none

/-- The identifiers of a user that is added. -/
def ids : ValidatorOperation → List ID
  | add u _ => u.account.ids
  | _ => []

end ValidatorOperation

def times (ops : List ValidatorOperation) : List ℤ := ops.filterMap ValidatorOperation.time

def addedIDs (ops : List ValidatorOperation) : List ID := ops.flatMap ValidatorOperation.ids

/-- An identifier that was added, and a second around the time of an operation. -/
def IsIssued (ops : List ValidatorOperation) (id : ID) (ts : ℤ) : Prop :=
  id ∈ addedIDs ops ∧
    ∃ now ∈ times ops, now - cacheDurationSec ≤ ts ∧ ts ≤ now + cacheDurationSec

/-- The hash is injective on the identifiers and seconds of a run. -/
def IsInjective (pr : Primitives) (ops : List ValidatorOperation) : Prop :=
  ∀ id ts id' ts', IsIssued ops id ts → IsIssued ops id' ts' →
    idHash pr id ts = idHash pr id' ts' → id.uuid = id'.uuid ∧ ts = ts'

/-- The times do not decrease, and the identifiers are all different. -/
structure IsTimed (ops : List ValidatorOperation) : Prop where
  sorted : (times ops).Pairwise (· ≤ ·)
  distinct : ((addedIDs ops).map ID.uuid).Nodup

section

variable {ops ops' : List ValidatorOperation} {op : ValidatorOperation}

theorem times_append : times (ops ++ ops') = times ops ++ times ops' := List.filterMap_append

theorem addedIDs_append : addedIDs (ops ++ ops') = addedIDs ops ++ addedIDs ops' :=
  List.flatMap_append

theorem IsIssued.append {id : ID} {ts : ℤ} (h : IsIssued ops id ts) : IsIssued (ops ++ ops') id ts := by
  obtain ⟨hid, now, hnow, hts⟩ := h
  rw [IsIssued, times_append, addedIDs_append]
  exact ⟨List.mem_append_left _ hid, now, List.mem_append_left _ hnow, hts⟩

theorem IsTimed.left (h : IsTimed (ops ++ ops')) : IsTimed ops := by
  obtain ⟨htimes, hids⟩ := h
  rw [times_append] at htimes
  rw [addedIDs_append, List.map_append] at hids
  exact ⟨(List.pairwise_append.1 htimes).1, hids.of_append_left⟩

/-- A time that comes later is not before. -/
theorem IsTimed.le (h : IsTimed (ops ++ [op])) {now now' : ℤ} (hnow : now ∈ times ops)
    (hop : op.time = some now') : now ≤ now' := by
  have htimes := h.sorted
  rw [times_append] at htimes
  exact (List.pairwise_append.1 htimes).2.2 now hnow now' (by simp [times, hop])

/-- An identifier that is added later is another one. -/
theorem IsTimed.ne (h : IsTimed (ops ++ [op])) {id id' : ID} (hid : id ∈ addedIDs ops)
    (hop : id' ∈ op.ids) : id.uuid ≠ id'.uuid := by
  have hids := h.distinct
  rw [addedIDs_append, List.map_append] at hids
  refine fun heq => (List.nodup_append.1 hids).2.2 _ (List.mem_map_of_mem hid) _ ?_ heq
  exact List.mem_map_of_mem (by simpa [addedIDs] using hop)

theorem IsInjective.left {pr : Primitives} (h : IsInjective pr (ops ++ ops')) : IsInjective pr ops :=
  fun id ts id' ts' hissued hissued' => h id ts id' ts' hissued.append hissued'.append

/-- An identifier that was added is known by its bytes. -/
theorem IsTimed.eq (h : IsTimed ops) {id id' : ID} (hid : id ∈ addedIDs ops)
    (hid' : id' ∈ addedIDs ops) (heq : id.uuid = id'.uuid) : id = id' :=
  List.inj_on_of_nodup_map h.distinct hid hid' heq

end

namespace TimedUserValidator

variable {F : Type} {pr : Primitives} {c : CuckooFilter F} {v : TimedUserValidator F}
  {ops : List ValidatorOperation} {op : ValidatorOperation} {k : Block} {now : ℤ}

/-! ## Steps -/

/-- A user of the list was there, or the time of the step is that of its last hashes. -/
theorem mem_step_users {u : User} (h : u ∈ (v.step pr c op).users) :
    (u ∈ v.users ∧ ∀ now, op ≠ .updateUserHash now) ∨
      ∃ now, op.time = some now ∧ u.lastSec = genEndSec now ∧ ((∃ u' ∈ v.users, u'.user = u.user) ∨
        u.user.account.ids = op.ids) := by
  cases op with
  | add u' now =>
    rcases List.mem_append.1 h with h | h
    · exact .inl ⟨h, fun _ hop => by cases hop⟩
    · obtain rfl := List.mem_singleton.1 h
      exact .inr ⟨now, rfl, rfl, .inr rfl⟩
  | remove email =>
    rw [step] at h
    rcases v.remove_cases pr email with heq | ⟨u', users, -, hperm, heq⟩
    · rw [heq] at h
      exact .inl ⟨h, fun _ hop => by cases hop⟩
    · rw [heq] at h
      exact .inl ⟨hperm.mem_iff.2 (List.mem_cons_of_mem _ h), fun _ hop => by cases hop⟩
  | updateUserHash now =>
    obtain ⟨u', hu', rfl⟩ := List.mem_map.1 h
    exact .inr ⟨now, rfl, rfl, .inl ⟨u', hu', rfl⟩⟩
  | get userHash => exact .inl ⟨h, fun _ hop => by cases hop⟩
  | getAEAD userHash order clock => exact .inl ⟨h, fun _ hop => by cases hop⟩
  | burnTaintFuse userHash =>
    rw [step, burnTaintFuse] at h
    split at h
    · split at h
      · exact .inl ⟨h, fun _ hop => by cases hop⟩
      · exact .inl ⟨h, fun _ hop => by cases hop⟩
    · exact .inl ⟨h, fun _ hop => by cases hop⟩

/-- An entry is generated for a user of the list by a pass, or for one who is added. -/
def Generates (pr : Primitives) (v : TimedUserValidator F) (op : ValidatorOperation) (k : Block)
    (entry : Option IndexTimePair) : Prop :=
  ∃ u now, op.time = some now ∧ IsGenerated pr v.baseTime now u k entry ∧
    (u ∈ v.users ∧ op = .updateUserHash now ∨ u.user.account.ids = op.ids)

/-- A step generates an entry, or leaves it, removes it or taints it. -/
theorem step_userHash (pr : Primitives) (c : CuckooFilter F) (v : TimedUserValidator F)
    (op : ValidatorOperation) (k : Block) :
    v.Generates pr op k ((v.step pr c op).userHash k) ∨
      (v.step pr c op).userHash k = v.userHash k ∨ (v.step pr c op).userHash k = none ∨
      ∃ pair, v.userHash k = some pair ∧
        (v.step pr c op).userHash k = some { pair with tainted := true } := by
  cases op with
  | add u now =>
    rcases generateNewHashes_writes pr v.baseTime now v.userHash ⟨u, now - cacheDurationSec⟩ k
      with h | h
    · exact .inl ⟨_, now, rfl, h, .inr rfl⟩
    · exact .inr (.inl h)
  | remove email =>
    refine .inr (.inl ?_)
    rw [step]
    rcases v.remove_cases pr email with heq | ⟨u, users, -, -, heq⟩ <;> rw [heq]
  | updateUserHash now =>
    rcases v.updateUserHash_writes pr now k with ⟨u, hu, h⟩ | h | h
    · exact .inl ⟨u, now, rfl, h, .inl ⟨hu, rfl⟩⟩
    · exact .inr (.inl h)
    · exact .inr (.inr (.inl h))
  | get userHash => exact .inr (.inl rfl)
  | getAEAD userHash order clock => exact .inr (.inl rfl)
  | burnTaintFuse userHash =>
    rw [step, burnTaintFuse]
    cases hpair : v.userHash (toBlock userHash) with
    | none => exact .inr (.inl rfl)
    | some pair =>
      dsimp only
      split
      · exact .inr (.inl rfl)
      · by_cases hk : k = toBlock userHash
        · subst hk
          exact .inr (.inr (.inr ⟨pair, hpair, Function.update_self _ _ _⟩))
        · exact .inr (.inl (Function.update_of_ne hk _ _))

/-! ## What is known -/

/-- The hash is one that was issued, and not for a second after the last one of a user who
    has its identifier. -/
def Knows (pr : Primitives) (ops : List ValidatorOperation) (v : TimedUserValidator F) (k : Block) :
    Prop :=
  ∃ id ts, IsIssued ops id ts ∧ k = idHash pr id ts ∧
    ∀ u ∈ v.users, id ∈ u.user.account.ids → ts ≤ u.lastSec

/-- What is known of a validator after some operations. -/
structure Tracks (pr : Primitives) (ops : List ValidatorOperation) (v : TimedUserValidator F) :
    Prop where
  ids (u) : u ∈ v.users → ∀ id ∈ u.user.account.ids, id ∈ addedIDs ops
  last (u) : u ∈ v.users → ∃ now ∈ times ops, u.lastSec = genEndSec now
  knows (k pair) : v.userHash k = some pair → v.Knows pr ops k

theorem Knows.step (h : v.Knows pr ops k) (htracks : v.Tracks pr ops)
    (htimed : IsTimed (ops ++ [op])) : (v.step pr c op).Knows pr (ops ++ [op]) k := by
  obtain ⟨id, ts, hissued, hk, hle⟩ := h
  refine ⟨id, ts, hissued.append, hk, fun u hu hid => ?_⟩
  rcases mem_step_users hu with ⟨hu, -⟩ | ⟨now, hnow, hlast, ⟨u', hu', huser⟩ | hids⟩
  · exact hle u hu hid
  · -- the last second of a user does not decrease
    obtain ⟨now', hnow', hlast'⟩ := htracks.last u' hu'
    have hts := hle u' hu' (huser ▸ hid)
    have hnow'' := htimed.le hnow' hnow
    rw [hlast, genEndSec]
    rw [hlast', genEndSec] at hts
    omega
  · rw [hids] at hid
    exact absurd rfl (htimed.ne hissued.1 hid)

theorem le_genBeginSec (now lastSec : ℤ) : now - cacheDurationSec ≤ genBeginSec now lastSec := by
  rw [genBeginSec]
  split <;> omega

theorem mem_times (h : op.time = some now) : now ∈ times (ops ++ [op]) := by
  simp [times, h]

theorem mem_addedIDs {id : ID} : id ∈ addedIDs (ops ++ [op]) ↔ id ∈ addedIDs ops ∨ id ∈ op.ids := by
  rw [addedIDs_append, List.mem_append]
  simp [addedIDs]

/-- The identifier and the second of an entry that is generated are issued. -/
theorem Generates.exists_issued {entry : Option IndexTimePair} (h : v.Generates pr op k entry)
    (htracks : v.Tracks pr ops) : ∃ u now id ts, op.time = some now ∧
      IsIssued (ops ++ [op]) id ts ∧ k = idHash pr id ts ∧ genBeginSec now u.lastSec ≤ ts ∧
      ts ≤ genEndSec now ∧
      (u ∈ v.users ∧ id ∈ u.user.account.ids ∧ op = .updateUserHash now ∨ id ∈ op.ids) := by
  obtain ⟨u, now, hnow, ⟨id, hid, ts, hbegin, hend, hk, -⟩, huser⟩ := h
  have hnear := (le_genBeginSec now u.lastSec).trans hbegin
  rcases huser with ⟨hu, hop⟩ | hids
  · have hadded : id ∈ addedIDs (ops ++ [op]) := mem_addedIDs.2 (.inl (htracks.ids u hu id hid))
    exact ⟨u, now, id, ts, hnow, ⟨hadded, now, mem_times hnow, hnear, hend⟩, hk, hbegin, hend,
      .inl ⟨hu, hid, hop⟩⟩
  · rw [hids] at hid
    exact ⟨u, now, id, ts, hnow, ⟨mem_addedIDs.2 (.inr hid), now, mem_times hnow, hnear, hend⟩, hk,
      hbegin, hend, .inr hid⟩

/-- The hash of an entry that is generated is known. -/
theorem Knows.of_generates {entry : Option IndexTimePair} (h : v.Generates pr op k entry)
    (htracks : v.Tracks pr ops) (htimed : IsTimed (ops ++ [op])) :
    (v.step pr c op).Knows pr (ops ++ [op]) k := by
  obtain ⟨u', now, id, ts, hnow, hissued, hk, -, hend, huser⟩ := h.exists_issued htracks
  refine ⟨id, ts, hissued, hk, fun u hu hid => ?_⟩
  rcases mem_step_users hu with ⟨hu, hother⟩ | ⟨now', hnow', hlast, -⟩
  · rcases huser with ⟨-, -, hop⟩ | hnew
    · exact absurd hop (hother now)
    · exact absurd rfl (htimed.ne (htracks.ids u hu id hid) hnew)
  · obtain rfl := Option.some.inj (hnow.symm.trans hnow')
    exact hlast ▸ hend

theorem Tracks.step (h : v.Tracks pr ops) (htimed : IsTimed (ops ++ [op])) :
    (v.step pr c op).Tracks pr (ops ++ [op]) where
  ids u hu id hid := by
    rw [mem_addedIDs]
    rcases mem_step_users hu with ⟨hu, -⟩ | ⟨now, -, -, ⟨u', hu', huser⟩ | hids⟩
    · exact .inl (h.ids u hu id hid)
    · exact .inl (h.ids u' hu' id (huser ▸ hid))
    · exact .inr (hids ▸ hid)
  last u hu := by
    rcases mem_step_users hu with ⟨hu, -⟩ | ⟨now, hnow, hlast, -⟩
    · obtain ⟨now, hnow, hlast⟩ := h.last u hu
      exact ⟨now, times_append ▸ List.mem_append_left _ hnow, hlast⟩
    · exact ⟨now, mem_times hnow, hlast⟩
  knows k pair hpair := by
    rcases v.step_userHash pr c op k with hgen | hentry | hentry | ⟨pair', hpair', -⟩
    · exact .of_generates hgen h htimed
    · exact (h.knows k pair (hentry ▸ hpair)).step h htimed
    · cases hentry.symm.trans hpair
    · exact (h.knows k pair' hpair').step h htimed

/-! ## A tainted hash -/

/-- A pass does not start with the hash. -/
def Spares (pr : Primitives) (k : Block) (v : TimedUserValidator F) : ValidatorOperation → Prop
  | .updateUserHash now => ∀ u ∈ v.users, now - cacheDurationSec ≤ u.lastSec →
      ∀ id ∈ u.user.account.ids, k ≠ idHash pr id u.lastSec
  | _ => True

/-- None of the passes starts with the hash. -/
def AllSpare (pr : Primitives) (c : CuckooFilter F) (k : Block) :
    TimedUserValidator F → List ValidatorOperation → Prop
  | _, [] => True
  | v, op :: ops => v.Spares pr k op ∧ AllSpare pr c k (v.step pr c op) ops

/-- The hash is known, and its entry is tainted if there is one. -/
structure IsBurnt (pr : Primitives) (ops : List ValidatorOperation) (k : Block)
    (v : TimedUserValidator F) : Prop where
  knows : v.Knows pr ops k
  tainted (pair) : v.userHash k = some pair → pair.tainted

/-- A pass that does not start with it leaves a tainted hash tainted. -/
theorem IsBurnt.step (h : v.IsBurnt pr ops k) (htracks : v.Tracks pr ops)
    (htimed : IsTimed (ops ++ [op])) (hinj : IsInjective pr (ops ++ [op])) (hspares : v.Spares pr k op) :
    (v.step pr c op).IsBurnt pr (ops ++ [op]) k := by
  refine ⟨h.knows.step htracks htimed, fun pair hpair => ?_⟩
  rcases v.step_userHash pr c op k with hgen | hentry | hentry | ⟨pair', -, hpair'⟩
  · exfalso
    obtain ⟨id, ts, hissued, hk, hle⟩ := h.knows
    obtain ⟨u, now, id', ts', hnow, hissued', hk', hbegin, -, huser⟩ := hgen.exists_issued htracks
    obtain ⟨huuid, rfl⟩ := hinj _ _ _ _ hissued.append hissued' (hk.symm.trans hk')
    obtain rfl := htimed.eq hissued.append.1 hissued'.1 huuid
    rcases huser with ⟨hu, hid, rfl⟩ | hnew
    · -- the second is the last one of the pass before
      have hts := hle u hu hid
      rw [genBeginSec] at hbegin
      split at hbegin
      · omega
      · obtain rfl : ts = u.lastSec := le_antisymm hts hbegin
        exact hspares u hu (by omega) id hid hk
    · exact htimed.ne hissued.1 hnew rfl
  · exact h.tainted pair (hentry ▸ hpair)
  · cases hentry.symm.trans hpair
  · cases hpair'.symm.trans hpair
    rfl

theorem Tracks.run (h : v.Tracks pr ops) {ops' : List ValidatorOperation}
    (htimed : IsTimed (ops ++ ops')) : (v.run pr c ops').Tracks pr (ops ++ ops') := by
  induction ops' generalizing v ops with
  | nil => exact (List.append_nil ops).symm ▸ h
  | cons op ops' ih =>
    rw [List.append_cons] at htimed ⊢
    exact ih (h.step htimed.left) htimed

theorem IsBurnt.run (h : v.IsBurnt pr ops k) (htracks : v.Tracks pr ops)
    {ops' : List ValidatorOperation} (htimed : IsTimed (ops ++ ops'))
    (hinj : IsInjective pr (ops ++ ops')) (hspare : AllSpare pr c k v ops') :
    (v.run pr c ops').IsBurnt pr (ops ++ ops') k := by
  induction ops' generalizing v ops with
  | nil => exact (List.append_nil ops).symm ▸ h
  | cons op ops' ih =>
    rw [List.append_cons] at htimed hinj ⊢
    exact ih (h.step htracks htimed.left hinj.left hspare.1) (htracks.step htimed.left) htimed hinj
      hspare.2

/-- A hash that was tainted is known and tainted. -/
theorem IsBurnt.of_burnTaintFuse {userHash : Bytes} (htracks : v.Tracks pr ops)
    (htimed : IsTimed (ops ++ [.burnTaintFuse userHash]))
    (h : (v.burnTaintFuse userHash).1 = .ok ()) :
    (v.step pr c (.burnTaintFuse userHash)).IsBurnt pr (ops ++ [.burnTaintFuse userHash])
      (toBlock userHash) := by
  cases hpair : v.userHash (toBlock userHash) with
  | none =>
    rw [burnTaintFuse, hpair] at h
    cases h
  | some pair =>
    refine ⟨(htracks.knows _ pair hpair).step htracks htimed, fun pair' hpair' => ?_⟩
    simp only [burnTaintFuse, hpair] at h
    split at h
    · cases h
    · rename_i htainted
      simp only [TimedUserValidator.step, burnTaintFuse, hpair, if_neg htainted,
        Function.update_self] at hpair'
      cases hpair'
      rfl

theorem IsBurnt.get {userHash : Bytes} (h : v.IsBurnt pr ops (toBlock userHash)) :
    (v.get userHash).1 = .error ErrTainted ∨ (v.get userHash).1 = .error ErrNotFound := by
  rw [TimedUserValidator.get]
  cases hpair : v.userHash (toBlock userHash) with
  | none => exact .inr rfl
  | some pair => exact .inl (if_pos (h.tainted pair hpair))

/-- Once a hash was tainted, it is of no user again, if no pass starts with it. -/
theorem taint_permanent {pre mid : List ValidatorOperation} {userHash : Bytes}
    (htimed : IsTimed (pre ++ .burnTaintFuse userHash :: mid))
    (hinj : IsInjective pr (pre ++ .burnTaintFuse userHash :: mid))
    (hburn : (((new c now).run pr c pre).burnTaintFuse userHash).1 = .ok ())
    (hspare : AllSpare pr c (toBlock userHash)
      ((new c now).run pr c (pre ++ [.burnTaintFuse userHash])) mid) :
    (((new c now).run pr c (pre ++ .burnTaintFuse userHash :: mid)).get userHash).1 =
        .error ErrTainted ∨
      (((new c now).run pr c (pre ++ .burnTaintFuse userHash :: mid)).get userHash).1 =
        .error ErrNotFound := by
  have hnew : (new c now : TimedUserValidator F).Tracks pr [] :=
    ⟨fun _ h => absurd h List.not_mem_nil, fun _ h => absurd h List.not_mem_nil, nofun⟩
  rw [List.append_cons] at htimed hinj ⊢
  have htracks : ((new c now).run pr c pre).Tracks pr pre := hnew.run htimed.left.left
  rw [run, List.foldl_append] at hspare
  rw [run, List.foldl_append, List.foldl_append]
  have hburnt := IsBurnt.of_burnTaintFuse (c := c) htracks htimed.left hburn
  exact (hburnt.run (htracks.step htimed.left) htimed hinj hspare).get

end TimedUserValidator

/-! ## A hash that is generated again -/

/-- The operations of a run: a user is added, a hash is tainted, and a pass is made. -/
def exampleRun (userHash : Bytes) : List ValidatorOperation :=
  [.add (exampleUser "a") 1000] ++ .burnTaintFuse userHash :: [.updateUserHash 1010]

/-- The validator after the run. -/
def exampleEnd (userHash : Bytes) : TimedUserValidator (List Bytes) :=
  (TimedUserValidator.new exactFilter 1000).run examplePrimitives exactFilter (exampleRun userHash)

theorem exampleRun_isTimed (userHash : Bytes) : IsTimed (exampleRun userHash) :=
  ⟨show List.Pairwise (· ≤ ·) [(1000 : ℤ), 1010] by decide, List.nodup_singleton _⟩

theorem take_idHash (id : ID) (ts : ℤ) :
    (idHash examplePrimitives id ts).1.take 8 = bigEndian 8 (ts % 2 ^ 64).toNat := by
  change ((bigEndian 8 (ts % 2 ^ 64).toNat ++ List.replicate 16 0).take 16).take 8 = _
  rw [List.take_take, Nat.min_eq_left (by decide), List.take_left' (length_bigEndian _ _)]

theorem exampleRun_isInjective (userHash : Bytes) :
    IsInjective examplePrimitives (exampleRun userHash) := by
  intro id ts id' ts' ⟨hid, now, hnow, hts⟩ ⟨hid', now', hnow', hts'⟩ heq
  have hids : addedIDs (exampleRun userHash) = [(exampleUser "a").account.id] := rfl
  have htimes : times (exampleRun userHash) = [1000, 1010] := rfl
  rw [hids, List.mem_singleton] at hid hid'
  rw [htimes] at hnow hnow'
  refine ⟨by rw [hid, hid'], ?_⟩
  have hbytes := congrArg (fun b : Block => ofBigEndian (b.1.take 8)) heq
  rw [take_idHash, take_idHash, ofBigEndian_bigEndian (by omega), ofBigEndian_bigEndian (by omega)]
    at hbytes
  simp only [List.mem_cons, List.not_mem_nil, or_false, cacheDurationSec] at hnow hnow' hts hts'
  omega

/-- A hash that is tainted in the middle of its seconds stays tainted. -/
theorem taint_permanent_example :
    ((exampleEnd exampleHash).get exampleHash).1 = .error ErrTainted ∨
      ((exampleEnd exampleHash).get exampleHash).1 = .error ErrNotFound := by
  have hspare : TimedUserValidator.AllSpare examplePrimitives exactFilter (toBlock exampleHash)
      ((TimedUserValidator.new exactFilter 1000).run examplePrimitives exactFilter
        ([.add (exampleUser "a") 1000] ++ [.burnTaintFuse exampleHash])) [.updateUserHash 1010] := by
    refine ⟨fun u hu _ id hid => ?_, trivial⟩
    have husers : ((TimedUserValidator.new exactFilter 1000).run examplePrimitives exactFilter
        ([.add (exampleUser "a") 1000] ++ [.burnTaintFuse exampleHash])).users =
        [⟨exampleUser "a", 1120⟩] := by decide +kernel
    rw [husers, List.mem_singleton] at hu
    subst hu
    obtain rfl := List.mem_singleton.1 hid
    decide +kernel
  exact TimedUserValidator.taint_permanent (exampleRun_isTimed exampleHash)
    (exampleRun_isInjective exampleHash) (by decide +kernel) hspare

/-- The hash of the user's identifier at the last second of its hashes. -/
def lastHash : Bytes := bigEndian 8 1120

/-- A tainted hash is of a user again, after a pass that starts with it. -/
theorem found_after_taint :
    IsTimed (exampleRun lastHash) ∧ IsInjective examplePrimitives (exampleRun lastHash) ∧
      (exampleValidator.burnTaintFuse lastHash).1 = .ok () ∧
      ((exampleEnd lastHash).get lastHash).1 = .ok (exampleUser "a", 1120) := by
  refine ⟨exampleRun_isTimed _, exampleRun_isInjective _, ?_, ?_⟩ <;> decide +kernel

end Gzv2ray.Vmess
