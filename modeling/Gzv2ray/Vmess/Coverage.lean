import Gzv2ray.Vmess.Taint

/-!
# The seconds that hashes cover

After a pass, a user of the list is found by the hashes of the identifiers at all seconds up to
two minutes before and after it (`get_after_pass`), however late or irregular the passes are, in
every run where

* the times do not decrease, users of the list have different identifiers, and no hash is tainted;
* the seconds since the base time fit in 32 bits.

The entry of a second keeps it as a number of 32 bits. Once this wraps around, the pass removes the
entries that it has just made (`not_found_after_pass`).
-/

namespace Gzv2ray.Vmess

/-! ## What is written at least -/

/-- What a step writes, whatever it finds, and each step writes or leaves, some of them writes. -/
theorem foldl_writes_of_mem {α β γ : Type} {f : (β → γ) → α → β → γ} {k : β} {W : α → γ → Prop}
    (h : ∀ m a, W a (f m a k) ∨ f m a k = m k) {l : List α} {a : α} (ha : a ∈ l)
    (hw : ∀ m, W a (f m a k)) (m : β → γ) : ∃ b ∈ l, W b (l.foldl f m k) := by
  obtain ⟨pre, post, rfl⟩ := List.append_of_mem ha
  rw [List.foldl_append, List.foldl_cons]
  rcases foldl_writes h post (f (pre.foldl f m) a) with ⟨b, hb, hW⟩ | heq
  · exact ⟨b, List.mem_append_right _ (List.mem_cons_of_mem _ hb), hW⟩
  · rw [heq]
    exact ⟨a, List.mem_append_right _ List.mem_cons_self, hw _⟩

/-- The entries of an identifier at seconds. -/
def IsEntryOf (pr : Primitives) (baseTime : ℤ) (user : MemoryUser) (id : ID) (first last : ℤ)
    (k : Block) (entry : Option IndexTimePair) : Prop :=
  ∃ ts, first ≤ ts ∧ ts ≤ last ∧ k = idHash pr id ts ∧
    entry = some ⟨user, UInt32.ofInt (ts - baseTime), false⟩

theorem genHashLoop_covers (pr : Primitives) (baseTime : ℤ) (user : MemoryUser) (id : ID) (n : ℕ)
    (first : ℤ) (m : Block → Option IndexTimePair) {ts : ℤ} (hfirst : first ≤ ts)
    (hlast : ts < first + n) :
    IsEntryOf pr baseTime user id first (first + n - 1) (idHash pr id ts)
      (genHashLoop pr baseTime user id n first m (idHash pr id ts)) := by
  induction n generalizing first m with
  | zero => omega
  | succ n ih =>
    rw [genHashLoop]
    push_cast at hlast ⊢
    rcases hfirst.eq_or_lt with rfl | hlt
    · -- the entry of the first second is left, or written again for one that has the same hash
      rcases genHashLoop_writes pr baseTime user id n (first + 1) (Function.update m
        (idHash pr id first) (some ⟨user, UInt32.ofInt (first - baseTime), false⟩))
        (idHash pr id first) with ⟨j, hle, hlt, hk, hj⟩ | heq
      · exact ⟨j, by omega, by omega, hk, hj⟩
      · exact ⟨first, le_rfl, by omega, rfl, heq.trans (Function.update_self _ _ _)⟩
    · obtain ⟨j, hle, hlt, hk, hj⟩ := ih (first + 1) (Function.update m
        (idHash pr id first) (some ⟨user, UInt32.ofInt (first - baseTime), false⟩)) hlt (by omega)
      exact ⟨j, by omega, by omega, hk, hj⟩

/-- A pass over the identifiers of a user writes an entry of each at each of the seconds. -/
theorem generateNewHashes_covers (pr : Primitives) (baseTime nowSec : ℤ)
    (m : Block → Option IndexTimePair) (user : User) {id : ID} (hid : id ∈ user.user.account.ids)
    {ts : ℤ} (hbegin : genBeginSec nowSec user.lastSec ≤ ts) (hend : ts ≤ genEndSec nowSec) :
    IsGenerated pr baseTime nowSec user (idHash pr id ts)
      (generateNewHashes pr baseTime nowSec m user (idHash pr id ts)) := by
  refine foldl_writes_of_mem (W := fun id => IsEntryOf pr baseTime user.user id
    (genBeginSec nowSec user.lastSec) (genEndSec nowSec) (idHash pr _ ts)) (fun m id' => ?_) hid
    (fun m => ?_) m
  · refine (genHashLoop_writes pr baseTime user.user id' _ _ m _).imp_left ?_
    rintro ⟨j, hle, hlt, hk, hj⟩
    exact ⟨j, hle, by omega, hk, hj⟩
  · obtain ⟨j, hle, hlt, hk, hj⟩ := genHashLoop_covers pr baseTime user.user id
      (genEndSec nowSec + 1 - genBeginSec nowSec user.lastSec).toNat _ m hbegin (by omega)
    exact ⟨j, hle, by omega, hk, hj⟩

namespace TimedUserValidator

variable {F : Type} {pr : Primitives} {c : CuckooFilter F} {v : TimedUserValidator F}
  {ops : List ValidatorOperation} {op : ValidatorOperation} {now : ℤ}

/-! ## Regular runs -/

/-- Two users of the list have no identifier in common. -/
def HasDistinctIDs (v : TimedUserValidator F) : Prop :=
  v.users.Pairwise fun u u' => ∀ id ∈ u.user.account.ids, ∀ id' ∈ u'.user.account.ids,
    id.uuid ≠ id'.uuid

theorem HasDistinctIDs.eq (h : v.HasDistinctIDs) {u u' : User} (hu : u ∈ v.users)
    (hu' : u' ∈ v.users) {id id' : ID} (hid : id ∈ u.user.account.ids)
    (hid' : id' ∈ u'.user.account.ids) (heq : id.uuid = id'.uuid) : u = u' := by
  by_contra hne
  have hsymm : Std.Symm fun u u' : User => ∀ id ∈ u.user.account.ids, ∀ id' ∈ u'.user.account.ids,
      id.uuid ≠ id'.uuid := ⟨fun u u' h id hid id' hid' heq => h id' hid' id hid heq.symm⟩
  exact h.forall hu hu' hne id hid id' hid' heq

/-- The run of a validator that was made at a time: times do not decrease, the hash is injective,
    identifiers of users are distinct and nothing is tainted. -/
structure IsRegular (pr : Primitives) (c : CuckooFilter F) (made : ℤ)
    (ops : List ValidatorOperation) : Prop where
  sorted : (times ops).Pairwise (· ≤ ·)
  later (t) : t ∈ times ops → made ≤ t
  injective : IsInjective pr ops
  distinct (pre) : pre <+: ops → ((new c made).run pr c pre).HasDistinctIDs
  untainted (pre userHash) : pre ++ [.burnTaintFuse userHash] <+: ops →
    (((new c made).run pr c pre).burnTaintFuse userHash).1 ≠ .ok ()

/-- The seconds since the base time fit in 32 bits. -/
def Fits (made : ℤ) (ops : List ValidatorOperation) : Prop :=
  ∀ t ∈ times ops, t + cacheDurationSec - (made - cacheDurationSec * 2) < 2 ^ 32

theorem Fits.left {made : ℤ} (h : Fits made (ops ++ [op])) : Fits made ops :=
  fun t ht => h t (times_append ▸ List.mem_append_left _ ht)

theorem IsRegular.left {made : ℤ} (h : IsRegular pr c made (ops ++ [op])) :
    IsRegular pr c made ops where
  sorted := by
    have hsorted := h.sorted
    rw [times_append] at hsorted
    exact (List.pairwise_append.1 hsorted).1
  later t ht := h.later t (times_append ▸ List.mem_append_left _ ht)
  injective := h.injective.left
  distinct pre hpre := h.distinct pre (hpre.trans (List.prefix_append _ _))
  untainted pre userHash hpre := h.untainted pre userHash (hpre.trans (List.prefix_append _ _))

/-! ## What is covered -/

/-- The entry of a user at a second. -/
def entryAt (v : TimedUserValidator F) (u : User) (ts : ℤ) : IndexTimePair :=
  ⟨u.user, UInt32.ofInt (ts - v.baseTime), false⟩

/-- The users of the list have their entries at the seconds up to the last of their hashes that
    are not expired for any time before. -/
structure Covers (pr : Primitives) (made : ℤ) (ops : List ValidatorOperation)
    (v : TimedUserValidator F) : Prop where
  base : v.baseTime = made - cacheDurationSec * 2
  ids (u) : u ∈ v.users → ∀ id ∈ u.user.account.ids, id ∈ addedIDs ops
  last (u) : u ∈ v.users → ∃ t ∈ times ops, u.lastSec = genEndSec t
  entry (u) : u ∈ v.users → ∀ id ∈ u.user.account.ids, ∀ ts ≤ u.lastSec,
    (∀ t ∈ times ops, t - cacheDurationSec ≤ ts) →
    v.userHash (idHash pr id ts) = some (v.entryAt u ts)

/-- The second of an entry is that of an operation, or near. -/
theorem Covers.isIssued {made : ℤ} (h : v.Covers pr made ops) {u : User} (hu : u ∈ v.users)
    {id : ID} (hid : id ∈ u.user.account.ids) {ts : ℤ} (hts : ts ≤ u.lastSec)
    (hnear : ∀ t ∈ times ops, t - cacheDurationSec ≤ ts) : IsIssued ops id ts := by
  obtain ⟨t, ht, hlast⟩ := h.last u hu
  exact ⟨h.ids u hu id hid, t, ht, hnear t ht, hts.trans_eq hlast⟩

/-- Without an operation that writes, the entries stay. -/
theorem Covers.of_users {made : ℤ} {v' : TimedUserValidator F} (h : v.Covers pr made ops)
    (htime : op.time = none) (hbase : v'.baseTime = v.baseTime)
    (husers : ∀ u ∈ v'.users, u ∈ v.users) (hhash : v'.userHash = v.userHash) :
    v'.Covers pr made (ops ++ [op]) := by
  have htimes : times (ops ++ [op]) = times ops := by
    rw [times_append, times, times, List.filterMap_cons_none htime, List.filterMap_nil,
      List.append_nil]
  refine ⟨hbase.trans h.base, fun u hu id hid => mem_addedIDs.2 (.inl (h.ids u (husers u hu) id hid)),
    fun u hu => htimes ▸ h.last u (husers u hu), fun u hu id hid ts hts hnear => ?_⟩
  rw [hhash, h.entry u (husers u hu) id hid ts hts (htimes ▸ hnear), entryAt, entryAt, hbase]

/-- A second after the base time is kept as it is. -/
theorem toNat_ofInt {n : ℤ} (hnonneg : 0 ≤ n) (hlt : n < 2 ^ 32) :
    ((UInt32.ofInt n).toNat : ℤ) = n := by
  rw [UInt32.ofInt, Int.emod_eq_of_lt hnonneg hlt, UInt32.toNat_ofNat_of_lt' (by
    change n.toNat < 2 ^ 32
    omega), Int.toNat_of_nonneg hnonneg]

theorem Covers.add {made : ℤ} {u : MemoryUser} (h : v.Covers pr made ops)
    (hdistinct : (v.add pr u now).HasDistinctIDs)
    (hinj : IsInjective pr (ops ++ [.add u now])) :
    (v.add pr u now).Covers pr made (ops ++ [.add u now]) := by
  have htimes : ∀ {t}, t ∈ times ops → t ∈ times (ops ++ [.add u now]) :=
    fun ht => times_append ▸ List.mem_append_left _ ht
  have hnow : now ∈ times (ops ++ [.add u now]) := mem_times rfl
  have hnew : genBeginSec now (now - cacheDurationSec) = now - cacheDurationSec :=
    if_neg (lt_irrefl _)
  have hids : ∀ u' ∈ (v.add pr u now).users, ∀ id ∈ u'.user.account.ids,
      id ∈ addedIDs (ops ++ [.add u now]) := by
    intro u' hu' id hid
    rcases List.mem_append.1 hu' with hu' | hu'
    · exact mem_addedIDs.2 (.inl (h.ids u' hu' id hid))
    · obtain rfl := List.mem_singleton.1 hu'
      exact mem_addedIDs.2 (.inr hid)
  refine ⟨h.base, hids, fun u' hu' => ?_, fun u' hu' id hid ts hts hnear => ?_⟩
  · rcases List.mem_append.1 hu' with hu' | hu'
    · obtain ⟨t, ht, hlast⟩ := h.last u' hu'
      exact ⟨t, htimes ht, hlast⟩
    · obtain rfl := List.mem_singleton.1 hu'
      exact ⟨now, hnow, rfl⟩
  -- what is written for a hash of this user is written for the user
  have hwritten : ∀ entry, IsIssued (ops ++ [.add u now]) id ts →
      IsGenerated pr v.baseTime now ⟨u, now - cacheDurationSec⟩ (idHash pr id ts) entry →
      entry = some (v.entryAt u' ts) := by
    rintro entry hissued ⟨id', hid', ts', hbegin, hend, hk, rfl⟩
    obtain ⟨huuid, rfl⟩ := hinj id ts id' ts' hissued ⟨mem_addedIDs.2 (.inr hid'), now, hnow,
      hnew ▸ hbegin, hend⟩ hk
    obtain rfl := hdistinct.eq hu' (List.mem_append_right _ (List.mem_singleton.2 rfl)) hid hid' huuid
    rfl
  rcases List.mem_append.1 hu' with hu' | hu'
  · have hnear' : ∀ t ∈ times ops, t - cacheDurationSec ≤ ts := fun t ht => hnear t (htimes ht)
    rcases generateNewHashes_writes pr v.baseTime now v.userHash ⟨u, now - cacheDurationSec⟩
      (idHash pr id ts) with hgen | hleft
    · exact hwritten _ (h.isIssued hu' hid hts hnear').append hgen
    · exact hleft.trans (h.entry u' hu' id hid ts hts hnear')
  · obtain rfl := List.mem_singleton.1 hu'
    exact hwritten _ ⟨mem_addedIDs.2 (.inr hid), now, hnow, hnear now hnow, hts⟩
      (generateNewHashes_covers pr v.baseTime now v.userHash ⟨u, now - cacheDurationSec⟩ hid
        (hnew.le.trans (hnear now hnow)) hts)

/-- A pass writes the entries of the seconds since the last one, and those before are there. -/
theorem Covers.foldl_generateNewHashes {made : ℤ} (h : v.Covers pr made ops)
    (hsorted : ∀ t ∈ times ops, t ≤ now) (hdistinct : v.HasDistinctIDs)
    (hinj : IsInjective pr (ops ++ [.updateUserHash now])) {u : User} (hu : u ∈ v.users) {id : ID}
    (hid : id ∈ u.user.account.ids) {ts : ℤ} (hbegin : now - cacheDurationSec ≤ ts)
    (hend : ts ≤ genEndSec now) :
    v.users.foldl (generateNewHashes pr v.baseTime now) v.userHash (idHash pr id ts) =
      some (v.entryAt u ts) := by
  have hnow : now ∈ times (ops ++ [.updateUserHash now]) := mem_times rfl
  have hwritten : ∀ entry, (∃ u' ∈ v.users,
      IsGenerated pr v.baseTime now u' (idHash pr id ts) entry) → entry = some (v.entryAt u ts) := by
    rintro entry ⟨u', hu', id', hid', ts', hbegin', hend', hk, rfl⟩
    obtain ⟨huuid, rfl⟩ := hinj id ts id' ts'
      ⟨mem_addedIDs.2 (.inl (h.ids u hu id hid)), now, hnow, hbegin, hend⟩
      ⟨mem_addedIDs.2 (.inl (h.ids u' hu' id' hid')), now, hnow,
        (le_genBeginSec now u'.lastSec).trans hbegin', hend'⟩ hk
    obtain rfl := hdistinct.eq hu hu' hid hid' huuid
    rfl
  rcases le_or_gt (genBeginSec now u.lastSec) ts with hle | hgt
  · exact hwritten _ (foldl_writes_of_mem (W := fun u' => IsGenerated pr v.baseTime now u' _)
      (fun m u' => generateNewHashes_writes pr v.baseTime now m u' _) hu
      (fun m => generateNewHashes_covers pr v.baseTime now m u hid hle hend) v.userHash)
  · rcases foldl_writes (W := fun u' => IsGenerated pr v.baseTime now u' (idHash pr id ts))
      (fun m u' => generateNewHashes_writes pr v.baseTime now m u' _) v.users v.userHash
      with hgen | hleft
    · exact hwritten _ hgen
    · -- the pass starts with the last second of the one before
      have hlast : ts ≤ u.lastSec := by
        rw [genBeginSec] at hgt
        split at hgt
        · omega
        · exact hgt.le
      refine hleft.trans (h.entry u hu id hid ts hlast fun t ht => ?_)
      have := hsorted t ht
      omega

theorem Covers.updateUserHash {made : ℤ} (h : v.Covers pr made ops)
    (hsorted : ∀ t ∈ times ops, t ≤ now) (hlater : made ≤ now)
    (hfits : now + cacheDurationSec - v.baseTime < 2 ^ 32) (hdistinct : v.HasDistinctIDs)
    (hinj : IsInjective pr (ops ++ [.updateUserHash now])) :
    (v.updateUserHash pr now).Covers pr made (ops ++ [.updateUserHash now]) := by
  have hnow : now ∈ times (ops ++ [.updateUserHash now]) := mem_times rfl
  refine ⟨h.base, fun u' hu' id hid => ?_, fun u' hu' => ?_, fun u' hu' id hid ts hts hnear => ?_⟩
  · obtain ⟨u, hu, rfl⟩ := List.mem_map.1 hu'
    exact mem_addedIDs.2 (.inl (h.ids u hu id hid))
  · obtain ⟨u, -, rfl⟩ := List.mem_map.1 hu'
    exact ⟨now, hnow, rfl⟩
  · obtain ⟨u, hu, rfl⟩ := List.mem_map.1 hu'
    have hbegin := hnear now hnow
    have hentry := h.foldl_generateNewHashes hsorted hdistinct hinj hu hid hbegin hts
    have hbase := h.base
    -- the entry has not expired: its second is not before the first that is kept
    have hkept : ¬ (v.entryAt u ts).timeInc <
        UInt32.ofInt (now - cacheDurationSec - v.baseTime) := by
      have hend : ts ≤ now + cacheDurationSec := hts
      rw [cacheDurationSec] at *
      have hts' := toNat_ofInt (n := ts - v.baseTime) (by omega) (by omega)
      have hexpire := toNat_ofInt (n := now - 120 - v.baseTime) (by omega) (by omega)
      rw [UInt32.lt_iff_toNat_lt, entryAt]
      dsimp only
      omega
    rw [TimedUserValidator.updateUserHash]
    dsimp only
    split
    · rw [removeExpiredHashes, hentry, Option.filter_some, if_pos (decide_eq_true hkept)]
      rfl
    · exact hentry

theorem covers_new (made : ℤ) : (new c made : TimedUserValidator F).Covers pr made [] where
  base := rfl
  ids _ hu := absurd hu List.not_mem_nil
  last _ hu := absurd hu List.not_mem_nil
  entry _ hu := absurd hu List.not_mem_nil

theorem run_append (ops : List ValidatorOperation) (op : ValidatorOperation) :
    v.run pr c (ops ++ [op]) = (v.run pr c ops).step pr c op := List.foldl_append

/-- A regular run keeps the entries. -/
theorem IsRegular.covers {made : ℤ} (h : IsRegular pr c made ops) (hfits : Fits made ops) :
    ((new c made).run pr c ops).Covers pr made ops := by
  induction ops using List.reverseRecOn with
  | nil => exact covers_new made
  | append_singleton ops op ih =>
    have hcovers := ih h.left hfits.left
    have hdistinct := h.distinct ops (List.prefix_append _ _)
    have hdistinct' := h.distinct _ List.prefix_rfl
    have huntainted := h.untainted ops
    rw [run_append] at hdistinct' ⊢
    generalize hv : (new c made).run pr c ops = v at hcovers hdistinct hdistinct' huntainted
    have hsorted : ∀ t ∈ times ops, ∀ now, op.time = some now → t ≤ now := by
      have hsorted := h.sorted
      rw [times_append] at hsorted
      exact fun t ht now hnow =>
        (List.pairwise_append.1 hsorted).2.2 t ht now (by simp [times, hnow])
    rcases op with ⟨u, now⟩ | email | now | userHash | ⟨userHash, order, clock⟩ | userHash
    · exact hcovers.add hdistinct' h.injective
    · rw [step]
      rcases v.remove_cases pr email with heq | ⟨u, users, -, hperm, heq⟩
      · rw [heq]
        exact hcovers.of_users rfl rfl (fun _ hu => hu) rfl
      · rw [heq]
        exact hcovers.of_users rfl rfl
          (fun _ hu => hperm.mem_iff.2 (List.mem_cons_of_mem _ hu)) rfl
    · have hnow : now ∈ times (ops ++ [.updateUserHash now]) := mem_times rfl
      refine hcovers.updateUserHash (fun t ht => hsorted t ht now rfl) (h.later now hnow) ?_
        hdistinct h.injective
      rw [hcovers.base]
      exact hfits now hnow
    · exact hcovers.of_users rfl rfl (fun _ hu => hu) rfl
    · exact hcovers.of_users rfl rfl (fun _ hu => hu) rfl
    · have hfails := huntainted userHash List.prefix_rfl
      rw [step]
      rw [burnTaintFuse] at hfails ⊢
      split at hfails
      · split at hfails
        · rename_i htainted
          rw [if_pos htainted]
          exact hcovers.of_users rfl rfl (fun _ hu => hu) rfl
        · exact absurd rfl hfails
      · exact hcovers.of_users rfl rfl (fun _ hu => hu) rfl

/-- After a pass, a user of the list is found by the hashes of two minutes before and after. -/
theorem get_after_pass {made : ℤ} (h : IsRegular pr c made (ops ++ [.updateUserHash now]))
    (hfits : Fits made (ops ++ [.updateUserHash now])) {u : User} (hu : u ∈ ((new c made).run pr c (ops ++ [.updateUserHash now])).users) {id : ID}
    (hid : id ∈ u.user.account.ids) {ts : ℤ} (hbegin : now - cacheDurationSec ≤ ts)
    (hend : ts ≤ now + cacheDurationSec) :
    (((new c made).run pr c (ops ++ [.updateUserHash now])).get (idHash pr id ts).1).1 =
      .ok (u.user, ts) := by
  have hcovers := h.covers hfits
  have hnow : now ∈ times (ops ++ [.updateUserHash now]) := mem_times rfl
  have hsorted : ∀ t ∈ times (ops ++ [.updateUserHash now]), t ≤ now := by
    have hsorted := h.sorted
    rw [times_append] at hsorted ⊢
    intro t ht
    rcases List.mem_append.1 ht with ht | ht
    · exact (List.pairwise_append.1 hsorted).2.2 t ht now (List.mem_singleton.2 rfl)
    · exact (List.mem_singleton.1 ht).le
  have hlast : u.lastSec = genEndSec now := by
    rw [run_append] at hu
    obtain ⟨u', -, rfl⟩ := List.mem_map.1 hu
    rfl
  have hlater := h.later now hnow
  have hlt := hfits now hnow
  have hbase := hcovers.base
  have hentry := hcovers.entry u hu id hid ts (hend.trans_eq hlast.symm) fun t ht => by
    have := hsorted t ht
    omega
  generalize (new c made).run pr c (ops ++ [.updateUserHash now]) = v at hentry hbase
  have hts : ((UInt32.ofInt (ts - v.baseTime)).toNat : ℤ) = ts - v.baseTime := by
    rw [cacheDurationSec] at *
    exact toNat_ofInt (by omega) (by omega)
  rw [get, toBlock_val, hentry, entryAt]
  dsimp only
  rw [if_neg Bool.false_ne_true, hts, sub_add_cancel]

end TimedUserValidator

/-! ## A pass, and one that wraps around -/

/-- A user is added when the validator has been there for so long, and a pass is made. -/
def exampleWait (made wait : ℤ) : List ValidatorOperation :=
  [.add (exampleUser "a") (made + wait)] ++ [.updateUserHash (made + wait + 10)]

theorem exampleWait_isRegular {wait : ℤ} (hnonneg : 0 ≤ wait) (hlt : wait < 2 ^ 33) :
    TimedUserValidator.IsRegular examplePrimitives exactFilter 1000 (exampleWait 1000 wait) := by
  have htimes : times (exampleWait 1000 wait) = [1000 + wait, 1000 + wait + 10] := rfl
  have hids : addedIDs (exampleWait 1000 wait) = [(exampleUser "a").account.id] := rfl
  refine ⟨?_, fun t ht => ?_, ?_, fun pre hpre => ?_, fun pre userHash hpre => ?_⟩
  · rw [htimes]
    simp
  · rw [htimes] at ht
    simp only [List.mem_cons, List.not_mem_nil, or_false] at ht
    omega
  · intro id ts id' ts' ⟨hid, now, hnow, hts⟩ ⟨hid', now', hnow', hts'⟩ heq
    rw [hids, List.mem_singleton] at hid hid'
    rw [htimes] at hnow hnow'
    simp only [List.mem_cons, List.not_mem_nil, or_false, cacheDurationSec] at hnow hnow' hts hts'
    refine ⟨by rw [hid, hid'], ?_⟩
    have hbytes := congrArg (fun b : Block => ofBigEndian (b.1.take 8)) heq
    rw [take_idHash, take_idHash, ofBigEndian_bigEndian (by omega),
      ofBigEndian_bigEndian (by omega)] at hbytes
    omega
  · have hpre : pre ∈ (exampleWait 1000 wait).inits := (List.mem_inits _ _).2 hpre
    simp only [exampleWait, List.cons_append, List.nil_append, List.inits, List.map_cons,
      List.map_nil, List.mem_cons, List.not_mem_nil, or_false] at hpre
    rcases hpre with rfl | rfl | rfl
    · exact List.Pairwise.nil
    · exact List.pairwise_singleton _ _
    · exact List.pairwise_singleton _ _
  · have hmem : .burnTaintFuse userHash ∈ exampleWait 1000 wait :=
      hpre.subset (List.mem_append_right _ (List.mem_singleton.2 rfl))
    simp [exampleWait] at hmem

/-- The validator after the run. -/
def exampleWaited (wait : ℤ) : TimedUserValidator (List Bytes) :=
  (TimedUserValidator.new exactFilter 1000).run examplePrimitives exactFilter (exampleWait 1000 wait)

theorem mem_exampleWaited (wait : ℤ) :
    (⟨exampleUser "a", genEndSec (1000 + wait + 10)⟩ : User) ∈ (exampleWaited wait).users :=
  List.mem_singleton.2 rfl

/-- A user is found by the hash of the last second. -/
theorem get_after_pass_example :
    ((exampleWaited 0).get (idHash examplePrimitives (exampleUser "a").account.id 1130).1).1 =
      .ok (exampleUser "a", 1130) :=
  TimedUserValidator.get_after_pass (exampleWait_isRegular le_rfl (by decide))
    (show ∀ t ∈ [1000, 1010], (t : ℤ) + 120 - (1000 - 120 * 2) < 2 ^ 32 by decide)
    (mem_exampleWaited 0) List.mem_cons_self (by decide) (by decide)

/-- The last second behind the pass wraps around: its entry is removed with those that are
    expired. -/
theorem not_found_after_pass :
    TimedUserValidator.IsRegular examplePrimitives exactFilter 1000
        (exampleWait 1000 (2 ^ 32 - 370)) ∧
      (⟨exampleUser "a", 2 ^ 32 + 760⟩ : User) ∈ (exampleWaited (2 ^ 32 - 370)).users ∧
      ((exampleWaited (2 ^ 32 - 370)).get
        (idHash examplePrimitives (exampleUser "a").account.id (2 ^ 32 + 760)).1).1 =
        .error ErrNotFound := by
  refine ⟨exampleWait_isRegular (by decide) (by decide), mem_exampleWaited _, ?_⟩
  decide +kernel

end Gzv2ray.Vmess
