import Gzv2ray.Vmess.AuthID

/-!
# The validator of users

A `TimedUserValidator` knows each user in three places: the list of the users,
the map from the hashes of their identifiers at the seconds around now, and the
decoders of the AEAD identifiers.

* `TimedUserValidator.add`, `TimedUserValidator.remove`: a user is added, or
  removed by email;
* `TimedUserValidator.updateUserHash`: the periodic pass, which adds the hashes
  of the seconds since the last one, and removes those that are expired;
* `TimedUserValidator.get`, `TimedUserValidator.getAEAD`: finds a user;
* `TimedUserValidator.burnTaintFuse`: taints a hash.

Each is done under a lock, so they come one after another (`ValidatorOperation`).
-/

namespace Gzv2ray.Vmess

/-- What the validator takes from other packages: the hash of a message under the bytes
    of an identifier, the decryption of a block, the checksum that a seed is
    updated with, and the case of letters. -/
structure Primitives where
  hasher : Bytes → Bytes → Block
  decrypt : Block → Block → Block
  updateSeed : UInt64 → Bytes → UInt64
  toLower : Bytes → Bytes
  equalFold : Bytes → Bytes → Bool

/-! ## Users -/

structure ID where
  uuid : Block
  cmdKey : Block
  deriving DecidableEq

structure MemoryAccount where
  id : ID
  alterIDs : List ID := []
  deriving DecidableEq

/-- The identifiers of an account, the main one first. -/
def MemoryAccount.ids (a : MemoryAccount) : List ID := a.id :: a.alterIDs

structure MemoryUser where
  account : MemoryAccount
  email : Bytes
  level : UInt32 := 0
  deriving DecidableEq

/-- A user, and the last second of its hashes. -/
structure User where
  user : MemoryUser
  lastSec : ℤ
  deriving DecidableEq

/-- What a hash is of: a user, the second after the base time, and whether it is tainted. -/
structure IndexTimePair where
  user : MemoryUser
  timeInc : UInt32
  tainted : Bool
  deriving DecidableEq

def cacheDurationSec : ℤ := 120

def newError (text : String) : Error := Gzv2ray.newError "proxy/vmess" text

def ErrNotFound : Error := newError "Not Found"

def ErrTainted : Error := newError "ErrTainted"

/-- An array of sixteen bytes that some bytes are copied to. -/
def toBlock (b : Bytes) : Block :=
  ⟨(b ++ List.replicate 16 0).take 16, by rw [List.length_take]; simp⟩

theorem toBlock_val (b : Block) : toBlock b.1 = b := by
  apply Subtype.ext
  exact List.take_left' b.2

/-! ## Hashes -/

section

variable (pr : Primitives)

/-- The hash of an identifier at some second. -/
def idHash (id : ID) (ts : ℤ) : Block :=
  pr.hasher id.uuid.1 (bigEndian 8 (ts % 2 ^ 64).toNat)

/-- The entries of so many seconds from one on. -/
def genHashLoop (baseTime : ℤ) (user : MemoryUser) (id : ID) :
    ℕ → ℤ → (Block → Option IndexTimePair) → Block → Option IndexTimePair
  | 0, _, m => m
  | n + 1, ts, m => genHashLoop baseTime user id n (ts + 1)
      (Function.update m (idHash pr id ts) (some ⟨user, UInt32.ofInt (ts - baseTime), false⟩))

/-- The first second that hashes are generated of. -/
def genBeginSec (nowSec lastSec : ℤ) : ℤ :=
  if lastSec < nowSec - cacheDurationSec then nowSec - cacheDurationSec else lastSec

/-- The last second that hashes are generated of. -/
def genEndSec (nowSec : ℤ) : ℤ := nowSec + cacheDurationSec

/-- The seconds include the last one of the pass before. -/
def genHashForID (baseTime nowSec : ℤ) (user : User) (m : Block → Option IndexTimePair) (id : ID) :
    Block → Option IndexTimePair :=
  let begin_ := genBeginSec nowSec user.lastSec
  genHashLoop pr baseTime user.user id (genEndSec nowSec + 1 - begin_).toNat begin_ m

def generateNewHashes (baseTime nowSec : ℤ) (m : Block → Option IndexTimePair) (user : User) :
    Block → Option IndexTimePair :=
  user.user.account.ids.foldl (genHashForID pr baseTime nowSec user) m

end

/-! ### What is written -/

/-- An entry of a user at one of the seconds that a pass generates hashes of. -/
def IsGenerated (pr : Primitives) (baseTime nowSec : ℤ) (user : User) (k : Block)
    (entry : Option IndexTimePair) : Prop :=
  ∃ id ∈ user.user.account.ids, ∃ ts, genBeginSec nowSec user.lastSec ≤ ts ∧
    ts ≤ genEndSec nowSec ∧ k = idHash pr id ts ∧
    entry = some ⟨user.user, UInt32.ofInt (ts - baseTime), false⟩

/-- What each step writes or leaves, all of them do. -/
theorem foldl_writes {α β γ : Type} {f : (β → γ) → α → β → γ} {k : β} {W : α → γ → Prop}
    (h : ∀ m a, W a (f m a k) ∨ f m a k = m k) (l : List α) (m : β → γ) :
    (∃ a ∈ l, W a (l.foldl f m k)) ∨ l.foldl f m k = m k := by
  induction l generalizing m with
  | nil => exact .inr rfl
  | cons a l ih =>
    rcases ih (f m a) with ⟨b, hb, hW⟩ | heq
    · exact .inl ⟨b, List.mem_cons_of_mem _ hb, hW⟩
    · rw [List.foldl_cons, heq]
      exact (h m a).imp_left fun hW => ⟨a, List.mem_cons_self, hW⟩

theorem genHashLoop_writes (pr : Primitives) (baseTime : ℤ) (user : MemoryUser) (id : ID) (n : ℕ)
    (ts : ℤ) (m : Block → Option IndexTimePair) (k : Block) :
    (∃ j, ts ≤ j ∧ j < ts + n ∧ k = idHash pr id j ∧ genHashLoop pr baseTime user id n ts m k =
      some ⟨user, UInt32.ofInt (j - baseTime), false⟩) ∨
    genHashLoop pr baseTime user id n ts m k = m k := by
  induction n generalizing ts m with
  | zero => exact .inr rfl
  | succ n ih =>
    rw [genHashLoop]
    rcases ih (ts + 1) (Function.update m (idHash pr id ts)
      (some ⟨user, UInt32.ofInt (ts - baseTime), false⟩)) with ⟨j, hle, hlt, hk, hj⟩ | heq
    · exact .inl ⟨j, by omega, by push_cast; omega, hk, hj⟩
    · rw [heq]
      by_cases hk : k = idHash pr id ts
      · subst hk
        exact .inl ⟨ts, le_rfl, by push_cast; omega, rfl, Function.update_self _ _ _⟩
      · exact .inr (Function.update_of_ne hk _ _)

/-- A pass over the identifiers of a user writes its entries only. -/
theorem generateNewHashes_writes (pr : Primitives) (baseTime nowSec : ℤ)
    (m : Block → Option IndexTimePair) (user : User) (k : Block) :
    IsGenerated pr baseTime nowSec user k (generateNewHashes pr baseTime nowSec m user k) ∨
      generateNewHashes pr baseTime nowSec m user k = m k := by
  refine foldl_writes (W := fun id entry => ∃ ts, genBeginSec nowSec user.lastSec ≤ ts ∧
    ts ≤ genEndSec nowSec ∧ k = idHash pr id ts ∧
    entry = some ⟨user.user, UInt32.ofInt (ts - baseTime), false⟩) (fun m id => ?_) _ m
  refine (genHashLoop_writes pr baseTime user.user id _ _ m k).imp_left ?_
  rintro ⟨ts, hle, hlt, hk, hts⟩
  exact ⟨ts, hle, by omega, hk, hts⟩

/-- Entries before some second are removed. -/
def removeExpiredHashes (expire : UInt32) (m : Block → Option IndexTimePair) :
    Block → Option IndexTimePair := fun k => (m k).filter fun pair => ¬ pair.timeInc < expire

/-! ## The validator -/

structure TimedUserValidator (F : Type) where
  users : List User
  userHash : Block → Option IndexTimePair
  baseTime : ℤ
  behaviorSeed : UInt64
  behaviorFused : Bool
  aeadDecoderHolder : AuthIDDecoderHolder F MemoryUser

/-- The last element takes the place of the one that is removed. -/
def swapRemove {α : Type} (l : List α) (idx : ℕ) : List α :=
  match l.getLast? with
  | none => l
  | some last => (l.set idx last).dropLast

namespace TimedUserValidator

variable {F : Type} (pr : Primitives) (c : CuckooFilter F) (v : TimedUserValidator F)

/-- The first pass finds no users. -/
def new (now : ℤ) : TimedUserValidator F where
  users := []
  userHash _ := none
  baseTime := now - cacheDurationSec * 2
  behaviorSeed := 0
  behaviorFused := false
  aeadDecoderHolder := .new c

def updateUserHash (now : ℤ) : TimedUserValidator F :=
  let m := v.users.foldl (generateNewHashes pr v.baseTime now) v.userHash
  let expire := now - cacheDurationSec
  { v with
    users := v.users.map fun u => { u with lastSec := genEndSec now }
    userHash := if expire > v.baseTime then
      removeExpiredHashes (UInt32.ofInt (expire - v.baseTime)) m else m }

def add (u : MemoryUser) (now : ℤ) : TimedUserValidator F :=
  let uu : User := ⟨u, now - cacheDurationSec⟩
  { v with
    users := v.users ++ [{ uu with lastSec := genEndSec now }]
    userHash := generateNewHashes pr v.baseTime now v.userHash uu
    behaviorSeed := if v.behaviorFused then v.behaviorSeed
      else pr.updateSeed v.behaviorSeed u.account.id.uuid.1
    aeadDecoderHolder := v.aeadDecoderHolder.addUser u.account.id.cmdKey u }

/-- The user has the email. -/
def hasEmail (email : Bytes) (u : MemoryUser) : Bool := pr.equalFold u.email (pr.toLower email)

/-- Removes the first user of the email, from the list and from the decoders. -/
def remove (email : Bytes) : Bool × TimedUserValidator F :=
  match v.users.findIdx? fun u => hasEmail pr email u.user with
  | none => (false, v)
  | some idx =>
    match v.users[idx]? with
    | none => (false, v)
    | some u => (true, { v with
        users := swapRemove v.users idx
        aeadDecoderHolder := v.aeadDecoderHolder.removeUser u.user.account.id.cmdKey })

/-- A user that a hash is of, and the second. -/
def get (userHash : Bytes) : Except Error (MemoryUser × ℤ) × TimedUserValidator F :=
  (match v.userHash (toBlock userHash) with
    | some pair =>
      if pair.tainted then .error ErrTainted else .ok (pair.user, (pair.timeInc.toNat : ℤ) + v.baseTime)
    | none => .error ErrNotFound,
    { v with behaviorFused := true })

/-- A user that an AEAD identifier is of. -/
def getAEAD (userHash : Bytes) (order : List (Block × MemoryUser)) (clock : ℕ → ℤ) :
    Except Error MemoryUser × TimedUserValidator F :=
  let (out, h, _) := v.aeadDecoderHolder.matchLoop pr.decrypt c clock (toBlock userHash) order 0
  (out, { v with aeadDecoderHolder := h })

/-- Taints a hash that was not. -/
def burnTaintFuse (userHash : Bytes) : Except Error Unit × TimedUserValidator F :=
  match v.userHash (toBlock userHash) with
  | some pair =>
    if pair.tainted then (.error ErrTainted, v)
    else (.ok (), { v with
      userHash := Function.update v.userHash (toBlock userHash) (some { pair with tainted := true }) })
  | none => (.error ErrNotFound, v)

end TimedUserValidator

section

variable {F : Type} {pr : Primitives} {v : TimedUserValidator F}

/-- A pass leaves an entry, removes it, or writes it for a user of the list. -/
theorem TimedUserValidator.updateUserHash_writes (pr : Primitives) (v : TimedUserValidator F)
    (now : ℤ) (k : Block) :
    (∃ u ∈ v.users, IsGenerated pr v.baseTime now u k ((v.updateUserHash pr now).userHash k)) ∨
      (v.updateUserHash pr now).userHash k = v.userHash k ∨
      (v.updateUserHash pr now).userHash k = none := by
  have hwrites := foldl_writes (k := k) (generateNewHashes_writes pr v.baseTime now · · k) v.users
    v.userHash
  have hentry : (v.updateUserHash pr now).userHash k =
        v.users.foldl (generateNewHashes pr v.baseTime now) v.userHash k ∨
      (v.updateUserHash pr now).userHash k = none := by
    rw [updateUserHash]
    dsimp only
    split
    · rw [removeExpiredHashes, Option.filter_eq_none_iff]
      cases v.users.foldl (generateNewHashes pr v.baseTime now) v.userHash k with
      | none => simp
      | some pair =>
        by_cases hexpired : pair.timeInc < UInt32.ofInt (now - cacheDurationSec - v.baseTime)
        · exact .inr (by simp [hexpired])
        · exact .inl (by simp [Option.filter, hexpired])
    · exact .inl rfl
  rcases hentry with hentry | hentry
  · rw [hentry]
    exact hwrites.imp_right .inl
  · exact .inr (.inr hentry)

/-- Removing an element leaves the others. -/
theorem perm_swapRemove {α : Type} {l : List α} {idx : ℕ} {x : α} (h : l[idx]? = some x) :
    l.Perm (x :: swapRemove l idx) := by
  rcases List.eq_nil_or_concat l with rfl | ⟨init, last, rfl⟩
  · cases h
  rw [List.concat_eq_append] at h ⊢
  rw [swapRemove, List.getLast?_concat]
  dsimp only
  rcases lt_or_ge idx init.length with hlt | hge
  · rw [List.getElem?_append_left hlt] at h
    obtain ⟨a, b, rfl, rfl⟩ : ∃ a b, init = a ++ x :: b ∧ a.length = idx := by
      obtain ⟨-, rfl⟩ := List.getElem?_eq_some_iff.1 h
      exact ⟨init.take idx, init.drop (idx + 1), by simp, by simp [hlt.le]⟩
    have hset : ((a ++ x :: b ++ [last]).set a.length last).dropLast = a ++ last :: b := by
      rw [List.append_assoc, List.set_append_right _ _ le_rfl, Nat.sub_self, List.cons_append,
        List.set_cons_zero, ← List.cons_append, ← List.append_assoc, List.dropLast_concat]
    rw [hset, List.append_assoc, List.cons_append]
    have h₁ : (a ++ x :: (b ++ [last])).Perm (x :: (a ++ (b ++ [last]))) := List.perm_middle
    have h₂ : (a ++ last :: b).Perm (last :: (a ++ b)) := List.perm_middle
    refine h₁.trans (.cons x ?_)
    rw [← List.append_assoc]
    exact (List.perm_append_singleton last (a ++ b)).trans h₂.symm
  · rw [List.getElem?_append_right hge] at h
    obtain ⟨hidx, rfl⟩ : idx - init.length = 0 ∧ last = x := by
      cases hk : idx - init.length with
      | zero =>
        rw [hk] at h
        exact ⟨rfl, Option.some.inj h⟩
      | succ k =>
        rw [hk] at h
        cases h
    rw [List.set_append_right _ _ hge, hidx, List.set_cons_zero, List.dropLast_concat]
    exact List.perm_append_singleton last init

end

/-- What is done with a validator, at the times of the clock. -/
inductive ValidatorOperation
  | add (u : MemoryUser) (now : ℤ)
  | remove (email : Bytes)
  | updateUserHash (now : ℤ)
  | get (userHash : Bytes)
  | getAEAD (userHash : Bytes) (order : List (Block × MemoryUser)) (clock : ℕ → ℤ)
  | burnTaintFuse (userHash : Bytes)

namespace TimedUserValidator

variable {F : Type} (pr : Primitives) (c : CuckooFilter F) (v : TimedUserValidator F)

def step : ValidatorOperation → TimedUserValidator F
  | .add u now => v.add pr u now
  | .remove email => (v.remove pr email).2
  | .updateUserHash now => v.updateUserHash pr now
  | .get userHash => (v.get userHash).2
  | .getAEAD userHash order clock => (v.getAEAD pr c userHash order clock).2
  | .burnTaintFuse userHash => (v.burnTaintFuse userHash).2

/-- The validator after some operations. -/
def run (ops : List ValidatorOperation) : TimedUserValidator F := ops.foldl (step pr c) v

end TimedUserValidator

end Gzv2ray.Vmess
