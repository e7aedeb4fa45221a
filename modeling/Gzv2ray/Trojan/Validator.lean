import Gzv2ray.Buf.Reader

/-!
# The users of Trojan

A `Validator` has two tables: one finds a user by email, in lower case, the
other by the hash of its key. Only the first one is looked at when a user is
added, so a user may take the place of another one with the same key, and is
deleted from it as well.

* `Validator.add`, `Validator.del`, `Validator.get`: the calls;
* `Users`: what the tables stand for, the users that were added and not deleted;
* `consistent_iff`: every user is found, and no other one, as long as none is
  added while another one has its key.

The function `strings.ToLower` of the standard library is a parameter.
-/

namespace Gzv2ray.Trojan

/-! ## Tables -/

/-- A user. Two of them may differ in nothing but where they are stored. -/
structure MemoryUser where
  pointer : ℕ
  email : Bytes
  key : Bytes
  deriving DecidableEq

def hexDigit (n : UInt8) : UInt8 := if n < 10 then 0x30 + n else 0x61 + (n - 10)

/-- Two digits for each byte. -/
def hexString (data : Bytes) : Bytes :=
  data.flatMap fun (v : UInt8) => [hexDigit (v >>> 4), hexDigit (v &&& 15)]

/-- What a user is found by. -/
def MemoryUser.hash (u : MemoryUser) : Bytes := hexString u.key

structure Validator where
  email : Bytes → Option MemoryUser := fun _ => none
  users : Bytes → Option MemoryUser := fun _ => none

/-- The error of this text, with an email in it. -/
def userError (email : Bytes) (text : String) : Error :=
  .new (ascii "proxy/trojan: User " ++ email ++ ascii text)

namespace Validator

variable (toLower : Bytes → Bytes)

/-- Adds a user, whose email must be empty or unique. -/
def add (v : Validator) (u : MemoryUser) : Option Error × Validator :=
  if u.email ≠ [] then
    match v.email (toLower u.email) with
    | some _ => (some (userError u.email " already exists."), v)
    | none => (none, {
        email := Function.update v.email (toLower u.email) (some u)
        users := Function.update v.users u.hash (some u) })
  else (none, { v with users := Function.update v.users u.hash (some u) })

/-- Deletes a user with a non-empty email. -/
def del (v : Validator) (e : Bytes) : Option Error × Validator :=
  if e = [] then (some (newError "proxy/trojan" "Email must not be empty."), v)
  else
    match v.email (toLower e) with
    | none => (some (userError e " not found."), v)
    | some u => (none, {
        email := Function.update v.email (toLower e) none
        users := Function.update v.users u.hash none })

def get (v : Validator) (hash : Bytes) : Option MemoryUser := v.users hash

end Validator

/-! ## Runs -/

inductive Operation
  | add (u : MemoryUser)
  | del (e : Bytes)

/-- The tables, and the users that were added successfully and not deleted since. -/
structure Users where
  tables : Validator := {}
  added : Set MemoryUser := ∅

namespace Users

variable (toLower : Bytes → Bytes)

/-- A user is meant by an email. -/
def IsOf (e : Bytes) (u : MemoryUser) : Prop := u.email ≠ [] ∧ toLower u.email = toLower e

def step (s : Users) : Operation → Users
  | .add u =>
    let (err, tables) := s.tables.add toLower u
    { tables, added := {u' | u' ∈ s.added ∨ err = none ∧ u' = u} }
  | .del e =>
    let (err, tables) := s.tables.del toLower e
    { tables, added := {u' | u' ∈ s.added ∧ ¬(err = none ∧ IsOf toLower e u')} }

/-- The users after some calls, failing ones included. -/
def run (ops : List Operation) : Users := ops.foldl (step toLower) {}

/-- A user is found by a hash just if it was added, has the key and was not deleted since. -/
def Consistent (s : Users) : Prop :=
  ∀ hash u, s.tables.get hash = some u ↔ u ∈ s.added ∧ u.hash = hash

/-- No user with a new email, or with none, is added by a call while another one has its key. -/
def KeyIsFree (s : Users) : Operation → Prop
  | .add u => (∀ u' ∈ s.added, u.email ≠ [] → ¬IsOf toLower u.email u') →
      ∀ u' ∈ s.added, u'.hash = u.hash → u' = u
  | .del _ => True

/-- The table of emails has the users that were added with one. -/
def EmailsExact (s : Users) : Prop :=
  ∀ e u, s.tables.email e = some u ↔ u ∈ s.added ∧ u.email ≠ [] ∧ toLower u.email = e

end Users

/-! ## Steps -/

namespace Users

variable {toLower : Bytes → Bytes} {s : Users}

/-- A call either fails and changes nothing, or adds a user whose email is new. -/
theorem add_cases (toLower : Bytes → Bytes) (s : Users) (u : MemoryUser) :
    (s.tables.add toLower u).1 ≠ none ∧ s.step toLower (.add u) = s ∨
      (s.tables.add toLower u).1 = none ∧
        (u.email ≠ [] → s.tables.email (toLower u.email) = none) ∧
        s.step toLower (.add u) =
          ⟨⟨if u.email ≠ [] then Function.update s.tables.email (toLower u.email) (some u)
              else s.tables.email, Function.update s.tables.users u.hash (some u)⟩,
            {u' | u' ∈ s.added ∨ u' = u}⟩ := by
  simp only [step, Validator.add]
  by_cases hemail : u.email ≠ []
  · rw [if_pos hemail]
    cases hfound : s.tables.email (toLower u.email) with
    | none => simp [hemail]
    | some u' => simp
  · rw [if_neg hemail]
    simp [hemail]

/-- A call either fails and changes nothing, or deletes the user it finds. -/
theorem del_cases (toLower : Bytes → Bytes) (s : Users) (e : Bytes) : s.step toLower (.del e) = s ∨
    ∃ u, s.tables.email (toLower e) = some u ∧ s.step toLower (.del e) =
      ⟨⟨Function.update s.tables.email (toLower e) none,
          Function.update s.tables.users u.hash none⟩,
        {u' | u' ∈ s.added ∧ ¬IsOf toLower e u'}⟩ := by
  simp only [step, Validator.del]
  by_cases he : e = []
  · simp [he]
  · rw [if_neg he]
    cases hfound : s.tables.email (toLower e) with
    | none => simp
    | some u => simp

/-- A user is added if its email is new, or if it has none. -/
theorem EmailsExact.add_ok_iff (h : s.EmailsExact toLower) (u : MemoryUser) :
    (s.tables.add toLower u).1 = none ↔ ∀ u' ∈ s.added, u.email ≠ [] → ¬IsOf toLower u.email u' := by
  rcases add_cases toLower s u with ⟨herr, heq⟩ | ⟨hok, hnew, -⟩
  · refine iff_of_false herr fun hnone => herr ?_
    rw [Validator.add]
    split_ifs with hemail
    · cases hfound : s.tables.email (toLower u.email) with
      | none => rfl
      | some u' =>
        obtain ⟨hadded, hof⟩ := (h _ u').1 hfound
        exact absurd hof (hnone u' hadded hemail)
    · rfl
  · refine iff_of_true hok fun u' hadded hemail hof => ?_
    have hfound := (h _ u').2 ⟨hadded, hof⟩
    rw [hnew hemail] at hfound
    cases hfound

theorem EmailsExact.step (h : s.EmailsExact toLower) (op : Operation) :
    (s.step toLower op).EmailsExact toLower := by
  rcases op with u | e
  · rcases add_cases toLower s u with ⟨-, heq⟩ | ⟨-, hnew, heq⟩
    · rwa [heq]
    rw [heq]
    intro e u'
    dsimp only
    by_cases hemail : u.email ≠ []
    · rw [if_pos hemail]
      by_cases he : e = toLower u.email
      · -- No user of this email was there before.
        rw [he, Function.update_self, Option.some_inj]
        constructor
        · rintro rfl
          exact ⟨.inr rfl, hemail, rfl⟩
        · rintro ⟨hadded | rfl, hne, hlower⟩
          · have hfound := (h _ u').2 ⟨hadded, hne, hlower⟩
            rw [hnew hemail] at hfound
            cases hfound
          · rfl
      · rw [Function.update_of_ne he, h]
        refine and_congr_left fun hu' => (or_iff_left ?_).symm
        rintro rfl
        exact he hu'.2.symm
    · rw [if_neg hemail, h]
      refine and_congr_left fun hu' => (or_iff_left ?_).symm
      rintro rfl
      exact hemail hu'.1
  · rcases del_cases toLower s e with heq | ⟨u, -, heq⟩
    · rwa [heq]
    rw [heq]
    intro e' u'
    dsimp only
    by_cases he : e' = toLower e
    · rw [he, Function.update_self]
      refine iff_of_false nofun ?_
      rintro ⟨⟨-, hnot⟩, hof⟩
      exact hnot hof
    · rw [Function.update_of_ne he, h]
      refine and_congr_left fun hu' => (and_iff_left ?_).symm
      exact fun hof => he (hu'.2.symm.trans hof.2)

/-- The tables stay right if no user takes the place of another one. -/
theorem Consistent.step (h : s.Consistent) (hemails : s.EmailsExact toLower) {op : Operation}
    (hfree : s.KeyIsFree toLower op) : (s.step toLower op).Consistent := by
  rcases op with u | e
  · rcases add_cases toLower s u with ⟨-, heq⟩ | ⟨hok, -, heq⟩
    · rwa [heq]
    rw [heq]
    intro hash u'
    rw [Validator.get]
    dsimp only
    by_cases hhash : hash = u.hash
    · rw [hhash, Function.update_self, Option.some_inj]
      constructor
      · rintro rfl
        exact ⟨.inr rfl, rfl⟩
      · rintro ⟨hadded | rfl, hu'⟩
        · exact (hfree ((hemails.add_ok_iff u).1 hok) u' hadded hu').symm
        · rfl
    · rw [Function.update_of_ne hhash, ← Validator.get, h]
      refine and_congr_left fun hu' => (or_iff_left ?_).symm
      rintro rfl
      exact hhash hu'.symm
  · rcases del_cases toLower s e with heq | ⟨u, hfound, heq⟩
    · rwa [heq]
    obtain ⟨hadded, hof⟩ := (hemails _ u).1 hfound
    rw [heq]
    intro hash u'
    rw [Validator.get]
    dsimp only
    by_cases hhash : hash = u.hash
    · rw [hhash, Function.update_self]
      refine iff_of_false nofun ?_
      rintro ⟨⟨hadded', hnot⟩, hu'⟩
      -- Only the user that is deleted was found by the hash.
      have hget := (h u.hash u).2 ⟨hadded, rfl⟩
      rw [(h u.hash u').2 ⟨hadded', hu'⟩, Option.some_inj] at hget
      exact hnot (hget ▸ hof)
    · rw [Function.update_of_ne hhash, ← Validator.get, h]
      refine and_congr_left fun hu' => (and_iff_left_iff_imp.2 fun hadded' hof' => ?_).symm
      have hfound' := (hemails _ u').2 ⟨hadded', hof'⟩
      rw [hfound, Option.some_inj] at hfound'
      exact hhash (hfound' ▸ hu'.symm)

/-- A user that takes the place of another one makes the tables wrong. -/
theorem keyIsFree_of_consistent (hemails : s.EmailsExact toLower) {op : Operation}
    (h : (s.step toLower op).Consistent) : s.KeyIsFree toLower op := by
  rcases op with u | e
  · intro hnew u' hadded hhash
    rcases add_cases toLower s u with ⟨herr, -⟩ | ⟨-, -, heq⟩
    · exact absurd ((hemails.add_ok_iff u).2 hnew) herr
    rw [heq] at h
    have hget := (h u.hash u').2 ⟨.inl hadded, hhash⟩
    simp only [Validator.get, Function.update_self, Option.some_inj] at hget
    exact hget.symm
  · trivial

end Users

/-! ## All runs -/

namespace Users

variable (toLower : Bytes → Bytes)

theorem emailsExact_run (ops : List Operation) : (run toLower ops).EmailsExact toLower := by
  induction ops using List.reverseRecOn with
  | nil => exact fun e u => iff_of_false nofun fun hu => hu.1
  | append_singleton ops op ih =>
    rw [run, List.foldl_append]
    exact ih.step op

/-- After each call of a run exactly the users that were added and not deleted are found by the
    hashes of their keys, just if none is added while another one has its key. -/
theorem consistent_iff (ops : List Operation) :
    (∀ calls, calls <+: ops → (run toLower calls).Consistent) ↔
      ∀ calls op, calls ++ [op] <+: ops → (run toLower calls).KeyIsFree toLower op := by
  constructor
  · intro h calls op hprefix
    have hnext := h _ hprefix
    rw [run, List.foldl_append] at hnext
    exact keyIsFree_of_consistent (emailsExact_run toLower calls) hnext
  · intro h calls hprefix
    induction calls using List.reverseRecOn with
    | nil => exact fun hash u => iff_of_false nofun fun hu => hu.1
    | append_singleton calls op ih =>
      rw [run, List.foldl_append]
      exact (ih ((List.prefix_append calls [op]).trans hprefix)).step (emailsExact_run toLower calls)
        (h calls op hprefix)

end Users

/-- Two users of one key, of which the second one is deleted. -/
def sharedKey : List Operation :=
  [.add ⟨1, ascii "a", [1]⟩, .add ⟨2, ascii "b", [1]⟩, .del (ascii "b")]

/-- The first user is not found any more. -/
theorem other_revoked : ⟨1, ascii "a", [1]⟩ ∈ (Users.run id sharedKey).added ∧
    (Users.run id sharedKey).tables.get (hexString [1]) = none ∧
    ¬(Users.run id sharedKey).Consistent := by
  have hadded : ⟨1, ascii "a", [1]⟩ ∈ (Users.run id sharedKey).added :=
    ⟨.inl (.inr ⟨rfl, rfl⟩), by simp [Users.IsOf, ascii]⟩
  have hnone : (Users.run id sharedKey).tables.get (hexString [1]) = none := by decide
  refine ⟨hadded, hnone, fun h => ?_⟩
  have hget := (h (hexString [1]) _).2 ⟨hadded, rfl⟩
  rw [hnone] at hget
  cases hget

end Gzv2ray.Trojan
