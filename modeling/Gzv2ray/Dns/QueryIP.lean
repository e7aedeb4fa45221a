import Gzv2ray.Dns.ClassicNameServer
import Gzv2ray.Dns.FakeDNS

/-!
# Asking for both families

A call looks the domain up in the cache, asks for the families that are enabled if there is
nothing, and looks again until there is something. What is there may be of one family only.

* `findIPsForDomain`: what a look-up returns;
* `Query.step`: the steps of a call, among those of the server;
* `Query.Known`: what is cached for the domain was cached before or is from a response;
* `union_iff`: a look-up returns the addresses of both families if and only if the cache has
  those of each family that has any.
-/

namespace Gzv2ray.Dns

inductive QueryError
  | recordNotFound
  | rCode (code : UInt16)
  | emptyResponse
  /-- An address is not an IP address. -/
  | notIP
  /-- The context is done. -/
  | canceled
  deriving DecidableEq

structure IPOption where
  ipv4Enable : Bool
  ipv6Enable : Bool

/-! ## Looking up -/

def getIPs (now : ℕ) : Option IPRecord → Except QueryError (List Address)
  | none => .error .recordNotFound
  | some r =>
    if r.expire < now then .error .recordNotFound
    else if r.rCode ≠ 0 then .error (.rCode r.rCode)
    else .ok r.ip

def toNetIP (addrs : List Address) : Except QueryError (List Bytes) :=
  if ∀ a ∈ addrs, a.family ≠ .domain then .ok (addrs.map addressIP) else .error .notIP

/-- The addresses that were got, and the error that is left. -/
def collect (enabled : Bool) (got : Except QueryError (List Address)) :
    List Address × Option QueryError → List Address × Option QueryError
  | (ips, lastErr) =>
    if enabled then
      match got with
      | .ok a => (ips ++ a, lastErr)
      | .error e => (ips, some e)
    else (ips, lastErr)

/-- `findIPsForDomain`, with the times at which the two records are looked at. -/
def findIPsForDomain (r : Option Record) (now4 now6 : ℕ) (option : IPOption) :
    Except QueryError (List Bytes) :=
  match r with
  | none => .error .recordNotFound
  | some r =>
    let (ips, lastErr) := collect option.ipv6Enable (getIPs now6 r.aaaa)
      (collect option.ipv4Enable (getIPs now4 r.a) ([], none))
    if 0 < ips.length then toNetIP ips
    else
      match lastErr with
      | some e => .error e
      | none => .error .emptyResponse

/-! ## The call -/

/-- What a call does next. -/
inductive Querying
  /-- Looks the cache up before it asks. -/
  | lookup
  | subscribe (rest : List DnsType)
  /-- `buildReqMsgs`. -/
  | build (rest : List DnsType) (reqs : List DnsRequest)
  /-- The loop of `sendQuery`. -/
  | send (reqs : List DnsRequest)
  | find
  | wait
  | returned (r : Except QueryError (List Bytes))

/-- A call for a domain, and the server. -/
structure Query where
  server : Server
  domain : Bytes
  option : IPOption
  phase : Querying
  /-- Whether a subscriber has a message. -/
  sub : DnsType → Option Bool := fun _ => none
  /-- What the goroutine that closes `done` still waits for. -/
  waiting : Option (List DnsType) := none
  canceled : Bool := false

/-- What may happen next. -/
inductive QueryAction
  /-- The server is asked by others, or is answered. -/
  | server (a : ServerAction)
  /-- The cache is looked up, which takes some time up to each of the two records. -/
  | find (d4 d6 : ℕ)
  /-- The call subscribes, builds or sends. -/
  | ask
  /-- The goroutine that closes `done` goes on. -/
  | waiter
  /-- The call goes on as `done` is closed. -/
  | wake
  /-- The call returns as the context is done. -/
  | giveUp
  | cancel

/-- The families that are enabled. -/
def IPOption.types (option : IPOption) : List DnsType :=
  (if option.ipv4Enable then [.a] else []) ++ if option.ipv6Enable then [.aaaa] else []

namespace Query

variable (q : Query)

/-- A record that is cached is published, for each of its families. -/
def published : ServerAction → DnsType → Option Bool
  | .updateIP i, t =>
    match q.server.records[i]? with
    | some (domain, newRec) =>
      if domain = q.domain ∧ (newRec.get t).isSome then (q.sub t).map fun _ => true else q.sub t
    | none => q.sub t
  | _, t => q.sub t

def find (d4 d6 : ℕ) : Option Query :=
  let now4 := q.server.now + d4
  let now6 := now4 + d6
  let r := findIPsForDomain (q.server.server.ips q.domain) now4 now6 q.option
  let q := { q with server := { q.server with now := now6 } }
  match q.phase with
  | .lookup =>
    some { q with phase :=
      if r = .error .recordNotFound then .subscribe q.option.types else .returned r }
  | .find => some { q with phase := if r = .error .recordNotFound then .wait else .returned r }
  | _ => none

def ask : Option Query :=
  match q.phase with
  | .subscribe (t :: rest) =>
    some { q with sub := Function.update q.sub t (some false), phase := .subscribe rest }
  | .subscribe [] => some { q with waiting := some q.option.types, phase := .build q.option.types [] }
  | .build (t :: rest) reqs =>
    let (id, server) := q.server.server.newReqID
    let req : DnsRequest := { reqType := t, domain := q.domain, id }
    some { q with server := { q.server with server }, phase := .build rest (reqs ++ [req]) }
  | .build [] reqs => some { q with phase := .send reqs }
  | .send (req :: reqs) =>
    let server := q.server.server.addPendingRequest q.server.now req
    some { q with server := { q.server with server }, phase := .send reqs }
  | .send [] => some { q with phase := .find }
  | _ => none

def step : QueryAction → Option Query
  | .server a => (q.server.step a).map fun server => { q with server, sub := q.published a }
  | .find d4 d6 => q.find d4 d6
  | .ask => q.ask
  | .waiter =>
    match q.waiting with
    | some (t :: rest) =>
      if q.sub t = some true ∨ q.canceled then some { q with waiting := some rest } else none
    | _ => none
  | .wake =>
    match q.phase, q.waiting with
    | .wait, some [] => some { q with phase := .find }
    | _, _ => none
  | .giveUp =>
    match q.phase, q.canceled with
    | .wait, true => some { q with phase := .returned (.error .canceled) }
    | _, _ => none
  | .cancel => some { q with canceled := true }

variable {q} {q' : Query} {a : QueryAction}

/-- The step of a call is one of the server, or leaves what is cached and what is on its way there.
    Only a look-up returns with success. -/
theorem step_cases (h : q.step a = some q') : q'.domain = q.domain ∧ q'.option = q.option ∧
    ((∃ sa, a = .server sa ∧ q.server.step sa = some q'.server ∧ q'.phase = q.phase) ∨
      q'.server.server.ips = q.server.server.ips ∧ q'.server.records = q.server.records ∧
        (q'.phase = q.phase ∨ ∀ ips, q'.phase = .returned (.ok ips) → ∃ d4 d6, a = .find d4 d6 ∧
          findIPsForDomain (q.server.server.ips q.domain) (q.server.now + d4)
            (q.server.now + d4 + d6) q.option = .ok ips)) := by
  cases a with
  | server sa =>
    obtain ⟨server, hserver, rfl⟩ := Option.map_eq_some_iff.1 h
    exact ⟨rfl, rfl, .inl ⟨sa, rfl, hserver, rfl⟩⟩
  | find d4 d6 =>
    simp only [step, find] at h
    split at h <;> cases h
    all_goals
      refine ⟨rfl, rfl, .inr ⟨rfl, rfl, .inr fun ips hips => ⟨d4, d6, rfl, ?_⟩⟩⟩
      simp only at hips
      split_ifs at hips
      exact Querying.returned.inj hips
  | ask =>
    simp only [step, ask] at h
    split at h <;> cases h
    all_goals exact ⟨rfl, rfl, .inr ⟨rfl, rfl, .inr fun _ hips => by cases hips⟩⟩
  | waiter =>
    simp only [step] at h
    split at h
    · split_ifs at h
      cases h
      exact ⟨rfl, rfl, .inr ⟨rfl, rfl, .inl rfl⟩⟩
    · cases h
  | wake =>
    simp only [step] at h
    split at h <;> cases h
    exact ⟨rfl, rfl, .inr ⟨rfl, rfl, .inr fun _ hips => by cases hips⟩⟩
  | giveUp =>
    simp only [step] at h
    split at h <;> cases h
    exact ⟨rfl, rfl, .inr ⟨rfl, rfl, .inr fun _ hips => by cases hips⟩⟩
  | cancel =>
    cases h
    exact ⟨rfl, rfl, .inr ⟨rfl, rfl, .inl rfl⟩⟩

end Query

/-! ## Record sets -/

/-- The addresses of a record. -/
def IPRecord.addresses (r : IPRecord) : List Address := if r.rCode = 0 then r.ip else []

/-- The addresses that are got from a record, if it is there and not expired. -/
def heldAddresses (now : ℕ) (r : Option IPRecord) : List Address :=
  ((ClassicNameServer.unexpired now r).map IPRecord.addresses).getD []

theorem collect_getIPs (now : ℕ) (r : Option IPRecord) (ips : List Address)
    (lastErr : Option QueryError) :
    (collect true (getIPs now r) (ips, lastErr)).1 = ips ++ heldAddresses now r := by
  cases r with
  | none => exact (List.append_nil ips).symm
  | some r =>
    rw [getIPs, heldAddresses, ClassicNameServer.unexpired_some]
    split_ifs with hexpired hcode
    · exact (List.append_nil ips).symm
    · rw [Option.map_some, Option.getD_some, IPRecord.addresses, if_neg hcode, List.append_nil]
      rfl
    · rw [Option.map_some, Option.getD_some, IPRecord.addresses, if_pos (not_not.1 hcode)]
      rfl

/-- A look-up that succeeds returns what is held of both families. -/
theorem findIPsForDomain_ok {r : Option Record} {now4 now6 : ℕ} {ips : List Bytes}
    (h : findIPsForDomain r now4 now6 ⟨true, true⟩ = .ok ips) :
    ips = (heldAddresses now4 (r.bind fun r => r.a) ++
      heldAddresses now6 (r.bind fun r => r.aaaa)).map addressIP := by
  cases r with
  | none => cases h
  | some r =>
    have h4 := collect_getIPs now4 r.a [] none
    rw [List.nil_append] at h4
    simp only [findIPsForDomain] at h
    generalize collect true (getIPs now4 r.a) ([], none) = c at h4 h
    have h6 := collect_getIPs now6 r.aaaa c.1 c.2
    generalize collect true (getIPs now6 r.aaaa) c = c' at h6 h
    split_ifs at h
    · rw [toNetIP] at h
      split_ifs at h
      rw [← Except.ok.inj h, h6, h4]
      rfl
    · split at h <;> cases h

namespace Query

variable (q : Query) (resp : DnsType → List Address) (d4 d6 : ℕ)

/-- When a look-up looks at the record of a family. -/
def readAt : DnsType → ℕ
  | .a => q.server.now + d4
  | .aaaa => q.server.now + d4 + d6

/-- What a look-up finds for a family. -/
def held (t : DnsType) : Option IPRecord :=
  ClassicNameServer.unexpired (q.readAt d4 d6 t) (q.server.server.cached q.domain t)

/-- The record set of a family: what is held of it, or what its response has if nothing is. -/
def recordSet (t : DnsType) : List Address :=
  ((q.held d4 d6 t).map IPRecord.addresses).getD (resp t)

variable {q resp d4 d6}

/-- What a look-up returns with success is the union of the record sets if and only if it holds
    each family that has addresses. -/
theorem found_eq_iff {ips : List Bytes}
    (h : findIPsForDomain (q.server.server.ips q.domain) (q.server.now + d4)
      (q.server.now + d4 + d6) ⟨true, true⟩ = .ok ips) :
    ips = (q.recordSet resp d4 d6 .a ++ q.recordSet resp d4 d6 .aaaa).map addressIP ↔
      ∀ t, (q.held d4 d6 t).isSome ∨ resp t = [] := by
  -- The addresses that were found are the record set, or nothing if nothing is held.
  have hfound : ∀ t, heldAddresses (q.readAt d4 d6 t) (q.server.server.cached q.domain t) =
      if (q.held d4 d6 t).isSome then q.recordSet resp d4 d6 t else [] := by
    intro t
    rw [heldAddresses, recordSet, held]
    cases ClassicNameServer.unexpired (q.readAt d4 d6 t) (q.server.server.cached q.domain t) <;> rfl
  have hmissing : ∀ t, ¬(q.held d4 d6 t).isSome → q.recordSet resp d4 d6 t = resp t := by
    intro t ht
    rw [recordSet, Option.not_isSome_iff_eq_none.1 ht]
    rfl
  have hips : ips = (heldAddresses (q.readAt d4 d6 .a) (q.server.server.cached q.domain .a) ++
      heldAddresses (q.readAt d4 d6 .aaaa) (q.server.server.cached q.domain .aaaa)).map addressIP :=
    findIPsForDomain_ok h
  rw [hips, hfound, hfound]
  constructor
  · intro heq
    have hlength := congrArg List.length heq
    simp only [List.length_map, List.length_append] at hlength
    intro t
    by_contra hnot
    rw [not_or] at hnot
    have hpos := List.length_pos_of_ne_nil hnot.2
    rw [← hmissing t hnot.1] at hpos
    have hle : ∀ t, (if (q.held d4 d6 t).isSome then q.recordSet resp d4 d6 t else []).length ≤
        (q.recordSet resp d4 d6 t).length := by
      intro t
      split_ifs
      · exact le_rfl
      · exact Nat.zero_le _
    have hlt : (if (q.held d4 d6 t).isSome then q.recordSet resp d4 d6 t else []).length <
        (q.recordSet resp d4 d6 t).length := by
      rwa [if_neg hnot.1]
    cases t with
    | a => exact absurd hlength (Nat.add_lt_add_of_lt_of_le hlt (hle .aaaa)).ne
    | aaaa => exact absurd hlength (Nat.add_lt_add_of_le_of_lt (hle .a) hlt).ne
  · intro hall
    have hset : ∀ t, (if (q.held d4 d6 t).isSome then q.recordSet resp d4 d6 t else []) =
        q.recordSet resp d4 d6 t := by
      intro t
      split_ifs with hheld
      · rfl
      · rw [hmissing t hheld, (hall t).resolve_left hheld]
    rw [hset, hset]

end Query

/-! ## Runs -/

/-- The dot at the end of a domain. -/
def fqdn (domain : Bytes) : Bytes :=
  if 0 < domain.length ∧ domain.getLast? = some 46 then domain else domain ++ [46]

/-- A call of `QueryIP` for both families, before its first step. -/
def Query.new (server : Server) (domain : Bytes) (disableCache : Bool) : Query where
  server
  domain := fqdn domain
  option := ⟨true, true⟩
  phase := if disableCache then .subscribe [.a, .aaaa] else .lookup

/-- The responses to questions for the domain are valid, with these addresses of each family. -/
def Query.Valid (resp : DnsType → List Address) (q : Query) : QueryAction → Prop
  | .server (.response m) => ∀ req ipRec, q.server.server.requests m.id = some req →
    req.domain = q.domain → parseResponse q.server.now m = some ipRec →
      ipRec.ip = resp req.reqType ∧ ipRec.rCode = 0
  | _ => True

def queryLts (q₀ : Query) : Lts Query QueryAction :=
  ⟨fun q => q = q₀, fun q a q' => q.step a = some q'⟩

section Runs

variable {server : Server} {domain : Bytes} {disableCache : Bool} {resp : DnsType → List Address}
  {q q' : Query} {a : QueryAction}

/-- What is known of the domain is from before the call, or from its responses. -/
structure Query.Known (server : Server) (domain : Bytes) (resp : DnsType → List Address)
    (q : Query) : Prop where
  domain_eq : q.domain = fqdn domain
  option_eq : q.option = ⟨true, true⟩
  has : ∀ t ipRec, q.server.Has (fqdn domain) t ipRec →
    server.Has (fqdn domain) t ipRec ∨ ipRec.ip = resp t ∧ ipRec.rCode = 0

theorem Query.Known.step (h : q.Known server domain resp) (hvalid : q.Valid resp a)
    (hstep : q.step a = some q') : q'.Known server domain resp := by
  obtain ⟨hdomain, hoption, hcases⟩ := step_cases hstep
  refine ⟨hdomain.trans h.domain_eq, hoption.trans h.option_eq, fun t ipRec hhas => ?_⟩
  rcases hcases with ⟨sa, rfl, hserver, -⟩ | ⟨hips, hrecords, -⟩
  · rcases hhas.of_step hserver with hhas | ⟨m, req, rfl, hreq, hreqdomain, rfl, hparse⟩
    · exact h.has t ipRec hhas
    · exact .inr (hvalid req ipRec hreq (hreqdomain.trans h.domain_eq.symm) hparse)
  · refine h.has t ipRec ?_
    rw [Server.Has, ClassicNameServer.cached, hips, hrecords] at hhas
    exact hhas

theorem Query.Known.of_reach
    (h : ((queryLts (.new server domain disableCache)).restrict (Query.Valid resp)).Reach
      (fun _ => True) q) : q.Known server domain resp := by
  refine h.invariant (fun q hq _ => ?_) fun q a q' _ hq hstep _ => hq.step hstep.1 hstep.2
  obtain rfl := hq
  exact ⟨rfl, rfl, fun t ipRec hhas => .inl hhas⟩

/-- A record set is that of the response, or of a record from before the call. -/
theorem Query.Known.recordSet_eq (h : q.Known server domain resp) (d4 d6 : ℕ) (t : DnsType) :
    q.recordSet resp d4 d6 t = resp t ∨
      ∃ ipRec, server.Has (fqdn domain) t ipRec ∧ q.recordSet resp d4 d6 t = ipRec.addresses := by
  rw [Query.recordSet]
  rcases hheld : q.held d4 d6 t with _ | ipRec
  · exact .inl rfl
  · have hcached := Option.eq_some_of_filter_eq_some hheld
    rw [h.domain_eq] at hcached
    rcases h.has t ipRec (.inl hcached) with hprior | ⟨hip, hcode⟩
    · exact .inr ⟨ipRec, hprior, rfl⟩
    · left
      rw [Option.map_some, Option.getD_some, IPRecord.addresses, if_pos hcode, hip]

end Runs

/-! ## Two calls -/

def anIPv4 : IPv4 := ⟨[192, 0, 2, 1], rfl⟩

def anIPv6 : IPv6 := ⟨[32, 1, 13, 184, 0, 0, 0, 0, 0, 0, 0, 0, 0, 0, 0, 1], rfl⟩

/-- The responses for `"a."`. -/
def someResponses : DnsType → List Address
  | .a => [.ipv4 anIPv4]
  | .aaaa => [.ipv6 anIPv6]

/-- A server at the time 50, at which the record of the one family expires at a time and that of
    the other one is not expired. -/
def agedServer (expire4 : ℕ) : Server where
  now := 50
  server :=
    { ips := fun domain =>
        if domain = [97, 46] then
          some ⟨some ⟨1, [.ipv4 anIPv4], expire4, 0⟩, some ⟨2, [.ipv6 anIPv6], 100, 0⟩⟩
        else none }

end Gzv2ray.Dns
