import Gzv2ray.Lib.Transition
import Gzv2ray.Net.Address

/-!
# A name server over UDP

A name server (`ClassicNameServer`) asks for the addresses of a domain, each family in a request
of its own. A response is taken for the request that is pending under its id, and what it holds
is cached as the record of the domain and the family that were asked for.

* `parseResponse`: the addresses that a response holds, of either family;
* `ClassicNameServer.handleResponse`, `ClassicNameServer.updateIP`: what is done with them;
* `Server.step`: the steps of a server that is asked and answered from several sides.

What the library makes of a packet is a `Message`. Times are in nanoseconds.
-/

namespace Gzv2ray.Dns

/-! ## Records -/

/-- `time.Second` -/
def second : ℕ := 1000000000

/-- The types that are asked for. -/
inductive DnsType
  | a
  | aaaa
  deriving DecidableEq

/-- `dnsmessage.Type` -/
def DnsType.code : DnsType → UInt16
  | .a => 1
  | .aaaa => 28

structure IPRecord where
  reqID : UInt16
  ip : List Address
  expire : ℕ
  rCode : UInt16

/-- The record expires no later than at a time. -/
def IPRecord.expireBy (r : IPRecord) (expire : ℕ) : IPRecord :=
  if expire < r.expire then { r with expire } else r

@[simp] theorem IPRecord.expireBy_ip (r : IPRecord) (expire : ℕ) : (r.expireBy expire).ip = r.ip := by
  rw [expireBy]
  split_ifs <;> rfl

structure Record where
  a : Option IPRecord := none
  aaaa : Option IPRecord := none

/-- The record of a family. -/
def Record.get (r : Record) : DnsType → Option IPRecord
  | .a => r.a
  | .aaaa => r.aaaa

def isNewer : Option IPRecord → Option IPRecord → Bool
  | _, none => false
  | none, some _ => true
  | some baseRec, some newRec => baseRec.expire < newRec.expire

/-- A record with the parts of another one that are newer. -/
def Record.updated (r newRec : Record) : Record where
  a := if isNewer r.a newRec.a then newRec.a else r.a
  aaaa := if isNewer r.aaaa newRec.aaaa then newRec.aaaa else r.aaaa

structure DnsRequest where
  reqType : DnsType
  domain : Bytes
  expire : ℕ := 0
  /-- The id of its message. -/
  id : UInt16

/-! ## Messages -/

structure Question where
  name : Bytes
  type : UInt16
  /-- The class. -/
  qclass : UInt16
  deriving DecidableEq

/-- `dnsmessage.ClassINET` -/
def classINET : UInt16 := 1

/-- The body of an answer, if it can be parsed. -/
inductive Resource
  | a (ip : Option IPv4)
  | aaaa (ip : Option IPv6)
  | other (type : UInt16) (skipped : Bool)

structure Answer where
  name : Bytes
  ttl : UInt32
  body : Resource

/-- A message, as the parser tells it: with its questions if it can skip them, and with its
    answers as far as it can parse their headers. -/
structure Message where
  id : UInt16
  rCode : UInt16
  questions : Option (List Question)
  answers : List Answer

/-- The loop of `parseResponse`. -/
def parseAnswers (now : ℕ) : List Answer → IPRecord → IPRecord
  | [], ipRecord => ipRecord
  | answer :: rest, ipRecord =>
    let ttl := if answer.ttl = 0 then 600 else answer.ttl
    let ipRecord := ipRecord.expireBy (now + ttl.toNat * second)
    match answer.body with
    | .a (some ip) => parseAnswers now rest { ipRecord with ip := ipRecord.ip ++ [.ipv4 ip] }
    | .aaaa (some ip) => parseAnswers now rest { ipRecord with ip := ipRecord.ip ++ [.ofIPv6 ip] }
    | .other _ true => parseAnswers now rest ipRecord
    | .a none | .aaaa none | .other _ false => ipRecord

def parseResponse (now : ℕ) (m : Message) : Option IPRecord :=
  if m.questions.isNone then none
  else some (parseAnswers now m.answers ⟨m.id, [], now + 600 * second, m.rCode⟩)

/-! ## The server -/

structure ClassicNameServer where
  ips : Bytes → Option Record := fun _ => none
  requests : UInt16 → Option DnsRequest := fun _ => none
  reqID : UInt32 := 0

namespace ClassicNameServer

variable (s : ClassicNameServer)

def newReqID : UInt16 × ClassicNameServer :=
  ((s.reqID + 1).toUInt16, { s with reqID := s.reqID + 1 })

def addPendingRequest (now : ℕ) (req : DnsRequest) : ClassicNameServer :=
  { s with requests :=
      Function.update s.requests req.id (some { req with expire := now + 8 * second }) }

/-- The first part of `HandleResponse`, which takes the pending request off. -/
def takeRequest (id : UInt16) : Option DnsRequest × ClassicNameServer :=
  match s.requests id with
  | none => (none, s)
  | some req => (some req, { s with requests := Function.update s.requests id none })

/-- What `HandleResponse` hands over to `updateIP`. -/
def newRecord (req : DnsRequest) (ipRec : IPRecord) : Option (Bytes × Record) :=
  let r : Record :=
    match req.reqType with
    | .a => { a := some ipRec }
    | .aaaa => { aaaa := some ipRec }
  if 0 < req.domain.length then some (req.domain, r) else none

def updateIP (domain : Bytes) (newRec : Record) : ClassicNameServer :=
  let r := (s.ips domain).getD {}
  if isNewer r.a newRec.a || isNewer r.aaaa newRec.aaaa then
    { s with ips := Function.update s.ips domain (some (r.updated newRec)) }
  else s

/-- A record that is not expired. -/
def unexpired (now : ℕ) (r : Option IPRecord) : Option IPRecord :=
  r.filter fun r => !decide (r.expire < now)

/-- A domain keeps the records that are not expired. -/
def cleanupRecord (now : ℕ) (r : Record) : Option Record :=
  let r : Record := ⟨unexpired now r.a, unexpired now r.aaaa⟩
  if r.a.isNone && r.aaaa.isNone then none else some r

/-- `Cleanup` -/
def cleanup (now : ℕ) : ClassicNameServer :=
  { s with
    ips domain := (s.ips domain).bind (cleanupRecord now)
    requests id := (s.requests id).filter fun req => !decide (req.expire < now) }

/-! ## The cache -/

/-- What is cached for a domain and a family. -/
def cached (domain : Bytes) (t : DnsType) : Option IPRecord := (s.ips domain).bind fun r => r.get t

variable {s}

theorem unexpired_some (now : ℕ) (r : IPRecord) :
    unexpired now (some r) = if r.expire < now then none else some r := by
  by_cases h : r.expire < now <;> simp [unexpired, Option.filter_some, h]

theorem get_getD (domain : Bytes) (t : DnsType) :
    ((s.ips domain).getD {}).get t = s.cached domain t := by
  rw [cached]
  cases s.ips domain
  · cases t <;> rfl
  · rfl

theorem get_updated (r newRec : Record) (t : DnsType) : (r.updated newRec).get t =
    if isNewer (r.get t) (newRec.get t) then newRec.get t else r.get t := by
  cases t <;> rfl

/-- A record is replaced by a newer one of its family. -/
theorem cached_updateIP (domain domain' : Bytes) (newRec : Record) (t : DnsType) :
    (s.updateIP domain newRec).cached domain' t =
      if domain' = domain ∧ isNewer (s.cached domain t) (newRec.get t) then newRec.get t
      else s.cached domain' t := by
  rw [updateIP]
  by_cases hdomain : domain' = domain
  · subst hdomain
    simp only [true_and]
    split_ifs with hupdated hnewer hnewer
    · simp only [cached, Function.update_self, Option.bind_some, get_updated, get_getD]
      exact if_pos hnewer
    · simp only [cached, Function.update_self, Option.bind_some, get_updated, get_getD]
      exact if_neg hnewer
    · -- A newer record of the family is an update.
      rw [Bool.not_eq_true, Bool.or_eq_false_iff] at hupdated
      rw [← get_getD] at hnewer
      cases t
      · exact absurd hnewer (Bool.eq_false_iff.1 hupdated.1)
      · exact absurd hnewer (Bool.eq_false_iff.1 hupdated.2)
    · rfl
  · simp only [hdomain, false_and, if_false]
    split_ifs
    · simp only [cached, Function.update_of_ne hdomain]
    · rfl

theorem cached_cleanup (now : ℕ) (domain : Bytes) (t : DnsType) :
    (s.cleanup now).cached domain t = unexpired now (s.cached domain t) := by
  simp only [cached, cleanup]
  cases s.ips domain with
  | none => rfl
  | some r =>
    simp only [Option.bind_some, cleanupRecord]
    split_ifs with hnone
    · rw [Bool.and_eq_true, Option.isNone_iff_eq_none, Option.isNone_iff_eq_none] at hnone
      cases t
      · exact hnone.1.symm
      · exact hnone.2.symm
    · cases t <;> rfl

end ClassicNameServer

/-! ## Steps -/

/-- A server, with the requests and the records that are on their way to it, and the pending
    requests that were taken off so far, each for the message that came. -/
structure Server where
  now : ℕ := 0
  server : ClassicNameServer := {}
  built : List DnsRequest := []
  records : List (Bytes × Record) := []
  answered : List (DnsRequest × Message) := []

/-- What may happen next. -/
inductive ServerAction
  | tick (d : ℕ)
  /-- `buildReqMsgs` makes a request, with the next id. -/
  | buildReq (domain : Bytes) (reqType : DnsType)
  /-- A request that was made is added to the pending ones. -/
  | addPending (i : ℕ)
  /-- A message comes, and the request that is pending under its id is taken off. -/
  | response (m : Message)
  /-- The record that a message made is cached. -/
  | updateIP (i : ℕ)
  | cleanup

namespace Server

variable (st : Server)

def buildReq (domain : Bytes) (reqType : DnsType) : Server :=
  let (id, server) := st.server.newReqID
  { st with server, built := st.built ++ [{ reqType, domain, id }] }

def response (m : Message) : Server :=
  match parseResponse st.now m with
  | none => st
  | some ipRec =>
    match st.server.takeRequest m.id with
    | (none, _) => st
    | (some req, server) =>
      { st with
        server
        records := st.records ++ (ClassicNameServer.newRecord req ipRec).toList
        answered := st.answered ++ [(req, m)] }

def step : ServerAction → Option Server
  | .tick d => some { st with now := st.now + d }
  | .buildReq domain reqType => some (st.buildReq domain reqType)
  | .addPending i => st.built[i]?.map fun req =>
    { st with server := st.server.addPendingRequest st.now req, built := st.built.eraseIdx i }
  | .response m => some (st.response m)
  | .updateIP i => st.records[i]?.map fun (domain, newRec) =>
    { st with server := st.server.updateIP domain newRec, records := st.records.eraseIdx i }
  | .cleanup => some { st with server := st.server.cleanup st.now }

end Server

/-- The runs of a new server. -/
def serverLts : Lts Server ServerAction := ⟨fun st => st = {}, fun st a st' => st.step a = some st'⟩

/-! ## What a step adds -/

/-- A record is cached for a domain and a family, or on its way there. -/
def Server.Has (st : Server) (domain : Bytes) (t : DnsType) (ipRec : IPRecord) : Prop :=
  st.server.cached domain t = some ipRec ∨
    ∃ newRec, (domain, newRec) ∈ st.records ∧ newRec.get t = some ipRec

/-- A step of the server has records that it had before, or that a message makes. -/
theorem Server.Has.of_step {st st' : Server} {a : ServerAction} (h : st.step a = some st')
    {domain : Bytes} {t : DnsType} {ipRec : IPRecord} (hhas : st'.Has domain t ipRec) :
    st.Has domain t ipRec ∨ ∃ m req, a = .response m ∧ st.server.requests m.id = some req ∧
      req.domain = domain ∧ req.reqType = t ∧ parseResponse st.now m = some ipRec := by
  -- A response is the only step that makes a record; `updateIP` moves one to the cache.
  cases a with
  | tick d =>
    obtain rfl := Option.some.inj h
    exact .inl hhas
  | buildReq domain reqType =>
    obtain rfl := Option.some.inj h
    exact .inl hhas
  | addPending i =>
    obtain ⟨req, -, rfl⟩ := Option.map_eq_some_iff.1 h
    exact .inl hhas
  | response m =>
    obtain rfl := Option.some.inj h
    rw [Server.response] at hhas
    rcases hparse : parseResponse st.now m with _ | ipRec'
    · rw [hparse] at hhas
      exact .inl hhas
    · simp only [hparse, ClassicNameServer.takeRequest] at hhas
      rcases hreq : st.server.requests m.id with _ | req
      · simp only [hreq] at hhas
        exact .inl hhas
      · simp only [hreq] at hhas
        rcases hhas with hcached | ⟨newRec, hmem, hget⟩
        · exact .inl (.inl hcached)
        · rcases List.mem_append.1 hmem with hmem | hmem
          · exact .inl (.inr ⟨newRec, hmem, hget⟩)
          · simp only [ClassicNameServer.newRecord, Option.mem_toList,
              Option.ite_none_right_eq_some, Option.some.injEq, Prod.mk.injEq] at hmem
            obtain ⟨-, rfl, rfl⟩ := hmem
            refine .inr ⟨m, req, rfl, hreq, rfl, ?_⟩
            cases ht : req.reqType <;> cases t <;> simp_all [Record.get]
  | updateIP i =>
    obtain ⟨⟨domain', newRec⟩, hget, rfl⟩ := Option.map_eq_some_iff.1 h
    rcases hhas with hcached | ⟨newRec', hmem, hget'⟩
    · rw [ClassicNameServer.cached_updateIP] at hcached
      split_ifs at hcached with hnewer
      · obtain ⟨rfl, -⟩ := hnewer
        exact .inl (.inr ⟨newRec, List.mem_of_getElem? hget, hcached⟩)
      · exact .inl (.inl hcached)
    · exact .inl (.inr ⟨newRec', List.mem_of_mem_eraseIdx hmem, hget'⟩)
  | cleanup =>
    obtain rfl := Option.some.inj h
    rcases hhas with hcached | hrecord
    · rw [ClassicNameServer.cached_cleanup] at hcached
      exact .inl (.inl (Option.eq_some_of_filter_eq_some hcached))
    · exact .inl (.inr hrecord)

end Gzv2ray.Dns
