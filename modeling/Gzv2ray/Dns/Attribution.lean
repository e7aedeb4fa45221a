import Gzv2ray.Dns.ClassicNameServer

/-!
# Where cached addresses come from

A message is taken for the request that is pending under its id, whatever it was asked and
whatever the family of its addresses. So an address in the cache comes from a message that
answers the question and carries the address in a record of its family, if this is so of each
message that is taken.

* `Server.Attributed`, `Server.Proper`: what is to hold, and of which messages;
* `Server.Sources`: the invariant, of the cache and of what is on its way to it;
* `attributed`: the outcome.
-/

namespace Gzv2ray.Dns

/-! ## What a message tells -/

/-- The addresses that are parsed, with their families. -/
def addressesOf : List Answer → List (DnsType × Address)
  | [] => []
  | answer :: rest =>
    match answer.body with
    | .a (some ip) => (.a, .ipv4 ip) :: addressesOf rest
    | .aaaa (some ip) => (.aaaa, .ofIPv6 ip) :: addressesOf rest
    | .other _ true => addressesOf rest
    | .a none | .aaaa none | .other _ false => []

/-- The message repeats the question of the request. -/
def Message.Answers (m : Message) (req : DnsRequest) : Prop :=
  m.questions = some [⟨req.domain, req.reqType.code, classINET⟩]

/-- The message has the address in a record of the family. -/
def Message.Carries (m : Message) (t : DnsType) (addr : Address) : Prop :=
  (t, addr) ∈ addressesOf m.answers

theorem parseAnswers_ip (now : ℕ) (answers : List Answer) (ipRec : IPRecord) :
    (parseAnswers now answers ipRec).ip = ipRec.ip ++ (addressesOf answers).map Prod.snd := by
  induction answers generalizing ipRec with
  | nil => exact (List.append_nil _).symm
  | cons answer rest ih =>
    rw [parseAnswers, addressesOf]
    rcases answer.body with (_ | ip) | (_ | ip) | ⟨_, _ | _⟩
    · simp
    · rw [ih, IPRecord.expireBy_ip, List.map_cons, List.append_assoc, List.singleton_append]
    · simp
    · rw [ih, IPRecord.expireBy_ip, List.map_cons, List.append_assoc, List.singleton_append]
    · simp
    · rw [ih, IPRecord.expireBy_ip]

theorem parseResponse_ip {now : ℕ} {m : Message} {ipRec : IPRecord}
    (h : parseResponse now m = some ipRec) :
    ipRec.ip = (addressesOf m.answers).map Prod.snd := by
  rw [parseResponse] at h
  split_ifs at h
  rw [← Option.some.inj h, parseAnswers_ip]
  rfl

/-! ## Sources -/

/-- An address comes from a message that was taken for a pending request for the domain and the
    family, that answers the question of the request, and that carries the address in a record
    of the family. -/
def Source (answered : List (DnsRequest × Message)) (domain : Bytes) (t : DnsType)
    (addr : Address) : Prop :=
  ∃ e ∈ answered, e.1.domain = domain ∧ e.1.reqType = t ∧ e.2.Answers e.1 ∧ e.2.Carries t addr

namespace Server

/-- The addresses in the cache have a source. -/
def Attributed (st : Server) : Prop :=
  ∀ domain t ipRec, st.server.cached domain t = some ipRec →
    ∀ addr ∈ ipRec.ip, Source st.answered domain t addr

/-- If addresses are parsed from a message that is taken for a pending request, the message
    repeats the question, and all of them are of the family that was asked for. -/
def Proper (st : Server) : ServerAction → Prop
  | .response m => ∀ req, st.server.requests m.id = some req → addressesOf m.answers ≠ [] →
    m.Answers req ∧ ∀ e ∈ addressesOf m.answers, e.1 = req.reqType
  | _ => True

/-- The addresses in the cache have a source, and so have those that are on their way to it. -/
def Sources (st : Server) : Prop :=
  ∀ domain t ipRec, st.Has domain t ipRec → ∀ addr ∈ ipRec.ip, Source st.answered domain t addr

variable {st st' : Server}

theorem Sources.new : Sources {} := by
  rintro domain t ipRec (hcached | ⟨newRec, hmem, -⟩)
  · cases hcached
  · exact absurd hmem List.not_mem_nil

theorem step_answered {a : ServerAction} (h : st.step a = some st') :
    ∃ l, st'.answered = st.answered ++ l := by
  cases a with
  | addPending i =>
    obtain ⟨req, -, rfl⟩ := Option.map_eq_some_iff.1 h
    exact ⟨[], (List.append_nil _).symm⟩
  | response m =>
    obtain rfl := Option.some.inj h
    rw [Server.response]
    split
    · exact ⟨[], (List.append_nil _).symm⟩
    · split
      · exact ⟨[], (List.append_nil _).symm⟩
      · exact ⟨_, rfl⟩
  | updateIP i =>
    obtain ⟨e, -, rfl⟩ := Option.map_eq_some_iff.1 h
    exact ⟨[], (List.append_nil _).symm⟩
  | tick | buildReq | cleanup =>
    obtain rfl := Option.some.inj h
    exact ⟨[], (List.append_nil _).symm⟩

/-- A message that is taken for a pending request is kept as its answer. -/
theorem answered_response {m : Message} {req : DnsRequest} {ipRec : IPRecord}
    (hreq : st.server.requests m.id = some req) (hparse : parseResponse st.now m = some ipRec) :
    (st.response m).answered = st.answered ++ [(req, m)] := by
  simp only [Server.response, hparse, ClassicNameServer.takeRequest, hreq]

/-- Each step keeps the sources, as a message that is proper is a source of what is parsed. -/
theorem Sources.step (h : st.Sources) {a : ServerAction} (hproper : st.Proper a)
    (hstep : st.step a = some st') : st'.Sources := by
  intro domain t ipRec hhas addr haddr
  rcases hhas.of_step hstep with hhas | ⟨m, req, rfl, hreq, rfl, rfl, hparse⟩
  · obtain ⟨e, he, hsource⟩ := h domain t ipRec hhas addr haddr
    obtain ⟨l, hl⟩ := step_answered hstep
    exact ⟨e, hl ▸ List.mem_append_left l he, hsource⟩
  · obtain rfl := Option.some.inj hstep
    rw [parseResponse_ip hparse] at haddr
    obtain ⟨e, he, rfl⟩ := List.mem_map.1 haddr
    obtain ⟨hanswers, hfamilies⟩ := hproper req hreq (List.ne_nil_of_mem he)
    refine ⟨(req, m), ?_, rfl, rfl, hanswers, ?_⟩
    · rw [answered_response hreq hparse]
      exact List.mem_append_right _ (List.mem_singleton_self _)
    · rw [Message.Carries, ← hfamilies e he]
      exact he

end Server

/-- In runs in which all messages are proper, all addresses in the cache have a source. -/
theorem attributed {st : Server} (h : (serverLts.restrict Server.Proper).Reach (fun _ => True) st) :
    st.Attributed := by
  have hsources : st.Sources := by
    refine h.invariant (fun st hinit _ => ?_) fun st a st' _ hst hstep _ => ?_
    · exact hinit ▸ .new
    · exact hst.step hstep.1 hstep.2
  exact fun domain t ipRec hcached => hsources domain t ipRec (.inl hcached)

/-! ## Two runs -/

/-- The message with the id 1 that answers a question with the address `1.2.3.4`. -/
def messageOf (q : Question) : Message :=
  ⟨1, 0, some [q], [⟨q.name, 60, .a (some ⟨[1, 2, 3, 4], rfl⟩)⟩]⟩

/-- The domain `"a."` was asked for. -/
def asked : Server where
  server :=
    { requests := Function.update (fun _ => none) 1 (some ⟨.a, [97, 46], 0 + 8 * second, 1⟩)
      reqID := 1 }

def recordOf (q : Question) : IPRecord :=
  parseAnswers 0 (messageOf q).answers ⟨1, [], 0 + 600 * second, 0⟩

/-- The message is cached. -/
def cachedBy (q : Question) : Server :=
  { asked.response (messageOf q) with
    server := (asked.response (messageOf q)).server.updateIP [97, 46]
      { a := some (recordOf q) }
    records := [] }

/-- The domain is asked for, and a message comes. -/
def actionsOf (q : Question) : List ServerAction :=
  [.buildReq [97, 46] .a, .addPending 0, .response (messageOf q), .updateIP 0]

theorem run_actionsOf (q : Question) :
    Lts.run Server.step {} (actionsOf q) = some (cachedBy q) := rfl

/-- The message that answers the question is cached, and is the source of its address. -/
theorem attributed_example : (cachedBy ⟨[97, 46], 1, 1⟩).server.cached [97, 46] .a ≠ none ∧
    (cachedBy ⟨[97, 46], 1, 1⟩).Attributed := by
  refine ⟨Option.some_ne_none _, attributed ?_⟩
  have hproper : asked.Proper (.response (messageOf ⟨[97, 46], 1, 1⟩)) := by
    intro req hreq _
    obtain rfl := Option.some.inj hreq
    exact ⟨rfl, fun e he => List.mem_singleton.1 he ▸ rfl⟩
  have hbuilt : (serverLts.restrict Server.Proper).Reach (fun _ => True) _ :=
    .step (.init rfl trivial) (a := .buildReq [97, 46] .a) ⟨trivial, rfl⟩ trivial
  have hasked : (serverLts.restrict Server.Proper).Reach (fun _ => True) asked :=
    .step hbuilt (a := .addPending 0) ⟨trivial, rfl⟩ trivial
  have hanswered : (serverLts.restrict Server.Proper).Reach (fun _ => True)
      (asked.response (messageOf ⟨[97, 46], 1, 1⟩)) :=
    hasked.step (a := .response _) ⟨hproper, rfl⟩ trivial
  exact hanswered.step (a := .updateIP 0) ⟨trivial, rfl⟩ trivial

/-- The message that answers the question for `"b."` is cached for `"a."`. -/
theorem other_question_cached :
    serverLts.Exec {} (actionsOf ⟨[98, 46], 1, 1⟩) (cachedBy ⟨[98, 46], 1, 1⟩) ∧
      ¬ (cachedBy ⟨[98, 46], 1, 1⟩).Attributed := by
  refine ⟨Lts.exec_of_run (fun _ _ _ h => h) (run_actionsOf _), fun h => ?_⟩
  obtain ⟨e, he, -, -, hanswers, -⟩ := h [97, 46] .a _ rfl _ List.mem_cons_self
  obtain rfl := List.mem_singleton.1 he
  have hquestion : (⟨[98, 46], 1, 1⟩ : Question) = ⟨[97, 46], 1, 1⟩ :=
    List.head_eq_of_cons_eq (Option.some.inj hanswers)
  exact absurd hquestion (by decide)

end Gzv2ray.Dns
