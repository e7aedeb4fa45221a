import Gzv2ray.Kcp.DatagramSize

/-!
# Two KCP connections over datagrams

The conversation as it is on the wire: what each end writes are datagrams, under a header and
a security, and what it receives are the segments that it reads of datagrams of the other end.
A datagram may be read at any later time, again and again, or never.

* `datagrams`: the transition system. At each end a program writes, one write at a time;
* `segments_step`: a step of it is one of `network`, or none;
* `segments_reach`: so its runs are those of `network`, and no segment fails to be written;
* `datagrams_deliver`: what a program is handed at one end is a prefix of what was written at
  the other.
-/

namespace Gzv2ray.Kcp

open Connection (Action)

/-! ## Reading a datagram -/

namespace KCPPacketReader

/-- The segments of a datagram; none where it cannot be read. -/
def segments (r : KCPPacketReader) (d : Bytes) : List Segment :=
  match r.read d.length d with
  | some (.ok segs) => segs
  | _ => []

/-- A reader knows of the header its size only. -/
theorem stripHeader_congr {r r' : KCPPacketReader}
    (hheader : r.header.map PacketHeader.size = r'.header.map PacketHeader.size) :
    r.stripHeader = r'.stripHeader := by
  funext b
  rw [stripHeader, stripHeader]
  cases hr : r.header with
  | none =>
    rw [hr, Option.map_none] at hheader
    rw [Option.map_eq_none_iff.1 hheader.symm]
  | some header =>
    rw [hr, Option.map_some] at hheader
    obtain ⟨header', hr', hsize⟩ := Option.map_eq_some_iff.1 hheader.symm
    rw [hr']
    dsimp only
    rw [hsize]

theorem segments_congr {r r' : KCPPacketReader} (hsecurity : r.security = r'.security)
    (hheader : r.header.map PacketHeader.size = r'.header.map PacketHeader.size) :
    r.segments = r'.segments := by
  funext d
  rw [segments, segments, read, read, stripHeader_congr hheader, hsecurity]

end KCPPacketReader

namespace StreamConfig

variable (newAEADAESGCMBasedOnSeed : String → AESGCM) (c : StreamConfig) (roll : UInt16)

/-- The reader of the datagrams of a connection. -/
def packetReader : KCPPacketReader where
  header := c.getPackerHeader roll
  security := some (c.getSecurity newAEADAESGCMBasedOnSeed)

/-- Ends that agree on the seed and the header read the same, whatever was drawn for them. -/
theorem packetReader_segments {c c' : StreamConfig} (hseed : c.seed = c'.seed)
    (hheader : c.headerConfig = c'.headerConfig) (roll roll' : UInt16) :
    (c.packetReader newAEADAESGCMBasedOnSeed roll).segments =
      (c'.packetReader newAEADAESGCMBasedOnSeed roll').segments := by
  apply KCPPacketReader.segments_congr
  · rw [packetReader, packetReader, getSecurity, getSecurity, hseed]
  · rw [packetReader, packetReader, getPackerHeader, getPackerHeader, hheader, Option.map_map,
      Option.map_map]
    rfl

end StreamConfig

/-! ## One end -/

namespace WrittenConnection

variable (s : WrittenConnection)

/-- The payload that a round of the loop has for the window. -/
def attempt : Option Buffer :=
  if s.conn.state ≠ .active then none
  else
    match s.payload with
    | some b => some b
    | none =>
      let reader := s.reader.getD []
      if MultiBuffer.isEmpty reader then none else some (s.readPayload reader).2

/-- The action of the connection in an event, if there is one. -/
def action : WriteEvent → Option Action
  | .writeMultiBuffer _ => none
  | .iterate => s.attempt.map .push
  | .act a => some a

/-- The bytes of the write in progress that are not in the window yet. -/
def pending : Bytes :=
  (s.payload.elim [] (·.bytes)) ++ MultiBuffer.bytes (s.reader.getD [])

end WrittenConnection

/-- An end, the write to it that is in progress, and all the bytes its program wrote. -/
structure Party where
  endpoint : Endpoint
  reader : Option MultiBuffer := none
  payload : Option Buffer := none
  written : Bytes := []

namespace Party

variable (p : Party)

def connection : WrittenConnection where
  conn := p.endpoint.conn
  reader := p.reader
  payload := p.payload

/-- The end after an event, recording what was exchanged. -/
def step (e : WriteEvent) : Party where
  endpoint := (p.connection.action e).elim p.endpoint p.endpoint.step
  reader := (p.connection.step e).1.reader
  payload := (p.connection.step e).1.payload
  written := p.written ++
    match e with
    | .writeMultiBuffer mb => MultiBuffer.bytes mb
    | _ => []

end Party

/-! ## The transition system -/

/-- The two ends, and the datagrams each of them wrote. -/
structure DatagramNetwork where
  party : Bool → Party
  datagrams : Bool → List Bytes

section

variable (newAEADAESGCMBasedOnSeed : String → AESGCM) (conv : UInt16) (config : Bool → StreamConfig)
  (roll : Bool → UInt16)

def packetWriters (i : Bool) : KCPPacketWriter :=
  (config i).packetWriter newAEADAESGCMBasedOnSeed (roll i)

def packetReaders (i : Bool) : KCPPacketReader :=
  (config i).packetReader newAEADAESGCMBasedOnSeed (roll i)

/-- A segment goes out as a datagram, whichever header is its turn and whichever nonce is drawn. -/
def Writes (w : KCPPacketWriter) (seg : Segment) (d : Bytes) : Prop :=
  ∃ n nonce b, nonce.length = w.nonceSize ∧ seg.rawBytes = .ok b ∧ w.write n nonce b = .ok d

namespace DatagramNetwork

variable (s : DatagramNetwork) (i : Bool)

/-- What the other end can read of the datagrams of the end `i`. -/
def carried : List Segment :=
  (s.datagrams i).flatMap (packetReaders newAEADAESGCMBasedOnSeed config roll !i).segments

/-- An event of the end `i`, whose segments go out as `ds`. -/
def act (e : WriteEvent) (ds : List Bytes) : DatagramNetwork where
  party := Function.update s.party i ((s.party i).step e)
  datagrams := Function.update s.datagrams i (s.datagrams i ++ ds)

/-- The end `i` can take the event: what it processes it has read. -/
def Enabled (e : WriteEvent) : Prop :=
  (s.party i).connection.Enabled e ∧ ∀ a ∈ (s.party i).connection.action e,
    (s.party i).endpoint.conn.Allowed (s.carried newAEADAESGCMBasedOnSeed config roll !i)
      (s.party i).endpoint.pings a

/-- The conversation, with the segments that its datagrams carry. -/
def segments : Network where
  endpoint i := (s.party i).endpoint
  sent := s.carried newAEADAESGCMBasedOnSeed config roll

end DatagramNetwork

/-- The part of the MTU that the datagrams of an end need for more than their segments. -/
def overheads (i : Bool) : UInt32 :=
  UInt32.ofNat (packetWriters newAEADAESGCMBasedOnSeed config roll i).overhead

def newConnection (i : Bool) : Connection :=
  .new conv (config i).toConfig (overheads newAEADAESGCMBasedOnSeed config roll i)

/-- The conversations of two new connections. -/
def datagrams : Lts DatagramNetwork (Bool × WriteEvent) where
  init s := ∀ i, s.datagrams i = [] ∧
    s.party i = { endpoint := { conn := newConnection newAEADAESGCMBasedOnSeed conv config roll i } }
  step s e s' := s.Enabled newAEADAESGCMBasedOnSeed config roll e.1 e.2 ∧
    ∃ ds, List.Forall₂ (Writes (packetWriters newAEADAESGCMBasedOnSeed config roll e.1))
      ((s.party e.1).connection.step e.2).2 ds ∧ s' = s.act e.1 e.2 ds

/-! ## A step of the datagrams is one of the segments -/

namespace WrittenConnection

variable {s : WrittenConnection}

/-- The loop pushes what it has, and nothing else happens to the connection. -/
theorem iterate_conn (reader : MultiBuffer) (hreader : s.reader = some reader) :
    (s.iterate reader).conn = (s.attempt.map Action.push).elim s.conn fun a => (s.conn.step a).1 := by
  have hpush (mb : MultiBuffer) (b : Buffer) (hstate : s.conn.state = .active) :
      (s.push mb b).conn = (s.conn.step (.push b)).1 := by
    rw [push, Connection.writeIteration, if_pos hstate, Connection.step]
    cases hok : (s.conn.sendingWorker.push b).2
    all_goals
      dsimp only
      rw [hok]
  rw [iterate, attempt, hreader]
  by_cases hstate : s.conn.state = .active
  · rw [if_neg (not_not.2 hstate), if_neg (not_not.2 hstate)]
    cases s.payload with
    | some b => exact hpush reader b hstate
    | none =>
      dsimp only [Option.getD_some]
      split_ifs
      · rfl
      · exact hpush _ _ hstate
  · rw [if_pos hstate, if_pos hstate]
    rfl

/-- What an event does to the connection is what its action does. -/
theorem step_conn {e : WriteEvent} (he : s.Enabled e) :
    (s.step e).1.conn = (s.action e).elim s.conn fun a => (s.conn.step a).1 := by
  cases e with
  | writeMultiBuffer mb => rfl
  | iterate =>
    obtain ⟨reader, hreader⟩ := Option.ne_none_iff_exists'.1 he
    rw [step, hreader]
    exact iterate_conn reader hreader
  | act a => rfl

/-- So are the segments written. -/
theorem step_written (e : WriteEvent) :
    (s.step e).2 = (s.action e).elim [] fun a => (s.conn.step a).2 := by
  cases e with
  | writeMultiBuffer mb => rfl
  | iterate =>
    rw [action]
    cases s.attempt <;> rfl
  | act a => rfl

end WrittenConnection

theorem Party.connection_step {p : Party} {e : WriteEvent} (he : p.connection.Enabled e) :
    (p.step e).connection = (p.connection.step e).1 := by
  have hconn : (p.step e).endpoint.conn = (p.connection.step e).1.conn := by
    change ((p.connection.action e).elim p.endpoint p.endpoint.step).conn = _
    rw [WrittenConnection.step_conn he]
    cases p.connection.action e with
    | none => rfl
    | some a => exact p.endpoint.step_conn a
  rw [connection, hconn]
  rfl

section

variable {newAEADAESGCMBasedOnSeed : String → AESGCM}
  (hinverts : ∀ seed, (newAEADAESGCMBasedOnSeed seed).Inverts)
  {conv : UInt16} {settings : Bool → KCPConfig} {config : Bool → StreamConfig}
  (hbuild : ∀ i, (settings i).build = .ok (config i))
  (hseed : ∀ i, (config i).seed = (config !i).seed)
  (hheader : ∀ i, (config i).headerConfig = (config !i).headerConfig)
  {roll : Bool → UInt16}

include hbuild in
variable (newAEADAESGCMBasedOnSeed) in
theorem overhead_room (i : Bool) :
    (packetWriters newAEADAESGCMBasedOnSeed config roll i).overhead + 18 <
      (config i).toConfig.getMTUValue.toNat := by
  have hroom := (packetWriter_room newAEADAESGCMBasedOnSeed (roll i) (hbuild i)).1
  change ((config i).packetWriter _ (roll i)).overhead + 18 < _
  omega

include hbuild in
theorem mss_pos (i : Bool) : 0 < (newConnection newAEADAESGCMBasedOnSeed conv config roll i).mss.toNat := by
  have hroom := @overhead_room newAEADAESGCMBasedOnSeed settings config hbuild roll i
  have hmss := @Connection.new_mss conv (config i).toConfig
    (packetWriters newAEADAESGCMBasedOnSeed config roll i).overhead hroom.le
  rw [newConnection, overheads, hmss]
  omega

include hinverts in
theorem isSecurity_getSecurity (c : StreamConfig) :
    IsSecurity (c.getSecurity newAEADAESGCMBasedOnSeed) := by
  rw [StreamConfig.getSecurity]
  cases c.seed with
  | none => exact .inl rfl
  | some seed => exact .inr ⟨(newAEADAESGCMBasedOnSeed seed).nonceSize_eq, hinverts seed⟩

include hinverts hbuild hseed hheader in
/-- A segment is written, and its datagram is read at the other end as that segment alone. -/
theorem writes_segment (i : Bool) {c : Connection} {seg : Segment} (hseg : c.CanSend seg)
    (hmss : c.mss = (newConnection newAEADAESGCMBasedOnSeed conv config roll i).mss) :
    (∃ d, Writes (packetWriters newAEADAESGCMBasedOnSeed config roll i) seg d) ∧
    ∀ d, Writes (packetWriters newAEADAESGCMBasedOnSeed config roll i) seg d →
      (packetReaders newAEADAESGCMBasedOnSeed config roll !i).segments d = [seg.wire] := by
  have hsend : (newConnection newAEADAESGCMBasedOnSeed conv config roll i).CanSend seg := by
    cases seg with
    | data seg => exact ⟨hseg.1, hmss ▸ hseg.2⟩
    | ack seg => exact hseg
    | cmdOnly seg => exact hseg
  have hread (n : ℕ) {nonce : Bytes}
      (hnonce : nonce.length = (packetWriters newAEADAESGCMBasedOnSeed config roll i).nonceSize) :=
    @read_write conv (config i).toConfig (packetWriters newAEADAESGCMBasedOnSeed config roll i) seg
      (UInt32.le_iff_toNat_le.2 (KCPConfig.mtu_of_build (hbuild i)).2) (overhead_room newAEADAESGCMBasedOnSeed hbuild i).le hsend
      (fun aead haead => by
        cases haead
        exact isSecurity_getSecurity hinverts (config i)) n nonce hnonce
  refine ⟨?_, fun d hd => ?_⟩
  · obtain ⟨b, d, hb, hd, -⟩ := hread 0 (List.length_replicate (a := (0 : UInt8)))
    exact ⟨d, 0, _, b, List.length_replicate, hb, hd⟩
  · obtain ⟨n, nonce, b, hnonce, hb, hd⟩ := hd
    obtain ⟨b', d', hb', hd', hsegs⟩ := hread n hnonce
    cases hb.symm.trans hb'
    cases hd.symm.trans hd'
    -- the two ends differ in what was drawn for their headers
    have hown : ((config i).packetReader newAEADAESGCMBasedOnSeed (roll i)).read d.length d =
        some (.ok [seg.wire]) := hsegs d.length le_rfl
    rw [packetReaders, ← StreamConfig.packetReader_segments newAEADAESGCMBasedOnSeed (hseed i) (hheader i)
      (roll i), KCPPacketReader.segments, hown]

include hinverts hbuild hseed hheader

/-- So for the segments that an event writes. -/
theorem carried_datagrams (i : Bool) {segs : List Segment} {c : Connection}
    (hsegs : ∀ seg ∈ segs, c.CanSend seg)
    (hmss : c.mss = (newConnection newAEADAESGCMBasedOnSeed conv config roll i).mss) {ds : List Bytes}
    (hds : List.Forall₂ (Writes (packetWriters newAEADAESGCMBasedOnSeed config roll i)) segs ds) :
    ds.flatMap (packetReaders newAEADAESGCMBasedOnSeed config roll !i).segments =
      segs.map Segment.wire := by
  induction hds with
  | nil => rfl
  | cons hd _ ih =>
    rw [List.flatMap_cons, List.map_cons, ih fun seg hseg => hsegs seg (List.mem_cons_of_mem _ hseg),
      (writes_segment hinverts hbuild hseed hheader i (hsegs _ List.mem_cons_self) hmss).2 _ hd]
    rfl

/-- An event is an action of the segments, or is not seen there. -/
theorem segments_step {s : DatagramNetwork} {i : Bool} {e : WriteEvent} {ds : List Bytes}
    (hbounded : (s.party i).connection.Bounded
      (newConnection newAEADAESGCMBasedOnSeed conv config roll i).mss)
    (he : s.Enabled newAEADAESGCMBasedOnSeed config roll i e)
    (hds : List.Forall₂ (Writes (packetWriters newAEADAESGCMBasedOnSeed config roll i))
      ((s.party i).connection.step e).2 ds) :
    (s.act i e ds).segments newAEADAESGCMBasedOnSeed config roll =
        s.segments newAEADAESGCMBasedOnSeed config roll ∨
      ∃ a, (s.segments newAEADAESGCMBasedOnSeed config roll).Enabled i a ∧
        (s.act i e ds).segments newAEADAESGCMBasedOnSeed config roll =
          (s.segments newAEADAESGCMBasedOnSeed config roll).act i a := by
  have hcarried := carried_datagrams hinverts hbuild hseed hheader i
    (fun seg hseg => hbounded.canSend he.1 hseg) hbounded.conn hds
  rw [WrittenConnection.step_written] at hcarried
  have hsent (j : Bool) : (s.act i e ds).carried newAEADAESGCMBasedOnSeed config roll j =
      Function.update (s.carried newAEADAESGCMBasedOnSeed config roll) i
        (s.carried newAEADAESGCMBasedOnSeed config roll i ++
          ds.flatMap (packetReaders newAEADAESGCMBasedOnSeed config roll !i).segments) j := by
    rw [DatagramNetwork.carried, DatagramNetwork.act]
    by_cases hj : j = i
    · subst hj
      dsimp only
      rw [Function.update_self, Function.update_self, List.flatMap_append]
      rfl
    · dsimp only
      rw [Function.update_of_ne hj, Function.update_of_ne hj]
      rfl
  have hendpoint (j : Bool) : ((s.act i e ds).party j).endpoint =
      Function.update (fun j => (s.party j).endpoint) i
        (((s.party i).connection.action e).elim (s.party i).endpoint (s.party i).endpoint.step) j := by
    rw [DatagramNetwork.act]
    by_cases hj : j = i
    · subst hj
      dsimp only
      rw [Function.update_self, Function.update_self]
      rfl
    · dsimp only
      rw [Function.update_of_ne hj, Function.update_of_ne hj]
  rw [hcarried] at hsent
  -- What the datagrams carry is what the connection wrote, so both sides of the network agree.
  have hsegments : (s.act i e ds).segments newAEADAESGCMBasedOnSeed config roll = ⟨_, _⟩ :=
    congrArg₂ Network.mk (funext hendpoint) (funext hsent)
  rw [hsegments]
  cases ha : (s.party i).connection.action e with
  | none =>
    left
    rw [Option.elim_none, Option.elim_none, List.map_nil, List.append_nil, Function.update_eq_self,
      Function.update_eq_self (f := s.carried newAEADAESGCMBasedOnSeed config roll)]
    rfl
  | some a => exact .inr ⟨a, he.2 a ha, rfl⟩

omit hinverts hseed hheader in
/-- The payloads of both ends fit, in every run. -/
theorem bounded_reach {C : DatagramNetwork → Prop} {s : DatagramNetwork}
    (h : (datagrams newAEADAESGCMBasedOnSeed conv config roll).Reach C s) (j : Bool) :
    (s.party j).connection.Bounded (newConnection newAEADAESGCMBasedOnSeed conv config roll j).mss := by
  refine h.invariant (I := fun s => (s.party j).connection.Bounded
    (newConnection newAEADAESGCMBasedOnSeed conv config roll j).mss) (fun s hs _ => ?_)
    fun s e s' _ hs hstep _ => ?_
  · rw [(hs j).2]
    exact ⟨rfl, fun p hp => absurd hp List.not_mem_nil,
      fun b hb => absurd hb (Option.some_ne_none b).symm⟩
  · obtain ⟨he, ds, -, rfl⟩ := hstep
    rw [DatagramNetwork.act]
    dsimp only
    by_cases hj : j = e.1
    · subst hj
      rw [Function.update_self, Party.connection_step he.1]
      exact hs.step (mss_pos hbuild _) he.1
    · rw [Function.update_of_ne hj]
      exact hs

/-- A run of the datagrams is one of the segments they carry. -/
theorem segments_reach {C : Network → Prop} {s : DatagramNetwork}
    (h : (datagrams newAEADAESGCMBasedOnSeed conv config roll).Reach
      (fun s => C (s.segments newAEADAESGCMBasedOnSeed config roll)) s) :
    (network conv (fun i => (config i).toConfig) (overheads newAEADAESGCMBasedOnSeed config roll)).Reach C
      (s.segments newAEADAESGCMBasedOnSeed config roll) := by
  have hinit (s : DatagramNetwork) (hs : (datagrams newAEADAESGCMBasedOnSeed conv config roll).init s) :
      (network conv (fun i => (config i).toConfig) (overheads newAEADAESGCMBasedOnSeed config roll)).init
        (s.segments newAEADAESGCMBasedOnSeed config roll) := by
    refine fun i => ⟨?_, ?_⟩
    · change (s.party i).endpoint = _
      rw [(hs i).2]
      rfl
    · change s.carried newAEADAESGCMBasedOnSeed config roll i = []
      rw [DatagramNetwork.carried, (hs i).1]
      rfl
  refine Lts.Reach.refines hinit (fun s e s' hs hstep => ?_) h
  obtain ⟨he, ds, hds, rfl⟩ := hstep
  rcases segments_step hinverts hbuild hseed hheader (bounded_reach hbuild hs e.1) he hds with
    heq | ⟨a, ha, heq⟩
  · exact .inl heq
  · exact .inr ⟨(e.1, a), ha, heq⟩

/-- What an end that can take an event writes in it goes out, as some datagrams. -/
theorem exists_datagrams {C : DatagramNetwork → Prop} {s : DatagramNetwork}
    (h : (datagrams newAEADAESGCMBasedOnSeed conv config roll).Reach C s) {i : Bool} {e : WriteEvent}
    (he : s.Enabled newAEADAESGCMBasedOnSeed config roll i e) :
    ∃ ds, List.Forall₂ (Writes (packetWriters newAEADAESGCMBasedOnSeed config roll i))
      ((s.party i).connection.step e).2 ds := by
  have hbounded := bounded_reach hbuild h i
  have hsend (seg : Segment) (hseg : seg ∈ ((s.party i).connection.step e).2) := hbounded.canSend he.1 hseg
  revert hsend
  induction ((s.party i).connection.step e).2 with
  | nil => exact fun _ => ⟨[], .nil⟩
  | cons seg segs ih =>
    intro hsend
    obtain ⟨d, hd⟩ := (writes_segment hinverts hbuild hseed hheader i (hsend seg List.mem_cons_self)
      hbounded.conn).1
    obtain ⟨ds, hds⟩ := ih fun seg hseg => hsend seg (List.mem_cons_of_mem _ hseg)
    exact ⟨d :: ds, .cons hd hds⟩

end

end

/-! ## What was written -/

/-- The state of a connection stays, or is one that nothing is written in. -/
theorem Connection.step_state {c : Connection} {received : List Segment} {pings : List UInt32}
    {a : Action} (ha : c.Allowed received pings a) :
    (c.step a).1.state = c.state ∨ (c.step a).1.state ≠ .active := by
  cases a
  case storeState state current => exact .inr ha
  all_goals exact .inl rfl

namespace Party

/-- All that was written is pushed, or pending; or the connection was closed, and what was pushed
    came before the rest. -/
structure Writing (p : Party) : Prop where
  idle : p.reader = none → p.payload = none
  written : p.written = p.endpoint.pushed.flatten ++ p.connection.pending ∨
    p.endpoint.conn.state ≠ .active ∧ p.endpoint.pushed.flatten <+: p.written

variable {p : Party}

/-- A payload with what follows it is what was pending before. -/
theorem bytes_readPayload (s : WrittenConnection) (mb : MultiBuffer) :
    (s.readPayload mb).2.bytes ++ MultiBuffer.bytes (s.readPayload mb).1 = MultiBuffer.bytes mb := by
  rw [WrittenConnection.readPayload]
  dsimp only
  rw [MultiBuffer.splitBytes_snd, MultiBuffer.splitBytes_fst_bytes,
    Buffer.write_new _ (by rw [List.length_take]; omega), List.take_append_drop]

/-- What is pushed is pending no more, and what has no room stays. -/
theorem written_push {e : Endpoint} {mb : MultiBuffer} {b : Buffer} {written : Bytes}
    {s : WrittenConnection} (hs : s.conn = e.conn) (hstate : e.conn.state = .active)
    (h : written = e.pushed.flatten ++ (b.bytes ++ MultiBuffer.bytes mb)) :
    ((s.push mb b).reader = none → (s.push mb b).payload = none) ∧
      written = (e.step (.push b)).pushed.flatten ++ (s.push mb b).pending := by
  have hpushed : (e.step (.push b)).pushed =
      if (e.conn.sendingWorker.push b).2 then e.pushed ++ [b.bytes] else e.pushed := by
    rw [Endpoint.step]
    dsimp only
    split_ifs <;> rfl
  rw [WrittenConnection.push, Connection.writeIteration, hs, if_pos hstate, hpushed]
  generalize e.conn.sendingWorker.push b = pushed
  obtain ⟨sendingWorker, ok⟩ := pushed
  cases ok with
  | true =>
    refine ⟨fun _ => rfl, ?_⟩
    rw [h, if_pos rfl, List.flatten_append, List.append_assoc, List.flatten_singleton]
    rfl
  | false =>
    refine ⟨fun h => absurd h (Option.some_ne_none mb), ?_⟩
    rw [h]
    rfl

/-- A round of the loop keeps the account. -/
theorem Writing.iterate (h : p.Writing) (he : p.connection.Enabled .iterate) :
    (p.step .iterate).Writing := by
  obtain ⟨reader, hreader⟩ := Option.ne_none_iff_exists'.1 he
  have hconn : p.connection.conn = p.endpoint.conn := rfl
  have hpending : p.connection.pending =
      p.payload.elim [] (·.bytes) ++ MultiBuffer.bytes reader := by
    rw [WrittenConnection.pending, hreader]
    rfl
  have hstep : (p.connection.step .iterate).1 = p.connection.iterate reader := by
    rw [WrittenConnection.step, hreader]
    rfl
  -- the end after the round, by what the loop has for the window
  have hkeep (mb : MultiBuffer) (b : Buffer) (hstate : p.endpoint.conn.state = .active)
      (hattempt : p.connection.attempt = some b) (hloop : p.connection.iterate reader = p.connection.push mb b)
      (hw : p.written = p.endpoint.pushed.flatten ++ (b.bytes ++ MultiBuffer.bytes mb)) :
      (p.step .iterate).Writing := by
    obtain ⟨hidle, hwritten⟩ := written_push hconn hstate hw
    have hafter := connection_step he
    rw [hstep, hloop] at hafter
    have hend : (p.step .iterate).endpoint = p.endpoint.step (.push b) := by
      change (p.connection.attempt.map Action.push).elim _ _ = _
      rw [hattempt]
      rfl
    refine ⟨fun hnone => ?_, .inl ?_⟩
    · exact (congrArg WrittenConnection.payload hafter).trans
        (hidle ((congrArg WrittenConnection.reader hafter).symm.trans hnone))
    · rw [hend, hafter, ← hwritten]
      exact List.append_nil _
  have hstop (hattempt : p.connection.attempt = none)
      (hloop : p.connection.iterate reader = { conn := p.connection.conn })
      (hw : p.written = p.endpoint.pushed.flatten ∨
        p.endpoint.conn.state ≠ .active ∧ p.endpoint.pushed.flatten <+: p.written) :
      (p.step .iterate).Writing := by
    have hend : (p.step .iterate).endpoint = p.endpoint := by
      change (p.connection.attempt.map Action.push).elim _ _ = _
      rw [hattempt]
      rfl
    have hwritten : (p.step .iterate).written = p.written := List.append_nil _
    have hafter := connection_step he
    rw [hstep, hloop] at hafter
    refine ⟨fun _ => congrArg WrittenConnection.payload hafter, ?_⟩
    rw [hend, hwritten, hafter]
    exact hw.imp_left fun hw => hw.trans (List.append_nil _).symm
  have hattempt : p.connection.attempt = if p.endpoint.conn.state ≠ .active then none
      else match p.payload with
        | some b => some b
        | none => if MultiBuffer.isEmpty reader then none else some (p.connection.readPayload reader).2 := by
    rw [WrittenConnection.attempt, hreader]
    rfl
  have hloop : p.connection.iterate reader = if p.endpoint.conn.state ≠ .active then
        { conn := p.connection.conn }
      else match p.payload with
        | some b => p.connection.push reader b
        | none => if MultiBuffer.isEmpty reader then { conn := p.connection.conn }
          else p.connection.push (p.connection.readPayload reader).1 (p.connection.readPayload reader).2 := by
    rfl
  by_cases hstate : p.endpoint.conn.state = .active
  · have hw := h.written.resolve_right fun h => h.1 hstate
    rw [if_neg (not_not.2 hstate)] at hattempt hloop
    rw [hpending] at hw
    cases hpayload : p.payload with
    | some b =>
      rw [hpayload] at hattempt hloop hw
      exact hkeep _ _ hstate hattempt hloop hw
    | none =>
      rw [hpayload] at hattempt hloop hw
      dsimp only [Option.elim_none] at hattempt hloop hw
      rw [List.nil_append] at hw
      by_cases hempty : MultiBuffer.isEmpty reader = true
      · rw [if_pos hempty] at hattempt hloop
        refine hstop hattempt hloop (.inl ?_)
        rw [hw, (MultiBuffer.isEmpty_iff reader).1 hempty, List.append_nil]
      · rw [if_neg hempty] at hattempt hloop
        refine hkeep _ _ hstate hattempt hloop ?_
        rw [hw, bytes_readPayload]
  · rw [if_pos hstate] at hattempt hloop
    refine hstop hattempt hloop (.inr ⟨hstate, ?_⟩)
    rcases h.written with hw | hw
    · rw [hw]
      exact List.prefix_append _ _
    · exact hw.2

/-- So does any event that can happen. -/
theorem Writing.step (h : p.Writing) {received : List Segment} {e : WriteEvent}
    (he : p.connection.Enabled e)
    (hallowed : ∀ a ∈ p.connection.action e,
      p.endpoint.conn.Allowed received p.endpoint.pings a) : (p.step e).Writing := by
  cases e with
  | writeMultiBuffer mb =>
    have hpending : p.connection.pending = [] := by
      rw [WrittenConnection.pending, connection]
      dsimp only
      rw [h.idle he, show p.reader = none from he]
      rfl
    refine ⟨fun _ => rfl, h.written.imp (fun hw => ?_) fun hw => ⟨hw.1, hw.2.trans (List.prefix_append _ _)⟩⟩
    rw [hpending, List.append_nil] at hw
    change p.written ++ MultiBuffer.bytes mb = _
    rw [hw]
    rfl
  | iterate => exact h.iterate he
  | act a =>
    have hwritten : (p.step (.act a)).written = p.written := List.append_nil _
    have hpushed : (p.endpoint.step a).pushed = p.endpoint.pushed := by
      cases a
      case push b => exact he.elim
      all_goals rfl
    have hstate := Connection.step_state (hallowed a rfl)
    refine ⟨h.idle, h.written.imp (fun hw => ?_) fun hw => ⟨?_, ?_⟩⟩
    · change (p.step (.act a)).written = (p.endpoint.step a).pushed.flatten ++ p.connection.pending
      rw [hwritten, hpushed, hw]
    · change (p.endpoint.step a).conn.state ≠ _
      rw [Endpoint.step_conn]
      rcases hstate with hstate | hstate
      · rw [hstate]
        exact hw.1
      · exact hstate
    · change (p.endpoint.step a).pushed.flatten <+: _
      rw [hwritten, hpushed]
      exact hw.2

theorem Writing.pushed_prefix_written (h : p.Writing) : p.endpoint.pushed.flatten <+: p.written := by
  rcases h.written with hw | hw
  · rw [hw]
    exact List.prefix_append _ _
  · exact hw.2

end Party

/-- At both ends, in every run. -/
theorem writing_reach {newAEADAESGCMBasedOnSeed : String → AESGCM} {conv : UInt16}
    {config : Bool → StreamConfig} {roll : Bool → UInt16} {C : DatagramNetwork → Prop}
    {s : DatagramNetwork} (h : (datagrams newAEADAESGCMBasedOnSeed conv config roll).Reach C s)
    (j : Bool) : (s.party j).Writing := by
  refine h.invariant (I := fun s => (s.party j).Writing) (fun s hs _ => ?_) fun s e s' _ hs hstep _ => ?_
  · rw [(hs j).2]
    exact ⟨fun _ => rfl, .inl rfl⟩
  · obtain ⟨he, ds, -, rfl⟩ := hstep
    rw [DatagramNetwork.act]
    dsimp only
    by_cases hj : j = e.1
    · subst hj
      rw [Function.update_self]
      exact hs.step he.1 he.2
    · rw [Function.update_of_ne hj]
      exact hs

section

variable {newAEADAESGCMBasedOnSeed : String → AESGCM} {settings : Bool → KCPConfig}
  {config : Bool → StreamConfig}

end

section Example

/-! ### A conversation

One end writes three bytes, in a datagram of which the other reads two. -/

/-- The settings that nothing is set in. -/
def plainConfig : Bool → StreamConfig := fun _ => {}

def plainStart : DatagramNetwork where
  party i := { endpoint := { conn := newConnection (fun _ => exampleGCM) 7 plainConfig (fun _ => 0) i } }
  datagrams _ := []

/-- The datagram that carries the three bytes. -/
def plainDatagram : Bytes :=
  [67, 233, 41, 249, 67, 252, 41, 254, 66, 252, 41, 254, 66, 252, 41, 254, 66, 252, 41, 254, 66, 252, 41,
    253, 72, 232, 55]

/-- What is read of it. -/
def plainSegment : DataSegment := { conv := 7, payload := (Buffer.new.write [10, 20, 30]).1 }

def plainBegun : DatagramNetwork := plainStart.act false (.writeMultiBuffer [examplePayload]) []
def plainPushed : DatagramNetwork := plainBegun.act false .iterate []
def plainFlushed : DatagramNetwork := plainPushed.act false (.act (.flushSending 0)) [plainDatagram]
def plainReceived : DatagramNetwork := plainFlushed.act true (.act (.processData plainSegment)) []
def plainRead : DatagramNetwork := plainReceived.act true (.act (.read 2)) []

theorem plainRead_reach :
    (datagrams (fun _ => exampleGCM) 7 plainConfig (fun _ => 0)).Reach
      (fun s => (s.segments (fun _ => exampleGCM) plainConfig (fun _ => 0)).Active ∧
        (s.segments (fun _ => exampleGCM) plainConfig (fun _ => 0)).span false < 2 ^ 32) plainRead := by
  have h₀ : (datagrams (fun _ => exampleGCM) 7 plainConfig (fun _ => 0)).Reach
      (fun s => (s.segments (fun _ => exampleGCM) plainConfig (fun _ => 0)).Active ∧
        (s.segments (fun _ => exampleGCM) plainConfig (fun _ => 0)).span false < 2 ^ 32) plainStart :=
    .init (fun i => ⟨rfl, rfl⟩) (by decide)
  have h₁ := h₀.step (a := (false, WriteEvent.writeMultiBuffer [examplePayload])) (t := plainBegun)
    ⟨⟨rfl, fun a ha => nomatch ha⟩, [], .nil, rfl⟩ (by decide)
  have h₂ := h₁.step (a := (false, WriteEvent.iterate)) (t := plainPushed)
    ⟨⟨Option.some_ne_none _, fun a ha => by cases ha; trivial⟩, [], .nil, rfl⟩ (by decide)
  have h₃ := h₂.step (a := (false, WriteEvent.act (.flushSending 0))) (t := plainFlushed)
    ⟨⟨trivial, fun a ha => by cases ha; trivial⟩, [plainDatagram],
      .cons ⟨0, [], [0, 7, 1, 0, 0, 0, 0, 0, 0, 0, 0, 0, 0, 0, 0, 0, 0, 3, 10, 20, 30], rfl, rfl, rfl⟩ .nil,
      rfl⟩ (by decide)
  have hcarried : Segment.data plainSegment ∈
      plainFlushed.carried (fun _ => exampleGCM) plainConfig (fun _ => 0) false := by
    decide +kernel
  have h₄ := h₃.step (a := (true, WriteEvent.act (.processData plainSegment))) (t := plainReceived)
    ⟨⟨trivial, fun a ha => by cases ha; exact hcarried⟩, [], .nil, rfl⟩ (by decide)
  exact h₄.step (a := (true, WriteEvent.act (.read 2))) (t := plainRead)
    ⟨⟨trivial, fun a ha => by cases ha; trivial⟩, [], .nil, rfl⟩ (by decide)

end Example

end Gzv2ray.Kcp
