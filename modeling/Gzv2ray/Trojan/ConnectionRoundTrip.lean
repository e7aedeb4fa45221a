import Gzv2ray.Buf.Reading
import Gzv2ray.Trojan.Connection

/-!
# Round trip of connections

What a writer has sent is nothing, or its header and then what it was given (`HasSent`, kept by
every call). A reader that has parsed a header returns what is behind it, in order
(`ConnReader.Delivered`).

So the header is read back, and what is behind it, unless the destination is a domain whose
length wraps around on one byte (`connRoundTrips_iff`).
-/

namespace Gzv2ray

namespace Trojan

/-! ## The writer -/

section

variable {σ : Type} {k : Sink σ} {received : σ → Bytes}

/-- Behind the hash of a key there is room for the command. -/
theorem ConnWriter.header_eq {w : ConnWriter σ} (hkey : w.key.length = 56) :
    w.header =
      match w.target.address with
      | none => .panic
      | some address =>
        match addrParser.writeAddressPort address w.target.port with
        | .error e => .error e
        | .ok b => .ok (((((Buffer.new.write w.key).1.write crlf).1.write [w.command]).1.write
            b).1.write crlf).1 := by
  obtain ⟨h₁, h₁'⟩ := Buffer.write_take (b := .new) (l := []) rfl rfl w.key
  obtain ⟨h₂, h₂'⟩ := Buffer.write_take h₁ h₁' crlf
  have hroom : ((Buffer.new.write w.key).1.write crlf).1.isFull = false := by
    rw [Buffer.isFull, Buffer.stop, h₂, h₂', List.length_take, List.nil_append, List.length_append,
      hkey]
    rfl
  rw [header]
  dsimp only
  rw [hroom]
  exact if_neg Bool.false_ne_true

/-- The header to an address that is not refused. -/
theorem ConnWriter.header_ok {w : ConnWriter σ} {address : Address} (hkey : w.key.length = 56)
    (haddress : w.target.address = some address) (hrefused : ¬ address.IsRefused) :
    ∃ a buffer, addrParser.writeAddress address = .ok a ∧ w.header = .ok buffer ∧
      buffer.bytes = w.key ++ crlf ++ [w.command] ++
        (a ++ AddressParser.writePort w.target.port) ++ crlf := by
  obtain ⟨a, ha, hb⟩ := Packet.writeAddressPort_ok (p := ⟨address, w.target.port, []⟩) hrefused
  dsimp only at ha hb
  have hlen := Address.length_writeAddress ha
  have hle := Address.encodedLength_le hrefused
  have hport : (AddressParser.writePort w.target.port).length = 2 := length_bigEndian _ _
  have hcrlf : crlf.length = 2 := rfl
  obtain ⟨h₁, h₁'⟩ := Buffer.write_take (b := .new) (l := []) rfl rfl w.key
  obtain ⟨h₂, h₂'⟩ := Buffer.write_take h₁ h₁' crlf
  obtain ⟨h₃, h₃'⟩ := Buffer.write_take h₂ h₂' [w.command]
  obtain ⟨h₄, h₄'⟩ := Buffer.write_take h₃ h₃' (a ++ AddressParser.writePort w.target.port)
  obtain ⟨-, h₅'⟩ := Buffer.write_take h₄ h₄' crlf
  refine ⟨a, _, ha, ?_, h₅'.trans ?_⟩
  · rw [header_eq hkey, haddress]
    dsimp only
    rw [hb]
  · rw [List.nil_append, List.take_of_length_le]
    simp only [List.length_append, List.length_singleton, hkey, hcrlf, hport, hlen, bufSize]
    omega

/-- To an address that is refused, there is no header. -/
theorem ConnWriter.header_refused {w : ConnWriter σ} {address : Address}
    (hkey : w.key.length = 56) (haddress : w.target.address = some address)
    (hrefused : address.IsRefused) : w.header = .error AddressParser.superLongDomain := by
  have herror := addrParser_registers.writeAddressPort_refused hrefused w.target.port
  rw [← addrParser] at herror
  rw [header_eq hkey, haddress]
  dsimp only
  rw [herror]

theorem ConnWriter.exists_writeThrough (hk : k.IsSound received) (w : ConnWriter σ) (p : Bytes) :
    ∃ s, w.writeThrough k p = (.ok p.length, { w with writer := s }) ∧
      received s = received w.writer ++ p := by
  obtain ⟨s, hs, hbytes⟩ := hk.exists_write w.writer p
  exact ⟨s, by rw [writeThrough, hs], hbytes⟩

/-- What a writer has sent since `start`: nothing, or its header and then the payload. -/
structure HasSent (received : σ → Bytes) (buffer : Buffer) (start payload : Bytes)
    (w : ConnWriter σ) : Prop where
  header : w.header = .ok buffer
  received : received w.writer = start ++ if w.headerSent then buffer.bytes ++ payload else []
  unsent : w.headerSent = false → payload = []

namespace HasSent

variable {buffer : Buffer} {start payload : Bytes} {w : ConnWriter σ}

/-- A write sends the header, unless it was sent, and the bytes. -/
theorem write (hk : k.IsSound received) (h : HasSent received buffer start payload w) (p : Bytes) :
    ∃ w', w.write k p = (.ok p.length, w') ∧ w'.headerSent = true ∧
      HasSent received buffer start (payload ++ p) w' := by
  cases hsent : w.headerSent with
  | true =>
    obtain ⟨s, hs, hbytes⟩ := w.exists_writeThrough hk p
    refine ⟨{ w with writer := s }, ?_, hsent, h.header, ?_, fun h' => ?_⟩
    · rw [ConnWriter.write, hsent, Bool.not_true, if_neg Bool.false_ne_true, hs, ← hsent]
    · dsimp only
      rw [hbytes, h.received, hsent, if_pos rfl, if_pos rfl]
      simp only [List.append_assoc]
    · exact absurd (hsent.symm.trans h') (by decide)
  | false =>
    obtain ⟨s₁, hs₁, hbytes₁⟩ := hk.exists_write w.writer buffer.bytes
    obtain ⟨s₂, hs₂, hbytes₂⟩ :=
      { w with writer := s₁, headerSent := true }.exists_writeThrough hk p
    refine ⟨{ w with writer := s₂, headerSent := true }, ?_, rfl, h.header, ?_, fun h' => ?_⟩
    · rw [ConnWriter.write, hsent, Bool.not_false, if_pos rfl, ConnWriter.writeHeader, h.header]
      dsimp only
      rw [hs₁]
      exact hs₂
    · dsimp only
      rw [hbytes₂, hbytes₁, h.received, hsent, h.unsent hsent, if_pos rfl,
        if_neg Bool.false_ne_true]
      simp only [List.append_assoc, List.append_nil, List.nil_append]
    · exact absurd h' Bool.true_eq_false.mp

theorem writeMultiBuffer (hk : k.IsSound received) {mb : MultiBuffer}
    (h : HasSent received buffer start payload w) :
    ∃ w', w.writeMultiBuffer k mb = (.ok (), w') ∧
      w'.headerSent = (w.headerSent || !MultiBuffer.isEmpty mb) ∧
      HasSent received buffer start (payload ++ MultiBuffer.bytes mb) w' := by
  induction mb generalizing w payload with
  | nil =>
    exact ⟨w, rfl, by simp [MultiBuffer.isEmpty], by rwa [MultiBuffer.bytes_nil, List.append_nil]⟩
  | cons b mb ih =>
    rw [ConnWriter.writeMultiBuffer, MultiBuffer.bytes_cons, ← List.append_assoc]
    have hcons : MultiBuffer.isEmpty (b :: mb) = (b.isEmpty && MultiBuffer.isEmpty mb) := rfl
    cases hb : b.isEmpty with
    | true =>
      rw [(Buffer.isEmpty_iff b).1 hb, List.append_nil, hcons, hb, Bool.true_and]
      exact ih h
    | false =>
      obtain ⟨w₁, hwrite, hsent, h₁⟩ := h.write hk b.bytes
      obtain ⟨w', hrest, hsent', h'⟩ := ih h₁
      refine ⟨w', ?_, ?_, h'⟩
      · rw [Bool.not_false, if_pos rfl, hwrite]
        exact hrest
      · rw [hsent', hsent, hcons, hb]
        simp

theorem call (hk : k.IsSound received) (h : HasSent received buffer start payload w)
    (call : WriteCall) :
    ∃ w', w.call k call = (.ok (), w') ∧ w'.headerSent = (w.headerSent || call.writes) ∧
      HasSent received buffer start (payload ++ call.payload) w' := by
  cases call with
  | write p =>
    obtain ⟨w', hwrite, hsent, h'⟩ := h.write hk p
    refine ⟨w', ?_, by rw [hsent, WriteCall.writes, Bool.or_true], h'⟩
    rw [ConnWriter.call, hwrite]
    rfl
  | writeMultiBuffer mb => exact h.writeMultiBuffer hk

/-- After calls, all that they were given is sent, if any of them writes. -/
theorem calls (hk : k.IsSound received) (h : HasSent received buffer start payload w)
    (calls : List WriteCall) :
    ∃ w', w.calls k calls = (.ok (), w') ∧
      w'.headerSent = (w.headerSent || calls.any WriteCall.writes) ∧
      HasSent received buffer start (payload ++ calls.flatMap WriteCall.payload) w' := by
  induction calls generalizing w payload with
  | nil => exact ⟨w, rfl, by simp, by rwa [List.flatMap_nil, List.append_nil]⟩
  | cons call calls ih =>
    obtain ⟨w₁, hcall, hsent, h₁⟩ := h.call hk call
    obtain ⟨w', hrest, hsent', h'⟩ := ih h₁
    refine ⟨w', ?_, ?_, ?_⟩
    · rw [ConnWriter.calls, hcall]
      exact hrest
    · rw [hsent', hsent, List.any_cons, Bool.or_assoc]
    · rwa [List.flatMap_cons, ← List.append_assoc]

end HasSent

/-- Calls that write fail at the first write, if there is no header. -/
theorem ConnWriter.calls_refused {w : ConnWriter σ} {e : Error} {calls : List WriteCall}
    (hheader : w.header = .error e) (hsent : w.headerSent = false)
    (hwrites : calls.any WriteCall.writes = true) :
    w.calls k calls = (.error (failedToWriteHeader.base e), w) := by
  have hwrite (p : Bytes) : w.write k p = (.error (failedToWriteHeader.base e), w) := by
    rw [write, hsent, Bool.not_false, if_pos rfl, writeHeader, hheader]
  have hmulti (mb : MultiBuffer) : w.writeMultiBuffer k mb =
      if MultiBuffer.isEmpty mb then (.ok (), w) else (.error (failedToWriteHeader.base e), w) := by
    induction mb with
    | nil => rfl
    | cons b mb ih =>
      have hcons : MultiBuffer.isEmpty (b :: mb) = (b.isEmpty && MultiBuffer.isEmpty mb) := rfl
      rw [writeMultiBuffer, hcons]
      cases b.isEmpty with
      | true => exact ih
      | false => rw [Bool.not_false, if_pos rfl, hwrite]; rfl
  have hcall (call : WriteCall) : w.call k call =
      if call.writes then (.error (failedToWriteHeader.base e), w) else (.ok (), w) := by
    cases call with
    | write p => rw [call, hwrite]; rfl
    | writeMultiBuffer mb =>
      rw [call, hmulti, WriteCall.writes]
      cases MultiBuffer.isEmpty mb <;> rfl
  induction calls with
  | nil => cases hwrites
  | cons call rest ih =>
    rw [calls, hcall]
    cases hc : call.writes with
    | true => rfl
    | false => exact ih (by rwa [List.any_cons, hc, Bool.false_or] at hwrites)

end

/-! ## The reader -/

variable {parseIP : Bytes → Option IPv6}

namespace ConnReader

variable {c : ConnReader}

/-- A header is read, and no byte behind it. -/
theorem parseHeader_append {address : Address} (hplain : address.IsPlain parseIP)
    (hrefused : ¬ address.IsRefused) (hwraps : ¬ address.Wraps) {key a rest : Bytes}
    {command : UInt8} {port : UInt16} (hkey : key.length = 56)
    (ha : addrParser.writeAddress address = .ok a)
    (h : c.reader.bytes =
      key ++ crlf ++ [command] ++ (a ++ AddressParser.writePort port) ++ crlf ++ rest) :
    ∃ reader, c.parseHeader parseIP = (none, ⟨reader, key,
        ⟨some address, port, if command = commandUDP then .udp else .tcp⟩, true⟩) ∧
      reader.bytes = rest ∧ reader.reader.err = c.reader.reader.err := by
  have hfeeds := feeds_bufferedReader c.reader.reader.err
  have hout : addrParser.writeAddressPort address port = .ok (a ++ AddressParser.writePort port) := by
    rw [AddressParser.writeAddressPort, ha]
    rfl
  have hlen : (a ++ AddressParser.writePort port).length ≤ bufSize := by
    have hport : (AddressParser.writePort port).length = 2 := length_bigEndian _ _
    have hle := Address.encodedLength_le hrefused
    rw [List.length_append, Address.length_writeAddress ha, hport, bufSize]
    omega
  rw [List.append_assoc, List.append_assoc, List.append_assoc, List.append_assoc] at h
  obtain ⟨r₁, hread₁, hr₁⟩ := hfeeds.append (n := 56) ⟨h, rfl⟩ hkey
  obtain ⟨r₂, hread₂, hr₂⟩ := hfeeds.append (n := 2) hr₁ rfl
  obtain ⟨r₃, hread₃, hr₃⟩ := hfeeds.append (n := 1) hr₂ rfl
  obtain ⟨r₄, hread₄, hr₄⟩ := AddressParser.readAddressPort_writeAddressPort
    addrParser_isConsistent hfeeds (hplain.isReadable_of_writeAddress hwraps ha) (b := []) hout hr₃
    (by rwa [List.length_nil, Nat.zero_add])
  obtain ⟨r₅, hread₅, hr₅⟩ := hfeeds.append (n := 2) hr₄ rfl
  rw [hplain.canonical] at hread₄
  refine ⟨r₅, ?_, hr₅.1, hr₅.2⟩
  rw [parseHeader, hread₁]
  dsimp only
  rw [hread₂]
  dsimp only
  rw [hread₃]
  dsimp only
  rw [hread₄]
  dsimp only
  rw [hread₅]
  rfl

/-- The address of a header that is parsed has a length that does not wrap around. -/
theorem not_wraps_of_parseHeader {c' : ConnReader} {address : Address}
    (h : c.parseHeader parseIP = (none, c')) (haddress : c'.target.address = some address) :
    ¬ address.Wraps := by
  rw [parseHeader] at h
  rcases hread₁ : c.reader.readFull 56 with ⟨e | hash, r₁⟩ <;> rw [hread₁] at h
  · cases h
  dsimp only at h
  rcases hread₂ : r₁.readFull 2 with ⟨e | _, r₂⟩ <;> rw [hread₂] at h
  · cases h
  dsimp only at h
  rcases hread₃ : r₂.readFull 1 with ⟨e | command, r₃⟩ <;> rw [hread₃] at h
  · cases h
  dsimp only at h
  rcases hread₄ : addrParser.readAddressPort parseIP BufferedReader.readFull [] r₃ with
    ⟨e | ⟨addr, port, b⟩, r₄⟩ <;> rw [hread₄] at h
  · cases h
  dsimp only at h
  obtain ⟨address', b', rfl, henc, -⟩ := AddressParser.readAddressPort_eq_ok rfl rfl hread₄
  rcases hread₅ : r₄.readFull 2 with ⟨e | _, r₅⟩ <;> rw [hread₅] at h
  · cases h
  cases h
  cases haddress
  exact henc.not_wraps

/-! ## What is behind the header -/

theorem read_parsed (hparsed : c.headerParsed = true) (n : ℕ) :
    c.read parseIP n = c.readThrough n := by
  rw [read, hparsed, Bool.not_true, if_neg Bool.false_ne_true]

/-- What is left to be read. -/
def left (c : ConnReader) : ℕ := c.reader.reader.segments.length + c.reader.bytes.length

theorem call_ok (parseIP : Bytes → Option IPv6) (hparsed : c.headerParsed = true) {call : ReadCall}
    {p : Bytes} {reader : BufferedReader} (hread : c.reader.read call.size = (.ok p, reader))
    (hlen : p.length ≤ call.size) : c.call parseIP call = ((p, none), { c with reader }) := by
  cases call with
  | read n =>
    rw [ReadCall.size] at hread
    rw [ConnReader.call, read_parsed hparsed, readThrough, hread]
  | readMultiBuffer =>
    rw [ReadCall.size] at hread hlen
    rw [ConnReader.call, readMultiBuffer, read_parsed hparsed, readThrough, hread]
    dsimp only
    rw [MultiBuffer.bytes_cons, MultiBuffer.bytes_nil, List.append_nil, Buffer.write_new p hlen]

theorem call_error (parseIP : Bytes → Option IPv6) (hparsed : c.headerParsed = true)
    {call : ReadCall} {e : Error} {reader : BufferedReader}
    (hread : c.reader.read call.size = (.error e, reader)) :
    c.call parseIP call = (([], some e), { c with reader }) := by
  cases call with
  | read n =>
    rw [ReadCall.size] at hread
    rw [ConnReader.call, read_parsed hparsed, readThrough, hread]
  | readMultiBuffer =>
    rw [ReadCall.size] at hread
    rw [ConnReader.call, readMultiBuffer, read_parsed hparsed, readThrough, hread]
    rfl

/-- A call returns the next bytes, or there are none. -/
theorem call_parsed (parseIP : Bytes → Option IPv6) (hparsed : c.headerParsed = true)
    (call : ReadCall) :
    (∃ out c', c.call parseIP call = ((out, none), c') ∧ c'.headerParsed = true ∧
      out ++ c'.reader.bytes = c.reader.bytes ∧ c'.reader.reader.err = c.reader.reader.err ∧
      (0 < call.size → c'.left < c.left) ∧ c'.left ≤ c.left) ∨
    c.call parseIP call = (([], some c.reader.reader.err), c) ∧ c.reader.bytes = [] := by
  rcases c.reader.read_cases call.size with
    ⟨out, reader, hread, hbytes, hlen, herr, hsegments, -⟩ | ⟨hread, hnil, -⟩
  · refine .inl ⟨out, _, call_ok parseIP hparsed hread hlen, hparsed, hbytes, herr,
      fun hsize => c.reader.read_less hsize hread, ?_⟩
    rw [left, left, ← hbytes, List.length_append]
    dsimp only
    omega
  · exact .inr ⟨call_error parseIP hparsed hread, hnil⟩

/-- What calls return: the payload, in order; an error only after all of it, and all of it once
    there were calls enough. -/
structure Delivered (payload : Bytes) (err : Error) (c : ConnReader) (calls : List ReadCall)
    (outs : List (Bytes × Option Error)) (c' : ConnReader) : Prop where
  bytes : outs.flatMap Prod.fst ++ c'.reader.bytes = payload
  ended : ∀ o ∈ outs, ∀ e, o.2 = some e → e = err ∧ outs.flatMap Prod.fst = payload
  complete : c.left ≤ calls.countP (fun call => 0 < call.size) → outs.flatMap Prod.fst = payload

theorem calls_parsed (parseIP : Bytes → Option IPv6) (hparsed : c.headerParsed = true)
    (calls : List ReadCall) :
    Delivered c.reader.bytes c.reader.reader.err c calls (c.calls parseIP calls).1
      (c.calls parseIP calls).2 := by
  induction calls generalizing c with
  | nil =>
    refine ⟨rfl, fun _ ho => absurd ho List.not_mem_nil, fun h => ?_⟩
    have hnil : c.reader.bytes.length = 0 := by
      rw [List.countP_nil, left] at h
      omega
    exact (List.length_eq_zero_iff.1 hnil).symm
  | cons call calls ih =>
    rw [ConnReader.calls]
    rcases call_parsed parseIP hparsed call with
      ⟨out, c₁, hcall, hparsed₁, hbytes, herr, hless, hle⟩ | ⟨hcall, hnil⟩
    · obtain ⟨hbytes', hended, hcomplete⟩ := ih hparsed₁
      rw [hcall]
      dsimp only
      rw [herr] at hended
      refine ⟨?_, fun o ho e he => ?_, fun h => ?_⟩
      · rw [List.flatMap_cons, List.append_assoc, hbytes', hbytes]
      · rcases List.mem_cons.1 ho with rfl | ho
        · cases he
        · obtain ⟨rfl, hall⟩ := hended o ho e he
          exact ⟨rfl, by rw [List.flatMap_cons, hall, hbytes]⟩
      · rw [List.flatMap_cons, hcomplete ?_, hbytes]
        rw [List.countP_cons] at h
        split at h
        · rename_i hsize
          have := hless (of_decide_eq_true hsize)
          omega
        · omega
    · obtain ⟨hbytes', hended, -⟩ := ih hparsed
      have hall : (c.calls parseIP calls).1.flatMap Prod.fst = [] := by
        rw [hnil] at hbytes'
        exact (List.append_eq_nil_iff.1 hbytes').1
      rw [hcall]
      dsimp only
      refine ⟨hbytes', fun o ho e he => ?_, fun _ => ?_⟩
      · refine ⟨?_, by rw [List.flatMap_cons, hall, hnil]; rfl⟩
        rcases List.mem_cons.1 ho with rfl | ho
        · exact (Option.some.inj he).symm
        · exact (hended o ho e he).1
      · rw [List.flatMap_cons, hall, hnil]
        rfl

end ConnReader

/-! ## The round trip -/

/-- Over any sink, and whatever calls there are, at least one of which writes: they return nil,
    unless the destination is refused, and then the header was sent once, ahead of what they were
    given. The header is read back, and whatever is read behind it is what they were given,
    however the stream is split into reads. -/
def ConnRoundTrips (parseIP : Bytes → Option IPv6) (key : Bytes) (target : Destination) : Prop :=
  ∀ {σ : Type} (k : Sink σ) (received : σ → Bytes), k.IsSound received → ∀ (s : σ)
    (calls : List WriteCall), calls.any WriteCall.writes = true →
    ∀ out w, (⟨s, target, key, false⟩ : ConnWriter σ).calls k calls = (out, w) →
      (out = .ok () ∨ ∃ address, target.address = some address ∧ address.IsRefused) ∧
      (out = .ok () → (∃ buffer, w.header = .ok buffer ∧
          received w.writer = received s ++ (buffer.bytes ++ calls.flatMap WriteCall.payload)) ∧
        ∀ r : BufferedReader, received w.writer = received s ++ r.bytes →
          ∃ c, (⟨r, [], {}, false⟩ : ConnReader).parseHeader parseIP = (none, c) ∧ c.hash = key ∧
            c.target = target ∧ ∀ reads, ConnReader.Delivered (calls.flatMap WriteCall.payload)
              r.reader.err c reads (c.calls parseIP reads).1 (c.calls parseIP reads).2)

section

variable {key : Bytes} {address : Address} {port : UInt16} {network : Network}

theorem connRoundTrips (hkey : key.length = 56) (hplain : address.IsPlain parseIP)
    (hnetwork : network = .tcp ∨ network = .udp) (hwraps : ¬ address.Wraps) :
    ConnRoundTrips parseIP key ⟨some address, port, network⟩ := by
  intro σ k received hk s calls hwrites out w hcalls
  set w₀ : ConnWriter σ := ⟨s, ⟨some address, port, network⟩, key, false⟩ with hw₀
  by_cases hrefused : address.IsRefused
  · have herror := ConnWriter.calls_refused (k := k) (ConnWriter.header_refused hkey rfl hrefused :
      w₀.header = _) rfl hwrites
    obtain ⟨rfl, -⟩ := Prod.mk.inj (herror.symm.trans hcalls)
    exact ⟨.inr ⟨address, rfl, hrefused⟩, fun h => by cases h⟩
  · obtain ⟨a, buffer, ha, hheader, hbuffer⟩ :=
      ConnWriter.header_ok (w := w₀) hkey rfl hrefused
    have h₀ : HasSent received buffer (received s) [] w₀ :=
      ⟨hheader, by rw [if_neg Bool.false_ne_true, List.append_nil], fun _ => rfl⟩
    obtain ⟨w', hcalls', hsent, h⟩ := h₀.calls hk calls
    obtain ⟨rfl, rfl⟩ := Prod.mk.inj (hcalls'.symm.trans hcalls)
    have hreceived := h.received
    rw [hsent, hwrites, Bool.or_true, if_pos rfl, List.nil_append] at hreceived
    refine ⟨.inl rfl, fun _ => ⟨⟨buffer, h.header, hreceived⟩, fun r hr => ?_⟩⟩
    have hbytes := List.append_cancel_left (hr.symm.trans hreceived)
    rw [hbuffer] at hbytes
    obtain ⟨reader, hparse, hrest, herr⟩ := ConnReader.parseHeader_append (c := ⟨r, [], {}, false⟩)
      hplain hrefused hwraps hkey ha hbytes
    refine ⟨_, hparse, rfl, ?_, fun reads => ?_⟩
    · rcases hnetwork with rfl | rfl <;> rfl
    · have hdelivered := ConnReader.calls_parsed parseIP (c := ⟨reader, key,
        ⟨some address, port, if w₀.command = commandUDP then .udp else .tcp⟩, true⟩) rfl reads
      dsimp only at hdelivered
      rwa [hrest, herr] at hdelivered

theorem not_wraps_of_connRoundTrips
    (h : ConnRoundTrips parseIP key ⟨some address, port, network⟩) : ¬ address.Wraps := by
  intro hwraps
  have hrefused : ¬ address.IsRefused := by
    rintro ⟨name, rfl, hlong⟩
    have hlen : name.length = 256 := hwraps
    rw [AddressParser.isDomainTooLong, hlen] at hlong
    exact absurd hlong (by decide)
  -- a write of no bytes sends the header
  rcases hcalls : (⟨[], ⟨some address, port, network⟩, key, false⟩ : ConnWriter Bytes).calls
    (BufferedWriter.exampleSink true) [.write []] with ⟨out, w⟩
  obtain ⟨hout, hread⟩ := h _ id (BufferedWriter.exampleSink_isSound true) [] _ rfl out w hcalls
  have hok : out = .ok () := by
    refine hout.resolve_right ?_
    rintro ⟨_, haddress, h⟩
    cases haddress
    exact hrefused h
  obtain ⟨c, hparse, -, htarget, -⟩ := (hread hok).2
    ⟨MultiBuffer.mergeBytes [] w.writer, ⟨[], .eof⟩⟩ (by simp [BufferedReader.bytes, Source.bytes])
  exact ConnReader.not_wraps_of_parseHeader hparse (congrArg Destination.address htarget) hwraps

/-- A connection is read back exactly if the length of its domain does not wrap around. -/
theorem connRoundTrips_iff (hkey : key.length = 56) (hplain : address.IsPlain parseIP)
    (hnetwork : network = .tcp ∨ network = .udp) :
    ConnRoundTrips parseIP key ⟨some address, port, network⟩ ↔ ¬ address.Wraps :=
  ⟨not_wraps_of_connRoundTrips, connRoundTrips hkey hplain hnetwork⟩

end

/-- A key of 56 digits. -/
def exampleKey : Bytes := List.replicate 56 0x30

theorem connRoundTrips_example :
    ConnRoundTrips (fun _ => none) exampleKey ⟨some (.domain (ascii "a.b")), 80, .udp⟩ ↔
      ¬ Address.Wraps (.domain (ascii "a.b")) :=
  connRoundTrips_iff (by decide) (show Address.IsPlain (fun _ => none) (.domain (ascii "a.b")) from
    ⟨by decide, by decide, by decide⟩) (.inr rfl)

/-- A domain of 256 letters. -/
def wrappingDomain : Address := .domain (List.replicate 256 0x61)

theorem not_connRoundTrips_wrapping : wrappingDomain.IsPlain (fun _ => none) ∧
    ¬ ConnRoundTrips (fun _ => none) exampleKey ⟨some wrappingDomain, 80, .tcp⟩ := by
  refine ⟨⟨List.cons_ne_nil _ _, ?_, rfl⟩,
    fun h => not_wraps_of_connRoundTrips h List.length_replicate⟩
  rw [isValidDomain, List.all_replicate]
  rfl

end Trojan

end Gzv2ray
