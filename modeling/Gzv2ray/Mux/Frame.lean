import Gzv2ray.Net.AddressRoundTrip

/-!
# The frames of a multiplexed connection

A frame is its metadata behind their length, and where the option says so the
data behind their length. The metadata name the session and the status of the
frame; those of a new session name its target.

* `FrameMetadata.writeTo`, `FrameMetadata.unmarshal`: the codec of the metadata;
* `FrameMetadata.unmarshal_writeTo`: the round trip. The target is read in
  canonical form.
-/

namespace Gzv2ray

namespace Mux

def sessionStatusNew : UInt8 := 0x01

def sessionStatusKeep : UInt8 := 0x02

def sessionStatusEnd : UInt8 := 0x03

def sessionStatusKeepAlive : UInt8 := 0x04

def optionData : UInt8 := 0x01

def optionError : UInt8 := 0x02

def targetNetworkTCP : UInt8 := 0x01

def targetNetworkUDP : UInt8 := 0x02

/-- One of the bits is set. -/
def has (b bits : UInt8) : Bool := b &&& bits != 0

structure FrameMetadata where
  target : Destination := {}
  sessionID : UInt16 := 0
  option : UInt8 := 0
  sessionStatus : UInt8 := 0
  deriving DecidableEq

def invalidMetaLen : Error := .new (ascii "invalid metalen ")

def insufficientBuffer : Error := .new (ascii "insufficient buffer: ")

def failedToParseAddress : Error := .new (ascii "failed to parse address and port")

def unknownNetworkType : Error := .new (ascii "unknown network type: ")

namespace FrameMetadata

variable (f : FrameMetadata)

/-- The byte of the network of the target. Only two networks have one. -/
def networkBytes : Bytes :=
  match f.target.network with
  | .tcp => [targetNetworkTCP]
  | .udp => [targetNetworkUDP]
  | _ => []

/-- The target of a new session. Without an address, it has no family to ask for. -/
def targetBytes : Outcome Bytes :=
  if f.sessionStatus = sessionStatusNew then
    match f.target.address with
    | none => .panic
    | some address =>
      match addrParser.writeAddressPort address f.target.port with
      | .ok b => .ok (f.networkBytes ++ b)
      | .error e => .error e
  else .ok []

def writeTo : Outcome Bytes :=
  match f.targetBytes with
  | .ok target =>
    let b := bigEndian 2 f.sessionID.toNat ++ [f.sessionStatus, f.option] ++ target
    .ok (bigEndian 2 b.length ++ b)
  | .error e => .error e
  | .panic => .panic

section

variable (parseIP : Bytes → Option IPv6)

/-- Reads the metadata from a buffer. Those of no new session leave the address and
    the port of the target as they are. -/
def unmarshalFromBuffer (b : Bytes) : Except Error FrameMetadata :=
  if b.length < 4 then .error insufficientBuffer
  else
    let f := { f with
      sessionID := UInt16.ofNat (ofBigEndian (b.take 2))
      sessionStatus := b.getD 2 0
      option := b.getD 3 0
      target := { f.target with network := .unknown } }
    if f.sessionStatus = sessionStatusNew then
      if b.length < 8 then .error insufficientBuffer
      else
        let network := b.getD 4 0
        match (addrParser.readAddressPort parseIP readFullBytes [] (b.drop 5)).1 with
        | .error _ => .error failedToParseAddress
        | .ok (address, port, _) =>
          if network = targetNetworkTCP then .ok { f with target := ⟨address, port, .tcp⟩ }
          else if network = targetNetworkUDP then .ok { f with target := ⟨address, port, .udp⟩ }
          else .error unknownNetworkType
    else .ok f

/-- Reads the metadata from a reader. -/
def unmarshal (r : BufferedReader) : Except Error FrameMetadata × BufferedReader :=
  match r.readFull 2 with
  | (.error e, r) => (.error e, r)
  | (.ok lenBytes, r) =>
    let metaLen := ofBigEndian lenBytes
    if metaLen > 512 then (.error invalidMetaLen, r)
    else
      match readFullFrom BufferedReader.readFull [] r metaLen with
      | (.error e, r) => (.error e, r)
      | (.ok b, r) => (f.unmarshalFromBuffer parseIP b, r)

/-! ## Round trip -/

/-- The target of a new session is one that is read: of one of the two networks, and
    with an address that is read. -/
def IsReadable : Prop :=
  f.sessionStatus = sessionStatusNew →
    (f.target.network = .tcp ∨ f.target.network = .udp) ∧
      ∃ address, f.target.address = some address ∧ address.IsReadable parseIP

/-- What is read into the metadata `f` where `g` was written. -/
def received (g : FrameMetadata) : FrameMetadata :=
  if g.sessionStatus = sessionStatusNew then
    { g with target := { g.target with address := g.target.address.map (·.canonical parseIP) } }
  else { g with target := { f.target with network := .unknown } }

end

variable {f} {parseIP : Bytes → Option IPv6}

@[simp] theorem received_sessionID (g : FrameMetadata) :
    (f.received parseIP g).sessionID = g.sessionID := by
  rw [received]
  split <;> rfl

@[simp] theorem received_option (g : FrameMetadata) :
    (f.received parseIP g).option = g.option := by
  rw [received]
  split <;> rfl

@[simp] theorem received_sessionStatus (g : FrameMetadata) :
    (f.received parseIP g).sessionStatus = g.sessionStatus := by
  rw [received]
  split <;> rfl

/-- The metadata without their length. -/
theorem writeTo_ok {out : Bytes} (h : f.writeTo = .ok out) :
    ∃ target, f.targetBytes = .ok target ∧ ∃ b,
      b = bigEndian 2 f.sessionID.toNat ++ [f.sessionStatus, f.option] ++ target ∧
        out = bigEndian 2 b.length ++ b := by
  rw [writeTo] at h
  cases ht : f.targetBytes with
  | ok target =>
    rw [ht] at h
    cases h
    exact ⟨target, rfl, _, rfl, rfl⟩
  | error e => simp [ht] at h
  | panic => simp [ht] at h

/-- The target of a new session: the byte of its network, its port and its address. -/
theorem targetBytes_new (hf : f.IsReadable parseIP) (hnew : f.sessionStatus = sessionStatusNew) :
    ∃ address b, f.target.address = some address ∧ address.IsReadable parseIP ∧
      addrParser.writeAddressPort address f.target.port = .ok b ∧ 3 ≤ b.length ∧ b.length ≤ 259 ∧
      (f.target.network = .tcp ∧ f.targetBytes = .ok (targetNetworkTCP :: b) ∨
        f.target.network = .udp ∧ f.targetBytes = .ok (targetNetworkUDP :: b)) := by
  obtain ⟨hnetwork, address, haddress, hreadable⟩ := hf hnew
  obtain ⟨tb, htb⟩ : ∃ tb, addrParser.addrByteMap address.family = some tb := by
    cases address.family <;> exact ⟨_, rfl⟩
  obtain ⟨a, ha, hpos, hlen⟩ := AddressParser.writeAddress_ok hreadable htb
  have hport : (AddressParser.writePort f.target.port).length = 2 := length_bigEndian _ _
  have hb : addrParser.writeAddressPort address f.target.port =
      .ok (AddressParser.writePort f.target.port ++ a) := by
    rw [AddressParser.writeAddressPort, ha]
    rfl
  refine ⟨address, _, haddress, hreadable, hb, ?_, ?_, hnetwork.imp (fun h => ⟨h, ?_⟩)
    fun h => ⟨h, ?_⟩⟩
  · rw [List.length_append]; omega
  · rw [List.length_append]; omega
  · rw [targetBytes, if_pos hnew, haddress]
    simp [hb, networkBytes, h]
  · rw [targetBytes, if_pos hnew, haddress]
    simp [hb, networkBytes, h]

/-- The metadata that are read are written. -/
theorem writeTo_of_isReadable (hf : f.IsReadable parseIP) :
    ∃ out, f.writeTo = .ok out ∧ out.length ≤ 512 := by
  by_cases hnew : f.sessionStatus = sessionStatusNew
  · obtain ⟨address, b, -, -, -, -, hlen, ⟨-, h⟩ | ⟨-, h⟩⟩ := targetBytes_new hf hnew
    all_goals exact ⟨_, by rw [writeTo, h], by simp; omega⟩
  · exact ⟨_, by rw [writeTo, targetBytes, if_neg hnew], by simp⟩

/-- A reader takes the metadata and their length, and nothing more. -/
theorem unmarshal_append {r : BufferedReader} {b rest : Bytes} (hlen : b.length ≤ 512)
    (h : r.bytes = bigEndian 2 b.length ++ b ++ rest) :
    ∃ r', f.unmarshal parseIP r = (f.unmarshalFromBuffer parseIP b, r') ∧ r'.bytes = rest ∧
      r'.reader.err = r.reader.err := by
  have h2 : (bigEndian 2 b.length).length = 2 := length_bigEndian _ _
  rw [List.append_assoc] at h
  obtain ⟨r₁, hread₁, hbytes₁, herr₁⟩ := r.readFull_ok (n := 2) (by rw [h]; simp)
  rw [h, List.take_left' h2] at hread₁
  rw [h, List.drop_left' h2] at hbytes₁
  obtain ⟨r₂, hread₂, hbytes₂, herr₂⟩ := (feeds_bufferedReader r₁.reader.err).readFullFrom
    (b := []) (n := b.length) ⟨hbytes₁, rfl⟩ rfl (by simp only [List.length_nil, bufSize]; omega)
  refine ⟨r₂, ?_, hbytes₂, herr₂.trans herr₁⟩
  rw [unmarshal, hread₁]
  dsimp only
  rw [ofBigEndian_bigEndian (by omega), if_neg (by omega), hread₂]
  rfl

/-- The metadata written are read from a buffer, the target in canonical form. -/
theorem unmarshalFromBuffer_writeTo {g : FrameMetadata} (hg : g.IsReadable parseIP) {out : Bytes}
    (hout : g.writeTo = .ok out) :
    ∃ b, out = bigEndian 2 b.length ++ b ∧ b.length ≤ 512 ∧
      f.unmarshalFromBuffer parseIP b = .ok (f.received parseIP g) := by
  obtain ⟨out', hout', hlen⟩ := writeTo_of_isReadable hg
  obtain rfl : out' = out := Outcome.ok.inj (hout'.symm.trans hout)
  obtain ⟨target, htarget, b, hb, rfl⟩ := writeTo_ok hout
  refine ⟨b, rfl, by simp at hlen; omega, ?_⟩
  have hid : (bigEndian 2 g.sessionID.toNat).length = 2 := length_bigEndian _ _
  obtain ⟨i, j, hij⟩ : ∃ i j, bigEndian 2 g.sessionID.toNat = [i, j] := List.length_eq_two.1 hid
  have hsession : UInt16.ofNat (ofBigEndian [i, j]) = g.sessionID := by
    rw [← hij, ofBigEndian_bigEndian g.sessionID.toNat_lt, UInt16.ofNat_toNat]
  rw [hij] at hb
  subst hb
  rw [unmarshalFromBuffer, if_neg (by simp)]
  simp only [List.cons_append, List.nil_append, List.take_succ_cons, List.take_zero, hsession,
    List.getD_cons_succ, List.getD_cons_zero, received]
  split
  · rename_i hnew
    obtain ⟨address, a, haddress, hreadable, ha, hpos, hlen', h⟩ := targetBytes_new hg hnew
    obtain ⟨_, hread, -⟩ := AddressParser.readAddressPort_writeAddressPort
      AddressParser.addrParser_isConsistent
      feeds_readFullBytes hreadable (b := []) ha (List.append_nil a).symm
      (by simp only [List.length_nil, bufSize]; omega)
    -- the first byte names the network
    rcases h with ⟨hnetwork, h⟩ | ⟨hnetwork, h⟩
    · obtain rfl : targetNetworkTCP :: a = target := Outcome.ok.inj (h.symm.trans htarget)
      rw [if_neg (by simp only [List.length_cons]; omega)]
      simp [hread, haddress, hnetwork]
    · obtain rfl : targetNetworkUDP :: a = target := Outcome.ok.inj (h.symm.trans htarget)
      rw [if_neg (by simp only [List.length_cons]; omega)]
      simp [hread, haddress, hnetwork, targetNetworkTCP, targetNetworkUDP]
  · rfl

/-- The metadata written are read by any reader, the target in canonical form, and no
    byte behind them is read. -/
theorem unmarshal_writeTo {g : FrameMetadata} (hg : g.IsReadable parseIP) {out rest : Bytes}
    (hout : g.writeTo = .ok out) {r : BufferedReader} (h : r.bytes = out ++ rest) :
    ∃ r', f.unmarshal parseIP r = (.ok (f.received parseIP g), r') ∧ r'.bytes = rest ∧
      r'.reader.err = r.reader.err := by
  obtain ⟨b, rfl, hlen, hread⟩ := unmarshalFromBuffer_writeTo (f := f) hg hout
  obtain ⟨r', hr, hbytes, herr⟩ := unmarshal_append (f := f) hlen h
  exact ⟨r', hr.trans (by rw [hread]), hbytes, herr⟩

end FrameMetadata

end Mux

end Gzv2ray
