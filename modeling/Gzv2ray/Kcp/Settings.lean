import Gzv2ray.Kcp.Config
import Gzv2ray.Kcp.Packet

/-!
# KCP settings

The settings as a user writes them, and the packets that come of them.

* `KCPConfig.build`: the settings that are accepted. What it checks is known of its
  result (`KCPConfig.built_of_build`);
* `StreamConfig.packetWriter`: the writer of datagrams, with the header and the security
  the settings ask for.
-/

namespace Gzv2ray.Kcp

/-! ## Headers -/

/-- The headers that make datagrams look like those of something else. -/
inductive HeaderConfig
  | noop
  | srtp
  | utp
  | wechat
  | dtls
  | wireguard
  deriving DecidableEq

/-- The length that the `n`-th DTLS record claims to have. -/
def dtlsLength : ℕ → UInt16
  | 0 => 17
  | n + 1 =>
    let length := dtlsLength n + 17
    if length > 100 then length - 50 else length

namespace HeaderConfig

def size : HeaderConfig → ℕ
  | noop => 0
  | srtp => 4
  | utp => 4
  | wechat => 13
  | dtls => 1 + 2 + 2 + 6 + 2
  | wireguard => 4

/-- The `n`-th header, of a series that begins with what was drawn for it. -/
def serialize (roll : UInt16) (n : ℕ) : HeaderConfig → Bytes
  | noop => []
  | srtp => bigEndian 2 0xB5E8 ++ bigEndian 2 (roll + UInt16.ofNat (n + 1)).toNat
  | utp => bigEndian 2 roll.toNat ++ [1, 0]
  | wechat => [0xa1, 0x08] ++ bigEndian 4 (roll.toUInt32 + UInt32.ofNat (n + 1)).toNat ++
    [0x00, 0x10, 0x11, 0x18, 0x30, 0x22, 0x30]
  | dtls => [23, 254, 253] ++ bigEndian 2 roll.toNat ++ [0, 0] ++
    bigEndian 4 (UInt32.ofNat n).toNat ++ bigEndian 2 (dtlsLength n).toNat
  | wireguard => [0x04, 0x00, 0x00, 0x00]

theorem length_serialize (h : HeaderConfig) (roll : UInt16) (n : ℕ) :
    (h.serialize roll n).length = h.size := by
  cases h <;> simp only [serialize, size, List.length_append, length_bigEndian, List.length_cons,
    List.length_nil]

theorem size_le (h : HeaderConfig) : h.size ≤ 13 := by cases h <;> decide

def createPacketHeader (h : HeaderConfig) (roll : UInt16) : PacketHeader where
  size := h.size
  serialize n := h.serialize roll n
  length_serialize := h.length_serialize roll

end HeaderConfig

/-- The letters that `strings.ToLower` makes ASCII letters of. -/
def toLower (c : Char) : Char :=
  if c = '\u0130' then 'i' else if c = '\u212a' then 'k' else c.toLower

/-- The header of a type, if there is one. -/
def kcpHeaderLoader (id : String) : Option HeaderConfig :=
  [("none", HeaderConfig.noop), ("srtp", .srtp), ("utp", .utp), ("wechat-video", .wechat),
    ("dtls", .dtls), ("wireguard", .wireguard)].lookup (id.map toLower)

/-! ## Settings -/

/-- The configuration of a connection and of its packets. -/
structure StreamConfig extends Config where
  headerConfig : Option HeaderConfig := none
  seed : Option String := none

/-- The settings as they are written. Those of the header are an object with a `type`, or
    something else. -/
structure KCPConfig where
  mtu : Option UInt32 := none
  tti : Option UInt32 := none
  upCap : Option UInt32 := none
  downCap : Option UInt32 := none
  congestion : Option Bool := none
  readBufferSize : Option UInt32 := none
  writeBufferSize : Option UInt32 := none
  headerConfig : Option (Option String) := none
  seed : Option String := none

namespace KCPConfig

/-- A number of mebibytes, or half of one for zero. -/
def bufferSize (size : UInt32) : UInt32 := if size > 0 then size * 1024 * 1024 else 512 * 1024

def invalidMTU : Error := .new (ascii "invalid mKCP MTU size")
def invalidTTI : Error := .new (ascii "invalid mKCP TTI")
def invalidHeader : Error := .new (ascii "invalid mKCP header config")

def build (c : KCPConfig) : Except Error StreamConfig :=
  if c.mtu.any fun mtu => mtu < 576 || mtu > 1460 then .error invalidMTU
  else if c.tti.any fun tti => tti < 10 || tti > 100 then .error invalidTTI
  else
    let config (headerConfig : Option HeaderConfig) : StreamConfig := {
      mtu := c.mtu
      tti := c.tti
      uplinkCapacity := c.upCap
      downlinkCapacity := c.downCap
      congestion := c.congestion.getD false
      readBuffer := c.readBufferSize.map bufferSize
      writeBuffer := c.writeBufferSize.map bufferSize
      headerConfig
      seed := c.seed }
    match c.headerConfig with
    | none => .ok (config none)
    | some id =>
      match id.bind kcpHeaderLoader with
      | none => .error invalidHeader
      | some header => .ok (config (some header))

/-- What accepted settings are, and the configuration they come to. -/
structure Built (c : KCPConfig) (config : StreamConfig) : Prop where
  mtu : config.mtu = c.mtu
  tti : config.tti = c.tti
  uplinkCapacity : config.uplinkCapacity = c.upCap
  downlinkCapacity : config.downlinkCapacity = c.downCap
  readBuffer : config.readBuffer = c.readBufferSize.map bufferSize
  writeBuffer : config.writeBuffer = c.writeBufferSize.map bufferSize
  mtu_mem : ∀ mtu ∈ c.mtu, 576 ≤ mtu.toNat ∧ mtu.toNat ≤ 1460
  tti_mem : ∀ tti ∈ c.tti, 10 ≤ tti.toNat ∧ tti.toNat ≤ 100

/-- A number that a check lets through lies between the bounds of the check. -/
theorem mem_of_not_any {value : Option UInt32} {low high : UInt32}
    (h : ¬ (value.any fun v => v < low || v > high) = true) :
    ∀ v ∈ value, low.toNat ≤ v.toNat ∧ v.toNat ≤ high.toNat := by
  rintro v hv
  obtain rfl : value = some v := hv
  simp only [Option.any_some, Bool.or_eq_true, decide_eq_true_eq, not_or, UInt32.not_lt] at h
  exact ⟨UInt32.le_iff_toNat_le.1 h.1, UInt32.le_iff_toNat_le.1 h.2⟩

theorem built_of_build {c : KCPConfig} {config : StreamConfig} (h : c.build = .ok config) :
    c.Built config := by
  unfold build at h
  split at h
  · cases h
  rename_i hmtu
  split at h
  · cases h
  rename_i htti
  have hmtu := mem_of_not_any hmtu
  have htti := mem_of_not_any htti
  dsimp only at h
  split at h
  · cases h
    exact ⟨rfl, rfl, rfl, rfl, rfl, rfl, hmtu, htti⟩
  · split at h
    · cases h
    · cases h
      exact ⟨rfl, rfl, rfl, rfl, rfl, rfl, hmtu, htti⟩

/-- The MTU of accepted settings is in its range, the default one as well. -/
theorem mtu_of_build {c : KCPConfig} {config : StreamConfig} (h : c.build = .ok config) :
    576 ≤ config.getMTUValue.toNat ∧ config.getMTUValue.toNat ≤ 1460 := by
  have hbuilt := built_of_build h
  rw [Config.getMTUValue, hbuilt.mtu]
  cases hc : c.mtu with
  | none => decide
  | some mtu => exact hbuilt.mtu_mem mtu hc

/-- So is the interval of transmissions. -/
theorem tti_of_build {c : KCPConfig} {config : StreamConfig} (h : c.build = .ok config) :
    10 ≤ config.getTTIValue.toNat ∧ config.getTTIValue.toNat ≤ 100 := by
  have hbuilt := built_of_build h
  rw [Config.getTTIValue, hbuilt.tti]
  cases hc : c.tti with
  | none => decide
  | some tti => exact hbuilt.tti_mem tti hc

end KCPConfig

/-! ## Packets -/

/-- AES in Galois counter mode: the nonces have twelve bytes and the tags sixteen. -/
structure AESGCM extends AEAD where
  nonceSize_eq : nonceSize = 12
  overhead_eq : overhead = 16

namespace StreamConfig

variable (newAEADAESGCMBasedOnSeed : String → AESGCM) (c : StreamConfig) (roll : UInt16)

def getSecurity : AEAD :=
  match c.seed with
  | some seed => (newAEADAESGCMBasedOnSeed seed).toAEAD
  | none => simpleAuthenticator

def getPackerHeader : Option PacketHeader := c.headerConfig.map (·.createPacketHeader roll)

/-- The writer of the datagrams of a connection. -/
def packetWriter : KCPPacketWriter where
  header := c.getPackerHeader roll
  security := some (c.getSecurity newAEADAESGCMBasedOnSeed)

theorem headerSize_packetWriter_le : (c.packetWriter newAEADAESGCMBasedOnSeed roll).headerSize ≤ 13 := by
  rw [KCPPacketWriter.headerSize, packetWriter, getPackerHeader]
  cases c.headerConfig with
  | none => exact Nat.zero_le _
  | some header => exact header.size_le

/-- With a seed, a datagram has a nonce of twelve bytes and a tag of sixteen; without one, six
    bytes. -/
theorem packetWriter_sizes :
    (c.seed = none → (c.packetWriter newAEADAESGCMBasedOnSeed roll).nonceSize = 0 ∧
      (c.packetWriter newAEADAESGCMBasedOnSeed roll).overhead =
        (c.packetWriter newAEADAESGCMBasedOnSeed roll).headerSize + 6) ∧
    (c.seed ≠ none → (c.packetWriter newAEADAESGCMBasedOnSeed roll).nonceSize = 12 ∧
      (c.packetWriter newAEADAESGCMBasedOnSeed roll).overhead =
        (c.packetWriter newAEADAESGCMBasedOnSeed roll).headerSize + 16) := by
  simp only [KCPPacketWriter.nonceSize, KCPPacketWriter.overhead, KCPPacketWriter.headerSize, packetWriter,
    Option.elim_some, getSecurity]
  cases c.seed with
  | none => exact ⟨fun _ => ⟨rfl, rfl⟩, fun h => absurd rfl h⟩
  | some seed =>
    refine ⟨fun h => absurd h (Option.some_ne_none seed), fun _ =>
      ⟨(newAEADAESGCMBasedOnSeed seed).nonceSize_eq, ?_⟩⟩
    rw [← (newAEADAESGCMBasedOnSeed seed).overhead_eq]

end StreamConfig

end Gzv2ray.Kcp
