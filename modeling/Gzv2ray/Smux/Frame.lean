import Gzv2ray.Buf.Reader
import Gzv2ray.Lib.LittleEndian

/-!
# smux frames

The frames that the streams of a session share a connection with, and the settings of a session.

* `Frame.encode`: a frame as it is sent;
* `readFrame`: what the receiving loop takes of the bytes that have arrived. Only the frames of
  data and of window updates have it look behind the header;
* `readFrame_encode`: a frame is taken as it was sent, and what follows it is left;
* `Config.verifyConfig`: the settings that are accepted, and what is known of them
  (`Config.Verified`).
-/

namespace Gzv2ray.Smux

/-! ## Settings -/

/-- The settings of a session. The times of the keep-alive are in nanoseconds. -/
structure Config where
  version : ℤ := 1
  keepAliveDisabled : Bool := false
  keepAliveInterval : ℤ := 10 * 10 ^ 9
  keepAliveTimeout : ℤ := 30 * 10 ^ 9
  maxFrameSize : ℤ := 32768
  maxReceiveBuffer : ℤ := 4194304
  maxStreamBuffer : ℤ := 65536

/-- The settings of a session that was given none. -/
def defaultConfig : Config := {}

namespace Config

variable (c : Config)

/-- What is wrong with the settings, if anything. -/
def verifyConfig : Option String :=
  if ¬ (c.version = 1 ∨ c.version = 2) then some "unsupported protocol version"
  else if ¬ c.keepAliveDisabled ∧ c.keepAliveInterval = 0 then
    some "keep-alive interval must be positive"
  else if ¬ c.keepAliveDisabled ∧ c.keepAliveTimeout < c.keepAliveInterval then
    some "keep-alive timeout must be larger than keep-alive interval"
  else if c.maxFrameSize ≤ 0 then some "max frame size must be positive"
  else if c.maxFrameSize > 65535 then some "max frame size must not be larger than 65535"
  else if c.maxReceiveBuffer ≤ 0 then some "max receive buffer must be positive"
  else if c.maxStreamBuffer ≤ 0 then some "max stream buffer must be positive"
  else if c.maxStreamBuffer > c.maxReceiveBuffer then
    some "max stream buffer must not be larger than max receive buffer"
  else if c.maxStreamBuffer > 2147483647 then
    some "max stream buffer cannot be larger than 2147483647"
  else none

/-- What is known of settings that are accepted. -/
structure Verified : Prop where
  version : c.version = 1 ∨ c.version = 2
  maxFrameSize : 0 < c.maxFrameSize ∧ c.maxFrameSize ≤ 65535
  maxStreamBuffer : 0 < c.maxStreamBuffer ∧ c.maxStreamBuffer < 2 ^ 31
  maxReceiveBuffer : c.maxStreamBuffer ≤ c.maxReceiveBuffer

variable {c}

theorem verified_of_verifyConfig (h : c.verifyConfig = none) : c.Verified := by
  rw [verifyConfig] at h
  split_ifs at h with hversion _ _ hframe hframe' hreceive hstream hstream' hstream''
  refine ⟨hversion, ⟨?_, ?_⟩, ⟨?_, ?_⟩, ?_⟩ <;> omega

end Config

theorem defaultConfig_verified : defaultConfig.Verified := Config.verified_of_verifyConfig rfl

/-! ## Frames -/

/-- The commands of both versions of the protocol; the last one is of the second. -/
inductive Cmd
  /-- A stream is opened. -/
  | syn
  /-- A stream is closed. -/
  | fin
  /-- Data is pushed. -/
  | psh
  | nop
  /-- The peer is told what was consumed of a stream, and the window. -/
  | upd
  deriving DecidableEq

def Cmd.toByte : Cmd → UInt8
  | syn => 0
  | fin => 1
  | psh => 2
  | nop => 3
  | upd => 4

def Cmd.ofByte (b : UInt8) : Option Cmd :=
  if b = 0 then some .syn
  else if b = 1 then some .fin
  else if b = 2 then some .psh
  else if b = 3 then some .nop
  else if b = 4 then some .upd
  else none

@[simp] theorem Cmd.ofByte_toByte (cmd : Cmd) : ofByte cmd.toByte = some cmd := by cases cmd <;> rfl

structure Frame where
  ver : UInt8
  cmd : Cmd
  sid : UInt32
  data : Bytes := []
  deriving DecidableEq

def headerSize : ℕ := 8

/-- The size of the data of a window update. -/
def szCmdUPD : ℕ := 8

namespace Frame

variable (f : Frame)

def encode : Bytes :=
  [f.ver, f.cmd.toByte] ++ littleEndian 2 f.data.length ++ littleEndian 4 f.sid.toNat ++ f.data

/-- The number of bytes consumed that a window update tells. -/
def consumed : UInt32 := UInt32.ofNat (ofLittleEndian (f.data.take 4))

/-- The window that it tells. -/
def window : UInt32 := UInt32.ofNat (ofLittleEndian ((f.data.drop 4).take 4))

/-- A frame has the data that its command has it have. -/
def WellFormed : Prop :=
  match f.cmd with
  | .psh => 0 < f.data.length ∧ f.data.length ≤ 65535
  | .upd => f.data.length = szCmdUPD
  | _ => f.data = []

end Frame

/-- The update of a stream. -/
def updFrame (version : UInt8) (sid consumed window : UInt32) : Frame where
  ver := version
  cmd := .upd
  sid
  data := littleEndian 4 consumed.toNat ++ littleEndian 4 window.toNat

section

variable (version : UInt8) (sid consumed window : UInt32)

@[simp] theorem updFrame_sid : (updFrame version sid consumed window).sid = sid := rfl

@[simp] theorem updFrame_cmd : (updFrame version sid consumed window).cmd = .upd := rfl

theorem ofNat_ofLittleEndian (v : UInt32) : UInt32.ofNat (ofLittleEndian (littleEndian 4 v.toNat)) = v := by
  rw [ofLittleEndian_littleEndian, Nat.mod_eq_of_lt v.toNat_lt, UInt32.ofNat_toNat]

@[simp] theorem updFrame_consumed : (updFrame version sid consumed window).consumed = consumed := by
  rw [Frame.consumed, updFrame, List.take_left' (length_littleEndian ..), ofNat_ofLittleEndian]

@[simp] theorem updFrame_window : (updFrame version sid consumed window).window = window := by
  rw [Frame.window, updFrame, List.drop_left' (length_littleEndian ..),
    List.take_of_length_le (length_littleEndian ..).le, ofNat_ofLittleEndian]

theorem updFrame_wellFormed : (updFrame version sid consumed window).WellFormed := by
  change (littleEndian 4 consumed.toNat ++ littleEndian 4 window.toNat).length = szCmdUPD
  rw [List.length_append, length_littleEndian, length_littleEndian]
  rfl

end

/-! ## Reading -/

/-- What the receiving loop finds. -/
inductive Received
  /-- A frame has not arrived as a whole. -/
  | blocked
  /-- It is of another version, or has no command there is. -/
  | invalid
  | frame (f : Frame) (rest : Bytes)

/-- The number of bytes that are read behind the header. -/
def Cmd.size (length : ℕ) : Cmd → ℕ
  | psh => length
  | upd => szCmdUPD
  | _ => 0

/-- Reads a header, and the data behind it. -/
def readFrame (version : UInt8) (wire : Bytes) : Received :=
  if wire.length < headerSize then .blocked
  else if wire.headD 0 ≠ version then .invalid
  else
    match Cmd.ofByte ((wire.drop 1).headD 0) with
    | none => .invalid
    | some cmd =>
      let sid := UInt32.ofNat (ofLittleEndian ((wire.drop 4).take 4))
      let size := cmd.size (ofLittleEndian ((wire.drop 2).take 2))
      if (wire.drop headerSize).length < size then .blocked
      else .frame { ver := version, cmd, sid, data := (wire.drop headerSize).take size }
        ((wire.drop headerSize).drop size)

/-- A frame is as long as its data says, or has none. -/
theorem Frame.WellFormed.size {f : Frame} (h : f.WellFormed) :
    f.data.length < 2 ^ 16 ∧ f.cmd.size f.data.length = f.data.length := by
  obtain ⟨ver, cmd, sid, data⟩ := f
  cases cmd
  case psh => exact ⟨lt_of_le_of_lt h.2 (by decide), rfl⟩
  case upd =>
    rw [show data.length = szCmdUPD from h]
    exact ⟨by decide, rfl⟩
  all_goals
    obtain rfl : data = [] := h
    exact ⟨Nat.two_pow_pos 16, rfl⟩

/-- A frame is read as it was sent, and what follows it is left. -/
theorem readFrame_encode {f : Frame} (h : f.WellFormed) (rest : Bytes) :
    readFrame f.ver (f.encode ++ rest) = .frame f rest := by
  obtain ⟨hlt, hsize⟩ := h.size
  -- the four fields of the header, and what is behind it
  have hlen : ofLittleEndian (((f.encode ++ rest).drop 2).take 2) = f.data.length := by
    change ofLittleEndian ((littleEndian 2 f.data.length ++ littleEndian 4 f.sid.toNat ++ f.data ++
      rest).take 2) = _
    rw [List.append_assoc, List.append_assoc, List.take_left' (length_littleEndian ..),
      ofLittleEndian_littleEndian, Nat.mod_eq_of_lt hlt]
  have hbehind : (f.encode ++ rest).drop 4 = littleEndian 4 f.sid.toNat ++ (f.data ++ rest) := by
    change (littleEndian 2 f.data.length ++ littleEndian 4 f.sid.toNat ++ f.data ++ rest).drop 2 = _
    rw [List.append_assoc, List.append_assoc, List.drop_left' (length_littleEndian ..)]
  have hsid : UInt32.ofNat (ofLittleEndian (((f.encode ++ rest).drop 4).take 4)) = f.sid := by
    rw [hbehind, List.take_left' (length_littleEndian ..), ofNat_ofLittleEndian]
  have hdata : (f.encode ++ rest).drop headerSize = f.data ++ rest := by
    change ((f.encode ++ rest).drop (4 + 4)) = _
    rw [← List.drop_drop, hbehind, List.drop_left' (length_littleEndian ..)]
  have hheader : headerSize ≤ (f.encode ++ rest).length := by
    rw [Frame.encode]
    simp only [List.length_append, length_littleEndian, List.length_cons, List.length_nil, headerSize]
    omega
  have hcmd : Cmd.ofByte (((f.encode ++ rest).drop 1).headD 0) = some f.cmd := Cmd.ofByte_toByte f.cmd
  rw [readFrame, if_neg (Nat.not_lt.2 hheader), if_neg (fun h => h rfl), hcmd]
  dsimp only
  rw [hsid, hlen, hsize, hdata, if_neg (by rw [List.length_append]; omega), List.take_left' rfl,
    List.drop_left' rfl]

end Gzv2ray.Smux
