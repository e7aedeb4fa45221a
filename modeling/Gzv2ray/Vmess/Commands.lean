import Gzv2ray.Net.Address
import Gzv2ray.Vmess.AeadHeader
import Gzv2ray.Vmess.Auth

/-!
# Commands of responses

A response may carry a command, which tells the client to switch to another account: its
identifier, its length, the checksum of its fields and the fields, one after another, the first
of which is a host behind its length.

* `marshalCommand`, `unmarshalCommand`: a command on the wire, and back;
* `unmarshalCommand_ne_panic_iff`: the last field is read without a check that it is there.
-/

namespace Gzv2ray.Vmess

namespace Encoding

def commandError (text : String) : Error := Gzv2ray.newError "proxy/vmess/encoding" text

def ErrUnknownCommand : Error := commandError "Unknown command."

def ErrCommandTooLarge : Error := commandError "Command too large."

/-- To switch to another account. -/
structure CommandSwitchAccount where
  host : Option Address := none
  port : UInt16
  id : Block
  level : UInt32 := 0
  alterIds : UInt16
  validMin : UInt8
  deriving DecidableEq

/-! ## Slices -/

/-- The element at an index. -/
def index (data : Bytes) (i : ℕ) : Outcome UInt8 :=
  match data[i]? with
  | some b => .ok b
  | none => .panic

/-- The elements between two indices. -/
def slice (data : Bytes) (start stop : ℕ) : Outcome Bytes :=
  if start ≤ stop ∧ stop ≤ data.length then .ok ((data.take stop).drop start) else .panic

/-- `binary.BigEndian.Uint16` -/
def uint16 (b : Bytes) : Outcome UInt16 :=
  if 2 ≤ b.length then .ok (UInt16.ofNat (ofBigEndian (b.take 2))) else .panic

/-- `uuid.ParseBytes`, which returns the zero identifier with its error. -/
def parseUUID (b : Bytes) : Block :=
  if h : b.length = 16 then ⟨b, h⟩ else toBlock []

/-- There are as many bytes. -/
def checkLength (data : Bytes) (n : ℕ) : Outcome Unit :=
  if data.length < n then .error (commandError "insufficient length.") else .ok ()

/-! ## The fields -/

/-- The host, if it has a length. -/
def readHost (parseIP : Bytes → Option IPv6) (data : Bytes) (lenHost : ℕ) :
    Outcome (Option Address) :=
  if 0 < lenHost then do
    let host ← slice data 1 (1 + lenHost)
    return some (parseAddress parseIP host)
  else return none

/-- `CommandSwitchAccountFactory.Unmarshal` -/
def unmarshalSwitchAccount (parseIP : Bytes → Option IPv6) (data : Bytes) :
    Outcome CommandSwitchAccount := do
  checkLength data 1
  let lenHost ← index data 0
  let lenHost := lenHost.toNat
  checkLength data (lenHost + 1)
  let host ← readHost parseIP data lenHost
  let portStart := 1 + lenHost
  checkLength data (portStart + 2)
  let port ← slice data portStart (portStart + 2)
  let port ← uint16 port
  let idStart := portStart + 2
  checkLength data (idStart + 16)
  let id ← slice data idStart (idStart + 16)
  let alterIDStart := idStart + 16
  checkLength data (alterIDStart + 2)
  let alterIds ← slice data alterIDStart (alterIDStart + 2)
  let alterIds ← uint16 alterIds
  let levelStart := alterIDStart + 2
  checkLength data (levelStart + 1)
  let level ← index data levelStart
  let timeStart := levelStart + 1
  -- The byte at this index need not be there.
  checkLength data timeStart
  let validMin ← index data timeStart
  return { host, port, id := parseUUID id, level := level.toUInt32, alterIds, validMin }

/-- `CommandSwitchAccountFactory.Marshal` into a buffer, which takes what fits. -/
def marshalSwitchAccount (addressString : Address → Bytes) (cmd : CommandSwitchAccount)
    (buffer : Buffer) : Buffer :=
  let hostStr := cmd.host.elim [] addressString
  let buffer := (buffer.write [UInt8.ofNat hostStr.length]).1
  let buffer := if 0 < hostStr.length then (buffer.write hostStr).1 else buffer
  let buffer := (buffer.write (bigEndian 2 cmd.port.toNat)).1
  let buffer := (buffer.write cmd.id.1).1
  let buffer := (buffer.write (bigEndian 2 cmd.alterIds.toNat)).1
  let buffer := (buffer.write [cmd.level.toUInt8]).1
  (buffer.write [cmd.validMin]).1

/-! ## Commands -/

/-- What is written of a command. -/
def marshalCommand (addressString : Address → Bytes) (command : Option CommandSwitchAccount) :
    Except Error Bytes :=
  match command with
  | none => .error ErrUnknownCommand
  | some cmd =>
    let buffer := marshalSwitchAccount addressString cmd .new
    let auth := authenticate buffer.bytes
    let length := buffer.len + 4
    if length > 255 then .error ErrCommandTooLarge
    else .ok ([1, UInt8.ofNat length] ++ bigEndian 4 auth.toNat ++ buffer.bytes)

def unmarshalCommand (parseIP : Bytes → Option IPv6) (cmdID : UInt8) (data : Bytes) :
    Outcome CommandSwitchAccount :=
  if data.length ≤ 4 then .error (commandError "insufficient length")
  else if (authenticate (data.drop 4)).toNat ≠ ofBigEndian (data.take 4) then
    .error (commandError "invalid auth")
  else if cmdID = 1 then unmarshalSwitchAccount parseIP (data.drop 4)
  else .error ErrUnknownCommand

/-! ## What is read -/

section

variable {α β : Type} {data : Bytes} {i n start stop : ℕ}

theorem checkLength_of_le (h : n ≤ data.length) : checkLength data n = .ok () := if_neg h.not_gt

/-- Behind a check, the bytes are there. -/
theorem checkLength_bind_ne_panic {f : Unit → Outcome β} (hf : n ≤ data.length → f () ≠ .panic) :
    (checkLength data n >>= f) ≠ .panic := by
  rw [checkLength]
  split_ifs with h
  · rintro ⟨⟩
  · exact hf (not_lt.1 h)

theorem index_of_lt (h : i < data.length) : index data i = .ok data[i] := by
  rw [index, List.getElem?_eq_getElem h]

theorem index_of_length_le (h : data.length ≤ i) : index data i = .panic := by
  rw [index, List.getElem?_eq_none h]

theorem slice_of_le (h : start ≤ stop) (hstop : stop ≤ data.length) :
    slice data start stop = .ok ((data.drop start).take (stop - start)) := by
  rw [slice, if_pos ⟨h, hstop⟩, List.drop_take]

theorem uint16_of_le (h : 2 ≤ data.length) :
    uint16 data = .ok (UInt16.ofNat (ofBigEndian (data.take 2))) := if_pos h

end

variable {parseIP : Bytes → Option IPv6} {lenHost : UInt8} {rest : Bytes}

theorem readHost_of_le {data : Bytes} {n : ℕ} (h : n + 1 ≤ data.length) :
    readHost parseIP data n =
      .ok (if 0 < n then some (parseAddress parseIP ((data.drop 1).take n)) else none) := by
  rw [readHost]
  split_ifs with hpos
  · rw [slice_of_le (Nat.le_add_right _ _) (by omega), Nat.add_sub_cancel_left]
    rfl
  · rfl

/-- With all fields but the last one, it depends on that one. -/
theorem unmarshalSwitchAccount_of_le {data : Bytes} {n : ℕ} (hfirst : index data 0 = .ok lenHost)
    (hn : n = lenHost.toNat) (h : n + 22 ≤ data.length) :
    unmarshalSwitchAccount parseIP data = (index data (n + 22) >>= fun validMin => .ok {
      host := if 0 < n then some (parseAddress parseIP ((data.drop 1).take n)) else none
      port := UInt16.ofNat (ofBigEndian ((data.drop (n + 1)).take 2))
      id := parseUUID ((data.drop (n + 3)).take 16)
      alterIds := UInt16.ofNat (ofBigEndian ((data.drop (n + 19)).take 2))
      level := (data.getD (n + 21) 0).toUInt32
      validMin }) := by
  have hslice (start size : ℕ) (hle : start + size ≤ data.length) :
      slice data start (start + size) = .ok ((data.drop start).take size) := by
    rw [slice_of_le (Nat.le_add_right _ _) hle, Nat.add_sub_cancel_left]
  have huint16 (start : ℕ) (hle : start + 2 ≤ data.length) :
      uint16 ((data.drop start).take 2) = .ok (UInt16.ofNat (ofBigEndian ((data.drop start).take 2))) := by
    rw [uint16_of_le (by rw [List.length_take, List.length_drop]; omega), List.take_take, min_self]
  rw [unmarshalSwitchAccount, checkLength_of_le (by omega), Outcome.bind_ok, hfirst, Outcome.bind_ok,
    ← hn]
  dsimp only
  rw [Nat.add_comm 1 n]
  simp (disch := omega) only [checkLength_of_le, Outcome.bind_ok, readHost_of_le, hslice, huint16,
    index_of_lt]
  rw [List.getD_eq_getElem?_getD, List.getElem?_eq_getElem (by omega), Option.getD_some]
  rfl

/-- All fields but the last one are there. -/
def LacksLast (data : Bytes) : Prop :=
  ∃ lenHost, data[0]? = some lenHost ∧ data.length = lenHost.toNat + 22

/-- Every field is checked for but the last one. -/
theorem unmarshalSwitchAccount_eq_panic_iff {data : Bytes} :
    unmarshalSwitchAccount parseIP data = .panic ↔ LacksLast data := by
  constructor
  · contrapose!
    intro hlacks
    refine checkLength_bind_ne_panic fun hfirst => ?_
    rw [index_of_lt hfirst, Outcome.bind_ok]
    have hlen : data.length ≠ data[0].toNat + 22 :=
      fun heq => hlacks ⟨_, List.getElem?_eq_getElem hfirst, heq⟩
    generalize data[0].toNat = n at hlen
    refine checkLength_bind_ne_panic fun hhost => ?_
    rw [readHost_of_le hhost, Outcome.bind_ok]
    refine checkLength_bind_ne_panic fun hport => ?_
    rw [slice_of_le (by omega) hport, Outcome.bind_ok,
      uint16_of_le (by rw [List.length_take, List.length_drop]; omega), Outcome.bind_ok]
    refine checkLength_bind_ne_panic fun hid => ?_
    rw [slice_of_le (by omega) hid, Outcome.bind_ok]
    refine checkLength_bind_ne_panic fun halter => ?_
    rw [slice_of_le (by omega) halter, Outcome.bind_ok,
      uint16_of_le (by rw [List.length_take, List.length_drop]; omega), Outcome.bind_ok]
    refine checkLength_bind_ne_panic fun hlevel => ?_
    rw [index_of_lt (by omega), Outcome.bind_ok]
    -- The check of the last index has a byte less than it needs.
    refine checkLength_bind_ne_panic fun htime => ?_
    rw [index_of_lt (by omega)]
    rintro ⟨⟩
  · rintro ⟨lenHost, hfirst, hlen⟩
    have hindex : index data 0 = .ok lenHost := by rw [index, hfirst]
    rw [unmarshalSwitchAccount_of_le hindex rfl hlen.ge, index_of_length_le hlen.le]
    rfl

/-- What is behind the checksum is read if it is right. -/
theorem unmarshalCommand_eq_panic_iff {cmdID : UInt8} {data : Bytes} :
    unmarshalCommand parseIP cmdID data = .panic ↔
      4 < data.length ∧ (authenticate (data.drop 4)).toNat = ofBigEndian (data.take 4) ∧
        cmdID = 1 ∧ LacksLast (data.drop 4) := by
  rw [unmarshalCommand]
  by_cases hlen : data.length ≤ 4
  · rw [if_pos hlen]
    exact iff_of_false (by rintro ⟨⟩) fun h => absurd h.1 hlen.not_gt
  rw [if_neg hlen, and_iff_right (not_le.1 hlen)]
  by_cases hauth : (authenticate (data.drop 4)).toNat = ofBigEndian (data.take 4)
  · rw [if_neg (not_not.2 hauth), and_iff_right hauth]
    by_cases hcmd : cmdID = 1
    · rw [if_pos hcmd, and_iff_right hcmd]
      exact unmarshalSwitchAccount_eq_panic_iff
    · rw [if_neg hcmd]
      exact iff_of_false (by rintro ⟨⟩) fun h => hcmd h.1
  · rw [if_pos hauth]
    exact iff_of_false (by rintro ⟨⟩) fun h => hauth h.1

/-- Decoding a command is safe except where it has all fields but the last one. -/
theorem commands_safe_iff (parseIP : Bytes → Option IPv6) (cmdID : UInt8) (data : Bytes) :
    (unmarshalCommand parseIP cmdID data ≠ .panic ↔
      ¬ (4 < data.length ∧ (authenticate (data.drop 4)).toNat = ofBigEndian (data.take 4) ∧
        cmdID = 1 ∧ LacksLast (data.drop 4))) ∧
    (unmarshalSwitchAccount parseIP data ≠ .panic ↔ ¬ LacksLast data) :=
  ⟨not_congr unmarshalCommand_eq_panic_iff, not_congr unmarshalSwitchAccount_eq_panic_iff⟩

/-- A command without a host that is cut before its last byte. -/
def exampleCommand : Bytes :=
  bigEndian 4 (authenticate (List.replicate 22 0)).toNat ++ List.replicate 22 0

theorem commands_not_safe :
    unmarshalCommand (fun _ => none) 1 exampleCommand = .panic ∧
      unmarshalSwitchAccount (fun _ => none) (List.replicate 22 0) = .panic := by
  have hlacks : LacksLast (List.replicate 22 0) := ⟨0, rfl, rfl⟩
  refine ⟨unmarshalCommand_eq_panic_iff.2 ⟨?_, ?_, rfl, ?_⟩,
    unmarshalSwitchAccount_eq_panic_iff.2 hlacks⟩
  · rw [exampleCommand, List.length_append, length_bigEndian, List.length_replicate]
    decide
  · rw [exampleCommand, List.drop_left' (length_bigEndian _ _),
      List.take_left' (length_bigEndian _ _),
      ofBigEndian_bigEndian (authenticate (List.replicate 22 0)).toNat_lt]
  · rw [exampleCommand, List.drop_left' (length_bigEndian _ _)]
    exact hlacks

/-! ## What is written -/

section

variable (addressString : Address → Bytes) (cmd : CommandSwitchAccount)

/-- The text of the host. -/
def hostStr : Bytes := cmd.host.elim [] addressString

/-- The fields, one after another. -/
def switchAccountFields : Bytes :=
  [UInt8.ofNat (hostStr addressString cmd).length] ++ hostStr addressString cmd ++
    bigEndian 2 cmd.port.toNat ++ cmd.id.1 ++ bigEndian 2 cmd.alterIds.toNat ++ [cmd.level.toUInt8] ++
    [cmd.validMin]

theorem length_switchAccountFields :
    (switchAccountFields addressString cmd).length = (hostStr addressString cmd).length + 23 := by
  simp only [switchAccountFields, List.length_append, List.length_singleton, length_bigEndian, cmd.id.2]
  omega

/-- The buffer holds what fits of some bytes. -/
def Holds (buffer : Buffer) (l : Bytes) : Prop :=
  buffer.start = 0 ∧ buffer.bytes = l.take bufSize

variable {buffer : Buffer} {l : Bytes}

theorem Holds.write (h : Holds buffer l) (data : Bytes) : Holds (buffer.write data).1 (l ++ data) :=
  Buffer.write_take h.1 h.2 data

theorem Holds.write_if (h : Holds buffer l) (data : Bytes) :
    Holds (if 0 < data.length then (buffer.write data).1 else buffer) (l ++ data) := by
  split_ifs with hpos
  · exact h.write data
  · rw [List.length_eq_zero_iff.1 (Nat.eq_zero_of_not_pos hpos), List.append_nil]
    exact h

theorem marshalSwitchAccount_holds :
    Holds (marshalSwitchAccount addressString cmd .new) (switchAccountFields addressString cmd) := by
  have hnew : Holds .new [] := ⟨rfl, rfl⟩
  have hlength := hnew.write [UInt8.ofNat (hostStr addressString cmd).length]
  have hhost := hlength.write_if (hostStr addressString cmd)
  have hport := hhost.write (bigEndian 2 cmd.port.toNat)
  have hid := hport.write cmd.id.1
  have halter := hid.write (bigEndian 2 cmd.alterIds.toNat)
  have hlevel := halter.write [cmd.level.toUInt8]
  exact hlevel.write [cmd.validMin]

/-- A command is written if its length fits in a byte. -/
theorem marshalCommand_some :
    marshalCommand addressString (some cmd) =
      if (hostStr addressString cmd).length + 27 > 255 then .error ErrCommandTooLarge
      else .ok ([1, UInt8.ofNat ((hostStr addressString cmd).length + 27)] ++
        bigEndian 4 (authenticate (switchAccountFields addressString cmd)).toNat ++
        switchAccountFields addressString cmd) := by
  have hbytes := (marshalSwitchAccount_holds addressString cmd).2
  have hlen := length_switchAccountFields addressString cmd
  rw [marshalCommand, Buffer.len, hbytes, List.length_take, hlen]
  by_cases hlong : (hostStr addressString cmd).length + 27 > 255
  · rw [if_pos hlong, if_pos (by rw [bufSize]; omega)]
  · rw [if_neg hlong, List.take_of_length_le (by rw [bufSize]; omega),
      Nat.min_eq_right (by rw [bufSize]; omega), if_neg (by omega)]

/-- What comes behind a part of the bytes. -/
theorem drop_behind {data part rest : Bytes} {i j : ℕ} (h : data.drop i = part ++ rest)
    (hj : i + part.length = j) : data.drop j = rest := by
  rw [← hj, ← List.drop_drop, h, List.drop_left]

theorem take_part {data part rest : Bytes} {i n : ℕ} (h : data.drop i = part ++ rest)
    (hpart : part.length = n) : (data.drop i).take n = part := by
  rw [h, List.take_left' hpart]

theorem getElem?_part {data rest : Bytes} {b : UInt8} {i : ℕ} (h : data.drop i = [b] ++ rest) :
    data[i]? = some b := by
  rw [← Nat.add_zero i, ← List.getElem?_drop, h]
  rfl

theorem uint16_bigEndian (n : UInt16) : UInt16.ofNat (ofBigEndian (bigEndian 2 n.toNat)) = n := by
  rw [ofBigEndian_bigEndian n.toNat_lt, UInt16.ofNat_toNat]

theorem hostStr_parsed {parseIP : Bytes → Option IPv6} (hhost : ∀ a, cmd.host = some a →
    addressString a ≠ [] ∧ parseAddress parseIP (addressString a) = a) :
    (if 0 < (hostStr addressString cmd).length then
      some (parseAddress parseIP (hostStr addressString cmd)) else none) = cmd.host := by
  rw [hostStr]
  rcases hcmd : cmd.host with - | a
  · rfl
  · obtain ⟨hne, hparse⟩ := hhost a hcmd
    rw [Option.elim_some, if_pos (List.length_pos_iff.2 hne), hparse]

/-- A command is read from its fields. -/
theorem unmarshalSwitchAccount_fields {parseIP : Bytes → Option IPv6}
    (hlong : (hostStr addressString cmd).length < 256) (hlevel : cmd.level.toNat ≤ 255)
    (hhost : ∀ a, cmd.host = some a → addressString a ≠ [] ∧ parseAddress parseIP (addressString a) = a) :
    unmarshalSwitchAccount parseIP (switchAccountFields addressString cmd) = .ok cmd := by
  have hlength := length_switchAccountFields addressString cmd
  have hparsed := hostStr_parsed addressString cmd hhost
  have hdata : switchAccountFields addressString cmd = [UInt8.ofNat (hostStr addressString cmd).length] ++
      (hostStr addressString cmd ++ (bigEndian 2 cmd.port.toNat ++ (cmd.id.1 ++
        (bigEndian 2 cmd.alterIds.toNat ++ ([cmd.level.toUInt8] ++ ([cmd.validMin] ++ [])))))) := by
    simp only [switchAccountFields, List.append_assoc, List.append_nil]
  generalize switchAccountFields addressString cmd = data at hdata hlength ⊢
  generalize hostStr addressString cmd = host at hdata hlength hlong hparsed
  have hdrop₀ : data.drop 0 = _ := hdata
  have hfirst : index data 0 = .ok (UInt8.ofNat host.length) := by rw [index, getElem?_part hdrop₀]
  have hn : host.length = (UInt8.ofNat host.length).toNat := (UInt8.toNat_ofNat_of_lt' hlong).symm
  -- The parts, one behind another.
  have hdrop₁ : data.drop 1 = _ := drop_behind hdrop₀ rfl
  have hdrop₂ : data.drop (host.length + 1) = _ := drop_behind hdrop₁ (Nat.add_comm _ _)
  have hdrop₃ : data.drop (host.length + 3) = _ := drop_behind hdrop₂ (by rw [length_bigEndian])
  have hdrop₄ : data.drop (host.length + 19) = _ := drop_behind hdrop₃ (by rw [cmd.id.2])
  have hdrop₅ : data.drop (host.length + 21) = _ := drop_behind hdrop₄ (by rw [length_bigEndian])
  have hdrop₆ : data.drop (host.length + 22) = _ := drop_behind hdrop₅ rfl
  have hlevel' : (data.getD (host.length + 21) 0).toUInt32 = cmd.level := by
    rw [List.getD_eq_getElem?_getD, getElem?_part hdrop₅, Option.getD_some]
    refine UInt32.toNat_inj.1 ?_
    rw [UInt8.toNat_toUInt32, UInt32.toNat_toUInt8]
    omega
  have huuid : parseUUID cmd.id.1 = cmd.id := dif_pos cmd.id.2
  rw [unmarshalSwitchAccount_of_le hfirst hn (by omega), index, getElem?_part hdrop₆,
    take_part hdrop₁ rfl, take_part hdrop₂ (length_bigEndian _ _), take_part hdrop₃ cmd.id.2,
    take_part hdrop₄ (length_bigEndian _ _), hparsed, uint16_bigEndian, uint16_bigEndian, huuid, hlevel']
  rfl

/-- A command that is written is read. -/
theorem unmarshalCommand_fields {parseIP : Bytes → Option IPv6}
    (hlong : (hostStr addressString cmd).length < 256) (hlevel : cmd.level.toNat ≤ 255)
    (hhost : ∀ a, cmd.host = some a → addressString a ≠ [] ∧ parseAddress parseIP (addressString a) = a) :
    unmarshalCommand parseIP 1 (bigEndian 4 (authenticate (switchAccountFields addressString cmd)).toNat ++
      switchAccountFields addressString cmd) = .ok cmd := by
  have hlength := length_switchAccountFields addressString cmd
  rw [unmarshalCommand, if_neg (by rw [List.length_append, length_bigEndian]; omega),
    List.drop_left' (length_bigEndian _ _), List.take_left' (length_bigEndian _ _),
    ofBigEndian_bigEndian (UInt32.toNat_lt _), if_neg (not_not.2 rfl), if_pos rfl]
  exact unmarshalSwitchAccount_fields addressString cmd hlong hlevel hhost

end

end Encoding

end Gzv2ray.Vmess
