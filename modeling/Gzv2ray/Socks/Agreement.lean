import Gzv2ray.Socks.Protocol

/-!
# Agreement of a handshake

If both parties of a handshake end well, each having read what the other wrote,
the server has the request of the client (`handshake_agrees`): the command, the
address and the port, and credentials exactly if it asks for them. Of what one
wrote, the other has left nothing to be read.
-/

namespace Gzv2ray

namespace Socks

theorem addrParser_registers : AddressParser.Registers
    [.addressFamilyByte 0x01 AddressOption.one_lt .ipv4,
      .addressFamilyByte 0x04 AddressOption.four_lt .ipv6,
      .addressFamilyByte 0x03 AddressOption.three_lt .domain] :=
  AddressParser.registers_socks (by simp) (by simp)

theorem addrParser_isConsistent : addrParser.IsConsistent := addrParser_registers.isConsistent

/-! ## Reading -/

section

variable {t t' : Side} {w p : Bytes} {n : ℕ}

theorem readFull_eq_ok (h : readFull n t = (w, .ok p, t')) :
    w = [] ∧ p.length = n ∧ t.reader.bytes = p ++ t'.reader.bytes := by
  obtain ⟨rfl, hread⟩ := Conn.read_eq_ok h
  obtain ⟨a, hlen, rfl, hbytes⟩ := readFullFrom_eq_ok hread
  exact ⟨rfl, hlen, hbytes⟩

/-- Of known bytes, those are read. -/
theorem readFull_known (h : readFull n t = (w, .ok p, t')) {a rest : Bytes} (ha : a.length = n)
    (ht : t.reader.bytes = a ++ rest) : w = [] ∧ p = a ∧ t'.reader.bytes = rest := by
  obtain ⟨rfl, hlen, hbytes⟩ := readFull_eq_ok h
  obtain ⟨rfl, hrest⟩ := List.append_inj (hbytes.symm.trans ht) (hlen.trans ha.symm)
  exact ⟨rfl, rfl, hrest⟩

end

/-! ## Messages -/

/-- An address that is read, with its port, fits in a buffer. -/
theorem length_writeAddressPort_le {parseIP : Bytes → Option IPv6} {address : Address}
    (haddress : address.IsReadable parseIP) {port : UInt16} {b : Bytes}
    (hb : addrParser.writeAddressPort address port = .ok b) : b.length ≤ bufSize := by
  obtain ⟨tb, htb⟩ := addrParser_registers.exists_byte address.family
  obtain ⟨a, ha, -, hlen⟩ := AddressParser.writeAddress_ok haddress htb
  have hport : (AddressParser.writePort port).length = 2 := length_bigEndian _ _
  rw [AddressParser.writeAddressPort, show addrParser.writeAddress address = .ok a from ha] at hb
  obtain rfl : a ++ AddressParser.writePort port = b := Except.ok.inj hb
  rw [List.length_append, hport, bufSize]
  omega

/-- The credentials, on the wire. -/
def credentialBytes : Option Account → Bytes
  | none => []
  | some a => [0x01, UInt8.ofNat a.username.length] ++ a.username ++
      [UInt8.ofNat a.password.length] ++ a.password

/-- The answer to the credentials. -/
def accountBytes (user : Option Account) : Bytes := if user.isSome then [0x01, 0x00] else []

/-- The lengths of the name and the password fit on a byte. -/
def IsShort (user : Option Account) : Prop :=
  ∀ a, user = some a → a.username.length ≤ 255 ∧ a.password.length ≤ 255

variable {user : Option Account}

theorem mustWriteByte_eq_ok {b : Buffer} {l : Bytes} (hb : b.start = 0) (hl : b.bytes = l)
    (hlen : l.length < bufSize) (v : UInt8) :
    ∃ b', mustWriteByte b v = .ok b' ∧ b'.start = 0 ∧ b'.bytes = l ++ [v] := by
  have hfull : b.isFull = false := by
    rw [Buffer.isFull, Buffer.stop, hb, hl, Nat.zero_add, beq_eq_false_iff_ne]
    exact hlen.ne
  obtain ⟨hstart, hbytes⟩ := Buffer.write_take hb
    (l := l) (hl.trans (List.take_of_length_le hlen.le).symm) [v]
  refine ⟨(b.write [v]).1, by rw [mustWriteByte, hfull]; rfl, hstart, ?_⟩
  rw [hbytes, List.take_of_length_le]
  rw [List.length_append, List.length_singleton]
  exact hlen

theorem write_eq {b : Buffer} {l : Bytes} (hb : b.start = 0) (hl : b.bytes = l) (data : Bytes)
    (hlen : (l ++ data).length ≤ bufSize) :
    (b.write data).1.start = 0 ∧ (b.write data).1.bytes = l ++ data := by
  have hle : l.length ≤ bufSize := by rw [List.length_append] at hlen; omega
  obtain ⟨hstart, hbytes⟩ := Buffer.write_take hb
    (l := l) (hl.trans (List.take_of_length_le hle).symm) data
  exact ⟨hstart, by rw [hbytes, List.take_of_length_le hlen]⟩

theorem greeting_eq_ok (h : IsShort user) : ∃ b, greeting user = .ok b ∧
    b.bytes = [socks5Version, 0x01, authByte user] ++ credentialBytes user := by
  cases user with
  | none => exact ⟨_, rfl, rfl⟩
  | some a =>
    obtain ⟨hu, hp⟩ := h a rfl
    obtain ⟨h₀, h₀'⟩ := write_eq (b := .new) (l := []) rfl rfl
      [socks5Version, 0x01, authPassword] (by simp [bufSize])
    obtain ⟨b₁, hb₁, h₁, h₁'⟩ := mustWriteByte_eq_ok h₀ h₀' (by simp [bufSize]) 0x01
    obtain ⟨b₂, hb₂, h₂, h₂'⟩ := mustWriteByte_eq_ok h₁ h₁' (by simp [bufSize])
      (UInt8.ofNat a.username.length)
    obtain ⟨h₃, h₃'⟩ := write_eq h₂ h₂' a.username (by simp [bufSize]; omega)
    obtain ⟨b₄, hb₄, h₄, h₄'⟩ := mustWriteByte_eq_ok h₃ h₃' (by simp [bufSize]; omega)
      (UInt8.ofNat a.password.length)
    obtain ⟨h₅, h₅'⟩ := write_eq h₄ h₄' a.password (by simp [bufSize]; omega)
    refine ⟨(b₄.write a.password).1, ?_, ?_⟩
    · simp only [greeting, credentials, hb₁, hb₂, hb₄]
    · rw [h₅']
      simp [authByte, credentialBytes]

/-! ## The client -/

variable {parseIP : Bytes → Option IPv6} {request : RequestHeader} {t t' : Side} {w : Bytes}

theorem checkAccount_eq_ok (h : checkAccount (authByte user) t = (w, .ok (), t')) :
    w = [] ∧ ∃ b, b.length = (accountBytes user).length ∧
      t.reader.bytes = b ++ t'.reader.bytes := by
  cases user with
  | none =>
    obtain ⟨rfl, -, rfl⟩ := Conn.pure_eq_ok.1 h
    exact ⟨rfl, [], rfl, rfl⟩
  | some a =>
    obtain ⟨w₁, b, t₁, w₂, hread, hcheck, rfl⟩ := Conn.bind_eq_ok.1 h
    obtain ⟨rfl, hlen, hbytes⟩ := readFull_eq_ok hread
    split at hcheck
    · cases hcheck
    · obtain ⟨rfl, -, rfl⟩ := Conn.pure_eq_ok.1 hcheck
      exact ⟨rfl, b, hlen, hbytes⟩

/-- A client that ends well has written the greeting and the request, and has read as many
    bytes as the answers to them have, and an address. -/
theorem clientHandshake_eq_ok (huser : IsShort user) {out : Option RequestHeader}
    (h : clientHandshake parseIP request user t = (w, .ok out, t')) :
    ∃ m b r a, requestMessage request = .ok m ∧
      w = [socks5Version, 0x01, authByte user] ++ credentialBytes user ++ m ∧
      b.length = 2 + (accountBytes user).length + 3 ∧ t.reader.bytes = b ++ r.bytes ∧
      addrParser.readAddressPort parseIP BufferedReader.readFull [] r = (.ok a, t'.reader) := by
  obtain ⟨g, hg, hgbytes⟩ := greeting_eq_ok huser
  obtain ⟨w₁, b₁, t₁, w₂, h₁, k₁, rfl⟩ := Conn.bind_eq_ok.1 h
  obtain ⟨rfl, hg', rfl⟩ := Conn.ofOutcome_eq_ok.1 h₁
  obtain rfl : g = b₁ := Outcome.ok.inj (hg.symm.trans hg')
  obtain ⟨w₃, _, t₂, w₄, h₂, k₂, rfl⟩ := Conn.bind_eq_ok.1 k₁
  obtain ⟨rfl, hreader₂⟩ := Conn.write_eq_ok h₂
  obtain ⟨w₅, b₂, t₃, w₆, h₃, k₃, rfl⟩ := Conn.bind_eq_ok.1 k₂
  obtain ⟨rfl, hlen₂, hbytes₂⟩ := readFull_eq_ok h₃
  split at k₃
  · cases k₃
  split at k₃
  · cases k₃
  obtain ⟨w₇, _, t₄, w₈, h₄, k₄, rfl⟩ := Conn.bind_eq_ok.1 k₃
  obtain ⟨rfl, b₃, hlen₃, hbytes₃⟩ := checkAccount_eq_ok h₄
  obtain ⟨w₉, m, t₅, w₁₀, h₅, k₅, rfl⟩ := Conn.bind_eq_ok.1 k₄
  obtain ⟨rfl, hm, rfl⟩ := Conn.ofOutcome_eq_ok.1 h₅
  obtain ⟨w₁₁, _, t₆, w₁₂, h₆, k₆, rfl⟩ := Conn.bind_eq_ok.1 k₅
  obtain ⟨rfl, hreader₆⟩ := Conn.write_eq_ok h₆
  obtain ⟨w₁₃, b₄, t₇, w₁₄, h₇, k₇, rfl⟩ := Conn.bind_eq_ok.1 k₆
  obtain ⟨rfl, hlen₄, hbytes₄⟩ := readFull_eq_ok h₇
  split at k₇
  · cases k₇
  obtain ⟨w₁₅, a, t₈, w₁₆, h₈, k₈, rfl⟩ := Conn.bind_eq_ok.1 k₇
  obtain ⟨rfl, hread⟩ := Conn.read_eq_ok h₈
  have hend : w₁₆ = [] ∧ t₈ = t' := by
    dsimp only at k₈
    split at k₈ <;>
    · obtain ⟨rfl, -, rfl⟩ := Conn.pure_eq_ok.1 k₈
      exact ⟨rfl, rfl⟩
  obtain ⟨rfl, rfl⟩ := hend
  refine ⟨w₁₁, b₂ ++ b₃ ++ b₄, t₇.reader, a, hm, ?_, ?_, ?_, hread⟩
  · rw [hgbytes]
    simp
  · rw [List.length_append, List.length_append, hlen₂, hlen₃, hlen₄]
  · rw [← hreader₂, hbytes₂, hbytes₃, ← hreader₆, hbytes₄]
    simp only [List.append_assoc]

/-! ## The server -/

variable {rest : Bytes}

/-- The credentials sent are those that are read. -/
theorem readUsernamePassword_known {account : Account} (huser : IsShort (some account))
    {out : Bytes × Bytes} (h : readUsernamePassword t = (w, .ok out, t'))
    (ht : t.reader.bytes = credentialBytes (some account) ++ rest) :
    w = [] ∧ out = (account.username, account.password) ∧ t'.reader.bytes = rest := by
  obtain ⟨hu, hp⟩ := huser account rfl
  have hulen : (UInt8.ofNat account.username.length).toNat = account.username.length :=
    UInt8.toNat_ofNat_of_lt' (Nat.lt_succ_of_le hu)
  have hplen : (UInt8.ofNat account.password.length).toNat = account.password.length :=
    UInt8.toNat_ofNat_of_lt' (Nat.lt_succ_of_le hp)
  simp only [credentialBytes, List.append_assoc] at ht
  obtain ⟨w₁, b₁, t₁, w₂, h₁, k₁, rfl⟩ := Conn.bind_eq_ok.1 h
  obtain ⟨rfl, rfl, ht₁⟩ := readFull_known h₁ rfl ht
  obtain ⟨w₃, b₂, t₂, w₄, h₂, k₂, rfl⟩ := Conn.bind_eq_ok.1 k₁
  obtain ⟨rfl, rfl, ht₂⟩ := readFull_known h₂ hulen.symm ht₁
  obtain ⟨w₅, b₃, t₃, w₆, h₃, k₃, rfl⟩ := Conn.bind_eq_ok.1 k₂
  obtain ⟨rfl, rfl, ht₃⟩ := readFull_known h₃ rfl ht₂
  obtain ⟨w₇, b₄, t₄, w₈, h₄, k₄, rfl⟩ := Conn.bind_eq_ok.1 k₃
  obtain ⟨rfl, rfl, ht₄⟩ := readFull_known h₄ hplen.symm ht₃
  obtain ⟨rfl, rfl, rfl⟩ := Conn.pure_eq_ok.1 k₄
  exact ⟨rfl, rfl, ht₄⟩

/-- The credentials are asked for exactly if they are sent, and are accepted then. -/
structure Authenticates (config : ServerConfig) (user : Option Account) (username : Bytes) : Prop where
  method : user.isSome ↔ config.authType = .password
  accepted (a) : user = some a → config.hasAccount a.username a.password
  username : username = (user.map Account.username).getD []

theorem auth5_known {s : ServerSession} (huser : IsShort user) {username : Bytes}
    (h : s.auth5 1 t = (w, .ok username, t'))
    (ht : t.reader.bytes = [authByte user] ++ (credentialBytes user ++ rest)) :
    Authenticates s.config user username ∧
      w = [socks5Version, authByte user] ++ accountBytes user ∧ t'.reader.bytes = rest := by
  obtain ⟨w₁, b₁, t₁, w₂, h₁, k₁, rfl⟩ := Conn.bind_eq_ok.1 h
  obtain ⟨rfl, rfl, ht₁⟩ := readFull_known (Conn.mapError_eq_ok.1 h₁) rfl ht
  split at k₁
  · obtain ⟨_, _, _, _, -, k₂, -⟩ := Conn.bind_eq_ok.1 k₁
    cases k₂
  rename_i hmethod
  obtain hmethod : s.expectedAuth = authByte user := by simpa using hmethod
  obtain ⟨w₃, _, t₂, w₄, h₂, k₂, rfl⟩ := Conn.bind_eq_ok.1 k₁
  obtain ⟨rfl, hreader₂⟩ := Conn.write_eq_ok (Conn.mapError_eq_ok.1 h₂)
  rw [← hreader₂] at ht₁
  rw [hmethod] at k₂ ⊢
  have hauth : s.expectedAuth = authPassword ↔ s.config.authType = .password := by
    rw [ServerSession.expectedAuth]
    split
    · rename_i hpassword
      exact ⟨fun _ => hpassword, fun _ => rfl⟩
    · rename_i hpassword
      exact ⟨fun h => absurd h (by decide), fun h => absurd h hpassword⟩
  -- A server that asks for a password answers a client that has none with no method at all.
  cases user with
  | none =>
    have hnot : ¬ authByte none = authPassword := by decide
    rw [if_neg hnot] at k₂
    obtain ⟨rfl, rfl, rfl⟩ := Conn.pure_eq_ok.1 k₂
    refine ⟨⟨⟨fun h => (by cases h), fun h => ?_⟩, fun a h => (by cases h), rfl⟩, rfl, ht₁⟩
    exact absurd (hmethod.symm.trans (hauth.2 h)) hnot
  | some account =>
    rw [if_pos (show authByte (some account) = authPassword from rfl)] at k₂
    obtain ⟨w₅, up, t₃, w₆, h₃, k₃, rfl⟩ := Conn.bind_eq_ok.1 k₂
    obtain ⟨rfl, rfl, ht₃⟩ := readUsernamePassword_known huser (Conn.mapError_eq_ok.1 h₃) ht₁
    dsimp only at k₃
    split at k₃
    · obtain ⟨_, _, _, _, -, k₄, -⟩ := Conn.bind_eq_ok.1 k₃
      cases k₄
    rename_i haccount
    obtain ⟨w₇, _, t₄, w₈, h₄, k₄, rfl⟩ := Conn.bind_eq_ok.1 k₃
    obtain ⟨rfl, hreader₄⟩ := Conn.write_eq_ok (Conn.mapError_eq_ok.1 h₄)
    obtain ⟨rfl, rfl, rfl⟩ := Conn.pure_eq_ok.1 k₄
    refine ⟨⟨⟨fun _ => hauth.1 hmethod, fun _ => rfl⟩, ?_, rfl⟩, rfl, hreader₄ ▸ ht₃⟩
    rintro a ⟨⟩
    simpa using haccount

/-- The byte of a command is read as the command, if it is supported. -/
theorem command5_eq_ok {s : ServerSession} {command command' : RequestCommand}
    (hcommand : command = requestCommandTCP ∨ command = requestCommandUDP)
    (h : s.command5 (if command = requestCommandUDP then cmdUDPAssociate else cmdTCPConnect) =
      .ok command') : command' = command := by
  rcases hcommand with rfl | rfl
  · rw [if_neg (by decide), ServerSession.command5, if_pos (.inl rfl)] at h
    exact (Except.ok.inj h).symm
  · rw [if_pos rfl, ServerSession.command5, if_neg (by decide), if_pos rfl] at h
    split at h
    · exact (Except.ok.inj h).symm
    · cases h

theorem writeAddressPort_eq_ok {address : Option Address} {port : UInt16} {b : Bytes}
    (h : writeAddressPort address port = .ok b) :
    ∃ a, address = some a ∧ addrParser.writeAddressPort a port = .ok b := by
  cases address with
  | none => cases h
  | some a =>
    refine ⟨a, rfl, ?_⟩
    rw [writeAddressPort] at h
    cases hb : addrParser.writeAddressPort a port with
    | error e => rw [hb] at h; cases h
    | ok b' =>
      rw [hb] at h
      rw [Outcome.ok.inj h]

theorem requestMessage_eq_ok {m : Bytes} (h : requestMessage request = .ok m) :
    ∃ a b, request.address = some a ∧ addrParser.writeAddressPort a request.port = .ok b ∧
      m = [socks5Version, if request.command = requestCommandUDP then cmdUDPAssociate
        else cmdTCPConnect, 0x00] ++ b := by
  rw [requestMessage] at h
  cases hb : writeAddressPort request.address request.port with
  | ok b =>
    rw [hb] at h
    obtain ⟨a, ha, hwrite⟩ := writeAddressPort_eq_ok hb
    exact ⟨a, b, ha, hwrite, (Outcome.ok.inj h).symm⟩
  | error e => rw [hb] at h; cases h
  | panic => rw [hb] at h; cases h

theorem socks5Response_eq_ok {errCode : UInt8} {address : Option Address} {port : UInt16} {m : Bytes}
    (h : socks5Response errCode address port = .ok m) :
    ∃ a b, addrParser.writeAddressPort a port = .ok b ∧ m = [socks5Version, errCode, 0x00] ++ b := by
  rw [socks5Response] at h
  cases hb : writeAddressPort address port with
  | ok b =>
    rw [hb] at h
    obtain ⟨a, -, hwrite⟩ := writeAddressPort_eq_ok hb
    exact ⟨a, b, hwrite, (Outcome.ok.inj h).symm⟩
  | error e => rw [hb] at h; cases h
  | panic => rw [hb] at h; cases h

/-- A server that ends well, having read the messages of a client, has its request, and has
    written the answers to the greeting and the request. -/
theorem handshake_known {s : ServerSession} {address : Address} {req : Request} {m : Bytes}
    (hcommand : request.command = requestCommandTCP ∨ request.command = requestCommandUDP)
    (haddress : request.address = some address) (hreadable : address.IsReadable parseIP)
    (huser : IsShort user) (hm : requestMessage request = .ok m)
    (h : s.handshake parseIP t = (w, .ok req, t'))
    (ht : t.reader.bytes = [socks5Version, 0x01, authByte user] ++ credentialBytes user ++ m ++ rest) :
    ∃ username a b, Authenticates s.config user username ∧
      req = ⟨{ version := socks5Version, command := request.command,
               address := some (address.canonical parseIP), port := request.port },
        if username = [] then none else some username⟩ ∧
      addrParser.writeAddressPort a s.port = .ok b ∧
      w = [socks5Version, authByte user] ++ accountBytes user ++
        ([socks5Version, statusSuccess, 0x00] ++ b) ∧ t'.reader.bytes = rest := by
  obtain ⟨_, b, haddress', hb, rfl⟩ := requestMessage_eq_ok hm
  obtain rfl := Option.some.inj (haddress.symm.trans haddress')
  have ht₀ : t.reader.bytes = [socks5Version, 0x01] ++ ([authByte user] ++ (credentialBytes user ++
      ([socks5Version, if request.command = requestCommandUDP then cmdUDPAssociate
        else cmdTCPConnect, 0x00] ++ (b ++ rest)))) := by
    rw [ht]
    simp
  -- The reads are peeled off one after the other, each of them finding what the client wrote.
  obtain ⟨w₁, b₁, t₁, w₂, h₁, k₁, rfl⟩ := Conn.bind_eq_ok.1 h
  obtain ⟨rfl, rfl, ht₁⟩ := readFull_known (Conn.mapError_eq_ok.1 h₁) rfl ht₀
  rw [List.getD_cons_zero, List.getD_cons_succ, List.getD_cons_zero,
    if_neg (show ¬ socks5Version = socks4Version by decide), if_pos rfl] at k₁
  obtain ⟨w₃, username, t₂, w₄, h₂, k₂, rfl⟩ := Conn.bind_eq_ok.1 k₁
  obtain ⟨hauth, rfl, ht₂⟩ := auth5_known huser h₂ ht₁
  obtain ⟨w₅, b₂, t₃, w₆, h₃, k₃, rfl⟩ := Conn.bind_eq_ok.1 k₂
  obtain ⟨rfl, rfl, ht₃⟩ := readFull_known (Conn.mapError_eq_ok.1 h₃) rfl ht₂
  cases hcmd : s.command5 (if request.command = requestCommandUDP then cmdUDPAssociate
      else cmdTCPConnect) with
  | error e =>
    rw [List.getD_cons_succ, List.getD_cons_zero, hcmd] at k₃
    obtain ⟨_, _, _, _, -, k₄, -⟩ := Conn.bind_eq_ok.1 k₃
    cases k₄
  | ok command =>
    rw [List.getD_cons_succ, List.getD_cons_zero, hcmd] at k₃
    obtain rfl := command5_eq_ok hcommand hcmd
    obtain ⟨w₇, a, t₄, w₈, h₄, k₄, rfl⟩ := Conn.bind_eq_ok.1 k₃
    obtain ⟨rfl, hread⟩ := Conn.read_eq_ok (Conn.mapError_eq_ok.1 h₄)
    have hroom : b.length ≤ bufSize := length_writeAddressPort_le hreadable hb
    obtain ⟨r, hread', hrest, -⟩ := AddressParser.readAddressPort_writeAddressPort
      addrParser_isConsistent (feeds_bufferedReader t₃.reader.reader.err) hreadable (b := []) hb
      ⟨ht₃, rfl⟩ (by rw [List.length_nil, Nat.zero_add]; exact hroom)
    obtain ⟨rfl, rfl⟩ : _ = a ∧ r = t₄.reader := by simpa using hread'.symm.trans hread
    obtain ⟨w₉, _, t₅, w₁₀, h₅, k₅, rfl⟩ := Conn.bind_eq_ok.1 k₄
    obtain ⟨rfl, rfl, rfl⟩ := Conn.pure_eq_ok.1 k₅
    obtain ⟨w₁₁, m', t₆, w₁₂, h₆, k₆, rfl⟩ := Conn.bind_eq_ok.1 h₅
    obtain ⟨rfl, hm', rfl⟩ := Conn.ofOutcome_eq_ok.1 h₆
    obtain ⟨rfl, hreader⟩ := Conn.write_eq_ok k₆
    obtain ⟨a', b', hb', rfl⟩ := socks5Response_eq_ok hm'
    exact ⟨username, a', b', hauth, rfl, hb', by simp, hreader ▸ hrest⟩

/-! ## Both -/

/-- If both parties end well, each reading what the other wrote, the server has the request
    and the credentials of the client, and none has read more or less than the other's
    part of the handshake. -/
theorem handshake_agrees {s : ServerSession} {address : Address} {user : Option Account}
    {out : Option RequestHeader} {req : Request} {tc tc' ts ts' : Side} {wc ws moreC moreS : Bytes}
    (hcommand : request.command = requestCommandTCP ∨ request.command = requestCommandUDP)
    (haddress : request.address = some address) (hplain : address.IsPlain parseIP)
    (hlen : ∀ name, address = .domain name → name.length ≤ 255) (huser : IsShort user)
    (hclient : clientHandshake parseIP request user tc = (wc, .ok out, tc'))
    (hserver : s.handshake parseIP ts = (ws, .ok req, ts'))
    (htc : tc.reader.bytes = ws ++ moreS) (hts : ts.reader.bytes = wc ++ moreC) :
    req.header = { version := socks5Version, command := request.command,
                   address := some address, port := request.port } ∧
      (∃ username, Authenticates s.config user username ∧
        req.user = if username = [] then none else some username) ∧
      tc'.reader.bytes = moreS ∧ ts'.reader.bytes = moreC := by
  obtain ⟨m, b, r, a, hm, rfl, hb, hbytes, hread⟩ := clientHandshake_eq_ok huser hclient
  obtain ⟨username, a', b', hauth, rfl, hwrite, rfl, hrest⟩ := handshake_known hcommand haddress
    (hplain.isReadable hlen) huser hm hserver hts
  refine ⟨by rw [hplain.canonical], ⟨username, hauth, rfl⟩, ?_, hrest⟩
  -- the answers have the lengths that the client expects, up to the address
  have hlength : ([socks5Version, authByte user] ++ accountBytes user ++
      [socks5Version, statusSuccess, 0x00]).length = b.length := by
    rw [hb, List.length_append, List.length_append]
    rfl
  rw [hbytes, ← List.append_assoc, List.append_assoc _ b'] at htc
  obtain ⟨-, hr⟩ := List.append_inj htc hlength.symm
  exact AddressParser.readAddressPort_rest addrParser_isConsistent rfl rfl hwrite hr hread

/-- A side that takes all that is written, and finds the given bytes to be read. -/
def exampleSide (b : Bytes) : Side := ⟨⟨MultiBuffer.mergeBytes [] b, ⟨[], .eof⟩⟩, fun _ => none⟩

def exampleAccount : Account := ⟨ascii "u", ascii "p"⟩

def exampleSession : ServerSession where
  config := { authType := .password
              accounts := fun username => if username == ascii "u" then some (ascii "p") else none }
  address := some localHostIP
  port := 1080
  clientAddress := none

def exampleRequest : RequestHeader where
  version := socks5Version
  command := requestCommandTCP
  address := some (.domain (ascii "a.b"))
  port := 80

/-- What the client writes. -/
def exampleSent : Bytes :=
  [5, 1, 2, 1, 1, 0x75, 1, 0x70] ++ [5, 1, 0, 3, 3, 0x61, 0x2e, 0x62, 0, 80]

/-- What the server answers. -/
def exampleAnswer : Bytes := [5, 2, 1, 0] ++ [5, 0, 0, 1, 127, 0, 0, 1, 4, 56]

theorem handshake_agrees_example :
    ∃ (tc' ts' : Side) (req : Request), req.header.port = 80 ∧
      req.header.address = some (.domain (ascii "a.b")) ∧
      tc'.reader.bytes = [9] ∧ ts'.reader.bytes = [7] := by
  have hclient := Conn.run_eq (s := exampleSide (exampleAnswer ++ [9])) (w := exampleSent)
    (x := clientHandshake (fun _ => none) exampleRequest (some exampleAccount))
    (by decide +kernel) (show _ = .ok none by decide +kernel)
  have hserver := Conn.run_eq (s := exampleSide (exampleSent ++ [7])) (w := exampleAnswer)
    (x := exampleSession.handshake (fun _ => none)) (by decide +kernel)
    (show _ = .ok ⟨{ exampleRequest with version := socks5Version }, some (ascii "u")⟩
      by decide +kernel)
  have hplain : Address.IsPlain (fun _ => none) (.domain (ascii "a.b")) :=
    ⟨by decide, by decide, by decide⟩
  have hshort : IsShort (some exampleAccount) := by
    rintro _ ⟨⟩
    decide
  obtain ⟨h, -, hc, hs⟩ := handshake_agrees (.inl rfl) rfl hplain (by rintro _ ⟨⟩; decide) hshort
    hclient hserver (show _ = _ ++ [9] by decide +kernel) (show _ = _ ++ [7] by decide +kernel)
  exact ⟨_, _, _, congrArg RequestHeader.port h, congrArg RequestHeader.address h, hc, hs⟩

end Socks

end Gzv2ray
