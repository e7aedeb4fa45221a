import Gzv2ray.Net.AddressEncoding
import Gzv2ray.Net.Conn
import Gzv2ray.Protocol.Headers

/-!
# The handshake of SOCKS

The client offers one method of authentication and sends its credentials at once
if there are any; once it is accepted, it sends its request. The server chooses
the method by its own configuration.

* `clientHandshake`: the client, of version 5;
* `ServerSession.handshake`: the server, of version 4, 4a or 5.
-/

namespace Gzv2ray

namespace Socks

def socks5Version : UInt8 := 0x05

def socks4Version : UInt8 := 0x04

def cmdTCPConnect : UInt8 := 0x01

def cmdTCPBind : UInt8 := 0x02

def cmdUDPAssociate : UInt8 := 0x03

def cmdTorResolve : UInt8 := 0xF0

def cmdTorResolvePTR : UInt8 := 0xF1

def socks4RequestGranted : UInt8 := 90

def socks4RequestRejected : UInt8 := 91

def authNotRequired : UInt8 := 0x00

def authPassword : UInt8 := 0x02

def authNoMatchingMethod : UInt8 := 0xFF

def statusSuccess : UInt8 := 0x00

def statusCmdNotSupport : UInt8 := 0x07

def addrParser : AddressParser :=
  .new [.addressFamilyByte 0x01 AddressOption.one_lt .ipv4,
    .addressFamilyByte 0x04 AddressOption.four_lt .ipv6,
    .addressFamilyByte 0x03 AddressOption.three_lt .domain]

def anyIP : Address := .ofIPv4Bytes 0 0 0 0

def localHostIP : Address := .ofIPv4Bytes 127 0 0 1

def localHostIPv6 : Address := .ipv6 ⟨List.replicate 15 0 ++ [1], rfl⟩

inductive AuthType
  | noAuth
  | password
  deriving DecidableEq

structure Account where
  username : Bytes
  password : Bytes

structure ServerConfig where
  authType : AuthType
  accounts : Bytes → Option Bytes
  address : Option Address := none
  udpEnabled : Bool := false

def ServerConfig.hasAccount (c : ServerConfig) (username password : Bytes) : Bool :=
  match c.accounts username with
  | none => false
  | some storedPassed => storedPassed == password

structure ServerSession where
  config : ServerConfig
  address : Option Address
  port : UInt16
  clientAddress : Option Address

/-- A request, and the name of its user if it has one. -/
structure Request where
  header : RequestHeader
  user : Option Bytes := none
  deriving DecidableEq

def newError (text : String) : Error := Gzv2ray.newError "proxy/socks" text

/-- The error has a cause. -/
def failedTo (text : String) : Error → Error := (newError text).base

/-! ## Messages -/

/-- Reads so many bytes into an empty buffer. -/
def readFull (n : ℕ) : Conn Bytes := .read fun r => readFullFrom BufferedReader.readFull [] r n

def readAddressPort (parseIP : Bytes → Option IPv6) : Conn (Option Address × UInt16 × Bytes) :=
  .read (addrParser.readAddressPort parseIP BufferedReader.readFull [])

/-- A nil address has no family to ask for. -/
def writeAddressPort (address : Option Address) (port : UInt16) : Outcome Bytes :=
  match address with
  | none => .panic
  | some address =>
    match addrParser.writeAddressPort address port with
    | .ok b => .ok b
    | .error e => .error e

def authenticationResponse (version auth : UInt8) : Bytes := [version, auth]

/-- Three bytes and an address do fit in a buffer. -/
def socks5Response (errCode : UInt8) (address : Option Address) (port : UInt16) : Outcome Bytes :=
  match writeAddressPort address port with
  | .ok b => .ok ([socks5Version, errCode, 0x00] ++ b)
  | .error e => .error e
  | .panic => .panic

def writeSocks5Response (errCode : UInt8) (address : Option Address) (port : UInt16) : Conn Unit := do
  let b ← .ofOutcome (socks5Response errCode address port)
  .write b

/-- A rejection is sent to any address, and its failure ignored. -/
def rejectSocks5 (errCode : UInt8) : Conn Unit :=
  .tryWrite ([socks5Version, errCode, 0x00, 0x01, 0, 0, 0, 0, 0, 0])

/-- The response of version 4, to any address. -/
def socks4Response (errCode : UInt8) : Bytes := [0x00, errCode, 0, 0, 0, 0, 0, 0]

def readUsernamePassword : Conn (Bytes × Bytes) := do
  let buffer ← readFull 2
  let username ← readFull (buffer.getD 1 0).toNat
  let buffer ← readFull 1
  let password ← readFull (buffer.getD 0 0).toNat
  pure (username, password)

/-- The loop reads a byte at a time, up to a null byte or a full buffer. -/
def readUntilNullLoop : ℕ → Bytes → Conn Bytes
  | 0, _ => .error (newError "buffer overrun")
  | fuel + 1, b => do
    let byte ← readFull 1
    if byte.getD 0 0 = 0x00 then pure b
    else readUntilNullLoop fuel (b ++ byte)

def readUntilNull : Conn Bytes := readUntilNullLoop bufSize []

/-! ## The server -/

namespace ServerSession

variable (s : ServerSession) (parseIP : Bytes → Option IPv6)

/-- A domain comes in place of an address that starts with a null byte. -/
def readAddress4 (ip : Bytes) : Conn (Option Address) :=
  if ip.getD 0 0 = 0x00 then do
    let domain ← .mapError (failedTo "failed to read domain for socks 4a") readUntilNull
    pure (some (.domain domain))
  else pure (ipAddress ip)

def handshake4 (cmd : UInt8) : Conn Request := do
  if s.config.authType = .password then do
    .tryWrite (socks4Response socks4RequestRejected)
    .error (newError "socks 4 is not allowed when auth is required.")
  else do
    let buffer ← .mapError (failedTo "insufficient header") (readFull 6)
    let port := UInt16.ofNat (ofBigEndian (buffer.take 2))
    let ip := buffer.drop 2
    let _ ← readUntilNull
    let address ← readAddress4 ip
    if cmd = cmdTCPConnect then do
      .write (socks4Response socks4RequestGranted)
      pure { header := { version := socks4Version, command := requestCommandTCP, address, port } }
    else do
      .tryWrite (socks4Response socks4RequestRejected)
      .error (newError "unsupported command: ")

/-- The method that the configuration asks for. -/
def expectedAuth : UInt8 := if s.config.authType = .password then authPassword else authNotRequired

/-- Authenticates the client: its name, if there is one. -/
def auth5 (nMethod : UInt8) : Conn Bytes := do
  let buffer ← .mapError (failedTo "failed to read auth methods") (readFull nMethod.toNat)
  if !buffer.contains s.expectedAuth then do
    .tryWrite (authenticationResponse socks5Version authNoMatchingMethod)
    .error (newError "no matching auth method")
  else do
    .mapError (failedTo "failed to write auth response")
      (.write (authenticationResponse socks5Version s.expectedAuth))
    if s.expectedAuth = authPassword then do
      let (username, password) ← .mapError
        (failedTo "failed to read username and password for authentication") readUsernamePassword
      if !s.config.hasAccount username password then do
        .tryWrite (authenticationResponse 0x01 0xFF)
        .error (newError "invalid username or password")
      else do
        .mapError (failedTo "failed to write auth response")
          (.write (authenticationResponse 0x01 0x00))
        pure username
    else pure []

/-- The command of a request, if it is one that is supported. -/
def command5 (cmd : UInt8) : Except Error RequestCommand :=
  if cmd = cmdTCPConnect ∨ cmd = cmdTorResolve ∨ cmd = cmdTorResolvePTR then .ok requestCommandTCP
  else if cmd = cmdUDPAssociate then
    if s.config.udpEnabled then .ok requestCommandUDP else .error (newError "UDP is not enabled.")
  else if cmd = cmdTCPBind then .error (newError "TCP bind is not supported.")
  else .error (newError "unknown command ")

/-- The address that the client is to send packets to. -/
def responseAddress (command : RequestCommand) : Option Address :=
  if command = requestCommandUDP then
    match s.config.address with
    | some address => some address
    | none =>
      if s.clientAddress = some localHostIP ∨ s.clientAddress = some localHostIPv6 then
        s.clientAddress
      else s.address
  else s.address

def handshake5 (nMethod : UInt8) : Conn Request := do
  let username ← s.auth5 nMethod
  let buffer ← .mapError (failedTo "failed to read request") (readFull 3)
  match s.command5 (buffer.getD 1 0) with
  | .error e => do
    rejectSocks5 statusCmdNotSupport
    .error e
  | .ok command => do
    let (address, port, _) ← .mapError (failedTo "failed to read address") (readAddressPort parseIP)
    writeSocks5Response statusSuccess (s.responseAddress command) s.port
    pure { header := { version := socks5Version, command, address, port }
           user := if username = [] then none else some username }

def handshake : Conn Request := do
  let buffer ← .mapError (failedTo "insufficient header") (readFull 2)
  let version := buffer.getD 0 0
  let cmd := buffer.getD 1 0
  if version = socks4Version then s.handshake4 cmd
  else if version = socks5Version then s.handshake5 parseIP cmd
  else .error (newError "unknown Socks version: ")

end ServerSession

/-! ## The client -/

/-- The method that the client offers. -/
def authByte (user : Option Account) : UInt8 := if user.isSome then authPassword else authNotRequired

/-- A byte is appended to a buffer that is not full. -/
def mustWriteByte (b : Buffer) (v : UInt8) : Outcome Buffer :=
  if b.isFull then .panic else .ok (b.write [v]).1

/-- The credentials, behind what is in a buffer. -/
def credentials (b : Buffer) (account : Account) : Outcome Buffer :=
  match mustWriteByte b 0x01 with
  | .ok b =>
    match mustWriteByte b (UInt8.ofNat account.username.length) with
    | .ok b =>
      match mustWriteByte (b.write account.username).1 (UInt8.ofNat account.password.length) with
      | .ok b => .ok (b.write account.password).1
      | out => out
    | out => out
  | out => out

/-- The first message: the method, and the credentials if there are any. -/
def greeting (user : Option Account) : Outcome Buffer :=
  match user with
  | none => .ok (Buffer.new.write [socks5Version, 0x01, authNotRequired]).1
  | some account => credentials (Buffer.new.write [socks5Version, 0x01, authPassword]).1 account

/-- The request. Three bytes and an address do fit in a buffer. -/
def requestMessage (request : RequestHeader) : Outcome Bytes :=
  let command := if request.command = requestCommandUDP then cmdUDPAssociate else cmdTCPConnect
  match writeAddressPort request.address request.port with
  | .ok b => .ok ([socks5Version, command, 0x00] ++ b)
  | .error e => .error e
  | .panic => .panic

/-- The answer to the credentials, if they were sent. -/
def checkAccount (authByte : UInt8) : Conn Unit :=
  if authByte = authPassword then do
    let b ← readFull 2
    if b.getD 1 0 ≠ 0x00 then .error (newError "server rejects account: ") else pure ()
  else pure ()

/-- The handshake of the client: where it is to send packets to, if it wants to. -/
def clientHandshake (parseIP : Bytes → Option IPv6) (request : RequestHeader)
    (user : Option Account) : Conn (Option RequestHeader) := do
  let b ← .ofOutcome (greeting user)
  .write b.bytes
  let b ← readFull 2
  if b.getD 0 0 ≠ socks5Version then .error (newError "unexpected server version: ")
  else if b.getD 1 0 ≠ authByte user then .error (newError "auth method not supported.")
  else do
    checkAccount (authByte user)
    let b ← .ofOutcome (requestMessage request)
    .write b
    let b ← readFull 3
    if b.getD 1 0 ≠ 0x00 then .error (newError "server rejects request: ")
    else do
      let (address, port, _) ← readAddressPort parseIP
      if request.command = requestCommandUDP then
        pure (some { version := socks5Version, command := requestCommandUDP, address, port })
      else pure none

end Socks

end Gzv2ray
