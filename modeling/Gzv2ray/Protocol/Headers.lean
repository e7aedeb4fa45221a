import Gzv2ray.Net.Address

/-!
# Request headers

What a request of the proxy protocols says, apart from its user.
-/

namespace Gzv2ray

/-- The command of a request. -/
abbrev RequestCommand := UInt8

def requestCommandTCP : RequestCommand := 0x01

def requestCommandUDP : RequestCommand := 0x02

def requestCommandMux : RequestCommand := 0x03

inductive SecurityType
  | unknown
  | legacy
  | auto
  | aes128Gcm
  | chacha20Poly1305
  | none
  | zero
  deriving DecidableEq

structure RequestHeader where
  version : UInt8 := 0
  command : RequestCommand := 0
  option : UInt8 := 0
  security : SecurityType := .unknown
  port : UInt16 := 0
  address : Option Address := .none
  deriving DecidableEq

end Gzv2ray
