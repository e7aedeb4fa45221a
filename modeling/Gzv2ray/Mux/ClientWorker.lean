import Gzv2ray.Mux.SessionManager

/-!
# The limits of a client worker

A client worker opens a session for each request that is dispatched to it, up to the
limits of its strategy. `ClientWorker.isFull` asks for the limits; zero is no limit.
-/

namespace Gzv2ray.Mux

structure ClientStrategy where
  maxConcurrency : UInt32 := 0
  maxConnection : UInt32 := 0
  deriving DecidableEq

structure ClientWorker where
  sessionManager : SessionManager := {}
  /-- The connection is done. -/
  done : Bool := false
  strategy : ClientStrategy := {}

namespace ClientWorker

variable (m : ClientWorker)

def totalConnections : UInt32 := m.sessionManager.count.toUInt32

def activeConnections : UInt32 := UInt32.ofNat m.sessionManager.size

def closed : Bool := m.done

def isClosing : Bool :=
  0 < m.strategy.maxConnection && m.strategy.maxConnection.toNat ≤ m.sessionManager.count.toNat

/-- As many sessions are open as the strategy allows. -/
def isBusy : Bool :=
  0 < m.strategy.maxConcurrency && m.strategy.maxConcurrency.toNat ≤ m.sessionManager.size

def isFull : Bool := m.isClosing || m.closed || m.isBusy

end ClientWorker

end Gzv2ray.Mux
