import Gzv2ray.Lib.Transition
import Gzv2ray.Net.Address

/-!
# Inbounds whose ports change

A dynamic inbound listens on random ports of a range. From time to time it allocates
new ones and starts workers on them; the workers before are closed, and their ports
given back, two intervals after that.

* `InboundDetourConfig.build`: the receiver of a configuration, with the check that the
  range has enough ports;
* `DynamicInboundHandler.step`: the steps of the handler. A call of `allocatePort` is
  one step for each draw, under the lock of the ports; the workers of each refresh are
  closed in a goroutine of their own.

The other settings of a configuration are left out: they may refuse it as well.
-/

namespace Gzv2ray.Inbound

/-! ## The configuration -/

/-- A range of ports, as it is parsed. -/
@[ext]
structure PortRange where
  fromPort : ℕ
  toPort : ℕ
  le : fromPort ≤ toPort
  toPort_le : toPort ≤ 65535

instance : DecidableEq PortRange := fun _ _ => decidable_of_iff _ PortRange.ext_iff.symm

/-- The number of ports of a range. -/
def PortRange.size (r : PortRange) : ℕ := r.toPort - r.fromPort + 1

inductive AllocationType
  | always
  | random
  | external
  deriving DecidableEq

structure AllocationStrategy where
  type : AllocationType
  concurrency : Option UInt32
  refresh : Option UInt32
  deriving DecidableEq

structure ReceiverConfig where
  portRange : Option PortRange
  listen : Option Address
  allocationStrategy : Option AllocationStrategy
  deriving DecidableEq

/-- How many ports there are at a time. -/
def ReceiverConfig.getConcurrencyValue (r : ReceiverConfig) : ℕ :=
  ((r.allocationStrategy.bind (·.concurrency)).getD 3).toNat

structure InboundDetourAllocationConfig where
  strategy : Bytes
  concurrency : Option UInt32 := none
  refreshMin : Option UInt32 := none

def errNoPort : Error := .new (ascii ";isten on AnyIP but no Port(s) set in InboundDetour")

def errNoPortForIP : Error := .new (ascii "listen on specific ip without port in InboundDetour")

def errDomain : Error := .new (ascii "unable to listen on domain address")

def errNotEnoughPorts : Error := .new (ascii "not enough ports. concurrency")

def errStrategy : Error := .new (ascii "unknown allocation strategy")

/-- `strings.ToLower` of the letters of ASCII. No other letter becomes one of the names that
    the result is compared with. -/
def toLower (s : Bytes) : Bytes := s.map fun b => if 0x41 ≤ b && b ≤ 0x5a then b + 0x20 else b

def InboundDetourAllocationConfig.build (c : InboundDetourAllocationConfig) :
    Outcome AllocationStrategy :=
  if toLower c.strategy == ascii "always" then .ok ⟨.always, c.concurrency, c.refreshMin⟩
  else if toLower c.strategy == ascii "random" then .ok ⟨.random, c.concurrency, c.refreshMin⟩
  else if toLower c.strategy == ascii "external" then .ok ⟨.external, c.concurrency, c.refreshMin⟩
  else .error errStrategy

structure InboundDetourConfig where
  portRange : Option PortRange := none
  listenOn : Option Address := none
  allocation : Option InboundDetourAllocationConfig := none

namespace InboundDetourConfig

variable (c : InboundDetourConfig)

/-- The range of the receiver; there is none on a Unix domain socket. -/
def buildPortRange : Outcome (Option PortRange) :=
  let listenIP := match c.portRange with
    | none => Outcome.error errNoPortForIP
    | some r => .ok (some r)
  match c.listenOn with
  | none =>
    match c.portRange with
    | none => .error errNoPort
    | some r => .ok (some r)
  | some (.ipv4 _) => listenIP
  | some (.ipv6 _) => listenIP
  | some (.domain []) => .panic
  | some (.domain (b :: name)) =>
    if b :: name == ascii "localhost" then listenIP
    else if b == 0x2f || b == 0x40 then .ok none
    else .error errDomain

/-- The strategy of the receiver, if there are enough ports. -/
def buildAllocation : Outcome (Option AllocationStrategy) :=
  match c.allocation with
  | none => .ok none
  | some a =>
    match c.portRange with
    | none => .panic
    | some r =>
      let concurrency := if a.strategy == ascii "random" then a.concurrency else none
      if concurrency.any fun n => r.size ≤ n.toNat then .error errNotEnoughPorts
      else a.build >>= fun strategy => .ok (some strategy)

def build : Outcome ReceiverConfig :=
  c.buildPortRange >>= fun portRange => c.buildAllocation >>= fun allocationStrategy =>
    .ok { portRange, listen := c.listenOn, allocationStrategy }

end InboundDetourConfig

/-! ## The handler -/

/-- Where a refresh is. -/
inductive Refresh
  /-- The task waits. -/
  | idle
  /-- Between two workers. -/
  | loop
  /-- In `allocatePort`. -/
  | allocating
  /-- Workers are made for a port. -/
  | starting (port : ℕ)
  deriving DecidableEq

/-- Workers are known by their ports. -/
structure DynamicInboundHandler where
  receiverConfig : ReceiverConfig
  portsInUse : Finset ℕ := ∅
  refresh : Refresh := .idle
  /-- How many workers the refresh has dealt with. -/
  i : ℕ := 0
  /-- The workers of the refresh. -/
  workers : List ℕ := []
  /-- The workers of the refreshes before that have not been closed, the last ones first. -/
  pending : List (List ℕ) := []

/-- What becomes of a port: whether the proxy is made, and for the networks that it has
    whether a worker is started. -/
structure StartOutcome where
  created : Bool := true
  tcp : Option Bool := none
  udp : Option Bool := none
  deriving DecidableEq

/-- The number of workers that are started. None is after one that fails. -/
def StartOutcome.workers (o : StartOutcome) : ℕ :=
  if o.created then
    match o.tcp with
    | some false => 0
    | some true => if o.udp == some true then 2 else 1
    | none => if o.udp == some true then 1 else 0
  else 0

/-- What may happen next. -/
inductive Tick
  /-- The task runs. -/
  | tick
  /-- A port is asked for. -/
  | allocatePort
  /-- A number is drawn. -/
  | roll (r : ℕ)
  /-- Workers are started on the port. -/
  | start (o : StartOutcome)
  /-- The refresh is over. -/
  | finish
  /-- The workers of a refresh are closed. -/
  | closeWorkers (k : ℕ)

namespace DynamicInboundHandler

variable (h : DynamicInboundHandler)

/-- The ports of the range. -/
def range : Finset ℕ := h.receiverConfig.portRange.elim ∅ fun r => Finset.Icc r.fromPort r.toPort

def step : Tick → Option DynamicInboundHandler
  | .tick => if h.refresh = .idle then some { h with refresh := .loop, i := 0, workers := [] } else none
  | .allocatePort =>
    if h.refresh = .loop ∧ h.i < h.receiverConfig.getConcurrencyValue then
      some { h with refresh := .allocating }
    else none
  | .roll r =>
    match h.refresh, h.receiverConfig.portRange with
    | .allocating, some range =>
      if r < range.size then
        if range.fromPort + r ∈ h.portsInUse then some h
        else some { h with
          portsInUse := insert (range.fromPort + r) h.portsInUse
          refresh := .starting (range.fromPort + r) }
      else none
    | _, _ => none
  | .start o =>
    match h.refresh with
    | .starting port => some { h with
        refresh := .loop
        i := h.i + 1
        workers := h.workers ++ List.replicate o.workers port }
    | _ => none
  | .finish =>
    if h.refresh = .loop ∧ h.i = h.receiverConfig.getConcurrencyValue then
      some { h with
        refresh := .idle
        i := 0
        workers := []
        pending := h.workers :: h.pending }
    else none
  | .closeWorkers k =>
    -- The lock of the ports is held in `allocatePort`.
    if h.refresh = .allocating then none
    else
      match h.pending[k]? with
      | some workers => some { h with
          portsInUse := h.portsInUse \ workers.toFinset
          pending := h.pending.eraseIdx k }
      | none => none

/-- A worker has the port, or is made for it. -/
def Holds (port : ℕ) : Prop :=
  port ∈ h.workers ∨ (∃ workers ∈ h.pending, port ∈ workers) ∨ h.refresh = .starting port

/-- A port that is asked for can be found, and a port is in use if and only if a worker
    has it. -/
structure IsLawful : Prop where
  free : h.refresh = .allocating → h.portsInUse ⊂ h.range
  mem_iff : ∀ port, port ∈ h.portsInUse ↔ h.Holds port

/-- The ports of the refreshes whose workers have not been closed leave one, and every port
    gets a worker. -/
def HasRoom : Tick → Prop
  | .allocatePort => h.pending.length * h.receiverConfig.getConcurrencyValue + h.i < h.range.card
  | .start o => 0 < o.workers
  | _ => True

end DynamicInboundHandler

/-- The runs of the handler of a configuration. -/
def handling (c : InboundDetourConfig) : Lts DynamicInboundHandler Tick where
  init h := ∃ r, c.build = .ok r ∧ r.allocationStrategy.map (·.type) = some .random ∧
    h = { receiverConfig := r }
  step h a h' := h.step a = some h'

end Gzv2ray.Inbound
