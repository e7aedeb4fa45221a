import Mathlib.Tactic

/-!
# KCP configuration and round trip estimation

The settings a connection reads, with their defaults, and the round trip
estimator its retransmission timeout comes from.
-/

namespace Gzv2ray.Kcp

/-- The configuration of a connection: a setting that is absent takes its default. -/
structure Config where
  mtu : Option UInt32 := none
  tti : Option UInt32 := none
  uplinkCapacity : Option UInt32 := none
  downlinkCapacity : Option UInt32 := none
  writeBuffer : Option UInt32 := none
  readBuffer : Option UInt32 := none
  congestion : Bool := false

namespace Config

variable (c : Config)

def getMTUValue : UInt32 := c.mtu.getD 1350
def getTTIValue : UInt32 := c.tti.getD 50
def getUplinkCapacityValue : UInt32 := c.uplinkCapacity.getD 5
def getDownlinkCapacityValue : UInt32 := c.downlinkCapacity.getD 20
def getWriteBufferSize : UInt32 := c.writeBuffer.getD (2 * 1024 * 1024)
def getReadBufferSize : UInt32 := c.readBuffer.getD (2 * 1024 * 1024)

/-- The most segments in flight in the sending direction. -/
def getSendingInFlightSize : UInt32 :=
  let size := c.getUplinkCapacityValue * 1024 * 1024 / c.getMTUValue / (1000 / c.getTTIValue)
  if size < 8 then 8 else size

/-- The most segments waiting in the sending window. -/
def getSendingBufferSize : UInt32 := c.getWriteBufferSize / c.getMTUValue

/-- The most segments in flight in the receiving direction. -/
def getReceivingInFlightSize : UInt32 :=
  let size := c.getDownlinkCapacityValue * 1024 * 1024 / c.getMTUValue / (1000 / c.getTTIValue)
  if size < 8 then 8 else size

/-- The most segments waiting in the receiving window. -/
def getReceivingBufferSize : UInt32 := c.getReadBufferSize / c.getMTUValue

end Config

/-- The round trip estimator. -/
structure RoundTripInfo where
  variation : UInt32 := 0
  srtt : UInt32 := 0
  rto : UInt32
  minRtt : UInt32
  updatedTimestamp : UInt32 := 0

namespace RoundTripInfo

/-- Adopts the timeout announced by the peer, unless a recent one is known. -/
def updatePeerRTO (info : RoundTripInfo) (rto current : UInt32) : RoundTripInfo :=
  if current - info.updatedTimestamp < 3000 then info
  else { info with updatedTimestamp := current, rto }

/-- Takes a round trip sample into account. -/
def update (info : RoundTripInfo) (rtt current : UInt32) : RoundTripInfo :=
  if rtt > 0x7FFFFFFF then info
  else
    let (srtt, variation) :=
      if info.srtt = 0 then (rtt, rtt / 2)
      else
        let delta := if info.srtt > rtt then info.srtt - rtt else rtt - info.srtt
        let variation := (3 * info.variation + delta) / 4
        let srtt := (7 * info.srtt + rtt) / 8
        (if srtt < info.minRtt then info.minRtt else srtt, variation)
    let rto := if info.minRtt < 4 * variation then srtt + 4 * variation else srtt + variation
    let rto := if rto > 10000 then 10000 else rto
    { info with srtt, variation, rto := rto * 5 / 4, updatedTimestamp := current }

/-- The retransmission timeout. -/
def timeout (info : RoundTripInfo) : UInt32 := info.rto

end RoundTripInfo

end Gzv2ray.Kcp
