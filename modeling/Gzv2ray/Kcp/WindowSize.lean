import Gzv2ray.Kcp.Settings

/-!
# The size of KCP windows

How many segments the windows of a connection hold, from the settings as they are written.
The products are of 32 bits, so that a number of mebibytes wraps around from 4096 on.

* `segmentsInFlight`, `segmentsBuffered`: the numbers of segments without wrap-around;
* `KCPConfig.Sized`: a configuration whose windows have them;
* `windowSize_exact_iff`: exactly which accepted settings give such a configuration.
-/

namespace Gzv2ray.Kcp

/-! ## Numbers that wrap around -/

/-- A number that wraps around at `w` keeps its quotient by `k` only if it does not wrap. -/
theorem mod_div_eq_div_iff {x w k : ℕ} (hk : 0 < k) (hkw : k ≤ w) : x % w / k = x / k ↔ x < w := by
  constructor
  · intro h
    by_contra hx
    have hle : x % w + w ≤ x := by
      rw [Nat.mod_eq_sub_mod (by omega)]
      have := Nat.mod_le (x - w) w
      omega
    have hstep : x % w / k + 1 ≤ (x % w + w) / k := by
      rw [← Nat.add_div_right _ hk]
      exact Nat.div_le_div_right (by omega)
    have := hstep.trans (Nat.div_le_div_right hle)
    omega
  · intro h
    rw [Nat.mod_eq_of_lt h]

/-- It keeps the greater of its quotient and a floor `m` only if it does not wrap either,
    when what wraps is far above the floor. -/
theorem max_mod_div_eq_iff {x w k m : ℕ} (hk : 0 < k) (hkw : (m + 1) * k ≤ w) :
    max m (x % w / k) = max m (x / k) ↔ x < w := by
  have hle : k ≤ w := le_trans (Nat.le_mul_of_pos_left k (Nat.succ_pos m)) hkw
  constructor
  · intro h
    by_contra hx
    have hfloor : m + 1 ≤ x / k := (Nat.le_div_iff_mul_le hk).2 (by omega)
    have hlt : x % w / k < x / k :=
      lt_of_le_of_ne (Nat.div_le_div_right (Nat.mod_le x w)) (mt (mod_div_eq_div_iff hk hle).1 hx)
    omega
  · intro h
    rw [Nat.mod_eq_of_lt h]

/-- So many mebibytes, as the code computes them. -/
theorem toNat_mebibytes (n : UInt32) : (n * 1024 * 1024).toNat = n.toNat * 2 ^ 20 % 2 ^ 32 := by
  simp only [UInt32.toNat_mul, UInt32.reduceToNat]
  omega

/-! ## Segments -/

/-- The segments that go with a capacity, in mebibytes a second, in one interval of
    transmissions: eight at least. -/
def segmentsInFlight (capacity mtu tti : ℕ) : ℕ := max 8 (capacity * 2 ^ 20 / mtu / (1000 / tti))

/-- The segments that a buffer of so many bytes holds. -/
def segmentsBuffered (size mtu : ℕ) : ℕ := size / mtu

/-- The window of a capacity, as both directions compute it. -/
theorem toNat_inFlight {capacity mtu tti : UInt32} :
    (let size := capacity * 1024 * 1024 / mtu / (1000 / tti); if size < 8 then 8 else size).toNat =
      max 8 (capacity.toNat * 2 ^ 20 % 2 ^ 32 / (mtu.toNat * (1000 / tti.toNat))) := by
  have hsize : (capacity * 1024 * 1024 / mtu / (1000 / tti)).toNat =
      capacity.toNat * 2 ^ 20 % 2 ^ 32 / (mtu.toNat * (1000 / tti.toNat)) := by
    rw [UInt32.toNat_div, UInt32.toNat_div, UInt32.toNat_div, toNat_mebibytes, Nat.div_div_eq_div_mul]
    rfl
  dsimp only
  rw [← hsize]
  split
  · rename_i hlt
    have : (capacity * 1024 * 1024 / mtu / (1000 / tti)).toNat < 8 := UInt32.lt_iff_toNat_lt.1 hlt
    rw [max_eq_left (by omega)]
    rfl
  · rename_i hge
    have : ¬ (capacity * 1024 * 1024 / mtu / (1000 / tti)).toNat < 8 := by
      simpa [UInt32.lt_iff_toNat_lt] using hge
    rw [max_eq_right (by omega)]

section

variable {mtu tti : UInt32} (hmtu : 576 ≤ mtu.toNat ∧ mtu.toNat ≤ 1460)

include hmtu in
/-- The window of a capacity is exact as long as the capacity is below 4096. -/
theorem inFlight_eq_iff (capacity : UInt32) (htti : 10 ≤ tti.toNat ∧ tti.toNat ≤ 100) :
    (let size := capacity * 1024 * 1024 / mtu / (1000 / tti); if size < 8 then 8 else size).toNat =
        segmentsInFlight capacity.toNat mtu.toNat tti.toNat ↔
      capacity < 4096 := by
  have hper : 10 ≤ 1000 / tti.toNat ∧ 1000 / tti.toNat ≤ 100 :=
    ⟨(Nat.le_div_iff_mul_le (by omega)).2 (by omega), (Nat.div_le_iff_le_mul_add_pred (by omega)).2 (by omega)⟩
  have hpos : 0 < mtu.toNat * (1000 / tti.toNat) := Nat.mul_pos (by omega) (by omega)
  have hle : mtu.toNat * (1000 / tti.toNat) ≤ 1460 * 100 := Nat.mul_le_mul hmtu.2 hper.2
  rw [toNat_inFlight, segmentsInFlight, Nat.div_div_eq_div_mul, max_mod_div_eq_iff hpos (by omega),
    UInt32.lt_iff_toNat_lt]
  change _ ↔ capacity.toNat < 4096
  omega

include hmtu in
/-- The window of a buffer of so many mebibytes is exact as long as they are below 4096. -/
theorem buffered_eq_iff (size : UInt32) :
    (KCPConfig.bufferSize size / mtu).toNat =
        segmentsBuffered (if 0 < size.toNat then size.toNat * 2 ^ 20 else 512 * 2 ^ 10) mtu.toNat ↔
      size < 4096 := by
  rw [KCPConfig.bufferSize, segmentsBuffered, UInt32.toNat_div]
  by_cases hsize : 0 < size.toNat
  · have hpos : size > 0 := UInt32.lt_iff_toNat_lt.2 (by simpa using hsize)
    rw [if_pos hpos, if_pos hsize, toNat_mebibytes,
      mod_div_eq_div_iff (by omega) (by omega), UInt32.lt_iff_toNat_lt]
    change _ ↔ size.toNat < 4096
    omega
  · have hzero : ¬ size > 0 := fun h => hsize (by simpa using UInt32.lt_iff_toNat_lt.1 h)
    rw [if_neg hzero, if_neg hsize]
    refine iff_of_true rfl (UInt32.lt_iff_toNat_lt.2 ?_)
    change size.toNat < 4096
    omega

end

/-! ## Settings -/

namespace KCPConfig

/-- The settings as they are meant, with what stands for the absent ones. -/
def mtuValue (c : KCPConfig) : ℕ := (c.mtu.map UInt32.toNat).getD 1350
def ttiValue (c : KCPConfig) : ℕ := (c.tti.map UInt32.toNat).getD 50
def upCapValue (c : KCPConfig) : ℕ := (c.upCap.map UInt32.toNat).getD 5
def downCapValue (c : KCPConfig) : ℕ := (c.downCap.map UInt32.toNat).getD 20

/-- The bytes of a buffer: so many mebibytes, half of one for zero, two by default. -/
def bufferBytes (size : Option UInt32) : ℕ :=
  (size.map fun n => if 0 < n.toNat then n.toNat * 2 ^ 20 else 512 * 2 ^ 10).getD (2 * 2 ^ 20)

/-- A configuration whose windows have the sizes that the settings mean. -/
structure Sized (c : KCPConfig) (config : Config) : Prop where
  sendingInFlight : config.getSendingInFlightSize.toNat =
    segmentsInFlight c.upCapValue c.mtuValue c.ttiValue
  sendingBuffer : config.getSendingBufferSize.toNat =
    segmentsBuffered (bufferBytes c.writeBufferSize) c.mtuValue
  receivingInFlight : config.getReceivingInFlightSize.toNat =
    segmentsInFlight c.downCapValue c.mtuValue c.ttiValue
  receivingBuffer : config.getReceivingBufferSize.toNat =
    segmentsBuffered (bufferBytes c.readBufferSize) c.mtuValue

/-- Settings whose numbers of mebibytes fit 32 bits as bytes. -/
structure Fits (c : KCPConfig) : Prop where
  upCap : ∀ v ∈ c.upCap, v < 4096
  downCap : ∀ v ∈ c.downCap, v < 4096
  readBufferSize : ∀ v ∈ c.readBufferSize, v < 4096
  writeBufferSize : ∀ v ∈ c.writeBufferSize, v < 4096

section

variable {c : KCPConfig} {config : StreamConfig} (h : c.build = .ok config)
include h

theorem getMTUValue_of_build : config.getMTUValue.toNat = c.mtuValue := by
  rw [Config.getMTUValue, (built_of_build h).mtu, mtuValue]
  cases c.mtu <;> rfl

theorem getTTIValue_of_build : config.getTTIValue.toNat = c.ttiValue := by
  rw [Config.getTTIValue, (built_of_build h).tti, ttiValue]
  cases c.tti <;> rfl

/-- The window of a direction, whose capacity is a setting or a default that is not large. -/
theorem inFlight_of_build (capacity : Option UInt32) (value : UInt32)
    (hvalue : value < 4096) :
    (let size := capacity.getD value * 1024 * 1024 / config.getMTUValue / (1000 / config.getTTIValue)
      if size < 8 then 8 else size).toNat =
        segmentsInFlight ((capacity.map UInt32.toNat).getD value.toNat) c.mtuValue c.ttiValue ↔
      ∀ v ∈ capacity, v < 4096 := by
  have hcapacity : (capacity.map UInt32.toNat).getD value.toNat = (capacity.getD value).toNat := by
    cases capacity <;> rfl
  rw [hcapacity, ← getMTUValue_of_build h, ← getTTIValue_of_build h,
    inFlight_eq_iff (mtu_of_build h) _ (tti_of_build h)]
  cases capacity with
  | none => simpa using hvalue
  | some v => simp

/-- The window of a buffer, whose size is a setting or the default. -/
theorem buffered_of_build (size : Option UInt32) :
    ((size.map bufferSize).getD (2 * 1024 * 1024) / config.getMTUValue).toNat =
        segmentsBuffered (bufferBytes size) c.mtuValue ↔
      ∀ v ∈ size, v < 4096 := by
  rw [← getMTUValue_of_build h]
  cases size with
  | none => exact iff_of_true (UInt32.toNat_div _ _) nofun
  | some v =>
    rw [Option.map_some, Option.getD_some, bufferBytes, Option.map_some, Option.getD_some,
      buffered_eq_iff (mtu_of_build h)]
    simp

end

/-- The windows that come of accepted settings have the sizes the settings mean if and only if
    no setting in mebibytes is 4096 or more. -/
theorem windowSize_exact_iff (c : KCPConfig) (config : StreamConfig) (h : c.build = .ok config) :
    c.Sized config.toConfig ↔ c.Fits := by
  have hbuilt := built_of_build h
  have hsending : config.getSendingInFlightSize.toNat =
      segmentsInFlight c.upCapValue c.mtuValue c.ttiValue ↔ ∀ v ∈ c.upCap, v < 4096 := by
    rw [Config.getSendingInFlightSize, Config.getUplinkCapacityValue, hbuilt.uplinkCapacity]
    exact inFlight_of_build h c.upCap 5 (by decide)
  have hreceiving : config.getReceivingInFlightSize.toNat =
      segmentsInFlight c.downCapValue c.mtuValue c.ttiValue ↔ ∀ v ∈ c.downCap, v < 4096 := by
    rw [Config.getReceivingInFlightSize, Config.getDownlinkCapacityValue, hbuilt.downlinkCapacity]
    exact inFlight_of_build h c.downCap 20 (by decide)
  have hwrite : config.getSendingBufferSize.toNat =
      segmentsBuffered (bufferBytes c.writeBufferSize) c.mtuValue ↔ ∀ v ∈ c.writeBufferSize, v < 4096 := by
    rw [Config.getSendingBufferSize, Config.getWriteBufferSize, hbuilt.writeBuffer]
    exact buffered_of_build h c.writeBufferSize
  have hread : config.getReceivingBufferSize.toNat =
      segmentsBuffered (bufferBytes c.readBufferSize) c.mtuValue ↔ ∀ v ∈ c.readBufferSize, v < 4096 := by
    rw [Config.getReceivingBufferSize, Config.getReadBufferSize, hbuilt.readBuffer]
    exact buffered_of_build h c.readBufferSize
  constructor
  · intro hsized
    exact ⟨hsending.1 hsized.sendingInFlight, hreceiving.1 hsized.receivingInFlight,
      hread.1 hsized.receivingBuffer, hwrite.1 hsized.sendingBuffer⟩
  · intro hfits
    exact ⟨hsending.2 hfits.upCap, hwrite.2 hfits.writeBufferSize, hreceiving.2 hfits.downCap,
      hread.2 hfits.readBufferSize⟩

/-- Settings with the least capacity that wraps around. -/
def exampleCapacity : KCPConfig := { upCap := some 4096 }

/-- Their configuration. -/
def exampleCapacityConfig : StreamConfig := { uplinkCapacity := some 4096 }

theorem windowSize_exact_of_default :
    KCPConfig.Sized {} ({} : StreamConfig).toConfig ∧ KCPConfig.Fits {} := by
  have hfits : KCPConfig.Fits {} := ⟨nofun, nofun, nofun, nofun⟩
  exact ⟨(windowSize_exact_iff {} {} rfl).2 hfits, hfits⟩

/-- The window of accepted settings shrinks to eight segments. -/
theorem windowSize_wraps :
    exampleCapacity.build = .ok exampleCapacityConfig ∧
      exampleCapacityConfig.getSendingInFlightSize = 8 ∧
      segmentsInFlight exampleCapacity.upCapValue exampleCapacity.mtuValue exampleCapacity.ttiValue =
        159072 ∧
      ¬ exampleCapacity.Sized exampleCapacityConfig.toConfig := by
  have hwindow : exampleCapacityConfig.getSendingInFlightSize = 8 := by decide
  have hexact : segmentsInFlight exampleCapacity.upCapValue exampleCapacity.mtuValue
      exampleCapacity.ttiValue = 159072 := by decide
  refine ⟨rfl, hwindow, hexact, fun hsized => ?_⟩
  have heq := hsized.sendingInFlight
  rw [hwindow, hexact] at heq
  exact absurd heq (by decide)

end KCPConfig

end Gzv2ray.Kcp
